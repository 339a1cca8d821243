import ShareCoin.Server.Disconnect

/-!
# `wallettx.cpp`, `wallet.cpp` — transactions of the wallet

A transaction of the wallet is in memory, in the active database, or in the archive, which takes
those that have nothing left to spend. In memory there is a flag for each output. A record has one
flag for all of them: it is set if any output is spent, and it is read back for every output.

`core_UnacceptWalletTransaction` cancels a transaction: it takes it out of the wallet and the pool
and marks what it spent as unspent. Reverting an active transaction of the pool does the latter, in
`core_DisconnectInputs`; the loop at the end of the cancel has nothing to go over.

The extension tables, the cached amounts and the fee estimator are left out, and reads and writes of
the databases succeed.
-/

namespace ShareCoin.Server

open Function

/-! ## The wallet -/

structure CWalletTx where
  tx : CTransaction
  vfSpent : List Bool
  deriving DecidableEq

/-- A transaction as it is serialized. -/
structure WalletRecord where
  tx : CTransaction
  fSpent : Bool
  deriving DecidableEq

/-- `IMPLEMENT_SERIALIZE`, writing. -/
def CWalletTx.serialize (wtx : CWalletTx) : WalletRecord := ⟨wtx.tx, wtx.vfSpent.any id⟩

/-- `IMPLEMENT_SERIALIZE`, reading. -/
def WalletRecord.unserialize (r : WalletRecord) : CWalletTx :=
  ⟨r.tx, List.replicate r.tx.vout.length r.fSpent⟩

/-- `CWallet`: the memory, the active database and the archive. -/
structure CWallet where
  mapWallet : Uint256 → Option CWalletTx
  db : Uint256 → Option WalletRecord
  arch : Uint256 → Option WalletRecord

def CWallet.removeTx (wallet : CWallet) (hash : Uint256) : CWallet where
  db := update wallet.db hash none
  mapWallet := update wallet.mapWallet hash none
  arch := update wallet.arch hash none

/-- `CWallet::GetTx` where `HasTx` holds: the transaction, and the wallet with it in memory. All
    outputs of an archived transaction are marked as spent. -/
def CWallet.getTx (wallet : CWallet) (hash : Uint256) : Option (CWalletTx × CWallet) :=
  match wallet.mapWallet hash with
  | some wtx => some (wtx, wallet)
  | none =>
    (wallet.arch hash).map fun r =>
      let wtx : CWalletTx := ⟨r.tx, r.unserialize.vfSpent.map fun _ => true⟩
      (wtx, { wallet with mapWallet := update wallet.mapWallet hash (some wtx) })

def CWalletTx.newSpent (wtx : CWalletTx) : List Bool :=
  wtx.vfSpent.takeD wtx.tx.vout.length false

/-- "mark output as unspent", in memory and in the active database. -/
def CWallet.markUnspent (wallet : CWallet) (wtx : CWalletTx) (prevout : COutPoint) : CWallet :=
  let wtx := { wtx with vfSpent := wtx.newSpent.set prevout.n.toNat false }
  { mapWallet := update wallet.mapWallet prevout.hash (some wtx)
    db := update wallet.db prevout.hash (some wtx.serialize)
    arch := update wallet.arch prevout.hash none }

/-- `core_DisconnectWalletInputs`. There is no value where a flag is read that is not there. -/
def disconnectWalletInputs (wallet : CWallet) (prevout : COutPoint) : Option CWallet :=
  match wallet.getTx prevout.hash with
  | none => some wallet
  | some (wtx, wallet) =>
    match wtx.newSpent[prevout.n.toNat]? with
    | none => none
    | some false => some wallet
    | some true => some (wallet.markUnspent wtx prevout)

def disconnectWallet (env : TxEnv) (wallet : CWallet) (tx : CTransaction) : Option CWallet :=
  (if tx.isCoinBase then some wallet
    else Lib.exec (fun wallet txin => disconnectWalletInputs wallet txin.prevout) wallet tx.vin).map
    fun wallet => wallet.removeTx (env.getHash tx)

/-- `CWallet::AddTx` of a hash, at most `fuel` calls deep. The transaction that is read is not
    passed on: the last call is the same one again. -/
def CWallet.addTx (env : TxEnv) (db : ChainDb) (hTx : Uint256) :
    (fuel : Nat) → CWallet → Option (Bool × CWallet)
  | 0, _ => none
  | fuel + 1, wallet =>
    match getTransaction env db hTx with
    | none => some (false, wallet)
    | some _ => wallet.addTx env db hTx fuel

/-! ## Cancelling -/

structure WalletNode where
  db : ChainDb
  pool : CPool
  wallet : CWallet

/-- `CPool::RemoveTx`, with the wallet: `revert` erases the transaction and disconnects it. -/
def removePoolTx (env : TxEnv) (node : WalletNode) (hash : Uint256) : Option WalletNode :=
  let wallet :=
    match findTx env node.pool.active hash with
    | some tx => disconnectWallet env (node.wallet.removeTx (env.getHash tx)) tx
    | none => some node.wallet
  wallet.map fun wallet =>
    let s := removeTx env ⟨node.db, node.pool⟩ hash
    ⟨s.db, s.pool, wallet⟩

def unacceptInput (wallet : CWallet) (txin : CTxIn) : CWallet :=
  match wallet.getTx txin.prevout.hash with
  | none => wallet
  | some (wtx, wallet) =>
    if wtx.tx.vout.length ≤ txin.prevout.n.toNat then wallet
    else wallet.markUnspent wtx txin.prevout

def coreUnacceptWalletTransaction (env : TxEnv) (node : WalletNode) (tx : CTransaction) :
    Option (Bool × WalletNode) :=
  let hash := env.getHash tx
  -- declared, and never filled
  let vIn : List CTxIn := []
  if verifyTxHash env node.db hash then some (false, node)
  else
    let node := { node with wallet := node.wallet.removeTx hash }
    (if (node.pool.getTx env hash).isSome then removePoolTx env node hash else some node).map
      fun node => (true, { node with
        db := eraseCoins env node.db tx
        wallet := vIn.foldl unacceptInput node.wallet })

end ShareCoin.Server
