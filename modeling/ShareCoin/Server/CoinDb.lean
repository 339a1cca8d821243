import ShareCoin.Server.Transaction

/-!
# `coin.cpp`, `block.cpp` — coin, transaction and block records

Three record stores hold a chain. The *coin* chain has, under the hash of a transaction, one
32-byte marker per output: null, or the hash of the transaction that spends it. The *tx* chain has
the height of the block that contains a transaction. The *block* chain has the blocks, by height.

The stores are described by what the functions here observe of them. `bc_find` returns the newest
record of a hash and `bc_idx_clear` removes one record, so the tx chain is a stack of heights for
each hash; the coin chain writes over an existing record, so it has at most one. A device that
refuses a write is a Boolean argument, `fWrite`.
-/

namespace ShareCoin.Server

open Function

structure CBlock where
  hash : Uint256
  vtx : List CTransaction
  deriving DecidableEq

def CBlock.getTx (env : TxEnv) (block : CBlock) (hash : Uint256) : Option CTransaction :=
  block.vtx.find? fun tx => env.getHash tx == hash

/-- The three stores of a coin. -/
structure ChainDb where
  coins : Uint256 → Option (List Uint256)
  txs : Uint256 → List Nat
  blocks : Nat → Option CBlock

/-! ## Transactions -/

def getTransaction (env : TxEnv) (db : ChainDb) (hash : Uint256) :
    Option (CTransaction × Uint256) :=
  match db.txs hash with
  | [] => none
  | blockHeight :: _ => do
    let block ← db.blocks blockHeight
    let tx ← block.getTx env hash
    some (tx, block.hash)

def verifyTxHash (env : TxEnv) (db : ChainDb) (hashTx : Uint256) : Bool :=
  (getTransaction env db hashTx).isSome

section

variable (env : TxEnv) (blockHeight : Nat) (db : ChainDb) (tx : CTransaction)

def writeTx : ChainDb :=
  let hash := env.getHash tx
  if (db.txs hash).head? = some blockHeight then db
  else { db with txs := update db.txs hash (blockHeight :: db.txs hash) }

def eraseTx : ChainDb :=
  { db with txs := update db.txs (env.getHash tx) (db.txs (env.getHash tx)).tail }

/-! ## Coins -/

/-- `CTransaction::ReadCoins`: a marker for each output, or `none` when the record is too short. -/
def readCoins : Option (List Uint256) :=
  match db.coins (env.getHash tx) with
  | none => some (List.replicate tx.vout.length 0)
  | some data => if data.length < tx.vout.length then none else some (data.take tx.vout.length)

def ChainDb.setCoins (hash : Uint256) (data : List Uint256) : ChainDb :=
  { db with coins := update db.coins hash (some data) }

end

/-- `WriteTxCoins`; `none` for `false`. A record longer than `vOuts` keeps its tail, and nothing is
    written when nothing changes. -/
def writeTxCoins (fWrite : Bool) (db : ChainDb) (hash : Uint256) (vOuts : List Uint256) :
    Option ChainDb :=
  match db.coins hash with
  | none =>
    if vOuts.all (· == 0) then some db
    else if fWrite then some (db.setCoins hash vOuts) else none
  | some data =>
    if data.length < vOuts.length then none
    else if data.take vOuts.length = vOuts then some db
    else if fWrite then some (db.setCoins hash (vOuts ++ data.drop vOuts.length)) else none

section

variable (env : TxEnv) (fWrite : Bool) (db : ChainDb) (tx : CTransaction)

def writeCoins (vOuts : List Uint256) : Option ChainDb :=
  if vOuts.length ≠ tx.vout.length then none
  else writeTxCoins fWrite db (env.getHash tx) vOuts

def eraseCoins : ChainDb :=
  { db with coins := update db.coins (env.getHash tx) none }

/-! ## Blocks -/

/-- The end of `CBlock::WriteBlock`: the block, then a reference for each of its transactions. -/
def storeBlock (nHeight : Nat) (block : CBlock) : ChainDb :=
  block.vtx.foldl (writeTx env nHeight)
    { db with blocks := update db.blocks nHeight (some block) }

/-- `CBlock::WriteBlock`. A block that is already stored at the height is not written again, and
    neither are the references of its transactions; another block at the height is cleared first.
    -/
def writeBlock (nHeight : Nat) (block : CBlock) : Bool × ChainDb :=
  if (db.blocks nHeight).map CBlock.hash = some block.hash then (true, db)
  else if fWrite then (true, storeBlock env db nHeight block)
  else (false, { db with blocks := update db.blocks nHeight none })

/-! ## Reading a marker -/

/-- The marker of an output: null when it has no record. -/
def ChainDb.marker (o : COutPoint) : Uint256 :=
  ((db.coins o.hash).bind fun data => data[o.n.toNat]?).getD 0

end

end ShareCoin.Server
