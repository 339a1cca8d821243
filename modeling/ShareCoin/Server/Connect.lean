import ShareCoin.Server.CoinDb
import ShareCoin.Server.Matrix
import ShareCoin.Server.BlockValue
import ShareCoin.Lib.Run

/-!
# `coin.cpp` — connecting a block

`core_ConnectBlock` walks over the transactions of a block and queues, for every previous
transaction, the markers of its outputs with the new spends set. Only after the walk are the queued
markers written, and then the block. What a coinbase does to the validate matrix of the wallet is
not queued: it happens during the walk.

Scripts are run elsewhere, so `ConnectEnv` has a field for each thing that is asked of them. A
`Node` is what the functions read and write: the stores, the memory pool, the matrix part of the
wallet, and the table of known blocks.
-/

namespace ShareCoin.Server

/-! ## The memory pool -/

abbrev TxCache := Uint256 → Option CTransaction

structure CPoolTx where
  tx : CTransaction
  mapInputs : TxCache := fun _ => none
  mapNextTx : List COutPoint := []
  nWeight : Int := 0
  nTxSize : Int := 0

/-- `CPool`: its four queues, each in the order of its map, and the hashes of invalid
    transactions. -/
structure CPool where
  active : List CPoolTx := []
  pending : List CPoolTx := []
  overflow : List CPoolTx := []
  stale : List CPoolTx := []
  inval : List Uint256 := []

def findEntry (env : TxEnv) (queue : List CPoolTx) (hash : Uint256) : Option CPoolTx :=
  queue.find? fun ptx => env.getHash ptx.tx == hash

def findTx (env : TxEnv) (queue : List CPoolTx) (hash : Uint256) : Option CTransaction :=
  (findEntry env queue hash).map CPoolTx.tx

/-- `CPool::GetTx` without flags, and `exists` with `lookup`. -/
def CPool.getTx (env : TxEnv) (pool : CPool) (hash : Uint256) : Option CTransaction :=
  ((findTx env pool.active hash).or (findTx env pool.pending hash)).or
    ((findTx env pool.overflow hash).or (findTx env pool.stale hash))

/-! ## The parts of a connect -/

/-- What is asked of scripts and of other parts of the server. -/
structure ConnectEnv extends MatrixEnv, BlockValueEnv where
  getBlockScriptFlags : CBlockIndex → UInt32
  sequenceLocks : CTransaction → UInt32 → List Nat → CBlockIndex → Bool
  verifySignature : CTransaction → CTransaction → Nat → UInt32 → Bool
  verifyCoinInputs : CTransaction → Nat → CTxOut → Bool
  getLegacySigOpCount : CTransaction → Nat
  getSigOpCount : CScript → CScript → Nat
  colorMaturity : Nat
  colorTotalBlocks : Nat

/-- The state of the server, as far as it is read here. `blockIndex` is the height that
    `GetBlockIndexByHash` finds. -/
structure Node where
  db : ChainDb
  pool : CPool
  validate : ValidateState
  blockIndex : Uint256 → Option Nat
  best : Option CBlockIndex

/-- Which writes the device accepts. -/
structure Disk where
  coins : Uint256 → Bool
  block : Bool

/-- `tx_map mapOutput` with `mapTx`: the two maps get their keys together. -/
abbrev TxMap := Std.TreeMap Uint256 (CTransaction × List Uint256)

def isScriptHash (script : CScript) : Bool :=
  script.length == 23 && script.take 2 == [opHash160, 0x14] && script.drop 22 == [0x87]

def isPayToScriptHash (script : CScript) : Bool :=
  if script.length ≤ 23 then isScriptHash script
  else
    match script with
    | mode :: op :: pc =>
      if ! isExtMode mode || op < 0x51 || 0x5f < op then false
      else ((dropPrefixLoop pc.length pc).map isScriptHash).getD false
    | _ => false

/-- The search for a previous transaction: the chain, then the pool, then the block itself. The hash
    of the block it is in is null unless it was found in the chain. -/
def findPrevTx (env : ConnectEnv) (node : Node) (pBlock : Option CBlock) (hash : Uint256) :
    Option (CTransaction × Uint256) :=
  match getTransaction env.toTxEnv node.db hash with
  | some found => some found
  | none =>
    match node.pool.getTx env.toTxEnv hash with
    | some tx => some (tx, 0)
    | none => (pBlock.bind fun block => block.getTx env.toTxEnv hash).map fun tx => (tx, 0)

def getCoinbaseMaturity (env : ConnectEnv) (iface : CIface) : Nat :=
  if iface.ifaceIndex = .color then env.colorMaturity else iface.coinbaseMaturity

/-- The checks on a previous transaction that is a coinbase. The depth is `unsigned`. The source
    takes the color from `pBlock`, which a caller without a block does not have. -/
def isMature (env : ConnectEnv) (iface : CIface) (node : Node) (pindexBlock : CBlockIndex)
    (prevblockhash : Uint256) : Bool :=
  if prevblockhash = 0 then false
  else
    match node.blockIndex prevblockhash with
    | none => false
    | some nHeight =>
      let nDepth := ((pindexBlock.nHeight : Int) - nHeight) % 2 ^ 32
      decide ((getCoinbaseMaturity env iface : Int) ≤ nDepth)

/-- The test for a double spend: the marker names another transaction, which is in the chain. -/
def alreadySpent (env : TxEnv) (db : ChainDb) (tx : CTransaction) (marker : Uint256) : Bool :=
  marker != 0 && marker != env.getHash tx && verifyTxHash env db marker

/-- The markers of a previous transaction: queued, or else read from the coin chain. -/
def queuedOuts (env : TxEnv) (db : ChainDb) (mapOutput : TxMap) (hash : Uint256)
    (prevtx : CTransaction) : Option (List Uint256) :=
  match mapOutput[hash]? with
  | some (_, outs) => some outs
  | none => readCoins env db prevtx

/-- What the loop over the inputs of a transaction carries. -/
structure InputState where
  mapOutput : TxMap
  nSigOps : Int32
  nValueIn : Int64

/-- `fVerifySig` and `fVerifyInputs`. `fRequireInputs` makes no difference: a previous transaction
    that is not found has no outputs, and is refused for that. -/
structure ConnectFlags where
  fVerifySig : Bool
  fVerifyInputs : Bool

/-! ## One transaction -/

/-- The body of the loop of `core_ConnectCoinInputs`, for input `i`. `none` stands for
    `return error(..)`. The value of the output is added twice, once before and once after the
    signature has been verified. -/
def connectInput (env : ConnectEnv) (iface : CIface) (node : Node) (fl : ConnectFlags)
    (pindexBlock : CBlockIndex) (pBlock : Option CBlock) (tx : CTransaction) (s : InputState)
    (input : CTxIn × Nat) : Option InputState := do
  let (txin, i) := input
  let prevout := txin.prevout
  let n := prevout.n.toNat
  let (prevtx, prevblockhash) ← findPrevTx env node pBlock prevout.hash
  let out ← prevtx.vout[n]?
  if ! moneyRange iface out.nValue then none
  else if prevtx.isCoinBase && ! isMature env iface node pindexBlock prevblockhash then none
  else
    let outs ← queuedOuts env.toTxEnv node.db s.mapOutput prevout.hash prevtx
    if outs.length ≠ prevtx.vout.length then none
    else
      let marker ← outs[n]?
      if alreadySpent env.toTxEnv node.db tx marker then none
      else
        let nValueIn := s.nValueIn + out.nValue
        if fl.fVerifySig &&
            ! env.verifySignature prevtx tx i (env.getBlockScriptFlags pindexBlock) then none
        else if fl.fVerifyInputs && ! env.verifyCoinInputs tx i out then none
        else
          some {
            mapOutput := s.mapOutput.insert prevout.hash (prevtx, outs.set n (env.getHash tx))
            nSigOps := s.nSigOps + Int32.ofNat
              (if isPayToScriptHash out.scriptPubKey then
                env.getSigOpCount out.scriptPubKey txin.scriptSig else 0)
            -- "add up output values", for the second time
            nValueIn := nValueIn + out.nValue }

/-- What the loop over the transactions of a block carries. -/
structure ConnectState where
  mapOutput : TxMap
  nSigOps : Int32
  nFees : Int64

section

variable (env : ConnectEnv) (iface : CIface) (node : Node) (fl : ConnectFlags)
  (pindexBlock : CBlockIndex) (pBlock : Option CBlock)

/-- `core_ConnectCoinInputs` of a transaction that is no coinbase. -/
def connectSpends (tx : CTransaction) (s : ConnectState) : Option ConnectState := do
  let start := {
    mapOutput := s.mapOutput
    nSigOps := s.nSigOps + Int32.ofNat (env.getLegacySigOpCount tx)
    nValueIn := 0 }
  let r ← Lib.exec (connectInput env iface node fl pindexBlock pBlock tx) start tx.vin.zipIdx
  let nTxFee := r.nValueIn - tx.getValueOut
  if ! moneyRange iface nTxFee then none
  else if ! moneyRange iface r.nValueIn then none
  else if r.nValueIn < tx.getValueOut then none
  else some { mapOutput := r.mapOutput, nSigOps := r.nSigOps, nFees := s.nFees + nTxFee }

def hasValidateMatrix : CoinIface → Bool
  | .test | .testnet | .shc => true
  | _ => false

/-- The coinbase branch of `core_ConnectCoinInputs`. The outer `none` is for an exception. -/
def connectCoinBase (tx : CTransaction) (validate : ValidateState) :
    Option (Bool × ValidateState) :=
  if hasValidateMatrix iface.ifaceIndex then do
    let (fCheck, validate) ← blockAcceptValidateMatrix env.toMatrixEnv iface.ifaceIndex validate tx
      (pindexBlock.pprev.or node.best)
    some (fCheck != some false, validate)
  else some (true, validate)

/-- `core_ConnectCoinInputs`: `none` in the first component for `return (false)`. -/
def connectCoinInputs (tx : CTransaction) (s : ConnectState) (validate : ValidateState) :
    Option (Option ConnectState × ValidateState) :=
  if tx.isCoinBase then do
    let (ok, validate) ← connectCoinBase env iface node pindexBlock tx validate
    some (if ok then some s else none, validate)
  else some (connectSpends env iface node fl pindexBlock pBlock tx s, validate)

/-! ## One block -/

/-- `fEnforceBIP34`; the heights are compared as `unsigned`. -/
def enforcesBip34 (nHeight : Nat) : Bool :=
  iface.bip34Height != -1 && decide (iface.bip34Height % 2 ^ 32 ≤ nHeight)

/-- `fEnforceBIP30`. -/
def enforcesBip30 (nHeight : Nat) : Bool :=
  ! enforcesBip34 iface nHeight && iface.bip30Height != -1 &&
    decide (iface.bip30Height % 2 ^ 32 ≤ nHeight)

def checkBip30 (db : ChainDb) (nHeight : Nat) (block : CBlock) : Bool :=
  ! enforcesBip30 iface nHeight || block.vtx.all fun tx =>
    match getTransaction env.toTxEnv db (env.getHash tx) with
    | none => true
    | some (_, hPrevBlock) =>
      hPrevBlock == block.hash ||
        ((readCoins env.toTxEnv db tx).getD []).all fun marker => marker != 0

def checkBip34 (db : ChainDb) (nHeight : Nat) (block : CBlock) : Bool :=
  iface.ifaceIndex == .emc2 || iface.ifaceIndex == .ltc || ! enforcesBip34 iface nHeight ||
    block.vtx.all fun tx =>
      match getTransaction env.toTxEnv db (env.getHash tx) with
      | none => true
      | some (_, hBlock) => hBlock == block.hash

/-- The check of BIP68. The heights of the inputs are looked up by the hashes of the previous
    transactions, in the table of blocks. -/
def checkSequenceLocks (block : CBlock) (pindex : CBlockIndex) : Bool :=
  block.vtx.all fun tx =>
    tx.isCoinBase || env.sequenceLocks tx (env.getBlockScriptFlags pindex)
      (tx.vin.map fun txin => (node.blockIndex txin.prevout.hash).getD 0) pindex

/-- The checks before the walk. -/
def checkContext (block : CBlock) (pindex : CBlockIndex) : Bool :=
  checkBip30 env iface node.db pindex.nHeight block &&
    checkBip34 env iface node.db pindex.nHeight block && checkSequenceLocks env node block pindex

end

def blockFlags : ConnectFlags := { fVerifySig := true, fVerifyInputs := false }

/-- The walk over the transactions. -/
def connectTxs (env : ConnectEnv) (iface : CIface) (node : Node) (pindex : CBlockIndex)
    (block : CBlock) : List CTransaction → ConnectState → ValidateState →
      Option (Option ConnectState × ValidateState)
  | [], s, validate => some (some s, validate)
  | tx :: txs, s, validate => do
    let (r, validate) ←
      connectCoinInputs env iface node blockFlags pindex (some block) tx s validate
    match r with
    | none => some (none, validate)
    | some s => connectTxs env iface node pindex block txs s validate

def tooManySigOps (iface : CIface) (nSigOps : Int32) : Bool :=
  decide ((iface.maxSigops : Int) < nSigOps.toInt % 2 ^ 64)

/-- The loop that commits the queued spends: it stops at the first write that fails. -/
def commitCoins (env : ConnectEnv) (disk : Disk) :
    List (Uint256 × CTransaction × List Uint256) → ChainDb → Bool × ChainDb
  | [], db => (true, db)
  | (prevhash, prevtx, outs) :: rest, db =>
    match writeCoins env.toTxEnv (disk.coins prevhash) db prevtx outs with
    | none => (false, db)
    | some db => commitCoins env disk rest db

def commitHeight (env : ConnectEnv) (iface : CIface) (pindex : CBlockIndex) : Nat :=
  if iface.ifaceIndex = .color then env.colorTotalBlocks else pindex.nHeight

section

variable (env : ConnectEnv) (disk : Disk) (iface : CIface)

/-- What follows the checks: the queued spends, and the block unless it is the first one. -/
def commitBlock (db : ChainDb) (mapOutput : TxMap) (block : CBlock) (pindex : CBlockIndex) :
    Bool × ChainDb :=
  match commitCoins env disk mapOutput.toList db with
  | (false, db) => (false, db)
  | (true, db) =>
    match pindex.pprev with
    | none => (true, db)
    | some _ => writeBlock env.toTxEnv disk.block db (commitHeight env iface pindex) block

/-- The checks on a block whose transactions have all been connected; `none` when there is no
    transaction at all, as `vtx[0]` is read. -/
def checkTotals (block : CBlock) (pindex : CBlockIndex) (s : ConnectState) : Option Bool :=
  if tooManySigOps iface s.nSigOps then some false
  else
    match block.vtx with
    | [] => none
    | coinbase :: _ =>
      some (coinbase.getValueOut ≤ getBlockValue env.toBlockValueEnv iface.ifaceIndex
        pindex.nHeight s.nFees)

/-- `core_ConnectBlock`, up to the wallet and the extension tables, which are updated once nothing
    can fail any more. `none` is for a call that does not return. -/
def coreConnectBlock (node : Node) (block : CBlock) (pindex : CBlockIndex) : Option (Bool × Node) :=
  if ! checkContext env iface node block pindex then some (false, node)
  else do
    let start := { mapOutput := ∅, nSigOps := 0, nFees := 0 }
    let (r, validate) ← connectTxs env iface node pindex block block.vtx start node.validate
    match r with
    | none => some (false, { node with validate := validate })
    | some s =>
      let ok ← checkTotals env iface block pindex s
      if ! ok then some (false, { node with validate := validate })
      else
        let (ok, db) := commitBlock env disk iface node.db s.mapOutput block pindex
        some (ok, { node with db := db, validate := validate })

end

end ShareCoin.Server
