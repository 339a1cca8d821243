import ShareCoin.Ext.Records

/-!
# `altchain.cpp` — the tips of the color chains

A transaction of an alternative chain holds a block of one color. The wallet keeps the best block of
each color, and in `mapColorPool` the tip of the blocks that follow in the transaction pool.
`ConnectAltChainTx` makes a block the best one of its color; then `ReorganizeColorPoolMap` walks
through the pool from the block that was the best one before, or from the null hash if the color is
new. In each round it takes the first pooled transaction whose block follows. `CommitAltChainTx` is
called for a transaction of a block that connects: it forgets the tip in the pool, and hands the
block to the color coin if it follows the best one.

The rounds are bounded by `fuel`; a call without a value ran out of it, read the first output of an
alternative transaction that is not there, or failed an assertion.
-/

namespace ShareCoin.Ext

open Wire Function
open Server hiding CTransaction

structure ColorTables where
  mapColor : Uint160 → Option Uint256
  mapColorHead : Uint256 → Option Uint160
  mapColorPool : Uint160 → Option Uint256
  mapColorOpt : Uint160 → Option (Nat → Option Nat)

/-- The tables before the first block. -/
def ColorTables.empty : ColorTables where
  mapColor := fun _ => none
  mapColorHead := fun _ => none
  mapColorPool := fun _ => none
  mapColorOpt := fun _ => none

/-! ## Blocks -/

def opAltChain : Nat := 4

def decodeAltChainHash : CScript → Option (UInt8 × Uint160) := decodeExtHash opAltChain

def isAltChainTx : CTransaction → Bool := isRecordTx txfAltChain decodeAltChainHash

def getAltChain (tx : CTransaction) : Option CAltChain :=
  if hasFlag tx.nFlag txfAltChain then some tx.altchain else none

def altBlockHash (env : RecordEnv) (block : CAltBlock) : Uint256 :=
  env.hash (CAltBlock.codec.put block)

/-- The loop of `ParseColorOptScript`; each round takes two opcodes, so the length bounds it. -/
def parseColorOptLoop : Nat → CScript → (Nat → Option Nat) → Option (Nat → Option Nat)
  | 0, _, opt => some opt
  | fuel + 1, pc, opt =>
    match getOp pc with
    | none => some opt
    | some (modecode, _, pc) =>
      match getOp pc with
      | none => some opt
      | some (valuecode, _, pc) => do
        let mode ← decodeOpN modecode
        let value ← decodeOpN valuecode
        parseColorOptLoop fuel pc
          (if mode = 0 ∨ value = 0 then opt else update opt mode (some value))

def parseColorOptScript (script : CScript) : Option (Nat → Option Nat) :=
  match getOp script with
  | none => some fun _ => none
  | some (modecode, _, pc) =>
    match getOp pc with
    | none => some fun _ => none
    | some (valuecode, _, pc) =>
      if modecode ≠ opReturn then some fun _ => none
      else if valuecode ≠ 0 then some fun _ => none
      else parseColorOptLoop script.length pc fun _ => none

/-! ## The pool -/

/-- The inner loop of `ReorganizeColorPoolMap`: the hash of the first pooled block that follows. Its
    color is not looked at. -/
def nextPooled (env : RecordEnv) (vTx : List CTransaction) (hPrevBlock : Uint256) :
    Option Uint256 :=
  vTx.findSome? fun tx =>
    if ! isAltChainTx tx then none
    else
      (getAltChain tx).bind fun alt =>
        if alt.block.hashPrevBlock = hPrevBlock then some (altBlockHash env alt.block) else none

/-- The outer loop of `ReorganizeColorPoolMap`, with the entry of the color. -/
def reorganizeLoop (env : RecordEnv) (vTx : List CTransaction) :
    Nat → Uint256 → Option Uint256 → Option (Option Uint256)
  | 0, _, _ => none
  | fuel + 1, hPrevBlock, entry =>
    match nextPooled env vTx hPrevBlock with
    | none => some entry
    | some hash => reorganizeLoop env vTx fuel hash (some hash)

section

variable (env : RecordEnv) (fuel : Nat) (t : ColorTables) (vTx : List CTransaction)

def reorganizeColorPoolMap (hColor : Uint160) (hashBlock : Uint256) : Option ColorTables :=
  (reorganizeLoop env vTx fuel hashBlock none).map fun entry =>
    { t with
      mapColorPool := update t.mapColorPool hColor entry }

/-! ## Connecting a block -/

/-- The first steps of `ConnectAltChainTx` for a color that has no block yet. -/
def establishColor (alt : CAltChain) : Option (Option ColorTables) :=
  if alt.block.hashPrevBlock ≠ 0 then some none
  else do
    let altTx ← alt.vtx[0]?
    let out ← altTx.vout[0]?
    let opt ← parseColorOptScript out.scriptPubKey
    some (some { t with
      mapColorOpt := update t.mapColorOpt alt.hColor (some opt)
      mapColorHead :=
        update t.mapColorHead (altBlockHash env alt.block) (some alt.hColor) })

/-- Whether `ConnectAltChainTx` takes a block of an established color for an orphan. The hash that
    is compared with the pool's tip is the best block again. -/
def isOrphanBlock (alt : CAltChain) (hashBlock : Uint256) : Bool :=
  if alt.block.hashPrevBlock ≠ hashBlock then
    if (t.mapColorPool alt.hColor).isNone then true
    else
      let hashPoolBlock := hashBlock
      alt.block.hashPrevBlock != hashPoolBlock
  else false

def connectAltChainTx (tx : CTransaction) : Option (Bool × ColorTables) :=
  match getAltChain tx with
  | none => some (false, t)
  | some alt =>
    let connect (t : ColorTables) (hashBlock : Uint256) : Option (Bool × ColorTables) :=
      let t := { t with
        mapColor := update t.mapColor alt.hColor (some (altBlockHash env alt.block)) }
      (reorganizeColorPoolMap env fuel t vTx alt.hColor hashBlock).map fun t => (true, t)
    match t.mapColor alt.hColor with
    | none =>
      (establishColor env t alt).bind fun
        | none => some (false, t)
        | some t => connect t 0
    | some hashBlock =>
      if isOrphanBlock t alt hashBlock then some (false, t) else connect t hashBlock

end

/-! ## Committing a block -/

structure ColorEnv extends RecordEnv where
  hasColorBlock : Uint256 → Bool
  processBlock : CAltChain → Bool
  /-- `CommitAltChainOrphanTx`, which writes to the wallet of the color coin. -/
  commitAltChainOrphanTx : CAltChain → Bool
  getActiveTx : List CTransaction

/-- The output that holds the block. -/
def altChainOutput (tx : CTransaction) : Option (CTxOut × UInt8 × Uint160) :=
  recordOutput decodeAltChainHash tx (indexOfExtOutput (asServer tx))

/-- The checks of `VerifyAltChain` on the transactions of the block. -/
def altTxOk (block : CAltBlock) (altTx : CAltTx) : Bool :=
  decide (altTx.vchAux.length ≤ 4096) && decide (altTx.nLockTime ≤ block.nTime) &&
    altTx.vin.all fun txin => txin.nSequence == sequenceFinal

def verifyAltChain (env : RecordEnv) (tx : CTransaction) : Option UInt8 :=
  if ! isAltChainTx tx then none
  else
    match altChainOutput tx with
    | none => none
    | some (_, mode, hashAltChain) =>
      if hashAltChain == recordHash env (CAltChain.codec.put tx.altchain) &&
        tx.altchain.vtx.all (altTxOk tx.altchain.block) &&
        decide (tx.altchain.vchLabel.length ≤ 135) then some mode
      else none

def getBestColorBlockIndex (env : ColorEnv) (t : ColorTables) (hColor : Uint160) : Option Uint256 :=
  ((t.mapColorPool hColor).filter env.hasColorBlock).or
    ((t.mapColor hColor).filter env.hasColorBlock)

section

variable (env : ColorEnv) (fuel : Nat) (t : ColorTables)

def submitColorBlock (alt : CAltChain) (tx : CTransaction) : Option (Bool × ColorTables) :=
  if ! env.processBlock alt then some (false, t)
  else connectAltChainTx env.toRecordEnv fuel t env.getActiveTx tx

/-- `CommitNewAltChainTx` at run time. Where the first block of a color comes again there is no
    value: the error reads a hash as the address of a text. -/
def commitNewAltChainTx (tx : CTransaction) : Option (Bool × ColorTables) :=
  match verifyAltChain env.toRecordEnv tx with
  | none => some (false, t)
  | some mode =>
    if mode ≠ opExtNew ∧ mode ≠ opExtUpdate then some (true, t)
    else
      match getAltChain tx with
      | none => some (false, t)
      | some alt =>
        let t := { t with mapColorPool := update t.mapColorPool alt.hColor none }
        match getBestColorBlockIndex env t alt.hColor with
        | some hashBest =>
          if alt.block.hashPrevBlock = 0 then none
          else if hashBest ≠ altBlockHash env.toRecordEnv alt.block ∧
            hashBest ≠ alt.block.hashPrevBlock then some (env.commitAltChainOrphanTx alt, t)
          else submitColorBlock env fuel t alt tx
        | none =>
          if alt.block.hashPrevBlock ≠ 0 then some (false, t)
          else submitColorBlock env fuel t alt tx

def commitAltChainTx (tx : CTransaction) : Option (Bool × ColorTables) :=
  commitNewAltChainTx env fuel t tx

end

end ShareCoin.Ext
