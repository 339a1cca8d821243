import ShareCoin.Server.BlockValue
import ShareCoin.Server.CoinDb
import ShareCoin.Wire.CheckBlock
import Mathlib.Data.Rat.Floor

/-!
# `color_block.cpp` — the blocks of the colored chains

A colored chain has no network of its own and no best chain to connect to: `color_ProcessBlock`
checks a block by itself, looks for the transactions its inputs name, and puts it into the block
index. What `ConnectBlock` does for the other coins is not done.

Two things in it are easy to misread. `AcceptBlock` declares a local `nBits` and compares it with
itself. And `CheckTransactionInputs` of a block passes over a whole transaction as soon as *one* of
its inputs names another transaction of the block.

The reward is computed in `double`. `Double` has what is used of it: how a result is rounded.
-/

namespace ShareCoin.Server

open Wire

/-- `color_coin_iface`, with the heights that `color_init` sets. `BIP65Height` and `BIP66Height` are
    zero as well. -/
def colorIface : CIface where
  ifaceIndex := .color
  maxBlockSize := 512000
  maxMoney := 722388 * 100000000
  maxSigops := 4096
  maxScriptSize := 10000
  maxScriptElementSize := 520
  coinbaseMaturity := 90
  bip30Height := 0
  bip34Height := 0
  maxMoney_lt := by decide

/-! ## Blocks and their index -/

structure ColorBlock extends CBlockHeader where
  vtx : List CTransaction

def ColorBlock.coinbaseScript (block : ColorBlock) : CScript :=
  ((block.vtx.head?.bind (·.vin.head?)).map (·.scriptSig)).getD []

/-- `CBlockIndex`: the header of a block and those of the blocks before it, the nearest first. -/
structure ColorIndex where
  header : CBlockHeader
  ancestors : List CBlockHeader

/-- `GetBlockTable(COLOR_COIN_IFACE)`. -/
abbrev ColorTable := Uint256 → Option ColorIndex

structure ColorEnv extends TxEnv where
  getBlockHash : CBlockHeader → Uint256
  getPoWHash : CBlockHeader → Uint256
  getBlockWeight : ColorBlock → Nat
  buildMerkleTree : List CTransaction → Uint256
  getNextWorkRequired : Option ColorIndex → UInt32
  getAdjustedTime : Int
  writeBlock : ColorBlock → Bool

def ColorIndex.getMedianTimePast (pindex : ColorIndex) : Nat :=
  let pmedian := (((pindex.header :: pindex.ancestors).take 11).map (·.nTime.toNat)).mergeSort
  pmedian.getD (pmedian.length / 2) 0

def colorMaxDriftTime : Int := 2880

def colorGenesisProofOfWorkLimit : Int := 2 ^ 244 - 1

def colorProofOfWorkLimit : Int := 2 ^ 245 - 1

/-! ## The checks of a block -/

/-- `color_VerifyGenesisBlock`; no value where it reads the first input of a transaction that has
    none. -/
def colorVerifyGenesisBlock (block : ColorBlock) : Option Bool :=
  if block.nVersion = 0 then some false
  else if block.hashPrevBlock ≠ 0 then some false
  else
    match block.vtx with
    | [] => some false
    | tx :: _ =>
      match tx.vin with
      | [] => none
      | txin :: _ =>
        if ! txin.prevout.isNull then some false
        else if tx.vout.isEmpty then some false
        else if colorGenesisProofOfWorkLimit < setCompact block.nBits then some false
        else some true

def legacySigOps (tx : CTransaction) : UInt32 :=
  (tx.vin.map fun txin => getSigOpCount txin.scriptSig).sum +
    (tx.vout.map fun txout => getSigOpCount txout.scriptPubKey).sum

/-- `COLORBlock::CheckBlock` after the first block of a chain has been looked at.
    `color_CheckProofOfWork` is the one of the main chain with another limit. -/
def colorCheckContents (env : ColorEnv) (block : ColorBlock) : Bool :=
  match block.vtx with
  | [] => false
  | coinbase :: vtx =>
    if maxBlockWeight colorIface < env.getBlockWeight block then false
    else if ! coinbase.isCoinBase then false
    else if ! shcCheckProofOfWork (env.getPoWHash block.toCBlockHeader) block.nBits
        colorProofOfWorkLimit then false
    else if env.getAdjustedTime + colorMaxDriftTime < block.nTime.toNat then false
    else if vtx.any (·.isCoinBase) then false
    else if ! block.vtx.all (checkTransaction env.toTxEnv colorIface) then false
    else if (block.vtx.map env.getHash).dedup.length ≠ block.vtx.length then false
    else if colorIface.maxSigops < (block.vtx.map legacySigOps).sum.toNat then false
    else block.hashMerkleRoot == env.buildMerkleTree block.vtx

def colorCheckBlock (env : ColorEnv) (block : ColorBlock) : Option Bool :=
  let verified := if block.hashPrevBlock = 0 then colorVerifyGenesisBlock block else some true
  verified.map fun ok => ok && colorCheckContents env block

def checkTransactionInputs (env : TxEnv) (db : ChainDb) (tx : CTransaction) : Bool :=
  if tx.isCoinBase then true
  else if tx.vin.isEmpty then false
  else tx.vin.all fun txin => ! txin.prevout.isNull && verifyTxHash env db txin.prevout.hash

def sameCore (a b : CTransaction) : Bool :=
  a.nFlag == b.nFlag && a.vin == b.vin && a.vout == b.vout && a.nLockTime == b.nLockTime

/-- `fInBlock`: an input names another transaction of the block. -/
def inBlock (env : TxEnv) (vtx : List CTransaction) (tx : CTransaction) : Bool :=
  tx.vin.any fun txin =>
    vtx.any fun t_tx => ! sameCore tx t_tx && env.getHash t_tx == txin.prevout.hash

def checkBlockInputs (env : TxEnv) (db : ChainDb) (vtx : List CTransaction) : Bool :=
  vtx.all fun tx => inBlock env vtx tx || checkTransactionInputs env db tx

/-! ## The block index -/

def pushHeight (nHeight : Nat) : CScript :=
  if 1 ≤ nHeight ∧ nHeight ≤ 16 then [UInt8.ofNat (nHeight + 0x50)]
  else
    let vch := vchOfNum nHeight
    UInt8.ofNat vch.length :: vch

def colorPrev (table : ColorTable) (block : ColorBlock) : Option ColorIndex :=
  if block.hashPrevBlock = 0 then none else table block.hashPrevBlock

/-- The height that `AcceptBlock` gives a block. -/
def colorHeight (pindexPrev : Option ColorIndex) : Nat :=
  match pindexPrev with
  | none => 0
  | some pindex => pindex.ancestors.length + 1

def colorAddToBlockIndex (env : ColorEnv) (table : ColorTable) (block : ColorBlock) : ColorTable :=
  let hash := env.getBlockHash block.toCBlockHeader
  let pindexNew := (table hash).getD { header := block.toCBlockHeader, ancestors := [] }
  let pindexNew :=
    match table block.hashPrevBlock with
    | none => pindexNew
    | some pprev => { pindexNew with ancestors := pprev.header :: pprev.ancestors }
  Function.update table hash (some pindexNew)

def colorAcceptable (env : ColorEnv) (table : ColorTable) (block : ColorBlock) : Bool :=
  let pindexPrev := colorPrev table block
  let nBits := env.getNextWorkRequired pindexPrev
  if block.hashPrevBlock ≠ 0 ∧ pindexPrev.isNone then false
  else if env.getAdjustedTime + colorMaxDriftTime < block.nTime.toNat then false
  else if pindexPrev.any fun pindex => decide (block.nTime.toNat ≤ pindex.getMedianTimePast) ||
      decide (block.nTime < pindex.header.nTime) then false
  else if block.nVersion < 2 then false
  else if ! (pushHeight (colorHeight pindexPrev)).isPrefixOf block.coinbaseScript then false
  else if block.nVersion < 3 || block.nVersion < 4 then false
  -- `nBits` is the local variable here, on both sides
  else if nBits ≠ nBits then false
  -- a block that gets here has passed `CheckBlock`, so that the test below has a value
  else pindexPrev.isSome || colorVerifyGenesisBlock block == some true

/-- `color_ProcessBlock`: the result, and the block index afterwards. A block that cannot be written
    stays in the index. -/
def colorProcessBlock (env : ColorEnv) (db : ChainDb) (table : ColorTable) (block : ColorBlock) :
    Option (Bool × ColorTable) :=
  (colorCheckBlock env block).map fun ok =>
    if ! ok then (false, table)
    else if ! checkBlockInputs env.toTxEnv db block.vtx then (true, table)
    else if ! colorAcceptable env table block then (false, table)
    else (env.writeBlock block, colorAddToBlockIndex env table block)

/-! ## The reward -/

/-- Arithmetic in `double`: the exact result, rounded. Rounding keeps the order, and it keeps the
    whole numbers that a `double` has. -/
structure Double where
  rnd : Rat → Rat
  mono : Monotone rnd
  rnd_int : ∀ n : Int, n.natAbs ≤ 2 ^ 53 → rnd n = n

/-- Arithmetic without a rounding error. -/
def exactDouble : Double := ⟨id, monotone_id, fun _ _ => rfl⟩

/-- `color_opt`: an option that is not set reads zero, and the values are those that an `OP_N` has.
    -/
abbrev ColorOpt := Nat → Nat

def getColorOptScript (opt : List (Nat × Nat)) : CScript :=
  0x6a :: 0 :: opt.flatMap fun tok => [encodeOpN tok.1, encodeOpN tok.2]

/-- The opcodes that `GetOp` reads from a script, two at a time, as long as there are two. -/
def opcodePairs : Nat → CScript → List (UInt8 × UInt8)
  | 0, _ => []
  | k + 1, pc =>
    match getOp pc with
    | none => []
    | some (modecode, _, pc) =>
      match getOp pc with
      | none => []
      | some (valuecode, _, pc) => (modecode, valuecode) :: opcodePairs k pc

/-- The loop of `ParseColorOptScript`; no value where `DecodeOP_N` fails an assertion. -/
def setColorOpt (opt : ColorOpt) (codes : UInt8 × UInt8) : Option ColorOpt := do
  let mode ← decodeOpN codes.1
  let value ← decodeOpN codes.2
  some (if mode = 0 ∨ value = 0 then opt else Function.update opt mode value)

def parseColorOptScript (script : CScript) : Option ColorOpt :=
  match opcodePairs script.length script with
  | [] => some fun _ => 0
  | codes :: pairs =>
    if codes = (0x6a, 0) then pairs.foldlM setColorOpt fun _ => 0 else some fun _ => 0

end ShareCoin.Server
