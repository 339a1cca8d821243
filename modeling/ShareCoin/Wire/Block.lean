import ShareCoin.Lib.Merkle
import ShareCoin.Server.Matrix
import ShareCoin.Wire.Transaction

/-!
# `block.h`, `algobits.cpp`, `block_merkle.cpp` — blocks and their roots

A header names the root of its transactions. The version of the header names the algorithm that it
was mined with, and the algorithm decides how the root is built: as a tree over the hashes of the
transactions, or as a chain of hashes. For `ALGO_GROESTL` the first hash of the chain is a single
SHA-256 of the coinbase.

The compact form of a target is read through the format of `BN_mpi2bn`: a number of bytes, of which
the first three are given, with the sign in their first bit.
-/

namespace ShareCoin.Wire

open Lib Server

/-! ## Headers -/

structure CBlockHeader where
  nVersion : Int32
  hashPrevBlock : Uint256
  hashMerkleRoot : Uint256
  nTime : UInt32
  nBits : UInt32
  nNonce : UInt32
  deriving DecidableEq

structure CBlock extends CBlockHeader where
  vtx : List CTransaction
  deriving DecidableEq

def CBlockHeader.bytes (header : CBlockHeader) : List UInt8 :=
  i32.put header.nVersion ++ (u256.put header.hashPrevBlock ++ (u256.put header.hashMerkleRoot ++
    (u32.put header.nTime ++ (u32.put header.nBits ++ u32.put header.nNonce))))

def CBlockHeader.getHash (hash : List UInt8 → Uint256) (header : CBlockHeader) : Uint256 :=
  hash header.bytes

/-! ## Algorithms -/

def algoScrypt : Nat := 0

def algoSha256d : Nat := 1

def algoKeccak : Nat := 2

def algoX11 : Nat := 3

def algoBlake2s : Nat := 4

def algoQubit : Nat := 5

def algoGroestl : Nat := 6

def algoSkein : Nat := 7

def algobitsTopBits : UInt32 := 0xE0000000

def isAlgoBitsMask (nVersion : UInt32) : Bool :=
  decide (algobitsTopBits ≤ nVersion) && decide (nVersion < 0xE000FFFF)

def getVersionAlgo (nVersion : UInt32) : Nat :=
  if isAlgoBitsMask nVersion then
    match (List.range 16).find? ((nVersion - algobitsTopBits).toNat.testBit ·) with
    | some idx => idx + 1
    | none => algoScrypt
  else algoScrypt

def getAlgoWorkFactor (alg : Nat) : Nat :=
  if alg = algoSha256d then 1552
  else if alg = algoKeccak then 264
  else if alg = algoX11 then 8
  else if alg = algoBlake2s then 600
  else if alg = algoQubit then 12
  else if alg = algoGroestl then 30
  else if alg = algoSkein then 150
  else 1

/-! ## Targets -/

def setCompact (nCompact : UInt32) : Int :=
  let nSize := nCompact.toNat / 2 ^ 24
  let word := nCompact.toNat % 2 ^ 23
  let magnitude : Nat :=
    if nSize ≤ 3 then word / 256 ^ (3 - nSize) else word * 256 ^ (nSize - 3)
  if nCompact.toNat.testBit 23 then -(magnitude : Int) else magnitude

/-- `CBigNum::getuint256`: the low bytes of the magnitude. -/
def getuint256 (bn : Int) : Uint256 := BitVec.ofNat 256 bn.natAbs

def getBlockWork (nVersion : Int32) (nBits : UInt32) : Nat :=
  let bnTarget := setCompact nBits * getAlgoWorkFactor (getVersionAlgo nVersion.toUInt32)
  if bnTarget ≤ 0 then 0 else 2 ^ 256 / (bnTarget.toNat + 1)

/-! ## Roots -/

section

variable (sha256 : List UInt8 → Uint256)

/-- `Hash`: SHA-256 twice. -/
def sha256d (bytes : List UInt8) : Uint256 := sha256 (rawBytes (sha256 bytes))

/-- The bytes of two hashes. -/
def pairBytes (a b : Uint256) : List UInt8 := rawBytes a ++ rawBytes b

def hashPair (a b : Uint256) : Uint256 := sha256d sha256 (pairBytes a b)

def txBytes (tx : CTransaction) : List UInt8 :=
  tx.serialize serGetHash serializeTransactionNoWitness

def txid (tx : CTransaction) : Uint256 := tx.getHash (sha256d sha256)

/-- The inner loop of `BuildMerkleTree`: the hashes that it adds. -/
def merkleLevel (vMerkleTree : List Uint256) (j nSize : Nat) : List Uint256 :=
  (List.range ((nSize + 1) / 2)).map fun k =>
    let i := 2 * k
    let i2 := min (i + 1) (nSize - 1)
    hashPair sha256 (vMerkleTree.getD (j + i) 0) (vMerkleTree.getD (j + i2) 0)

/-- The outer loop of `BuildMerkleTree`. The size halves, so it bounds the rounds. -/
def merkleLoop : Nat → List Uint256 → Nat → Nat → List Uint256
  | 0, vMerkleTree, _, _ => vMerkleTree
  | fuel + 1, vMerkleTree, j, nSize =>
    if 1 < nSize then
      merkleLoop fuel (vMerkleTree ++ merkleLevel sha256 vMerkleTree j nSize) (j + nSize)
        ((nSize + 1) / 2)
    else vMerkleTree

def treeMerkleRoot (leaves : List Uint256) : Uint256 :=
  (merkleLoop sha256 leaves.length leaves 0 leaves.length).getLastD 0

def sha256dComputeMerkleRoot (hashes : List Uint256) : Option Uint256 :=
  chainRoot (hashPair sha256) hashes

def sha256dBlockMerkleRoot (block : CBlock) : Option Uint256 :=
  sha256dComputeMerkleRoot sha256 (block.vtx.map (txid sha256))

def sha256BlockMerkleRoot (block : CBlock) : Option Uint256 :=
  match block.vtx with
  | [] => none
  | coinbase :: vtx =>
    sha256dComputeMerkleRoot sha256 (sha256 (txBytes coinbase) :: vtx.map (txid sha256))

/-- How the root of a block is built. -/
inductive RootForm where
  | tree
  | chain
  | groestl
  deriving DecidableEq

/-- The `switch` of `BuildMerkleTree`; the coins of `DEPLOYMENT_ALGO` have `algoCoin`. -/
def rootForm (algoCoin : Bool) (nVersion : Int32) : RootForm :=
  if ! algoCoin then .tree
  else
    let alg := getVersionAlgo nVersion.toUInt32
    if alg ∈ [algoSha256d, algoKeccak, algoX11, algoBlake2s, algoQubit, algoSkein] then .chain
    else if alg = algoGroestl then .groestl
    else .tree

def buildMerkleTree (algoCoin : Bool) (block : CBlock) : Option Uint256 :=
  match rootForm algoCoin block.nVersion with
  | .chain => sha256dBlockMerkleRoot sha256 block
  | .groestl => sha256BlockMerkleRoot sha256 block
  | .tree => some (treeMerkleRoot sha256 (block.vtx.map (txid sha256)))

end

end ShareCoin.Wire
