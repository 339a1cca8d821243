import ShareCoin.Server.VersionBits
import ShareCoin.Wire.Block

/-!
# `block.cpp`, `wit_merkle.cpp` — the commitment to the witness

The coinbase of a block can commit to the witness of the block: an output with a fixed beginning
holds the hash of the witness root and of a nonce, and the nonce is the witness of the coinbase.
`core_GenerateCoinbaseCommitment` adds the output and the nonce, `core_CheckBlockWitness` checks
them.

`MerkleComputation` goes over the leaves once. `inner` holds the root of a full subtree for each bit
that is set in the number of leaves so far; what it holds at the other levels is not read. The
number is an `unsigned int` of 32 bits in the source, and `inner` has 32 levels.

A coinbase witness of the wrong form is reported with the transaction as text, and the number of its
stacks is what the function returns then: the comma operator stands where an argument of the message
was meant. Writing the text hashes the transaction, and that resizes a witness that is not null to
the number of inputs; it then reads a stack for each input.
-/

namespace ShareCoin.Wire

open Lib Server

/-! ## `MerkleComputation` -/

section

variable {α : Type} (pair : α → α → α)

/-- `while (!(count & (1 << level)))`, with the hashes to the left. There are `fuel` levels. -/
def climb (inner : Nat → α) (count : Nat) : Nat → Nat → α → Nat × α
  | 0, level, h => (level, h)
  | fuel + 1, level, h =>
    if count.testBit level then (level, h)
    else climb inner count fuel (level + 1) (pair (inner level) h)

/-- One pass of the loop over the leaves. -/
def addLeaf (s : Nat × (Nat → α)) (leaf : α) : Nat × (Nat → α) :=
  let count := s.1 + 1
  let (level, h) := climb pair s.2 count 32 0 leaf
  (count, Function.update s.2 level h)

def lowestLevel (count : Nat) : Nat → Nat → Nat
  | 0, level => level
  | fuel + 1, level => if count.testBit level then level else lowestLevel count fuel (level + 1)

/-- The final sweep over the rightmost branch. -/
def sweep (inner : Nat → α) : Nat → Nat → Nat → α → α
  | 0, _, _, h => h
  | fuel + 1, count, level, h =>
    if count = 2 ^ level then h
    else
      let count := count + 2 ^ level
      let (level, h) := climb pair inner count 32 (level + 1) (pair h h)
      sweep inner fuel count level h

def computeMerkleRoot (null : α) (leaves : List α) : α :=
  if leaves.isEmpty then null
  else
    let (count, inner) := leaves.foldl (addLeaf pair) (0, fun _ => null)
    let level := lowestLevel count 32 0
    sweep pair inner 32 count level (inner level)

end

/-! ## The commitment -/

variable (sha256 : List UInt8 → Uint256)

def getWitnessHash (tx : CTransaction) : Uint256 := sha256d sha256 (tx.serialize serGetHash 1)

/-- The leaves of `BlockWitnessMerkleRoot`; no value where `leaves[0]` is not there. -/
def witnessLeaves (block : CBlock) : Option (List Uint256) :=
  match block.vtx with
  | [] => none
  | _ :: vtx => some (0 :: vtx.map (getWitnessHash sha256))

def blockWitnessMerkleRoot (block : CBlock) : Option Uint256 :=
  (witnessLeaves sha256 block).map (computeMerkleRoot (hashPair sha256) 0)

/-- `OP_RETURN`, a push of 36 bytes, and the mark of a commitment. -/
def commitmentHead : List UInt8 := [0x6a, 0x24, 0xaa, 0x21, 0xa9, 0xed]

def isCommitment (script : CScript) : Bool :=
  decide (38 ≤ script.length) && script.take 6 == commitmentHead

/-- The loop of `GetWitnessCommitmentIndex`, from the output `o` on. -/
def commitmentLoop : List CTxOut → Nat → Option Nat → Option Nat
  | [], _, commitpos => commitpos
  | out :: vout, o, commitpos =>
    commitmentLoop vout (o + 1) (if isCommitment out.scriptPubKey then some o else commitpos)

def getWitnessCommitmentIndex (coinbase : CTransaction) : Option Nat :=
  commitmentLoop coinbase.vout 0 none

def commitmentHash (root : Uint256) (nonce : List UInt8) : Uint256 :=
  sha256d sha256 (rawBytes root ++ nonce)

/-- The nonce of a block that the node makes. -/
def zeroNonce : List UInt8 := List.replicate 32 0

def coreUpdateUncommittedBlockStructures (witnessEnabled : Bool) (block : CBlock) : Option CBlock :=
  match block.vtx with
  | [] => none
  | coinbase :: vtx =>
    if (getWitnessCommitmentIndex coinbase).isSome && witnessEnabled &&
        coinbase.vtxinwit.isEmpty then
      some { block with vtx := { coinbase with vtxinwit := [[zeroNonce]] } :: vtx }
    else some block

/-- The output that commits to the witness of the block. -/
def commitmentOutput (root : Uint256) : CTxOut where
  nValue := 0
  scriptPubKey := commitmentHead ++ rawBytes (commitmentHash sha256 root zeroNonce)

/-- `core_GenerateCoinbaseCommitment`: the block it leaves. It returns false always. -/
def coreGenerateCoinbaseCommitment (nTimeout : Int) (witnessEnabled : Bool) (block : CBlock) :
    Option CBlock :=
  match block.vtx with
  | [] => none
  | coinbase :: vtx =>
    if nTimeout ≠ 0 ∧ getWitnessCommitmentIndex coinbase = none then
      (blockWitnessMerkleRoot sha256 block).bind fun witnessroot =>
        coreUpdateUncommittedBlockStructures witnessEnabled { block with
          vtx := { coinbase with
            vout := coinbase.vout ++ [commitmentOutput sha256 witnessroot] } :: vtx }
    else coreUpdateUncommittedBlockStructures witnessEnabled block

/-- `wit.vtxinwit.size()` after the transaction was written as text; no value where the text reads a
    stack that is not there. -/
def printedWitnessSize (tx : CTransaction) : Option Nat :=
  let vtxinwit :=
    if witnessIsNull tx.vtxinwit then tx.vtxinwit else resize tx.vin.length tx.vtxinwit
  if vtxinwit.length ≠ 0 ∧ vtxinwit.length < tx.vin.length then none else some vtxinwit.length

/-- "No witness data is allowed in blocks that don't commit to witness data". -/
def hasNoWitness (block : CBlock) : Bool := block.vtx.all fun tx => witnessIsNull tx.vtxinwit

def coreCheckBlockWitness {ι : Type} (isWitnessEnabled : ι → Bool) (pindexPrev : Option ι)
    (block : CBlock) : Option Bool :=
  match pindexPrev with
  | none => some true
  | some pindexPrev =>
    if isWitnessEnabled pindexPrev then
      match block.vtx with
      | [] => none
      | coinbase :: _ =>
        match getWitnessCommitmentIndex coinbase with
        | none => some (hasNoWitness block)
        | some commitpos =>
          match coinbase.vtxinwit with
          | [[nonce]] =>
            if nonce.length ≠ 32 then (printedWitnessSize coinbase).map (· != 0)
            else (blockWitnessMerkleRoot sha256 block).map fun root =>
              rawBytes (commitmentHash sha256 root nonce) ==
                (((coinbase.vout.getD commitpos ⟨0, []⟩).scriptPubKey.drop 6).take 32)
          | _ => (printedWitnessSize coinbase).map (· != 0)
    else some (hasNoWitness block)

def isWitnessEnabled {ι : Type} [DecidableEq ι] (t : BlockLinks ι)
    (params : CoinIface → VersionBitsParams) (queries : List (StateQuery ι)) (iface : CoinIface)
    (pindexPrev : ι) : Bool :=
  stateAfter t params queries ⟨some pindexPrev, iface, .segwit⟩ == some .active

end ShareCoin.Wire
