import ShareCoin.Wire.Block
import Mathlib.Tactic.IntervalCases

/-!
# `bloom.cpp` — Merkle blocks

A Merkle block is a header and a partial tree over the ids of the transactions: the nodes of the
tree in the order of a walk from the root, with a bit that says whether a matched transaction is
below, and with the hashes of the nodes that the walk does not go below. The reader walks over the
same nodes, and its result is the hash that it gets for the root.

The walk takes its hashes from a tree over the ids, whatever the algorithm of the block is. The bits
are sent as bytes, so the reader gets up to seven more of them.

Widths are computed in `unsigned int`; a block has far fewer transactions than would make them
overflow.
-/

namespace ShareCoin.Wire

open Lib Server List

structure CPartialMerkleTree where
  nTransactions : UInt32
  vBits : List Bool
  vHash : List Uint256
  fBad : Bool
  deriving DecidableEq

def calcTreeWidth (nTransactions height : Nat) : Nat :=
  (nTransactions + 2 ^ height - 1) / 2 ^ height

def heightLoop (nTransactions : Nat) : Nat → Nat → Nat
  | 0, nHeight => nHeight
  | fuel + 1, nHeight =>
    if 1 < calcTreeWidth nTransactions nHeight then heightLoop nTransactions fuel (nHeight + 1)
    else nHeight

/-- The height of the tree; an `unsigned int` has 32 bits. -/
def treeHeight (nTransactions : Nat) : Nat := heightLoop nTransactions 32 0

section

variable (sha256 : List UInt8 → Uint256)

/-! ## Writing the tree -/

def calcHash (vTxid : List Uint256) : Nat → Nat → Uint256
  | 0, pos => vTxid.getD pos 0
  | height + 1, pos =>
    let left := calcHash vTxid height (pos * 2)
    let right :=
      if pos * 2 + 1 < calcTreeWidth vTxid.length height then calcHash vTxid height (pos * 2 + 1)
      else left
    hashPair sha256 left right

def parentOfMatch (nTransactions : Nat) (vMatch : List Bool) (height pos : Nat) : Bool :=
  (List.range' (pos * 2 ^ height) (2 ^ height)).any fun p =>
    decide (p < nTransactions) && vMatch.getD p false

def traverseAndBuild (vTxid : List Uint256) (vMatch : List Bool) :
    Nat → Nat → List Bool × List Uint256 → List Bool × List Uint256
  | 0, pos, (vBits, vHash) =>
    (vBits ++ [parentOfMatch vTxid.length vMatch 0 pos], vHash ++ [calcHash sha256 vTxid 0 pos])
  | height + 1, pos, (vBits, vHash) =>
    if parentOfMatch vTxid.length vMatch (height + 1) pos then
      let built := traverseAndBuild vTxid vMatch height (pos * 2) (vBits ++ [true], vHash)
      if pos * 2 + 1 < calcTreeWidth vTxid.length height then
        traverseAndBuild vTxid vMatch height (pos * 2 + 1) built
      else built
    else (vBits ++ [false], vHash ++ [calcHash sha256 vTxid (height + 1) pos])

def partialMerkleTree (vTxid : List Uint256) (vMatch : List Bool) : CPartialMerkleTree :=
  let (vBits, vHash) :=
    traverseAndBuild sha256 vTxid vMatch (treeHeight vTxid.length) 0 ([], [])
  { nTransactions := UInt32.ofNat vTxid.length
    vBits := vBits
    vHash := vHash
    fBad := false }

/-! ## Reading the tree -/

/-- What `TraverseAndExtract` changes. -/
structure Traversal where
  nBitsUsed : Nat
  nHashUsed : Nat
  vMatch : List Uint256
  fBad : Bool
  deriving DecidableEq

/-- The stored hash of a node that is not gone below. -/
def takeHash (t : CPartialMerkleTree) (matched : Bool) (s : Traversal) : Uint256 × Traversal :=
  match t.vHash[s.nHashUsed]? with
  | none => (0, { s with fBad := true })
  | some hash =>
    (hash, { s with
      nHashUsed := s.nHashUsed + 1
      vMatch := if matched then s.vMatch ++ [hash] else s.vMatch })

def traverseAndExtract (t : CPartialMerkleTree) : Nat → Nat → Traversal → Uint256 × Traversal
  | 0, _, s =>
    match t.vBits[s.nBitsUsed]? with
    | none => (0, { s with fBad := true })
    | some fParentOfMatch => takeHash t fParentOfMatch { s with nBitsUsed := s.nBitsUsed + 1 }
  | height + 1, pos, s =>
    match t.vBits[s.nBitsUsed]? with
    | none => (0, { s with fBad := true })
    | some false => takeHash t false { s with nBitsUsed := s.nBitsUsed + 1 }
    | some true =>
      let (left, s) := traverseAndExtract t height (pos * 2) { s with nBitsUsed := s.nBitsUsed + 1 }
      if pos * 2 + 1 < calcTreeWidth t.nTransactions.toNat height then
        let (right, s) := traverseAndExtract t height (pos * 2 + 1) s
        (hashPair sha256 left right, s)
      else (hashPair sha256 left left, s)

def extractMatches (t : CPartialMerkleTree) : Uint256 × List Uint256 :=
  if t.nTransactions = 0 then (0, [])
  else if 16666 < t.nTransactions.toNat then (0, [])
  else if t.nTransactions.toNat < t.vHash.length then (0, [])
  else if t.vBits.length < t.vHash.length then (0, [])
  else
    let (hashMerkleRoot, s) := traverseAndExtract sha256 t (treeHeight t.nTransactions.toNat) 0
      { nBitsUsed := 0, nHashUsed := 0, vMatch := [], fBad := t.fBad }
    if s.fBad then (0, s.vMatch)
    else if (s.nBitsUsed + 7) / 8 ≠ (t.vBits.length + 7) / 8 then (0, s.vMatch)
    else if s.nHashUsed ≠ t.vHash.length then (0, s.vMatch)
    else (hashMerkleRoot, s.vMatch)

end

/-! ## Bits on the wire -/

def packByte (bits : Nat → Bool) : UInt8 :=
  (List.range 8).foldl (fun byte i => byte ||| (if bits i then 1 <<< UInt8.ofNat i else 0)) 0

/-- `vBytes` of the writer. -/
def packBits (vBits : List Bool) : List UInt8 :=
  (List.range ((vBits.length + 7) / 8)).map fun q => packByte fun i => vBits.getD (8 * q + i) false

def unpackBits (vBytes : List UInt8) : List Bool :=
  (List.range (vBytes.length * 8)).map fun p => (vBytes.getD (p / 8) 0).toNat.testBit (p % 8)

theorem testBit_packByte (bits : Nat → Bool) {i : Nat} (hi : i < 8) :
    (packByte bits).toNat.testBit i = bits i := by
  have hrange : List.range 8 = [0, 1, 2, 3, 4, 5, 6, 7] := rfl
  have htable : ∀ b₀ b₁ b₂ b₃ b₄ b₅ b₆ b₇ : Bool, ∀ j : Fin 8,
      ((List.range 8).foldl (fun byte i =>
        byte ||| (if [b₀, b₁, b₂, b₃, b₄, b₅, b₆, b₇].getD i false then 1 <<< UInt8.ofNat i else 0))
        0).toNat.testBit j = [b₀, b₁, b₂, b₃, b₄, b₅, b₆, b₇].getD j false := by decide +kernel
  have hbyte := htable (bits 0) (bits 1) (bits 2) (bits 3) (bits 4) (bits 5) (bits 6) (bits 7)
    ⟨i, hi⟩
  have hbit : [bits 0, bits 1, bits 2, bits 3, bits 4, bits 5, bits 6, bits 7].getD i false =
      bits i := by
    interval_cases i <;> rfl
  rw [← hbit, ← hbyte, packByte, hrange]
  rfl

theorem byte_ext {a b : UInt8} (h : ∀ i < 8, a.toNat.testBit i = b.toNat.testBit i) : a = b := by
  apply UInt8.toNat_inj.mp
  apply Nat.eq_of_testBit_eq
  intro i
  by_cases hi : i < 8
  · exact h i hi
  · have hpow : 2 ^ 8 ≤ 2 ^ i := Nat.pow_le_pow_right (by decide) (Nat.le_of_not_lt hi)
    rw [Nat.testBit_lt_two_pow (Nat.lt_of_lt_of_le (UInt8.toNat_lt _) hpow),
      Nat.testBit_lt_two_pow (Nat.lt_of_lt_of_le (UInt8.toNat_lt _) hpow)]

theorem length_unpackBits (vBytes : List UInt8) :
    (unpackBits vBytes).length = vBytes.length * 8 := by
  rw [unpackBits, length_map, length_range]

theorem length_packBits (vBits : List Bool) : (packBits vBits).length = (vBits.length + 7) / 8 := by
  rw [packBits, length_map, length_range]

theorem packBits_unpackBits (vBytes : List UInt8) : packBits (unpackBits vBytes) = vBytes := by
  have hlen : (packBits (unpackBits vBytes)).length = vBytes.length := by
    rw [length_packBits, length_unpackBits]
    omega
  refine ext_getElem hlen fun q hq _ => byte_ext fun i hi => ?_
  rw [hlen] at hq
  have hlt : 8 * q + i < (unpackBits vBytes).length := by
    rw [length_unpackBits]
    omega
  have hdiv : (8 * q + i) / 8 = q := by omega
  have hmod : (8 * q + i) % 8 = i := by omega
  simp only [packBits, getElem_map, getElem_range, testBit_packByte _ hi]
  rw [getD_eq_getElem _ _ hlt]
  simp only [unpackBits, getElem_map, getElem_range, hdiv, hmod, getD_eq_getElem _ _ hq]

theorem unpackBits_packBits (vBits : List Bool) :
    unpackBits (packBits vBits) =
      vBits ++ List.replicate ((vBits.length + 7) / 8 * 8 - vBits.length) false := by
  have hlen : (unpackBits (packBits vBits)).length = (vBits.length + 7) / 8 * 8 := by
    rw [length_unpackBits, length_packBits]
  refine ext_getElem ?_ fun p hp _ => ?_
  · rw [hlen, length_append, length_replicate]
    omega
  · have hq : p / 8 < (packBits vBits).length := by
      rw [length_packBits]
      omega
    simp only [unpackBits, getElem_map, getElem_range, getD_eq_getElem _ _ hq]
    simp only [packBits, getElem_map, getElem_range,
      testBit_packByte _ (Nat.mod_lt p (by decide)), Nat.div_add_mod, getElem_append,
      getElem_replicate]
    split_ifs with hlt
    · exact getD_eq_getElem _ _ hlt
    · exact getD_eq_default _ _ (Nat.le_of_not_lt hlt)

def CPartialMerkleTree.codec : Codec CPartialMerkleTree :=
  (u32.pair ((vec u256).pair cbuff)).record
    (fun (nTransactions, vHash, vBytes) => ⟨nTransactions, unpackBits vBytes, vHash, false⟩)
    (fun t => (t.nTransactions, t.vHash, packBits t.vBits))
    (fun (_, _, vBytes) => by rw [packBits_unpackBits])

/-! ## The Merkle block -/

structure CMerkleBlock where
  header : CBlockHeader
  txn : CPartialMerkleTree
  vMatchedTxn : List (Nat × Uint256)
  deriving DecidableEq

section

variable {Filter : Type} (isRelevantAndUpdate : Filter → CTransaction → Uint256 → Bool × Filter)
variable (sha256 : List UInt8 → Uint256)

def matchLoop : Nat → Filter → List CTransaction → List Bool × List (Nat × Uint256) × Filter
  | _, filter, [] => ([], [], filter)
  | i, filter, tx :: vtx =>
    let hash := txid sha256 tx
    let (relevant, filter) := isRelevantAndUpdate filter tx hash
    let (vMatch, vMatchedTxn, filter) := matchLoop (i + 1) filter vtx
    (relevant :: vMatch, if relevant then (i, hash) :: vMatchedTxn else vMatchedTxn, filter)

/-- The constructor of `CMerkleBlock`; no value for a block without a transaction to read. -/
def merkleBlock (filter : Filter) (block : CBlock) : Option (CMerkleBlock × Filter) :=
  if block.vtx.isEmpty then none
  else
    let (vMatch, vMatchedTxn, filter) := matchLoop isRelevantAndUpdate sha256 0 filter block.vtx
    some
      ({ header := block.toCBlockHeader
         txn := partialMerkleTree sha256 (block.vtx.map (txid sha256)) vMatch
         vMatchedTxn := vMatchedTxn }, filter)

end

end ShareCoin.Wire
