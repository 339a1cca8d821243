import ShareCoin.Proof.Wire.Merkle
import ShareCoin.Wire.Witness

/-!
# `ComputeMerkleRoot` is the root of the tree

`MerkleComputation` keeps a hash for each bit that is set in the number of leaves it has seen: its
`inner` is the stack of a binary counter (`stackOf`). A climb carries a hash up that stack
(`climb_spec`), and the final sweep collapses it (`sweep_spec`), both as `Lib.Merkle` has them.
-/

namespace ShareCoin.Wire

open Lib List

variable {α : Type} {pair : α → α → α} {inner : Nat → α}

/-! ## Going up -/

/-- **A climb carries the hash up.** -/
theorem climb_spec (fuel : Nat) : ∀ {n level : Nat} {h : α}, n + 1 < 2 ^ fuel →
    ∃ d q h', climb pair inner (2 ^ level * (n + 1)) fuel level h = (level + d, h') ∧
      n + 1 = 2 ^ d * (2 * q + 1) ∧ 2 * q ≤ n ∧
      carry pair (stackOf inner n level) h =
        stackOf (Function.update inner (level + d) h') (n + 1) level := by
  induction fuel with
  | zero => exact fun h => by omega
  | succ fuel ih =>
    intro n level h hlt
    rw [climb, Nat.testBit_two_pow_mul, Nat.sub_self, Nat.testBit_zero]
    obtain ⟨q, rfl | rfl⟩ : ∃ q, n = 2 * q ∨ n = 2 * q + 1 := ⟨n / 2, by omega⟩
    · rw [if_pos (by simp)]
      refine ⟨0, q, h, rfl, (Nat.one_mul _).symm, by omega, ?_⟩
      rw [Nat.add_zero, carry_stackOf_even, stackOf_odd, Function.update_self,
        stackOf_congr _ fun l hl => Function.update_of_ne (by omega) h inner]
    · have htwo : 2 ^ level * (2 * q + 1 + 1) = 2 ^ (level + 1) * (q + 1) := by
        rw [Nat.pow_succ, Nat.mul_assoc]
        rfl
      rw [if_neg (by simp; omega), htwo]
      obtain ⟨d, q', h', hclimb, hcount, hle, hcarry⟩ :=
        @ih q (level + 1) (pair (inner level) h) (by omega)
      rw [Nat.add_right_comm level 1 d] at hclimb hcarry
      refine ⟨d + 1, q', h', hclimb, ?_, by omega, ?_⟩
      · rw [Nat.pow_succ', Nat.mul_assoc, ← hcount]
        omega
      · rw [stackOf_odd, carry, hcarry]
        exact (stackOf_even _ (Nat.succ_pos q) level).symm

theorem foldl_addLeaf (null : α) {leaves : List α} (hsmall : leaves.length < 2 ^ 32) :
    ∃ inner, leaves.foldl (addLeaf pair) (0, fun _ => null) = (leaves.length, inner) ∧
      stackOf inner leaves.length 0 = leaves.foldl (carry pair) [] := by
  induction leaves using reverseRecOn with
  | nil => exact ⟨_, rfl, by simp [stackOf]⟩
  | append_singleton leaves x ih =>
    rw [length_append, length_singleton] at hsmall ⊢
    obtain ⟨inner, hfold, hstack⟩ := ih (by omega)
    obtain ⟨d, _, h', hclimb, -, -, hcarry⟩ := @climb_spec _ pair inner 32 leaves.length 0 x hsmall
    rw [Nat.pow_zero, Nat.one_mul, Nat.zero_add] at hclimb
    rw [Nat.zero_add, hstack] at hcarry
    refine ⟨Function.update inner d h', ?_, ?_⟩
    · rw [foldl_append, hfold, foldl_cons, foldl_nil, addLeaf, hclimb]
    · rw [foldl_append, ← hcarry]
      rfl

/-! ## The sweep -/

theorem climb_fst (count fuel : Nat) : ∀ level h,
    (climb pair inner count fuel level h).1 = lowestLevel count fuel level := by
  induction fuel with
  | zero => exact fun _ _ => rfl
  | succ fuel ih =>
    intro level h
    rw [climb, lowestLevel]
    split_ifs
    · rfl
    · exact ih _ _

/-- **The sweep finds the root over the stack.** -/
theorem sweep_spec (fuel : Nat) : ∀ {q level : Nat} {h : α}, q < 2 ^ fuel → q + 1 < 2 ^ 32 →
    collapse pair none (some h :: stackOf inner q (level + 1)) =
      some (sweep pair inner fuel (2 ^ level * (2 * q + 1)) level h) := by
  induction fuel with
  | zero =>
    intro q level h hq _
    obtain rfl : q = 0 := by omega
    simp [stackOf, collapse, sweep]
  | succ fuel ih =>
    intro q level h hq hsmall
    rw [sweep]
    by_cases hzero : q = 0
    · simp [hzero, stackOf, collapse]
    · have htop : 2 ^ level * (2 * q + 1) ≠ 2 ^ level := by
        have := Nat.two_pow_pos level
        rw [Ne, Nat.mul_eq_left this.ne']
        omega
      have htwo : 2 ^ level * (2 * q + 1) + 2 ^ level = 2 ^ (level + 1) * (q + 1) := by
        rw [Nat.pow_succ, Nat.mul_assoc, ← Nat.mul_succ]
        rfl
      obtain ⟨d, q', h', hclimb, hstop, hle, hcarry⟩ :=
        @climb_spec _ pair inner 32 q (level + 1) (pair h h) hsmall
      have hnil : (stackOf inner q (level + 1)).isEmpty = false := by
        rw [stackOf, if_neg hzero]
        rfl
      rw [if_neg htop, htwo]
      dsimp only
      rw [hclimb, collapse, hnil, if_neg (by simp), collapse_carry, hcarry, hstop, collapse_stackOf,
        Function.update_self, stackOf_congr _ fun l hl => Function.update_of_ne (by omega) h' inner,
        ← Nat.mul_assoc, ← Nat.pow_add]
      exact ih (by omega) (by omega)

/-- **`ComputeMerkleRoot` is the root of the tree.** Up to this number of leaves, the 32 bits of the
    counter are enough for the sweep. -/
theorem computeMerkleRoot_eq {null : α} {leaves : List α} (hpos : 0 < leaves.length)
    (hsmall : leaves.length ≤ 2 ^ 31) :
    merkleRoot pair leaves = some (computeMerkleRoot pair null leaves) := by
  have hne : leaves.isEmpty = false := isEmpty_eq_false_iff.mpr (ne_nil_of_length_pos hpos)
  obtain ⟨inner, hfold, hstack⟩ := @foldl_addLeaf _ pair null leaves (by omega)
  obtain ⟨n, hn⟩ : ∃ n, leaves.length = n + 1 := Nat.exists_eq_succ_of_ne_zero hpos.ne'
  obtain ⟨d, q, _, hclimb, hstop, hle, -⟩ := @climb_spec _ pair inner 32 n 0 null (by omega)
  have hlow := congrArg Prod.fst hclimb
  rw [climb_fst, Nat.pow_zero, Nat.one_mul, ← hn, Nat.zero_add] at hlow
  simp only [computeMerkleRoot, hne, hfold, if_neg Bool.false_ne_true]
  rw [hlow, ← collapse_eq_merkleRoot, ← hstack, hn, hstop, collapse_stackOf, Nat.zero_add]
  exact sweep_spec 32 (by omega) (by omega)

/-- **The witness root is the root that the loop of `BuildMerkleTree` computes** of the same
    leaves. -/
theorem blockWitnessMerkleRoot_eq_tree (sha256 : List UInt8 → Server.Uint256) {block : CBlock}
    (hsmall : block.vtx.length ≤ 2 ^ 31) :
    blockWitnessMerkleRoot sha256 block =
      (witnessLeaves sha256 block).map (treeMerkleRoot sha256) := by
  unfold blockWitnessMerkleRoot witnessLeaves
  cases hvtx : block.vtx with
  | nil => rfl
  | cons coinbase vtx =>
    rw [hvtx, length_cons] at hsmall
    rw [Option.map_some, Option.map_some, ← treeMerkleRoot_eq sha256 (cons_ne_nil _ _),
      computeMerkleRoot_eq (by simp) (by simpa using hsmall)]

/-- Three transactions with different hashes. -/
theorem witness_root_of_three :
    let sha256 := fun bytes : List UInt8 =>
      BitVec.ofNat 256 (bytes.foldl (fun n byte => 31 * n + byte.toNat) 7)
    let block : CBlock :=
      ⟨⟨1, 0, 0, 0, 0, 0⟩, [{}, { nLockTime := 1 }, { nLockTime := 2 }]⟩
    blockWitnessMerkleRoot sha256 block =
        (witnessLeaves sha256 block).map (treeMerkleRoot sha256) ∧
      (witnessLeaves sha256 block).any (fun leaves => decide leaves.Nodup) = true := by
  intro sha256 block
  exact ⟨blockWitnessMerkleRoot_eq_tree sha256 (by simp [block]), by decide⟩

end ShareCoin.Wire
