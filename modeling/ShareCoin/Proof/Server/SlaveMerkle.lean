import ShareCoin.Lib.Merkle
import ShareCoin.Server.Bolo

/-!
# The Merkle tree over Merkle roots

`iguana_merkle` keeps all levels of a tree in one array, one behind the other. A level with an odd
number of nodes gets a copy of its last one before the next level starts, so that `3 * n` entries
are enough for `n` leaves: with an odd number of nodes two of them are left, with an even one three.
-/

namespace ShareCoin.Server

open Lib List Option Function

section Levels

variable {α : Type} (pair : α → α → α) {size : Nat}

theorem hashPairs_spec (tree : Nat → α) {prev n k : Nat} (hread : prev + 2 * k ≤ n)
    (hsize : n + k ≤ size) :
    ∃ tree', hashPairs pair size prev n tree k = some tree' ∧ (∀ j < n, tree' j = tree j) ∧
      ∀ i < k, tree' (n + i) = pair (tree (prev + 2 * i)) (tree (prev + 2 * i + 1)) := by
  induction k with
  | zero => exact ⟨tree, rfl, fun _ _ => rfl, fun i hi => absurd hi (Nat.not_lt_zero i)⟩
  | succ k ih =>
    obtain ⟨tree', heq, hframe, hpairs⟩ := ih (by omega) (by omega)
    refine ⟨update tree' (n + k) (pair (tree (prev + 2 * k)) (tree (prev + 2 * k + 1))),
      ?_, fun j hj => ?_, fun i hi => ?_⟩
    · rw [hashPairs, heq, ← hframe _ (by omega), ← hframe (prev + 2 * k + 1) (by omega)]
      simp only [bind_eq_bind, bind_some, treeGet, treeSet]
      rw [if_pos (by omega), if_pos (by omega), bind_some, bind_some, if_pos (by omega)]
    · rw [update_of_ne (by omega), hframe j hj]
    · by_cases hik : i = k
      · rw [hik, update_self]
      · rw [update_of_ne (by omega), hpairs i (by omega)]

theorem padLevel_spec (d : α) {l : List α} (hl : l ≠ []) {tree : Nat → α} {prev : Nat}
    (htree : ∀ i < l.length, tree (prev + i) = l.getD i d) (hsize : prev + l.length < size) :
    ∃ tree', padLevel size tree prev l.length = some tree' ∧
      ∀ i < l.length + l.length % 2, tree' (prev + i) = l.getD (min i (l.length - 1)) d := by
  have hpos := length_pos_iff.mpr hl
  unfold padLevel treeGet
  by_cases hodd : l.length % 2 = 1
  · rw [if_pos hodd, if_pos (by omega), bind_some, treeSet, if_pos hsize]
    refine ⟨_, rfl, fun i hi => ?_⟩
    by_cases hlast : i = l.length
    · rw [hlast, update_self, Nat.add_sub_assoc hpos, htree _ (by omega),
        Nat.min_eq_right (by omega)]
    · rw [update_of_ne (by omega), htree _ (by omega), Nat.min_eq_left (by omega)]
  · rw [if_neg hodd]
    refine ⟨_, rfl, fun i hi => ?_⟩
    rw [htree _ (by omega), Nat.min_eq_left (by omega)]

/-- **The array is large enough, and the loop ends with the root**: for a level at `prev` with the
    room that is left for it. -/
theorem iguanaLevels_eq (d : α) {l : List α} (hl : l ≠ []) {tree : Nat → α} {prev : Nat}
    (htree : ∀ i < l.length, tree (prev + i) = l.getD i d)
    (hsize : prev + 3 * l.length ≤ size + 2 + (l.length + 1) % 2) :
    iguanaLevels pair size tree prev l.length = merkleRoot pair l := by
  induction hlen : l.length using Nat.strong_induction_on generalizing l tree prev with
  | _ len ih =>
    subst hlen
    have hpos := length_pos_iff.mpr hl
    by_cases hone : l.length = 1
    · obtain ⟨a, rfl⟩ := length_eq_one_iff.mp hone
      rw [length_singleton] at hsize ⊢
      rw [iguanaLevels, if_pos (Nat.le_refl 1), treeGet, if_pos (by omega), merkleRoot]
      exact congrArg some (htree 0 Nat.one_pos)
    · have hnext : (parents pair l).length = (l.length + l.length % 2) / 2 := by
        rw [length_parents]
        omega
      have hroom : prev + l.length < size := by omega
      obtain ⟨tree₁, hpad, htree₁⟩ := padLevel_spec d hl htree hroom
      have hread :
          prev + 2 * ((l.length + l.length % 2) / 2) ≤ prev + (l.length + l.length % 2) := by omega
      have hwrite : prev + (l.length + l.length % 2) + (l.length + l.length % 2) / 2 ≤ size := by
        omega
      obtain ⟨tree₂, hpairs, -, htree₂⟩ := hashPairs_spec pair tree₁ hread hwrite
      rw [iguanaLevels, if_neg (by omega), hpad]
      simp only [bind_eq_bind, bind_some]
      rw [hpairs, bind_some, merkleRoot_parents pair (by omega)]
      refine ih _ (by omega) (ne_nil_of_length_pos (by omega)) (fun i hi => ?_) (by omega) hnext
      rw [htree₂ i (by omega), Nat.add_assoc prev, htree₁ _ (by omega), htree₁ _ (by omega),
        Nat.min_eq_left (by omega), getD_parents pair d (by omega)]

end Levels

variable (pair : Uint256 → Uint256 → Uint256)

theorem iguanaMerkle_eq {l : List Uint256} {size : Nat} {tree : Nat → Uint256} (hl : l ≠ [])
    (hsize : 3 * l.length ≤ size) (htree : ∀ i < l.length, tree i = l.getD i 0) :
    iguanaMerkle pair size tree l.length = merkleRoot pair l :=
  iguanaLevels_eq pair 0 hl (by simpa using htree) (by omega)

/-- **Merkle of Merkles.** In an array of three times as many entries as leaves `iguana_merkle`
    stays inside and returns the root of the tree; and what `bolo_GetSlaveMerkle` returns depends
    on the last roots of the slave chain only. -/
theorem slaveMerkle_of_last_roots :
    (∀ (l : List Uint256) (size : Nat) (tree : Nat → Uint256), l ≠ [] → 3 * l.length ≤ size →
      (∀ i < l.length, tree i = l.getD i 0) →
      iguanaMerkle pair size tree l.length = merkleRoot pair l) ∧
    ∀ (rootAt rootAt' : Int → Option Uint256) (height depth : Int),
      (∀ i : Nat, (i : Int) < min depth (height - 1) → rootAt (height - i) = rootAt' (height - i)) →
      (boloGetSlaveMerkle pair rootAt height depth).isSome = true ∧
        boloGetSlaveMerkle pair rootAt height depth =
          boloGetSlaveMerkle pair rootAt' height depth := by
  refine ⟨fun _ _ _ => iguanaMerkle_eq pair, fun rootAt rootAt' height depth hagree => ?_⟩
  have hroots : lastRoots rootAt height depth = lastRoots rootAt' height depth :=
    map_congr_left fun i hi => hagree i (by rw [mem_range] at hi; omega)
  refine ⟨?_, by rw [boloGetSlaveMerkle, boloGetSlaveMerkle, hroots]⟩
  unfold boloGetSlaveMerkle
  generalize lastRoots rootAt height depth = roots
  dsimp only
  split_ifs with _ hne
  · rfl
  · rfl
  · have hl : roots.map (fun root => root.getD 0) ≠ [] := by simpa using hne
    rw [← length_map (fun root : Option Uint256 => root.getD 0),
      iguanaMerkle_eq pair hl (by omega) fun _ _ => rfl]
    exact merkleRoot_isSome pair hl

theorem slaveMerkle_three :
    iguanaMerkle (· + ·) 9 (fun i => BitVec.ofNat 256 (i + 1)) 3 = some (9 : Uint256) := by
  have hroot := (slaveMerkle_of_last_roots (· + ·)).1 [1, 2, 3] 9
    (fun i => BitVec.ofNat 256 (i + 1)) (by simp) (by simp) (by decide)
  exact hroot.trans (by decide +kernel)

end ShareCoin.Server
