import Mathlib.Data.List.Basic
import Mathlib.Order.Basic

/-!
# Forests of parent pointers

A node has at most one parent and knows its height, which is one more than that of its parent; a
root has height zero. Walking up is `up`, and `a` lies on the chain of `i` when some number of steps
leads from `i` to `a`. Two nodes on one chain are ordered by their height, so a node of a given
height on a chain is unique.

A *branch* from `i` down to `a` lists the nodes of the chain of `i` that are not on the chain of
`a`, the nearest to `i` first.
-/

namespace ShareCoin.Lib

open List

structure Forest (ι : Type) where
  parent : ι → Option ι
  height : ι → Nat
  height_parent : ∀ {i j}, parent i = some j → height i = height j + 1
  height_root : ∀ {i}, parent i = none → height i = 0

namespace Forest

variable {ι : Type} {t : Forest ι} {a i : ι} {l : List ι} {j b : ι}

/-- `k` steps towards the root. -/
def up (t : Forest ι) : Nat → ι → Option ι
  | 0, i => some i
  | k + 1, i => (t.parent i).bind (t.up k)

def Anc (t : Forest ι) (a i : ι) : Prop := ∃ k, t.up k i = some a

/-- At most `n + 1` nodes of the chain of a node, the node first. -/
def chainFrom (t : Forest ι) : Nat → ι → List ι
  | 0, i => [i]
  | n + 1, i =>
    match t.parent i with
    | none => [i]
    | some p => i :: t.chainFrom n p

/-- The chain of a node down to its root, the node first. -/
def chain (t : Forest ι) (i : ι) : List ι := t.chainFrom (t.height i) i

/-! ## Steps -/

@[simp] theorem up_zero (i : ι) : t.up 0 i = some i := rfl

theorem up_succ (h : t.parent i = some j) (k : Nat) : t.up (k + 1) i = t.up k j := by
  simp [up, h]

theorem up_add {m : Nat} (h : t.up m i = some j) (k : Nat) : t.up (m + k) i = t.up k j := by
  induction m generalizing i with
  | zero =>
    cases h
    rw [Nat.zero_add]
  | succ m ih =>
    obtain ⟨p, hp, hm⟩ := Option.bind_eq_some_iff.mp h
    rw [Nat.succ_add, up_succ hp]
    exact ih hm

theorem height_up {i a : ι} {k : Nat} (h : t.up k i = some a) : t.height i = t.height a + k := by
  induction k generalizing i with
  | zero =>
    cases h
    rfl
  | succ k ih =>
    obtain ⟨p, hp, hk⟩ := Option.bind_eq_some_iff.mp h
    rw [t.height_parent hp, ih hk, Nat.add_assoc]

theorem exists_up {i : ι} {k : Nat} (h : k ≤ t.height i) : ∃ a, t.up k i = some a := by
  induction k generalizing i with
  | zero => exact ⟨i, rfl⟩
  | succ k ih =>
    cases hp : t.parent i with
    | none =>
      have h0 := t.height_root hp
      omega
    | some p =>
      have hlt := t.height_parent hp
      rw [up_succ hp]
      exact ih (by omega)

theorem up_eq_none {i : ι} {k : Nat} (h : t.height i < k) : t.up k i = none := by
  cases hup : t.up k i with
  | none => rfl
  | some a =>
    have := height_up hup
    omega

/-! ## Ancestors -/

theorem Anc.refl (i : ι) : t.Anc i i := ⟨0, rfl⟩

theorem Anc.parent (h : t.parent i = some j) : t.Anc j i := ⟨1, by simp [up, h]⟩

theorem Anc.trans (h : t.Anc a b) (h' : t.Anc b i) : t.Anc a i := by
  obtain ⟨k, hk⟩ := h
  obtain ⟨m, hm⟩ := h'
  exact ⟨m + k, by rw [up_add hm, hk]⟩

theorem Anc.height_le (h : t.Anc a i) : t.height a ≤ t.height i := by
  obtain ⟨k, hk⟩ := h
  have := height_up hk
  omega

theorem Anc.eq_of_height (ha : t.Anc a i) (hb : t.Anc b i) (h : t.height a = t.height b) :
    a = b := by
  obtain ⟨k, hk⟩ := ha
  obtain ⟨m, hm⟩ := hb
  have h₁ := height_up hk
  have h₂ := height_up hm
  have hkm : k = m := by omega
  rw [hkm, hm] at hk
  exact (Option.some.inj hk).symm

theorem Anc.of_height_le (ha : t.Anc a i) (hb : t.Anc b i) (h : t.height a ≤ t.height b) :
    t.Anc a b := by
  obtain ⟨k, hk⟩ := ha
  obtain ⟨m, hm⟩ := hb
  have h₁ := height_up hk
  have h₂ := height_up hm
  have hkm : k = m + (k - m) := by omega
  rw [hkm, up_add hm] at hk
  exact ⟨k - m, hk⟩

theorem anc_iff_of_parent (h : t.parent i = some j) {a : ι} : t.Anc a i ↔ a = i ∨ t.Anc a j := by
  constructor
  · rintro ⟨k, hk⟩
    cases k with
    | zero =>
      cases hk
      exact .inl rfl
    | succ k =>
      rw [up_succ h] at hk
      exact .inr ⟨k, hk⟩
  · rintro (rfl | ha)
    · exact Anc.refl a
    · exact ha.trans (Anc.parent h)

theorem anc_iff_of_root {i : ι} (h : t.parent i = none) {a : ι} : t.Anc a i ↔ a = i := by
  constructor
  · rintro ⟨k, hk⟩
    cases k with
    | zero =>
      cases hk
      rfl
    | succ k => simp [up, h] at hk
  · rintro rfl
    exact Anc.refl a

/-! ## Branches -/

inductive Branch (t : Forest ι) (a : ι) : ι → List ι → Prop where
  | nil : Branch t a a []
  | cons {i j : ι} {l : List ι} (hp : t.parent i = some j) (hl : Branch t a j l) :
      Branch t a i (i :: l)

theorem Branch.anc (h : t.Branch a i l) : t.Anc a i := by
  induction h with
  | nil => exact Anc.refl a
  | cons hp _ ih => exact ih.trans (Anc.parent hp)

theorem Branch.height (h : t.Branch a i l) : t.height i = t.height a + l.length := by
  induction h with
  | nil => rfl
  | cons hp _ ih => rw [t.height_parent hp, ih, length_cons, Nat.add_assoc]

theorem Branch.eq_of_nil (h : t.Branch a i []) : i = a := by
  cases h
  rfl

theorem Branch.anc_iff (h : t.Branch a i l) {x : ι} : t.Anc x i ↔ x ∈ l ∨ t.Anc x a := by
  induction h with
  | nil => simp
  | cons hp _ ih => rw [anc_iff_of_parent hp, ih, mem_cons, or_assoc]

theorem Branch.height_lt (h : t.Branch a i l) {x : ι} (hx : x ∈ l) : t.height a < t.height x := by
  induction h with
  | nil => cases hx
  | @cons i j l hp hl ih =>
    rcases mem_cons.mp hx with rfl | hx
    · have h₁ := t.height_parent hp
      have h₂ := hl.anc.height_le
      omega
    · exact ih hx

theorem Branch.not_anc (h : t.Branch a i l) {x : ι} (hx : x ∈ l) : ¬ t.Anc x a :=
  fun ha => absurd ha.height_le (Nat.not_le.mpr (h.height_lt hx))

theorem Branch.of_append {l m : List ι} (h : t.Branch a i (l ++ m)) :
    ∃ b, t.Branch b i l ∧ t.Branch a b m := by
  induction l generalizing i with
  | nil => exact ⟨i, .nil, h⟩
  | cons x l ih =>
    cases h with
    | cons hp hl =>
      obtain ⟨b, hb, ha⟩ := ih hl
      exact ⟨b, .cons hp hb, ha⟩

theorem Branch.head (h : t.Branch a i l) : l.head?.getD a = i := by
  cases h with
  | nil | cons _ _ => rfl

theorem Branch.nil_of_self {a : ι} (h : t.Branch a a l) : l = [] := by
  have hheight := h.height
  exact length_eq_zero_iff.mp (by omega)

end Forest

end ShareCoin.Lib
