import ShareCoin.Lib.Run
import Mathlib.Data.UInt

/-!
# A table with an archive

`cur` holds the value that is registered for a key, `arch` the values that were registered before,
each with its key. `assign` registers a value and moves the one it replaces to the archive. `undo`
takes the registration of a value back. What was registered before is looked up in the archive,
which is kept in the order of the values: `lastFor` is the greatest value with the key, and not the
one that was archived last.

So an assignment is taken back exactly when no greater value of the key is archived than the one it
replaced. `SameFor` is what a run of assignments, taken back in reverse order, leaves alone.
-/

namespace ShareCoin.Lib

open List Function

variable {κ ν : Type} [DecidableEq κ] [Ord ν]

structure Archived (κ ν : Type) [Ord ν] where
  cur : κ → Option ν
  arch : Std.TreeMap ν κ

/-! ## The scan of the archive -/

/-- The scan, one entry after the other: the last entry of the key is kept. -/
def lastFor (arch : Std.TreeMap ν κ) (k : κ) : Option ν :=
  arch.foldl (fun found v k' => if k' = k then some v else found) none

variable {arch : Std.TreeMap ν κ} {k' : κ}

section Scan

variable [Std.TransOrd ν] [Std.LawfulEqOrd ν]

variable {k : κ}

theorem foldl_last_eq_some_iff {l : List (ν × κ)} {v : ν}
    (hl : l.Pairwise fun a b => compare a.1 b.1 = .lt) :
    l.foldl (fun found p => if p.2 = k then some p.1 else found) none = some v ↔
      (v, k) ∈ l ∧ ∀ v', (v', k) ∈ l → (compare v' v).isLE = true := by
  induction l using List.reverseRecOn with
  | nil => simp
  | append_singleton l p ih =>
    obtain ⟨v₀, k₀⟩ := p
    obtain ⟨hinit, -, hlt⟩ := pairwise_append.mp hl
    have hbelow : ∀ v', (v', k) ∈ l → compare v' v₀ = .lt := fun v' hv' =>
      hlt (v', k) hv' (v₀, k₀) mem_cons_self
    simp only [foldl_append, foldl_cons, foldl_nil, mem_append, mem_singleton, Prod.mk.injEq]
    by_cases hk : k₀ = k
    · -- the new entry has the key, so it is the one that is kept
      subst hk
      simp only [if_true, Option.some.injEq, and_true]
      constructor
      · rintro rfl
        refine ⟨.inr rfl, fun v' hv' => ?_⟩
        rcases hv' with hv' | rfl
        · rw [hbelow v' hv']
          rfl
        · exact Std.ReflCmp.isLE_rfl
      · rintro ⟨hv | rfl, hmax⟩
        · have hgt : (compare v₀ v).isLE = true := hmax v₀ (.inr rfl)
          rw [Std.OrientedOrd.eq_swap, hbelow v hv] at hgt
          cases hgt
        · rfl
    · have hk' : ¬ k = k₀ := fun h => hk h.symm
      simp only [hk, if_false, hk', and_false, or_false]
      exact ih hinit

/-- **The scan finds the greatest archived value of the key.** -/
theorem lastFor_eq_some_iff {v : ν} :
    lastFor arch k = some v ↔
      arch[v]? = some k ∧ ∀ v', arch[v']? = some k → (compare v' v).isLE = true := by
  rw [lastFor, Std.TreeMap.foldl_eq_foldl_toList,
    foldl_last_eq_some_iff Std.TreeMap.ordered_keys_toList]
  simp only [Std.TreeMap.mem_toList_iff_getElem?_eq_some]

theorem lastFor_eq_none_iff : lastFor arch k = none ↔ ∀ v : ν, arch[v]? ≠ some k := by
  rw [lastFor, Std.TreeMap.foldl_eq_foldl_toList]
  simp only [← Std.TreeMap.mem_toList_iff_getElem?_eq_some, ne_eq]
  induction arch.toList using List.reverseRecOn with
  | nil => simp
  | append_singleton l p ih =>
    obtain ⟨v₀, k₀⟩ := p
    simp only [foldl_append, foldl_cons, foldl_nil, mem_append,
      mem_singleton, Prod.mk.injEq, not_or]
    by_cases hk : k₀ = k
    · rw [if_pos hk]
      exact iff_of_false (by simp) fun h => (h v₀).2 ⟨rfl, hk.symm⟩
    · have hk' : ¬ k = k₀ := fun h => hk h.symm
      simp only [hk, if_false, hk', and_false, not_false_eq_true, and_true]
      exact ih

theorem lastFor_congr {arch' : Std.TreeMap ν κ}
    (h : ∀ v : ν, arch[v]? = some k ↔ arch'[v]? = some k) : lastFor arch k = lastFor arch' k := by
  ext v
  simp only [lastFor_eq_some_iff, h]

omit [DecidableEq κ] in
theorem getElem?_insert_eq_some_iff {h v : ν} :
    (arch.insert h k)[v]? = some k' ↔ h = v ∧ k = k' ∨ h ≠ v ∧ arch[v]? = some k' := by
  rw [Std.TreeMap.getElem?_insert]
  by_cases heq : h = v
  · simp [heq]
  · simp [heq]

theorem lastFor_insert_eq_some_iff {h : ν} :
    lastFor (arch.insert h k) k = some h ↔
      ∀ v, arch[v]? = some k → (compare v h).isLE = true := by
  simp only [lastFor_eq_some_iff, getElem?_insert_eq_some_iff, and_self, ne_eq, not_true_eq_false,
    false_and, or_false, true_and, and_true]
  constructor
  · intro hmax v hv
    by_cases heq : h = v
    · exact hmax v (.inl heq)
    · exact hmax v (.inr ⟨heq, hv⟩)
  · rintro hmax v (rfl | ⟨_, hv⟩)
    · exact Std.ReflCmp.isLE_rfl
    · exact hmax v hv

end Scan

namespace Archived

/-! ## Assignments and their undo -/

/-- The value is registered, and the one it replaces is archived. -/
def assign (a : Archived κ ν) (k : κ) (v : ν) : Archived κ ν where
  cur := update a.cur k (some v)
  arch :=
    match a.cur k with
    | some o => a.arch.insert o k
    | none => a.arch

/-- If `v` is the registered value, it is archived and the last archived one takes its place; the
    key is erased if there is none. -/
def undo [DecidableEq ν] (a : Archived κ ν) (k : κ) (v : ν) : Bool × Archived κ ν :=
  match a.cur k with
  | none => (false, a)
  | some o =>
    if o ≠ v then (false, a)
    else
      match lastFor a.arch k with
      | some n =>
        (true, { cur := update a.cur k (some n), arch := a.arch.insert o k })
      | none => (true, { a with cur := update a.cur k none })

variable [DecidableEq ν] {a t : Archived κ ν} {k : κ} {v : ν}

theorem undo_of_ne (h : a.cur k ≠ some v) : (a.undo k v).2 = a := by
  unfold undo
  cases hcur : a.cur k with
  | none => rfl
  | some o =>
    have hne : o ≠ v := fun heq => h (hcur.trans (congrArg some heq))
    simp only [hne, ne_eq, not_false_eq_true, if_true]

theorem undo_fst : (a.undo k v).1 = decide (a.cur k = some v) := by
  unfold undo
  cases a.cur k with
  | none => rfl
  | some o =>
    by_cases hne : o = v
    · cases lastFor a.arch k with
      | none | some n => simp [hne]
    · simp [hne]

theorem undo_cur_of_eq (h : a.cur k = some v) :
    (a.undo k v).2.cur = update a.cur k (lastFor a.arch k) := by
  simp only [undo, h, ne_eq, not_true_eq_false, if_false]
  cases lastFor a.arch k with
  | none | some n => rfl

variable [Std.TransOrd ν] [Std.LawfulEqOrd ν]

/-- **An assignment is taken back** exactly when every archived value of the key is at most the
    registered one; none is archived if none is registered. -/
theorem undo_assign_cur_iff :
    ((a.assign k v).undo k v).2.cur = a.cur ↔
      ∀ h, a.arch[h]? = some k → ∃ o, a.cur k = some o ∧ (compare h o).isLE = true := by
  have hreg : (a.assign k v).cur k = some v := update_self ..
  rw [undo_cur_of_eq hreg]
  simp only [assign, update_idem, update_eq_self_iff]
  cases hcur : a.cur k with
  | none => simp [lastFor_eq_none_iff]
  | some o => simp [lastFor_insert_eq_some_iff]

/-! ## Runs of assignments -/

/-- The same registered values, and the same archived values of the keys `ks`. -/
structure SameFor (ks : Set κ) (t a : Archived κ ν) : Prop where
  cur : t.cur = a.cur
  arch : ∀ k ∈ ks, ∀ h : ν, t.arch[h]? = some k ↔ a.arch[h]? = some k

omit [DecidableEq κ] [DecidableEq ν] [Std.TransOrd ν] [Std.LawfulEqOrd ν] in
theorem SameFor.refl (ks : Set κ) (a : Archived κ ν) : SameFor ks a a := ⟨rfl, fun _ _ _ => .rfl⟩

omit [DecidableEq κ] [DecidableEq ν] [Std.TransOrd ν] [Std.LawfulEqOrd ν] in
theorem SameFor.mono {ks ks' : Set κ} (h : SameFor ks' t a) (hsub : ks ⊆ ks') : SameFor ks t a :=
  ⟨h.cur, fun k hk => h.arch k (hsub hk)⟩

/-- No other key has the value, or the registered value of the key, in the archive. -/
def Owns (a : Archived κ ν) (k : κ) (v : ν) : Prop :=
  ∀ h : ν, h = v ∨ a.cur k = some h → ∀ k', a.arch[h]? = some k' → k' = k

omit [DecidableEq κ] [DecidableEq ν] in
theorem insert_arch_iff {k : κ} {h : ν} (hk : k' ≠ k) (hfree : arch[h]? ≠ some k') (h' : ν) :
    (arch.insert h k)[h']? = some k' ↔ arch[h']? = some k' := by
  rw [getElem?_insert_eq_some_iff]
  constructor
  · rintro (⟨_, heq⟩ | ⟨_, hold⟩)
    · exact absurd heq.symm hk
    · exact hold
  · intro hold
    refine .inr ⟨fun heq => hfree ?_, hold⟩
    rw [heq]
    exact hold

omit [DecidableEq ν] in
theorem assign_arch_iff (hk : k' ≠ k) (hown : a.Owns k v) (h : ν) :
    (a.assign k v).arch[h]? = some k' ↔ a.arch[h]? = some k' := by
  cases hcur : a.cur k with
  | none => simp only [assign, hcur]
  | some o =>
    simp only [assign, hcur]
    exact insert_arch_iff hk (fun hold => hk (hown o (.inr hcur) k' hold)) h

theorem undo_arch_iff (hk : k' ≠ k) (hfree : a.arch[v]? ≠ some k') (h : ν) :
    (a.undo k v).2.arch[h]? = some k' ↔ a.arch[h]? = some k' := by
  by_cases hreg : a.cur k = some v
  · cases hlast : lastFor a.arch k with
    | none => simp only [undo, hreg, hlast, ne_eq, not_true_eq_false, if_false]
    | some n =>
      simp only [undo, hreg, hlast, ne_eq, not_true_eq_false, if_false]
      exact insert_arch_iff hk hfree h
  · rw [undo_of_ne hreg]

/-- Taking back an assignment, after later ones that left it alone, leaves the earlier ones
    alone. -/
theorem SameFor.undo_assign {ks : Set κ} (h : SameFor (insert k ks) t (a.assign k v))
    (hback : ((a.assign k v).undo k v).2.cur = a.cur) (hown : a.Owns k v) (hk : k ∉ ks) :
    SameFor ks (t.undo k v).2 a := by
  have hreg : (a.assign k v).cur k = some v := update_self ..
  have hregt : t.cur k = some v := by rw [h.cur, hreg]
  constructor
  · rw [undo_cur_of_eq hregt, h.cur, lastFor_congr (h.arch k (Set.mem_insert ..)),
      ← undo_cur_of_eq hreg, hback]
  · intro k' hk' h'
    have hne : k' ≠ k := fun heq => hk (heq ▸ hk')
    have hsame : ∀ h : ν, t.arch[h]? = some k' ↔ a.arch[h]? = some k' := fun h₁ =>
      (h.arch k' (Set.mem_insert_of_mem _ hk') h₁).trans (assign_arch_iff hne hown h₁)
    have hfree : t.arch[v]? ≠ some k' := fun hold => hne (hown v (.inl rfl) k' ((hsame v).mp hold))
    exact (undo_arch_iff hne hfree h').trans (hsame h')

omit [Std.TransOrd ν] [Std.LawfulEqOrd ν] in
theorem SameFor.undo_of_ne {ks : Set κ} (h : SameFor ks t a) (hne : a.cur k ≠ some v) :
    SameFor ks (t.undo k v).2 a := by
  rw [Archived.undo_of_ne (h.cur ▸ hne)]
  exact h

end Archived

end ShareCoin.Lib
