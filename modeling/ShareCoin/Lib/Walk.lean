import Mathlib.Logic.Relation
import Mathlib.Data.List.Basic

/-!
# Walks to an end

`follow next fuel a` goes from `a` to `next a` and on, until there is no next one. When no walk
comes back to where it was, the steps are bounded by a list of the places that a step can lead to.

In a relation where each element has one predecessor, an element has one way back. Two paths that
end in one place are then the same path, as far as both go: `sibling_eq` and `on_path` say so for
relations without cycles.
-/

namespace ShareCoin.Lib

open Relation (ReflTransGen TransGen)

variable {α : Type} {next : α → Option α} {fuel : Nat} {a b c : α}

/-- A step of the walk. -/
def Next (next : α → Option α) (a b : α) : Prop := next a = some b

/-- The end of the walk from a place; no value once the fuel is used up. -/
def follow (next : α → Option α) : Nat → α → Option α
  | 0, _ => none
  | fuel + 1, a =>
    match next a with
    | none => some a
    | some b => follow next fuel b

theorem follow_end (h : follow next fuel a = some b) :
    ReflTransGen (Next next) a b ∧ next b = none := by
  induction fuel generalizing a with
  | zero => cases h
  | succ fuel ih =>
    rw [follow] at h
    cases hnext : next a with
    | none =>
      rw [hnext] at h
      cases h
      exact ⟨.refl, hnext⟩
    | some a' =>
      rw [hnext] at h
      exact ⟨.head hnext (ih h).1, (ih h).2⟩

theorem follow_of_end (hnext : next a = none) (h : follow next fuel a = some b) : b = a := by
  cases fuel with
  | zero => cases h
  | succ fuel =>
    rw [follow, hnext] at h
    exact (Option.some.inj h).symm

theorem walk_tail (h : ReflTransGen (Next next) a c) (hend : next c = none)
    (hnext : next a = some b) : ReflTransGen (Next next) b c := by
  rcases h.cases_head with rfl | ⟨b', hstep, h⟩
  · rw [hnext] at hend
    cases hend
  · obtain rfl : b = b' := Option.some.inj (hnext.symm.trans hstep)
    exact h

theorem walk_through (h : ReflTransGen (Next next) a c) (hend : next c = none)
    (hb : ReflTransGen (Next next) a b) : ReflTransGen (Next next) b c := by
  induction hb with
  | refl => exact h
  | tail _ hstep ih => exact walk_tail ih hend hstep

theorem walk_lift {R : α → α → Prop} (h : ReflTransGen (Next next) a b)
    (hstep : ∀ x y, ReflTransGen (Next next) a x → next x = some y → R x y) :
    ReflTransGen R a b := by
  induction h with
  | refl => exact .refl
  | tail hax hxy ih => exact ih.tail (hstep _ _ hax hxy)

/-- A walk without cycles ends, within as many steps as there are places to go to. -/
theorem follow_isSome [DecidableEq α] (hacyclic : ∀ a, ¬ TransGen (Next next) a a) {a : α}
    {places : List α}
    (hplaces : ∀ x y, ReflTransGen (Next next) a x → next x = some y → y ∈ places)
    (hfuel : places.length < fuel) : (follow next fuel a).isSome = true := by
  -- a place that was reached is not reached again, so it can be taken off the list
  induction fuel generalizing a places with
  | zero => exact absurd hfuel (Nat.not_lt_zero _)
  | succ fuel ih =>
    rw [follow]
    cases hnext : next a with
    | none => rfl
    | some b =>
      have hb : b ∈ places := hplaces a b .refl hnext
      have hrest (x y : α) (hx : ReflTransGen (Next next) b x) (hy : next x = some y) :
          y ∈ places.filter (· != b) := by
        refine List.mem_filter.mpr ⟨hplaces x y (.head hnext hx) hy, bne_iff_ne.mpr ?_⟩
        rintro rfl
        exact hacyclic y (.tail' hx hy)
      have hlength : (places.filter (· != b)).length < places.length :=
        List.length_filter_lt_length_iff_exists.mpr ⟨b, hb, by simp⟩
      exact ih hrest (by omega)

section

variable {R : α → α → Prop} (huniq : ∀ a a' b, R a b → R a' b → a = a')
  (hacyclic : ∀ a, ¬ TransGen R a a)

include huniq

theorem path_total (ha : ReflTransGen R a c) (hb : ReflTransGen R b c) :
    ReflTransGen R a b ∨ ReflTransGen R b a := by
  have hright : Relator.RightUnique (Function.swap R) := fun c a a' h h' => huniq a a' c h h'
  have htotal := ReflTransGen.total_of_right_unique hright
    (Relation.reflTransGen_swap.mpr hb) (Relation.reflTransGen_swap.mpr ha)
  exact htotal.imp Relation.reflTransGen_swap.mp Relation.reflTransGen_swap.mp

include hacyclic

theorem sibling_eq {o a b c : α} (ha : R o a) (hb : R o b) (hac : ReflTransGen R a c)
    (hbc : ReflTransGen R b c) : a = b := by
  have hcycle {x y : α} (hx : R o x) (hy : R o y) (h : ReflTransGen R x y) : x = y := by
    rcases h.cases_tail with heq | ⟨z, hxz, hzy⟩
    · exact heq.symm
    · rw [huniq z o y hzy hy] at hxz
      exact absurd (TransGen.head' hx hxz) (hacyclic o)
  rcases path_total huniq hac hbc with h | h
  · exact hcycle ha hb h
  · exact (hcycle hb ha h).symm

theorem on_path {P : α → α → Prop} (hP : ∀ a b, P a b → R a b) {a b x y : α}
    (hab : ReflTransGen P a b) (hax : ReflTransGen R a x) (hxy : R x y)
    (hyb : ReflTransGen R y b) : P x y := by
  induction hab with
  | refl => exact absurd (TransGen.tail' hax hxy |>.trans_left hyb) (hacyclic a)
  | @tail c b _ hcb ih =>
    rcases hyb.cases_tail with heq | ⟨z, hyz, hzb⟩
    · subst heq
      rwa [huniq x c b hxy (hP _ _ hcb)]
    · rw [huniq z c b hzb (hP _ _ hcb)] at hyz
      exact ih hyz

end

end ShareCoin.Lib
