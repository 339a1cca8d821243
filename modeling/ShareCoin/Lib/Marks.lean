import Mathlib.Data.List.Nodup

/-!
# Marks

Owners mark keys, one after another, and each mark is the name of its owner. Before it marks a key
an owner looks at the mark that is there; `busy` says which marks stop it. `Passes` holds of a
sequence of which no owner is stopped.

A test that only knows some marks does not keep owners apart by itself. `Passes.nodup` says what it
takes: the test has to know the mark of every earlier owner of the key.
-/

namespace ShareCoin.Lib

open List Function

variable {ι κ α : Type} [DecidableEq κ] {name : ι → α} {busy : ι → α → Prop}

/-- The marks after a sequence of owners and their keys. -/
def markAll (name : ι → α) (v : κ → α) (es : List (ι × κ)) : κ → α :=
  es.foldl (fun v e => update v e.2 (name e.1)) v

/-- No owner of the sequence is stopped. -/
def Passes (name : ι → α) (busy : ι → α → Prop) : (κ → α) → List (ι × κ) → Prop
  | _, [] => True
  | v, e :: es => ¬ busy e.1 (v e.2) ∧ Passes name busy (update v e.2 (name e.1)) es

@[simp] theorem markAll_nil (v : κ → α) : markAll name v [] = v := rfl

@[simp] theorem markAll_cons (v : κ → α) (e : ι × κ) (es : List (ι × κ)) :
    markAll name v (e :: es) = markAll name (update v e.2 (name e.1)) es := rfl

theorem markAll_append (v : κ → α) (es es' : List (ι × κ)) :
    markAll name v (es ++ es') = markAll name (markAll name v es) es' :=
  foldl_append

variable {v : κ → α} {es : List (ι × κ)}

theorem passes_append {es' : List (ι × κ)} :
    Passes name busy v (es ++ es') ↔
      Passes name busy v es ∧ Passes name busy (markAll name v es) es' := by
  induction es generalizing v with
  | nil => simp [Passes]
  | cons e es ih => simp [Passes, ih, and_assoc]

theorem markAll_of_notMem {k : κ} (hk : k ∉ es.map Prod.snd) : markAll name v es k = v k := by
  induction es generalizing v with
  | nil => rfl
  | cons e es ih =>
    rw [map_cons, mem_cons, not_or] at hk
    rw [markAll_cons, ih hk.2, update_of_ne hk.1]

theorem Passes.first {k : κ} (h : Passes name busy v es)
    (hk : k ∈ es.map Prod.snd) : ∃ i, (i, k) ∈ es ∧ ¬ busy i (v k) := by
  induction es generalizing v with
  | nil => cases hk
  | cons e es ih =>
    by_cases he : k = e.2
    · exact ⟨e.1, by rw [he]; exact mem_cons_self, by rw [he]; exact h.1⟩
    · rw [map_cons, mem_cons] at hk
      obtain ⟨i, hmem, hfree⟩ := ih h.2 (hk.resolve_left he)
      rw [update_of_ne he] at hfree
      exact ⟨i, mem_cons_of_mem _ hmem, hfree⟩

/-- **No key is marked twice** when every earlier owner of a key would stop the later one. -/
theorem Passes.nodup (h : Passes name busy v es)
    (hbusy : es.Pairwise fun a b => a.2 = b.2 → busy b.1 (name a.1)) :
    (es.map Prod.snd).Nodup := by
  induction es generalizing v with
  | nil => exact nodup_nil
  | cons e es ih =>
    rw [pairwise_cons] at hbusy
    rw [map_cons, nodup_cons]
    refine ⟨?_, ih h.2 hbusy.2⟩
    intro hmem
    obtain ⟨i, hi, hfree⟩ := h.2.first hmem
    rw [update_self] at hfree
    exact hfree (hbusy.1 _ hi rfl)

theorem Passes.free (h : Passes name busy v es)
    (hnodup : (es.map Prod.snd).Nodup) {e : ι × κ} (he : e ∈ es) : ¬ busy e.1 (v e.2) := by
  induction es generalizing v with
  | nil => cases he
  | cons f es ih =>
    rw [map_cons, nodup_cons] at hnodup
    rcases mem_cons.mp he with rfl | he
    · exact h.1
    · have hfree := ih h.2 hnodup.2 he
      have hne : e.2 ≠ f.2 := fun heq => hnodup.1 (heq ▸ mem_map_of_mem he)
      rwa [update_of_ne hne] at hfree

end ShareCoin.Lib
