import Mathlib.Data.List.Induction

/-!
# Runs of a partial step function

`exec step s is` performs the inputs `is` one after another; it has no value once a step has
none. An invariant of a run is proved from what one step preserves, and `exec_invariant` is that
induction, done once. `A` is for a condition that every input of the run has to meet.

A run that is taken back, the last input first, ends where it started when each step is taken back
by its own undo; `exec_undo` is that induction, and `exec_undo_partial` the one for an undo that may
have no value. The condition may look at the state before the step, so `StepsOk` walks along the
run.
-/

namespace ShareCoin.Lib

open List

variable {σ ι : Type}

def exec (step : σ → ι → Option σ) : σ → List ι → Option σ
  | s, [] => some s
  | s, i :: is => (step s i).bind fun s' => exec step s' is

variable {i : ι} {is : List ι}

theorem exists_split_cons {P : List ι → ι → List ι → Prop} :
    (∃ pre x post, i :: is = pre ++ x :: post ∧ P pre x post) ↔
      P [] i is ∨ ∃ pre x post, is = pre ++ x :: post ∧ P (i :: pre) x post := by
  constructor
  · rintro ⟨pre, x, post, heq, h⟩
    cases pre with
    | nil =>
      cases heq
      exact .inl h
    | cons j pre =>
      cases heq
      exact .inr ⟨pre, x, post, rfl, h⟩
  · rintro (h | ⟨pre, x, post, rfl, h⟩)
    · exact ⟨[], i, is, rfl, h⟩
    · exact ⟨i :: pre, x, post, rfl, h⟩

variable {step : σ → ι → Option σ}

variable {s s' : σ} {P : σ → Prop}

theorem exec_cons_eq_some :
    exec step s (i :: is) = some s' ↔ ∃ s₁, step s i = some s₁ ∧ exec step s₁ is = some s' := by
  simp [exec, Option.bind_eq_some_iff]

/-- What every step with an admitted input preserves holds after the run. -/
theorem exec_invariant {A : ι → Prop} (hstep : ∀ s i s', A i → P s → step s i = some s' → P s')
    (hok : ∀ i ∈ is, A i) (hs : P s) (h : exec step s is = some s') : P s' := by
  induction is generalizing s with
  | nil =>
    simp only [exec, Option.some.injEq] at h
    exact h ▸ hs
  | cons i is ih =>
    obtain ⟨s₁, h₁, h₂⟩ := exec_cons_eq_some.mp h
    exact ih (forall_mem_cons.mp hok).2
      (hstep s i s₁ (hok i mem_cons_self) hs h₁) h₂

/-- Every step of the run meets a condition on the state before it. -/
def StepsOk (step : σ → ι → Option σ) (ok : σ → ι → Prop) : σ → List ι → Prop
  | _, [] => True
  | s, i :: is => ok s i ∧
    match step s i with
    | none => True
    | some s' => StepsOk step ok s' is

instance StepsOk.decidable {ok : σ → ι → Prop} [∀ s i, Decidable (ok s i)] :
    ∀ s is, Decidable (StepsOk step ok s is)
  | _, [] => isTrue trivial
  | s, i :: is =>
    have : Decidable (match step s i with
        | none => True
        | some s' => StepsOk step ok s' is) :=
      match step s i with
      | none => isTrue trivial
      | some s' => StepsOk.decidable s' is
    inferInstanceAs (Decidable (_ ∧ _))

variable {ok : σ → ι → Prop}

theorem StepsOk.cons {s₁ : σ} (hi : ok s i)
    (h₁ : step s i = some s₁) (h : StepsOk step ok s₁ is) : StepsOk step ok s (i :: is) := by
  refine ⟨hi, ?_⟩
  rw [h₁]
  exact h

theorem StepsOk.tail {s₁ : σ}
    (h : StepsOk step ok s (i :: is)) (h₁ : step s i = some s₁) : StepsOk step ok s₁ is := by
  have h₂ := h.2
  rw [h₁] at h₂
  exact h₂

theorem exec_preserves {α : Type} (f : σ → α)
    (hstep : ∀ s i s', ok s i → step s i = some s' → f s' = f s)
    (hok : StepsOk step ok s is) (h : exec step s is = some s') : f s' = f s := by
  induction is generalizing s with
  | nil =>
    cases h
    rfl
  | cons i is ih =>
    obtain ⟨s₁, h₁, h₂⟩ := exec_cons_eq_some.mp h
    rw [ih (hok.tail h₁) h₂, hstep s i s₁ hok.1 h₁]

theorem StepsOk.and {ok' : σ → ι → Prop} (h : StepsOk step ok s is)
    (h' : StepsOk step ok' s is) : StepsOk step (fun s i => ok s i ∧ ok' s i) s is := by
  induction is generalizing s with
  | nil => trivial
  | cons i is ih =>
    refine ⟨⟨h.1, h'.1⟩, ?_⟩
    split
    · trivial
    · rename_i s₁ h₁
      exact ih (h.tail h₁) (h'.tail h₁)

/-- Steps that their undo takes back make a run that is taken back. -/
theorem exec_undo {undo : σ → ι → σ}
    (hundo : ∀ s i s', ok s i → step s i = some s' → undo s' i = s)
    (hok : StepsOk step ok s is) (h : exec step s is = some s') :
    is.foldr (fun i s => undo s i) s' = s := by
  induction is generalizing s with
  | nil =>
    simp only [exec, Option.some.injEq] at h
    exact h.symm
  | cons i is ih =>
    obtain ⟨s₁, h₁, h₂⟩ := exec_cons_eq_some.mp h
    rw [foldr_cons, ih (hok.tail h₁) h₂]
    exact hundo s i s₁ hok.1 h₁

theorem exec_append (s : σ) (is js : List ι) :
    exec step s (is ++ js) = (exec step s is).bind fun s' => exec step s' js := by
  induction is generalizing s with
  | nil => rfl
  | cons i is ih => simp only [cons_append, exec, ih, Option.bind_assoc]

theorem exec_undo_partial {undo : σ → ι → Option σ}
    (hundo : ∀ s i, ok s i → ∃ s', step s i = some s' ∧ undo s' i = some s)
    (hok : StepsOk step ok s is) :
    ∃ s', exec step s is = some s' ∧ exec undo s' is.reverse = some s := by
  induction is generalizing s with
  | nil => exact ⟨s, rfl, rfl⟩
  | cons i is ih =>
    obtain ⟨s₁, h₁, hback⟩ := hundo s i hok.1
    obtain ⟨s', h', hundone⟩ := ih (hok.tail h₁)
    refine ⟨s', exec_cons_eq_some.mpr ⟨s₁, h₁, h'⟩, ?_⟩
    rw [reverse_cons, exec_append, hundone]
    exact exec_cons_eq_some.mpr ⟨s, hback, rfl⟩

/-- What every step of a total function preserves, when it meets a condition on the state before
    it, holds after the run. -/
theorem foldl_invariant {f : σ → ι → σ} (hstep : ∀ s i, ok s i → P s → P (f s i))
    (hok : StepsOk (fun s i => some (f s i)) ok s is) (hs : P s) : P (is.foldl f s) := by
  induction is generalizing s with
  | nil => exact hs
  | cons i is ih => exact ih hok.2 (hstep s i hok.1 hs)

end ShareCoin.Lib
