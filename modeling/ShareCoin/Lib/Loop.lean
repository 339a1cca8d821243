import Mathlib.Data.List.Basic

/-!
# Loops whose body can stop

A computation in `Except ε` has a value or stops with an error. `Meets E P` says that its error, if
it stops, is one that `E` allows, and that its value, if it has one, satisfies `P`; `Meets.bind` is
the rule of composition.

`loop` repeats such a body as long as a state is `live`. It records the states after each pass and
how often the body was entered. The number of passes is bounded by an explicit count; a body that
makes a size smaller never reaches it, which is part of `loop_meets`.

`loop_eq_ok_iff` compares two bodies that agree where a check passes, and of which the first stops
where it does not: the first loop comes to an end exactly when the second does and every check on
the way passes.
-/

namespace ShareCoin.Lib

variable {ε α β σ : Type} {f : α → Except ε β} {k : Nat}

/-! ## Outcomes -/

def Meets (E : ε → Prop) (P : α → Prop) : Except ε α → Prop
  | .ok a => P a
  | .error e => E e

section

variable {E : ε → Prop} {P Q : α → Prop} {R : β → Prop} {x : Except ε α}

theorem Meets.imp (h : Meets E P x) (himp : ∀ a, P a → Q a) : Meets E Q x := by
  cases x with
  | ok a => exact himp a h
  | error e => exact h

theorem Meets.bind (h : Meets E P x) (hf : ∀ a, P a → Meets E R (f a)) : Meets E R (x >>= f) := by
  cases x with
  | ok a => exact hf a h
  | error e => exact h

theorem Meets.map {f : α → β} (h : Meets E P x) (hf : ∀ a, P a → R (f a)) :
    Meets E R (x.map f) := by
  cases x with
  | ok a => exact hf a h
  | error e => exact h

theorem meets_true (x : Except ε α) : Meets (fun _ => True) (fun _ => True) x := by
  cases x <;> exact trivial

theorem Meets.stops (h : Meets E (fun _ => False) x) : ∃ e, x = .error e := by
  cases x with
  | ok a => exact h.elim
  | error e => exact ⟨e, rfl⟩

end

theorem bind_eq_ok {x : Except ε α} {b : β} (h : x >>= f = .ok b) :
    ∃ a, x = .ok a ∧ f a = .ok b := by
  cases x with
  | ok a => exact ⟨a, rfl, h⟩
  | error e => cases h

/-! ## The loop -/

/-- The states after each pass, how often the body was entered, and how it ended. -/
structure LoopRun (ε σ : Type) where
  trace : List σ
  passes : Nat
  result : Except ε σ

/-- `while (live s) s = step(s)`, at most `k` times; `out` stands for one time too many. -/
def loop (live : σ → Bool) (step : σ → Except ε σ) (out : ε) : Nat → σ → LoopRun ε σ
  | 0, s => ⟨[], 0, if live s then .error out else .ok s⟩
  | k + 1, s =>
    if live s then
      match step s with
      | .error e => ⟨[], 1, .error e⟩
      | .ok s' =>
        let run := loop live step out k s'
        ⟨s' :: run.trace, run.passes + 1, run.result⟩
    else ⟨[], 0, .ok s⟩

section

variable {live : σ → Bool} {step : σ → Except ε σ} {out : ε}

/-- **The rule of a loop.** `P` holds where the body is entered, and it leaves a smaller state with
    the stronger `Q`. Then the passes are no more than the size, `Q` holds after each of them, and
    the loop ends in a state with `P` that is not live, or with an error that `E` allows. -/
theorem loop_meets {E : ε → Prop} {P Q : σ → Prop} (size : σ → Nat)
    (hsize : ∀ s, live s = true → 0 < size s) (hPQ : ∀ s, Q s → P s)
    (hstep : ∀ s, live s = true → P s → Meets E (fun s' => Q s' ∧ size s' < size s) (step s))
    {s : σ} (hk : size s ≤ k) (hs : P s) :
    (loop live step out k s).passes ≤ size s ∧
    (∀ s' ∈ (loop live step out k s).trace, Q s') ∧
    Meets E (fun s' => P s' ∧ live s' = false) (loop live step out k s).result := by
  induction k generalizing s with
  | zero =>
    have hdead : live s = false := by
      rw [← Bool.not_eq_true]
      intro hlive
      exact absurd (hsize s hlive) (Nat.not_lt.mpr hk)
    simp only [loop, hdead]
    exact ⟨Nat.zero_le _, by simp, hs, hdead⟩
  | succ k ih =>
    rw [loop]
    cases hlive : live s with
    | false => exact ⟨Nat.zero_le _, by simp, hs, hlive⟩
    | true =>
      have hbody := hstep s hlive hs
      cases hx : step s with
      | error e =>
        rw [hx] at hbody
        exact ⟨hsize s hlive, by simp, hbody⟩
      | ok s' =>
        rw [hx] at hbody
        obtain ⟨hQ, hlt⟩ := hbody
        obtain ⟨hpasses, htrace, hresult⟩ := ih (by omega) (hPQ s' hQ)
        refine ⟨?_, ?_, hresult⟩
        · show (loop live step out k s').passes + 1 ≤ size s
          omega
        · simp only [↓reduceIte, List.mem_cons, forall_eq_or_imp]
          exact ⟨hQ, htrace⟩

theorem loop_pass {s t : σ} (hlive : live s = true) (h : (loop live step out k s).result = .ok t) :
    ∃ k' s', step s = .ok s' ∧ (loop live step out k' s').result = .ok t := by
  cases k with
  | zero => simp [loop, hlive] at h
  | succ k =>
    rw [loop, if_pos hlive] at h
    cases hx : step s with
    | error e =>
      rw [hx] at h
      cases h
    | ok s' =>
      rw [hx] at h
      exact ⟨k, s', rfl, h⟩

theorem loop_end {s t : σ} (hdead : live s = false) (h : (loop live step out k s).result = .ok t) :
    s = t := by
  cases k <;> simpa [loop, hdead] using h

/-- Every state at which the body is entered passes the check. -/
def LoopChecks (live : σ → Bool) (step : σ → Except ε σ) (check : σ → Bool) : Nat → σ → Bool
  | 0, _ => true
  | k + 1, s =>
    if live s then
      check s && match step s with
        | .error _ => true
        | .ok s' => LoopChecks live step check k s'
    else true

theorem loop_eq_ok_iff {checked : σ → Except ε σ} {check : σ → Bool}
    (hpass : ∀ s, check s = true → checked s = step s)
    (hfail : ∀ s, check s = false → ∃ e, checked s = .error e) {s t : σ} :
    (loop live checked out k s).result = .ok t ↔
      (loop live step out k s).result = .ok t ∧ LoopChecks live step check k s = true := by
  induction k generalizing s with
  | zero => simp [loop, LoopChecks]
  | succ k ih =>
    rw [loop, loop, LoopChecks]
    cases live s with
    | false => simp
    | true =>
      cases hcheck : check s with
      | false =>
        obtain ⟨e, he⟩ := hfail s hcheck
        simp [he]
      | true =>
        rw [hpass s hcheck]
        cases step s with
        | error e => simp
        | ok s' => simpa using ih

end

/-! ## Counting loops -/

def forRange (body : Nat → σ → σ) : Nat → σ → σ
  | 0, s => s
  | n + 1, s => body n (forRange body n s)

theorem forRange_inv {b : Nat → σ → σ} {P : Nat → σ → Prop} {n : Nat} {s : σ} (h0 : P 0 s)
    (hstep : ∀ i < n, ∀ s, P i s → P (i + 1) (b i s)) : P n (forRange b n s) := by
  induction n with
  | zero => exact h0
  | succ n ih => exact hstep n n.lt_succ_self _ (ih fun i hi => hstep i (Nat.lt_succ_of_lt hi))

end ShareCoin.Lib
