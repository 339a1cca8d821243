import ShareCoin.Lib.Run

/-!
# Tables whose entries have to agree to a change

A table is a partial function from keys to entries. `ChangedBy Live Agrees m m'` says that a live
entry of `m` which is no longer there in `m'` is one that agrees. A write to one key is judged by
the entry of that key alone, and along a run an entry that no step agrees with stays.
-/

namespace ShareCoin.Lib

open Function

variable {κ ν : Type} {Live Agrees : ν → Prop} {m m' m'' : κ → Option ν} {k : κ}

def ChangedBy (Live Agrees : ν → Prop) (m m' : κ → Option ν) : Prop :=
  ∀ k v, m k = some v → Live v → m' k ≠ some v → Agrees v

theorem changedBy_refl : ChangedBy Live Agrees m m :=
  fun _ _ hk _ hne => absurd hk hne

theorem ChangedBy.trans (h : ChangedBy Live Agrees m m') (h' : ChangedBy Live Agrees m' m'') :
    ChangedBy Live Agrees m m'' := by
  intro k v hk hlive hne
  by_cases hmid : m' k = some v
  · exact h' k v hmid hlive hne
  · exact h k v hk hlive hmid

theorem ChangedBy.kept (h : ChangedBy Live Agrees m m') {v : ν} (hk : m k = some v)
    (hlive : Live v) (hno : ¬ Agrees v) : m' k = some v := by
  by_contra hne
  exact hno (h k v hk hlive hne)

theorem changedBy_update_iff [DecidableEq κ] {e : Option ν} :
    ChangedBy Live Agrees m (update m k e) ↔
      ∀ v, m k = some v → Live v → e ≠ some v → Agrees v := by
  constructor
  · intro h v hk hlive hne
    exact h k v hk hlive (by rwa [update_self])
  · intro h k' v hk hlive hne
    by_cases heq : k' = k
    · subst heq
      rw [update_self] at hne
      exact h v hk hlive hne
    · rw [update_of_ne heq] at hne
      exact absurd hk hne

section Runs

variable {σ ι : Type} {step : σ → ι → Option σ} {ok : σ → ι → Prop} {table : σ → κ → Option ν}
  {agrees : ι → ν → Prop}

/-- **A live entry stays along a run** whose steps change only what agrees, if it agrees with none
    of them. -/
theorem exec_kept (hstep : ∀ s i s', ok s i → step s i = some s' →
      ChangedBy Live (agrees i) (table s) (table s')) {s s' : σ} {is : List ι} {v : ν}
    (hok : StepsOk step ok s is) (hno : ∀ i ∈ is, ¬ agrees i v) (hlive : Live v)
    (hk : table s k = some v) (h : exec step s is = some s') : table s' k = some v := by
  induction is generalizing s with
  | nil =>
    simp only [exec, Option.some.injEq] at h
    exact h ▸ hk
  | cons i is ih =>
    obtain ⟨s₁, h₁, h₂⟩ := exec_cons_eq_some.mp h
    have hk₁ : table s₁ k = some v :=
      (hstep s i s₁ hok.1 h₁).kept hk hlive (hno i List.mem_cons_self)
    exact ih (hok.tail h₁) (List.forall_mem_cons.mp hno).2 hk₁ h₂

end Runs

end ShareCoin.Lib
