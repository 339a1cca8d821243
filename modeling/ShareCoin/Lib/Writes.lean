import ShareCoin.Lib.Run

/-!
# Tables that a run writes to

`writeAll` performs a list of writes, each over what is there; `fillAll` performs those that find
nothing at their key. The first leaves a table as it was exactly when the last write to each key
writes what the key had, the second exactly when every key was there. A key that was erased before
the writes has to be among them (`writeAll_erase_eq_iff`).

`writesAlong` collects what the steps of a run write, where a step may look at the state before it
to decide. `exec_writes` and `exec_fills` say of a table what a run of such steps makes of it.
-/

namespace ShareCoin.Lib

open List Function

variable {κ ν : Type} [DecidableEq κ] {m : κ → Option ν} {ws : List (κ × ν)}

/-! ## Lists of writes -/

def writeAll (m : κ → Option ν) (ws : List (κ × ν)) : κ → Option ν :=
  ws.foldl (fun m w => update m w.1 (some w.2)) m

def fillAll (m : κ → Option ν) (ws : List (κ × ν)) : κ → Option ν :=
  ws.foldl (fun m w => if (m w.1).isSome then m else update m w.1 (some w.2)) m

/-- What is written to the key last. -/
def lastWrite (ws : List (κ × ν)) (k : κ) : Option ν :=
  (ws.reverse.find? fun w => decide (w.1 = k)).map Prod.snd

theorem lastWrite_append_singleton (ws : List (κ × ν)) (w : κ × ν) (k : κ) :
    lastWrite (ws ++ [w]) k = if w.1 = k then some w.2 else lastWrite ws k := by
  unfold lastWrite
  rw [reverse_append, reverse_singleton, singleton_append, find?_cons]
  split_ifs with hk
  · rw [decide_eq_true hk]
    rfl
  · rw [decide_eq_false hk]

theorem writeAll_append (m : κ → Option ν) (ws ws' : List (κ × ν)) :
    writeAll m (ws ++ ws') = writeAll (writeAll m ws) ws' :=
  foldl_append

theorem writeAll_apply (m : κ → Option ν) (ws : List (κ × ν)) (k : κ) :
    writeAll m ws k = (lastWrite ws k).or (m k) := by
  induction ws using List.reverseRecOn with
  | nil => rfl
  | append_singleton ws w ih =>
    rw [writeAll_append, lastWrite_append_singleton]
    change update (writeAll m ws) w.1 (some w.2) k = _
    by_cases hk : w.1 = k
    · rw [if_pos hk, ← hk, update_self]
      rfl
    · rw [if_neg hk, update_of_ne (fun heq => hk heq.symm), ih]

/-- **The writes leave the table as it was exactly when the last write to each key writes what the
    key had.** -/
theorem writeAll_eq_iff : writeAll m ws = m ↔ ∀ k v, lastWrite ws k = some v → m k = some v := by
  constructor
  · intro h k v hlast
    have hk := congrFun h k
    rw [writeAll_apply, hlast] at hk
    exact hk.symm
  · intro h
    funext k
    rw [writeAll_apply]
    cases hlast : lastWrite ws k with
    | none => rfl
    | some v => exact (h k v hlast).symm

theorem writeAll_erase_eq_iff {k₀ : κ} (hk₀ : m k₀ ≠ none) :
    writeAll (update m k₀ none) ws = m ↔
      (∀ k v, lastWrite ws k = some v → m k = some v) ∧ lastWrite ws k₀ ≠ none := by
  constructor
  · intro h
    refine ⟨fun k v hlast => ?_, fun hlast => hk₀ ?_⟩
    · rw [← congrFun h k, writeAll_apply, hlast]
      rfl
    · rw [← congrFun h k₀, writeAll_apply, hlast, update_self]
      rfl
  · rintro ⟨h, hlast₀⟩
    funext k
    rw [writeAll_apply]
    cases hlast : lastWrite ws k with
    | some v => exact (h k v hlast).symm
    | none =>
      have hne : k ≠ k₀ := by
        rintro rfl
        exact hlast₀ hlast
      rw [update_of_ne hne]
      rfl

theorem fillAll_cons (m : κ → Option ν) (w : κ × ν) (ws : List (κ × ν)) :
    fillAll m (w :: ws) =
      fillAll (if (m w.1).isSome then m else update m w.1 (some w.2)) ws :=
  rfl

theorem fillAll_of_some {k : κ} {v : ν} (hk : m k = some v) (ws : List (κ × ν)) :
    fillAll m ws k = some v := by
  induction ws generalizing m with
  | nil => exact hk
  | cons w ws ih =>
    rw [fillAll_cons]
    apply ih
    split_ifs with hthere
    · exact hk
    · have hne : k ≠ w.1 := by
        rintro rfl
        exact hthere (Option.isSome_iff_exists.mpr ⟨v, hk⟩)
      rw [update_of_ne hne, hk]

/-- **Filling leaves the table as it was exactly when every key was there.** -/
theorem fillAll_eq_iff : fillAll m ws = m ↔ ∀ w ∈ ws, (m w.1).isSome = true := by
  induction ws generalizing m with
  | nil => simp [fillAll]
  | cons w ws ih =>
    rw [fillAll_cons, forall_mem_cons]
    split_ifs with hthere
    · rw [ih]
      exact (and_iff_right hthere).symm
    · refine iff_of_false (fun h => hthere ?_) (fun h => hthere h.1)
      rw [← h, fillAll_of_some (update_self _ _ _)]
      rfl

/-! ## Runs -/

section Runs

variable {σ ι : Type} {step : σ → ι → Option σ}

/-- What the steps of a run write, in their order. -/
def writesAlong (step : σ → ι → Option σ) (write : σ → ι → Option (κ × ν)) :
    σ → List ι → List (κ × ν)
  | _, [] => []
  | s, i :: is =>
    (write s i).toList ++
      match step s i with
      | none => []
      | some s' => writesAlong step write s' is

theorem exec_writes (table : σ → κ → Option ν) (write : σ → ι → Option (κ × ν))
    (hstep : ∀ s i s', step s i = some s' → table s' = writeAll (table s) (write s i).toList)
    {s s' : σ} {is : List ι} (h : exec step s is = some s') :
    table s' = writeAll (table s) (writesAlong step write s is) := by
  induction is generalizing s with
  | nil =>
    cases h
    rfl
  | cons i is ih =>
    obtain ⟨s₁, h₁, h₂⟩ := exec_cons_eq_some.mp h
    rw [ih h₂, hstep s i s₁ h₁, writesAlong, h₁, writeAll_append]

omit [DecidableEq κ] in
theorem writesAlong_const {f : ι → Option (κ × ν)} {s s' : σ} {is : List ι}
    (h : exec step s is = some s') :
    writesAlong step (fun _ => f) s is = is.filterMap f := by
  induction is generalizing s with
  | nil => rfl
  | cons i is ih =>
    obtain ⟨s₁, h₁, h₂⟩ := exec_cons_eq_some.mp h
    simp only [writesAlong, h₁, ih h₂]
    cases hf : f i with
    | none | some w => simp [hf]

theorem exec_fills (table : σ → κ → Option ν) (f : ι → Option (κ × ν))
    (hstep : ∀ s i s', step s i = some s' → table s' = fillAll (table s) (f i).toList)
    {s s' : σ} {is : List ι} (h : exec step s is = some s') :
    table s' = fillAll (table s) (is.filterMap f) := by
  induction is generalizing s with
  | nil =>
    cases h
    rfl
  | cons i is ih =>
    obtain ⟨s₁, h₁, h₂⟩ := exec_cons_eq_some.mp h
    rw [ih h₂, hstep s i s₁ h₁]
    cases hf : f i with
    | none | some w => simp [hf, fillAll]

end Runs

end ShareCoin.Lib
