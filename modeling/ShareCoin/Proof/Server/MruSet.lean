import ShareCoin.Server.MruSet
import Mathlib.Data.List.Infix
import Mathlib.Tactic.SplitIfs

/-!
# What a set of the most recent elements holds

Both parts are determined by the queue (`ofQueue`), and of that an operation leaves the last
elements, with what is new at the end.
-/

namespace ShareCoin.Server.MruSet

open List

variable {T : Type} {n : Nat} {q : List T}

/-- The last elements of a list; all of them where there is no bound. -/
def recent (n : Nat) (l : List T) : List T := if n = 0 then l else l.drop (l.length - n)

theorem recent_eq_self : recent n q = q ↔ (n ≠ 0 → q.length ≤ n) := by
  unfold recent
  split_ifs with hn
  · simp [hn]
  · constructor
    · intro h _
      have := congrArg length h
      rw [length_drop] at this
      omega
    · intro h
      rw [Nat.sub_eq_zero_of_le (h hn), drop_zero]

theorem recent_append (n : Nat) (l l' : List T) :
    recent n (recent n l ++ l') = recent n (l ++ l') := by
  unfold recent
  split_ifs
  · rfl
  · rw [← drop_append_of_le_length (Nat.sub_le _ _), drop_drop, length_drop, length_append]
    congr 1
    omega

theorem recent_nodup (n : Nat) (h : q.Nodup) : (recent n q).Nodup := by
  unfold recent
  split_ifs
  · exact h
  · exact h.sublist (drop_sublist _ _)

variable [DecidableEq T]

/-- What an operation inserts newly. -/
def fresh (m : MruSet T) : Op T → List T
  | .insert x => if (m.insert x).2 then [x] else []
  | .maxSize _ => []

def history (m : MruSet T) : List (Op T) → List T
  | [] => []
  | op :: ops => m.fresh op ++ history (m.step op) ops

/-! ## Steps -/

def ofQueue (n : Nat) (queue : List T) : MruSet T := ⟨queue.toFinset, queue, n⟩

theorem erase_front {x : T} (h : (x :: q).Nodup) : (x :: q).toFinset.erase x = q.toFinset := by
  rw [nodup_cons] at h
  simp [h.1]

theorem shrink_eq (s : Nat) (h : q.Nodup) : shrink s q.toFinset q =
    ((q.drop (q.length - s)).toFinset, q.drop (q.length - s)) := by
  induction q with
  | nil => simp [shrink]
  | cons x q ih =>
    rw [shrink]
    split_ifs with hs
    · rw [erase_front h, ih h.of_cons, length_cons, Nat.succ_sub (Nat.le_of_lt_succ hs),
        drop_succ_cons]
    · rw [Nat.sub_eq_zero_of_le (Nat.le_of_not_lt hs), drop_zero]

theorem maxSize_eq (h : q.Nodup) (s : Nat) :
    (ofQueue n q).maxSize s = ofQueue s (recent s q) := by
  simp only [maxSize, ofQueue, shrink_eq s h, recent]
  split_ifs
  · rfl
  · rfl

theorem insert_eq {x : T} (h : q.Nodup) (hx : x ∉ q) (hq : recent n q = q) :
    (ofQueue n q).insert x = (ofQueue n (recent n (q ++ [x])), true) := by
  have hset : Insert.insert x q.toFinset = (q ++ [x]).toFinset := by
    rw [toFinset_append, Finset.union_comm]
    rfl
  have hle := recent_eq_self.mp hq
  simp only [insert, ofQueue, mem_toFinset, if_neg hx, hset]
  by_cases hfull : n ≠ 0 ∧ q.length = n
  · cases q with
    | nil => exact absurd hfull.2.symm hfull.1
    | cons front q =>
      have hrecent : recent n (front :: q ++ [x]) = q ++ [x] := by
        simp [recent, ← hfull.2]
      have herase : (front :: q ++ [x]).toFinset.erase front = (q ++ [x]).toFinset :=
        erase_front (by simpa using h.concat hx)
      have hcond : (n != 0 && (front :: q).length == n) = true := by simp [hfull.1, hfull.2]
      rw [hrecent, hcond]
      dsimp only
      rw [herase]
  · have hrecent : recent n (q ++ [x]) = q ++ [x] := by
      rw [recent_eq_self]
      intro hn
      have := hle hn
      rw [length_append, length_singleton]
      omega
    rw [hrecent]
    split
    · rename_i hc
      exact absurd (by simpa using hc) hfull
    · rfl

/-- The bound after an operation. -/
def Op.bound (n : Nat) : Op T → Nat
  | .insert _ => n
  | .maxSize s => s

/-- **A step leaves the last elements of the queue, with what is new at the end.** -/
theorem step_eq (h : q.Nodup) (hq : recent n q = q) (op : Op T) :
    (ofQueue n q).step op =
        ofQueue (op.bound n) (recent (op.bound n) (q ++ (ofQueue n q).fresh op)) ∧
      (q ++ (ofQueue n q).fresh op).Nodup := by
  cases op with
  | insert x =>
    rw [step, fresh, Op.bound]
    by_cases hx : x ∈ q
    · have hin : (ofQueue n q).insert x = (ofQueue n q, false) := by simp [insert, ofQueue, hx]
      simp [hin, h, hq]
    · rw [insert_eq h hx hq]
      exact ⟨rfl, by simpa using h.concat hx⟩
  | maxSize s =>
    rw [step, fresh, append_nil]
    exact ⟨maxSize_eq h s, h⟩

theorem foldl_step (ops : List (Op T)) : ∀ {n : Nat} {q : List T}, q.Nodup → recent n q = q →
    ∃ n' q', ops.foldl step (ofQueue n q) = ofQueue n' q' ∧ q'.Nodup ∧ recent n' q' = q' ∧
      ((∀ s, Op.maxSize s ∈ ops → s = n) → q' = recent n (q ++ history (ofQueue n q) ops)) := by
  induction ops with
  | nil =>
    intro n q h hq
    exact ⟨n, q, rfl, h, hq, fun _ => by rw [history, append_nil, hq]⟩
  | cons op ops ih =>
    intro n q h hq
    obtain ⟨hstep, hnodup⟩ := step_eq h hq op
    have hkeep := recent_append (op.bound n) (q ++ (ofQueue n q).fresh op) []
    rw [append_nil, append_nil] at hkeep
    obtain ⟨n', q', hrun, hnodup', hq', hconst⟩ := ih (recent_nodup (op.bound n) hnodup) hkeep
    rw [← hstep] at hrun hconst
    refine ⟨n', q', hrun, hnodup', hq', fun hs => ?_⟩
    have hbound : op.bound n = n := by
      cases op with
      | insert x => rfl
      | maxSize s => exact hs s mem_cons_self
    rw [hbound] at hconst
    rw [hconst fun s hmem => hs s (mem_cons_of_mem _ hmem), recent_append, append_assoc, history]

/-- **The set holds the elements of the queue, within the bound; and with one bound these are the
    last that came in new.** -/
theorem mruset_holds_most_recent (n : Nat) (ops : List (Op T)) :
    let m := ops.foldl step (new n)
    m.queue.Nodup ∧ m.set = m.queue.toFinset ∧ (m.nMaxSize ≠ 0 → m.set.card ≤ m.nMaxSize) ∧
      ((∀ s, Op.maxSize s ∈ ops → s = n) → m.queue = recent n (history (new n) ops)) := by
  obtain ⟨n', q, hrun, hnodup, hq, hconst⟩ :=
    @foldl_step T _ ops n [] nodup_nil (recent_eq_self.mpr fun _ => Nat.zero_le n)
  have hnew : new n = ofQueue n ([] : List T) := rfl
  dsimp only
  rw [hnew, hrun]
  refine ⟨hnodup, rfl, fun hn => ?_, hconst⟩
  exact (toFinset_card_of_nodup hnodup).trans_le (recent_eq_self.mp hq hn)

/-- With room for two, the first of three goes, and can come again. -/
theorem mruset_holds_last_two :
    ([.insert 1, .insert 2, .insert 1, .insert 3, .maxSize 2, .insert 1].foldl step
      (new 2)).queue = [3, 1] :=
  ((mruset_holds_most_recent 2
    [.insert 1, .insert 2, .insert 1, .insert 3, .maxSize 2, .insert 1]).2.2.2 (by simp)).trans
      (by decide)

end ShareCoin.Server.MruSet
