import Mathlib.Data.List.Basic
import Mathlib.Order.Bounds.Basic

/-!
# A bucket cache over a downward scan

A table of keys, some positions of which are live, is searched for the highest live position of
a key by scanning downwards. A cache has one slot per *bucket* of keys and promises an upper bound
for the live positions of the whole bucket, so that the scan may start there; it may also promise
that the bucket is empty, or promise nothing.

The promise is `Slot.Sound`. It survives anything that only takes keys away, it survives a
new key as long as the key's own slot is put back to `search`, and `scan_eq_of_upTo` is what it is
good for: the scan from the bound is the scan from the top. `scanHigh` is the scan that learns a
bound on the way.
-/

namespace ShareCoin.Lib

variable {K B : Type}

/-! ## Slots -/

inductive Slot where
  | search
  | null
  | upTo (p : Nat)
  deriving DecidableEq, Repr

/-- What a slot promises about the live positions of its bucket `b` below `n`. -/
def Slot.Sound (bucket : K → B) (live : Nat → Option K) (n : Nat) (b : B) : Slot → Prop
  | .search => True
  | .null => ∀ i < n, ∀ k, live i = some k → bucket k ≠ b
  | .upTo p => p < n ∧ ∀ i < n, ∀ k, live i = some k → bucket k = b → i ≤ p

variable {bucket : K → B} {live : Nat → Option K}

/-- A promise survives every change that makes no position of the bucket live, and moves the end
    of the table up at most. -/
theorem Slot.Sound.mono {live' : Nat → Option K} {n n' : Nat} {b : B}
    {s : Slot} (h : s.Sound bucket live n b) (hn : n ≤ n')
    (hlive : ∀ i < n', ∀ k, live' i = some k → bucket k = b → i < n ∧ live i = some k) :
    s.Sound bucket live' n' b := by
  cases s with
  | search => trivial
  | null =>
    intro i hi k hk hb
    obtain ⟨hin, hlk⟩ := hlive i hi k hk hb
    exact h i hin k hlk hb
  | upTo p =>
    refine ⟨Nat.lt_of_lt_of_le h.1 hn, ?_⟩
    intro i hi k hk hb
    obtain ⟨hin, hlk⟩ := hlive i hi k hk hb
    exact h.2 i hin k hlk hb

/-! ## The scan -/

variable [DecidableEq K]

/-- The highest position below `n` that holds `k`. -/
def scan (live : Nat → Option K) (k : K) : Nat → Option Nat
  | 0 => none
  | i + 1 => if live i = some k then some i else scan live k i

variable {k : K} {n : Nat}

theorem scan_eq_none_iff : scan live k n = none ↔ ∀ i < n, live i ≠ some k := by
  induction n with
  | zero => simp [scan]
  | succ n ih =>
    by_cases hn : live n = some k
    · rw [scan, if_pos hn]
      constructor
      · intro h; simp at h
      · intro h; exact absurd hn (h n (Nat.lt_succ_self n))
    · rw [scan, if_neg hn, ih]
      constructor
      · intro h i hi
        rcases Nat.lt_succ_iff_lt_or_eq.mp hi with hlt | rfl
        · exact h i hlt
        · exact hn
      · intro h i hi
        exact h i (Nat.lt_succ_of_lt hi)

/-- **The scan finds the greatest position of the key.** -/
theorem scan_eq_some_iff {n i : Nat} :
    scan live k n = some i ↔ IsGreatest { j | j < n ∧ live j = some k } i := by
  induction n with
  | zero => simp [scan, IsGreatest]
  | succ n ih =>
    by_cases hn : live n = some k
    · rw [scan, if_pos hn, Option.some.injEq]
      constructor
      · rintro rfl
        exact ⟨⟨Nat.lt_succ_self _, hn⟩, fun j hj => Nat.lt_succ_iff.mp hj.1⟩
      · rintro ⟨⟨hlt, -⟩, hub⟩
        exact Nat.le_antisymm (hub ⟨Nat.lt_succ_self _, hn⟩) (Nat.lt_succ_iff.mp hlt)
    · rw [scan, if_neg hn, ih]
      have hset : { j | j < n + 1 ∧ live j = some k } = { j | j < n ∧ live j = some k } := by
        ext j
        constructor
        · rintro ⟨hlt, hj⟩
          rcases Nat.lt_succ_iff_lt_or_eq.mp hlt with h | rfl
          · exact ⟨h, hj⟩
          · exact absurd hj hn
        · rintro ⟨hlt, hj⟩
          exact ⟨Nat.lt_succ_of_lt hlt, hj⟩
      rw [hset]

theorem scan_eq_of_bound {m n : Nat} (hmn : m ≤ n)
    (h : ∀ i < n, live i = some k → i < m) : scan live k n = scan live k m := by
  induction n with
  | zero => rw [Nat.le_zero.mp hmn]
  | succ n ih =>
    rcases Nat.le_succ_iff.mp hmn with hle | rfl
    · have hn : live n ≠ some k := by
        intro hk
        have := h n (Nat.lt_succ_self n) hk
        omega
      rw [scan, if_neg hn]
      exact ih hle fun i hi hk => h i (Nat.lt_succ_of_lt hi) hk
    · rfl

theorem scan_eq_of_null (h : Slot.null.Sound bucket live n (bucket k)) : scan live k n = none :=
  scan_eq_none_iff.mpr fun i hi hk => h i hi k hk rfl

theorem scan_eq_of_upTo {n p : Nat} (h : (Slot.upTo p).Sound bucket live n (bucket k)) :
    scan live k n = scan live k (p + 1) :=
  scan_eq_of_bound h.1 fun i hi hk => Nat.lt_succ_of_le (h.2 i hi k hk rfl)

/-! ## The scan that learns a bound -/

variable [DecidableEq B]

/-- The scan below `n` with a memory for the highest position of `k`'s bucket seen so far. -/
def scanHigh (bucket : K → B) (live : Nat → Option K) (k : K) : Nat → Option Nat →
    Option Nat × Option Nat
  | 0, high => (none, high)
  | i + 1, high =>
      match live i with
      | none => scanHigh bucket live k i high
      | some k' =>
          let high := if high.all (· < i) && bucket k' == bucket k then some i else high
          if k' = k then (some i, high) else scanHigh bucket live k i high

theorem scanHigh_fst {high : Option Nat} : (scanHigh bucket live k n high).1 = scan live k n := by
  induction n generalizing high with
  | zero => rfl
  | succ i ih =>
    unfold scanHigh
    cases hl : live i with
    | none => rw [scan, if_neg (by simp [hl])]; exact ih
    | some k' =>
      by_cases hk : k' = k
      · rw [scan, if_pos (by rw [hl, hk])]
        simp [hk]
      · rw [scan, if_neg (by rw [hl]; simpa using hk)]
        simp only [hk, if_false]
        exact ih

theorem scanHigh_snd_of_bound {n p : Nat}
    (hp : n ≤ p + 1) : (scanHigh bucket live k n (some p)).2 = some p := by
  induction n with
  | zero => rfl
  | succ i ih =>
    have hnot : ¬ p < i := by omega
    unfold scanHigh
    cases hl : live i with
    | none => exact ih (by omega)
    | some k' =>
      by_cases hk : k' = k
      · simp [hk, hnot]
      · simp only [hk, Option.all_some, hnot, decide_false, Bool.false_and, Bool.false_eq_true,
          if_false]
        exact ih (by omega)

/-- Without a bound to begin with, the scan learns the highest position of the bucket, or, when
    it has gone all the way down, that there is none. -/
theorem scanHigh_snd_sound (bucket : K → B) (live : Nat → Option K) (k : K) (n : Nat) :
    (∀ p, (scanHigh bucket live k n none).2 = some p →
        (Slot.upTo p).Sound bucket live n (bucket k)) ∧
      ((scanHigh bucket live k n none).2 = none →
        (scanHigh bucket live k n none).1 = none ∧
          Slot.null.Sound bucket live n (bucket k)) := by
  induction n with
  | zero => simp [scanHigh, Slot.Sound]
  | succ i ih =>
    -- a position whose key is outside the bucket leaves both promises as they were
    have hskip : (∀ k', live i = some k' → bucket k' ≠ bucket k) →
        ∀ j < i + 1, ∀ k', live j = some k' → bucket k' = bucket k → j < i ∧ live j = some k' := by
      intro hout j hj k' hl hb
      rcases Nat.lt_succ_iff_lt_or_eq.mp hj with hlt | rfl
      · exact ⟨hlt, hl⟩
      · exact absurd hb (hout k' hl)
    unfold scanHigh
    cases hl : live i with
    | none =>
      have hout : ∀ k', live i = some k' → bucket k' ≠ bucket k := by simp [hl]
      exact ⟨fun p hp => (ih.1 p hp).mono (Nat.le_succ i) (hskip hout),
        fun hn => ⟨(ih.2 hn).1, (ih.2 hn).2.mono (Nat.le_succ i) (hskip hout)⟩⟩
    | some k' =>
      by_cases hb : bucket k' = bucket k
      · -- the first position of the bucket met from above bounds the bucket
        have hup : (Slot.upTo i).Sound bucket live (i + 1) (bucket k) :=
          ⟨Nat.lt_succ_self i, fun j hj _ _ _ => Nat.lt_succ_iff.mp hj⟩
        have hsnd : (scanHigh bucket live k i (some i)).2 = some i :=
          scanHigh_snd_of_bound (Nat.le_succ i)
        by_cases hk : k' = k
        · simp [hk, hup]
        · simp [hk, hb, hsnd, hup]
      · have hk : k' ≠ k := fun h => hb (by rw [h])
        have hout : ∀ k'', live i = some k'' → bucket k'' ≠ bucket k := by
          intro k'' h
          rw [hl, Option.some.injEq] at h
          exact h ▸ hb
        simp only [hk, if_false, Option.all_none, Bool.true_and, beq_iff_eq, hb]
        exact ⟨fun p hp => (ih.1 p hp).mono (Nat.le_succ i) (hskip hout),
          fun hn => ⟨(ih.2 hn).1, (ih.2 hn).2.mono (Nat.le_succ i) (hskip hout)⟩⟩

end ShareCoin.Lib
