import ShareCoin.Server.VersionBits

/-!
# The cache of deployment states

`periodState` is the state without a cache and without the early exit: it goes back over every
period to the genesis block. `GetStateFor` stops at the first block before the start time and takes
the state there to be `DEFINED`. That is what the recursion over all periods gives, unless the block
is past the timeout already; a deployment whose timeout lies before its start has such blocks.

The rest does not depend on the parameters: the cache is sound after any queries, so the answer is a
value of the recursion, and what moves the recursion can make is read off `stateNext`.
-/

namespace ShareCoin.Server

open Lib Option

variable {ι : Type}

/-! ## The state without a cache -/

/-- The state that the first `n` periods of a chain lead to, seen from the last block of the last of
    them. -/
def periodState (t : BlockLinks ι) (c : VersionBitsConditionChecker) :
    Nat → Option ι → ThresholdState
  | 0, _ => .defined
  | _ + 1, none => .defined
  | n + 1, some pindexPrev =>
    stateNext t c (periodState t c n (t.up c.period pindexPrev)) pindexPrev

/-- The state of the block after `pindexPrev`, by recursion over the periods before it. -/
def recursiveState (t : BlockLinks ι) (c : VersionBitsConditionChecker) :
    Option ι → ThresholdState
  | none => .defined
  | some pindexPrev =>
    periodState t c ((t.height pindexPrev + 1) / c.period)
      (t.up ((t.height pindexPrev + 1) % c.period) pindexPrev)

/-- The median time past does not go down along a chain. -/
def MedianTimeGrows (t : BlockLinks ι) : Prop :=
  ∀ i p, t.parent i = some p → getMedianTimePast t p ≤ getMedianTimePast t i

theorem MedianTimeGrows.anc {t : BlockLinks ι} (h : MedianTimeGrows t) {a i : ι}
    (ha : t.Anc a i) : getMedianTimePast t a ≤ getMedianTimePast t i := by
  obtain ⟨k, hk⟩ := ha
  induction k generalizing i with
  | zero =>
    cases hk
    exact Int.le_refl _
  | succ k ih =>
    obtain ⟨p, hp, hk⟩ := bind_eq_some_iff.mp hk
    exact Int.le_trans (ih hk) (h i p hp)

theorem VersionBitsConditionChecker.period_pos (c : VersionBitsConditionChecker) : 0 < c.period :=
  c.params.window_pos

/-! ## Before the start -/

variable {c : VersionBitsConditionChecker} {b : ι}

theorem periodState_before_start {t : BlockLinks ι} (hmono : MedianTimeGrows t) (n : Nat)
    (h : getMedianTimePast t b < c.beginTime) :
    periodState t c (n + 1) (some b) =
      if c.endTime ≤ getMedianTimePast t b then .failed else .defined := by
  have hnext : stateNext t c .defined b =
      if c.endTime ≤ getMedianTimePast t b then .failed else .defined := by
    simp only [stateNext, if_neg (Int.not_le.mpr h)]
  induction n generalizing b with
  | zero => exact hnext
  | succ n ih =>
    rw [periodState]
    cases hup : t.up c.period b with
    | none => exact hnext
    | some b' =>
      have hle : getMedianTimePast t b' ≤ getMedianTimePast t b := hmono.anc ⟨_, hup⟩
      have hb' : getMedianTimePast t b' < c.beginTime := Int.lt_of_le_of_lt hle h
      rw [ih hb' (by simp only [stateNext, if_neg (Int.not_le.mpr hb')])]
      by_cases hend : c.endTime ≤ getMedianTimePast t b'
      · rw [if_pos hend, if_pos (Int.le_trans hend hle)]
        rfl
      · rw [if_neg hend]
        exact hnext

/-! ## The value of the recursion -/

theorem thresholdRecursion_prev (t : BlockTree ι) (c : VersionBitsConditionChecker) (b : ι) :
    (thresholdRecursion t.toBlockLinks c).prev (some b) = t.up c.period b :=
  getAncestor_sub t b c.period

theorem base_before_start {t : BlockLinks ι} (h : getMedianTimePast t b < c.beginTime) :
    (thresholdRecursion t c).HasValue (some b) .defined :=
  .base (by simp [thresholdRecursion, h])

def exitState (t : BlockLinks ι) (c : VersionBitsConditionChecker) (state : ThresholdState) :
    Option ι → ThresholdState
  | none => state
  | some b =>
    if c.endTime ≤ getMedianTimePast t b ∧ getMedianTimePast t b < c.beginTime then .defined
    else state

theorem nextHeight_up (t : BlockLinks ι) {i : ι} {k : Nat} (h : k ≤ t.height i + 1) :
    nextHeight t (t.up k i) = t.height i + 1 - k := by
  cases hup : t.up k i with
  | none =>
    have hk : ¬ k ≤ t.height i := by
      intro hk
      obtain ⟨a, ha⟩ := t.toForest.exists_up hk
      rw [hup] at ha
      cases ha
    show 0 = t.height i + 1 - k
    omega
  | some a =>
    have hheight := Forest.height_up hup
    show t.height a + 1 = t.height i + 1 - k
    omega

/-- What the early exit got wrong is put right by the next period. -/
theorem stateNext_exitState {t : BlockLinks ι} (hmono : MedianTimeGrows t) (n : Nat)
    (hb : nextHeight t (t.up c.period b) = n * c.period) :
    stateNext t c (exitState t c (periodState t c n (t.up c.period b)) (t.up c.period b)) b =
      stateNext t c (periodState t c n (t.up c.period b)) b := by
  cases hup : t.up c.period b with
  | none => rfl
  | some b' =>
    rw [exitState]
    split_ifs with hexit
    · rw [hup] at hb
      cases n with
      | zero => simp [nextHeight] at hb
      | succ n =>
        have hle : getMedianTimePast t b' ≤ getMedianTimePast t b := hmono.anc ⟨_, hup⟩
        rw [periodState_before_start hmono n hexit.2, if_pos hexit.1]
        simp only [stateNext, if_pos (Int.le_trans hexit.1 hle)]
    · rfl

variable {t : BlockTree ι} {x y : Option ι}

/-- **The early exit**: the value of the recursion that `GetStateFor` caches is the state without a
    cache, but for a block before the start that is past the timeout. -/
theorem hasValue_periodState (hmono : MedianTimeGrows t.toBlockLinks)
    (c : VersionBitsConditionChecker) (n : Nat) {b : Option ι}
    (hb : nextHeight t.toBlockLinks b = n * c.period) :
    (thresholdRecursion t.toBlockLinks c).HasValue b
      (exitState t.toBlockLinks c (periodState t.toBlockLinks c n b) b) := by
  induction n generalizing b with
  | zero =>
    cases b with
    | none => exact .base rfl
    | some b => simp [nextHeight] at hb
  | succ n ih =>
    cases b with
    | none =>
      have := c.period_pos
      simp [nextHeight] at hb
      omega
    | some b =>
      rw [exitState]
      by_cases hstart : getMedianTimePast t.toBlockLinks b < c.beginTime
      · have hvalue := base_before_start hstart
        rw [periodState_before_start hmono n hstart]
        by_cases hend : c.endTime ≤ getMedianTimePast t.toBlockLinks b
        · rwa [if_pos ⟨hend, hstart⟩]
        · rwa [if_neg fun h => hend h.1, if_neg hend]
      · rw [if_neg fun h => hstart h.2, periodState]
        have hheight : nextHeight t.toBlockLinks (t.up c.period b) = n * c.period := by
          have hb' : t.height b + 1 = n * c.period + c.period := by
            rw [← Nat.succ_mul]
            exact hb
          rw [nextHeight_up t.toBlockLinks (by omega), hb', Nat.add_sub_cancel]
        have hbase : (thresholdRecursion t.toBlockLinks c).base (some b) = none := by
          simp [thresholdRecursion, hstart]
        rw [← stateNext_exitState hmono n hheight]
        refine .step hbase ?_
        rw [thresholdRecursion_prev]
        exact ih hheight

/-! ## Periods -/

theorem periodStart_eq (t : BlockTree ι) (c : VersionBitsConditionChecker) (i : ι) :
    periodStart t.toBlockLinks c (some i) = t.up ((t.height i + 1) % c.period) i :=
  getAncestor_sub t i _

def codeState (t : BlockLinks ι) (c : VersionBitsConditionChecker) (pindexPrev : Option ι) :
    ThresholdState :=
  exitState t c (recursiveState t c pindexPrev) (periodStart t c pindexPrev)

theorem hasValue_codeState (hmono : MedianTimeGrows t.toBlockLinks)
    (c : VersionBitsConditionChecker) (pindexPrev : Option ι) :
    (thresholdRecursion t.toBlockLinks c).HasValue (periodStart t.toBlockLinks c pindexPrev)
      (codeState t.toBlockLinks c pindexPrev) := by
  cases pindexPrev with
  | none => exact .base rfl
  | some i =>
    rw [codeState, recursiveState, periodStart_eq]
    apply hasValue_periodState hmono
    rw [nextHeight_up t.toBlockLinks (Nat.mod_le _ _)]
    have := Nat.div_add_mod' (t.height i + 1) c.period
    omega

theorem thresholdRecursion_rank (t : BlockTree ι) (c : VersionBitsConditionChecker) :
    ∀ b, (thresholdRecursion t.toBlockLinks c).base b = none →
      nextHeight t.toBlockLinks ((thresholdRecursion t.toBlockLinks c).prev b) <
        nextHeight t.toBlockLinks b := by
  intro b hb
  cases b with
  | none => cases hb
  | some b =>
    have hpos := c.period_pos
    rw [thresholdRecursion_prev]
    cases hup : t.up c.period b with
    | none => exact Nat.succ_pos _
    | some a =>
      have hheight := Forest.height_up hup
      show t.height a + 1 < t.height b + 1
      omega

/-- `x` comes before `y`, or is `y`, on one chain. -/
def Before (t : BlockLinks ι) : Option ι → Option ι → Prop
  | none, _ => True
  | some _, none => False
  | some a, some i => t.Anc a i

section

variable (h : Before t.toBlockLinks x y)
  (hperiod : nextHeight t.toBlockLinks x / c.period = nextHeight t.toBlockLinks y / c.period)
include h hperiod

theorem periodStart_eq_of_before :
    periodStart t.toBlockLinks c x = periodStart t.toBlockLinks c y := by
  have hpos := c.period_pos
  match x, y, h with
  | none, none, _ => rfl
  | none, some i, _ =>
    have hlt : t.height i + 1 < c.period := by
      rw [nextHeight, Nat.zero_div] at hperiod
      exact (Nat.div_eq_zero_iff_lt hpos).mp hperiod.symm
    rw [periodStart_eq, Nat.mod_eq_of_lt hlt, Forest.up_eq_none (Nat.lt_succ_self _)]
    rfl
  | some a, some i, ⟨k, hk⟩ =>
    have hheight := Forest.height_up hk
    have ha := Nat.div_add_mod (t.height a + 1) c.period
    have hi := Nat.div_add_mod (t.height i + 1) c.period
    have hmod : (t.height i + 1) % c.period = k + (t.height a + 1) % c.period := by
      have hperiod' : (t.height a + 1) / c.period = (t.height i + 1) / c.period := hperiod
      rw [hperiod'] at ha
      omega
    rw [periodStart_eq, periodStart_eq, hmod, Forest.up_add hk]

/-- **All blocks of one period have the same state.** -/
theorem codeState_period : codeState t.toBlockLinks c x = codeState t.toBlockLinks c y := by
  have hrec : ∀ z, recursiveState t.toBlockLinks c z =
      periodState t.toBlockLinks c (nextHeight t.toBlockLinks z / c.period)
        (periodStart t.toBlockLinks c z) := by
    intro z
    cases z with
    | none =>
      rw [nextHeight, Nat.zero_div]
      rfl
    | some i =>
      rw [periodStart_eq]
      rfl
  rw [codeState, codeState, hrec, hrec, hperiod, periodStart_eq_of_before h hperiod]

end

/-! ## Moves -/

/-- The moves a deployment can make from one period to the next. -/
inductive Moves : ThresholdState → ThresholdState → Prop where
  | start : Moves .defined .started
  | lockIn : Moves .started .lockedIn
  | activate : Moves .lockedIn .active
  | miss : Moves .defined .failed
  | timeOut : Moves .started .failed

theorem stateNext_moves (t : BlockLinks ι) (c : VersionBitsConditionChecker)
    (state : ThresholdState) (b : ι) :
    stateNext t c state b = state ∨ Moves state (stateNext t c state b) := by
  cases state with
  | defined =>
    simp only [stateNext]
    split_ifs
    · exact .inr .miss
    · exact .inr .start
    · exact .inl rfl
  | started =>
    simp only [stateNext]
    split_ifs
    · exact .inr .timeOut
    · exact .inr .lockIn
    · exact .inl rfl
  | lockedIn => exact .inr .activate
  | active | failed => exact .inl rfl

theorem periodStart_parent {i : ι} (hmod : (t.height i + 1) % c.period = 0) :
    periodStart t.toBlockLinks c (t.parent i) =
      (thresholdRecursion t.toBlockLinks c).prev (some i) := by
  have hpos := c.period_pos
  rw [thresholdRecursion_prev]
  have hstep : t.height i % c.period + 1 = c.period := by
    rw [Nat.add_mod] at hmod
    have hlt := Nat.mod_lt (t.height i) hpos
    by_contra hne
    have hone : 1 % c.period = 1 := Nat.mod_eq_of_lt (by omega)
    rw [hone, Nat.mod_eq_of_lt (by omega)] at hmod
    omega
  cases hp : t.parent i with
  | none =>
    rw [Forest.up_eq_none (by rw [t.height_root hp]; exact hpos)]
    rfl
  | some p =>
    rw [periodStart_eq, ← t.height_parent hp, ← Forest.up_succ hp, hstep]

section

variable (hmono : MedianTimeGrows t.toBlockLinks)
include hmono

theorem base_prev_before_start (h : getMedianTimePast t.toBlockLinks b < c.beginTime) :
    (thresholdRecursion t.toBlockLinks c).HasValue
      ((thresholdRecursion t.toBlockLinks c).prev (some b)) .defined := by
  rw [thresholdRecursion_prev]
  cases hup : t.up c.period b with
  | none => exact .base rfl
  | some a => exact base_before_start (Int.lt_of_le_of_lt (hmono.anc ⟨_, hup⟩) h)

theorem codeState_moves (c : VersionBitsConditionChecker) (i : ι) :
    codeState t.toBlockLinks c (some i) = codeState t.toBlockLinks c (t.parent i) ∨
      Moves (codeState t.toBlockLinks c (t.parent i)) (codeState t.toBlockLinks c (some i)) := by
  have hparent : nextHeight t.toBlockLinks (t.parent i) = t.height i := by
    cases hp : t.parent i with
    | none => exact (t.height_root hp).symm
    | some p => exact (t.height_parent hp).symm
  have hbefore : Before t.toBlockLinks (t.parent i) (some i) := by
    cases hp : t.parent i with
    | none => trivial
    | some p => exact Forest.Anc.parent hp
  by_cases hmod : (t.height i + 1) % c.period = 0
  · -- the first block of a period: the value there is computed from the one of its parent
    have hparentValue := hasValue_codeState hmono c (t.parent i)
    have hvalue := hasValue_codeState hmono c (some i)
    rw [periodStart_parent hmod] at hparentValue
    rw [periodStart_eq, hmod, Forest.up_zero] at hvalue
    by_cases hstart : getMedianTimePast t.toBlockLinks i < c.beginTime
    · left
      rw [hvalue.unique (base_before_start hstart),
        hparentValue.unique (base_prev_before_start hmono hstart)]
    · have hbase : (thresholdRecursion t.toBlockLinks c).base (some i) = none := by
        simp [thresholdRecursion, hstart]
      rw [hvalue.unique (.step hbase hparentValue)]
      exact stateNext_moves t.toBlockLinks c _ i
  · left
    refine (codeState_period hbefore ?_).symm
    rw [hparent]
    show t.height i / c.period = (t.height i + 1) / c.period
    rw [Nat.succ_div, if_neg fun h => hmod (Nat.mod_eq_zero_of_dvd h)]
    rfl

/-- **Active and failed are permanent.** -/
theorem codeState_permanent (h : Before t.toBlockLinks x y)
    (hx : codeState t.toBlockLinks c x = .active ∨ codeState t.toBlockLinks c x = .failed) :
    codeState t.toBlockLinks c y = codeState t.toBlockLinks c x := by
  match x, y, h with
  | none, _, _ => exact absurd hx (by simp [codeState, recursiveState, exitState, periodStart])
  | some a, some i, h =>
    obtain ⟨k, hk⟩ := h
    induction k generalizing i with
    | zero =>
      cases hk
      rfl
    | succ k ih =>
      obtain ⟨p, hp, hk⟩ := bind_eq_some_iff.mp hk
      have hparent := ih p hk
      have hmoves := codeState_moves hmono c i
      rw [hp, hparent] at hmoves
      rcases hmoves with hsame | hmove
      · exact hsame
      · rcases hx with hx | hx <;> rw [hx] at hmove <;> cases hmove

end

/-! ## Queries -/

variable [DecidableEq ι] {params : CoinIface → VersionBitsParams}

/-- All that the caches hold are values. -/
def CachesSound (t : BlockLinks ι) (params : CoinIface → VersionBitsParams)
    (caches : VersionBitsCaches ι) : Prop :=
  ∀ iface pos, (thresholdRecursion t ⟨pos, iface, params iface⟩).Sound (caches iface pos)

/-- **A query answers a value of the recursion and keeps the caches sound.** -/
theorem versionBitsState_value (t : BlockTree ι) {caches : VersionBitsCaches ι}
    (h : CachesSound t.toBlockLinks params caches) (q : StateQuery ι) :
    ∃ state caches', versionBitsState t.toBlockLinks params caches q = some (state, caches') ∧
      (thresholdRecursion t.toBlockLinks (q.checker params)).HasValue
        (periodStart t.toBlockLinks (q.checker params) q.pindexPrev) state ∧
      CachesSound t.toBlockLinks params caches' := by
  obtain ⟨state, cache, hlookup, hvalue, hsound⟩ := Recursion.lookup_spec
    (thresholdRecursion_rank t (q.checker params)) (h q.iface q.pos)
    (Nat.le_refl (nextHeight t.toBlockLinks
      (periodStart t.toBlockLinks (q.checker params) q.pindexPrev)))
  refine ⟨state, fun iface pos =>
    if iface = q.iface ∧ pos = q.pos then cache else caches iface pos, ?_, hvalue, ?_⟩
  · rw [versionBitsState, getStateFor, hlookup]
    rfl
  · intro iface pos
    dsimp only
    split_ifs with hq
    · rw [hq.1, hq.2]
      exact hsound
    · exact h iface pos

theorem stateAfter_value (t : BlockTree ι) (params : CoinIface → VersionBitsParams)
    (queries : List (StateQuery ι)) (q : StateQuery ι) :
    ∃ state, stateAfter t.toBlockLinks params queries q = some state ∧
      (thresholdRecursion t.toBlockLinks (q.checker params)).HasValue
        (periodStart t.toBlockLinks (q.checker params) q.pindexPrev) state := by
  have hrun : ∀ caches, CachesSound t.toBlockLinks params caches →
      ∃ caches', exec (fun caches q => (versionBitsState t.toBlockLinks params caches q).map
        Prod.snd) caches queries = some caches' ∧ CachesSound t.toBlockLinks params caches' := by
    induction queries with
    | nil => exact fun caches h => ⟨caches, rfl, h⟩
    | cons q' queries ih =>
      intro caches h
      obtain ⟨_, caches₁, h₁, _, hsound₁⟩ := versionBitsState_value t h q'
      obtain ⟨caches₂, h₂, hsound₂⟩ := ih caches₁ hsound₁
      exact ⟨caches₂, exec_cons_eq_some.mpr ⟨caches₁, by rw [h₁]; rfl, h₂⟩, hsound₂⟩
  obtain ⟨caches, hcaches, hsound⟩ := hrun _ fun _ _ => Recursion.Sound.empty
  obtain ⟨state, caches', hanswer, hvalue, _⟩ := versionBitsState_value t hsound q
  refine ⟨state, ?_, hvalue⟩
  rw [stateAfter, hcaches, bind_some, hanswer]
  rfl

/-- **The answer does not depend on the queries before it.** -/
theorem stateAfter_eq (hmono : MedianTimeGrows t.toBlockLinks)
    (params : CoinIface → VersionBitsParams) (queries : List (StateQuery ι)) (q : StateQuery ι) :
    stateAfter t.toBlockLinks params queries q =
      some (codeState t.toBlockLinks (q.checker params) q.pindexPrev) := by
  obtain ⟨state, hstate, hvalue⟩ := stateAfter_value t params queries q
  rw [hstate, hvalue.unique (hasValue_codeState hmono (q.checker params) q.pindexPrev)]

omit [DecidableEq ι] in
theorem getMedianTimePast_nonneg (t : BlockLinks ι) (pindex : ι) : 0 ≤ getMedianTimePast t pindex :=
  Int.natCast_nonneg _

omit [DecidableEq ι] in
/-- A deployment without a timeout does not start: a block at or after time zero is past it. -/
theorem hasValue_of_endTime {t : BlockLinks ι}
    (hend : c.endTime = 0) {k : Option ι} {state : ThresholdState}
    (h : (thresholdRecursion t c).HasValue k state) : state = .defined ∨ state = .failed := by
  induction h with
  | @base k state h =>
    cases k with
    | none =>
      cases h
      exact .inl rfl
    | some pindexPrev =>
      simp only [thresholdRecursion] at h
      split_ifs at h
      cases h
      exact .inl rfl
  | @step k state h _ ih =>
    cases k with
    | none => exact ih
    | some pindexPrev =>
      have hpast := hend ▸ getMedianTimePast_nonneg t pindexPrev
      refine .inr ?_
      rcases ih with rfl | rfl
      · exact if_pos hpast
      · rfl

theorem timeout_of_active {queries : List (StateQuery ι)} {q : StateQuery ι}
    (h : stateAfter t.toBlockLinks params queries q = some .active) :
    ((params q.iface).vDeployments q.pos).nTimeout ≠ 0 := by
  intro hzero
  have hend : (q.checker params).endTime = 0 := hzero
  obtain ⟨state, hstate, hvalue⟩ := stateAfter_value t params queries q
  rw [h] at hstate
  cases hstate
  rcases hasValue_of_endTime hend hvalue with h | h <;> cases h

/-- **Deployment states.** Whatever was queried before, the state of the block after `pindexPrev` is
    that of the recursion over all periods, but where the block that ends the period before is past
    the timeout and not yet at the start: there it is `DEFINED`. All blocks of one period have the
    same state; from a block to the next one the state stays or makes one of the `Moves`; and once
    it is active or failed it stays so. -/
theorem stateAfter_recursive (t : BlockTree ι) (hmono : MedianTimeGrows t.toBlockLinks)
    (params : CoinIface → VersionBitsParams) (queries : List (StateQuery ι)) (q : StateQuery ι) :
    stateAfter t.toBlockLinks params queries q =
      some (exitState t.toBlockLinks (q.checker params)
        (recursiveState t.toBlockLinks (q.checker params) q.pindexPrev)
        (periodStart t.toBlockLinks (q.checker params) q.pindexPrev)) ∧
    (∀ queries' x, Before t.toBlockLinks x q.pindexPrev →
      nextHeight t.toBlockLinks x / (q.checker params).period =
        nextHeight t.toBlockLinks q.pindexPrev / (q.checker params).period →
      stateAfter t.toBlockLinks params queries' { q with pindexPrev := x } =
        stateAfter t.toBlockLinks params queries q) ∧
    (∀ queries' i, q.pindexPrev = some i → ∃ state state',
      stateAfter t.toBlockLinks params queries' { q with pindexPrev := t.parent i } = some state ∧
      stateAfter t.toBlockLinks params queries q = some state' ∧
      (state' = state ∨ Moves state state')) ∧
    ∀ queries' x state, Before t.toBlockLinks x q.pindexPrev →
      stateAfter t.toBlockLinks params queries' { q with pindexPrev := x } = some state →
      state = .active ∨ state = .failed →
      stateAfter t.toBlockLinks params queries q = some state := by
  have hq := stateAfter_eq hmono params queries q
  refine ⟨hq, ?_, ?_, ?_⟩
  · intro queries' x hx hperiod
    rw [hq, stateAfter_eq hmono]
    exact congrArg some (codeState_period hx hperiod)
  · intro queries' i hi
    refine ⟨_, _, stateAfter_eq hmono params queries' _, hq, ?_⟩
    rw [hi]
    exact codeState_moves hmono (q.checker params) i
  · intro queries' x state hx hstate hterminal
    rw [stateAfter_eq hmono] at hstate
    cases hstate
    rw [hq]
    exact congrArg some (codeState_permanent hmono hx hterminal)

/-! ## Samples -/

/-- The block `true` on the block `false`. -/
def twoBlocks : BlockTree Bool where
  parent i := if i then some false else none
  height i := if i then 1 else 0
  height_parent := by decide
  height_root := by decide
  pskip i := if i then some false else none
  bnChainWork i := if i then 2 else 1
  nVersion _ := 0x20000001
  nTime i := if i then 12 else 10
  buildSkip := by decide

theorem twoBlocks_median (i : Bool) :
    getMedianTimePast twoBlocks.toBlockLinks i = if i then 12 else 10 := by
  cases i <;> simp [getMedianTimePast, blockTimes, twoBlocks, List.mergeSort]

theorem twoBlocks_grows : MedianTimeGrows twoBlocks.toBlockLinks := by
  intro i p hp
  rw [twoBlocks_median, twoBlocks_median]
  revert i p
  decide

def shortPeriods (nStartTime nTimeout : Int) : CoinIface → VersionBitsParams := fun _ =>
  { vDeployments := fun _ => ⟨0, nStartTime, nTimeout⟩
    nRuleChangeActivationThreshold := 1
    nMinerConfirmationWindow := 1
    window_pos := by decide
    window_lt := by decide }

/-- The deployment has started after the first block and is locked in after the second one, which
    signals it. -/
theorem twoBlocks_lockedIn :
    stateAfter twoBlocks.toBlockLinks (shortPeriods 5 20) [⟨none, .shc, .csv⟩]
        ⟨some false, .shc, .csv⟩ = some .started ∧
    stateAfter twoBlocks.toBlockLinks (shortPeriods 5 20) [⟨some true, .ltc, .csv⟩]
        ⟨some true, .shc, .csv⟩ = some .lockedIn := by
  rw [(stateAfter_recursive twoBlocks twoBlocks_grows (shortPeriods 5 20) [⟨none, .shc, .csv⟩]
    ⟨some false, .shc, .csv⟩).1, (stateAfter_recursive twoBlocks twoBlocks_grows (shortPeriods 5 20)
    [⟨some true, .ltc, .csv⟩] ⟨some true, .shc, .csv⟩).1]
  refine ⟨by decide +kernel, ?_⟩
  let c := StateQuery.checker (shortPeriods 5 20) (ι := Bool) ⟨some true, .shc, .csv⟩
  have hstarted :
      periodState twoBlocks.toBlockLinks c 1 (twoBlocks.up c.period true) = .started := by
    decide +kernel
  have hlocked : recursiveState twoBlocks.toBlockLinks c (some true) = .lockedIn := by
    have hperiods : (twoBlocks.height true + 1) / c.period = 1 + 1 := by decide
    have hlast : twoBlocks.up ((twoBlocks.height true + 1) % c.period) true = some true := by
      decide
    rw [recursiveState, hperiods, hlast, periodState, hstarted, stateNext, twoBlocks_median]
    decide
  have hstart : periodStart twoBlocks.toBlockLinks c (some true) = some true := by decide
  dsimp only
  rw [hlocked, hstart, exitState, twoBlocks_median]
  decide

/-- A timeout before the start: the block at time ten is past the one and before the other. -/
theorem exit_before_start :
    MedianTimeGrows twoBlocks.toBlockLinks ∧
    stateAfter twoBlocks.toBlockLinks (shortPeriods 20 5) [] ⟨some false, .shc, .csv⟩ =
      some .defined ∧
    recursiveState twoBlocks.toBlockLinks
      (StateQuery.checker (shortPeriods 20 5) ⟨some false, .shc, .csv⟩) (some false) = .failed :=
  ⟨twoBlocks_grows, by decide +kernel, by decide +kernel⟩

end ShareCoin.Server
