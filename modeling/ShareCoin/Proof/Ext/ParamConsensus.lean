import ShareCoin.Proof.Ext.Params
import ShareCoin.Server.Color
import Mathlib.Tactic.Positivity

/-!
# What a count of the votes decides

A value that `GetParamTxConsensus` returns has nine of ten votes, although the share is computed in
floating point: two shares that differ do so by more than the rounding of two operations. The count
does not come to an end once it has votes to drop, since an unsigned index is never negative, so
`GetParamTxConsensus` never drops a vote and returns.
-/

namespace ShareCoin.Ext

open Server Wire List Option

variable {env : ParamEnv} {s : ParamState} {strName : List UInt8} {nTime : Int} {fuel : Nat}

/-! ## The value with the most votes -/

theorem foldl_best (values l : List Int64) (best : Nat × Int64) :
    let r := l.foldl
      (fun best v => if best.1 < values.count v then (values.count v, v) else best) best
    (r = best ∨ ∃ v ∈ l, r = (values.count v, v)) ∧ best.1 ≤ r.1 ∧
      ∀ v ∈ l, values.count v ≤ r.1 := by
  induction l generalizing best with
  | nil => exact ⟨.inl rfl, le_rfl, fun _ hv => absurd hv not_mem_nil⟩
  | cons v l ih =>
    obtain ⟨hfrom, hle, hall⟩ := ih (if best.1 < values.count v then (values.count v, v) else best)
    rw [foldl_cons]
    refine ⟨?_, ?_, forall_mem_cons.mpr ⟨?_, hall⟩⟩
    · rcases hfrom with hfrom | ⟨w, hw, hfrom⟩
      · rw [hfrom]
        split_ifs
        · exact .inr ⟨v, mem_cons_self, rfl⟩
        · exact .inl rfl
      · exact .inr ⟨w, mem_cons_of_mem _ hw, hfrom⟩
    · refine le_trans ?_ hle
      split_ifs with h
      · exact h.le
      · exact le_rfl
    · refine le_trans ?_ hle
      split_ifs with h
      · exact le_rfl
      · exact not_lt.mp h

/-- The value that is returned is one of the values, and it comes with its count. -/
theorem highestConsensus_spec {values : List Int64} (h : values ≠ []) :
    (highestConsensus values).2 ∈ values ∧
      (highestConsensus values).1 = values.count (highestConsensus values).2 := by
  obtain ⟨hfrom, -, hall⟩ :=
    foldl_best values (values.dedup.mergeSort fun v v' => decide (v ≤ v')) (0, 0)
  obtain ⟨v, hv⟩ := exists_mem_of_ne_nil values h
  simp only [mem_mergeSort, mem_dedup] at hfrom hall
  have hpos : 0 < (highestConsensus values).1 := (count_pos_iff.mpr hv).trans_le (hall v hv)
  change highestConsensus values = _ ∨ ∃ v ∈ values, highestConsensus values = _ at hfrom
  rcases hfrom with hfrom | ⟨w, hw, hfrom⟩
  · rw [hfrom] at hpos
    exact absurd hpos (lt_irrefl 0)
  · rw [hfrom]
    exact ⟨hw, rfl⟩

theorem tallies_ne_zero {v : Int64} (hv : v ∈ tallies env s strName nTime) : v ≠ 0 := by
  obtain ⟨param, hparam, rfl⟩ := List.mem_map.mp hv
  have hvalid := (mem_filter.mp (mem_filter.mp hparam).1).2
  rintro hzero
  rw [hzero, isValidParamTxConsensus, if_pos rfl, Bool.and_false] at hvalid
  exact Bool.false_ne_true hvalid

theorem highestConsensus_tallies_ne_zero (h : 10240 ≤ (tallies env s strName nTime).length) :
    (highestConsensus (tallies env s strName nTime)).2 ≠ 0 := by
  refine tallies_ne_zero (highestConsensus_spec ?_).1
  rintro hnil
  rw [hnil] at h
  exact absurd h (by decide)

/-! ## The share of the votes -/

/-- Rounding to double precision: of a value in the normal range the error is a part in 2⁵³. -/
structure NormalDouble extends Double where
  rnd_le : ∀ q : Rat, 1 / 2 ^ 1022 ≤ q → rnd q ≤ q * (1 + 1 / 2 ^ 53)

def NormalDouble.percentBelow (d : NormalDouble) (nTotal nMax : Nat) : Bool :=
  decide (d.rnd (d.rnd (100 / nTotal) * nMax) < 90)

/-- **A share below nine tenths is seen as one**, in spite of the rounding. -/
theorem NormalDouble.percentBelow_of_lt (d : NormalDouble) {nTotal nMax : Nat}
    (hmany : nTotal < 2 ^ 32) (h : 10 * nMax < 9 * nTotal) : d.percentBelow nTotal nMax = true := by
  have hTotal : (0 : Rat) < nTotal := by exact_mod_cast (by omega : 0 < nTotal)
  have hmany' : (nTotal : Rat) < 4294967296 := by exact_mod_cast hmany
  have hshare : (10 : Rat) * nMax + 1 ≤ 9 * nTotal := by exact_mod_cast h
  refine decide_eq_true ?_
  obtain hsmall | hlarge := le_total (d.rnd (100 / nTotal) * nMax) 1
  · have hone : d.rnd 1 = 1 := by exact_mod_cast d.rnd_int 1 (by norm_num)
    calc d.rnd (d.rnd (100 / nTotal) * nMax) ≤ d.rnd 1 := d.mono hsmall
      _ = 1 := hone
      _ < 90 := by norm_num
  · have hnormal : (1 : Rat) / 2 ^ 1022 ≤ 100 / nTotal := by
      calc (1 : Rat) / 2 ^ 1022 ≤ 1 / 2 ^ 32 :=
            one_div_le_one_div_of_le (by positivity) (pow_le_pow_right₀ (by norm_num) (by norm_num))
        _ ≤ 100 / nTotal := by
            rw [div_le_div_iff₀ (by positivity) hTotal]
            linarith
    have hbig : (1 : Rat) / 2 ^ 1022 ≤ d.rnd (100 / nTotal) * nMax :=
      le_trans (div_le_one_of_le₀ (one_le_pow₀ (by norm_num)) (by positivity)) hlarge
    calc d.rnd (d.rnd (100 / nTotal) * nMax)
        ≤ d.rnd (100 / nTotal) * nMax * (1 + 1 / 2 ^ 53) := d.rnd_le _ hbig
      _ ≤ 100 / nTotal * (1 + 1 / 2 ^ 53) * nMax * (1 + 1 / 2 ^ 53) := by
          gcongr
          exact d.rnd_le _ hnormal
      _ = 100 * nMax * (1 + 1 / 2 ^ 53) ^ 2 / nTotal := by ring
      _ < 90 := by
          rw [div_lt_iff₀ hTotal]
          norm_num
          linarith

/-! ## The outcome of a count -/

def DropsVotes (env : ParamEnv) (s : ParamState) (strName : List UInt8) (nTime : Int) : Prop :=
  strName.length ≤ 135 ∧ getParamTxValue s strName ≠ 0 ∧
    10240 ≤ (tallies env s strName nTime).length ∧ archivalVotes env s strName nTime ≠ []

theorem consensus_eq_none_iff :
    consensus env s strName nTime = none ↔ DropsVotes env s strName nTime := by
  unfold consensus DropsVotes
  dsimp only
  split_ifs with hnone hdrop hsame
  · refine iff_of_false id fun h => ?_
    rcases hnone with hname | hcur | hfew | hzero
    · exact absurd hname (not_lt.mpr h.1)
    · exact h.2.1 hcur
    · exact absurd hfew (not_lt.mpr h.2.2.1)
    · exact highestConsensus_tallies_ne_zero h.2.2.1 hzero
  · push Not at hnone
    exact iff_of_true rfl ⟨hnone.1, hnone.2.1, hnone.2.2.1, hdrop⟩
  · exact iff_of_false id fun h => hdrop h.2.2.2
  · exact iff_of_false id fun h => hdrop h.2.2.2

/-- **A count of the votes returns exactly if it has no votes to drop**, however many passes its
    loop is given. It then leaves the votes as they are, and a value it returns is not the current
    one and has nine of ten votes, of at least 10240. -/
theorem param_votes_counted (d : NormalDouble) (hper : env.percentBelow = d.percentBelow)
    (hmany : s.mapParam.length < 2 ^ 32) :
    ((∃ fuel, getParamTxConsensus fuel env s strName nTime ≠ none) ↔
      ¬ DropsVotes env s strName nTime) ∧
    ∀ fuel r votes, getParamTxConsensus fuel env s strName nTime = some (r, votes) →
      votes = s.mapParam ∧ ∀ v, r = some v →
        let values := tallies env s strName nTime
        v ≠ getParamTxValue s strName ∧ 10240 ≤ values.length ∧
          9 * values.length ≤ 10 * values.count v := by
  have hlt : (tallies env s strName nTime).length < 2 ^ 32 := by
    rw [tallies, length_map]
    exact ((length_filter_le ..).trans (length_filter_le ..)).trans_lt hmany
  simp only [getParamTxConsensus_eq, ne_eq, map_eq_none_iff, exists_const,
    consensus_eq_none_iff, true_and]
  rintro _ r votes h
  obtain ⟨r, hr, hpair⟩ := map_eq_some_iff.mp h
  obtain ⟨rfl, rfl⟩ := Prod.mk.inj hpair
  refine ⟨rfl, fun v hv => ?_⟩
  obtain ⟨-, hsame, hmin, hv', hbelow⟩ := of_consensus (hr.trans (congrArg some hv))
  have hne : tallies env s strName nTime ≠ [] := by
    rintro hnil
    rw [hnil] at hmin
    exact absurd hmin (by decide)
  rw [(highestConsensus_spec hne).2, hv'] at hbelow
  refine ⟨hsame, hmin, not_lt.mp fun hshare => ?_⟩
  rw [hper, d.percentBelow_of_lt hlt hshare] at hbelow
  exact Bool.noConfusion hbelow

def exactNormal : NormalDouble where
  toDouble := exactDouble
  rnd_le q hq := le_mul_of_one_le_right (le_trans (by positivity) hq) (by norm_num)

/-- The surroundings of a count a long time after the votes that expire. -/
def lateEnv : ParamEnv := { votingEnv with
  now := 31536001
  shtimeAfter := fun _ _ => true
  percentBelow := exactNormal.percentBelow }

theorem param_votes_counted_fee :
    (feeVotes 10240).mapParam.length < 2 ^ 32 ∧
    ∃ fuel, getParamTxConsensus fuel lateEnv (feeVotes 10240) extparamMinfee 0 ≠ none := by
  have hmany : (feeVotes 10240).mapParam.length < 2 ^ 32 := by
    rw [feeVotes, length_replicate]
    decide
  refine ⟨hmany, (param_votes_counted exactNormal rfl hmany).1.mpr fun h => h.2.2.2 ?_⟩
  refine archivalVotes_eq_nil fun param hmem => ?_
  rw [eq_of_mem_replicate hmem]
  rfl

/-- The votes for the fee and one that expired a year ago. -/
def lateVotes : ParamState :=
  { feeStart with mapParam := { feeParam with tExpire := 1 } :: (feeVotes 10240).mapParam }

/-- There are 10240 votes for the fee, and one more that is to be dropped. The count does not
    return. -/
theorem late_count_does_not_return :
    lateVotes.mapParam.length = 10241 ∧
      ∀ fuel, getParamTxConsensus fuel lateEnv lateVotes extparamMinfee 0 = none := by
  refine ⟨?_, fun fuel => ?_⟩
  · rw [lateVotes, length_cons, feeVotes, length_replicate]
  · rw [getParamTxConsensus_eq, map_eq_none_iff, consensus_eq_none_iff]
    refine ⟨by decide, by decide, ?_, ?_⟩
    · rw [tallies, length_map, validVotes, lateVotes, feeVotes,
        filter_cons_of_pos rfl, filter_replicate,
        if_pos (by decide), filter_cons_of_neg (by decide),
        filter_replicate, if_pos (by decide), length_replicate]
    · rw [archivalVotes, lateVotes, zipIdx_cons, filter_cons_of_pos rfl, map_cons]
      exact cons_ne_nil _ _

end ShareCoin.Ext
