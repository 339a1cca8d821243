import ShareCoin.Ext.Params

/-!
# What the disconnect of a vote takes back

A vote is put in front of the list and taken off again, so the list comes back where the vote was
counted. What the disconnect of a deciding vote does to the parameter goes by two values that are
read too late. The kind of the parameter is read from the vote that is in front after the erasure,
and it is another parameter if that vote is of the other kind. The default of the fee is read from
the fee that is set, so the first change of the fee is not taken back at all.
-/

namespace ShareCoin.Ext

open Lib Wire List Option
open Server (Uint256)

/-! ## The count of the votes -/

section

variable (env : ParamEnv) (s : ParamState) (strName : List UInt8) (nTime : Int)

/-- What a count decides. It has no value where there are votes to be dropped. -/
def consensus : Option (Option Int64) :=
  let values := tallies env s strName nTime
  if 135 < strName.length ∨ getParamTxValue s strName = 0 ∨ values.length < 10240 ∨
    (highestConsensus values).2 = 0 then some none
  else if archivalVotes env s strName nTime ≠ [] then none
  else if (highestConsensus values).2 = getParamTxValue s strName ∨
    env.percentBelow values.length (highestConsensus values).1 then some none
  else some (some (highestConsensus values).2)

theorem eraseVotes_eq_none (vDel : List Nat) (fuel : Nat) (idx : UInt32) (votes : List CParam) :
    eraseVotes vDel fuel idx votes = none := by
  induction fuel generalizing idx votes with
  | zero => rfl
  | succ fuel ih =>
    rw [eraseVotes, if_pos (UInt32.zero_le), bind_eq_none_iff]
    exact fun _ _ => ih ..

/-- **The count of the votes leaves the votes as they are**, whatever the passes its loop has. -/
theorem getParamTxConsensus_eq (fuel : Nat) :
    getParamTxConsensus fuel env s strName nTime =
      (consensus env s strName nTime).map (·, s.mapParam) := by
  unfold getParamTxConsensus consensus
  simp only [eraseVotes_eq_none, ne_eq, length_eq_zero_iff]
  split_ifs with hname hcur hfew hzero hnone <;> grind

end

namespace ParamVote

/-- The time of the previous block, if votes are counted after it. -/
def votingTime (v : ParamVote) : Option Int :=
  if v.env.hasParamConsensus then v.pindexPrev else none

def hash (v : ParamVote) : Uint256 := v.tx.getHash v.env.hash

theorem paramHash_back (v : ParamVote) (param : CParam) :
    paramHash v.envBack param = paramHash v.env param := by
  rw [paramHash, recordHash, v.hash_eq, v.hash160_eq]
  rfl

theorem verifyParamTx_back (v : ParamVote) :
    verifyParamTx v.envBack v.tx = verifyParamTx v.env v.tx := by
  simp only [verifyParamTx, v.paramHash_back]

/-- The value that the archive holds for the kind of the vote, when the vote is disconnected. -/
def lastApplied (v : ParamVote) (s : ParamState) : Option Int64 :=
  s.mapParamArch.reverse.findSome? (appliedValue v.envBack v.tx.param.vchLabel)

end ParamVote

def ParamState.addVote (s : ParamState) (param : CParam) : ParamState :=
  { s with mapParam := param :: s.mapParam }

/-- When the disconnect of a counted vote that decides takes it back: the archive is the same
    without the transaction, the vote behind it is of the same kind, and the archive gives the value
    that was set before. The default counts for the block size only. -/
structure DecisionTakenBack (s : ParamState) (v : ParamVote) : Prop where
  arch : (s.mapParamArch ++ [v.hash]).erase v.hash = s.mapParamArch
  next : ∃ q, s.mapParam.head? = some q ∧ q.vchLabel = v.tx.param.vchLabel
  blocksize : v.tx.param.vchLabel = extparamBlocksize →
    (v.lastApplied s).getD v.envBack.defMaxBlockSize = s.maxBlockSize
  minfee : v.tx.param.vchLabel = extparamMinfee → v.lastApplied s = some s.minRelayFee

/-- When the disconnect of a vote takes it back. A vote that is not counted must not be the one in
    front, and one that decides nothing must not be archived. -/
structure ParamTakenBack (s : ParamState) (v : ParamVote) : Prop where
  returns : verifyParamTx v.env v.tx ≠ none
  uncounted : verifyParamTx v.env v.tx = some (some opExtUpdate) → v.votingTime = none →
    ∀ q, s.mapParam.head? = some q → paramHash v.env q ≠ paramHash v.env v.tx.param
  counted : verifyParamTx v.env v.tx = some (some opExtUpdate) →
    ∀ nTime, v.votingTime = some nTime →
    ∃ nNewValue, consensus v.env (s.addVote v.tx.param) v.tx.param.vchLabel nTime =
        some nNewValue ∧
      (nNewValue = none → v.hash ∉ s.mapParamArch) ∧
      (nNewValue ≠ none → DecisionTakenBack s v)

theorem getParam_of_verifyParamTx {env : ParamEnv} {tx : CTransaction} {mode : UInt8}
    (h : verifyParamTx env tx = some (some mode)) : getParam tx = some tx.param := by
  unfold verifyParamTx at h
  unfold getParam at h ⊢
  split_ifs at h ⊢
  · rfl
  · cases h

/-! ## One call -/

variable {s : ParamState} {v : ParamVote} {strName : List UInt8} {nTime : Int}

theorem not_a_vote {mode : Option UInt8}
    (hv : verifyParamTx v.env v.tx = some mode) (hmode : mode ≠ some opExtUpdate) :
    connectVote s v = some s ∧ disconnectVote s v = some s := by
  have hback := v.verifyParamTx_back.trans hv
  constructor
  · unfold connectVote connectParamTx
    split
    · rfl
    · rfl
    · split_ifs
      · rfl
      · cases mode with
        | none => simp only [hv, bind_some, map_some]
        | some m =>
          have hm : m ≠ opExtUpdate := fun h => hmode (congrArg some h)
          simp only [hv, bind_some, ne_eq, hm, not_false_eq_true, if_true, map_some]
  · cases mode with
    | none => simp only [disconnectVote, disconnectParamTx, hback, bind_some, map_some]
    | some m =>
      have hm : m ≠ opExtUpdate := fun h => hmode (congrArg some h)
      simp only [disconnectVote, disconnectParamTx, hback, bind_some, ne_eq, hm,
        not_false_eq_true, if_true, map_some]

theorem connectVote_uncounted (h : v.votingTime = none) : connectVote s v = some s := by
  unfold ParamVote.votingTime at h
  unfold connectVote connectParamTx
  split
  · rfl
  · rfl
  · rename_i hprev _
    by_cases hcons : v.env.hasParamConsensus = true
    · rw [if_pos hcons, hprev] at h
      cases h
    · simp only [hcons, Bool.not_false, if_true, map_some]

def ParamState.decision (s : ParamState) (v : ParamVote) (nNewValue : Int64) : ParamState :=
  { applyParam (s.addVote v.tx.param) v.tx.param.vchLabel nNewValue with
    mapParamArch := s.mapParamArch ++ [v.hash] }

/-- A value that a count decides on is not the current one, and most of the votes are for it. -/
theorem of_consensus {env : ParamEnv} {nNewValue : Int64}
    (h : consensus env s strName nTime = some (some nNewValue)) :
    let values := tallies env s strName nTime
    getParamTxValue s strName ≠ 0 ∧ nNewValue ≠ getParamTxValue s strName ∧
      10240 ≤ values.length ∧ (highestConsensus values).2 = nNewValue ∧
      env.percentBelow values.length (highestConsensus values).1 = false := by
  unfold consensus at h
  dsimp only at h
  split_ifs at h with hnone hdrop hsame
  all_goals cases h
  push Not at hnone hsame
  exact ⟨hnone.2.1, hsame.1, hnone.2.2.1, rfl, Bool.not_eq_true _ ▸ hsame.2⟩

theorem kind_of_value_ne (h : getParamTxValue s strName ≠ 0) :
    strName = extparamBlocksize ∨ strName = extparamMinfee := by
  unfold getParamTxValue at h
  split_ifs at h with hblock hfee
  · exact .inl hblock
  · exact .inr hfee
  · exact absurd rfl h

section

variable (s : ParamState) (strMode : List UInt8) (nNewValue : Int64)

theorem applyParam_mapParamArch :
    (applyParam s strMode nNewValue).mapParamArch = s.mapParamArch := by
  unfold applyParam
  split_ifs
  · rfl
  · rfl
  · rfl

theorem applyParam_mapParam : (applyParam s strMode nNewValue).mapParam = s.mapParam := by
  unfold applyParam
  split_ifs
  · rfl
  · rfl
  · rfl

end

section

variable (hv : verifyParamTx v.env v.tx = some (some opExtUpdate))
include hv

theorem connectVote_counted (h : v.votingTime = some nTime) :
    connectVote s v =
      (consensus v.env (s.addVote v.tx.param) v.tx.param.vchLabel nTime).map fun
        | none => s.addVote v.tx.param
        | some nNewValue => s.decision v nNewValue := by
  unfold ParamVote.votingTime at h
  split_ifs at h with hcons
  simp only [connectVote, connectParamTx, h, getParam_of_verifyParamTx hv, hcons, Bool.not_true,
    Bool.false_eq_true, if_false, hv, bind_some, ne_eq, not_true_eq_false, Option.map_map]
  change Option.map _ (getParamTxConsensus v.fuel v.env (s.addVote v.tx.param) _ _) = _
  rw [getParamTxConsensus_eq]
  cases hc : consensus v.env (s.addVote v.tx.param) v.tx.param.vchLabel nTime with
  | none => rfl
  | some nNewValue =>
    cases nNewValue with
    | none => rfl
    | some nNewValue =>
      have hne : nNewValue ≠ getParamTxValue
          { s with mapParam := (s.addVote v.tx.param).mapParam } v.tx.param.vchLabel :=
        (of_consensus hc).2.1
      simp only [map_some, Function.comp_apply, if_neg hne, applyParam_mapParamArch]
      rfl

theorem disconnectVote_vote :
    disconnectVote s v =
      match s.mapParam with
      | [] => some s
      | wparam :: votes =>
        if paramHash v.env wparam ≠ paramHash v.env v.tx.param then some s
        else if v.hash ∈ s.mapParamArch then
          votes.head?.map fun q =>
            let s := { s with mapParam := votes, mapParamArch := s.mapParamArch.erase v.hash }
            applyParam s q.vchLabel (getBestParamValue v.envBack s q.vchLabel)
        else some { s with mapParam := votes } := by
  have hback := v.verifyParamTx_back.trans hv
  have hhash : v.tx.getHash v.envBack.hash = v.hash := by rw [v.hash_eq]; rfl
  simp only [disconnectVote, disconnectParamTx, hback, bind_some, ne_eq, not_true_eq_false,
    if_false, getParam_of_verifyParamTx hv, v.paramHash_back, hhash, contains_iff_mem]
  cases s.mapParam with
  | nil => rfl
  | cons wparam votes =>
    by_cases hfront : paramHash v.env wparam = paramHash v.env v.tx.param
    · by_cases harch : v.hash ∈ s.mapParamArch
      · simp only [hfront, not_true_eq_false, if_false, harch, if_true, Option.map_map]
        rfl
      · simp only [hfront, not_true_eq_false, if_false, harch, map_some]
    · simp only [hfront, not_false_eq_true, if_true, map_some]

/-! ## When a vote is taken back -/

theorem uncounted_iff :
    disconnectVote s v = some s ↔
      ∀ q, s.mapParam.head? = some q → paramHash v.env q ≠ paramHash v.env v.tx.param := by
  rw [disconnectVote_vote hv]
  cases hvotes : s.mapParam with
  | nil => simp
  | cons wparam votes =>
    simp only [head?_cons, some.injEq, forall_eq']
    by_cases hfront : paramHash v.env wparam = paramHash v.env v.tx.param
    · -- the vote is erased, so the list is shorter
      refine iff_of_false (fun h => ?_) fun h => h hfront
      rw [if_neg (not_not.mpr hfront)] at h
      have hshorter : s.mapParam = votes := by
        split_ifs at h
        · obtain ⟨q, _, heq⟩ := map_eq_some_iff.mp h
          rw [← heq, applyParam_mapParam]
        · rw [← some.inj h]
      exact cons_ne_self wparam votes (hvotes.symm.trans hshorter)
    · rw [if_pos hfront]
      exact iff_of_true rfl hfront

theorem undecided_iff :
    disconnectVote (s.addVote v.tx.param) v = some s ↔ v.hash ∉ s.mapParamArch := by
  have hvotes : (s.addVote v.tx.param).mapParam = v.tx.param :: s.mapParam := rfl
  rw [disconnectVote_vote hv, hvotes]
  dsimp only
  rw [if_neg (not_not.mpr rfl)]
  split_ifs with harch
  · change v.hash ∈ s.mapParamArch at harch
    refine iff_of_false (fun h => ?_) (not_not.mpr harch)
    obtain ⟨q, _, heq⟩ := map_eq_some_iff.mp h
    have herase : s.mapParamArch.erase v.hash = s.mapParamArch :=
      (applyParam_mapParamArch ..).symm.trans (congrArg ParamState.mapParamArch heq)
    have hlen := congrArg List.length herase
    rw [length_erase_of_mem harch] at hlen
    have hpos := length_pos_of_mem harch
    omega
  · exact iff_of_true rfl harch

end

/-- The default of the fee is the fee that was just set, so only the archive can give the value
    that was set before. -/
theorem getD_eq_iff {o : Option Int64} {new old : Int64} (h : new ≠ old) :
    o.getD new = old ↔ o = some old := by
  cases o with
  | none => simp [h]
  | some x => simp

theorem applyParam_eq_iff {t : ParamState} {strMode : List UInt8} {x : Int64} :
    applyParam t strMode x = s ↔
      t.mapParam = s.mapParam ∧ t.mapParamArch = s.mapParamArch ∧
      (if strMode = extparamBlocksize then x else t.maxBlockSize) = s.maxBlockSize ∧
      (if strMode = extparamMinfee then x else t.minRelayFee) = s.minRelayFee := by
  have hne : extparamBlocksize ≠ extparamMinfee := by decide
  unfold applyParam
  split_ifs with hblock hfee hfee
  · exact absurd (hblock.symm.trans hfee) hne
  · rw [ParamState.ext_iff]
  · rw [ParamState.ext_iff]
  · rw [ParamState.ext_iff]

section

variable (s : ParamState) (v : ParamVote) (nNewValue : Int64)

theorem decision_maxBlockSize :
    (s.decision v nNewValue).maxBlockSize =
      if v.tx.param.vchLabel = extparamBlocksize then nNewValue else s.maxBlockSize := by
  have hset := (applyParam_eq_iff.mp
    (rfl : applyParam (s.addVote v.tx.param) v.tx.param.vchLabel nNewValue = _)).2.2.1
  exact hset.symm

theorem decision_minRelayFee :
    (s.decision v nNewValue).minRelayFee =
      if v.tx.param.vchLabel = extparamMinfee then nNewValue else s.minRelayFee := by
  have hset := (applyParam_eq_iff.mp
    (rfl : applyParam (s.addVote v.tx.param) v.tx.param.vchLabel nNewValue = _)).2.2.2
  exact hset.symm

end

theorem getBestParamValue_decision (nNewValue : Int64)
    (harch : (s.mapParamArch ++ [v.hash]).erase v.hash = s.mapParamArch) (strName : List UInt8) :
    getBestParamValue v.envBack { s.decision v nNewValue with
        mapParam := s.mapParam
        mapParamArch := (s.decision v nNewValue).mapParamArch.erase v.hash } strName =
      (s.mapParamArch.reverse.findSome? (appliedValue v.envBack strName)).getD
        (getParamTxDefaultValue v.envBack (s.decision v nNewValue) strName) := by
  rw [show (s.decision v nNewValue).mapParamArch.erase v.hash = s.mapParamArch from harch]
  rfl

theorem decisionTakenBack_iff {q : CParam} (hnext : s.mapParam.head? = some q) :
    DecisionTakenBack s v ↔
      (s.mapParamArch ++ [v.hash]).erase v.hash = s.mapParamArch ∧
      q.vchLabel = v.tx.param.vchLabel ∧
      (v.tx.param.vchLabel = extparamBlocksize →
        (v.lastApplied s).getD v.envBack.defMaxBlockSize = s.maxBlockSize) ∧
      (v.tx.param.vchLabel = extparamMinfee → v.lastApplied s = some s.minRelayFee) := by
  constructor
  · intro h
    obtain ⟨q', hq', hlabel⟩ := h.next
    cases hnext.symm.trans hq'
    exact ⟨h.arch, hlabel, h.blocksize, h.minfee⟩
  · rintro ⟨harch, hlabel, hblock, hfee⟩
    exact ⟨harch, ⟨q, hnext, hlabel⟩, hblock, hfee⟩

theorem decided_iff {nNewValue : Int64}
    (hv : verifyParamTx v.env v.tx = some (some opExtUpdate))
    (hkind : getParamTxValue s v.tx.param.vchLabel ≠ 0)
    (hnew : nNewValue ≠ getParamTxValue s v.tx.param.vchLabel) :
    disconnectVote (s.decision v nNewValue) v = some s ↔ DecisionTakenBack s v := by
  have hne : extparamBlocksize ≠ extparamMinfee := by decide
  have hvotes : (s.decision v nNewValue).mapParam = v.tx.param :: s.mapParam :=
    applyParam_mapParam ..
  have hmem : v.hash ∈ (s.decision v nNewValue).mapParamArch := by
    simp [ParamState.decision]
  rw [disconnectVote_vote hv, hvotes]
  simp only [ne_eq, not_true_eq_false, if_false, if_pos hmem]
  cases hnext : s.mapParam.head? with
  | none =>
    refine iff_of_false (fun h => by cases h) fun h => ?_
    obtain ⟨q, hq, _⟩ := h.next
    cases hnext.symm.trans hq
  | some q =>
    rw [decisionTakenBack_iff hnext]
    simp only [map_some, some.injEq, applyParam_eq_iff, true_and]
    refine and_congr_right fun harch => ?_
    have hbest := getBestParamValue_decision nNewValue harch
    have hmax := decision_maxBlockSize s v nNewValue
    have hmin := decision_minRelayFee s v nNewValue
    -- a vote of the other kind that is left in front has the wrong parameter set
    rcases kind_of_value_ne hkind with hlabel | hlabel
    · rw [hlabel, if_pos rfl] at hmax
      rw [hlabel, getParamTxValue, if_pos rfl] at hnew
      by_cases hq : q.vchLabel = extparamBlocksize
      · rw [hbest, hmin, hq, hlabel]
        simp only [if_true, hne, if_false, and_true, true_implies, false_implies, true_and,
          getParamTxDefaultValue, ParamVote.lastApplied, hlabel]
      · rw [if_neg hq, hmax]
        exact iff_of_false (fun h => hnew h.1) fun h => hq (h.1.trans hlabel)
    · rw [hlabel, if_pos rfl] at hmin
      rw [hlabel, getParamTxValue, if_neg hne.symm, if_pos rfl] at hnew
      by_cases hq : q.vchLabel = extparamMinfee
      · rw [hbest, hmax, hq, hlabel]
        simp only [if_true, hne.symm, if_false, true_and, true_implies, false_implies,
          getParamTxDefaultValue, ParamVote.lastApplied, hlabel, hmin, getD_eq_iff hnew]
      · rw [if_neg hq, hmin]
        exact iff_of_false (fun h => hnew h.2) fun h => hq (h.1.trans hlabel)

theorem paramTakenBack_iff (s : ParamState) (v : ParamVote) :
    (connectVote s v).bind (disconnectVote · v) = some s ↔ ParamTakenBack s v := by
  cases hv : verifyParamTx v.env v.tx with
  | none =>
    refine iff_of_false (fun h => ?_) fun h => h.returns hv
    obtain ⟨s₁, _, h⟩ := bind_eq_some_iff.mp h
    simp only [disconnectVote, disconnectParamTx, v.verifyParamTx_back, hv] at h
    cases h
  | some mode =>
    have hreturns : verifyParamTx v.env v.tx ≠ none := by simp [hv]
    by_cases hmode : mode = some opExtUpdate
    swap
    · obtain ⟨hconnect, hdisconnect⟩ := not_a_vote (s := s) hv hmode
      have hnot : verifyParamTx v.env v.tx ≠ some (some opExtUpdate) := by
        rw [hv]
        exact fun h => hmode (some.inj h)
      rw [hconnect, bind_some, hdisconnect]
      exact iff_of_true rfl ⟨hreturns, fun h => absurd h hnot, fun h => absurd h hnot⟩
    rw [hmode] at hv
    cases htime : v.votingTime with
    | none =>
      rw [connectVote_uncounted htime, bind_some, uncounted_iff hv]
      constructor
      · refine fun h => ⟨hreturns, fun _ _ => h, fun _ nTime hsome => ?_⟩
        cases htime.symm.trans hsome
      · exact fun h => h.uncounted hv htime
    | some nTime =>
      have hback : ParamTakenBack s v ↔ ∃ nNewValue,
          consensus v.env (s.addVote v.tx.param) v.tx.param.vchLabel nTime =
            some nNewValue ∧ (nNewValue = none → v.hash ∉ s.mapParamArch) ∧
          (nNewValue ≠ none → DecisionTakenBack s v) := by
        refine ⟨fun h => h.counted hv nTime htime, fun h => ⟨hreturns, fun _ hnone => ?_, ?_⟩⟩
        · cases htime.symm.trans hnone
        · intro _ nTime' htime'
          cases htime.symm.trans htime'
          exact h
      rw [hback, connectVote_counted hv htime]
      cases hc : consensus v.env (s.addVote v.tx.param) v.tx.param.vchLabel nTime with
      | none => simp
      | some nNewValue =>
        cases nNewValue with
        | none => simp [undecided_iff hv]
        | some nNewValue =>
          obtain ⟨hkind, hnew, -⟩ := of_consensus hc
          simp [decided_iff (s := s) hv hkind hnew]

/-- **Which votes a disconnect takes back.** Connecting one vote and disconnecting it restores the
    votes, the archive and both parameters exactly if the condition is met. Votes that meet it one
    after the other are taken back in reverse order. -/
theorem param_state_restored_iff (s : ParamState) (v : ParamVote) (vs : List ParamVote) :
    ((connectVote s v).bind (disconnectVote · v) = some s ↔ ParamTakenBack s v) ∧
    (StepsOk connectVote ParamTakenBack s vs →
      ∃ s', exec connectVote s vs = some s' ∧ exec disconnectVote s' vs.reverse = some s) := by
  refine ⟨paramTakenBack_iff s v, exec_undo_partial fun s v hback => ?_⟩
  exact bind_eq_some_iff.mp ((paramTakenBack_iff s v).mpr hback)

/-! ## A change of the fee -/

theorem consensus_of_few {env : ParamEnv} (h : s.mapParam.length < 10240) :
    consensus env s strName nTime = some none := by
  have hfew : (tallies env s strName nTime).length < 10240 := by
    rw [tallies, length_map]
    exact ((length_filter_le ..).trans (length_filter_le ..)).trans_lt h
  exact if_pos (.inr (.inr (.inl hfew)))

theorem exec_connectVote_of_few {vs : List ParamVote}
    (hvotes : ∀ v ∈ vs, verifyParamTx v.env v.tx = some (some opExtUpdate) ∧ v.votingTime ≠ none)
    (h : s.mapParam.length + vs.length < 10240) :
    exec connectVote s vs =
      some { s with mapParam := (vs.map (·.tx.param)).reverse ++ s.mapParam } := by
  induction vs generalizing s with
  | nil => rfl
  | cons v vs ih =>
    obtain ⟨hv, htime⟩ := hvotes v mem_cons_self
    obtain ⟨nTime, htime⟩ := ne_none_iff_exists'.mp htime
    rw [length_cons] at h
    have hfew : (s.addVote v.tx.param).mapParam.length < 10240 := by
      simp only [ParamState.addVote, length_cons]
      omega
    have hstep : connectVote s v = some (s.addVote v.tx.param) := by
      rw [connectVote_counted hv htime, consensus_of_few hfew]
      rfl
    rw [exec, hstep, bind_some, ih (fun v' hv' => hvotes v' (mem_cons_of_mem _ hv'))]
    · simp [ParamState.addVote]
    · simp only [ParamState.addVote, length_cons]
      omega

theorem highestConsensus_replicate {n : Nat} (hn : n ≠ 0) (value : Int64) :
    highestConsensus (List.replicate n value) = (n, value) := by
  have hpos : 0 < n := Nat.pos_of_ne_zero hn
  simp [highestConsensus, replicate_dedup hn, count_replicate_self, hpos]

def feeParam : CParam where
  vchLabel := extparamMinfee
  nValue := 10000

def feeTx (n : Nat) : CTransaction where
  nFlag := 0x101
  vin := [{ prevout := { hash := BitVec.ofNat 256 n, n := 0 }, scriptSig := [],
            nSequence := 0xFFFFFFFF }]
  vout := [{ nValue := 0, scriptPubKey :=
    [0xf2, 0x53, 0xa9, 0x14, 7] ++ List.replicate 19 0 ++ [0x6d, 0x51] }]
  vtxinwit := []
  nLockTime := 0
  param := feeParam

/-- Surroundings in which votes are counted, and which find no transaction. -/
def votingEnv : ParamEnv where
  hash bytes := BitVec.ofNat 256 (Server.leNat bytes 32)
  hash160 _ := 7
  now := 0
  shutime _ := 0
  getAliasOpFee _ := 0
  getContextOpFee _ := 0
  verifyContext _ _ := true
  getTxOfCert _ := none
  getTransaction _ := none
  getTransaction_hash := fun _ _ h => by cases h
  defMaxBlockSize := 1024000
  hasParamConsensus := true
  shtimeAfter _ _ := false
  percentBelow nTotal nMax := decide (100 * nMax < 90 * nTotal)

def feeVote (n : Nat) : ParamVote where
  fuel := 1
  env := votingEnv
  envBack := votingEnv
  hash_eq := rfl
  hash160_eq := rfl
  tx := feeTx n
  pindexPrev := some 0

def feeStart : ParamState where
  mapParam := []
  mapParamArch := []
  maxBlockSize := 1024000
  minRelayFee := 1000

theorem feeVote_verified (n : Nat) :
    verifyParamTx (feeVote n).env (feeVote n).tx = some (some opExtUpdate) := by
  have hout : Server.getExtOutput (asServer (feeTx n)) Server.opParam =
      Server.getExtOutput (asServer (feeTx 0)) Server.opParam := rfl
  have hparam : getParam (feeTx n) = getParam (feeTx 0) := rfl
  have hvout : (feeTx n).vout = (feeTx 0).vout := rfl
  have hsame : verifyParamTx votingEnv (feeTx n) = verifyParamTx votingEnv (feeTx 0) := by
    simp only [verifyParamTx, hout, hparam, hvout]
  refine hsame.trans ?_
  decide

/-- The first vote for the fee is taken back, as a vote and as a run. -/
theorem first_vote_taken_back :
    (connectVote feeStart (feeVote 0)).bind (disconnectVote · (feeVote 0)) = some feeStart ∧
    ∃ s', exec connectVote feeStart [feeVote 0] = some s' ∧
      exec disconnectVote s' [feeVote 0] = some feeStart := by
  have hback : ParamTakenBack feeStart (feeVote 0) := by
    refine ⟨by simp [feeVote_verified], fun _ h => ?_, fun _ nTime _ => ⟨none, ?_, ?_, ?_⟩⟩
    · cases h
    · exact consensus_of_few (by decide)
    · exact fun _ => not_mem_nil
    · exact fun h => absurd rfl h
  obtain ⟨hone, hrun⟩ := param_state_restored_iff feeStart (feeVote 0) [feeVote 0]
  exact ⟨hone.mpr hback, hrun ⟨hback, by split <;> trivial⟩⟩

theorem archivalVotes_eq_nil {env : ParamEnv}
    (h : ∀ param ∈ s.mapParam, isExpired env param nTime = false) :
    archivalVotes env s strName nTime = [] := by
  rw [archivalVotes, map_eq_nil_iff, filter_eq_nil_iff]
  rintro ⟨param, n⟩ hmem
  simp [h param (fst_mem_of_mem_zipIdx hmem)]

theorem fee_consensus (s : ParamState) (hfee : s.minRelayFee = 1000)
    (hvotes : s.mapParam = List.replicate 10240 feeParam) (nTime : Int) :
    consensus votingEnv s extparamMinfee nTime = some (some 10000) := by
  have hcurrent : getParamTxValue s extparamMinfee = 1000 := by
    rw [getParamTxValue, if_neg (by decide), if_pos rfl, hfee]
  have htallies : tallies votingEnv s extparamMinfee nTime = List.replicate 10240 10000 := by
    rw [tallies, validVotes, hcurrent, hvotes, filter_replicate, if_pos (by decide),
      filter_replicate, if_pos (by rfl), map_replicate]
    rfl
  have hbest : highestConsensus (List.replicate 10240 10000) = (10240, 10000) :=
    highestConsensus_replicate (by decide) _
  have hnone : archivalVotes votingEnv s extparamMinfee nTime = [] :=
    archivalVotes_eq_nil fun _ _ => Bool.and_false _
  simp only [consensus, hcurrent, htallies, length_replicate, hbest, hnone]
  decide

/-- The votes for the fee as they are counted, too few to decide. -/
def feeVotes (n : Nat) : ParamState := { feeStart with mapParam := List.replicate n feeParam }

theorem exec_feeVotes {n : Nat} (h : n < 10240) :
    exec connectVote feeStart ((List.range n).map feeVote) = some (feeVotes n) := by
  have hvotes : (((List.range n).map feeVote).map (·.tx.param)).reverse =
      List.replicate n feeParam := by
    rw [List.map_map]
    change ((List.range n).map fun _ => feeParam).reverse = _
    rw [map_const', length_range, reverse_replicate]
  have hfew : feeStart.mapParam.length + ((List.range n).map feeVote).length < 10240 := by
    rw [length_map, length_range]
    exact (Nat.zero_add n).trans_lt h
  rw [exec_connectVote_of_few (fun v hv => ?_) hfew, hvotes, feeStart, append_nil]
  · rfl
  · obtain ⟨n, _, rfl⟩ := List.mem_map.mp hv
    exact ⟨feeVote_verified n, some_ne_none 0⟩

/-- The fee is set by 10240 votes, the last of which is disconnected. The fee stays. -/
theorem fee_change_not_taken_back :
    ∃ s₁ s₂ s₃, exec connectVote feeStart ((List.range 10239).map feeVote) = some s₁ ∧
      connectVote s₁ (feeVote 10239) = some s₂ ∧ disconnectVote s₂ (feeVote 10239) = some s₃ ∧
      s₁.minRelayFee = 1000 ∧ s₂.minRelayFee = 10000 ∧ s₃.minRelayFee = 10000 := by
  have hset : connectVote (feeVotes 10239) (feeVote 10239) =
      some ((feeVotes 10239).decision (feeVote 10239) 10000) := by
    have hcons := fee_consensus ((feeVotes 10239).addVote feeParam) rfl rfl 0
    rw [connectVote_counted (feeVote_verified _) rfl]
    exact congrArg (Option.map _) hcons
  have hstays : disconnectVote ((feeVotes 10239).decision (feeVote 10239) 10000) (feeVote 10239) =
      some { feeVotes 10239 with minRelayFee := 10000 } := by
    have hvotes : ((feeVotes 10239).decision (feeVote 10239) 10000).mapParam =
        feeParam :: List.replicate 10239 feeParam := rfl
    have harch : ((feeVotes 10239).decision (feeVote 10239) 10000).mapParamArch =
        [(feeVote 10239).hash] := rfl
    have hparam : (feeVote 10239).tx.param = feeParam := rfl
    rw [disconnectVote_vote (feeVote_verified _), hvotes]
    simp only [harch, hparam, ne_eq, not_true_eq_false, if_false, mem_singleton, if_true,
      erase_cons_head, head?_replicate]
    rfl
  exact ⟨feeVotes 10239, _, _, exec_feeVotes (by decide), hset, hstays, rfl, rfl, rfl⟩

end ShareCoin.Ext
