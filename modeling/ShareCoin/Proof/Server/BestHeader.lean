import ShareCoin.Proof.Server.Status
import ShareCoin.Proof.Wire.CheckBlock
import ShareCoin.Server.ChainWork

/-!
# The best header

`wallet->pindexBestHeader` is meant to be the header whose chain has the most work and no invalid
block. It is compared with a new header, and nothing else keeps it there: when its block is found
invalid it becomes null, a block that is invalid below it changes nothing, a header on top of a
chain with an invalid block is compared like any other, and a commit that leaves the chain of the
best block moves it to the block it ends at. A header adds to the work of its chain only if its
target is positive and not too large, which `CheckBlockHeader` does not ask for.

While none of this happens, the best header is what it is meant to be.
-/

namespace ShareCoin.Server

open Lib Option

variable {σ ι : Type} [DecidableEq ι]
variable {s : ChainState σ ι} {h : HeaderTree ι} {t : BlockLinks ι} {checks : BlockChecks}
  {calls : BlockCalls σ ι} {s' : ChainState σ ι} {i : ι}

/-! ## Work -/

omit [DecidableEq ι] in
theorem HeaderTree.links_work (h : HeaderTree ι) (i : ι) :
    h.links.bnChainWork i = ((h.parent i).map h.links.bnChainWork).getD 0 + h.blockWork i := by
  change h.chainWork (h.height i) i =
    ((h.parent i).map fun j => h.chainWork (h.height j) j).getD 0 + h.blockWork i
  cases hp : h.parent i with
  | none =>
    cases h.height i with
    | zero => simp [chainWork]
    | succ height => simp [chainWork, hp]
  | some p =>
    rw [h.height_parent hp, chainWork, hp]
    rfl

omit [DecidableEq ι] in
theorem HeaderTree.links_work_lt (h : HeaderTree ι) {i p : ι} (hp : h.parent i = some p)
    (hpos : 0 < h.blockWork i) : h.links.bnChainWork p < h.links.bnChainWork i := by
  rw [h.links_work i, hp, map_some, getD_some]
  omega

/-! ## The property -/

section

variable (t : BlockLinks ι) (s : ChainState σ ι)

def Unmarked (i : ι) : Prop :=
  ∀ a, t.Anc a i → (s.nStatus a).failedValid = false

/-- An index that can be the best header. -/
structure Eligible (i : ι) : Prop where
  known : s.known i = true
  unmarked : Unmarked t s i

/-- The index has the most work among those that can be the best header. -/
structure IsBestHeader (best : ι) : Prop where
  eligible : Eligible t s best
  most : ∀ i, Eligible t s i → t.bnChainWork i ≤ t.bnChainWork best

end

/-- **The best header is what it is meant to be**, and the work of a chain grows with every
    block. -/
structure BestHeaderOk (h : HeaderTree ι) (s : ChainState σ ι) : Prop where
  work : ∀ i, s.known i = true →
    h.links.bnChainWork i = ((h.parent i).map h.links.bnChainWork).getD 0 + h.blockWork i ∧
      0 < h.blockWork i
  increases : ∀ i p, s.known i = true → h.parent i = some p →
    h.links.bnChainWork p < h.links.bnChainWork i
  best : ∃ best, s.pindexBestHeader = some best ∧ IsBestHeader h.links s best

/-! ## The condition -/

section

variable (t : BlockLinks ι)

/-- The ancestors of the index are not marked as invalid. -/
def ParentUnmarked (s : ChainState σ ι) (i : ι) : Prop :=
  ∀ p, t.parent i = some p → Unmarked t s p

def BelowBest (s : ChainState σ ι) (i : ι) : Prop :=
  ∃ best, s.pindexBestHeader = some best ∧ t.bnChainWork i ≤ t.bnChainWork best

/-- The condition on a header: a new one adds work, and if it has more work than the best header
    then there is no invalid block below it. -/
def HeaderKeeps (h : HeaderTree ι) (i : ι) (s : ChainState σ ι) : Prop :=
  s.known i = false →
    0 < h.blockWork i ∧ (ParentUnmarked h.links s i ∨ BelowBest h.links s i)

structure BodyChecked (checks : BlockChecks) (i : ι) (s : ChainState σ ι) : Prop where
  parent : ∃ p, t.parent i = some p ∧ s.known p = true
  accept : checks.accept = true
  inputs : checks.inputs = true
  header : HeaderPasses t checks i s
  noData : s.known i = true → isInMainChain s i = false

/-- The condition on a body that fails a check: it is not that of the best header or of a block
    below it. -/
def FailKeeps (i : ι) (s : ChainState σ ι) : Prop :=
  ∃ best, s.pindexBestHeader = some best ∧ ¬ t.Anc i best ∧
    (s.known i = true ∨ t.bnChainWork i ≤ t.bnChainWork best)

/-- The condition on a block that is committed: it connects, and it is a child of the best block or
    has the work of the best header and no invalid block below it. -/
def CommitKeeps (calls : BlockCalls σ ι) (i : ι) (s : ChainState σ ι) : Prop :=
  (∃ c d, Connectable t calls i s c d) ∧
    (t.parent i = some s.pindexBest ∨
      ParentUnmarked t s i ∧
        ∃ best, s.pindexBestHeader = some best ∧ t.bnChainWork best ≤ t.bnChainWork i)

/-- **The condition on a step.** -/
def StepKeepsBest (h : HeaderTree ι) (s : ChainState σ ι) : ChainOp σ ι → Prop
  | .header i checks => HeaderPasses h.links checks i s → HeaderKeeps h i s
  | .block i checks calls =>
    BodyChecked h.links checks i s →
      HeaderKeeps h i s ∧
        if checks.block && checks.blockContext then
          h.links.bnChainWork i ≤ s.bnBestChainWork ∨ CommitKeeps h.links calls i s
        else FailKeeps h.links i s

/-! ## Headers -/

theorem createBlockIndex_bestHeader {i best : ι} (hnew : s.known i = false)
    (hbest : s.pindexBestHeader = some best) :
    (createBlockIndex t i s).pindexBestHeader =
      if t.bnChainWork best < t.bnChainWork i then some i else some best := by
  simp [createBlockIndex, hnew, hbest]

end

section Create

variable (hclosed : ParentsKnown t s) (hnew : s.known i = false)

include hclosed hnew

theorem unmarked_create {j : ι} (hj : s.known j = true) :
    Unmarked t (createBlockIndex t i s) j ↔ Unmarked t s j := by
  have hs := HeaderAccepted.create t (by simp [hnew] : ¬ s.known i = true)
  refine forall₂_congr fun a ha => ?_
  have hne : a ≠ i := by
    rintro rfl
    rw [hclosed.anc ha hj] at hnew
    cases hnew
  rw [hs.others a hne]

theorem eligible_create {j : ι} (hj : j ≠ i) :
    Eligible t (createBlockIndex t i s) j ↔ Eligible t s j := by
  constructor
  · intro h
    have hknown := ((createBlockIndex_known t s i j).mp h.known).resolve_left hj
    exact ⟨hknown, (unmarked_create hclosed hnew hknown).mp h.unmarked⟩
  · intro h
    exact ⟨(createBlockIndex_known t s i j).mpr (.inr h.known),
      (unmarked_create hclosed hnew h.known).mpr h.unmarked⟩

theorem eligible_create_self (hp : ∀ p, t.parent i = some p → s.known p = true)
    (hprev : ParentUnmarked t s i) : Eligible t (createBlockIndex t i s) i := by
  have hs := HeaderAccepted.create t (by simp [hnew] : ¬ s.known i = true)
  have hself : ((createBlockIndex t i s).nStatus i).failedValid = false :=
    (Bool.or_eq_false_iff.mp hs.valid).1
  refine ⟨hs.known, ?_⟩
  intro a ha
  cases hparent : t.parent i with
  | none =>
    rw [Forest.anc_iff_of_root hparent] at ha
    rw [ha]
    exact hself
  | some p =>
    rcases (Forest.anc_iff_of_parent hparent).mp ha with rfl | ha
    · exact hself
    · exact (unmarked_create hclosed hnew (hp p hparent)).mpr (hprev p hparent) a ha

/-- **The best header after a new one.** -/
theorem IsBestHeader.create {best : ι} (hbest : s.pindexBestHeader = some best)
    (h : IsBestHeader t s best) (hp : ∀ p, t.parent i = some p → s.known p = true)
    (hkeeps : ParentUnmarked t s i ∨ BelowBest t s i) :
    ∃ best', (createBlockIndex t i s).pindexBestHeader = some best' ∧
      IsBestHeader t (createBlockIndex t i s) best' := by
  have hne : best ≠ i := by
    rintro rfl
    rw [h.eligible.known] at hnew
    cases hnew
  rw [createBlockIndex_bestHeader t hnew hbest]
  split_ifs with hwork
  · have hprev : ParentUnmarked t s i := by
      refine hkeeps.resolve_right ?_
      rintro ⟨best', hbest', hle⟩
      cases hbest.symm.trans hbest'
      exact absurd hwork (Nat.not_lt.mpr hle)
    refine ⟨i, rfl, eligible_create_self hclosed hnew hp hprev, fun j hj => ?_⟩
    by_cases hji : j = i
    · rw [hji]
    · exact (h.most j ((eligible_create hclosed hnew hji).mp hj)).trans hwork.le
  · refine ⟨best, rfl, (eligible_create hclosed hnew hne).mpr h.eligible, fun j hj => ?_⟩
    by_cases hji : j = i
    · rw [hji]
      exact Nat.not_lt.mp hwork
    · exact h.most j ((eligible_create hclosed hnew hji).mp hj)

end Create

/-! ## The invariant -/

/-- What the steps keep: the parents of known indexes are known, and their blocks have work. -/
structure BestInv (h : HeaderTree ι) (s : ChainState σ ι) : Prop where
  closed : ParentsKnown h.links s
  work : ∀ i, s.known i = true → 0 < h.blockWork i
  best : ∃ best, s.pindexBestHeader = some best ∧ IsBestHeader h.links s best

omit [DecidableEq ι] in
theorem BestInv.ok (hinv : BestInv h s) : BestHeaderOk h s where
  work i hi := ⟨h.links_work i, hinv.work i hi⟩
  increases i _ hi hp := h.links_work_lt hp (hinv.work i hi)
  best := hinv.best

theorem BestInv.create (hinv : BestInv h s) (hpass : HeaderPasses h.links checks i s)
    (hkeeps : HeaderKeeps h i s) : BestInv h (createBlockIndex h.links i s) := by
  by_cases hknown : s.known i = true
  · rw [createBlockIndex, if_pos hknown]
    exact hinv
  · have hnew : s.known i = false := by simpa using hknown
    have hp : ∀ p, h.links.parent i = some p → s.known p = true :=
      fun p hp => hpass.parent_known hinv.closed hp
    obtain ⟨hpos, hprev⟩ := hkeeps hnew
    obtain ⟨best, hbest, h₁⟩ := hinv.best
    refine ⟨hinv.closed.create hp, ?_, h₁.create hinv.closed hnew hbest hp hprev⟩
    intro j hj
    rcases (createBlockIndex_known h.links s i j).mp hj with rfl | hj
    · exact hpos
    · exact hinv.work j hj

omit [DecidableEq ι] in
theorem MarksKept.eligible (h : MarksKept s s') : Eligible t s' i ↔ Eligible t s i := by
  have hmarks : Unmarked t s' i ↔ Unmarked t s i :=
    forall₂_congr fun a _ => by rw [h.failedValid a]
  constructor
  · rintro ⟨hknown, hi⟩
    exact ⟨by rwa [h.known] at hknown, hmarks.mp hi⟩
  · rintro ⟨hknown, hi⟩
    exact ⟨by rwa [h.known], hmarks.mpr hi⟩

omit [DecidableEq ι] in
theorem BestInv.of_marks (hinv : BestInv h s) (hkept : MarksKept s s')
    (hbest : ∃ best, s'.pindexBestHeader = some best ∧ IsBestHeader h.links s best) :
    BestInv h s' := by
  obtain ⟨best, hsome, hmost⟩ := hbest
  refine ⟨?_, ?_, best, hsome, hkept.eligible.mpr hmost.eligible, fun i hi => ?_⟩
  · unfold ParentsKnown
    rw [hkept.known]
    exact hinv.closed
  · rw [hkept.known]
    exact hinv.work
  · exact hmost.most i (hkept.eligible.mp hi)

/-! ## Blocks that fail a check -/

theorem eligible_markInvalid {i j : ι} :
    Eligible t (markInvalid i s) j ↔ Eligible t s j ∧ ¬ t.Anc i j := by
  have hself : ((markInvalid i s).nStatus i).failedValid = true := by
    simp [markInvalid, ChainState.setStatus]
  have hother : ∀ a, a ≠ i → (markInvalid i s).nStatus a = s.nStatus a := by
    intro a ha
    simp [markInvalid, ChainState.setStatus, ha]
  constructor
  · rintro ⟨hknown, hj⟩
    have hanc : ¬ t.Anc i j := fun ha => by
      rw [hj i ha] at hself
      cases hself
    refine ⟨⟨hknown, fun a ha => ?_⟩, hanc⟩
    have hne : a ≠ i := fun hai => hanc (hai ▸ ha)
    rw [← hother a hne]
    exact hj a ha
  · rintro ⟨⟨hknown, hj⟩, hanc⟩
    refine ⟨hknown, fun a ha => ?_⟩
    have hne : a ≠ i := fun hai => hanc (hai ▸ ha)
    rw [hother a hne]
    exact hj a ha

theorem BestInv.markInvalid (hinv : BestInv h s) {i best : ι}
    (hbest : s.pindexBestHeader = some best) (hanc : ¬ h.links.Anc i best) :
    BestInv h (markInvalid i s) := by
  obtain ⟨best', hbest', hmost⟩ := hinv.best
  cases hbest.symm.trans hbest'
  have hne : best ≠ i := by
    rintro rfl
    exact hanc (Forest.Anc.refl best)
  refine ⟨hinv.closed, hinv.work, best, ?_, eligible_markInvalid.mpr ⟨hmost.eligible, hanc⟩, ?_⟩
  · simp [Server.markInvalid, hbest, hne]
  · intro j hj
    exact hmost.most j (eligible_markInvalid.mp hj).1

theorem BestInv.failed (hinv : BestInv h (createBlockIndex h.links i s))
    (hkeeps : FailKeeps h.links i s) :
    BestInv h (Server.markInvalid i (createBlockIndex h.links i s)) := by
  obtain ⟨best, hbest, hanc, hwork⟩ := hkeeps
  have hsame : (createBlockIndex h.links i s).pindexBestHeader = some best := by
    by_cases hknown : s.known i = true
    · rw [createBlockIndex, if_pos hknown, hbest]
    · have hle := hwork.resolve_left hknown
      rw [createBlockIndex_bestHeader h.links (by simpa using hknown) hbest,
        if_neg (Nat.not_lt.mpr hle)]
  exact hinv.markInvalid hsame hanc

/-! ## Blocks that are committed -/

/-- A commit whose calls succeed moves the best header unless the new block is a child of the best
    one. -/
theorem commitFin_bestHeader (t : BlockLinks ι) (pbest : ι) {new : ι} {w : CommitWalk σ ι}
    (hlast : w.pindexLast = new) (hfail : w.pindexFail = none) :
    (commitFin t pbest new w).pindexBestHeader =
      if t.parent new = some pbest then w.state.pindexBestHeader else some new := by
  unfold commitFin
  rw [hlast, hfail]
  by_cases hp : t.parent new = some pbest
  · rw [if_neg (not_not.mpr hp), if_pos hp]
  · rw [if_pos hp, if_neg hp]

/-- **What accepting a connectable block does to the best header.** -/
theorem Connectable.marks {c d : List ι} (h : Connectable t calls i s c d) (checks : BlockChecks)
    (hs : HeaderAccepted s s' i) :
    MarksKept s' (setBestChain t calls i (markReceived checks i s')).2 ∧
      (setBestChain t calls i (markReceived checks i s')).2.pindexBestHeader =
        if t.parent i = some s.pindexBest then s'.pindexBestHeader else some i := by
  obtain ⟨store, hdisc, hconn⟩ := h.calls
  obtain ⟨store', hconn⟩ := isSome_iff_exists.mp hconn
  rw [← archiveNew_received_store calls checks hs] at hdisc
  have hp := h.proceeds checks hs
  obtain ⟨f, _, hc, hd⟩ := getCommitBranches_spec hp.branches
  set s₁ := markReceived checks i s'
  have hdone := commitWalk_done hp.enabled hc (s := archiveNew t calls i s₁)
    (by rw [archiveNew_best]; exact hd) hdisc hconn
  have hwalk : WalkMoves d s₁ _ :=
    (archiveNew_moves t calls i s₁).trans (commitWalk_moves t calls i c d _)
  have hkept := (MarksKept.markReceived checks i s').trans
    (hwalk.marks.trans (.commitFin t s₁.pindexBest i hdone.fail))
  have hset : (setBestChain t calls i s₁).2 =
      { commitFin t s₁.pindexBest i (commitWalk t calls i c d (archiveNew t calls i s₁)) with
        bnBestChainWork := t.bnChainWork i } := by
    simp [setBestChain, hp.eq, hdone.fail]
  rw [hset]
  refine ⟨⟨hkept.failedValid, hkept.failedChild, hkept.known⟩, ?_⟩
  have hbest : s₁.pindexBest = s.pindexBest := hs.best
  show (commitFin t s₁.pindexBest i _).pindexBestHeader = _
  rw [commitFin_bestHeader t s₁.pindexBest hdone.last hdone.fail, hwalk.bestHeader, hbest]
  rfl

theorem HeaderPasses.eligible {i p : ι} (hpass : HeaderPasses t checks i s)
    (hp : t.parent i = some p) (hclosed : ParentsKnown t s) (hprev : ParentUnmarked t s i) :
    Eligible t (createBlockIndex t i s) i := by
  have hpassed := hpass p hp
  by_cases hknown : s.known i = true
  · rw [if_pos hknown] at hpassed
    rw [createBlockIndex, if_pos hknown]
    refine ⟨hknown, fun a ha => ?_⟩
    rcases (Forest.anc_iff_of_parent hp).mp ha with rfl | ha
    · exact (Bool.or_eq_false_iff.mp hpassed).1
    · exact hprev p hp a ha
  · exact eligible_create_self hclosed (by simpa using hknown)
      (fun q hq => hpass.parent_known hclosed hq) hprev

theorem createBlockIndex_bestHeader_le {i best best' : ι} (hbest : s.pindexBestHeader = some best)
    (hle : t.bnChainWork best ≤ t.bnChainWork i)
    (hbest' : (createBlockIndex t i s).pindexBestHeader = some best') :
    t.bnChainWork best' ≤ t.bnChainWork i := by
  by_cases hknown : s.known i = true
  · rw [createBlockIndex, if_pos hknown] at hbest'
    cases hbest.symm.trans hbest'
    exact hle
  · rw [createBlockIndex_bestHeader t (by simpa using hknown) hbest] at hbest'
    split_ifs at hbest'
    · cases hbest'
      exact le_rfl
    · cases hbest'
      exact hle

theorem BestInv.committed {i p : ι} (hclosed : ParentsKnown h.links s)
    (hinv : BestInv h (createBlockIndex h.links i s)) (hpass : HeaderPasses h.links checks i s)
    (hp : h.links.parent i = some p) (hkeeps : CommitKeeps h.links calls i s) :
    BestInv h
      (setBestChain h.links calls i (markReceived checks i (createBlockIndex h.links i s))).2 := by
  obtain ⟨⟨c, d, hconn⟩, hwhere⟩ := hkeeps
  obtain ⟨hkept, hbest⟩ := hconn.marks checks (hpass.accepted hp)
  refine hinv.of_marks hkept ?_
  rw [hbest]
  split_ifs with hchild
  · exact hinv.best
  · obtain ⟨hprev, best, hsome, hle⟩ := hwhere.resolve_left hchild
    obtain ⟨best', hsome', hmost⟩ := hinv.best
    refine ⟨i, rfl, hpass.eligible hp hclosed hprev, fun j hj => ?_⟩
    exact (hmost.most j hj).trans (createBlockIndex_bestHeader_le hsome hle hsome')

/-! ## Steps and runs -/

theorem acceptBlock_unchecked (h : ¬ BodyChecked t checks i s) :
    (acceptBlock t checks calls i s).2 = s := by
  rcases acceptBlock_stops_or_opens t checks calls i s with hstops | ⟨s', ho⟩
  · rw [hstops]
  obtain ⟨hpass, rfl⟩ := coreAcceptBlockHeader_eq_some ho.header
  -- only a known block has data
  have hdata : s.known i = true ∧ (s.nStatus i).haveData = true := by
    by_contra hno
    refine h ⟨ho.parent, ho.accept, ho.inputs, hpass, fun hknown => ?_⟩
    have hflag : (s.nStatus i).haveData = false := by simpa [hknown] using hno
    exact hflag
  rw [ho.acceptBlock_eq, acceptBody, createBlockIndex, if_pos hdata.1, if_pos hdata.2]

theorem acceptBlock_checked (calls : BlockCalls σ ι) (h : BodyChecked t checks i s) :
    (acceptBlock t checks calls i s).2 =
      if checks.block && checks.blockContext then
        if t.bnChainWork i ≤ s.bnBestChainWork then
          keepUndo calls i i (markReceived checks i (createBlockIndex t i s))
        else (setBestChain t calls i (markReceived checks i (createBlockIndex t i s))).2
      else markInvalid i (createBlockIndex t i s) := by
  obtain ⟨p, hp, -⟩ := h.parent
  have hs := h.header.accepted hp
  have hdata : ((createBlockIndex t i s).nStatus i).haveData = false := by
    by_cases hknown : s.known i = true
    · rw [createBlockIndex, if_pos hknown]
      exact h.noData hknown
    · exact createBlockIndex_noData t hknown
  have hwork : (createBlockIndex t i s).bnBestChainWork = s.bnBestChainWork := hs.work
  have ho : Opens t checks i s (createBlockIndex t i s) :=
    ⟨h.parent, h.accept, h.inputs, coreAcceptBlockHeader_passes h.header⟩
  rw [ho.acceptBlock_eq, acceptBody, hdata, if_neg Bool.false_ne_true, hwork]
  cases checks.block with
  | false => rfl
  | true =>
    cases checks.blockContext with
    | false => rfl
    | true =>
      simp only [Bool.not_true, Bool.false_eq_true, if_false, Bool.and_true, if_true]
      split_ifs <;> rfl

/-- **One step keeps the best header**, under its condition. -/
theorem chainStep_bestInv (op : ChainOp σ ι) (hok : StepKeepsBest h s op) (hinv : BestInv h s) :
    BestInv h (chainStep h.links s op) := by
  cases op with
  | header i checks =>
    show BestInv h ((coreAcceptBlockHeader h.links checks i s).getD s)
    by_cases hpass : HeaderPasses h.links checks i s
    · rw [coreAcceptBlockHeader_passes hpass]
      exact hinv.create hpass (hok hpass)
    · rw [coreAcceptBlockHeader_refuses hpass]
      exact hinv
  | block i checks calls =>
    show BestInv h (acceptBlock h.links checks calls i s).2
    by_cases hbody : BodyChecked h.links checks i s
    · obtain ⟨hheader, hrest⟩ := hok hbody
      obtain ⟨p, hp, -⟩ := hbody.parent
      have hcreate := hinv.create hbody.header hheader
      rw [acceptBlock_checked calls hbody]
      split_ifs at hrest ⊢ with hchecks hwork
      · have hundo := keepUndo_moves (d := []) calls i i
          (markReceived checks i (createBlockIndex h.links i s))
        refine hcreate.of_marks ((MarksKept.markReceived checks i _).trans hundo.marks) ?_
        rw [hundo.bestHeader]
        exact hcreate.best
      · exact BestInv.committed hinv.closed hcreate hbody.header hp (hrest.resolve_left hwork)
      · exact hcreate.failed hrest
    · rw [acceptBlock_unchecked hbody]
      exact hinv

/-- **The best header over runs.** From a state with the right best header on, while every step
    meets its condition, the work of a chain grows with every block and the best header has the most
    work among the headers without an invalid block. -/
theorem best_header_of_steps (h : HeaderTree ι) {s₀ : ChainState σ ι} (h₀ : BestHeaderOk h s₀)
    (hclosed : ParentsKnown h.links s₀) (ops : List (ChainOp σ ι))
    (hok : StepsOk (fun s op => some (chainStep h.links s op)) (StepKeepsBest h) s₀ ops) :
    BestHeaderOk h (ops.foldl (chainStep h.links) s₀) := by
  have hinit : BestInv h s₀ := ⟨hclosed, fun i hi => (h₀.work i hi).2, h₀.best⟩
  exact (foldl_invariant (fun s op hok hinv => chainStep_bestInv op hok hinv) hok hinit).ok

/-! ## Two headers -/

def twoHeaders : HeaderTree SampleBlock where
  toForest := twoChildren.toForest
  pskip := twoChildren.pskip
  nVersion _ := 1
  nTime _ := 0
  nBits i := if i = .second then 0x1d80ffff else 0x1d00ffff

def genesisHeader : ChainState Unit SampleBlock :=
  { genesisOnly with bnBestChainWork := twoHeaders.links.bnChainWork .genesis }

theorem genesisHeader_known {i : SampleBlock} (hi : genesisHeader.known i = true) :
    i = .genesis := by
  simpa [genesisHeader, genesisOnly] using hi

theorem genesisHeader_ok : BestHeaderOk twoHeaders genesisHeader := by
  have hpos : 0 < twoHeaders.blockWork .genesis := by decide
  refine BestInv.ok ⟨?_, ?_, .genesis, rfl, ⟨rfl, fun _ _ => rfl⟩, ?_⟩
  · intro i p hp hi
    rw [genesisHeader_known hi] at hp
    cases hp
  · intro i hi
    rw [genesisHeader_known hi]
    exact hpos
  · intro i hi
    rw [genesisHeader_known hi.known]

theorem genesisHeader_closed : ParentsKnown twoHeaders.links genesisHeader := by
  intro i p hp hi
  rw [genesisHeader_known hi] at hp
  cases hp

theorem first_child_keeps_best : StepKeepsBest twoHeaders genesisHeader (validBlock .first) := by
  intro _
  refine ⟨fun _ => ⟨by decide, .inl fun p _ a _ => rfl⟩, .inr ⟨?_, .inl rfl⟩⟩
  refine ⟨[.first], [], ?_, rfl, ?_, ?_, ?_, ?_, (), rfl, rfl⟩
  all_goals decide

theorem first_child_is_best_header :
    BestHeaderOk twoHeaders
      ([validBlock .first].foldl (chainStep twoHeaders.links) genesisHeader) :=
  best_header_of_steps twoHeaders genesisHeader_ok genesisHeader_closed [validBlock .first]
    ⟨first_child_keeps_best, trivial⟩

/-- A block that comes with a header that passes and a body that does not. -/
def invalidBody (i : SampleBlock) : ChainOp Unit SampleBlock :=
  .block i ⟨true, true, true, true, false, true, false⟩
    ⟨true, fun _ _ => true, fun _ s => (true, s), fun _ s => (true, s), fun _ s => (true, s),
      fun _ _ s => s⟩

def negativeTarget : Wire.CBlockHeader where
  nVersion := 1
  hashPrevBlock := 1
  hashMerkleRoot := 0
  nTime := 0
  nBits := twoHeaders.nBits .second
  nNonce := 0

/-- There is no best header once its body is found invalid. A header with a negative target passes
    `CheckBlockHeader` and adds no work. -/
theorem invalid_body_unsets_best_header :
    BestHeaderOk twoHeaders genesisHeader ∧ ParentsKnown twoHeaders.links genesisHeader ∧
    (chainStep twoHeaders.links genesisHeader (invalidBody .first)).pindexBestHeader = none ∧
    ¬ BestHeaderOk twoHeaders (chainStep twoHeaders.links genesisHeader (invalidBody .first)) ∧
    Wire.checkBlockHeader Wire.checkEnvSample true negativeTarget = true ∧
    ¬ BestHeaderOk twoHeaders (chainStep twoHeaders.links genesisHeader
      (.header .second ⟨true, true, true, true, true, true, false⟩)) := by
  have hnone : (chainStep twoHeaders.links genesisHeader
      (invalidBody .first)).pindexBestHeader = none := rfl
  refine ⟨genesisHeader_ok, genesisHeader_closed, hnone, ?_, rfl, ?_⟩
  · intro hok
    obtain ⟨best, hbest, -⟩ := hok.best
    rw [hnone] at hbest
    cases hbest
  · intro hok
    have hpos := (hok.work .second rfl).2
    exact absurd hpos (by decide)

end ShareCoin.Server
