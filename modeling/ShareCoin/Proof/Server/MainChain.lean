import ShareCoin.Server.Accept
import ShareCoin.Proof.Server.Commit
import ShareCoin.Lib.Run

/-!
# The main-chain flag

`BLOCK_HAVE_DATA` is set on every valid block that arrives and again on every block that is
connected; only a disconnect clears it. So a block keeps the flag that is accepted but not
connected: one whose chain has too little work, and one whose commit fails.

Where each new valid block has more work than the best chain and its commit succeeds, the flag is
that of the main chain, and this module shows it for every run.
-/

namespace ShareCoin.Server

open Lib List Option

variable {σ ι : Type} [DecidableEq ι]

/-! ## What each step does to the flag -/

theorem isInMainChain_setStatus (s : ChainState σ ι) (i j : ι) (nStatus : BlockStatus) :
    isInMainChain (s.setStatus i nStatus) j =
      if j = i then nStatus.haveData else isInMainChain s j := by
  unfold isInMainChain ChainState.setStatus
  by_cases h : j = i
  · simp [h]
  · simp [h]

theorem isInMainChain_keepUndo (calls : BlockCalls σ ι) (new i j : ι) (s : ChainState σ ι) :
    isInMainChain (keepUndo calls new i s) j = isInMainChain s j := by
  unfold keepUndo
  dsimp only
  split_ifs
  · rw [isInMainChain_setStatus]
    split_ifs with h
    · rw [h]
      rfl
    · rfl
  · rfl

theorem isInMainChain_archiveNew (t : BlockLinks ι) (calls : BlockCalls σ ι) (new j : ι)
    (s : ChainState σ ι) : isInMainChain (archiveNew t calls new s) j = isInMainChain s j := by
  unfold archiveNew
  split_ifs
  · exact isInMainChain_keepUndo calls new new j s
  · rfl

@[simp] theorem archiveNew_known (t : BlockLinks ι) (calls : BlockCalls σ ι) (new : ι)
    (s : ChainState σ ι) : (archiveNew t calls new s).known = s.known := by
  simp only [archiveNew, keepUndo, ChainState.setStatus]
  split_ifs <;> rfl

theorem isInMainChain_raiseValidity (nStatus : BlockStatus) (nUpTo : Nat) :
    (nStatus.raiseValidity nUpTo).haveData = nStatus.haveData := by
  unfold BlockStatus.raiseValidity
  split_ifs <;> rfl

theorem isInMainChain_markReceived (checks : BlockChecks) (i j : ι) (s : ChainState σ ι) :
    isInMainChain (markReceived checks i s) j = (decide (j = i) || isInMainChain s j) := by
  unfold markReceived
  rw [isInMainChain_setStatus, isInMainChain_raiseValidity]
  split_ifs with h <;> simp [h]

theorem isInMainChain_markInvalid (i j : ι) (s : ChainState σ ι) :
    isInMainChain (markInvalid i s) j = isInMainChain s j := by
  have h : isInMainChain (markInvalid i s) j =
      isInMainChain (s.setStatus i { s.nStatus i with failedValid := true }) j := rfl
  rw [h, isInMainChain_setStatus]
  split_ifs with h
  · rw [h]
    rfl
  · rfl

variable {calls : BlockCalls σ ι}

theorem isInMainChain_coreDisconnectBlock (henabled : calls.enabled = true)
    (i j : ι) (s : ChainState σ ι) :
    isInMainChain (coreDisconnectBlock calls i s).2 j = (decide (j ≠ i) && isInMainChain s j) := by
  have h : isInMainChain (coreDisconnectBlock calls i s).2 j =
      isInMainChain (s.setStatus i { s.nStatus i with haveData := false }) j := by
    simp [coreDisconnectBlock, henabled, isInMainChain, ChainState.setStatus]
  rw [h, isInMainChain_setStatus]
  split_ifs with h <;> simp [h]

theorem coreDisconnectBlock_call (henabled : calls.enabled = true) (i : ι) (s : ChainState σ ι) :
    (coreDisconnectBlock calls i s).1 = (calls.disconnectInputs i s.store).1 ∧
      (coreDisconnectBlock calls i s).2.store = (calls.disconnectInputs i s.store).2 := by
  simp [coreDisconnectBlock, henabled, ChainState.setStatus]

/-! ## A commit whose calls succeed -/

def disconnectAll (calls : BlockCalls σ ι) (new : ι) : List ι → σ → Option σ
  | [], store => some store
  | i :: l, store =>
    if (calls.disconnectInputs i store).1 then
      disconnectAll calls new l (calls.writeArchBlock new (calls.disconnectInputs i store).2).2
    else none

@[simp] theorem keepUndo_store (calls : BlockCalls σ ι) (new i : ι) (s : ChainState σ ι) :
    (keepUndo calls new i s).store = (calls.writeArchBlock new s.store).2 := by
  simp only [keepUndo, ChainState.setStatus]
  split_ifs <;> rfl

@[simp] theorem keepUndo_known (calls : BlockCalls σ ι) (new i : ι) (s : ChainState σ ι) :
    (keepUndo calls new i s).known = s.known := by
  simp only [keepUndo, ChainState.setStatus]
  split_ifs <;> rfl

/-- What a walk whose calls all succeed leaves. -/
structure WalkDone (w w' : CommitWalk σ ι) (store : σ) (last : ι) (flag : ι → Bool) : Prop where
  fail : w'.pindexFail = none
  store : w'.state.store = store
  last : w'.pindexLast = last
  known : w'.state.known = w.state.known
  flag : ∀ j, isInMainChain w'.state j = flag j

variable {t : BlockLinks ι} {new i : ι} {store : σ} {w : CommitWalk σ ι}

theorem disconnectWalk_done {f : ι} {l : List ι} (henabled : calls.enabled = true)
    (hb : t.Branch f i l) (hlast : w.pindexLast = i) (hfail : w.pindexFail = none)
    (hall : disconnectAll calls new l w.state.store = some store) :
    WalkDone w (disconnectWalk t calls new l w) store f
      (fun j => decide (j ∉ l) && isInMainChain w.state j) := by
  induction hb generalizing w with
  | nil =>
    cases hall
    exact ⟨hfail, rfl, hlast, rfl, fun j => by simp [disconnectWalk]⟩
  | @cons i j l hp hl ih =>
    obtain ⟨hcall, hstore⟩ := coreDisconnectBlock_call henabled i w.state
    rw [disconnectAll] at hall
    split_ifs at hall with hok
    unfold disconnectWalk
    rw [if_pos (hcall.trans hok)]
    have hnext := ih
      (w := w.disconnected t i (keepUndo calls new i (coreDisconnectBlock calls i w.state).2))
      (by simp [CommitWalk.disconnected, hp]) rfl
      (by simpa [CommitWalk.disconnected, hstore] using hall)
    refine ⟨hnext.fail, hnext.store, hnext.last, ?_, ?_⟩
    · rw [hnext.known]
      simp [CommitWalk.disconnected, coreDisconnectBlock, henabled, ChainState.setStatus]
    · intro x
      rw [hnext.flag]
      simp only [CommitWalk.disconnected, isInMainChain_keepUndo,
        isInMainChain_coreDisconnectBlock henabled, mem_cons, not_or]
      by_cases h₁ : x = i <;> by_cases h₂ : x ∈ l <;> simp [h₁, h₂]

theorem connectWalk_done (calls : BlockCalls σ ι) {l : List ι} (hfail : w.pindexFail = none)
    (hall : connectAll calls l w.state.store = some store) :
    WalkDone w (connectWalk calls l w) store (l.getLast?.getD w.pindexLast)
      (fun j => decide (j ∈ l) || isInMainChain w.state j) := by
  induction l generalizing w with
  | nil =>
    cases hall
    exact ⟨hfail, rfl, rfl, rfl, fun j => by simp [connectWalk]⟩
  | cons i l ih =>
    rw [connectAll] at hall
    split_ifs at hall with hok
    unfold connectWalk
    rw [if_pos hok]
    have hnext := ih
      (w := w.connected i
        ({ w.state with store := (calls.connectBlock i w.state.store).2 }.setHaveData i)) rfl
      (by simpa [CommitWalk.connected, ChainState.setHaveData, ChainState.setStatus] using hall)
    refine ⟨hnext.fail, hnext.store, ?_, hnext.known, ?_⟩
    · rw [hnext.last, getLast?_cons]
      rfl
    · intro x
      rw [hnext.flag]
      simp only [CommitWalk.connected, ChainState.setHaveData, isInMainChain_setStatus, mem_cons]
      by_cases h₁ : x = i <;> by_cases h₂ : x ∈ l <;> simp [h₁, h₂, isInMainChain]

/-- What is left of a commit whose calls all succeed. -/
structure Committed (s s' : ChainState σ ι) (new : ι) (c d : List ι) : Prop where
  best : s'.pindexBest = new
  known : s'.known = s.known
  flag : ∀ j, isInMainChain s' j = (decide (j ∈ c) || (decide (j ∉ d) && isInMainChain s j))

theorem commitFin_done (t : BlockLinks ι) (pbest : ι) (hlast : w.pindexLast = new)
    (hfail : w.pindexFail = none) :
    (commitFin t pbest new w).pindexBest = new ∧ (commitFin t pbest new w).known = w.state.known ∧
      ∀ j, isInMainChain (commitFin t pbest new w) j = isInMainChain w.state j := by
  unfold commitFin
  rw [hfail]
  split_ifs
  · exact ⟨hlast, rfl, fun _ => rfl⟩
  · exact ⟨rfl, rfl, fun _ => rfl⟩

variable {s s' : ChainState σ ι} {c d : List ι}

theorem commitWalk_done {f : ι} {store' : σ} (henabled : calls.enabled = true)
    (hc : t.Branch f new c.reverse) (hd : t.Branch f s.pindexBest d)
    (hdisc : disconnectAll calls new d s.store = some store)
    (hconn : connectAll calls c store = some store') :
    WalkDone (.start s) (commitWalk t calls new c d s) (calls.settlePool d c store') new
      (fun j => decide (j ∈ c) || (decide (j ∉ d) && isInMainChain s j)) := by
  have h₁ := disconnectWalk_done (w := .start s) henabled hd rfl rfl hdisc
  have h₂ := connectWalk_done calls h₁.fail (h₁.store.symm ▸ hconn)
  unfold commitWalk
  simp only [h₁.fail, h₂.fail, isSome_none, Bool.false_eq_true, if_false]
  refine ⟨rfl, congrArg _ h₂.store, ?_, h₂.known.trans h₁.known, ?_⟩
  · have hsplit := (branch_split c [] (by rwa [append_nil])).1
    exact h₂.last.trans (h₁.last.symm ▸ hsplit.eq_of_nil.symm)
  · intro j
    exact (h₂.flag j).trans (by rw [h₁.flag]; rfl)

theorem coreCommitBlock_done {store' : σ} (hp : CommitProceeds t calls new s c d)
    (hdisc : disconnectAll calls new d (archiveNew t calls new s).store = some store)
    (hconn : connectAll calls c store = some store') :
    (coreCommitBlock t calls new s).1 = true ∧
      Committed s (coreCommitBlock t calls new s).2.1 new c d := by
  obtain ⟨f, _, hc, hd⟩ := getCommitBranches_spec hp.branches
  have hdone := commitWalk_done hp.enabled hc (s := archiveNew t calls new s)
    (by rw [archiveNew_best]; exact hd) hdisc hconn
  obtain ⟨hbest, hknown, hflag⟩ := commitFin_done t s.pindexBest hdone.last hdone.fail
  rw [hp.eq]
  refine ⟨by simp [hdone.fail], hbest, ?_, ?_⟩
  · rw [hknown, hdone.known]
    exact archiveNew_known t calls new s
  · intro j
    rw [hflag, hdone.flag, isInMainChain_archiveNew]

/-! ## The invariant -/

/-- **The flag is that of the main chain**; what has it is known, and so is every ancestor of what
    is known. -/
structure MainChainInv (t : BlockLinks ι) (s : ChainState σ ι) : Prop where
  flag : ∀ i, isInMainChain s i = true ↔ t.Anc i s.pindexBest
  known : ∀ i, isInMainChain s i = true → s.known i = true
  closed : ∀ {i p}, t.parent i = some p → s.known i = true → s.known p = true

omit [DecidableEq ι] in
theorem IsInitial.inv (h : IsInitial t s) : MainChainInv t s := by
  refine ⟨?_, ?_, ?_⟩
  · intro i
    rw [Forest.anc_iff_of_root h.root]
    exact h.haveData i
  · intro i hi
    exact (h.known i).mpr ((h.haveData i).mp hi)
  · intro i p hp hi
    rw [(h.known i).mp hi, h.root] at hp
    cases hp

omit [DecidableEq ι] in
theorem MainChainInv.of_same (h : MainChainInv t s)
    (hbest : s'.pindexBest = s.pindexBest) (hknown : s'.known = s.known)
    (hflag : ∀ j, isInMainChain s' j = isInMainChain s j) : MainChainInv t s' := by
  refine ⟨?_, ?_, ?_⟩
  · intro i
    rw [hflag, hbest]
    exact h.flag i
  · intro i hi
    rw [hknown]
    exact h.known i (hflag i ▸ hi)
  · intro i p hp hi
    rw [hknown] at hi ⊢
    exact h.closed hp hi

theorem isInMainChain_createBlockIndex (h : MainChainInv t s) (i j : ι) :
    isInMainChain (createBlockIndex t i s) j = isInMainChain s j := by
  unfold createBlockIndex
  split_ifs with hknown
  · rfl
  · refine Eq.trans (isInMainChain_setStatus s i j .fresh) ?_
    split_ifs with hji
    · -- a block that is not known has no flag
      subst hji
      have hflag : ¬ isInMainChain s j = true := fun hi => hknown (h.known j hi)
      rw [Bool.not_eq_true] at hflag
      exact hflag.symm
    · rfl

theorem createBlockIndex_known (t : BlockLinks ι) (s : ChainState σ ι) (i j : ι) :
    (createBlockIndex t i s).known j = true ↔ j = i ∨ s.known j = true := by
  unfold createBlockIndex
  split_ifs with hi
  · refine ⟨.inr, ?_⟩
    rintro (rfl | hj)
    · exact hi
    · exact hj
  · by_cases hji : j = i <;> simp [hji]

def ParentsKnown (t : BlockLinks ι) (s : ChainState σ ι) : Prop :=
  ∀ i p, t.parent i = some p → s.known i = true → s.known p = true

omit [DecidableEq ι] in
theorem ParentsKnown.anc (h : ParentsKnown t s) {a : ι}
    (ha : t.Anc a i) (hi : s.known i = true) : s.known a = true := by
  obtain ⟨k, hk⟩ := ha
  induction k generalizing i with
  | zero =>
    cases hk
    exact hi
  | succ k ih =>
    obtain ⟨p, hp, hk⟩ := bind_eq_some_iff.mp hk
    exact ih (h i p hp hi) hk

theorem ParentsKnown.create (h : ParentsKnown t s)
    (hp : ∀ p, t.parent i = some p → s.known p = true) :
    ParentsKnown t (createBlockIndex t i s) := by
  intro j p hjp hj
  refine (createBlockIndex_known t s i p).mpr (.inr ?_)
  rcases (createBlockIndex_known t s i j).mp hj with rfl | hj
  · exact hp p hjp
  · exact h j p hjp hj

omit [DecidableEq ι] in
theorem MainChainInv.parentsKnown (h : MainChainInv t s) :
    ParentsKnown t s := fun _ _ hp hi => h.closed hp hi

theorem MainChainInv.create (h : MainChainInv t s)
    (hp : ∀ p, t.parent i = some p → s.known p = true) :
    MainChainInv t (createBlockIndex t i s) := by
  have hflag := isInMainChain_createBlockIndex h i
  have hknown := createBlockIndex_known t s i
  have hbest : (createBlockIndex t i s).pindexBest = s.pindexBest := by
    unfold createBlockIndex
    split_ifs <;> rfl
  refine ⟨?_, ?_, ?_⟩
  · intro j
    rw [hflag, hbest]
    exact h.flag j
  · intro j hj
    exact (hknown j).mpr (.inr (h.known j (hflag j ▸ hj)))
  · intro j p hjp hj
    exact h.parentsKnown.create hp j p hjp hj

/-- What accepting a header leaves as it was, and what it makes sure of. -/
structure HeaderAccepted (s s' : ChainState σ ι) (i : ι) : Prop where
  best : s'.pindexBest = s.pindexBest
  store : s'.store = s.store
  work : s'.bnBestChainWork = s.bnBestChainWork
  others : ∀ j, j ≠ i → s'.nStatus j = s.nStatus j
  valid : (s'.nStatus i).failed = false
  known : s'.known i = true

theorem HeaderAccepted.create (t : BlockLinks ι)
    (h : ¬ s.known i = true) : HeaderAccepted s (createBlockIndex t i s) i := by
  unfold createBlockIndex
  rw [if_neg h]
  refine ⟨rfl, rfl, rfl, ?_, ?_, ?_⟩
  · intro j hj
    simp [ChainState.setStatus, hj]
  · simp [ChainState.setStatus, BlockStatus.fresh, BlockStatus.failed]
  · simp

/-- A header that is accepted: it is known and not marked, or the checks on it pass. -/
def HeaderPasses (t : BlockLinks ι) (checks : BlockChecks) (i : ι) (s : ChainState σ ι) : Prop :=
  ∀ p, t.parent i = some p →
    if s.known i then (s.nStatus i).failed = false
    else s.known p = true ∧ (s.nStatus p).failed = false ∧ checks.header = true ∧
      checks.headerContext = true

variable {checks : BlockChecks} {p : ι}

theorem coreAcceptBlockHeader_passes (h : HeaderPasses t checks i s) :
    coreAcceptBlockHeader t checks i s = some (createBlockIndex t i s) := by
  unfold coreAcceptBlockHeader
  cases hp : t.parent i with
  | none => rfl
  | some p =>
    have hpass := h p hp
    split_ifs at hpass with hknown
    · simp [hknown, hpass, createBlockIndex]
    · obtain ⟨hprev, hvalid, hheader, hcontext⟩ := hpass
      simp [hknown, hprev, hvalid, hheader, hcontext]

theorem coreAcceptBlockHeader_refuses (h : ¬ HeaderPasses t checks i s) :
    coreAcceptBlockHeader t checks i s = none := by
  unfold coreAcceptBlockHeader
  cases hp : t.parent i with
  | none =>
    refine absurd ?_ h
    intro p hp'
    rw [hp] at hp'
    cases hp'
  | some p =>
    dsimp only
    split_ifs with hknown hfailed hprev hprevFailed hheader hcontext
    · rfl
    · exact absurd (fun q _ => by simpa [hknown] using hfailed) h
    · rfl
    · rfl
    · rfl
    · rfl
    · refine absurd (fun q hq => ?_) h
      cases hp.symm.trans hq
      rw [if_neg hknown]
      exact ⟨by simpa using hprev, by simpa using hprevFailed, by simpa using hheader,
        by simpa using hcontext⟩

/-- **What an accepted header is**: its checks pass, and it is indexed. -/
theorem coreAcceptBlockHeader_eq_some (h : coreAcceptBlockHeader t checks i s = some s') :
    HeaderPasses t checks i s ∧ s' = createBlockIndex t i s := by
  by_cases hpass : HeaderPasses t checks i s
  · rw [coreAcceptBlockHeader_passes hpass] at h
    exact ⟨hpass, (some.inj h).symm⟩
  · rw [coreAcceptBlockHeader_refuses hpass] at h
    cases h

theorem HeaderPasses.accepted (hpass : HeaderPasses t checks i s) (hp : t.parent i = some p) :
    HeaderAccepted s (createBlockIndex t i s) i := by
  by_cases hknown : s.known i = true
  · have hvalid := hpass p hp
    rw [if_pos hknown] at hvalid
    rw [createBlockIndex, if_pos hknown]
    exact ⟨rfl, rfl, rfl, fun _ _ => rfl, hvalid, hknown⟩
  · exact HeaderAccepted.create t hknown

omit [DecidableEq ι] in
theorem HeaderPasses.parent_known (hpass : HeaderPasses t checks i s) (hclosed : ParentsKnown t s)
    (hp : t.parent i = some p) : s.known p = true := by
  have hpassed := hpass p hp
  split_ifs at hpassed with hknown
  · exact hclosed i p hp hknown
  · exact hpassed.1

theorem coreAcceptBlockHeader_spec (hinv : MainChainInv t s)
    (h : coreAcceptBlockHeader t checks i s = some s') :
    MainChainInv t s' ∧ (∀ j, isInMainChain s' j = isInMainChain s j) ∧
      (t.parent i ≠ none → HeaderAccepted s s' i) := by
  obtain ⟨hpass, rfl⟩ := coreAcceptBlockHeader_eq_some h
  refine ⟨hinv.create fun p hp => hpass.parent_known hinv.parentsKnown hp,
    isInMainChain_createBlockIndex hinv i, fun hne => ?_⟩
  obtain ⟨p, hp⟩ := ne_none_iff_exists'.mp hne
  exact hpass.accepted hp

/-- The header of the block is accepted, and what is looked at before it passes. -/
structure Opens (t : BlockLinks ι) (checks : BlockChecks) (i : ι) (s s' : ChainState σ ι) :
    Prop where
  parent : ∃ p, t.parent i = some p ∧ s.known p = true
  accept : checks.accept = true
  inputs : checks.inputs = true
  header : coreAcceptBlockHeader t checks i s = some s'

/-- What `core_AcceptBlock` does with the body then. -/
def acceptBody (t : BlockLinks ι) (checks : BlockChecks) (calls : BlockCalls σ ι) (i : ι)
    (s : ChainState σ ι) : Bool × ChainState σ ι :=
  if (s.nStatus i).haveData then (true, s)
  else if ! checks.block then (false, markInvalid i s)
  else if ! checks.blockContext then (false, markInvalid i s)
  else if t.bnChainWork i ≤ s.bnBestChainWork then
    (true, keepUndo calls i i (markReceived checks i s))
  else setBestChain t calls i (markReceived checks i s)

theorem Opens.acceptBlock_eq (h : Opens t checks i s s') (calls : BlockCalls σ ι) :
    acceptBlock t checks calls i s = acceptBody t checks calls i s' := by
  obtain ⟨p, hp, hknown⟩ := h.parent
  simp only [acceptBlock, hp, hknown, h.accept, h.inputs, h.header, Bool.not_true,
    Bool.false_eq_true, if_false]
  rfl

theorem acceptBlock_stops_or_opens (t : BlockLinks ι) (checks : BlockChecks)
    (calls : BlockCalls σ ι) (i : ι) (s : ChainState σ ι) :
    acceptBlock t checks calls i s = (false, s) ∨ ∃ s', Opens t checks i s s' := by
  by_contra hno
  push Not at hno
  obtain ⟨hgoes, hopens⟩ := hno
  unfold acceptBlock at hgoes
  cases hp : t.parent i with
  | none => simp [hp] at hgoes
  | some p =>
    cases hheader : coreAcceptBlockHeader t checks i s with
    | none => simp [hp, hheader] at hgoes
    | some s' =>
      refine hopens s' ⟨⟨p, hp, ?_⟩, ?_, ?_, hheader⟩
      all_goals
        by_contra hfalse
        simp [hp, hfalse] at hgoes

section

variable (t : BlockLinks ι)

theorem createBlockIndex_noData (h : ¬ s.known i = true) :
    ((createBlockIndex t i s).nStatus i).haveData = false := by
  simp [createBlockIndex, h, ChainState.setStatus, BlockStatus.fresh]

/-! ## Runs -/

/-- A block that is received and found valid, and did not have the flag before. -/
structure Receives (checks : BlockChecks) (i : ι) (s : ChainState σ ι) : Prop where
  parent : ∃ p, t.parent i = some p ∧ s.known p = true
  accept : checks.accept = true
  inputs : checks.inputs = true
  unflagged : isInMainChain s i = false
  header : (coreAcceptBlockHeader t checks i s).isSome = true
  block : checks.block = true
  blockContext : checks.blockContext = true

/-- **The block makes it to the top**: its chain has more work than the best one, the blocks on the
    way are valid and at hand, and every call on them succeeds. -/
structure Connectable (calls : BlockCalls σ ι) (i : ι) (s : ChainState σ ι) (c d : List ι) :
    Prop where
  work : s.bnBestChainWork < t.bnChainWork i
  enabled : calls.enabled = true
  branches : getCommitBranches t s.pindexBest i = some (c, d)
  valid : ∀ j ∈ c, j ≠ i → (s.nStatus j).failed = false
  data : ∀ j ∈ c, j ≠ i → (s.nStatus j).haveData = true ∨ (s.nStatus j).haveUndo = true
  readable : blocksReadable calls (archiveNew t calls i s) i c d = true
  calls : ∃ store, disconnectAll calls i d (archiveNew t calls i s).store = some store ∧
    (connectAll calls c store).isSome = true

def StepConnects (s : ChainState σ ι) : ChainOp σ ι → Prop
  | .header _ _ => True
  | .block i checks calls => Receives t checks i s → ∃ c d, Connectable t calls i s c d

theorem archiveNew_store (calls : BlockCalls σ ι) (i : ι) (s : ChainState σ ι) :
    (archiveNew t calls i s).store =
      if leavesBest t s i then (calls.writeArchBlock i s.store).2 else s.store := by
  unfold archiveNew
  split_ifs
  · exact keepUndo_store calls i i s
  · rfl

theorem archiveNew_others (calls : BlockCalls σ ι) {j : ι} (s : ChainState σ ι) (h : j ≠ i) :
    (archiveNew t calls i s).nStatus j = s.nStatus j := by
  simp only [archiveNew, keepUndo, ChainState.setStatus]
  split_ifs <;> simp [h]

end

theorem markReceived_others (checks : BlockChecks) {j : ι} (s : ChainState σ ι) (h : j ≠ i) :
    (markReceived checks i s).nStatus j = s.nStatus j := by
  simp [markReceived, ChainState.setStatus, h]

theorem markReceived_failed (checks : BlockChecks) (i : ι) (s : ChainState σ ι) :
    ((markReceived checks i s).nStatus i).failed = (s.nStatus i).failed := by
  simp only [markReceived, ChainState.setStatus, Function.update_self, BlockStatus.raiseValidity]
  split_ifs <;> rfl

theorem archiveNew_received_store (calls : BlockCalls σ ι) (checks : BlockChecks)
    (hs : HeaderAccepted s s' i) :
    (archiveNew t calls i (markReceived checks i s')).store = (archiveNew t calls i s).store := by
  have hleaves : leavesBest t (markReceived checks i s') i = leavesBest t s i := by
    unfold leavesBest
    rw [← hs.best]
    rfl
  rw [archiveNew_store, archiveNew_store, hleaves, ← hs.store]
  rfl

section

variable (h : Connectable t calls i s c d) (checks : BlockChecks) (hs : HeaderAccepted s s' i)
include h hs

theorem Connectable.proceeds : CommitProceeds t calls i (markReceived checks i s') c d := by
  refine ⟨h.enabled, ?_, ?_, ?_, ?_⟩
  · have hbest : (markReceived checks i s').pindexBest = s.pindexBest := hs.best
    rw [hbest]
    exact h.branches
  · refine Bool.and_eq_false_imp.mpr fun _ => List.any_eq_false.mpr ?_
    intro j hj
    by_cases hji : j = i
    · rw [hji, markReceived_failed, hs.valid]
      simp
    · rw [markReceived_others checks s' hji, hs.others j hji, h.valid j hj hji]
      simp
  · refine List.any_eq_false.mpr ?_
    intro j hj
    by_cases hji : j = i
    · simp [hji]
    · rw [archiveNew_others t calls _ hji, markReceived_others checks s' hji, hs.others j hji]
      rcases h.data j hj hji with hdata | hundo
      · simp [hdata]
      · simp [hundo]
  · have hread := h.readable
    unfold blocksReadable at hread ⊢
    rw [archiveNew_received_store calls checks hs]
    exact hread

/-- **What accepting a connectable block leaves**: the block is the best one, and the flag is on its
    chain. -/
theorem Connectable.inv (hinv : MainChainInv t s') :
    MainChainInv t (setBestChain t calls i (markReceived checks i s')).2 := by
  obtain ⟨store, hdisc, hconn⟩ := h.calls
  obtain ⟨store', hconn⟩ := isSome_iff_exists.mp hconn
  rw [← archiveNew_received_store calls checks hs] at hdisc
  obtain ⟨hok, hdone⟩ := coreCommitBlock_done (h.proceeds checks hs) hdisc hconn
  obtain ⟨f, _, hc, hd⟩ := getCommitBranches_spec h.branches
  rw [← hs.best] at hd
  have hset : (setBestChain t calls i (markReceived checks i s')).2 =
      { (coreCommitBlock t calls i (markReceived checks i s')).2.1 with
        bnBestChainWork := t.bnChainWork i } := by
    simp [setBestChain, hok]
  have hmem : ∀ j, isInMainChain (setBestChain t calls i (markReceived checks i s')).2 j = true ↔
      t.Anc j i := by
    intro j
    rw [hset]
    have hj : isInMainChain (coreCommitBlock t calls i (markReceived checks i s')).2.1 j = true ↔
        j ∈ c ∨ (j ∉ d ∧ (j = i ∨ t.Anc j s'.pindexBest)) := by
      rw [hdone.flag, isInMainChain_markReceived]
      simp only [Bool.or_eq_true, Bool.and_eq_true, decide_eq_true_eq, hinv.flag]
    refine hj.trans ?_
    rw [hc.anc_iff, hd.anc_iff, mem_reverse]
    constructor
    · rintro (hjc | ⟨hjd, rfl | hjd' | hjf⟩)
      · exact .inl hjc
      · have hji := hc.anc_iff.mp (Forest.Anc.refl j)
        rwa [mem_reverse] at hji
      · exact absurd hjd' hjd
      · exact .inr hjf
    · rintro (hjc | hjf)
      · exact .inl hjc
      · exact .inr ⟨fun hjd => hd.not_anc hjd hjf, .inr (.inr hjf)⟩
  have hknown : (setBestChain t calls i (markReceived checks i s')).2.known = s'.known := by
    rw [hset]
    exact hdone.known
  refine ⟨?_, ?_, ?_⟩
  · intro j
    rw [hmem, hset]
    show t.Anc j i ↔ t.Anc j (coreCommitBlock t calls i (markReceived checks i s')).2.1.pindexBest
    rw [hdone.best]
  · intro j hj
    rw [hknown]
    exact hinv.parentsKnown.anc ((hmem j).mp hj) hs.known
  · intro j p hp hj
    rw [hknown] at hj ⊢
    exact hinv.closed hp hj

end

/-- **One block keeps the flag on the main chain**, if it is connectable when new and valid. -/
theorem acceptBlock_inv (hok : Receives t checks i s → ∃ c d, Connectable t calls i s c d)
    (hinv : MainChainInv t s) : MainChainInv t (acceptBlock t checks calls i s).2 := by
  rcases acceptBlock_stops_or_opens t checks calls i s with hstops | ⟨s', ho⟩
  · rw [hstops]
    exact hinv
  obtain ⟨p, hp, -⟩ := ho.parent
  obtain ⟨hinv', hsame, hheader⟩ := coreAcceptBlockHeader_spec hinv ho.header
  have hs := hheader (by simp [hp])
  rw [ho.acceptBlock_eq, acceptBody]
  split_ifs with hdata hblock hcontext hwork
  · exact hinv'
  · exact hinv'.of_same rfl rfl (isInMainChain_markInvalid i · s')
  · exact hinv'.of_same rfl rfl (isInMainChain_markInvalid i · s')
  all_goals
    obtain ⟨c, d, hconn⟩ := hok
      { parent := ho.parent
        accept := ho.accept
        inputs := ho.inputs
        unflagged := (hsame i).symm.trans (Bool.eq_false_iff.mpr hdata)
        header := by simp [ho.header]
        block := by simpa using hblock
        blockContext := by simpa using hcontext }
  · -- a connectable block has more work than the best one
    have hle : t.bnChainWork i ≤ s.bnBestChainWork := hs.work ▸ hwork
    exact absurd hconn.work (Nat.not_lt.mpr hle)
  · exact hconn.inv checks hs hinv'

/-- **One step keeps the flag on the main chain**, under its condition. -/
theorem chainStep_inv (op : ChainOp σ ι)
    (hok : StepConnects t s op) (hinv : MainChainInv t s) : MainChainInv t (chainStep t s op) := by
  cases op with
  | header i checks =>
    show MainChainInv t ((coreAcceptBlockHeader t checks i s).getD s)
    cases h : coreAcceptBlockHeader t checks i s with
    | none => exact hinv
    | some s' => exact (coreAcceptBlockHeader_spec hinv h).1
  | block i checks calls => exact acceptBlock_inv hok hinv

/-- **The main-chain flag over runs.** From the genesis block on, while every new valid block is
    connectable, `IsInMainChain` holds of the best block and its ancestors and of no other block,
    and a transaction with a positive depth is in one of these blocks. -/
theorem main_chain_flag_of_connects (t : BlockLinks ι) {s₀ : ChainState σ ι}
    (h₀ : IsInitial t s₀) (ops : List (ChainOp σ ι))
    (hok : StepsOk (fun s op => some (chainStep t s op)) (StepConnects t) s₀ ops) :
    (∀ i, isInMainChain (ops.foldl (chainStep t) s₀) i = true ↔
      t.Anc i (ops.foldl (chainStep t) s₀).pindexBest) ∧
    ∀ color fuel tx depth, getDepthInMainChain t (ops.foldl (chainStep t) s₀) color fuel tx =
        some depth → 0 < depth →
      ∃ i, tx.hashBlock = some i ∧ t.Anc i (ops.foldl (chainStep t) s₀).pindexBest := by
  have hinv : MainChainInv t (ops.foldl (chainStep t) s₀) :=
    foldl_invariant (fun s op hok hinv => chainStep_inv op hok hinv) hok h₀.inv
  refine ⟨hinv.flag, ?_⟩
  intro color fuel tx depth hdepth hpos
  unfold getDepthInMainChain at hdepth
  cases hb : tx.hashBlock with
  | none =>
    rw [hb] at hdepth
    cases hdepth
    omega
  | some i =>
    rw [hb] at hdepth
    dsimp only at hdepth
    split_ifs at hdepth with hindex hmain
    · cases hdepth
      omega
    · cases hdepth
      omega
    all_goals
      refine ⟨i, rfl, (hinv.flag i).mp ?_⟩
      simp at hmain
      exact hmain.2

def twoChildren : BlockLinks SampleBlock where
  parent
    | .genesis => none
    | _ => some .genesis
  height i := if i = .genesis then 0 else 1
  height_parent := by decide
  height_root := by decide
  pskip i := if i = .genesis then none else some .genesis
  bnChainWork i := if i = .genesis then 1 else 2
  nVersion _ := 1
  nTime _ := 0

def genesisOnly : ChainState Unit SampleBlock where
  store := ()
  known i := decide (i = .genesis)
  nStatus i := ⟨3, decide (i = .genesis), false, false, false, false⟩
  pnext _ := none
  pindexBest := .genesis
  pindexBestHeader := some .genesis
  bnBestChainWork := 1

def validBlock (i : SampleBlock) : ChainOp Unit SampleBlock :=
  .block i ⟨true, true, true, true, true, true, false⟩
    ⟨true, fun _ _ => true, fun _ s => (true, s), fun _ s => (true, s), fun _ s => (true, s),
      fun _ _ s => s⟩

theorem genesisOnly_initial : IsInitial twoChildren genesisOnly :=
  ⟨rfl, by decide, by decide⟩

theorem validBlock_connects : StepConnects twoChildren genesisOnly (validBlock .first) := by
  intro _
  refine ⟨[.first], [], ?_, rfl, ?_, ?_, ?_, ?_, (), rfl, rfl⟩
  all_goals decide

theorem first_child_is_main_chain :
    (∀ i, isInMainChain ([validBlock .first].foldl (chainStep twoChildren) genesisOnly) i = true ↔
      twoChildren.Anc i
        ([validBlock .first].foldl (chainStep twoChildren) genesisOnly).pindexBest) ∧
    ∀ color fuel tx depth, getDepthInMainChain twoChildren
        ([validBlock .first].foldl (chainStep twoChildren) genesisOnly) color fuel tx = some depth →
        0 < depth → ∃ i, tx.hashBlock = some i ∧ twoChildren.Anc i
          ([validBlock .first].foldl (chainStep twoChildren) genesisOnly).pindexBest :=
  main_chain_flag_of_connects twoChildren genesisOnly_initial [validBlock .first]
    ⟨validBlock_connects, trivial⟩

/-- The second child is not on the chain of the best block, which is the first; it has the flag
    all the same, and its transactions have a depth of one. -/
theorem second_child_flagged :
    IsInitial twoChildren genesisOnly ∧
    isInMainChain ([validBlock .first, validBlock .second].foldl (chainStep twoChildren)
      genesisOnly) .second = true ∧
    ¬ twoChildren.Anc .second ([validBlock .first, validBlock .second].foldl
      (chainStep twoChildren) genesisOnly).pindexBest ∧
    getDepthInMainChain twoChildren
      ([validBlock .first, validBlock .second].foldl (chainStep twoChildren) genesisOnly) false 0
      ⟨some .second, 0⟩ = some 1 := by
  have hbest : ([validBlock .first, validBlock .second].foldl (chainStep twoChildren)
      genesisOnly).pindexBest = .first := rfl
  refine ⟨genesisOnly_initial, rfl, ?_, rfl⟩
  rw [hbest]
  intro h
  exact absurd (h.eq_of_height (Forest.Anc.refl _) rfl) (by decide)

end ShareCoin.Server
