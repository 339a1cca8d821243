import ShareCoin.Proof.Server.MainChain

/-!
# The marks of an index during a commit

The walks of a commit set and clear `BLOCK_HAVE_DATA` and `BLOCK_HAVE_UNDO`. The mark of an invalid
block is set once, at the label `fin`, and only on the block whose call has failed. The new block
itself gets it exactly when everything before it is connected and its own `ConnectBlock` returns
false.
-/

namespace ShareCoin.Server

open Lib List

variable {σ ι : Type} [DecidableEq ι] {s : ChainState σ ι} {calls : BlockCalls σ ι}
  {t : BlockLinks ι} {w : CommitWalk σ ι} {nStatus : BlockStatus}

/-! ## What is kept -/

/-- No index is marked as invalid or cleared of the mark, and none becomes known. -/
structure MarksKept (s s' : ChainState σ ι) : Prop where
  failedValid : ∀ j, (s'.nStatus j).failedValid = (s.nStatus j).failedValid
  failedChild : ∀ j, (s'.nStatus j).failedChild = (s.nStatus j).failedChild
  known : s'.known = s.known

def DataKept (i : ι) (s s' : ChainState σ ι) : Prop :=
  (s.nStatus i).haveData = true → (s'.nStatus i).haveData = true

omit [DecidableEq ι] in
theorem MarksKept.refl (s : ChainState σ ι) : MarksKept s s := ⟨fun _ => rfl, fun _ => rfl, rfl⟩

omit [DecidableEq ι] in
theorem MarksKept.trans {s s' s'' : ChainState σ ι} (h : MarksKept s s') (h' : MarksKept s' s'') :
    MarksKept s s'' :=
  ⟨fun j => (h'.failedValid j).trans (h.failedValid j),
    fun j => (h'.failedChild j).trans (h.failedChild j), h'.known.trans h.known⟩

omit [DecidableEq ι] in
theorem MarksKept.failed {s s' : ChainState σ ι} (h : MarksKept s s') (j : ι) :
    (s'.nStatus j).failed = (s.nStatus j).failed := by
  rw [BlockStatus.failed, BlockStatus.failed, h.failedValid, h.failedChild]

theorem MarksKept.setStatus {j : ι} (hvalid : nStatus.failedValid = (s.nStatus j).failedValid)
    (hchild : nStatus.failedChild = (s.nStatus j).failedChild) :
    MarksKept s (s.setStatus j nStatus) := by
  refine ⟨fun i => ?_, fun i => ?_, rfl⟩
  · by_cases hij : i = j
    · subst hij
      simpa [ChainState.setStatus] using hvalid
    · simp [ChainState.setStatus, hij]
  · by_cases hij : i = j
    · subst hij
      simpa [ChainState.setStatus] using hchild
    · simp [ChainState.setStatus, hij]

theorem DataKept.setStatus {i j : ι}
    (h : i = j → (s.nStatus j).haveData = true → nStatus.haveData = true) :
    DataKept i s (s.setStatus j nStatus) := by
  by_cases hij : i = j
  · subst hij
    simpa [DataKept, ChainState.setStatus] using h rfl
  · simp [DataKept, ChainState.setStatus, hij]

theorem MarksKept.markReceived (checks : BlockChecks) (i : ι) (s : ChainState σ ι) :
    MarksKept s (markReceived checks i s) := by
  refine .setStatus ?_ ?_
  all_goals
    unfold BlockStatus.raiseValidity
    split_ifs <;> rfl

/-! ## The walks as changes -/

/-- One change that the walks of a commit make: to the marks of an index, except that of an
    invalid block, or to the store and the links. The blocks of `d` may lose their data. -/
inductive WalkMove (d : List ι) : ChainState σ ι → ChainState σ ι → Prop
  | frame {s s' : ChainState σ ι} (hstatus : s'.nStatus = s.nStatus) (hknown : s'.known = s.known)
      (hbest : s'.pindexBestHeader = s.pindexBestHeader) : WalkMove d s s'
  | status {s : ChainState σ ι} {j : ι} {nStatus : BlockStatus}
      (hvalid : nStatus.failedValid = (s.nStatus j).failedValid)
      (hchild : nStatus.failedChild = (s.nStatus j).failedChild)
      (hdata : j ∉ d → (s.nStatus j).haveData = true → nStatus.haveData = true) :
      WalkMove d s (s.setStatus j nStatus)

abbrev WalkMoves (d : List ι) : ChainState σ ι → ChainState σ ι → Prop :=
  Relation.ReflTransGen (WalkMove d)

section Moves

variable {d : List ι} {s' : ChainState σ ι}

theorem WalkMoves.marks (h : WalkMoves d s s') : MarksKept s s' := by
  induction h with
  | refl => exact .refl s
  | tail _ hmove ih =>
    refine ih.trans ?_
    cases hmove with
    | frame hstatus hknown => exact ⟨fun _ => by rw [hstatus], fun _ => by rw [hstatus], hknown⟩
    | status hvalid hchild => exact .setStatus hvalid hchild

theorem WalkMoves.data (h : WalkMoves d s s') {i : ι} (hi : i ∉ d) : DataKept i s s' := by
  induction h with
  | refl => exact id
  | tail _ hmove ih =>
    refine fun hdata => ?_
    cases hmove with
    | frame hstatus => exact (congrArg (BlockStatus.haveData <| · i) hstatus).trans (ih hdata)
    | status _ _ hkeep => exact DataKept.setStatus (fun hij => hkeep (hij ▸ hi)) (ih hdata)

theorem WalkMoves.bestHeader (h : WalkMoves d s s') : s'.pindexBestHeader = s.pindexBestHeader := by
  induction h with
  | refl => rfl
  | tail _ hmove ih =>
    cases hmove with
    | frame _ _ hbest => exact hbest.trans ih
    | status => exact ih

theorem keepUndo_moves (calls : BlockCalls σ ι) (new j : ι) (s : ChainState σ ι) :
    WalkMoves d s (keepUndo calls new j s) := by
  have hstore : WalkMove d s { s with store := (calls.writeArchBlock new s.store).2 } :=
    .frame rfl rfl rfl
  unfold keepUndo
  dsimp only
  split_ifs
  · exact .tail (.single hstore) (.status rfl rfl fun _ h => h)
  · exact .single hstore

section

variable (t : BlockLinks ι) (calls : BlockCalls σ ι) (new : ι)

theorem archiveNew_moves (s : ChainState σ ι) : WalkMoves d s (archiveNew t calls new s) := by
  unfold archiveNew
  split_ifs
  · exact keepUndo_moves calls new new s
  · exact .refl

theorem coreDisconnectBlock_moves {j : ι} (hj : j ∈ d) (s : ChainState σ ι) :
    WalkMoves d s (coreDisconnectBlock calls j s).2 := by
  have hclear : WalkMove d s (s.setStatus j { s.nStatus j with haveData := false }) :=
    .status rfl rfl fun h => absurd hj h
  unfold coreDisconnectBlock
  split_ifs
  · exact .refl
  · exact .tail (.single hclear) (.frame rfl rfl rfl)

theorem disconnectWalk_moves {l : List ι} (hl : ∀ j ∈ l, j ∈ d) (w : CommitWalk σ ι) :
    WalkMoves d w.state (disconnectWalk t calls new l w).state := by
  induction l generalizing w with
  | nil => exact .refl
  | cons j l ih =>
    have hdisc := coreDisconnectBlock_moves calls (hl j mem_cons_self) w.state
    unfold disconnectWalk
    dsimp only
    split_ifs
    · exact (hdisc.trans (keepUndo_moves calls new j _)).trans
        (ih (fun k hk => hl k (mem_cons_of_mem j hk)) (w.disconnected t j _))
    · exact hdisc

theorem connectWalk_moves (l : List ι) (w : CommitWalk σ ι) :
    WalkMoves d w.state (connectWalk calls l w).state := by
  induction l generalizing w with
  | nil => exact .refl
  | cons j l ih =>
    have hstore : WalkMove d w.state
        { w.state with store := (calls.connectBlock j w.state.store).2 } := .frame rfl rfl rfl
    have hset (s : ChainState σ ι) : WalkMove d s (s.setHaveData j) :=
      .status rfl rfl fun _ _ => rfl
    unfold connectWalk
    dsimp only
    split_ifs
    · exact .head hstore (.head (hset _) (ih (w.connected j _)))
    · exact .single hstore

/-- **The walks of a commit are such changes**, with the blocks that are disconnected for `d`. -/
theorem commitWalk_moves (c d : List ι) (s : ChainState σ ι) :
    WalkMoves d s (commitWalk t calls new c d s).state := by
  have hdisc : WalkMoves d s _ := disconnectWalk_moves t calls new (fun _ => id) (.start s)
  have hconn := hdisc.trans (connectWalk_moves calls c _)
  unfold commitWalk
  dsimp only
  split_ifs
  · exact hdisc
  · exact hconn
  · exact hconn.tail (.frame rfl rfl rfl)

end

end Moves

section

variable (t : BlockLinks ι) (pbest new i : ι) (w : CommitWalk σ ι)

/-- The label `fin` marks the block whose call failed, unless the last one reached is a child of the
    old best block. -/
theorem commitFin_failed :
    ((commitFin t pbest new w).nStatus i).failed = true ↔
      (w.state.nStatus i).failed = true ∨
        w.pindexFail = some i ∧ t.parent w.pindexLast ≠ some pbest := by
  unfold commitFin
  by_cases hlast : t.parent w.pindexLast = some pbest
  · rw [if_neg (not_not.mpr hlast)]
    exact ⟨.inl, fun h => h.resolve_right fun h => h.2 hlast⟩
  · rw [if_pos hlast]
    cases hfail : w.pindexFail with
    | none => exact ⟨.inl, fun h => h.resolve_right fun h => nomatch h.1⟩
    | some j =>
      by_cases hij : i = j
      · subst hij
        simp [ChainState.setStatus, BlockStatus.failed, hlast]
      · simp [ChainState.setStatus, hij, Ne.symm hij]

theorem commitFin_haveData :
    ((commitFin t pbest new w).nStatus i).haveData = (w.state.nStatus i).haveData := by
  unfold commitFin
  split_ifs
  · cases w.pindexFail with
    | none => rfl
    | some j =>
      by_cases hij : i = j
      · subst hij
        simp [ChainState.setStatus]
      · simp [ChainState.setStatus, hij]
  · rfl

end

@[simp] theorem commitFin_known (t : BlockLinks ι) (pbest new : ι) (w : CommitWalk σ ι) :
    (commitFin t pbest new w).known = w.state.known := by
  unfold commitFin
  split_ifs
  · cases w.pindexFail <;> rfl
  · rfl

theorem MarksKept.commitFin (t : BlockLinks ι) (pbest new : ι) (hfail : w.pindexFail = none) :
    MarksKept w.state (commitFin t pbest new w) := by
  unfold Server.commitFin
  rw [hfail]
  split_ifs
  · exact ⟨fun _ => rfl, fun _ => rfl, rfl⟩
  · exact ⟨fun _ => rfl, fun _ => rfl, rfl⟩

/-! ## Where a commit fails -/

theorem connectWalk_refused (calls : BlockCalls σ ι) {init rest : List ι} {i : ι} {store : σ}
    (hinit : connectAll calls init w.state.store = some store)
    (hi : (calls.connectBlock i store).1 = false) :
    (connectWalk calls (init ++ i :: rest) w).pindexFail = some i ∧
      (connectWalk calls (init ++ i :: rest) w).pindexLast = init.getLast?.getD w.pindexLast := by
  induction init generalizing w with
  | nil =>
    cases hinit
    rw [nil_append, connectWalk, if_neg (by simp [hi])]
    exact ⟨rfl, rfl⟩
  | cons j init ih =>
    rw [connectAll] at hinit
    split_ifs at hinit with hj
    rw [cons_append, connectWalk, if_pos hj]
    obtain ⟨hfail, hlast⟩ := ih
      (w := w.connected j
        ({ w.state with store := (calls.connectBlock j w.state.store).2 }.setHaveData j))
      (by simpa [CommitWalk.connected, ChainState.setHaveData, ChainState.setStatus] using hinit)
    refine ⟨hfail, hlast.trans ?_⟩
    rw [getLast?_cons]
    rfl

theorem disconnectWalk_refused {new : ι} {l : List ι} (henabled : calls.enabled = true)
    (hall : disconnectAll calls new l w.state.store = none) :
    ∃ i ∈ l, (disconnectWalk t calls new l w).pindexFail = some i := by
  induction l generalizing w with
  | nil => cases hall
  | cons i l ih =>
    obtain ⟨hcall, hstore⟩ := coreDisconnectBlock_call henabled i w.state
    rw [disconnectAll] at hall
    unfold disconnectWalk
    dsimp only
    rw [hcall]
    split_ifs at hall ⊢ with hok
    · obtain ⟨j, hj, hfail⟩ := ih
        (w := w.disconnected t i (keepUndo calls new i (coreDisconnectBlock calls i w.state).2))
        (by simpa [CommitWalk.disconnected, hstore] using hall)
      exact ⟨j, mem_cons_of_mem _ hj, hfail⟩
    · exact ⟨i, mem_cons_self, rfl⟩

/-- **A commit that the block itself makes fail.** Everything before it is connected, its own
    `ConnectBlock` returns false, and it is marked for it: its parent is not a child of the best
    block. -/
def ConnectRefused (t : BlockLinks ι) (calls : BlockCalls σ ι) (i : ι) (s : ChainState σ ι) :
    Prop :=
  ∃ init d store store', CommitProceeds t calls i s (init ++ [i]) d ∧
    disconnectAll calls i d (archiveNew t calls i s).store = some store ∧
    connectAll calls init store = some store' ∧ (calls.connectBlock i store').1 = false ∧
    ∀ p, t.parent i = some p → t.parent p ≠ some s.pindexBest

omit [DecidableEq ι] in
theorem branch_new {best new f : ι} {done rest d : List ι} (hfork : IsFork t best new f)
    (hc : t.Branch f new (done ++ new :: rest).reverse) (hd : t.Branch f best d) :
    rest = [] ∧ new ∉ d ∧ t.parent new = some (done.getLast?.getD f) := by
  obtain ⟨hrest, hdone⟩ := branch_split (done ++ [new]) rest (by simpa using hc)
  rw [getLast?_concat, Option.getD_some] at hrest hdone
  refine ⟨by simpa using hrest.nil_of_self, fun hmem => ?_, ?_⟩
  · have hanc := hfork.highest (hd.anc_iff.mpr (.inl hmem)) (Forest.Anc.refl new)
    exact hd.not_anc hmem hanc
  · rw [reverse_append, reverse_singleton, singleton_append] at hdone
    cases hdone with
    | cons hp hl =>
      rw [hp, ← hl.head, head?_reverse]

theorem MarksKept.refused {new : ι} (h : ∀ c d, ¬ CommitProceeds t calls new s c d) :
    MarksKept s (coreCommitBlock t calls new s).2.1 ∧
      ∀ i, DataKept i s (coreCommitBlock t calls new s).2.1 := by
  have harchive := (archiveNew_moves (d := []) t calls new s).marks
  have hkeeps (i : ι) : DataKept i s (Server.archiveNew t calls new s) := fun h =>
    (isInMainChain_archiveNew t calls new i s).trans h
  rcases coreCommitBlock_refused h with heq | heq | heq <;> rw [heq]
  · exact ⟨.refl s, fun _ => id⟩
  · exact ⟨harchive, hkeeps⟩
  · have hfin := MarksKept.commitFin t s.pindexBest new
      (w := .start (Server.archiveNew t calls new s)) rfl
    exact ⟨harchive.trans hfin, fun i h =>
      (commitFin_haveData t s.pindexBest new i _).trans (hkeeps i h)⟩

theorem commitWalk_of_disconnected (t : BlockLinks ι) (calls : BlockCalls σ ι) (new : ι)
    (c : List ι) {d : List ι} (h : (disconnectWalk t calls new d (.start s)).pindexFail = none) :
    (commitWalk t calls new c d s).pindexFail =
        (connectWalk calls c (disconnectWalk t calls new d (.start s))).pindexFail ∧
      (commitWalk t calls new c d s).pindexLast =
        (connectWalk calls c (disconnectWalk t calls new d (.start s))).pindexLast := by
  unfold commitWalk
  dsimp only
  rw [h, Option.isSome_none, if_neg Bool.false_ne_true]
  split_ifs
  · exact ⟨rfl, rfl⟩
  · exact ⟨rfl, rfl⟩

/-- **The walks of a commit fail at the new block** exactly when its own call is refused; they have
    come to its parent then. -/
theorem commitWalk_fails_iff {new f : ι} {c d : List ι} (henabled : calls.enabled = true)
    (hfork : IsFork t s.pindexBest new f) (hc : t.Branch f new c.reverse)
    (hd : t.Branch f s.pindexBest d) :
    ((commitWalk t calls new c d s).pindexFail = some new ↔
      ∃ init store store', c = init ++ [new] ∧ disconnectAll calls new d s.store = some store ∧
        connectAll calls init store = some store' ∧ (calls.connectBlock new store').1 = false) ∧
    ((commitWalk t calls new c d s).pindexFail = some new →
      t.parent new = some (commitWalk t calls new c d s).pindexLast) := by
  cases hdisc : disconnectAll calls new d s.store with
  | none =>
    obtain ⟨i, hi, hfail⟩ := disconnectWalk_refused (t := t) (w := .start s) henabled hdisc
    have hwalk : (commitWalk t calls new c d s).pindexFail = some i := by
      unfold commitWalk
      rw [if_pos (by rw [hfail]; rfl), hfail]
    have hne : (commitWalk t calls new c d s).pindexFail ≠ some new := by
      rw [hwalk]
      rintro ⟨rfl⟩
      exact hd.not_anc hi (hfork.highest (hd.anc_iff.mpr (.inl hi)) (Forest.Anc.refl _))
    refine ⟨iff_of_false hne ?_, fun h => absurd h hne⟩
    rintro ⟨_, _, _, _, hsome, _⟩
    cases hsome
  | some store =>
    have hdone := disconnectWalk_done (w := .start s) henabled hd rfl rfl hdisc
    obtain ⟨hfailEq, hlastEq⟩ := commitWalk_of_disconnected t calls new c hdone.fail
    rw [hfailEq, hlastEq]
    obtain ⟨done, rest, hsplit, ⟨store', hall, hstop⟩, hlast, hend, -⟩ :=
      connectWalk_spec calls c _ hdone.fail
    rw [hdone.store] at hall
    rw [hdone.last] at hlast
    have hnew (h : (connectWalk calls c (disconnectWalk t calls new d (.start s))).pindexFail =
        some new) : rest = [new] ∧ t.parent new = some (done.getLast?.getD f) := by
      rw [hend] at h
      obtain ⟨rest', rfl⟩ := head?_eq_some_iff.mp h
      rw [hsplit] at hc
      obtain ⟨rfl, -, hparent⟩ := branch_new hfork hc hd
      exact ⟨rfl, hparent⟩
    refine ⟨⟨fun h => ?_, ?_⟩, fun h => by rw [hlast, (hnew h).2]⟩
    · obtain ⟨rfl, -⟩ := hnew h
      exact ⟨done, store, store', hsplit, rfl, hall, hstop new rfl⟩
    · rintro ⟨init, store₁, store₂, rfl, hstore, hinit, hrefused⟩
      cases hstore
      exact (connectWalk_refused calls (by rwa [hdone.store]) hrefused).1

/-- **What a commit does to the new block**: it is marked as invalid exactly when its own call is
    refused, and keeps its data. -/
theorem coreCommitBlock_new (t : BlockLinks ι) (calls : BlockCalls σ ι) {i : ι}
    (hvalid : (s.nStatus i).failed = false) (hdata : (s.nStatus i).haveData = true) :
    (((coreCommitBlock t calls i s).2.1.nStatus i).failed = true ↔ ConnectRefused t calls i s) ∧
      ((coreCommitBlock t calls i s).2.1.nStatus i).haveData = true ∧
      (coreCommitBlock t calls i s).2.1.known = s.known := by
  by_cases hproceeds : ∃ c d, CommitProceeds t calls i s c d
  · obtain ⟨c, d, hp⟩ := hproceeds
    obtain ⟨f, hfork, hc, hd⟩ := getCommitBranches_spec hp.branches
    have hnotin : i ∉ d := fun hmem =>
      hd.not_anc hmem (hfork.highest (hd.anc_iff.mpr (.inl hmem)) (Forest.Anc.refl i))
    set s₁ := archiveNew t calls i s
    have hbest : s₁.pindexBest = s.pindexBest := archiveNew_best t calls i s
    have hwalk : WalkMoves d s _ :=
      (archiveNew_moves t calls i s).trans (commitWalk_moves t calls i c d s₁)
    have hkept := hwalk.marks
    have hkeeps := (commitWalk_moves t calls i c d s₁).data hnotin
      ((isInMainChain_archiveNew t calls i i s).trans hdata)
    obtain ⟨hfails, hlast⟩ := commitWalk_fails_iff (s := s₁) hp.enabled (hbest.symm ▸ hfork) hc
      (hbest.symm ▸ hd)
    rw [hp.eq]
    refine ⟨?_, (commitFin_haveData t s.pindexBest i i _).trans hkeeps,
      (commitFin_known t s.pindexBest i _).trans hkept.known⟩
    rw [commitFin_failed, hkept.failed, hvalid]
    constructor
    · rintro (hfalse | ⟨hfail, hne⟩)
      · cases hfalse
      · obtain ⟨init, store, store', rfl, hdisc, hinit, hrefused⟩ := hfails.mp hfail
        refine ⟨init, d, store, store', hp, hdisc, hinit, hrefused, fun p hparent => ?_⟩
        cases (hlast hfail).symm.trans hparent
        exact hne
    · rintro ⟨init, d', store, store', hp', hdisc, hinit, hrefused, hparent⟩
      cases hp.branches.symm.trans hp'.branches
      have hfail := hfails.mpr ⟨init, store, store', rfl, hdisc, hinit, hrefused⟩
      exact .inr ⟨hfail, hparent _ (hlast hfail)⟩
  · obtain ⟨hkept, hkeeps⟩ := MarksKept.refused fun c d h => hproceeds ⟨c, d, h⟩
    refine ⟨iff_of_false ?_ ?_, hkeeps i hdata, hkept.known⟩
    · rw [hkept.failed, hvalid]
      exact Bool.false_ne_true
    · rintro ⟨init, d, -, -, hp, -⟩
      exact hproceeds ⟨_, d, hp⟩

end ShareCoin.Server
