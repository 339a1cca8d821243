import ShareCoin.Server.Commit

/-!
# Which block is best after a commit

`core_CommitBlock` tells whether it added one block to the old chain by comparing the old best
block with the parent of the last block it reached. That test does not tell the new block from the
first of several new ones. When the new block lies two or more blocks above the best block, the
first of them connects and the second does not, the last block reached is a child of the old best
block, and the best block becomes `pindexNew`, which is not connected.

The main result is that this is the only way to go wrong.
-/

namespace ShareCoin.Server

open Lib List Option

variable {σ ι : Type} [DecidableEq ι]
variable {t : BlockLinks ι} {s : ChainState σ ι} {calls : BlockCalls σ ι}
  {vConnect vDisconnect : List ι}

/-! ## The two branches -/

omit [DecidableEq ι] in
theorem lowerTo_eq (t : BlockLinks ι) (height fuel : Nat) (i : ι)
    (h : t.height i ≤ fuel + height) : lowerTo t height fuel i = t.up (t.height i - height) i := by
  induction fuel generalizing i with
  | zero =>
    have hle : t.height i ≤ height := by omega
    rw [lowerTo, if_pos hle, Nat.sub_eq_zero_of_le hle]
    rfl
  | succ fuel ih =>
    rw [lowerTo]
    by_cases hle : t.height i ≤ height
    · rw [if_pos hle, Nat.sub_eq_zero_of_le hle]
      rfl
    · rw [if_neg hle]
      cases hp : t.parent i with
      | none =>
        have h0 := t.height_root hp
        omega
      | some p =>
        have hheight := t.height_parent hp
        have hsub : t.height i - height = (t.height p - height) + 1 := by omega
        rw [hsub, Forest.up_succ hp]
        exact ih p (by omega)

/-- `f` is the highest node that lies on both chains. -/
structure IsFork (t : BlockLinks ι) (i j f : ι) : Prop where
  left : t.Anc f i
  right : t.Anc f j
  highest : ∀ {x}, t.Anc x i → t.Anc x j → t.Anc x f

omit [DecidableEq ι] in
theorem anc_lowered {i j l x : ι} {k : Nat} (hl : t.up k j = some l)
    (hheight : t.height l = t.height i ∨ k = 0) (hi : t.Anc x i) (hj : t.Anc x j) : t.Anc x l := by
  rcases hheight with hheight | rfl
  · exact hj.of_height_le ⟨k, hl⟩ (hheight ▸ hi.height_le)
  · cases hl
    exact hj

theorem findFork_spec {fuel : Nat} {i j f : ι} (h : findFork t fuel i j = some f) :
    IsFork t i j f := by
  induction fuel using Nat.strong_induction_on generalizing i j with
  | _ fuel ih =>
    rw [findFork] at h
    split_ifs at h with hij
    · cases h
      exact hij ▸ ⟨Forest.Anc.refl _, Forest.Anc.refl _, fun hx _ => hx⟩
    rw [lowerTo_eq t _ _ j (by omega)] at h
    cases hl : t.up (t.height j - t.height i) j with
    | none => simp [hl] at h
    | some l =>
      simp only [hl] at h
      have hheight := Forest.height_up hl
      split_ifs at h with hil
      · cases h
        subst hil
        exact ⟨Forest.Anc.refl _, ⟨_, hl⟩, fun hx _ => hx⟩
      cases fuel with
      | zero => cases h
      | succ fuel =>
        obtain ⟨p, hp, h⟩ := bind_eq_some_iff.mp h
        have hfork := ih fuel (Nat.lt_succ_self fuel) h
        refine ⟨hfork.left.trans (Forest.Anc.parent hp), hfork.right.trans ⟨_, hl⟩, ?_⟩
        intro x hxi hxj
        have hxl : t.Anc x l := anc_lowered hl (by omega) hxi hxj
        -- `i` itself is not on the lowered chain, which is no higher than `i` and another node
        rcases (Forest.anc_iff_of_parent hp).mp hxi with rfl | hxp
        · have hle := hxl.height_le
          exact absurd (hxl.eq_of_height (Forest.Anc.refl l) (by omega)) hil
        · exact hfork.highest hxp hxl

theorem branchTo_spec {a : ι} {fuel : Nat} {i : ι} {l : List ι} (h : branchTo t a fuel i = some l) :
    t.Branch a i l := by
  induction fuel generalizing i l with
  | zero =>
    rw [branchTo] at h
    split_ifs at h with hia
    cases h
    exact hia ▸ .nil
  | succ fuel ih =>
    rw [branchTo] at h
    split_ifs at h with hia
    · cases h
      exact hia ▸ .nil
    · obtain ⟨p, hp, h⟩ := bind_eq_some_iff.mp h
      obtain ⟨m, hm, rfl⟩ := map_eq_some_iff.mp h
      exact .cons hp (ih hm)

/-- **What `GetCommitBranches` finds**: the branches from both blocks down to the highest block they
    have in common. -/
theorem getCommitBranches_spec {best new : ι}
    (h : getCommitBranches t best new = some (vConnect, vDisconnect)) :
    ∃ f, IsFork t best new f ∧ t.Branch f new vConnect.reverse ∧ t.Branch f best vDisconnect := by
  obtain ⟨f, hf, h⟩ := bind_eq_some_iff.mp h
  obtain ⟨d, hd, h⟩ := bind_eq_some_iff.mp h
  obtain ⟨c, hc, h⟩ := bind_eq_some_iff.mp h
  cases h
  refine ⟨f, findFork_spec hf, ?_, branchTo_spec hd⟩
  rw [reverse_reverse]
  exact branchTo_spec hc

/-! ## The walks -/

/-- The tip of the connected chain after a call: a disconnected block gives way to its parent, a
    connected one is the new tip, and a call that fails changes nothing. -/
def tipAfter (t : BlockLinks ι) (tip : ι) : Call ι → ι
  | .disconnect pindex true => (t.parent pindex).getD tip
  | .connect pindex true => pindex
  | .disconnect _ false => tip
  | .connect _ false => tip

/-- **The tip of the chain that is connected after a list of calls**: the last block whose
    `ConnectBlock` succeeded, or else the parent of the last disconnected block, or else the old
    best block. -/
def connectedTip (t : BlockLinks ι) (pbest : ι) (log : List (Call ι)) : ι :=
  log.foldl (tipAfter t) pbest

omit [DecidableEq ι] in
theorem connectedTip_append (t : BlockLinks ι) (pbest : ι) (log : List (Call ι)) (c : Call ι) :
    connectedTip t pbest (log ++ [c]) = tipAfter t (connectedTip t pbest log) c := by
  simp [connectedTip]

section

variable (t : BlockLinks ι) (calls : BlockCalls σ ι) (new pbest : ι) (l : List ι)
  (w : CommitWalk σ ι)

theorem disconnectWalk_tip (h : w.pindexLast = connectedTip t pbest w.log) :
    (disconnectWalk t calls new l w).pindexLast =
      connectedTip t pbest (disconnectWalk t calls new l w).log := by
  induction l generalizing w with
  | nil => exact h
  | cons i l ih =>
    unfold disconnectWalk
    dsimp only
    split_ifs with hok
    · apply ih
      simp only [CommitWalk.disconnected, connectedTip_append]
      rw [← h]
      rfl
    · rw [connectedTip_append]
      exact h

theorem connectWalk_tip (h : w.pindexLast = connectedTip t pbest w.log) :
    (connectWalk calls l w).pindexLast = connectedTip t pbest (connectWalk calls l w).log := by
  induction l generalizing w with
  | nil => exact h
  | cons i l ih =>
    unfold connectWalk
    dsimp only
    split_ifs with hok
    · apply ih
      simp only [CommitWalk.connected, connectedTip_append]
      rfl
    · rw [connectedTip_append]
      exact h

end

/-- **How a walk over the blocks to disconnect ends.** It stays on the chain of the best block,
    reaches the fork unless a call fails, and connects nothing. -/
theorem disconnectWalk_spec (calls : BlockCalls σ ι) (new : ι) {f i : ι} {l : List ι}
    {w : CommitWalk σ ι} (hb : t.Branch f i l) (hlast : w.pindexLast = i) :
    t.Anc (disconnectWalk t calls new l w).pindexLast i ∧
      ((disconnectWalk t calls new l w).pindexFail = none →
        (disconnectWalk t calls new l w).pindexLast = f) ∧
      ∀ x ok, .connect x ok ∈ (disconnectWalk t calls new l w).log → .connect x ok ∈ w.log := by
  induction hb generalizing w with
  | nil => exact ⟨hlast ▸ Forest.Anc.refl _, fun _ => hlast, fun _ _ hx => hx⟩
  | @cons i j l hp hl ih =>
    unfold disconnectWalk
    dsimp only
    split_ifs with hok
    · have hnext : (w.disconnected t i
          (keepUndo calls new i (coreDisconnectBlock calls i w.state).2)).pindexLast = j := by
        simp [CommitWalk.disconnected, hp]
      obtain ⟨hanc, hend, hlog⟩ := ih hnext
      refine ⟨hanc.trans (Forest.Anc.parent hp), hend, ?_⟩
      intro x ok hx
      have hmem := hlog x ok hx
      simpa [CommitWalk.disconnected] using hmem
    · refine ⟨hlast ▸ Forest.Anc.refl _, fun h => absurd h (by simp), ?_⟩
      intro x ok hx
      simpa using hx

def connectAll (calls : BlockCalls σ ι) : List ι → σ → Option σ
  | [], store => some store
  | i :: l, store =>
    if (calls.connectBlock i store).1 then connectAll calls l (calls.connectBlock i store).2
    else none

structure ConnectEnded (calls : BlockCalls σ ι) (store : σ) (done rest : List ι) : Prop where
  connects : ∃ store', connectAll calls done store = some store' ∧
    ∀ i ∈ rest.head?, (calls.connectBlock i store').1 = false

/-- **How a walk over the blocks to connect ends**: after some of them, at the one whose call
    fails, if there is one. -/
theorem connectWalk_spec (calls : BlockCalls σ ι) (l : List ι) (w : CommitWalk σ ι)
    (hfail : w.pindexFail = none) :
    ∃ done rest, l = done ++ rest ∧ ConnectEnded calls w.state.store done rest ∧
      (connectWalk calls l w).pindexLast = done.getLast?.getD w.pindexLast ∧
      (connectWalk calls l w).pindexFail = rest.head? ∧
      ∀ x, .connect x false ∈ (connectWalk calls l w).log →
        .connect x false ∈ w.log ∨ x ∈ rest := by
  induction l generalizing w with
  | nil => exact ⟨[], [], rfl, ⟨_, rfl, by simp⟩, rfl, hfail, fun _ hx => .inl hx⟩
  | cons i l ih =>
    unfold connectWalk
    dsimp only
    split_ifs with hok
    · obtain ⟨done, rest, rfl, ⟨store', hall, hstop⟩, hlast, hend, hlog⟩ := ih (w.connected i _) rfl
      refine ⟨i :: done, rest, rfl, ⟨store', ?_, hstop⟩, ?_, hend, ?_⟩
      · rw [connectAll, if_pos hok]
        exact hall
      · rw [hlast, getLast?_cons]
        rfl
      · intro x hx
        rcases hlog x hx with hx | hx
        · exact .inl (by simpa [CommitWalk.connected] using hx)
        · exact .inr hx
    · refine ⟨[], i :: l, rfl, ⟨_, rfl, by simpa using hok⟩, rfl, rfl, ?_⟩
      intro x hx
      rcases mem_append.mp hx with hx | hx
      · exact .inl hx
      · exact .inr (by simp_all)

/-! ## Where the walks end -/

/-- The checks that come before the first call pass. -/
structure CommitProceeds (t : BlockLinks ι) (calls : BlockCalls σ ι) (new : ι)
    (s : ChainState σ ι) (vConnect vDisconnect : List ι) : Prop where
  enabled : calls.enabled = true
  branches : getCommitBranches t s.pindexBest new = some (vConnect, vDisconnect)
  valid : (leavesBest t s new && chainInvalid s vConnect) = false
  data : missingData (archiveNew t calls new s) new vConnect = false
  readable : blocksReadable calls (archiveNew t calls new s) new vConnect vDisconnect = true

theorem CommitProceeds.eq {new : ι} (h : CommitProceeds t calls new s vConnect vDisconnect) :
    coreCommitBlock t calls new s =
      ((commitWalk t calls new vConnect vDisconnect (archiveNew t calls new s)).pindexFail.isNone,
        commitFin t s.pindexBest new
          (commitWalk t calls new vConnect vDisconnect (archiveNew t calls new s)),
        (commitWalk t calls new vConnect vDisconnect (archiveNew t calls new s)).log) := by
  simp only [coreCommitBlock, h.enabled, h.branches, h.valid, h.data, h.readable, Bool.not_true,
    Bool.false_eq_true, if_false]

@[simp] theorem archiveNew_best (t : BlockLinks ι) (calls : BlockCalls σ ι) (new : ι)
    (s : ChainState σ ι) : (archiveNew t calls new s).pindexBest = s.pindexBest := by
  simp only [archiveNew, keepUndo, ChainState.setStatus]
  split_ifs <;> rfl

theorem coreCommitBlock_refused {new : ι} (h : ∀ c d, ¬ CommitProceeds t calls new s c d) :
    (coreCommitBlock t calls new s).2 = (s, []) ∨
      (coreCommitBlock t calls new s).2 = (archiveNew t calls new s, []) ∨
      (coreCommitBlock t calls new s).2 =
        (commitFin t s.pindexBest new (.start (archiveNew t calls new s)), []) := by
  unfold coreCommitBlock
  split
  · exact .inl rfl
  · rename_i henabled
    split
    · exact .inl rfl
    · rename_i c d hbranches
      dsimp only
      split_ifs with hvalid hdata hread
      · exact .inl rfl
      · exact .inr (.inl rfl)
      · exact .inr (.inr rfl)
      · exact absurd ⟨by simpa using henabled, hbranches, by simpa using hvalid,
          by simpa using hdata, by simpa using hread⟩ (h c d)

theorem coreCommitBlock_stays {new : ι} (h : ∀ c d, ¬ CommitProceeds t calls new s c d) :
    (coreCommitBlock t calls new s).2.1.pindexBest = s.pindexBest ∧
      (coreCommitBlock t calls new s).2.2 = [] := by
  rcases coreCommitBlock_refused h with heq | heq | heq <;> rw [heq]
  · exact ⟨rfl, rfl⟩
  · exact ⟨archiveNew_best t calls new s, rfl⟩
  · -- the best block is not its own parent
    have hne : t.parent s.pindexBest ≠ some s.pindexBest := by
      intro hp
      have := t.height_parent hp
      omega
    simp [commitFin, CommitWalk.start, hne]

/-- How the two walks end: on the old chain, or above the fork. -/
structure CommitEnded (t : BlockLinks ι) (calls : BlockCalls σ ι) (s : ChainState σ ι) (f : ι)
    (vConnect vDisconnect : List ι) (w : CommitWalk σ ι) : Prop where
  tip : w.pindexLast = connectedTip t s.pindexBest w.log
  stopped : (t.Anc w.pindexLast s.pindexBest ∧ ∀ x ok, .connect x ok ∉ w.log) ∨
    ∃ done rest, vConnect = done ++ rest ∧ w.pindexLast = done.getLast?.getD f ∧
      (∀ x, .connect x false ∈ w.log → x ∈ rest) ∧
      (vDisconnect = [] → ConnectEnded calls s.store done rest)

theorem commitWalk_ended (calls : BlockCalls σ ι) (new : ι) {f : ι} (vConnect : List ι)
    {vDisconnect : List ι} (hd : t.Branch f s.pindexBest vDisconnect) :
    CommitEnded t calls s f vConnect vDisconnect
      (commitWalk t calls new vConnect vDisconnect s) := by
  have htip := disconnectWalk_tip t calls new s.pindexBest vDisconnect (.start s) rfl
  obtain ⟨hanc, hend, hlog⟩ := disconnectWalk_spec calls new hd (w := .start s) rfl
  have hstart : vDisconnect = [] →
      (disconnectWalk t calls new vDisconnect (.start s)).state.store = s.store := by
    rintro rfl
    rfl
  unfold commitWalk
  generalize disconnectWalk t calls new vDisconnect (.start s) = w at htip hanc hend hlog hstart ⊢
  have hnone : ∀ x ok, .connect x ok ∉ w.log := by
    intro x ok hx
    exact absurd (hlog x ok hx) (by simp [CommitWalk.start])
  dsimp only
  cases hfail : w.pindexFail with
  | some i => exact ⟨htip, .inl ⟨hanc, hnone⟩⟩
  | none =>
    have htip' := connectWalk_tip t calls s.pindexBest vConnect w htip
    obtain ⟨done, rest, hc, hcalls, hlast, _, hlog'⟩ := connectWalk_spec calls vConnect w hfail
    rw [hend hfail] at hlast
    have hrest : ∀ x, .connect x false ∈ (connectWalk calls vConnect w).log → x ∈ rest := by
      intro x hx
      exact (hlog' x hx).resolve_left (hnone x false)
    have hstop : vDisconnect = [] → ConnectEnded calls s.store done rest := by
      intro h
      exact hstart h ▸ hcalls
    simp only [isSome_none, Bool.false_eq_true, if_false]
    split_ifs
    all_goals exact ⟨htip', .inr ⟨done, rest, hc, hlast, hrest, hstop⟩⟩

/-! ## The best block -/

theorem commitFin_best (t : BlockLinks ι) (pbest new : ι) (w : CommitWalk σ ι) :
    (commitFin t pbest new w).pindexBest =
      if t.parent w.pindexLast = some pbest then new else w.pindexLast := by
  unfold commitFin
  by_cases h : t.parent w.pindexLast = some pbest
  · simp [h]
  · rw [if_pos h, if_neg h]
    cases w.pindexFail <;> rfl

/-- **The failing kind of commit**: the checks pass, nothing has to be disconnected, the new block
    lies two or more blocks above the best block, the first of these connects and the second does
    not. -/
def StopsAfterFirst (t : BlockLinks ι) (calls : BlockCalls σ ι) (new : ι) (s : ChainState σ ι) :
    Prop :=
  ∃ a b rest, CommitProceeds t calls new s (a :: b :: rest) [] ∧
    (calls.connectBlock a (archiveNew t calls new s).store).1 = true ∧
    (calls.connectBlock b (calls.connectBlock a (archiveNew t calls new s).store).2).1 = false

theorem StopsAfterFirst.walk {new a b : ι} {rest : List ι}
    (ha : (calls.connectBlock a s.store).1 = true)
    (hb : (calls.connectBlock b (calls.connectBlock a s.store).2).1 = false) :
    (commitWalk t calls new (a :: b :: rest) [] s).pindexLast = a := by
  simp [commitWalk, disconnectWalk, connectWalk, CommitWalk.start, CommitWalk.connected,
    ChainState.setHaveData, ChainState.setStatus, ha, hb]

omit [DecidableEq ι] in
theorem branch_split {f new : ι} (done rest : List ι) (h : t.Branch f new (done ++ rest).reverse) :
    t.Branch (done.getLast?.getD f) new rest.reverse ∧
      t.Branch f (done.getLast?.getD f) done.reverse := by
  rw [reverse_append] at h
  obtain ⟨m, hm, hf⟩ := h.of_append
  have hhead := hf.head
  rw [head?_reverse] at hhead
  rw [hhead]
  exact ⟨hm, hf⟩

omit [DecidableEq ι] in
/-- If the last block reached is a child of the best block and is not the new one, then it is the
    first of several blocks, and the second has failed. -/
theorem stopped_after_first {pbest new f : ι} {done rest vDisconnect : List ι}
    (hfork : IsFork t pbest new f) (hc : t.Branch f new (done ++ rest).reverse)
    (hd : t.Branch f pbest vDisconnect) (hlast : t.parent (done.getLast?.getD f) = some pbest)
    (hne : done.getLast?.getD f ≠ new) :
    vDisconnect = [] ∧ ∃ a b rest', done = [a] ∧ rest = b :: rest' := by
  obtain ⟨hrest, hdone⟩ := branch_split _ _ hc
  have hbest : t.Anc pbest new := (Forest.Anc.parent hlast).trans hrest.anc
  have heq : pbest = f := (hfork.highest (Forest.Anc.refl _) hbest).eq_of_height
    (Forest.Anc.refl f) (Nat.le_antisymm
      (hfork.highest (Forest.Anc.refl _) hbest).height_le hfork.left.height_le)
  subst heq
  have hlen : done.length = 1 := by
    have h₁ := t.height_parent hlast
    have h₂ := hdone.height
    rw [length_reverse] at h₂
    omega
  obtain ⟨a, rfl⟩ := length_eq_one_iff.mp hlen
  refine ⟨hd.nil_of_self, a, ?_⟩
  cases rest with
  | nil => exact absurd hrest.eq_of_nil.symm hne
  | cons b rest' => exact ⟨b, rest', rfl, rfl⟩

theorem StopsAfterFirst.reached {new f : ι} {c d : List ι} (h : StopsAfterFirst t calls new s)
    (hp : CommitProceeds t calls new s c d) (hc : t.Branch f new c.reverse)
    (hd : t.Branch f s.pindexBest d) :
    t.parent (commitWalk t calls new c d (archiveNew t calls new s)).pindexLast =
        some s.pindexBest ∧
      (commitWalk t calls new c d (archiveNew t calls new s)).pindexLast ≠ new := by
  obtain ⟨a, b, rest, hp', ha, hb⟩ := h
  cases hp.branches.symm.trans hp'.branches
  have hsplit : t.Branch a new (b :: rest).reverse ∧ t.Branch f a [a] :=
    branch_split [a] (b :: rest) hc
  obtain ⟨hrest, hdone⟩ := hsplit
  cases hd
  rw [StopsAfterFirst.walk ha hb]
  refine ⟨?_, ?_⟩
  · cases hdone with
    | cons hpar hnil => exact hnil.eq_of_nil ▸ hpar
  · rintro rfl
    exact absurd hrest.nil_of_self (by simp)

theorem proceeds_best_iff {new f : ι} {c d : List ι} {w : CommitWalk σ ι}
    (hp : CommitProceeds t calls new s c d) (hfork : IsFork t s.pindexBest new f)
    (hc : t.Branch f new c.reverse) (hd : t.Branch f s.pindexBest d)
    (hend : CommitEnded t calls (archiveNew t calls new s) f c d w)
    (hw : w = commitWalk t calls new c d (archiveNew t calls new s)) :
    ((commitFin t s.pindexBest new w).pindexBest = connectedTip t s.pindexBest w.log ∧
      ∀ x, .connect x false ∈ w.log → (commitFin t s.pindexBest new w).pindexBest ≠ x) ↔
      ¬ StopsAfterFirst t calls new s := by
  obtain ⟨htip, hstopped⟩ := hend
  rw [archiveNew_best] at htip hstopped
  rw [commitFin_best, ← htip]
  have hstops : StopsAfterFirst t calls new s →
      t.parent w.pindexLast = some s.pindexBest ∧ w.pindexLast ≠ new :=
    fun h => hw ▸ h.reached hp hc hd
  by_cases hpar : t.parent w.pindexLast = some s.pindexBest
  · rw [if_pos hpar]
    rcases hstopped with ⟨hanc, _⟩ | ⟨done, rest, rfl, hlast, hrest, hcalls⟩
    · have h₁ := hanc.height_le
      have h₂ := t.height_parent hpar
      omega
    · by_cases hnew : w.pindexLast = new
      · have hnil : rest.reverse = [] := by
          have hbranch := (branch_split _ _ hc).1
          rw [← hlast, hnew] at hbranch
          exact hbranch.nil_of_self
        refine iff_of_true ⟨hnew.symm, ?_⟩ fun h => (hstops h).2 hnew
        intro x hx
        exact absurd (hrest x hx) (by simp [reverse_eq_nil_iff.mp hnil])
      · refine iff_of_false (fun h => hnew h.1.symm) (not_not.mpr ?_)
        obtain ⟨rfl, a, b, rest, rfl, rfl⟩ :=
          stopped_after_first hfork hc hd (hlast ▸ hpar) (hlast ▸ hnew)
        obtain ⟨store', hall, hfail⟩ := (hcalls rfl).connects
        simp only [connectAll, ite_none_right_eq_some, some.injEq] at hall
        obtain ⟨ha, rfl⟩ := hall
        exact ⟨a, b, rest, hp, ha, hfail b rfl⟩
  · rw [if_neg hpar]
    refine iff_of_true ⟨rfl, ?_⟩ fun h => hpar (hstops h).1
    intro x hx
    rcases hstopped with ⟨_, hnone⟩ | ⟨done, rest, rfl, hlast, hrest, _⟩
    · exact absurd hx (hnone x false)
    · -- the block that failed lies above the last one reached
      have hlt := (branch_split _ _ hc).1.height_lt (mem_reverse.mpr (hrest x hx))
      rw [← hlast] at hlt
      rintro rfl
      exact absurd hlt (Nat.lt_irrefl _)

/-- **After a commit the best block is the tip of the connected chain, and no block whose
    `ConnectBlock` failed, exactly when the commit does not stop after the first of several
    blocks.** -/
theorem best_is_connected_tip_iff (t : BlockLinks ι) (calls : BlockCalls σ ι) (new : ι)
    (s : ChainState σ ι) :
    ((coreCommitBlock t calls new s).2.1.pindexBest =
        connectedTip t s.pindexBest (coreCommitBlock t calls new s).2.2 ∧
      ∀ x, .connect x false ∈ (coreCommitBlock t calls new s).2.2 →
        (coreCommitBlock t calls new s).2.1.pindexBest ≠ x) ↔
      ¬ StopsAfterFirst t calls new s := by
  by_cases hproceeds : ∃ c d, CommitProceeds t calls new s c d
  · obtain ⟨c, d, hp⟩ := hproceeds
    obtain ⟨f, hfork, hc, hd⟩ := getCommitBranches_spec hp.branches
    have hend := commitWalk_ended calls new c (s := archiveNew t calls new s)
      (by rw [archiveNew_best]; exact hd)
    rw [hp.eq]
    exact proceeds_best_iff hp hfork hc hd hend rfl
  · have hnone := not_exists.mp hproceeds
    obtain ⟨hbest, hlog⟩ := coreCommitBlock_stays fun c => not_exists.mp (hnone c)
    rw [hbest, hlog]
    refine iff_of_true ⟨rfl, by simp⟩ ?_
    rintro ⟨a, b, rest, hp, _⟩
    exact hproceeds ⟨_, _, hp⟩

/-! ## A chain of three blocks -/

inductive SampleBlock where
  | genesis
  | first
  | second
  deriving DecidableEq

instance : Fintype SampleBlock where
  elems := {.genesis, .first, .second}
  complete b := by cases b <;> decide

def threeBlocks : BlockLinks SampleBlock where
  parent
    | .genesis => none
    | .first => some .genesis
    | .second => some .first
  height
    | .genesis => 0
    | .first => 1
    | .second => 2
  height_parent := by decide
  height_root := by decide
  pskip _ := none
  bnChainWork
    | .genesis => 1
    | .first => 2
    | .second => 3
  nVersion _ := 1
  nTime _ := 0

def lastFails : BlockCalls Unit SampleBlock where
  enabled := true
  readBlock _ _ := true
  writeArchBlock _ store := (true, store)
  connectBlock pindex store := (decide (pindex ≠ .second), store)
  disconnectInputs _ store := (true, store)
  settlePool _ _ store := store

def atGenesis : ChainState Unit SampleBlock where
  store := ()
  known _ := true
  nStatus i := ⟨3, decide (i ≠ .first), decide (i = .first), false, false, false⟩
  pnext _ := none
  pindexBest := .genesis
  pindexBestHeader := some .second
  bnBestChainWork := 1

/-- The first block connects, the second fails, and the second is the best block. -/
theorem failed_block_is_best :
    ¬ ((coreCommitBlock threeBlocks lastFails .second atGenesis).2.1.pindexBest =
        connectedTip threeBlocks .genesis
          (coreCommitBlock threeBlocks lastFails .second atGenesis).2.2 ∧
      ∀ x, .connect x false ∈ (coreCommitBlock threeBlocks lastFails .second atGenesis).2.2 →
        (coreCommitBlock threeBlocks lastFails .second atGenesis).2.1.pindexBest ≠ x) := by
  decide

end ShareCoin.Server
