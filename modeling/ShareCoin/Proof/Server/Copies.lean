import ShareCoin.Proof.Server.Status
import ShareCoin.Proof.Wire.CheckBlock

/-!
# Copies of a block

Blocks with one header have one index. A copy of a block whose transactions do not belong to the
header fails `CheckBlock`, and `core_AcceptBlock` marks the index as invalid. The header is refused
from then on, and the block that belongs to it with it.

A copy does no harm if it does not get to the checks of its body, or if it passes them and is not
refused by its own `ConnectBlock`. The index then has its data, and the block is accepted as one
that was processed before.
-/

namespace ShareCoin.Server

open Lib

variable {σ ι : Type} [DecidableEq ι] {t : BlockLinks ι} {i : ι} {s s₁ : ChainState σ ι}
  {env : Wire.CheckEnv}

/-! ## Bodies of a header -/

/-- A body that is submitted for a header: the verdicts of its checks against a store, and what its
    calls do. -/
structure BlockBody (σ ι : Type) where
  checks : σ → BlockChecks
  calls : BlockCalls σ ι

structure SameHeader (b c : BlockBody σ ι) : Prop where
  header : ∀ store, (c.checks store).header = (b.checks store).header
  headerContext : ∀ store, (c.checks store).headerContext = (b.checks store).headerContext

section

variable (t : BlockLinks ι) (i : ι) (s : ChainState σ ι)

def submit (b : BlockBody σ ι) : Bool × ChainState σ ι :=
  acceptBlock t (b.checks s.store) b.calls i s

def submitAll (copies : List (BlockBody σ ι)) : ChainState σ ι :=
  copies.foldl (fun s c => (submit t i s c).2) s

/-- **A copy that poisons the header**: its body gets checked, and fails `CheckBlock` or
    `ContextualCheckBlock`, or passes both and is refused by its own `ConnectBlock`. -/
def Poisons (c : BlockBody σ ι) : Prop :=
  (c.checks s.store).accept = true ∧ (c.checks s.store).inputs = true ∧
    ∃ s₁, coreAcceptBlockHeader t (c.checks s.store) i s = some s₁ ∧
      (s₁.nStatus i).haveData = false ∧
      ((c.checks s.store).block = false ∨ (c.checks s.store).blockContext = false ∨
        s.bnBestChainWork < t.bnChainWork i ∧
          ConnectRefused t c.calls i (markReceived (c.checks s.store) i s₁))

end

def Harmless (t : BlockLinks ι) (i : ι) : ChainState σ ι → List (BlockBody σ ι) → Prop
  | _, [] => True
  | s, c :: copies => ¬ Poisons t i s c ∧ Harmless t i (submit t i s c).2 copies

/-! ## One copy -/

section

variable (t : BlockLinks ι) (i : ι) (s : ChainState σ ι)

structure Processed : Prop where
  parent : ∃ p, t.parent i = some p ∧ s.known p = true
  known : s.known i = true
  valid : (s.nStatus i).failed = false
  data : (s.nStatus i).haveData = true

structure Marked : Prop where
  parent : ∃ p, t.parent i = some p ∧ s.known p = true
  known : s.known i = true
  failed : (s.nStatus i).failed = true

end

theorem SameHeader.eq {b c : BlockBody σ ι} (h : SameHeader b c) (t : BlockLinks ι) (i : ι)
    (s : ChainState σ ι) :
    coreAcceptBlockHeader t (c.checks s.store) i s =
      coreAcceptBlockHeader t (b.checks s.store) i s := by
  unfold coreAcceptBlockHeader
  rw [h.header, h.headerContext]

theorem header_accepted {checks : BlockChecks} {i p : ι} (hp : t.parent i = some p)
    (h : coreAcceptBlockHeader t checks i s = some s₁) :
    HeaderAccepted s s₁ i ∧ (s.known p = true → s₁.known p = true) ∧
      (s₁ = s ∨ (s₁.nStatus i).haveData = false) := by
  obtain ⟨hpass, rfl⟩ := coreAcceptBlockHeader_eq_some h
  refine ⟨hpass.accepted hp, fun hkp => (createBlockIndex_known t s i p).mpr (.inr hkp), ?_⟩
  by_cases hknown : s.known i = true
  · exact .inl (by rw [createBlockIndex, if_pos hknown])
  · exact .inr (createBlockIndex_noData t hknown)

theorem submit_stopped {c : BlockBody σ ι}
    (h : ((c.checks s.store).accept && (c.checks s.store).inputs) = false) :
    submit t i s c = (false, s) := by
  refine (acceptBlock_stops_or_opens t (c.checks s.store) c.calls i s).resolve_right ?_
  rintro ⟨s₁, ho⟩
  rw [ho.accept, ho.inputs] at h
  cases h

theorem submit_processed (h : Processed t i s) (b : BlockBody σ ι) :
    submit t i s b =
      ((b.checks s.store).accept && (b.checks s.store).inputs, s) := by
  obtain ⟨p, hp, -⟩ := h.parent
  cases hgoes : (b.checks s.store).accept && (b.checks s.store).inputs with
  | false => exact submit_stopped hgoes
  | true =>
    have ho : Opens t (b.checks s.store) i s s := by
      obtain ⟨haccept, hinputs⟩ := Bool.and_eq_true_iff.mp hgoes
      exact ⟨h.parent, haccept, hinputs, by simp [coreAcceptBlockHeader, hp, h.known, h.valid]⟩
    rw [submit, ho.acceptBlock_eq, acceptBody, if_pos h.data]

theorem submit_marked (h : Marked t i s) (b : BlockBody σ ι) : submit t i s b = (false, s) := by
  obtain ⟨p, hp, -⟩ := h.parent
  refine (acceptBlock_stops_or_opens t (b.checks s.store) b.calls i s).resolve_right ?_
  rintro ⟨s₁, ho⟩
  have hheader := ho.header
  simp [coreAcceptBlockHeader, hp, h.known, h.failed] at hheader

theorem submit_accepted {b : BlockBody σ ι} (h : (submit t i s b).1 = true) :
    ∃ s₁, Opens t (b.checks s.store) i s s₁ := by
  refine (acceptBlock_stops_or_opens t (b.checks s.store) b.calls i s).resolve_left fun hstops => ?_
  rw [submit, hstops] at h
  cases h

theorem markInvalid_marked (hparent : ∃ p, t.parent i = some p ∧ s.known p = true)
    (hknown : s.known i = true) :
    Marked t i (markInvalid i s) :=
  ⟨hparent, hknown, by simp [markInvalid, ChainState.setStatus, BlockStatus.failed]⟩

theorem markReceived_kept (checks : BlockChecks) (i : ι) (s : ChainState σ ι) :
    ((markReceived checks i s).nStatus i).failed = (s.nStatus i).failed ∧
      ((markReceived checks i s).nStatus i).haveData = true ∧
      (markReceived checks i s).known = s.known := by
  refine ⟨markReceived_failed checks i s, ?_, rfl⟩
  simp only [markReceived, ChainState.setStatus, Function.update_self, BlockStatus.raiseValidity]
  split_ifs <;> rfl

theorem setBestChain_status (t : BlockLinks ι) (calls : BlockCalls σ ι) (i : ι)
    (s : ChainState σ ι) :
    (setBestChain t calls i s).2.nStatus = (coreCommitBlock t calls i s).2.1.nStatus ∧
      (setBestChain t calls i s).2.known = (coreCommitBlock t calls i s).2.1.known := by
  unfold setBestChain
  dsimp only
  split_ifs
  · exact ⟨rfl, rfl⟩
  · exact ⟨rfl, rfl⟩

section Received

variable (checks : BlockChecks) (calls : BlockCalls σ ι)
  (hparent : ∃ p, t.parent i = some p ∧ s.known p = true) (hknown : s.known i = true)
  (hvalid : (s.nStatus i).failed = false)

include hparent hknown hvalid

theorem keepUndo_processed : Processed t i (keepUndo calls i i (markReceived checks i s)) := by
  obtain ⟨hfailed, hreceived, hsame⟩ := markReceived_kept checks i s
  have hkept := (keepUndo_moves (d := []) calls i i (markReceived checks i s)).marks
  exact ⟨hkept.known.trans hsame ▸ hparent, hkept.known.trans hsame ▸ hknown,
    (hkept.failed i).trans (hfailed.trans hvalid),
    (isInMainChain_keepUndo calls i i i _).trans hreceived⟩

theorem setBestChain_received :
    (ConnectRefused t calls i (markReceived checks i s) →
      Marked t i (setBestChain t calls i (markReceived checks i s)).2) ∧
    (¬ ConnectRefused t calls i (markReceived checks i s) →
      Processed t i (setBestChain t calls i (markReceived checks i s)).2) := by
  obtain ⟨hfailed, hreceived, hsame⟩ := markReceived_kept checks i s
  obtain ⟨hmarked, hkeeps, hkeepsKnown⟩ :=
    coreCommitBlock_new t calls (hfailed.trans hvalid) hreceived
  obtain ⟨hstatus, hcommitKnown⟩ := setBestChain_status t calls i (markReceived checks i s)
  have hsame' := (hcommitKnown.trans hkeepsKnown).trans hsame
  refine ⟨fun hrefused => ?_, fun hrefused => ?_⟩
  · exact ⟨hsame' ▸ hparent, hsame' ▸ hknown, hstatus ▸ hmarked.mpr hrefused⟩
  · refine ⟨hsame' ▸ hparent, hsame' ▸ hknown, ?_, hstatus ▸ hkeeps⟩
    rw [hstatus]
    exact Bool.eq_false_iff.mpr fun hf => hrefused (hmarked.mp hf)

end Received

/-- **One copy** of a block that is accepted: it poisons the header, or leaves the state, or has the
    block processed. -/
theorem submit_copy {b c : BlockBody σ ι} (hb : (submit t i s b).1 = true)
    (hsame : SameHeader b c) :
    (Poisons t i s c → Marked t i (submit t i s c).2) ∧
      (¬ Poisons t i s c → (submit t i s c).2 = s ∨ Processed t i (submit t i s c).2) := by
  obtain ⟨s₁, hopen⟩ := submit_accepted hb
  obtain ⟨p, hp, hknown⟩ := hopen.parent
  have hheader := (hsame.eq t i s).trans hopen.header
  obtain ⟨hs₁, hgrows, hsame₁⟩ := header_accepted hp hheader
  cases hstop : ((c.checks s.store).accept && (c.checks s.store).inputs) with
  | false =>
    rw [submit_stopped hstop]
    refine ⟨fun h => ?_, fun _ => .inl rfl⟩
    rw [h.1, h.2.1] at hstop
    cases hstop
  | true =>
    obtain ⟨haccept, hinputs⟩ := Bool.and_eq_true_iff.mp hstop
    have hparent₁ : ∃ p, t.parent i = some p ∧ s₁.known p = true := ⟨p, hp, hgrows hknown⟩
    have ho : Opens t (c.checks s.store) i s s₁ := ⟨hopen.parent, haccept, hinputs, hheader⟩
    rw [submit, ho.acceptBlock_eq, acceptBody]
    simp only [Poisons, haccept, hinputs, hheader, Option.some_inj, exists_eq_left',
      true_and]
    split_ifs with hdata hblock hcontext hwork
    · refine ⟨fun h => absurd h.1 (by simp [hdata]), fun _ => .inl (hsame₁.resolve_right ?_)⟩
      simp [hdata]
    · exact ⟨fun _ => markInvalid_marked hparent₁ hs₁.known,
        fun h => absurd ⟨by simpa using hdata, .inl (by simpa using hblock)⟩ h⟩
    · exact ⟨fun _ => markInvalid_marked hparent₁ hs₁.known,
        fun h => absurd ⟨by simpa using hdata, .inr (.inl (by simpa using hcontext))⟩ h⟩
    all_goals
      have hpasses : (c.checks s.store).block ≠ false ∧ (c.checks s.store).blockContext ≠ false :=
        ⟨by simpa using hblock, by simpa using hcontext⟩
      rw [hs₁.work] at hwork
    · refine ⟨fun h => ?_, fun _ => .inr (keepUndo_processed _ _ hparent₁ hs₁.known hs₁.valid)⟩
      rcases h.2 with hfalse | hfalse | ⟨hlt, -⟩
      · exact absurd hfalse hpasses.1
      · exact absurd hfalse hpasses.2
      · exact absurd hwork (Nat.not_le.mpr hlt)
    · obtain ⟨hmarked, hprocessed⟩ :=
        setBestChain_received (c.checks s.store) c.calls hparent₁ hs₁.known hs₁.valid
      refine ⟨fun h => ?_, fun h => .inr (hprocessed fun hr => h ?_)⟩
      · rcases h.2 with hfalse | hfalse | ⟨-, hrefused⟩
        · exact absurd hfalse hpasses.1
        · exact absurd hfalse hpasses.2
        · exact hmarked hrefused
      · exact ⟨by simpa using hdata, .inr (.inr ⟨Nat.lt_of_not_le hwork, hr⟩)⟩

/-! ## All copies -/

theorem submitAll_cons (t : BlockLinks ι) (i : ι) (s : ChainState σ ι) (c : BlockBody σ ι)
    (copies : List (BlockBody σ ι)) :
    submitAll t i s (c :: copies) = submitAll t i (submit t i s c).2 copies :=
  rfl

theorem submitAll_marked (h : Marked t i s) (copies : List (BlockBody σ ι)) :
    submitAll t i s copies = s := by
  induction copies with
  | nil => rfl
  | cons c copies ih => rw [submitAll_cons, submit_marked h, ih]

theorem submitAll_processed (h : Processed t i s) (copies : List (BlockBody σ ι)) :
    submitAll t i s copies = s ∧ Harmless t i s copies := by
  induction copies with
  | nil => exact ⟨rfl, trivial⟩
  | cons c copies ih =>
    have hsubmit : (submit t i s c).2 = s := by rw [submit_processed h]
    refine ⟨by rw [submitAll_cons, hsubmit, ih.1], fun hpoisons => ?_, hsubmit.symm ▸ ih.2⟩
    obtain ⟨-, -, s₁, hheader, hdata, -⟩ := hpoisons
    obtain ⟨p, hp, -⟩ := h.parent
    have hsame : coreAcceptBlockHeader t (c.checks s.store) i s = some s := by
      simp [coreAcceptBlockHeader, hp, h.known, h.valid]
    cases hsame.symm.trans hheader
    rw [h.data] at hdata
    cases hdata

/-- **A block after copies of it.** A block that would be accepted is accepted after any number of
    bodies were submitted for its header, exactly if none of them poisoned the header, and the
    checks that come before the one of the header still pass against the store that the copies
    left. -/
theorem accepted_after_copies_iff (t : BlockLinks ι) (i : ι) (s : ChainState σ ι)
    (b : BlockBody σ ι) (copies : List (BlockBody σ ι)) (hb : (submit t i s b).1 = true)
    (hsame : ∀ c ∈ copies, SameHeader b c) :
    (submit t i (submitAll t i s copies) b).1 = true ↔
      Harmless t i s copies ∧
        (b.checks (submitAll t i s copies).store).accept = true ∧
        (b.checks (submitAll t i s copies).store).inputs = true := by
  induction copies with
  | nil =>
    obtain ⟨s₁, ho⟩ := submit_accepted hb
    exact iff_of_true hb ⟨trivial, ho.accept, ho.inputs⟩
  | cons c copies ih =>
    obtain ⟨hpoison, hharmless⟩ := submit_copy hb (hsame c List.mem_cons_self)
    rw [submitAll_cons, Harmless]
    by_cases hpoisons : Poisons t i s c
    · have hmarked := hpoison hpoisons
      rw [submitAll_marked hmarked, submit_marked hmarked]
      exact iff_of_false Bool.false_ne_true fun h => h.1.1 hpoisons
    · rcases hharmless hpoisons with hleft | hprocessed
      · rw [hleft, ih (List.forall_mem_cons.mp hsame).2]
        exact ⟨fun h => ⟨⟨hpoisons, h.1⟩, h.2⟩, fun h => ⟨h.1.2, h.2⟩⟩
      · obtain ⟨hrun, hrest⟩ := submitAll_processed hprocessed copies
        rw [hrun, submit_processed hprocessed, Bool.and_eq_true_iff]
        exact ⟨fun h => ⟨⟨hpoisons, hrest⟩, h⟩, fun h => h.2⟩

/-! ## Bodies that do not belong to the header -/

/-- What is done with a block where the chain is needed: the verdicts on it against a store, and
    its calls. Those of `ContextualCheckBlockHeader` are the same for blocks with one header. -/
structure BlockContext (σ ι : Type) where
  checks : Wire.CBlock → σ → BlockChecks
  calls : Wire.CBlock → BlockCalls σ ι
  headerContext : ∀ block block' store, block.toCBlockHeader = block'.toCBlockHeader →
    (checks block store).headerContext = (checks block' store).headerContext

/-- A block as a body of its header. The verdicts of `CheckBlockHeader` and `CheckBlock` are
    computed. -/
def shcBody (env : Wire.CheckEnv) (context : BlockContext σ ι) (block : Wire.CBlock) :
    BlockBody σ ι where
  checks store := { context.checks block store with
    header := Wire.checkBlockHeader env true block.toCBlockHeader
    block := decide (Wire.checkBlock env block = some true) }
  calls := context.calls block

omit [DecidableEq ι] in
theorem shcBody_sameHeader (env : Wire.CheckEnv) (context : BlockContext σ ι)
    {block block' : Wire.CBlock} (h : block.toCBlockHeader = block'.toCBlockHeader) :
    SameHeader (shcBody env context block) (shcBody env context block') :=
  ⟨fun _ => by simp only [shcBody, h], fun store => context.headerContext _ _ store h.symm⟩

theorem checkBlock_mismatch {block : Wire.CBlock}
    (h : Wire.buildMerkleTree env.sha256 true block ≠ some block.hashMerkleRoot) :
    Wire.checkBlock env block ≠ some true := by
  unfold Wire.checkBlock
  cases Wire.checkBlockHeader env true block.toCBlockHeader with
  | false => simp
  | true =>
    cases hroot : Wire.buildMerkleTree env.sha256 true block with
    | none => simp
    | some root =>
      have hne : block.hashMerkleRoot ≠ root := fun heq => h (by rw [hroot, heq])
      simp [hne]

/-- **Once a body was submitted that does not belong to the header**, no valid one is accepted any
    more. The body has to pass the checks that come before that of the header: those of
    `AcceptBlock`, and `CheckTransactionInputs`. -/
theorem forged_body_blocks_header (t : BlockLinks ι) (i : ι) (s : ChainState σ ι)
    (context : BlockContext σ ι) {block forged : Wire.CBlock}
    (hvalid : (submit t i s (shcBody env context block)).1 = true)
    (hdata : (s.nStatus i).haveData = false)
    (hheader : block.toCBlockHeader = forged.toCBlockHeader)
    (haccept : (context.checks forged s.store).accept = true)
    (hinputs : (context.checks forged s.store).inputs = true)
    (hroot : Wire.buildMerkleTree env.sha256 true forged ≠ some forged.hashMerkleRoot)
    (copies : List (BlockBody σ ι)) :
    (submit t i (submitAll t i s (shcBody env context forged :: copies))
      (shcBody env context block)).1 = false := by
  have hsame := shcBody_sameHeader env context hheader
  obtain ⟨s₁, ho⟩ := submit_accepted hvalid
  obtain ⟨p, hp, -⟩ := ho.parent
  have hdata₁ : (s₁.nStatus i).haveData = false :=
    (header_accepted hp ho.header).2.2.elim (fun heq => heq ▸ hdata) id
  have hpoisons : Poisons t i s (shcBody env context forged) :=
    ⟨haccept, hinputs, s₁, (hsame.eq t i s).trans ho.header, hdata₁,
      .inl (decide_eq_false (checkBlock_mismatch hroot))⟩
  have hmarked := (submit_copy hvalid hsame).1 hpoisons
  rw [submitAll_cons, submitAll_marked hmarked, submit_marked hmarked]

def passingChecks : BlockChecks := ⟨true, true, true, true, true, true, false⟩

def passingCalls : BlockCalls Unit SampleBlock :=
  ⟨true, fun _ _ => true, fun _ s => (true, s), fun _ s => (true, s), fun _ s => (true, s),
    fun _ _ s => s⟩

def passingContext : BlockContext Unit SampleBlock where
  checks _ _ := passingChecks
  calls _ := passingCalls
  headerContext _ _ _ _ := rfl

def sampleBody (vtxinwit : List Wire.Stack) : BlockBody Unit SampleBlock :=
  shcBody Wire.checkEnvSample passingContext (Wire.sampleBlock vtxinwit)

theorem sampleBody_harmless : Harmless twoChildren .first genesisOnly [sampleBody [[[0]]]] := by
  refine ⟨?_, trivial⟩
  rintro ⟨-, -, s₁, -, -, hblock | hcontext | ⟨-, hrefused⟩⟩
  · exact absurd hblock (by decide +kernel)
  · cases hcontext
  · obtain ⟨_, _, _, _, -, -, -, hcall, -⟩ := hrefused
    cases hcall

theorem accepted_after_other_witness :
    (submit twoChildren .first
      (submitAll twoChildren .first genesisOnly [sampleBody [[[0]]]]) (sampleBody [])).1 = true :=
  (accepted_after_copies_iff twoChildren .first genesisOnly (sampleBody []) [sampleBody [[[0]]]]
    (by decide +kernel)
    (List.forall_mem_singleton.mpr (shcBody_sameHeader _ _ rfl))).mpr
    ⟨sampleBody_harmless, rfl, rfl⟩

/-- The header of the valid block over its coinbase alone. -/
def truncatedBlock : Wire.CBlock :=
  { Wire.sampleBlock [] with vtx := (Wire.sampleBlock []).vtx.take 1 }

theorem truncated_copy_blocks_header :
    (submit twoChildren .first (submitAll twoChildren .first genesisOnly
      [shcBody Wire.checkEnvSample passingContext truncatedBlock, sampleBody []])
      (sampleBody [])).1 = false :=
  @forged_body_blocks_header _ _ _ Wire.checkEnvSample twoChildren .first genesisOnly
    passingContext (Wire.sampleBlock []) truncatedBlock (by decide +kernel) rfl rfl rfl rfl
    (by decide +kernel) [sampleBody []]

theorem refused_after_truncated_copy :
    truncatedBlock.toCBlockHeader = (Wire.sampleBlock []).toCBlockHeader ∧
      Wire.checkBlock Wire.checkEnvSample (Wire.sampleBlock []) = some true ∧
      (submit twoChildren .first genesisOnly (sampleBody [])).1 = true ∧
      (submit twoChildren .first
        (submitAll twoChildren .first genesisOnly
          [shcBody Wire.checkEnvSample passingContext truncatedBlock])
        (sampleBody [])).1 = false ∧
      ((submitAll twoChildren .first genesisOnly
        [shcBody Wire.checkEnvSample passingContext truncatedBlock]).nStatus
          .first).failedValid = true := by
  decide +kernel

end ShareCoin.Server
