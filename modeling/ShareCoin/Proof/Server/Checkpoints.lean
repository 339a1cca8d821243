import ShareCoin.Server.Checkpoints

/-!
# A fork below the last checkpoint is let in

`VerifyCheckpoint` refuses a block only where `CheckBlock` does, and below the last checkpoint it
does not even ask. The node is protected from a block off the best chain exactly when its height is
not below the last checkpoint, and its time is not before it unless `CheckBlock` refuses it anyway.
-/

namespace ShareCoin.Server

variable {node : CheckpointNode} {block : TimedBlock} {nHeight : Int}

/-- What a block off the best chain has to meet: it is not below the last checkpoint, not before it,
    and its hash is the one that is known for its height. -/
structure Protected (node : CheckpointNode) (block : TimedBlock) (nHeight : Int) : Prop where
  height : ∀ c, node.lastCheckpoint = some c → c.nHeight ≤ nHeight
  time : ∀ c, node.lastCheckpoint = some c → c.nTime ≤ block.nTime
  known : node.checkBlock nHeight block.hash = true

/-- The last checkpoint is not above the block, nor after it unless `CheckBlock` refuses it. -/
def PastCheckpoint (node : CheckpointNode) (block : TimedBlock) (nHeight : Int) : Prop :=
  ∀ c, node.lastCheckpoint = some c →
    c.nHeight ≤ nHeight ∧ (c.nTime ≤ block.nTime ∨ node.checkBlock nHeight block.hash = false)

theorem verifyCheckpoint_below {c : TimedIndex} (hfork : block.hashPrevBlock ≠ node.best)
    (hlast : node.lastCheckpoint = some c) (hlt : nHeight < c.nHeight) :
    verifyCheckpoint node block nHeight = true := by
  rw [verifyCheckpoint, if_pos hfork, hlast]
  exact if_pos hlt

/-- Elsewhere the verdict is that of `CheckBlock`: the difference of the times is not negative. -/
theorem verifyCheckpoint_eq (h : ∀ c, node.lastCheckpoint = some c → c.nHeight ≤ nHeight) :
    verifyCheckpoint node block nHeight = node.checkBlock nHeight block.hash := by
  unfold verifyCheckpoint
  split_ifs with hfork
  · cases hlast : node.lastCheckpoint with
    | none => rfl
    | some c =>
      dsimp only
      rw [if_neg (Int.not_lt.mpr (h c hlast)), if_neg (by omega)]
  · rfl

theorem contextualCheckBlock_iff {checks : ContextChecks} {pindexPrev : Option TimedIndex} :
    contextualCheckBlock checks node block pindexPrev = true ↔
      checks.before block pindexPrev = true ∧
        verifyCheckpoint node block (heightOn pindexPrev) = true ∧
        checks.after block pindexPrev = true := by
  simp [contextualCheckBlock]

/-- **`VerifyCheckpoint` protects exactly the blocks past the checkpoint.** A fork below it is let
    in by `ContextualCheckBlock` exactly if the other checks pass. -/
theorem checkpoint_protects_iff (checks : ContextChecks) (node : CheckpointNode)
    (block : TimedBlock) (nHeight : Int) (pindexPrev : Option TimedIndex)
    (hfork : block.hashPrevBlock ≠ node.best) :
    ((verifyCheckpoint node block nHeight = true → Protected node block nHeight) ↔
      PastCheckpoint node block nHeight) ∧
    ((contextualCheckBlock checks node block pindexPrev = true →
        ∀ c, node.lastCheckpoint = some c → c.nHeight ≤ heightOn pindexPrev) ↔
      ∀ c, node.lastCheckpoint = some c → heightOn pindexPrev < c.nHeight →
        checks.before block pindexPrev = true → checks.after block pindexPrev = false) := by
  refine ⟨⟨fun h c hc => ?_, fun h hverify => ?_⟩, ?_⟩
  · by_cases hlt : nHeight < c.nHeight
    · exact absurd ((h (verifyCheckpoint_below hfork hc hlt)).height c hc) (Int.not_le.mpr hlt)
    · refine ⟨Int.not_lt.mp hlt, ?_⟩
      have hall : ∀ c', node.lastCheckpoint = some c' → c'.nHeight ≤ nHeight := by
        intro c' hc'
        rw [hc] at hc'
        cases hc'
        exact Int.not_lt.mp hlt
      cases hknown : node.checkBlock nHeight block.hash with
      | false => exact .inr rfl
      | true => exact .inl ((h ((verifyCheckpoint_eq hall).trans hknown)).time c hc)
  · have hknown := (verifyCheckpoint_eq fun c hc => (h c hc).1).symm.trans hverify
    refine ⟨fun c hc => (h c hc).1, fun c hc => ?_, hknown⟩
    exact (h c hc).2.resolve_right (by simp [hknown])
  · rw [contextualCheckBlock_iff]
    constructor
    · intro h c hc hlt hbefore
      rw [← Bool.not_eq_true]
      intro hafter
      exact absurd (h ⟨hbefore, verifyCheckpoint_below hfork hc hlt, hafter⟩ c hc)
        (Int.not_le.mpr hlt)
    · rintro h ⟨hbefore, -, hafter⟩ c hc
      by_contra hlt
      simp [h c hc (Int.not_le.mp hlt) hbefore] at hafter

/-- A node at block 2 that has the checkpoint 1 at height 5, and passes every other check. -/
def checkpointNode : CheckpointNode where
  index := fun hash => if hash = 1 then some ⟨5, 100⟩ else none
  best := 2
  checkpoints := some ⟨(∅ : Std.TreeMap Int Uint256).insert 5 1⟩

theorem block_past_checkpoint :
    PastCheckpoint checkpointNode ⟨9, 1, 200⟩ 6 ∧
      Protected checkpointNode ⟨9, 1, 200⟩ 6 := by
  have hpast : PastCheckpoint checkpointNode ⟨9, 1, 200⟩ 6 := by
    intro c hc
    have hc' : checkpointNode.lastCheckpoint = some ⟨5, 100⟩ := rfl
    rw [hc'] at hc
    cases hc
    exact ⟨by decide, .inl (by decide)⟩
  refine ⟨hpast, ?_⟩
  refine (checkpoint_protects_iff ⟨fun _ _ => true, fun _ _ => true⟩ checkpointNode ⟨9, 1, 200⟩ 6
    none (by decide)).1.mpr hpast ?_
  decide

/-- A fork at height 3, before the checkpoint's time, is let in. -/
theorem fork_below_checkpoint_passes :
    verifyCheckpoint checkpointNode ⟨9, 7, 50⟩ 3 = true ∧
      contextualCheckBlock ⟨fun _ _ => true, fun _ _ => true⟩ checkpointNode ⟨9, 7, 50⟩
        (some ⟨2, 10⟩) = true ∧
      checkpointNode.lastCheckpoint.map (·.nHeight) = some 5 := by
  decide

end ShareCoin.Server
