import ShareCoin.Server.CheckTransaction
import ShareCoin.Server.Ext

/-!
# Which scripts stop the node

`CheckTransaction` looks at opcodes one by one and lets all of them pass up to the last mode, so it
does not see what follows a mode. A lookup of extension outputs then fails its assertion on a mode
that is followed by anything but a small number.
-/

namespace ShareCoin.Server

open Option

/-- What follows a mode at the start of the script, if anything does, is a small number. -/
def ExtOpOk (script : CScript) : Prop :=
  ∀ mode item pc, getOp script = some (mode, item, pc) → isExtMode mode = true →
    ∀ op item' pc', getOp pc = some (op, item', pc') → op = 0 ∨ (0x51 ≤ op ∧ op ≤ 0x60)

theorem decodeOpN_isSome (opcode : UInt8) :
    (decodeOpN opcode).isSome = true ↔ opcode = 0 ∨ (0x51 ≤ opcode ∧ opcode ≤ 0x60) := by
  unfold decodeOpN
  split_ifs with h₀ h₁
  · simp [h₀]
  · simpa [h₀] using h₁
  · simpa [h₀] using h₁

/-- **A lookup in a script returns** exactly when the type it would decode is a number, whatever the
    type asked for. -/
theorem getExtOutputOfScript_isSome (script : CScript) (extMode : Int) :
    (getExtOutputOfScript script extMode).isSome = true ↔ ExtOpOk script := by
  unfold getExtOutputOfScript ExtOpOk
  cases hmode : getOp script with
  | none => simp
  | some r =>
    obtain ⟨mode, item, pc⟩ := r
    dsimp only
    by_cases hext : isExtMode mode = true
    · rw [if_pos hext]
      cases hop : getOp pc with
      | none =>
        refine iff_of_true rfl ?_
        intro _ _ _ heq _ _ _ _ hop'
        cases heq
        rw [hop] at hop'
        cases hop'
      | some r' =>
        obtain ⟨op, item', pc'⟩ := r'
        rw [isSome_map, decodeOpN_isSome]
        constructor
        · intro h _ _ _ heq _ _ _ _ hop'
          cases heq
          rw [hop] at hop'
          cases hop'
          exact h
        · intro h
          exact h mode item pc rfl hext op item' pc' hop
    · rw [if_neg hext]
      refine iff_of_true rfl ?_
      intro _ _ _ heq hext'
      cases heq
      exact absurd hext' hext

theorem getExtOutputOfScript_of_not_mode {script : CScript} {extMode : Int}
    (h : ¬ ∃ mode item pc, getOp script = some (mode, item, pc) ∧ isExtMode mode = true) :
    getExtOutputOfScript script extMode = some none := by
  unfold getExtOutputOfScript
  cases hop : getOp script with
  | none => rfl
  | some r =>
    obtain ⟨mode, item, pc⟩ := r
    have hext : ¬ isExtMode mode = true := fun hext => h ⟨mode, item, pc, hop, hext⟩
    simp only [hext]
    rfl

theorem getExtOutputOfScript_neg (script : CScript) (mode : UInt8) :
    getExtOutputOfScript script (-1) ≠ some (some mode) := by
  unfold getExtOutputOfScript
  cases getOp script with
  | none => simp
  | some r =>
    dsimp only
    by_cases hext : isExtMode r.1 = true
    · rw [if_pos hext]
      cases getOp r.2.2 with
      | none => simp
      | some r' =>
        intro h
        obtain ⟨op, _, h⟩ := map_eq_some_iff.mp h
        cases h
    · rw [if_neg hext]
      simp

theorem getExtOutputLoop_isSome {vout : List CTxOut}
    (h : ∀ out ∈ vout, ExtOpOk out.scriptPubKey) (extMode : Int) (nOut : Nat) :
    (getExtOutputLoop extMode nOut vout).isSome = true := by
  induction vout generalizing nOut with
  | nil => rfl
  | cons out vout ih =>
    have hout := (getExtOutputOfScript_isSome out.scriptPubKey extMode).mpr
      (h out List.mem_cons_self)
    rw [getExtOutputLoop]
    split
    · rename_i hnone
      rw [hnone] at hout
      cases hout
    · rfl
    · exact ih (List.forall_mem_cons.mp h).2 (nOut + 1)

/-- Looking for a type that does not exist, the loop gets to every output. -/
theorem extOpOk_of_loop {vout : List CTxOut} {nOut : Nat}
    (h : (getExtOutputLoop (-1) nOut vout).isSome = true) :
    ∀ out ∈ vout, ExtOpOk out.scriptPubKey := by
  induction vout generalizing nOut with
  | nil =>
    intro out hout
    cases hout
  | cons out vout ih =>
    rw [getExtOutputLoop] at h
    split at h
    · cases h
    · rename_i mode hmode
      exact absurd hmode (getExtOutputOfScript_neg _ mode)
    · rename_i hnone
      intro o ho
      rcases List.mem_cons.mp ho with rfl | ho
      · exact (getExtOutputOfScript_isSome o.scriptPubKey (-1)).mp (by rw [hnone]; rfl)
      · exact ih h o ho

/-- **Which transactions stop the node.** A lookup in a script returns exactly when what follows its
    mode is a small number; and all lookups of extension outputs in a transaction return exactly
    when this holds of all its outputs. -/
theorem ext_lookups_return_iff (script : CScript) (tx : CTransaction) :
    (∀ extMode, (getExtOutputOfScript script extMode).isSome = true ↔ ExtOpOk script) ∧
    ((∀ extMode, (getExtOutput tx extMode).isSome = true ∧
        (getExtOutputMode tx extMode).isSome = true) ∧
      (isParamTx tx).isSome = true ∧ (indexOfAssetOutput tx).isSome = true ∧
      (isValidateMatrixTx tx).isSome = true ↔
    ∀ out ∈ tx.vout, ExtOpOk out.scriptPubKey) := by
  refine ⟨getExtOutputOfScript_isSome script, ?_⟩
  constructor
  · intro h
    exact extOpOk_of_loop (h.1 (-1)).1
  · intro h
    have hloop : ∀ extMode, (getExtOutput tx extMode).isSome = true :=
      fun extMode => getExtOutputLoop_isSome h extMode 0
    refine ⟨fun extMode => ⟨hloop extMode, ?_⟩, ?_, ?_, ?_⟩
    · rw [getExtOutputMode, isSome_map]
      exact hloop extMode
    · unfold isParamTx
      split_ifs
      · rfl
      · rw [isSome_map]
        exact hloop opParam
    · rw [indexOfAssetOutput, isSome_map]
      exact hloop opAsset
    · unfold isValidateMatrixTx
      split_ifs
      · rfl
      · rw [isSome_map, getExtOutputMode, isSome_map]
        exact hloop opMatrix

/-- An output with a mode and `OP_DUP`, in a transaction that says it sets a parameter. -/
def dupAfterMode : CTransaction where
  nFlag := 0x101
  vin := [⟨⟨1, 0⟩, [], 0xFFFFFFFF⟩]
  vout := [⟨1, [0xf0, 0x76]⟩]
  nLockTime := 0
  matrix := CTxMatrix.null
  ext := []

/-- It passes `CheckTransaction`, and `IsParamTx` does not return. -/
theorem mode_then_dup_stops :
    checkTransaction ⟨fun _ => 1, fun _ => 100⟩ shcIface dupAfterMode = true ∧
    (∀ extMode, getExtOutput dupAfterMode extMode = none) ∧ isParamTx dupAfterMode = none := by
  refine ⟨rfl, ?_, rfl⟩
  intro extMode
  rfl

end ShareCoin.Server
