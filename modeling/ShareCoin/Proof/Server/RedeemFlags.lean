import ShareCoin.Proof.Server.Interpreter
import ShareCoin.Server.VerifyScript

/-!
# The flags of a redeem script

Three opcodes look at the flags when the base version is evaluated: the two time locks and the
signature check. What a flag adds is a check in front of what the opcode does without it
(`opCheck`), so an evaluation with flags succeeds exactly when the evaluation without them does and
every check on its way passes. `VerifyScript` evaluates a redeem script without flags, and leaves
out those checks.
-/

namespace ShareCoin.Server

open Lib

variable {scriptSig scriptPubKey : CScript}

section

variable (sig : CSignature) (flags : UInt32)

/-! ## What a flag adds -/

def opCheck (op : Op) (stack : List Valtype) : Bool :=
  match op with
  | .checkLockTimeVerify => (checkLockTimeVerify sig flags stack).isOk
  | .checkSequenceVerify => (checkSequenceVerify sig flags stack).isOk
  | .checkSig _ =>
    match stack with
    | _ :: vchSig :: _ => (checkLowS sig .base flags vchSig).isOk
    | _ => true
  | _ => true

/-- The check that the flags add to an operation that was read, if it is executed. -/
def readCheck (opcode : UInt8) (s : EvalState) : Bool :=
  if s.fExec && opcode ≤ opPushData4 then true
  else if s.fExec || (0x63 ≤ opcode && opcode ≤ 0x68) then
    opCheck sig flags (decode opcode) s.stack
  else true

def stepCheck (s : EvalState) : Bool :=
  match getOp s.pc with
  | none => true
  | some (opcode, _, _) => readCheck sig flags opcode s

def flagsPass (stack : List Valtype) (script : CScript) : Bool :=
  LoopChecks EvalState.live (step sig .base 0) (stepCheck sig flags) script.length
    { pc := script, pbegincodehash := script, stack := stack }

variable {sig flags} {s : EvalState}

theorem checkLockTimeVerify_zero (stack : List Valtype) :
    checkLockTimeVerify sig 0 stack = .ok () := rfl

theorem checkSequenceVerify_zero (stack : List Valtype) :
    checkSequenceVerify sig 0 stack = .ok () := rfl

theorem checkLowS_zero (vchSig : Valtype) : checkLowS sig .base 0 vchSig = .ok () := rfl

theorem eq_ok_of_isOk {x : Eval Unit} (h : x.isOk = true) : x = .ok () := by
  cases x with
  | ok a => rfl
  | error e => cases h

theorem eq_error_of_not_isOk {α : Type} {x : Eval α} (h : x.isOk = false) : ∃ e, x = .error e := by
  cases x with
  | ok a => cases h
  | error e => exact ⟨e, rfl⟩

theorem checkSig_cons (sigver : SigVersion) (verify : Bool) (pbegincodehash : CScript)
    (vchPubKey vchSig : Valtype) (rest : List Valtype) :
    checkSig sig sigver flags verify pbegincodehash (vchPubKey :: vchSig :: rest) =
      (checkLowS sig sigver flags vchSig).bind fun _ =>
        pushBool verify (sig.checkSig vchSig vchPubKey (dropSig sigver vchSig pbegincodehash)
          sigver) rest := rfl

theorem execOp_of_check {op : Op} (h : opCheck sig flags op s.stack = true) :
    execOp sig .base flags op s = execOp sig .base 0 op s := by
  cases op with
  | checkLockTimeVerify =>
    simp only [execOp, stackOp, checkLockTimeVerify_zero, eq_ok_of_isOk h]
  | checkSequenceVerify =>
    simp only [execOp, stackOp, checkSequenceVerify_zero, eq_ok_of_isOk h]
  | checkSig verify =>
    have heq : checkSig sig .base flags verify s.pbegincodehash s.stack =
        checkSig sig .base 0 verify s.pbegincodehash s.stack := by
      rcases hstack : s.stack with _ | ⟨vchPubKey, _ | ⟨vchSig, rest⟩⟩
      · rfl
      · rfl
      · rw [hstack] at h
        rw [checkSig_cons, checkSig_cons, eq_ok_of_isOk h, checkLowS_zero]
    simp only [execOp, stackOp, heq]
  | _ => rfl

theorem execOp_of_not_check {op : Op} (h : opCheck sig flags op s.stack = false) :
    ∃ e, execOp sig .base flags op s = .error e := by
  cases op with
  | checkLockTimeVerify | checkSequenceVerify =>
    obtain ⟨e, he⟩ := eq_error_of_not_isOk h
    refine ⟨e, ?_⟩
    simp only [execOp, stackOp, he]
    rfl
  | checkSig verify =>
    rcases hstack : s.stack with _ | ⟨vchPubKey, _ | ⟨vchSig, rest⟩⟩ <;> rw [hstack] at h
    · cases h
    · cases h
    · obtain ⟨e, he⟩ := eq_error_of_not_isOk h
      refine ⟨e, ?_⟩
      have heq : checkSig sig .base flags verify s.pbegincodehash s.stack = .error e := by
        rw [hstack, checkSig_cons, he]
        rfl
      simp only [execOp, stackOp, heq]
      rfl
  | _ => cases h

theorem execRead_of_check {opcode : UInt8} {vch : Valtype}
    (h : readCheck sig flags opcode s = true) :
    execRead sig .base flags opcode vch s = execRead sig .base 0 opcode vch s := by
  unfold readCheck at h
  unfold execRead
  split_ifs at h ⊢
  · rfl
  · exact execOp_of_check h
  · rfl

theorem execRead_of_not_check {opcode : UInt8} {vch : Valtype}
    (h : readCheck sig flags opcode s = false) :
    ∃ e, execRead sig .base flags opcode vch s = .error e := by
  unfold readCheck at h
  unfold execRead
  split_ifs at h ⊢
  exact execOp_of_not_check h

theorem step_of_check (h : stepCheck sig flags s = true) :
    step sig .base flags s = step sig .base 0 s := by
  unfold stepCheck at h
  unfold step
  cases hop : getOp s.pc with
  | none => rfl
  | some op =>
    obtain ⟨opcode, vch, pc⟩ := op
    rw [hop] at h
    have hread : execRead sig .base flags opcode vch (s.read opcode pc) =
        execRead sig .base 0 opcode vch (s.read opcode pc) := execRead_of_check h
    simp only [hread]

theorem step_of_not_check (h : stepCheck sig flags s = false) :
    ∃ e, step sig .base flags s = .error e := by
  unfold stepCheck at h
  unfold step
  cases hop : getOp s.pc with
  | none => exact ⟨.fail, rfl⟩
  | some op =>
    obtain ⟨opcode, vch, pc⟩ := op
    rw [hop] at h
    have hread : ∃ e, execRead sig .base flags opcode vch (s.read opcode pc) = .error e :=
      execRead_of_not_check h
    obtain ⟨e, he⟩ := hread
    apply Meets.stops (E := fun _ => True)
    refine (meets_true _).bind fun _ _ => ?_
    refine (meets_true _).bind fun _ _ => ?_
    refine (meets_true _).bind fun _ _ => ?_
    rw [he]
    exact trivial

/-! ## Evaluations -/

/-- **An evaluation with flags** succeeds, with the same stack, exactly when the evaluation without
    them does and every check that they add on its way passes. -/
theorem evalScript_flags {stack stack' : List Valtype} {script : CScript} :
    evalScript sig .base flags stack script = some stack' ↔
      evalScript sig .base 0 stack script = some stack' ∧
        flagsPass sig flags stack script = true := by
  by_cases hlen : 10000 < script.length
  · simp [evalScript, evalRun, hlen]
  · have hloop : ∀ t, (evalRun sig .base flags stack script).result = .ok t ↔
        (evalRun sig .base 0 stack script).result = .ok t ∧
          flagsPass sig flags stack script = true := by
      intro t
      unfold evalRun
      rw [if_neg hlen, if_neg hlen]
      exact loop_eq_ok_iff (fun s => step_of_check) (fun s => step_of_not_check)
    unfold evalScript
    constructor
    · intro h
      cases hrun : (evalRun sig .base flags stack script).result with
      | error e =>
        rw [hrun] at h
        cases h
      | ok t =>
        obtain ⟨hrun₀, hpass⟩ := (hloop t).mp hrun
        rw [hrun] at h
        rw [hrun₀]
        exact ⟨h, hpass⟩
    · rintro ⟨h, hpass⟩
      cases hrun : (evalRun sig .base 0 stack script).result with
      | error e =>
        rw [hrun] at h
        cases h
      | ok t =>
        rw [hrun] at h
        rw [(hloop t).mpr ⟨hrun, hpass⟩]
        exact h

theorem evaluatesToTrue_flags {stack : List Valtype} {script : CScript}
    (h : evaluatesToTrue sig 0 .base stack script = true) :
    evaluatesToTrue sig flags .base stack script = true ↔
      flagsPass sig flags stack script = true := by
  unfold evaluatesToTrue at h
  split at h
  · rename_i top rest heval
    constructor
    · intro h'
      unfold evaluatesToTrue at h'
      split at h'
      · rename_i heval'
        exact (evalScript_flags.mp heval').2
      · cases h'
    · intro hpass
      rw [evaluatesToTrue, evalScript_flags.mpr ⟨heval, hpass⟩]
      exact h
  · cases h

/-! ## Pay-to-script-hash -/

def payToScriptHash (sig : CSignature) (redeem : CScript) : CScript :=
  opHash160 :: 0x14 :: ((sig.hash160 redeem).toList ++ [0x87])

theorem isPayToScriptHash_payToScriptHash (redeem : CScript) :
    isPayToScriptHash (payToScriptHash sig redeem) = true := by
  have hlen : (payToScriptHash sig redeem).length = 23 := by simp [payToScriptHash]
  have hdrop : (payToScriptHash sig redeem).drop 22 = [0x87] := by
    show ((sig.hash160 redeem).toList ++ [0x87]).drop 20 = _
    exact List.drop_left' (by simp)
  unfold isPayToScriptHash
  rw [if_pos (Nat.le_of_eq hlen), isScriptHash, hlen, hdrop]
  rfl

theorem verifyScript_accepts {witness : List Valtype}
    (h : verifyScript sig flags scriptSig witness scriptPubKey = true) :
    ∃ stackCopy bare redeem,
      evalScript sig .base flags [] scriptSig = some stackCopy ∧
      evaluatesToTrue sig flags .base stackCopy scriptPubKey = true ∧
      verifyBareWitness sig flags scriptSig witness scriptPubKey = some bare ∧
      verifyPayToScriptHash sig flags scriptSig witness scriptPubKey stackCopy = some redeem := by
  obtain ⟨_, h⟩ := Bool.and_eq_true_iff.mp h
  split at h
  · cases h
  · rename_i stackCopy hsig
    obtain ⟨heval, h⟩ := Bool.and_eq_true_iff.mp h
    split at h
    · rename_i bare redeem hbare hredeem
      exact ⟨stackCopy, bare, redeem, hsig, heval, hbare, hredeem⟩
    · cases h

theorem verifyPayToScriptHash_accepts {witness stackCopy : List Valtype} {redeem : Bool}
    (hp2sh : testFlag flags scriptVerifyP2sh = true)
    (hscript : isPayToScriptHash scriptPubKey = true)
    (h : verifyPayToScriptHash sig flags scriptSig witness scriptPubKey stackCopy = some redeem) :
    ∃ pubKey2 args, stackCopy = pubKey2 :: args ∧
      evaluatesToTrue sig 0 .base args pubKey2 = true := by
  unfold verifyPayToScriptHash at h
  simp only [hp2sh, hscript, Bool.and_self, Bool.not_true, Bool.false_eq_true, ↓reduceIte] at h
  split_ifs at h
  split at h
  · cases h
  · rename_i pubKey2 args
    split_ifs at h with heval
    exact ⟨pubKey2, args, rfl, heval⟩

/-- **A redeem script is evaluated without the flags.** Where `VerifyScript` accepts the spend of a
    pay-to-script-hash output, the redeem script evaluates to true on the remaining arguments with
    the same flags exactly when every check passes that they add to the opcodes on the way of the
    evaluation without them: the two time locks and the signature check. -/
theorem redeem_flags_hold_iff (sig : CSignature) (flags : UInt32) (scriptSig redeem : CScript)
    (witness args : List Valtype) (hp2sh : testFlag flags scriptVerifyP2sh = true)
    (hsig : evalScript sig .base flags [] scriptSig = some (redeem :: args))
    (haccept : verifyScript sig flags scriptSig witness (payToScriptHash sig redeem) = true) :
    evaluatesToTrue sig flags .base args redeem = true ↔
      flagsPass sig flags args redeem = true := by
  obtain ⟨stackCopy, _, _, hcopy, _, _, hredeem⟩ := verifyScript_accepts haccept
  rw [hsig] at hcopy
  obtain ⟨_, _, heq, heval⟩ := verifyPayToScriptHash_accepts hp2sh
    (isPayToScriptHash_payToScriptHash redeem) hredeem
  rw [← Option.some.inj hcopy] at heq
  cases heq
  exact evaluatesToTrue_flags heval

end

/-! ## Samples -/

def lockFlags : UInt32 := scriptVerifyP2sh ||| scriptVerifyCheckLockTimeVerify

def lockedFive : CScript := [0x55, 0xb1]

/-- At lock time 5 the time lock is open. -/
theorem lockedFive_open :
    verifyScript (sampleSig 5) lockFlags (pushData lockedFive) []
      (payToScriptHash (sampleSig 5) lockedFive) = true ∧
    evaluatesToTrue (sampleSig 5) lockFlags .base [] lockedFive = true := by
  have haccept : verifyScript (sampleSig 5) lockFlags (pushData lockedFive) []
      (payToScriptHash (sampleSig 5) lockedFive) = true := rfl
  refine ⟨haccept, ?_⟩
  exact (redeem_flags_hold_iff (sampleSig 5) lockFlags (pushData lockedFive) lockedFive [] []
    (by decide) rfl haccept).mpr rfl

/-- At lock time 0 it is closed, and the spend is accepted all the same. -/
theorem locked_redeem_accepted :
    isPushOnly (pushData lockedFive) = true ∧
    evalScript (sampleSig 0) .base lockFlags [] (pushData lockedFive) = some [lockedFive] ∧
    verifyScript (sampleSig 0) lockFlags (pushData lockedFive) []
      (payToScriptHash (sampleSig 0) lockedFive) = true ∧
    evaluatesToTrue (sampleSig 0) lockFlags .base [] lockedFive = false := by
  decide

end ShareCoin.Server
