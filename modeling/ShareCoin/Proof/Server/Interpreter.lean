import ShareCoin.Proof.Server.ScriptNum
import Mathlib.Data.Vector.Defs

/-!
# The bounds of the interpreter

Each opcode checks the depth of the stack before it looks at it, so no access is out of range
(`Harmless`), and what it pushes was on a stack or is short (`Grows`). One lemma says so for each of
the functions an opcode is made of; `execOp_meets` puts them together, `step_meets` adds the checks
around the `switch`, and the bounds of a whole evaluation are the rule of the loop.
-/

namespace ShareCoin.Server

open Lib
open List hiding Vector

/-! ## Errors and stacks -/

/-- The ends of a pass that make `EvalScript` return false, without an access out of range and
    without a failed assertion. -/
def Stop.Harmless (e : Stop) : Prop := e = .fail ∨ e = .thrown

/-- A computation that ends harmlessly or with `P`. -/
abbrev Safe {α : Type} (P : α → Prop) (f : Eval α) : Prop := Meets Stop.Harmless P f

/-- What is new is short. -/
def Grows (stack stack' : List Valtype) : Prop := ∀ vch ∈ stack', vch ∈ stack ∨ vch.length ≤ 520

variable {stack stack' : List Valtype}

theorem Grows.of_subset (h : stack' ⊆ stack) : Grows stack stack' :=
  fun _ hvch => .inl (h hvch)

variable {vch : Valtype} {opcode : UInt8} {script rest : CScript}

theorem Grows.cons (hvch : vch ∈ stack ∨ vch.length ≤ 520) (h : Grows stack stack') :
    Grows stack (vch :: stack') :=
  forall_mem_cons.mpr ⟨hvch, h⟩

theorem Grows.append {top rest : List Valtype} (htop : Grows stack top)
    (hrest : Grows stack rest) : Grows stack (top ++ rest) :=
  forall_mem_append.mpr ⟨htop, hrest⟩

theorem vchOfBool_length (f : Bool) : (vchOfBool f).length ≤ 520 := by
  cases f <;> decide

/-! ## The pieces of an operation -/

theorem require_meets (b : Bool) : Safe (fun _ => b = true) (require b) := by
  cases b with
  | false => exact .inl rfl
  | true => exact rfl

variable {α : Type} {P : α → Prop}

theorem require_bind {p : Prop} [Decidable p] {f : Eval α}
    (h : p → Safe P f) :
    Safe P (require (decide p) >>= fun _ => f) :=
  (require_meets _).bind fun _ hp => h (of_decide_eq_true hp)

theorem stacktop_meets {i : Nat} (h : i < stack.length) :
    Safe (fun vch => vch ∈ stack) (stacktop stack i) := by
  rw [stacktop, getElem?_eq_getElem h]
  exact getElem_mem h

/-- An operation that needs an element and looks at the one on top. -/
theorem top_bind {f : Valtype → Eval α}
    (h : 0 < stack.length → ∀ vch ∈ stack, Safe P (f vch)) :
    Safe P (require (1 ≤ stack.length) >>= fun _ => stacktop stack 0 >>= f) :=
  require_bind fun hlen => (stacktop_meets hlen).bind (h hlen)

theorem popstack_meets (h : 0 < stack.length) : Safe (· ⊆ stack) (popstack stack) := by
  cases stack with
  | nil => exact absurd h (by decide)
  | cons vch stack => exact subset_cons_self vch stack

theorem popAll_meets {k : Nat} (h : k ≤ stack.length) : Safe (· ⊆ stack) (popAll k stack) := by
  induction k generalizing stack with
  | zero => exact Subset.refl stack
  | succ k ih =>
    cases stack with
    | nil => exact absurd h (by simp)
    | cons vch stack =>
      exact (ih (Nat.le_of_succ_le_succ h)).imp fun _ => subset_cons_of_subset vch

theorem pickAll_meets {is : List Nat} (h : ∀ i ∈ is, i < stack.length) :
    Safe (fun top => top ⊆ stack) (pickAll stack is) := by
  induction is with
  | nil => exact nil_subset stack
  | cons i is ih =>
    obtain ⟨hi, his⟩ := forall_mem_cons.mp h
    refine Meets.bind (stacktop_meets hi) ?_
    intro vch hvch
    refine Meets.bind (ih his) ?_
    intro top htop
    exact cons_subset.mpr ⟨hvch, htop⟩

theorem pushBool_meets (verify fSuccess : Bool) (h : stack' ⊆ stack) :
    Safe (Grows stack) (pushBool verify fSuccess stack') := by
  have hrest : Grows stack stack' := .of_subset h
  cases verify with
  | false => exact hrest.cons (.inr (vchOfBool_length fSuccess))
  | true =>
    cases fSuccess with
    | false => exact .inl rfl
    | true => exact hrest

/-! ## Numbers -/

theorem castToBigNum_meets (vch : Valtype) :
    Safe (fun bn => bn.natAbs < 256 ^ 4) (castToBigNum vch) := by
  unfold castToBigNum
  split_ifs with h
  · exact .inr rfl
  · have hlt := numOfVch_lt vch
    have := Nat.pow_le_pow_right (by decide : 0 < 256) (Nat.not_lt.mp h)
    show (numOfVch vch).natAbs < 256 ^ 4
    omega

theorem number_bind {i : Nat} {f : Int → Eval α} (h : i < stack.length)
    (hf : ∀ bn : Int, bn.natAbs < 256 ^ 4 → Safe P (f bn)) :
    Safe P (stacktop stack i >>= fun vch => castToBigNum vch >>= f) :=
  (stacktop_meets h).bind fun vch _ => (castToBigNum_meets vch).bind hf

theorem scriptNum_meets (vch : Valtype) (fRequireMinimal : Bool) (nMaxNumSize : Nat) :
    Safe (fun _ => True) (scriptNum vch fRequireMinimal nMaxNumSize) := by
  unfold scriptNum
  split_ifs
  · exact .inr rfl
  · exact .inr rfl
  · exact trivial

theorem vchOfNum_short {bn : Int} (h : bn.natAbs < 256 ^ 5) : (vchOfNum bn).length ≤ 520 := by
  obtain ⟨hread, hmin⟩ := numOfVch_vchOfNum bn
  exact (minimal_length_le (k := 6) hmin (by rw [hread]; omega)).trans (by decide)

/-- The opcodes of the inner `switch`es. -/
def Op.Enabled : Op → Prop
  | .unary opcode => opcode ∈ ([0x8b, 0x8c, 0x8f, 0x90, 0x91, 0x92] : List UInt8)
  | .binary opcode =>
    opcode ∈ ([0x93, 0x94, 0x9a, 0x9b, 0x9c, 0x9d, 0x9e, 0x9f, 0xa0, 0xa1, 0xa2, 0xa3,
      0xa4] : List UInt8)
  | _ => True

theorem decodeRange_enabled (h : isDisabled opcode = false) : (decodeRange opcode).Enabled := by
  unfold decodeRange
  split_ifs
  all_goals simp only [Op.Enabled]
  all_goals simp [isDisabled, UInt8.le_iff_toNat_le, ← UInt8.toNat_inj] at *
  all_goals omega

/-- An opcode that is not disabled is known to the inner `switch` it gets to. -/
theorem decode_enabled (h : isDisabled opcode = false) : (decode opcode).Enabled := by
  unfold decode
  split
  all_goals first | exact trivial | exact decodeRange_enabled h

theorem unaryNum_meets {bn : Int} (hop : (Op.unary opcode).Enabled) (h : bn.natAbs < 256 ^ 4) :
    Safe (fun bn => bn.natAbs < 256 ^ 5) (unaryNum opcode bn) := by
  simp only [Op.Enabled, mem_cons, not_mem_nil, or_false] at hop
  rcases hop with rfl | rfl | rfl | rfl | rfl | rfl
  all_goals simp only [unaryNum, Meets]
  all_goals try split_ifs
  all_goals omega

theorem binaryNum_meets {bn1 bn2 : Int} (hop : (Op.binary opcode).Enabled)
    (h₁ : bn1.natAbs < 256 ^ 4) (h₂ : bn2.natAbs < 256 ^ 4) :
    Safe (fun bn => bn.natAbs < 256 ^ 5) (binaryNum opcode bn1 bn2) := by
  simp only [Op.Enabled, mem_cons, not_mem_nil, or_false] at hop
  rcases hop with rfl | rfl | rfl | rfl | rfl | rfl | rfl | rfl | rfl | rfl | rfl | rfl | rfl
  all_goals simp only [binaryNum, Meets]
  all_goals try split_ifs
  all_goals omega

/-! ## Time locks and signatures -/

section

variable (sig : CSignature) (flags : UInt32) (stack : List Valtype)

theorem checkLockTimeVerify_meets : Safe (fun _ => True) (checkLockTimeVerify sig flags stack) := by
  unfold checkLockTimeVerify
  split_ifs
  · exact trivial
  · refine top_bind fun hlen vch _ => ?_
    refine (scriptNum_meets vch true 4).bind fun nLockTime _ => ?_
    refine require_bind fun _ => ?_
    refine (require_meets _).bind fun _ _ => ?_
    refine require_bind fun _ => ?_
    exact (require_meets _).imp fun _ _ => trivial

theorem checkSequenceVerify_meets : Safe (fun _ => True) (checkSequenceVerify sig flags stack) := by
  unfold checkSequenceVerify
  split_ifs
  · exact trivial
  · refine top_bind fun hlen vch _ => ?_
    refine (scriptNum_meets vch _ 5).bind fun nSequence _ => ?_
    refine require_bind fun _ => ?_
    split_ifs
    · exact trivial
    · refine require_bind fun _ => ?_
      refine require_bind fun _ => ?_
      refine (require_meets _).bind fun _ _ => ?_
      exact (require_meets _).imp fun _ _ => trivial

end

section

variable (sig : CSignature) (sigver : SigVersion) (flags : UInt32)

theorem checkLowS_meets (vchSig : Valtype) :
    Safe (fun _ => True) (checkLowS sig sigver flags vchSig) := by
  unfold checkLowS
  split_ifs
  · exact .inr rfl
  · exact (require_meets _).imp fun _ _ => trivial
  · exact trivial

theorem dropSigs_meets {k isig : Nat} (scriptCode : CScript) (h : isig + k ≤ stack.length) :
    Safe (fun _ => True) (dropSigs sigver stack k isig scriptCode) := by
  induction k generalizing isig scriptCode with
  | zero => exact trivial
  | succ k ih =>
    refine (stacktop_meets (by omega)).bind fun vchSig _ => ?_
    exact ih _ (by omega)

theorem multiSigLoop_meets (scriptCode : CScript) {nKeysCount nSigsCount isig ikey : Nat}
    (hcount : nSigsCount ≤ nKeysCount) (hsig : isig + nSigsCount ≤ stack.length)
    (hkey : ikey + nKeysCount ≤ stack.length) :
    Safe (fun _ => True)
      (multiSigLoop sig sigver scriptCode stack nKeysCount nSigsCount isig ikey) := by
  induction nKeysCount generalizing nSigsCount isig ikey with
  | zero =>
    rw [Nat.le_zero.mp hcount, multiSigLoop]
    exact trivial
  | succ nKeysCount ih =>
    cases nSigsCount with
    | zero =>
      exact trivial
    | succ nSigsCount =>
      refine (stacktop_meets (by omega)).bind fun vchSig _ => ?_
      refine (stacktop_meets (by omega)).bind fun vchPubKey _ => ?_
      cases sig.checkSig vchSig vchPubKey scriptCode sigver with
      | false =>
        simp only [Bool.false_eq_true, ↓reduceIte]
        split_ifs with hleft
        · exact trivial
        · exact ih (by omega) (by omega) (by omega)
      | true =>
        simp only [↓reduceIte]
        split_ifs with hleft
        · exact trivial
        · exact ih (by omega) (by omega) (by omega)

/-! ## The opcodes -/

theorem shuffle_meets (need : Nat) (picks : List (Fin need)) (stack : List Valtype) :
    Safe (Grows stack) (shuffle need picks stack) := by
  refine require_bind fun hlen => ?_
  have hpicks : ∀ i ∈ picks.map fun i => i.val, i < stack.length :=
    forall_mem_map.mpr fun i _ => Nat.lt_of_lt_of_le i.isLt hlen
  refine (pickAll_meets hpicks).bind fun top htop => ?_
  exact (Grows.of_subset htop).append (.of_subset (drop_subset need stack))

theorem pick_meets (roll : Bool) (stack : List Valtype) : Safe (Grows stack) (pick roll stack) := by
  refine require_bind fun hlen => ?_
  refine number_bind (by omega) fun bn _ => ?_
  refine (popstack_meets (by omega)).bind fun rest hrest => ?_
  refine (require_meets _).bind fun _ hn => ?_
  simp only [Bool.and_eq_true, decide_eq_true_eq] at hn
  refine (stacktop_meets (by omega)).bind fun vch' hvch' => ?_
  apply Grows.cons (.inl (hrest hvch'))
  apply Grows.of_subset
  cases roll with
  | false => exact hrest
  | true => exact fun v hv => hrest (mem_of_mem_eraseIdx hv)

theorem binary_meets (hop : (Op.binary opcode).Enabled) (stack : List Valtype) :
    Safe (Grows stack) (binary opcode stack) := by
  refine require_bind fun hlen => ?_
  refine number_bind (by omega) fun bn1 h₁ => ?_
  refine number_bind (by omega) fun bn2 h₂ => ?_
  refine (binaryNum_meets hop h₁ h₂).bind fun bn hbn => ?_
  refine (popAll_meets hlen).bind fun rest hrest => ?_
  have hsub : Grows stack rest := .of_subset hrest
  split_ifs
  · refine (stacktop_meets (by simp)).bind fun vch _ => ?_
    refine (require_meets _).bind fun _ _ => ?_
    exact hsub
  · exact hsub.cons (.inr (vchOfNum_short hbn))

theorem within_meets (stack : List Valtype) : Safe (Grows stack) (within stack) := by
  refine require_bind fun hlen => ?_
  refine number_bind (by omega) fun bn1 _ => ?_
  refine number_bind (by omega) fun bn2 _ => ?_
  refine number_bind (by omega) fun bn3 _ => ?_
  refine (popAll_meets hlen).bind fun rest hrest => ?_
  have hsub : Grows stack rest := .of_subset hrest
  exact hsub.cons (.inr (vchOfBool_length _))

theorem checkSig_meets (verify : Bool) (pbegincodehash : CScript) (stack : List Valtype) :
    Safe (Grows stack) (checkSig sig sigver flags verify pbegincodehash stack) := by
  refine require_bind fun hlen => ?_
  refine (stacktop_meets (by omega)).bind fun vchSig _ => ?_
  refine (stacktop_meets (by omega)).bind fun vchPubKey _ => ?_
  refine (checkLowS_meets sig sigver flags vchSig).bind fun _ _ => ?_
  refine (popAll_meets hlen).bind fun rest hrest => ?_
  exact pushBool_meets verify _ hrest

theorem checkMultiSig_meets (verify : Bool) (pbegincodehash : CScript) (nOpCount : Nat)
    (stack : List Valtype) :
    Safe (fun r => Grows stack r.1 ∧ nOpCount ≤ r.2 ∧ r.2 ≤ 201)
      (checkMultiSig sig sigver verify pbegincodehash nOpCount stack) := by
  refine top_bind fun hlen vchKeys _ => ?_
  refine (castToBigNum_meets vchKeys).bind fun keys _ => ?_
  refine (require_meets _).bind fun _ _ => ?_
  generalize (getint keys).toNat = nKeysCount
  refine require_bind fun hcount => ?_
  refine require_bind fun hkeys => ?_
  refine number_bind (by omega) fun sigs _ => ?_
  refine (require_meets _).bind fun _ hsigs => ?_
  have hle : (getint sigs).toNat ≤ nKeysCount := by
    simp only [Bool.and_eq_true, decide_eq_true_eq] at hsigs
    omega
  generalize (getint sigs).toNat = nSigsCount at hle
  refine require_bind fun hall => ?_
  refine (dropSigs_meets sigver pbegincodehash (by omega)).bind fun scriptCode _ => ?_
  refine (multiSigLoop_meets sig sigver scriptCode hle (by omega) (by omega)).bind
    fun fSuccess _ => ?_
  refine (popAll_meets hall).bind fun rest hrest => ?_
  refine (pushBool_meets verify fSuccess hrest).bind
    fun stack' hstack' => ?_
  exact ⟨hstack', Nat.le_add_right _ _, hcount⟩

theorem condition_meets (negate : Bool) (stack : List Valtype) :
    Safe (fun r => Grows stack r.2) (condition sigver flags negate stack) := by
  refine top_bind fun hlen vch _ => ?_
  refine (require_meets _).bind fun _ _ => ?_
  refine (popstack_meets hlen).bind fun rest hrest => ?_
  exact .of_subset hrest

theorem hashBytes_length (opcode : UInt8) (vch : Valtype) :
    (hashBytes sig opcode vch).length ≤ 520 := by
  unfold hashBytes
  split_ifs <;> simp

end

theorem decode_number {n : Int} (h : decode opcode = .number n) : n.natAbs < 256 ^ 5 := by
  have hlt := opcode.toNat_lt
  unfold decode at h
  split at h
  all_goals try cases h
  unfold decodeRange at h
  split_ifs at h
  cases h
  omega

section

variable (sig : CSignature) (sigver : SigVersion) (flags : UInt32)

/-- The number that `OP_DEPTH` pushes is short if the stack is not too large afterwards. -/
theorem stackOp_meets (pbegincodehash : CScript) (hop : (decode opcode).Enabled)
    (hsmall : ∀ vch ∈ stack, vch.length ≤ 520) :
    Safe (fun stack' => stack'.length ≤ 1000 → Grows stack stack')
      (stackOp sig sigver flags pbegincodehash stack (decode opcode)) := by
  have hself : Grows stack stack := .of_subset (List.Subset.refl stack)
  generalize hdecode : decode opcode = op at hop
  cases op with
  | number n => exact fun _ => hself.cons (.inr (vchOfNum_short (decode_number hdecode)))
  | checkLockTimeVerify =>
    exact (checkLockTimeVerify_meets sig flags stack).map fun _ _ _ => hself
  | checkSequenceVerify =>
    exact (checkSequenceVerify_meets sig flags stack).map fun _ _ _ => hself
  | verify =>
    refine top_bind fun hlen vch _ => ?_
    refine (require_meets _).bind fun _ _ => ?_
    refine (popstack_meets hlen).imp fun rest hrest _ => ?_
    exact .of_subset hrest
  | shuffle need picks => exact (shuffle_meets need picks stack).imp fun _ h _ => h
  | ifDup =>
    refine top_bind fun hlen vch hvch => ?_
    intro _
    split_ifs
    · exact hself.cons (.inl hvch)
    · exact hself
  | depth =>
    intro hlen
    have hlt : ((stack.length : Nat) : Int).natAbs < 256 ^ 5 := by
      simp only [length_cons] at hlen
      omega
    exact hself.cons (.inr (vchOfNum_short hlt))
  | pick roll => exact (pick_meets roll stack).imp fun _ h _ => h
  | size =>
    refine top_bind fun hlen vch hvch => ?_
    have hlt : ((vch.length : Nat) : Int).natAbs < 256 ^ 5 := by
      have := hsmall vch hvch
      omega
    exact fun _ => hself.cons (.inr (vchOfNum_short hlt))
  | equal verify =>
    refine require_bind fun hlen => ?_
    refine (stacktop_meets (by omega)).bind fun vch1 _ => ?_
    refine (stacktop_meets (by omega)).bind fun vch2 _ => ?_
    refine (popAll_meets hlen).bind fun rest hrest => ?_
    exact (pushBool_meets verify _ hrest).imp fun _ h _ => h
  | unary opcode =>
    refine top_bind fun hlen vch _ => ?_
    refine (castToBigNum_meets vch).bind fun bn hbn => ?_
    refine (unaryNum_meets hop hbn).bind fun bn' hbn' => ?_
    refine (popstack_meets hlen).bind fun rest hrest => ?_
    intro _
    exact (Grows.of_subset hrest).cons (.inr (vchOfNum_short hbn'))
  | binary opcode => exact (binary_meets hop stack).imp fun _ h _ => h
  | within => exact (within_meets stack).imp fun _ h _ => h
  | hash opcode =>
    refine top_bind fun hlen vch _ => ?_
    refine (popstack_meets hlen).bind fun rest hrest => ?_
    intro _
    exact (Grows.of_subset hrest).cons (.inr (hashBytes_length sig opcode vch))
  | checkSig verify =>
    exact (checkSig_meets sig sigver flags verify pbegincodehash stack).imp fun _ h _ => h
  | checkAltProof =>
    refine require_bind fun hlen => ?_
    refine (stacktop_meets (by omega)).bind fun vchColor _ => ?_
    refine (stacktop_meets (by omega)).bind fun vchTx _ => ?_
    refine (popAll_meets hlen).bind fun rest hrest => ?_
    intro _
    exact (Grows.of_subset hrest).cons (.inr (vchOfBool_length _))
  | invalid => exact .inl rfl
  | nop | cond | orElse | endIf | toAltStack | fromAltStack | codeSeparator | checkMultiSig =>
    exact fun _ => hself

end

/-! ## Nesting and number of operations -/

/-- The depth of the conditionals after an operation; no value where it closes none. -/
def Op.nest : Op → Nat → Option Nat
  | .cond _, d => some (d + 1)
  | .orElse, 0 => none
  | .endIf, 0 => none
  | .endIf, d + 1 => some d
  | _, d => some d

/-- The depth of the conditionals at the end of a script that is entered at depth `d`. -/
def nesting (script : CScript) (d : Nat) : Option Nat :=
  if script = [] then some d
  else
    match _hop : getOp script with
    | none => none
    | some (opcode, _, rest) => ((decode opcode).nest d).bind (nesting rest)
termination_by script.length
decreasing_by exact getOp_length _hop

/-- Every conditional of the script is closed, and nothing else is. -/
def Balanced (script : CScript) : Prop := nesting script 0 = some 0

theorem nesting_of_getOp {d : Nat} (h : getOp script = some (opcode, vch, rest)) :
    nesting script d = ((decode opcode).nest d).bind (nesting rest) := by
  have hne : script ≠ [] := by
    rintro rfl
    cases h
  rw [nesting, if_neg hne]
  split
  · rename_i hnone
    rw [h] at hnone
    cases hnone
  · rename_i hsome
    rw [h] at hsome
    cases hsome
    rfl

theorem nesting_nil (d : Nat) : nesting [] d = some d := by
  rw [nesting, if_pos rfl]

/-- The number of operations of a script that are no pushes. -/
def opCount (script : CScript) : Nat :=
  match _hop : getOp script with
  | none => 0
  | some (opcode, _, rest) => (if 0x60 < opcode then 1 else 0) + opCount rest
termination_by script.length
decreasing_by exact getOp_length _hop

theorem opCount_of_getOp (h : getOp script = some (opcode, vch, rest)) :
    opCount script = (if 0x60 < opcode then 1 else 0) + opCount rest := by
  rw [opCount]
  split
  · rename_i hnone
    rw [h] at hnone
    cases hnone
  · rename_i hsome
    rw [h] at hsome
    cases hsome
    rfl

theorem opCount_nil : opCount [] = 0 := by
  rw [opCount]
  rfl

/-- Only the opcodes that are executed in every branch change the depth. -/
theorem decode_nest (h : (0x63 ≤ opcode && opcode ≤ 0x68) = false) (d : Nat) :
    (decode opcode).nest d = some d := by
  have hrange : (decodeRange opcode).nest d = some d := by
    unfold decodeRange
    split_ifs <;> rfl
  unfold decode
  split
  all_goals first | rfl | exact absurd h (by decide) | exact hrange

theorem decode_push (h : opcode ≤ opPushData4) (d : Nat) : (decode opcode).nest d = some d := by
  apply decode_nest
  simp [opPushData4, UInt8.le_iff_toNat_le] at *
  omega

/-! ## One pass -/

/-- What holds of the variables wherever the loop is entered. -/
structure EvalState.Bounded (s : EvalState) : Prop where
  count : s.nOpCount ≤ 201
  stack : ∀ vch ∈ s.stack, vch.length ≤ 520
  altstack : ∀ vch ∈ s.altstack, vch.length ≤ 520

theorem Grows.bounded (h : Grows stack stack')
    (hstack : ∀ vch ∈ stack, vch.length ≤ 520) : ∀ vch ∈ stack', vch.length ≤ 520 := by
  intro vch hvch
  rcases h vch hvch with hold | hshort
  · exact hstack vch hold
  · exact hshort

/-- What the `switch` leaves. -/
structure ExecOk (op : Op) (s s' : EvalState) : Prop where
  pc : s'.pc = s.pc
  count : s.nOpCount ≤ s'.nOpCount
  nest : op.nest s.vfExec.length = some s'.vfExec.length
  bounded : s'.stack.length ≤ 1000 → s'.Bounded

variable {s : EvalState}

section

variable (sig : CSignature) (sigver : SigVersion) (flags : UInt32)

theorem execOp_meets (hop : (decode opcode).Enabled) (hs : s.Bounded) :
    Safe (ExecOk (decode opcode) s) (execOp sig sigver flags (decode opcode) s) := by
  have hstack := stackOp_meets sig sigver flags s.pbegincodehash hop hs.stack
  -- the opcodes that change the stack only
  have honly : (∀ d, (decode opcode).nest d = some d) →
      Safe (ExecOk (decode opcode) s)
        ((stackOp sig sigver flags s.pbegincodehash s.stack (decode opcode)).map
          fun stack => { s with stack := stack }) := by
    intro hnest
    refine hstack.map fun stack hgrows => ?_
    refine ⟨rfl, Nat.le_refl _, hnest _, fun hlen => ?_⟩
    exact ⟨hs.count, (hgrows hlen).bounded hs.stack, hs.altstack⟩
  clear hstack
  generalize decode opcode = op at honly
  cases op with
  | cond negate =>
    unfold execOp
    split_ifs
    · refine (condition_meets sigver flags negate s.stack).bind fun r hr => ?_
      exact ⟨rfl, Nat.le_refl _, rfl, fun _ => ⟨hs.count, hr.bounded hs.stack, hs.altstack⟩⟩
    · exact ⟨rfl, Nat.le_refl _, rfl, fun _ => ⟨hs.count, hs.stack, hs.altstack⟩⟩
  | orElse | endIf =>
    unfold execOp
    dsimp only
    split
    · exact .inl rfl
    · rename_i hvf
      refine ⟨rfl, Nat.le_refl _, ?_, fun _ => ⟨hs.count, hs.stack, hs.altstack⟩⟩
      rw [hvf]
      rfl
  | toAltStack =>
    refine top_bind fun hlen vch hvch => ?_
    refine (popstack_meets hlen).bind fun rest hrest => ?_
    refine ⟨rfl, Nat.le_refl _, rfl, fun _ => ⟨hs.count, fun v hv => hs.stack v (hrest hv), ?_⟩⟩
    exact forall_mem_cons.mpr ⟨hs.stack vch hvch, hs.altstack⟩
  | fromAltStack =>
    refine top_bind fun hlen vch hvch => ?_
    refine (popstack_meets hlen).bind fun rest hrest => ?_
    refine ⟨rfl, Nat.le_refl _, rfl, fun _ => ⟨hs.count, ?_, fun v hv => hs.altstack v (hrest hv)⟩⟩
    exact forall_mem_cons.mpr ⟨hs.altstack vch hvch, hs.stack⟩
  | codeSeparator => exact ⟨rfl, Nat.le_refl _, rfl, fun _ => ⟨hs.count, hs.stack, hs.altstack⟩⟩
  | checkMultiSig verify =>
    refine (checkMultiSig_meets sig sigver verify s.pbegincodehash s.nOpCount s.stack).bind
      fun r hr => ?_
    exact ⟨rfl, hr.2.1, rfl, fun _ => ⟨hr.2.2, hr.1.bounded hs.stack, hs.altstack⟩⟩
  | _ => exact honly fun _ => rfl

/-- What holds wherever the loop is entered, in the evaluation of `script`. -/
structure EvalState.Inv (script : CScript) (s : EvalState) : Prop where
  bounded : s.Bounded
  nest : nesting s.pc s.vfExec.length = nesting script 0
  count : opCount script ≤ s.nOpCount + opCount s.pc

/-- What holds after a pass. -/
structure EvalState.Done (script : CScript) (s : EvalState) : Prop extends s.Inv script where
  size : s.stack.length + s.altstack.length ≤ 1000

theorem execRead_meets (hop : (decode opcode).Enabled) (hvch : vch.length ≤ 520) (hs : s.Bounded) :
    Safe (ExecOk (decode opcode) s) (execRead sig sigver flags opcode vch s) := by
  unfold execRead
  split_ifs with hpush hexec
  · simp only [Bool.and_eq_true, decide_eq_true_eq] at hpush
    refine ⟨rfl, Nat.le_refl _, decode_push hpush.2 _, fun _ => ⟨hs.count, ?_, hs.altstack⟩⟩
    exact forall_mem_cons.mpr ⟨hvch, hs.stack⟩
  · exact execOp_meets sig sigver flags hop hs
  · simp only [Bool.or_eq_true, not_or, Bool.not_eq_true] at hexec
    exact ⟨rfl, Nat.le_refl _, decode_nest hexec.2 _, fun _ => hs⟩

theorem read_bounded {pc : CScript} (hs : s.Bounded)
    (h : (decide (opcode ≤ 0x60) || decide ((s.read opcode pc).nOpCount ≤ 201)) = true) :
    (s.read opcode pc).Bounded := by
  refine ⟨?_, hs.stack, hs.altstack⟩
  simp only [Bool.or_eq_true, decide_eq_true_eq] at h
  rcases h with h | h
  · rw [EvalState.read, if_neg (UInt8.not_lt.mpr h)]
    exact hs.count
  · exact h

/-- **One pass of the interpreter.** It ends without an access out of range and without a failed
    assertion; it keeps the bounds, the nesting of what is left of the script and the count. -/
theorem step_meets {script : CScript} (hs : s.Inv script) :
    Safe (fun s' => s'.Done script ∧ s'.pc.length < s.pc.length) (step sig sigver flags s) := by
  unfold step
  split
  · exact .inl rfl
  · rename_i opcode vch pc hop
    refine require_bind fun hvch => ?_
    refine (require_meets _).bind fun _ hcount => ?_
    refine (require_meets _).bind fun _ henabled => ?_
    have hop' : (decode opcode).Enabled := decode_enabled (by simpa using henabled)
    have hread := execRead_meets sig sigver flags hop' hvch
      (read_bounded hs.bounded hcount)
    refine hread.bind fun s' hs' => ?_
    refine require_bind fun hlen => ?_
    have hpc : s'.pc = pc := hs'.pc
    have hnest : (decode opcode).nest s.vfExec.length = some s'.vfExec.length := hs'.nest
    have hmono := hs'.count
    have hscript := hs.count
    refine ⟨⟨⟨hs'.bounded (by omega), ?_, ?_⟩, hlen⟩, ?_⟩
    · rw [← hs.nest, nesting_of_getOp hop, hnest, hpc]
      rfl
    · rw [opCount_of_getOp hop] at hscript
      rw [hpc]
      dsimp only [EvalState.read] at hmono
      split_ifs at hmono hscript <;> omega
    · rw [hpc]
      exact getOp_length hop

/-! ## The whole evaluation -/

theorem evalRun_meets (stack : List Valtype) (script : CScript)
    (hstack : ∀ vch ∈ stack, vch.length ≤ 520) :
    (evalRun sig sigver flags stack script).passes ≤ script.length ∧
    (∀ s ∈ (evalRun sig sigver flags stack script).trace, s.Done script) ∧
    Safe (fun s => s.Inv script ∧ s.live = false)
      (evalRun sig sigver flags stack script).result := by
  unfold evalRun
  split_ifs
  · exact ⟨Nat.zero_le _, by simp, .inl rfl⟩
  · apply loop_meets (P := EvalState.Inv script) (Q := EvalState.Done script)
      fun s : EvalState => s.pc.length
    · intro s hlive
      simpa [EvalState.live, length_pos_iff] using hlive
    · intro s hs
      exact hs.toInv
    · intro s _ hs
      exact step_meets sig sigver flags hs
    · exact Nat.le_refl _
    · exact ⟨⟨Nat.zero_le _, hstack, by simp⟩, rfl, Nat.le_add_left _ _⟩

/-- **The bounds of the interpreter.** From a stack of elements of at most 520 bytes `EvalScript`
    executes at most as many operations as the script has bytes, makes no access out of range and
    fails no assertion. If it returns true, it counted at most 201 operations, among them all that
    are no pushes; after every pass the two stacks together had at most 1000 elements, each of at
    most 520 bytes; and the conditionals of the script are balanced. -/
theorem evalScript_bounded (stack : List Valtype) (script : CScript)
    (hstack : ∀ vch ∈ stack, vch.length ≤ 520) :
    (evalRun sig sigver flags stack script).passes ≤ script.length ∧
    (∀ e, (evalRun sig sigver flags stack script).result = .error e → e.Harmless) ∧
    ((evalScript sig sigver flags stack script).isSome = true →
      ∃ s, (evalRun sig sigver flags stack script).result = .ok s ∧
        opCount script ≤ s.nOpCount ∧ s.nOpCount ≤ 201 ∧ s.vfExec = [] ∧ Balanced script ∧
        ∀ s' ∈ (evalRun sig sigver flags stack script).trace,
          s'.stack.length + s'.altstack.length ≤ 1000 ∧
          ∀ vch ∈ s'.stack ++ s'.altstack, vch.length ≤ 520) := by
  obtain ⟨hpasses, htrace, hresult⟩ := evalRun_meets sig sigver flags stack script hstack
  refine ⟨hpasses, ?_, ?_⟩
  · intro e he
    rw [he] at hresult
    exact hresult
  · intro hsome
    unfold evalScript at hsome
    cases hrun : (evalRun sig sigver flags stack script).result with
    | error e =>
      rw [hrun] at hsome
      cases hsome
    | ok s =>
      rw [hrun] at hsome hresult
      obtain ⟨hs, hend⟩ := hresult
      have hpc : s.pc = [] := by simpa [EvalState.live] using hend
      have hvf : s.vfExec = [] := by
        by_contra hne
        simp [hne] at hsome
      refine ⟨s, rfl, ?_, hs.bounded.count, hvf, ?_, ?_⟩
      · have hcount := hs.count
        rwa [hpc, opCount_nil] at hcount
      · have hnest := hs.nest
        rw [hpc, hvf, nesting_nil] at hnest
        exact hnest.symm
      · intro s' hs'
        refine ⟨(htrace s' hs').size, ?_⟩
        intro vch hvch
        rcases mem_append.mp hvch with h | h
        · exact (htrace s' hs').bounded.stack vch h
        · exact (htrace s' hs').bounded.altstack vch h

end

/-! ## A sample -/

/-- The first bytes of a value stand for its hash. -/
def firstBytes (n : Nat) (vch : Valtype) : Vector UInt8 n := Vector.ofFn fun i => vch.getD i 0

/-- The only input of a transaction, which no signature signs. -/
def sampleSig (nLockTime : UInt32) : CSignature where
  iface := shcIface
  tx := { nFlag := 1, vin := [⟨⟨7, 0⟩, [], 0⟩], vout := [], nLockTime := nLockTime,
          matrix := .null, ext := [] }
  nTxIn := 0
  nTxIn_lt := Nat.zero_lt_one
  checkSig _ _ _ _ := false
  checkLowS _ := true
  ripemd160 := firstBytes 20
  sha1 := firstBytes 20
  sha256 := firstBytes 32
  hash160 := firstBytes 20
  hash256 := firstBytes 32
  verifyAltProof _ _ := false

/-- `OP_IF OP_1 OP_ENDIF` on a true element. -/
theorem if_endif_bounded :
    evalScript (sampleSig 0) .base 0 [[1]] [0x63, 0x51, 0x68] = some [[1]] ∧
    (evalRun (sampleSig 0) .base 0 [[1]] [0x63, 0x51, 0x68]).passes ≤ 3 ∧
    Balanced [0x63, 0x51, 0x68] := by
  have heval : evalScript (sampleSig 0) .base 0 [[1]] [0x63, 0x51, 0x68] = some [[1]] := by
    decide
  have hbounded := evalScript_bounded (sampleSig 0) .base 0 [[1]] [0x63, 0x51, 0x68] (by decide)
  obtain ⟨s, _, _, _, _, hbalanced, _⟩ := hbounded.2.2 (by rw [heval]; rfl)
  exact ⟨heval, hbounded.1, hbalanced⟩

/-! ## The lock time -/

/-- BIP65 lets the number pass. -/
structure LockTimePasses (sig : CSignature) (n : Int) : Prop where
  nonneg : 0 ≤ n
  sameKind : n < locktimeThreshold ↔ sig.tx.nLockTime.toNat < locktimeThreshold
  le : n ≤ sig.tx.nLockTime.toNat
  notFinal : sig.txin.nSequence ≠ 0xFFFFFFFF

theorem require_bind_eq_ok {α : Type} {b : Bool} {f : Eval α} {a : α} :
    (require b >>= fun _ => f) = .ok a ↔ b = true ∧ f = .ok a := by
  cases b with
  | false | true => simp [require, bind, Except.bind]

/-- The number is read with a limit of four bytes, and has to be minimal. -/
theorem checkLockTimeVerify_eq_ok_iff {sig : CSignature} {flags : UInt32}
    (hflag : testFlag flags scriptVerifyCheckLockTimeVerify = true) :
    checkLockTimeVerify sig flags (vch :: stack) = .ok () ↔
      vch.length ≤ 4 ∧ isMinimal vch = true ∧ LockTimePasses sig (numOfVch vch) := by
  have htop : stacktop (vch :: stack) 0 = .ok vch := rfl
  have hlast {b : Bool} : require b = .ok () ↔ b = true := by
    cases b <;> simp [require]
  simp only [checkLockTimeVerify, hflag, Bool.not_true, Bool.false_eq_true, if_false]
  rw [require_bind_eq_ok, htop]
  change _ ∧ (scriptNum vch true 4 >>= fun _ => _) = _ ↔ _
  by_cases hread : vch.length ≤ 4 ∧ isMinimal vch = true
  · have hnum : scriptNum vch true 4 = .ok (numOfVch vch) := by
      rw [scriptNum, if_neg (by omega), if_neg (by simp [hread.2])]
    rw [hnum]
    change _ ∧ (require _ >>= fun _ => _) = _ ↔ _
    rw [require_bind_eq_ok, require_bind_eq_ok, require_bind_eq_ok, hlast]
    simp only [sameKind, length_cons, Bool.or_eq_true, Bool.and_eq_true, decide_eq_true_eq,
      bne_iff_ne, hread, true_and]
    constructor
    · rintro ⟨-, hpos, hkind, hle, hfinal⟩
      exact ⟨hpos, by omega, by omega, hfinal⟩
    · rintro ⟨hpos, hkind, hle, hfinal⟩
      exact ⟨by omega, hpos, by omega, by omega, hfinal⟩
  · have hthrow : scriptNum vch true 4 = .error .thrown := by
      rw [scriptNum]
      split_ifs with hlen hmin
      · rfl
      · rfl
      · exact absurd ⟨by omega, by simpa using hmin⟩ hread
    rw [hthrow]
    exact iff_of_false (fun h => by cases h.2) fun h => hread ⟨h.1, h.2.1⟩

/-- **`OP_CHECKLOCKTIMEVERIFY` is BIP65 for the numbers it can read**: where BIP65 lets one pass, it
    must have four bytes at most, and no more than it needs. -/
theorem checkLockTimeVerify_bip65_iff (sig : CSignature) (sigver : SigVersion) (flags : UInt32)
    (code : CScript) (vch : Valtype) (stack : List Valtype) (hlen : vch.length ≤ 5)
    (hflag : testFlag flags scriptVerifyCheckLockTimeVerify = true) :
    (stackOp sig sigver flags code (vch :: stack) .checkLockTimeVerify = .ok (vch :: stack) ↔
      LockTimePasses sig (numOfVch vch)) ↔
    (LockTimePasses sig (numOfVch vch) → vch.length ≠ 5 ∧ isMinimal vch = true) := by
  have hop : stackOp sig sigver flags code (vch :: stack) .checkLockTimeVerify =
      .ok (vch :: stack) ↔ checkLockTimeVerify sig flags (vch :: stack) = .ok () := by
    rw [stackOp]
    cases checkLockTimeVerify sig flags (vch :: stack) with
    | ok u | error e => simp [Except.map]
  have hfour : vch.length ≠ 5 ↔ vch.length ≤ 4 := by omega
  rw [hop, checkLockTimeVerify_eq_ok_iff hflag, hfour]
  tauto

/-- Block 5, against a transaction for block 7. -/
theorem checkLockTimeVerify_bip65_five :
    stackOp (sampleSig 7) .base scriptVerifyCheckLockTimeVerify [] [[5]] .checkLockTimeVerify =
      .ok [[5]] :=
  ((checkLockTimeVerify_bip65_iff (sampleSig 7) .base scriptVerifyCheckLockTimeVerify [] [5] []
    (by decide) (by decide)).mpr fun _ => ⟨by decide, by decide⟩).mpr
    ⟨by decide, by decide, by decide, by decide⟩

/-- The time `2^31`, in January 2038, in the five bytes that it needs: the transaction has that lock
    time, and the opcode throws. -/
theorem lock_time_2038_throws :
    LockTimePasses (sampleSig 0x80000000) (numOfVch [0, 0, 0, 0x80, 0]) ∧
    isMinimal [0, 0, 0, 0x80, 0] = true ∧
    stackOp (sampleSig 0x80000000) .base scriptVerifyCheckLockTimeVerify [] [[0, 0, 0, 0x80, 0]]
      .checkLockTimeVerify = .error .thrown :=
  ⟨⟨by decide, by decide, by decide, by decide⟩, by decide, rfl⟩

end ShareCoin.Server
