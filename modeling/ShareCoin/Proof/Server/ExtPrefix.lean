import ShareCoin.Proof.Server.RedeemFlags
import Mathlib.Tactic.IntervalCases

/-!
# The extension prefix and the form of a script

Three functions read the same prefix. `RemoveExtOutputPrefix` goes to the first `OP_2DROP`;
`IsPayToScriptHash` does the same, but only once; `IsWitnessProgram` expects a type, an operation, a
non-empty push and `OP_2DROP`, and counts the bytes in an `unsigned char`. First each of the last
two is described by the form it looks for, with and without a prefix. Then the forms are compared.
-/

namespace ShareCoin.Server

open Lib List Option

variable {opcode : UInt8}

/-! ## Operations of one byte -/

theorem pushData1_not_lt (h : opPushData4 < opcode) : ¬ opcode < opPushData1 :=
  UInt8.not_lt.mpr (UInt8.le_of_lt (UInt8.lt_trans (by decide) h))

variable {pc rest script : CScript} {item : Valtype} {t : CScript} {found : Nat × List UInt8}

theorem getOp_eq_cons (h : getOp pc = some (opcode, item, rest)) :
    ∃ data, pc = opcode :: (data ++ rest) ∧
      (opcode = 0 ∨ opPushData4 < opcode → data = [] ∧ item = []) := by
  cases pc with
  | nil => cases h
  | cons b pc =>
    have htake : ∀ k n, takeOperand b (pc.drop k) n = some (opcode, item, rest) →
        b = opcode ∧ pc = (pc.take k ++ (pc.drop k).take n) ++ rest := by
      intro k n hop
      unfold takeOperand at hop
      split_ifs at hop
      cases hop
      rw [append_assoc, take_append_drop, take_append_drop]
      exact ⟨rfl, rfl⟩
    -- the three long pushes
    have hlong : ∀ {c : UInt8} k n, takeOperand b (pc.drop k) n = some (opcode, item, rest) →
        c ≠ 0 ∧ ¬ opPushData4 < c → b = c → ∃ data, b :: pc = opcode :: (data ++ rest) ∧
          (opcode = 0 ∨ opPushData4 < opcode → data = [] ∧ item = []) := by
      rintro c k n hop ⟨hz, hlt⟩ rfl
      obtain ⟨rfl, hpc⟩ := htake k n hop
      exact ⟨_, congrArg (List.cons b) hpc, fun h => (h.elim hz hlt).elim⟩
    unfold getOp at h
    dsimp only at h
    split_ifs at h with h₁ h₂ _ h₃ _ h₄
    · obtain ⟨rfl, hpc⟩ := htake 0 b.toNat h
      refine ⟨_, congrArg (List.cons b) hpc, ?_⟩
      rintro (rfl | hlt)
      · simp only [takeOperand, UInt8.toNat_zero, Nat.not_lt_zero, if_false, take_zero,
          some.injEq, Prod.mk.injEq, true_and] at h
        simp [h.1]
      · exact absurd h₁ (pushData1_not_lt hlt)
    · exact hlong 1 _ h (by decide : opPushData1 ≠ 0 ∧ ¬ opPushData4 < opPushData1) h₂
    · exact hlong 2 _ h (by decide : opPushData2 ≠ 0 ∧ ¬ opPushData4 < opPushData2) h₃
    · exact hlong 4 _ h (by decide : opPushData4 ≠ 0 ∧ ¬ opPushData4 < opPushData4) h₄
    · cases h
      exact ⟨[], rfl, fun _ => ⟨rfl, rfl⟩⟩

theorem pushData_short {vch : List UInt8} (h : vch.length < 0x4c) :
    pushData vch = UInt8.ofNat vch.length :: vch := by
  simp [pushData, h, Nat.mod_eq_of_lt (Nat.lt_trans h (by decide : 0x4c < 256))]

theorem getOp_push {data : List UInt8} (h : data.length < 0x4c) (rest : CScript) :
    getOp (UInt8.ofNat data.length :: (data ++ rest)) =
      some (UInt8.ofNat data.length, data, rest) := by
  have hsize : (UInt8.ofNat data.length).toNat = data.length := by
    exact Nat.mod_eq_of_lt (by omega)
  have hlt : UInt8.ofNat data.length < opPushData1 := by
    rw [UInt8.lt_iff_toNat_lt, hsize]
    exact h
  rw [getOp, if_pos hlt, hsize, takeOperand, if_neg (by simp), take_left, drop_left]

theorem getOp_cons (h : opPushData4 < opcode) (rest : CScript) :
    getOp (opcode :: rest) = some (opcode, [], rest) := by
  have hne : ∀ push, ¬ opPushData4 < push → opcode ≠ push := by
    rintro push hpush rfl
    exact hpush h
  simp [getOp, pushData1_not_lt h, hne opPushData1 (by decide), hne opPushData2 (by decide),
    hne opPushData4 (by decide)]

theorem pushData4_lt (h : 0x51 ≤ opcode) : opPushData4 < opcode :=
  UInt8.lt_of_lt_of_le (by decide) h

theorem pushData4_lt_of_isExtMode {mode : UInt8} (h : isExtMode mode = true) :
    opPushData4 < mode := by
  simp only [isExtMode, Bool.and_eq_true, decide_eq_true_eq] at h
  exact UInt8.lt_of_lt_of_le (by decide) h.1

theorem getOp_rest_suffix (h : getOp pc = some (opcode, item, rest)) : rest <:+ pc := by
  obtain ⟨data, hpc, _⟩ := getOp_eq_cons h
  exact ⟨opcode :: data, hpc.symm⟩

/-! ## The form of a witness program -/

/-- A version, a length and as many bytes, between two and forty. -/
def programShape : CScript → Option (Nat × List UInt8)
  | vercode :: len :: program =>
    if 2 ≤ program.length ∧ program.length ≤ 40 ∧ len.toNat = program.length then
      (decodeOpN vercode).map fun version => (version, program)
    else none
  | _ => none

/-- What follows a type, an operation, a non-empty push and `OP_2DROP`. -/
def fixedTail (pc : CScript) : Option CScript := do
  let (_, _, pc) ← getOp pc
  let (_, _, pc) ← getOp pc
  let (_, vch, pc) ← getOp pc
  let (opcode, _, pc) ← if vch = [] then none else getOp pc
  if opcode ≠ op2Drop then none else some pc

/-- What follows the prefix that `IsWitnessProgram` knows. -/
def fixedPrefix : CScript → Option CScript
  | [] => none
  | mode :: pc => if isExtMode mode then fixedTail pc else none

/-- A witness program behind that prefix, which takes at most 253 bytes. -/
def fixedProgram (script : CScript) : Option (Nat × List UInt8) :=
  (fixedPrefix script).bind fun rest =>
    if script.length - rest.length ≤ 253 then programShape rest else none

theorem programShape_eq_none {vercode : UInt8} (h : decodeOpN vercode = none) :
    programShape (vercode :: pc) = none := by
  cases pc with
  | nil => rfl
  | cons len program => simp [programShape, h]

theorem ofNat_succ_toNat (n : Nat) : (UInt8.ofNat n + 1).toNat = (n + 1) % 256 := by
  simp

/-- The offset of the length wraps when the prefix is longer than 253 bytes, and then the length
    cannot be right. -/
theorem witnessTail_eq (front pc : CScript) (vercode : UInt8) :
    witnessTail (front ++ vercode :: pc) vercode pc =
      if front.length ≤ 253 then programShape (vercode :: pc) else none := by
  have hoff : (front ++ vercode :: pc).length - pc.length = front.length + 1 := by
    simp only [length_append, length_cons]
    omega
  cases hver : decodeOpN vercode with
  | none => simp [witnessTail, hver, programShape_eq_none hver]
  | some version =>
    simp only [witnessTail, hver, hoff, ofNat_succ_toNat, UInt8.toNat_ofNat', bind_eq_bind,
      bind_some]
    cases pc with
    | nil => simp [programShape]
    | cons len program =>
      simp only [length_append, length_cons]
      by_cases hsize : 2 ≤ program.length ∧ program.length ≤ 40
      · have hin : (decide (program.length + 1 + 1 < 4) ||
            decide (42 < program.length + 1 + 1)) = false := by
          simp only [Bool.or_eq_false_iff, decide_eq_false_iff_not]
          omega
        rw [hin]
        simp only [Bool.false_eq_true, ↓reduceIte]
        split_ifs with hfront
        · have h₁ : (front.length + 1) % 2 ^ 8 = front.length + 1 := by omega
          have h₂ : (front.length + 1 + 1) % 256 = front.length + 2 := by omega
          have hlen : (front ++ vercode :: len :: program)[front.length + 1]? = some len := by
            rw [getElem?_append_right (by omega), Nat.add_sub_cancel_left]
            rfl
          have hrest : (front ++ vercode :: len :: program).drop (front.length + 2) = program := by
            rw [drop_append, Nat.add_sub_cancel_left, drop_of_length_le (by omega)]
            rfl
          have hleft : front.length + (program.length + 1 + 1) - (front.length + 2) =
              program.length := by omega
          rw [h₁, h₂, hlen]
          simp [hrest, hleft, programShape, hver, hsize]
        · have hshort : ∀ sz : UInt8, sz.toNat ≠ front.length + (program.length + 1 + 1) -
              (front.length + 1 + 1) % 256 := by
            intro sz
            have := sz.toNat_lt
            omega
          cases (front ++ vercode :: len :: program)[(front.length + 1) % 2 ^ 8]? with
          | none => rfl
          | some sz => simp [hshort sz]
      · have hout : (decide (program.length + 1 + 1 < 4) ||
            decide (42 < program.length + 1 + 1)) = true := by
          simp only [Bool.or_eq_true, decide_eq_true_eq]
          omega
        have hshape : programShape (vercode :: len :: program) = none := by
          exact if_neg fun h => hsize ⟨h.1, h.2.1⟩
        rw [hout, hshape]
        simp

theorem witnessPrefix_eq (pc : CScript) :
    witnessPrefix pc =
      (fixedTail pc).bind fun rest => (getOp rest).map fun op => (op.1, op.2.2) := by
  unfold witnessPrefix fixedTail
  simp only [bind_eq_bind, bind_assoc]
  refine Option.bind_congr fun _ _ => Option.bind_congr fun _ _ => Option.bind_congr fun _ _ => ?_
  split_ifs
  · rfl
  · rw [bind_assoc]
    refine Option.bind_congr fun op _ => ?_
    split_ifs
    · rfl
    · exact map_eq_bind.symm

theorem fixedTail_suffix (h : fixedTail pc = some rest) : rest <:+ pc := by
  obtain ⟨⟨_, _, pc₁⟩, h₁, h⟩ := bind_eq_some_iff.mp h
  obtain ⟨⟨_, _, pc₂⟩, h₂, h⟩ := bind_eq_some_iff.mp h
  obtain ⟨⟨_, vch, pc₃⟩, h₃, h⟩ := bind_eq_some_iff.mp h
  dsimp only at h
  split_ifs at h
  · cases h
  obtain ⟨⟨_, _, pc₄⟩, h₄, h⟩ := bind_eq_some_iff.mp h
  split_ifs at h
  cases h
  exact (((getOp_rest_suffix h₄).trans (getOp_rest_suffix h₃)).trans (getOp_rest_suffix h₂)).trans
    (getOp_rest_suffix h₁)

theorem fixedPrefix_suffix (h : fixedPrefix script = some rest) : rest <:+ script := by
  cases script with
  | nil => cases h
  | cons mode pc =>
    simp only [fixedPrefix] at h
    split_ifs at h
    exact (fixedTail_suffix h).trans (suffix_cons mode pc)

theorem programShape_length (h : programShape script = some found) : 4 ≤ script.length := by
  unfold programShape at h
  split at h
  · split_ifs at h with hsize
    simp only [length_cons]
    omega
  · cases h

theorem getOp_of_decodeOpN {vercode : UInt8} {n : Nat} (h : decodeOpN vercode = some n)
    (pc : CScript) : getOp (vercode :: pc) = some (vercode, [], pc) := by
  unfold decodeOpN at h
  split_ifs at h with hz hrange
  · rw [hz]
    simp [getOp, takeOperand, opPushData1]
  · simp only [Bool.and_eq_true, decide_eq_true_eq] at hrange
    exact getOp_cons (pushData4_lt hrange.1) pc

theorem decodeOpN_encodeOpN : ∀ {n : Nat}, 1 ≤ n → n ≤ 16 →
    decodeOpN (encodeOpN n) = some n := by
  intro n hlo hhi
  interval_cases n <;> decide

theorem versionTail_eq (h : rest <:+ script) :
    ((getOp rest).bind fun op => witnessTail script op.1 op.2.2) =
      if script.length - rest.length ≤ 253 then programShape rest else none := by
  obtain ⟨front, rfl⟩ := h
  rw [length_append, Nat.add_sub_cancel]
  cases rest with
  | nil => simp [getOp, programShape]
  | cons vercode pc =>
    cases hver : decodeOpN vercode with
    | some version =>
      rw [getOp_of_decodeOpN hver]
      exact witnessTail_eq front pc vercode
    | none =>
      rw [programShape_eq_none hver, ite_self]
      cases hop : getOp (vercode :: pc) with
      | none => rfl
      | some op =>
        obtain ⟨data, hpc, _⟩ := getOp_eq_cons hop
        have hop₁ : op.1 = vercode := (List.cons.inj hpc).1.symm
        simp [witnessTail, hop₁, hver]

theorem fixedProgram_eq_none
    (h : ∀ mode pc, script = mode :: pc → isExtMode mode = false) : fixedProgram script = none := by
  unfold fixedProgram fixedPrefix
  cases script with
  | nil => rfl
  | cons mode pc => simp [h mode pc rfl]

theorem programShape_of_isExtMode {mode : UInt8} (h : isExtMode mode = true) (pc : CScript) :
    programShape (mode :: pc) = none := by
  apply programShape_eq_none
  simp only [isExtMode, Bool.and_eq_true, decide_eq_true_eq, UInt8.le_iff_toNat_le] at h
  have hz : mode ≠ 0 := by
    rintro rfl
    exact absurd h.1 (by decide)
  have hrange : ¬ ((decide (0x51 ≤ mode) && decide (mode ≤ 0x60)) = true) := by
    simp only [Bool.and_eq_true, decide_eq_true_eq, UInt8.le_iff_toNat_le]
    simp only [UInt8.reduceToNat] at *
    omega
  rw [decodeOpN, if_neg hz, if_neg hrange]

theorem fixedProgram_of_programShape (h : programShape script = some found) :
    fixedProgram script = none := by
  apply fixedProgram_eq_none
  rintro mode pc rfl
  rw [← Bool.not_eq_true]
  intro hmode
  rw [programShape_of_isExtMode hmode] at h
  cases h

/-- **`IsWitnessProgram`** finds the form of a witness program, bare or behind its prefix. -/
theorem isWitnessProgram_eq (script : CScript) :
    isWitnessProgram script = (programShape script).or (fixedProgram script) := by
  unfold isWitnessProgram
  by_cases hlen : script.length < 4
  · have hshape : ∀ rest : CScript, rest <:+ script → programShape rest = none := by
      intro rest hrest
      cases hfound : programShape rest with
      | none => rfl
      | some found =>
        have := programShape_length hfound
        have := hrest.length_le
        omega
    have hfixed : fixedProgram script = none := by
      unfold fixedProgram
      cases hfront : fixedPrefix script with
      | none => rfl
      | some rest => simp [hshape rest (fixedPrefix_suffix hfront)]
    simp [hlen, hshape script (suffix_refl script), hfixed]
  · simp only [hlen, ↓reduceIte]
    cases script with
    | nil => exact absurd (by decide) hlen
    | cons mode pc =>
      cases hmode : isExtMode mode with
      | true =>
        rw [getOp_cons (pushData4_lt_of_isExtMode hmode), programShape_of_isExtMode hmode]
        simp only [bind_eq_bind, bind_some, hmode, ↓reduceIte, witnessPrefix_eq,
          fixedProgram, fixedPrefix, none_or]
        cases htail : fixedTail pc with
        | none => rfl
        | some rest =>
          have hrest : rest <:+ mode :: pc :=
            (fixedTail_suffix htail).trans (suffix_cons mode pc)
          rw [bind_some, bind_some, ← versionTail_eq hrest]
          cases getOp rest <;> rfl
      | false =>
        have hfixed : fixedProgram (mode :: pc) = none := by
          apply fixedProgram_eq_none
          rintro _ _ heq
          cases heq
          exact hmode
        have htail := versionTail_eq (suffix_refl (mode :: pc))
        rw [Nat.sub_self, if_pos (Nat.zero_le _)] at htail
        rw [hfixed, or_none, ← htail]
        cases hop : getOp (mode :: pc) with
        | none => rfl
        | some op =>
          obtain ⟨data, hpc, _⟩ := getOp_eq_cons hop
          have hop₁ : isExtMode op.1 = false := (List.cons.inj hpc).1 ▸ hmode
          simp [hop₁]

/-! ## The form of a script hash -/

/-- The prefix of a script: a mode, a type, and what follows up to the first `OP_2DROP`. -/
theorem removeExtOutputPrefix_eq_some (h : removeExtOutputPrefix script = some rest) :
    ∃ mode op pc, script = mode :: op :: pc ∧ isExtMode mode = true ∧ 0x51 ≤ op ∧ op ≤ 0x5f ∧
      dropPrefixLoop pc.length pc = some rest := by
  obtain ⟨⟨mode, item, pc₀⟩, hmode, h⟩ := bind_eq_some_iff.mp h
  dsimp only at h
  split_ifs at h with hext
  obtain ⟨⟨op, item', pc⟩, hop, h⟩ := bind_eq_some_iff.mp h
  split_ifs at h with hrange
  simp only [Bool.not_eq_true', Bool.not_eq_false] at hext
  simp only [Bool.or_eq_true, decide_eq_true_eq, not_or, UInt8.not_lt] at hrange
  obtain ⟨data, hscript, hsingle⟩ := getOp_eq_cons hmode
  obtain ⟨data', hpc, hsingle'⟩ := getOp_eq_cons hop
  rw [(hsingle (.inr (pushData4_lt_of_isExtMode hext))).1] at hscript
  rw [(hsingle' (.inr (pushData4_lt hrange.1))).1] at hpc
  refine ⟨mode, op, pc, ?_, hext, hrange.1, hrange.2, h⟩
  rw [hscript, hpc]
  rfl

theorem removeExtOutputPrefix_cons {mode op : UInt8} (hmode : isExtMode mode = true)
    (hlo : 0x51 ≤ op) (hhi : op ≤ 0x5f) :
    removeExtOutputPrefix (mode :: op :: pc) = dropPrefixLoop pc.length pc := by
  simp [removeExtOutputPrefix, getOp_cons (pushData4_lt_of_isExtMode hmode),
    getOp_cons (pushData4_lt hlo), hmode, UInt8.not_lt.mpr hlo, UInt8.not_lt.mpr hhi]

theorem isScriptHash_of_isExtMode {mode : UInt8} (h : isExtMode mode = true) (pc : CScript) :
    isScriptHash (mode :: pc) = false := by
  have hne : mode ≠ opHash160 := by
    rintro rfl
    exact absurd h (by decide)
  cases pc <;> simp [isScriptHash, hne]

theorem dropPrefixLoop_length {k : Nat} (h : dropPrefixLoop k pc = some rest) :
    rest.length < pc.length := by
  induction k generalizing pc with
  | zero => cases h
  | succ k ih =>
    obtain ⟨⟨opcode, item, pc'⟩, hop, h⟩ := bind_eq_some_iff.mp h
    dsimp only at h
    split_ifs at h
    · cases h
      exact getOp_length hop
    · exact Nat.lt_trans (ih h) (getOp_length hop)

theorem isScriptHash_length (h : isScriptHash script = true) : script.length = 23 := by
  simp only [isScriptHash, Bool.and_eq_true, beq_iff_eq] at h
  exact h.1.1

/-- **`IsPayToScriptHash`** finds the form of a script hash, bare or behind one prefix. -/
theorem isPayToScriptHash_eq (script : CScript) :
    isPayToScriptHash script =
      (isScriptHash script || (removeExtOutputPrefix script).any isScriptHash) := by
  unfold isPayToScriptHash
  by_cases hlen : script.length ≤ 23
  · have hany : (removeExtOutputPrefix script).any isScriptHash = false := by
      rw [← Bool.not_eq_true, Option.any_eq_true]
      rintro ⟨rest, hrest, hhash⟩
      obtain ⟨mode, op, pc, rfl, _, _, _, hloop⟩ := removeExtOutputPrefix_eq_some hrest
      have := dropPrefixLoop_length hloop
      have := isScriptHash_length hhash
      simp only [length_cons] at hlen
      omega
    rw [if_pos hlen, hany, Bool.or_false]
  · have hnot : isScriptHash script = false := by
      rw [← Bool.not_eq_true]
      intro hhash
      exact hlen (Nat.le_of_eq (isScriptHash_length hhash))
    rw [if_neg hlen, hnot, Bool.false_or]
    match script with
    | [] => exact absurd (by decide) hlen
    | [_] => exact absurd (by simp) hlen
    | mode :: op :: pc =>
      dsimp only
      by_cases hcond : isExtMode mode = true ∧ 0x51 ≤ op ∧ op ≤ 0x5f
      · obtain ⟨hmode, hlo, hhi⟩ := hcond
        rw [removeExtOutputPrefix_cons hmode hlo hhi]
        simp only [hmode, UInt8.not_lt.mpr hlo, UInt8.not_lt.mpr hhi]
        cases dropPrefixLoop (List.length pc) pc <;> rfl
      · have hnone : removeExtOutputPrefix (mode :: op :: pc) = none := by
          by_contra hsome
          obtain ⟨rest, hrest⟩ := ne_none_iff_exists'.mp hsome
          obtain ⟨_, _, _, heq, hmode, hlo, hhi, _⟩ := removeExtOutputPrefix_eq_some hrest
          cases heq
          exact hcond ⟨hmode, hlo, hhi⟩
        have hskip : (!isExtMode mode || decide (op < 0x51) || decide (0x5f < op)) = true := by
          rw [← Bool.not_eq_false]
          intro hfalse
          simp only [Bool.or_eq_false_iff, Bool.not_eq_false', decide_eq_false_iff_not,
            UInt8.not_lt] at hfalse
          exact hcond ⟨hfalse.1.1, hfalse.1.2, hfalse.2⟩
        rw [hnone, if_pos hskip]
        rfl

/-! ## The two prefixes -/

theorem dropPrefixLoop_getOp {k : Nat} (hop : getOp pc = some (opcode, item, rest))
    (h : dropPrefixLoop k pc = some t) :
    opcode = op2Drop ∧ t = rest ∨
      opcode ≠ op2Drop ∧ ∃ k', dropPrefixLoop k' rest = some t := by
  cases k with
  | zero => cases h
  | succ k =>
    rw [dropPrefixLoop, hop] at h
    simp only [bind_eq_bind, bind_some] at h
    split_ifs at h with hdrop
    · exact .inl ⟨hdrop, (some.inj h).symm⟩
    · exact .inr ⟨hdrop, k, h⟩

/-- Behind the first `OP_2DROP` and behind the prefix of `IsWitnessProgram` is the same script,
    unless the first stands in the place of the operation; then a push follows it. -/
theorem fixedPrefix_cases {t u : CScript} (ht : removeExtOutputPrefix script = some t)
    (hu : fixedPrefix script = some u) :
    t = u ∨ ∃ opcode item rest, getOp t = some (opcode, item, rest) ∧ item ≠ [] := by
  obtain ⟨mode, op, pc, rfl, hmode, hlo, hhi, hloop⟩ := removeExtOutputPrefix_eq_some ht
  simp only [fixedPrefix, hmode, ↓reduceIte, fixedTail, getOp_cons (pushData4_lt hlo),
    bind_eq_bind, bind_some] at hu
  obtain ⟨⟨op₂, _, pc₂⟩, h₂, hu⟩ := bind_eq_some_iff.mp hu
  obtain ⟨⟨op₃, item, pc₃⟩, h₃, hu⟩ := bind_eq_some_iff.mp hu
  by_cases hitem : item = []
  · simp [hitem] at hu
  · rw [if_neg hitem] at hu
    obtain ⟨⟨op₄, _, pc₄⟩, h₄, hu⟩ := bind_eq_some_iff.mp hu
    split_ifs at hu with hop₄
    cases hu
    rcases dropPrefixLoop_getOp h₂ hloop with ⟨_, rfl⟩ | ⟨_, k, hloop⟩
    · exact .inr ⟨op₃, item, pc₃, h₃, hitem⟩
    · left
      rcases dropPrefixLoop_getOp h₃ hloop with ⟨rfl, _⟩ | ⟨_, k, hloop⟩
      · obtain ⟨_, _, hsingle⟩ := getOp_eq_cons h₃
        exact absurd (hsingle (.inr (by decide))).2 hitem
      · rcases dropPrefixLoop_getOp h₄ hloop with ⟨_, rfl⟩ | ⟨hne, _⟩
        · rfl
        · exact absurd hne hop₄

theorem isWitnessProgram_of_push (hop : getOp t = some (opcode, item, rest)) (hitem : item ≠ []) :
    programShape t = none ∧ fixedProgram t = none := by
  obtain ⟨data, rfl, hsingle⟩ := getOp_eq_cons hop
  have hnot : ¬ (opcode = 0 ∨ opPushData4 < opcode) := fun h => hitem (hsingle h).2
  constructor
  · apply programShape_eq_none
    cases hver : decodeOpN opcode with
    | none => rfl
    | some n =>
      have hsame := getOp_of_decodeOpN hver (data ++ rest)
      rw [hop] at hsame
      exact absurd (by simpa using congrArg (Option.map fun op => op.2.1) hsame) hitem
  · apply fixedProgram_eq_none
    rintro mode pc heq
    cases heq
    rw [← Bool.not_eq_true]
    exact fun hmode => hnot (.inr (pushData4_lt_of_isExtMode hmode))

/-! ## Where the prefix is transparent -/

/-- The prefix of `s` and its remainder `t` are read alike. The remainder is no script hash and no
    witness program behind a second prefix; if it is a witness program, the prefix is a type, an
    operation, a non-empty push and `OP_2DROP`, of 253 bytes at most; and `s` is no witness program
    whose operation is an `OP_2DROP`. -/
structure ReadAlike (s t : CScript) : Prop where
  hash : (removeExtOutputPrefix t).any isScriptHash = false
  program : fixedProgram t = none
  layout : (programShape t).isSome = true → fixedPrefix s = some t ∧ s.length - t.length ≤ 253
  early : (fixedProgram s).isSome = true → fixedPrefix s = some t

/-- A mode, a type and a push, with or without `OP_HASH160` in between as the comment in `Solver`
    has it, and `OP_2DROP`: the prefix leaves the stack as it was. -/
def NeutralPrefix (s t : CScript) : Prop :=
  ∃ mode op pc opcode vch, (s = mode :: op :: pc ∨ s = mode :: op :: opHash160 :: pc) ∧
    isExtMode mode = true ∧ 0x51 ≤ op ∧ op ≤ 0x60 ∧
    getOp pc = some (opcode, vch, op2Drop :: t) ∧ opcode ≤ opPushData4

/-- The two are read alike, and a script hash is compared with the hash of what the input pushes
    last. -/
structure Aligned (s t : CScript) : Prop extends ReadAlike s t where
  neutral : isScriptHash t = true → NeutralPrefix s t

section

variable {s : CScript}

section

variable (h : removeExtOutputPrefix s = some t)
include h

theorem isPayToScriptHash_of_removed : isPayToScriptHash s = isScriptHash t := by
  obtain ⟨mode, op, pc, rfl, hmode, _⟩ := removeExtOutputPrefix_eq_some h
  rw [isPayToScriptHash_eq, isScriptHash_of_isExtMode hmode, h]
  rfl

theorem isWitnessProgram_of_removed : isWitnessProgram s = fixedProgram s := by
  obtain ⟨mode, op, pc, rfl, hmode, _⟩ := removeExtOutputPrefix_eq_some h
  rw [isWitnessProgram_eq, programShape_of_isExtMode hmode]
  rfl

/-- The verdicts on script hashes agree unless the remainder has a prefix of its own. -/
theorem isPayToScriptHash_eq_iff :
    isPayToScriptHash s = isPayToScriptHash t ↔
      (removeExtOutputPrefix t).any isScriptHash = false := by
  rw [isPayToScriptHash_of_removed h, isPayToScriptHash_eq]
  cases hrest : removeExtOutputPrefix t with
  | none => simp
  | some u =>
    obtain ⟨mode, op, pc, rfl, hmode, _⟩ := removeExtOutputPrefix_eq_some hrest
    rw [isScriptHash_of_isExtMode hmode, Bool.false_or]
    exact eq_comm

/-- The verdicts on witness programs agree exactly where the two prefixes do. -/
theorem isWitnessProgram_eq_iff :
    isWitnessProgram s = isWitnessProgram t ↔
      fixedProgram t = none ∧
      ((programShape t).isSome = true → fixedPrefix s = some t ∧ s.length - t.length ≤ 253) ∧
      ((fixedProgram s).isSome = true → fixedPrefix s = some t) := by
  rw [isWitnessProgram_of_removed h, isWitnessProgram_eq]
  cases hu : fixedPrefix s with
  | none =>
    have hs : fixedProgram s = none := by simp [fixedProgram, hu]
    rw [hs]
    cases programShape t <;> simp [eq_comm]
  | some u =>
    rcases fixedPrefix_cases h hu with rfl | ⟨opcode, item, rest, hop, hitem⟩
    · -- both prefixes end in the same place
      have hs : fixedProgram s = if s.length - t.length ≤ 253 then programShape t else none := by
        simp [fixedProgram, hu]
      cases hshape : programShape t with
      | none =>
        rw [hs, hshape]
        simp [eq_comm]
      | some found =>
        have hmode := fixedProgram_of_programShape hshape
        rw [hs, hshape]
        simp [hmode]
    · -- a push follows the first `OP_2DROP`
      obtain ⟨hshape, hprogram⟩ := isWitnessProgram_of_push hop hitem
      rw [hshape, hprogram]
      by_cases heq : u = t
      · have hs : fixedProgram s = none := by simp [fixedProgram, hu, heq, hshape]
        simp [hs]
      · simp [heq]

end

/-! ## What is enforced -/

/-- Whatever `Solver` finds in `s`, `VerifyScript` enforces when `s` is spent: for a script hash,
    the last element that the script of the input pushes has that hash and is evaluated as a script,
    to true; for a witness program, that program accepts a witness that is not empty. -/
def Enforced (s : CScript) : Prop :=
  ∀ (templates : CScript → Option (TemplateType × List Valtype)) (sig : CSignature)
    (flags : UInt32) (scriptSig : CScript) (witness : List Valtype) (type : TxnOutType)
    (vSolutions : List Valtype),
    testFlag flags scriptVerifyP2sh = true → testFlag flags scriptVerifyWitness = true →
    solver templates s = some (type, vSolutions) →
    verifyScript sig flags scriptSig witness s = true →
    match type with
    | .template _ => True
    | .scripthash => scriptSig ≠ [] ∧ ∃ redeem args,
        evalScript sig .base flags [] scriptSig = some (redeem :: args) ∧
        vSolutions = [(sig.hash160 redeem).toList] ∧
        evaluatesToTrue sig 0 .base args redeem = true
    | type => witness ≠ [] ∧ ∃ version program, vSolutions = [program] ∧
        witnessType version program = some type ∧
        verifyWitnessProgram sig flags witness version program = true

/-! ## Solving and spending -/

theorem solver_of_removed (h : removeExtOutputPrefix s = some t)
    (templates : CScript → Option (TemplateType × List Valtype)) :
    solver templates s =
      if isPayToScriptHash t then some (.scripthash, [(t.drop 2).take 20])
      else
        match isWitnessProgram t with
        | some (version, program) => (witnessType version program).map fun t => (t, [program])
        | none => (templates t).map fun (t, vSolutions) => (.template t, vSolutions) := by
  rw [solver, h]
  rfl

variable {sig : CSignature} {flags : UInt32} {scriptSig scriptPubKey : CScript}
  {witness : List Valtype} {version : Nat} {program : List UInt8}

theorem witness_of_verifyScript (hwitness : testFlag flags scriptVerifyWitness = true)
    (hprogram : isWitnessProgram scriptPubKey = some (version, program))
    (haccept : verifyScript sig flags scriptSig witness scriptPubKey = true) :
    verifyWitnessProgram sig flags witness version program = true := by
  obtain ⟨_, _, _, _, _, hbare, _⟩ := verifyScript_accepts haccept
  unfold verifyBareWitness at hbare
  simp only [hwitness, hprogram, Bool.not_true, Bool.false_eq_true, ↓reduceIte] at hbare
  split_ifs at hbare with hverify
  exact (Bool.and_eq_true_iff.mp hverify).2

theorem witness_ne_nil {type : TxnOutType} (htype : witnessType version program = some type)
    (h : verifyWitnessProgram sig flags witness version program = true) : witness ≠ [] := by
  rintro rfl
  have hscript : witnessScript sig [] program = none := by
    unfold witnessScript
    split_ifs <;> simp_all
  have hver : (witnessSigVersion version).isSome = true := by
    unfold witnessType at htype
    split_ifs at htype with h h h h
    all_goals simp [h.1, witnessSigVersion]
  obtain ⟨sigver, hsigver⟩ := isSome_iff_exists.mp hver
  simp [verifyWitnessProgram, hsigver, hscript] at h

end

/-! ## Running a script forwards -/

variable {stack final : List Valtype} {vch₁ vch₂ : Valtype}

section

variable {sig : CSignature} {flags : UInt32}

/-- An evaluation outside of conditionals that is at `pc` with `stack` ends with `final`. -/
def Reaches (sig : CSignature) (flags : UInt32) (pc : CScript) (stack final : List Valtype) :
    Prop :=
  ∃ k s t, s.pc = pc ∧ s.stack = stack ∧ s.vfExec = [] ∧ t.stack = final ∧
    (loop EvalState.live (step sig .base flags) .outOfPasses k s).result = .ok t

theorem reaches_of_evaluatesToTrue (h : evaluatesToTrue sig flags .base stack script = true) :
    ∃ top rest, Reaches sig flags script stack (top :: rest) ∧ castToBool top = true := by
  unfold evaluatesToTrue at h
  split at h
  · rename_i top rest heval
    refine ⟨top, rest, ?_, h⟩
    unfold evalScript at heval
    split at heval
    · rename_i t hrun
      split_ifs at heval
      unfold evalRun at hrun
      split_ifs at hrun
      exact ⟨_, _, t, rfl, rfl, rfl, some.inj heval, hrun⟩
    · cases heval
  · cases h

theorem Reaches.read {vch : Valtype} (h : Reaches sig flags pc stack final)
    (hop : getOp pc = some (opcode, vch, rest)) :
    ∃ k s s' t, s.pc = rest ∧ s.stack = stack ∧ s.vfExec = [] ∧ t.stack = final ∧
      execRead sig .base flags opcode vch s = .ok s' ∧
      (loop EvalState.live (step sig .base flags) .outOfPasses k s').result = .ok t := by
  obtain ⟨k, s, t, hpc, hstack, hvf, hfinal, hrun⟩ := h
  have hlive : s.live = true := by
    rw [EvalState.live, hpc]
    obtain ⟨data, rfl, _⟩ := getOp_eq_cons hop
    rfl
  obtain ⟨k', s', hstep, hrun'⟩ := loop_pass hlive hrun
  rw [← hpc] at hop
  unfold step at hstep
  rw [hop] at hstep
  obtain ⟨_, _, hstep⟩ := bind_eq_ok hstep
  obtain ⟨_, _, hstep⟩ := bind_eq_ok hstep
  obtain ⟨_, _, hstep⟩ := bind_eq_ok hstep
  obtain ⟨s'', hread, hstep⟩ := bind_eq_ok hstep
  obtain ⟨_, _, hstep⟩ := bind_eq_ok hstep
  cases hstep
  exact ⟨k', s.read opcode rest, s', t, rfl, hstack, hvf, hfinal, hread, hrun'⟩

theorem Reaches.push {vch : Valtype} (h : Reaches sig flags pc stack final)
    (hop : getOp pc = some (opcode, vch, rest)) (hpush : opcode ≤ opPushData4) :
    Reaches sig flags rest (vch :: stack) final := by
  obtain ⟨k, s, s', t, hpc, hstack, hvf, hfinal, hread, hrun⟩ := h.read hop
  simp only [execRead, EvalState.fExec, hvf, all_nil, hpush, decide_true, Bool.and_self,
    ↓reduceIte] at hread
  cases hread
  refine ⟨k, _, t, ?_, ?_, ?_, hfinal, hrun⟩
  · exact hpc
  · exact congrArg (List.cons vch) hstack
  · rfl

theorem Reaches.op {op : Op} (h : Reaches sig flags (opcode :: rest) stack final)
    (hlt : opPushData4 < opcode) (hop : decode opcode = op)
    (honly : ∀ s, execOp sig .base flags op s =
      (stackOp sig .base flags s.pbegincodehash s.stack op).map fun stack =>
        { s with stack := stack }) :
    ∃ pbegincodehash stack', stackOp sig .base flags pbegincodehash stack op = .ok stack' ∧
      Reaches sig flags rest stack' final := by
  obtain ⟨k, s, s', t, hpc, hstack, hvf, hfinal, hread, hrun⟩ := h.read (getOp_cons hlt rest)
  have hnot : ¬ opcode ≤ opPushData4 := UInt8.not_le.mpr hlt
  simp only [execRead, EvalState.fExec, hvf, all_nil, hnot, decide_false, Bool.and_false,
    Bool.false_eq_true, ↓reduceIte, Bool.true_or, hop, honly, hstack] at hread
  cases hstep : stackOp sig .base flags s.pbegincodehash stack op with
  | error e =>
    rw [hstep] at hread
    cases hread
  | ok stack' =>
    rw [hstep] at hread
    cases hread
    refine ⟨s.pbegincodehash, stack', hstep, k, _, t, ?_, ?_, ?_, hfinal, hrun⟩
    · exact hpc
    · rfl
    · rfl

theorem Reaches.nil (h : Reaches sig flags [] stack final) : stack = final := by
  obtain ⟨k, s, t, hpc, hstack, _, hfinal, hrun⟩ := h
  have hend : s = t := by
    apply loop_end _ hrun
    simp [EvalState.live, hpc]
  rw [← hstack, ← hfinal, hend]

theorem decode_isExtMode {mode : UInt8} (h : isExtMode mode = true) : decode mode = .nop := by
  have hrange : decodeRange mode = .nop := by
    unfold decodeRange
    split_ifs
    all_goals simp [isExtMode, UInt8.le_iff_toNat_le, ← UInt8.toNat_inj] at *
    all_goals omega
  unfold decode
  split
  all_goals first | rfl | exact absurd h (by decide) | exact hrange

theorem decode_small {op : UInt8} (hlo : 0x51 ≤ op) (hhi : op ≤ 0x60) :
    decode op = .number (op.toNat - 0x50) := by
  have hrange : decodeRange op = .number (op.toNat - 0x50) := by
    unfold decodeRange
    simp [hlo, hhi]
  unfold decode
  split
  all_goals first | exact absurd hhi (by decide) | exact hrange

theorem Reaches.mode {mode : UInt8}
    (h : Reaches sig flags (mode :: rest) stack final) (hmode : isExtMode mode = true) :
    Reaches sig flags rest stack final := by
  obtain ⟨_, stack', hop, hrest⟩ :=
    h.op (pushData4_lt_of_isExtMode hmode) (decode_isExtMode hmode) fun _ => rfl
  cases hop
  exact hrest

theorem Reaches.small {op : UInt8}
    (h : Reaches sig flags (op :: rest) stack final) (hlo : 0x51 ≤ op) (hhi : op ≤ 0x60) :
    ∃ vch, Reaches sig flags rest (vch :: stack) final := by
  obtain ⟨_, stack', hop, hrest⟩ := h.op (pushData4_lt hlo) (decode_small hlo hhi) fun _ => rfl
  cases hop
  exact ⟨_, hrest⟩

theorem Reaches.hash160 (h : Reaches sig flags (opHash160 :: rest) stack final) :
    ∃ vch tail, stack = vch :: tail ∧
      Reaches sig flags rest ((sig.hash160 vch).toList :: tail) final := by
  obtain ⟨_, stack', hop, hrest⟩ := h.op (by decide) rfl fun _ => rfl
  cases stack with
  | nil => cases hop
  | cons vch tail =>
    cases hop
    exact ⟨vch, tail, rfl, hrest⟩

theorem Reaches.twoDrop (h : Reaches sig flags (op2Drop :: rest) (vch₁ :: vch₂ :: stack) final) :
    Reaches sig flags rest stack final := by
  obtain ⟨_, stack', hop, hrest⟩ := h.op (by decide) rfl fun _ => rfl
  cases hop
  exact hrest

theorem Reaches.equal (h : Reaches sig flags (0x87 :: rest) (vch₁ :: vch₂ :: stack) final) :
    Reaches sig flags rest (vchOfBool (vch₂ == vch₁) :: stack) final := by
  obtain ⟨_, stack', hop, hrest⟩ := h.op (by decide) rfl fun _ => rfl
  cases hop
  exact hrest

/-! ## The hash behind a prefix -/

theorem Reaches.neutral {s t : CScript} (hp : NeutralPrefix s t)
    (h : Reaches sig flags s stack final) : Reaches sig flags t stack final := by
  obtain ⟨mode, op, pc, opcode, vch, rfl | rfl, hmode, hlo, hhi, hpush, hisPush⟩ := hp
  · obtain ⟨_, h₁⟩ := (h.mode hmode).small hlo hhi
    exact (h₁.push hpush hisPush).twoDrop
  · obtain ⟨_, h₁⟩ := (h.mode hmode).small hlo hhi
    obtain ⟨_, _, heq, h₂⟩ := h₁.hash160
    cases heq
    exact (h₂.push hpush hisPush).twoDrop

theorem isScriptHash_eq_true (h : isScriptHash t = true) :
    ∃ hash : Valtype, hash.length = 20 ∧ t = opHash160 :: 0x14 :: (hash ++ [0x87]) := by
  simp only [isScriptHash, Bool.and_eq_true, beq_iff_eq] at h
  obtain ⟨⟨hlen, htake⟩, hdrop⟩ := h
  refine ⟨(t.drop 2).take 20, by simp [hlen], ?_⟩
  have hrest : t.drop 2 = (t.drop 2).take 20 ++ [0x87] := by
    rw [← hdrop, show t.drop 22 = (t.drop 2).drop 20 by rw [drop_drop]]
    exact (take_append_drop 20 (t.drop 2)).symm
  calc t = t.take 2 ++ t.drop 2 := (take_append_drop 2 t).symm
    _ = _ := by
      rw [htake, ← hrest]
      rfl

theorem Reaches.scriptHash {rest : List Valtype} {top : Valtype} (hhash : isScriptHash t = true)
    (h : Reaches sig flags t stack (top :: rest)) (htop : castToBool top = true) :
    ∃ vch tail, stack = vch :: tail ∧ (sig.hash160 vch).toList = (t.drop 2).take 20 := by
  obtain ⟨hash, hlen, rfl⟩ := isScriptHash_eq_true hhash
  obtain ⟨vch, tail, rfl, h₁⟩ := h.hash160
  have hpush : getOp (0x14 :: (hash ++ [0x87])) = some (0x14, hash, [0x87]) := by
    simp [getOp, takeOperand, opPushData1, hlen]
  have hequal := ((h₁.push hpush (by decide)).equal).nil
  refine ⟨vch, tail, rfl, ?_⟩
  have htrue : ((sig.hash160 vch).toList == hash) = true := by
    rw [← (List.cons.inj hequal).1] at htop
    cases hb : (sig.hash160 vch).toList == hash with
    | true => rfl
    | false =>
      rw [hb] at htop
      cases htop
  rw [eq_of_beq htrue]
  simp [hlen]

theorem redeem_of_verifyScript {s : CScript} {scriptSig : CScript} {witness : List Valtype}
    (h : removeExtOutputPrefix s = some t) (hp : NeutralPrefix s t) (hhash : isScriptHash t = true)
    (hp2sh : testFlag flags scriptVerifyP2sh = true)
    (haccept : verifyScript sig flags scriptSig witness s = true) :
    scriptSig ≠ [] ∧ ∃ redeem args,
      evalScript sig .base flags [] scriptSig = some (redeem :: args) ∧
      [(t.drop 2).take 20] = [(sig.hash160 redeem).toList] ∧
      evaluatesToTrue sig 0 .base args redeem = true := by
  have hscript : isPayToScriptHash s = true := (isPayToScriptHash_of_removed h).trans hhash
  obtain ⟨stackCopy, _, _, hsig, heval, _, hredeem⟩ := verifyScript_accepts haccept
  obtain ⟨redeem, args, rfl, htrue⟩ := verifyPayToScriptHash_accepts hp2sh hscript hredeem
  obtain ⟨top, rest, hreaches, htop⟩ := reaches_of_evaluatesToTrue heval
  obtain ⟨_, _, heq, hbound⟩ := (hreaches.neutral hp).scriptHash hhash htop
  cases heq
  refine ⟨?_, redeem, args, hsig, by rw [hbound], htrue⟩
  rintro rfl
  cases hsig

end

/-! ## The main result -/

theorem enforced_of_verdicts {s : CScript} (h : removeExtOutputPrefix s = some t)
    (hhash : isPayToScriptHash s = isPayToScriptHash t)
    (hprogram : isWitnessProgram s = isWitnessProgram t)
    (hneutral : isScriptHash t = true → NeutralPrefix s t) : Enforced s := by
  intro templates sig flags scriptSig witness type vSolutions hp2sh hwitness hsolver haccept
  rw [solver_of_removed h, ← hhash, ← hprogram] at hsolver
  split_ifs at hsolver with hscript
  · cases hsolver
    have hbare : isScriptHash t = true := (isPayToScriptHash_of_removed h).symm.trans hscript
    exact redeem_of_verifyScript h (hneutral hbare) hbare hp2sh haccept
  · split at hsolver
    · rename_i version program hfound
      obtain ⟨type', htype, heq⟩ := map_eq_some_iff.mp hsolver
      cases heq
      have hverify := witness_of_verifyScript hwitness hfound haccept
      have hall : witness ≠ [] ∧ ∃ version' program', [program] = [program'] ∧
          witnessType version' program' = some type ∧
          verifyWitnessProgram sig flags witness version' program' = true :=
        ⟨witness_ne_nil htype hverify, version, program, rfl, htype, hverify⟩
      cases type with
      | template _ => exact trivial
      | scripthash =>
        unfold witnessType at htype
        split_ifs at htype
        all_goals cases htype
      | _ => exact hall
    · obtain ⟨found, _, heq⟩ := map_eq_some_iff.mp hsolver
      cases heq
      exact trivial

/-- **The extension prefix is transparent where it is read alike.** If the verdicts of
    `IsPayToScriptHash` and `IsWitnessProgram` on a script and on its remainder agree, and what
    `Solver` finds is enforced, the two are `ReadAlike`; and for a remainder that is no script hash
    this is enough. A script hash has to stand behind a prefix that leaves the stack as it was. -/
theorem ext_prefix_transparent_iff (s t : CScript) (h : removeExtOutputPrefix s = some t) :
    (isPayToScriptHash s = isPayToScriptHash t ∧ isWitnessProgram s = isWitnessProgram t ∧
      Enforced s → ReadAlike s t) ∧
    (Aligned s t → isPayToScriptHash s = isPayToScriptHash t ∧
      isWitnessProgram s = isWitnessProgram t ∧ Enforced s) ∧
    (isScriptHash t = false → (Aligned s t ↔ ReadAlike s t)) := by
  refine ⟨?_, ?_, fun hhash => ⟨fun ha => ha.toReadAlike, fun hr => ⟨hr, fun htrue => ?_⟩⟩⟩
  · rintro ⟨hhash, hprogram, _⟩
    obtain ⟨hnone, hlayout, hearly⟩ := (isWitnessProgram_eq_iff h).mp hprogram
    exact ⟨(isPayToScriptHash_eq_iff h).mp hhash, hnone, hlayout, hearly⟩
  · intro ha
    have hhash := (isPayToScriptHash_eq_iff h).mpr ha.hash
    have hprogram := (isWitnessProgram_eq_iff h).mpr ⟨ha.program, ha.layout, ha.early⟩
    exact ⟨hhash, hprogram, enforced_of_verdicts h hhash hprogram ha.neutral⟩
  · rw [hhash] at htrue
    cases htrue

/-! ## Samples -/

def segwitFlags : UInt32 := scriptVerifyP2sh ||| scriptVerifyWitness

def sampleProgram : CScript := 0x00 :: 0x14 :: List.replicate 20 0x07

/-- `OP_EXT_NEW OP_1 OP_HASH160 push OP_2DROP`. -/
def sampleHashPrefix : CScript := [0xf0, 0x51, 0xa9, 0x01, 0x09, 0x6d]

def sampleScriptHash : CScript := opHash160 :: 0x14 :: (List.replicate 20 0x07 ++ [0x87])

/-- A witness program and a script hash behind the prefix that the source describes. -/
theorem hash_prefix_transparent :
    isWitnessProgram (sampleHashPrefix ++ sampleProgram) = some (0, List.replicate 20 0x07) ∧
    isPayToScriptHash (sampleHashPrefix ++ sampleScriptHash) = true ∧
    Enforced (sampleHashPrefix ++ sampleProgram) ∧
    Enforced (sampleHashPrefix ++ sampleScriptHash) := by
  have hprogram := (ext_prefix_transparent_iff (sampleHashPrefix ++ sampleProgram) sampleProgram
    rfl).2.1
    ⟨⟨rfl, rfl, by decide, by decide⟩,
      fun hhash => absurd hhash (by decide)⟩
  have hhash := (ext_prefix_transparent_iff (sampleHashPrefix ++ sampleScriptHash) sampleScriptHash
    rfl).2.1
    ⟨⟨rfl, rfl, by decide, by decide⟩,
      fun _ => ⟨0xf0, 0x51, _, 0x01, [0x09], .inr rfl, by decide, by decide, by decide,
        rfl, by decide⟩⟩
  refine ⟨?_, ?_, hprogram.2.2, hhash.2.2⟩
  · rw [hprogram.2.1]
    decide
  · rw [hhash.1]
    decide

/-- Behind `OP_EXT_NEW OP_1 push OP_2DROP` the wallet finds a witness program, and the output can be
    spent with nothing. -/
theorem short_prefix_not_enforced :
    removeExtOutputPrefix ([0xf0, 0x51, 0x01, 0x09, 0x6d] ++ sampleProgram) = some sampleProgram ∧
    isWitnessProgram ([0xf0, 0x51, 0x01, 0x09, 0x6d] ++ sampleProgram) ≠
      isWitnessProgram sampleProgram ∧
    solver (fun _ => none) ([0xf0, 0x51, 0x01, 0x09, 0x6d] ++ sampleProgram) =
      some (.witnessV0Keyhash, [List.replicate 20 0x07]) ∧
    verifyScript (sampleSig 0) segwitFlags [] []
      ([0xf0, 0x51, 0x01, 0x09, 0x6d] ++ sampleProgram) = true := by
  decide

end ShareCoin.Server
