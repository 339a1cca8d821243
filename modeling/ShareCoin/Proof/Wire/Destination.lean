import ShareCoin.Proof.Server.ExtPrefix
import ShareCoin.Wire.CoinAddr

/-!
# The script of a destination leads back to it

None of the scripts has an extension prefix. The hash of a script and a witness program are forms
that `Solver` tests first, so they never reach the templates; a witness program of another version
than 0 and 14 ends there too, and without a destination. The hash of a key goes through the
templates: the first one breaks off at its first operation, the second one matches.
-/

namespace ShareCoin.Wire

open Lib Server List Option

/-! ## Bytes -/

@[simp] theorem length_u160 (id : Uint160) : (u160.put id).length = 20 := Codec.leBytes_length 20 _

@[simp] theorem length_u256 (id : Uint256) : (u256.put id).length = 32 := Codec.leBytes_length 32 _

@[simp] theorem uint160OfBytes_put (id : Uint160) : uint160OfBytes (u160.put id) = id := by
  show BitVec.ofNat 160 (Codec.leValue (Codec.leBytes 20 id.toNat)) = id
  rw [Codec.leValue_leBytes id.isLt, BitVec.ofNat_toNat, BitVec.setWidth_eq]

@[simp] theorem uint256OfBytes_put (id : Uint256) :
    BitVec.ofNat 256 (Codec.leValue (u256.put id)) = id := by
  show BitVec.ofNat 256 (Codec.leValue (Codec.leBytes 32 id.toNat)) = id
  rw [Codec.leValue_leBytes id.isLt, BitVec.ofNat_toNat, BitVec.setWidth_eq]

/-! ## Operations -/

theorem readOp_cons {opcode : UInt8} (h : opPushData4 < opcode) (rest : CScript) :
    readOp (opcode :: rest) = (true, ⟨opcode, [], rest⟩) := by
  rw [readOp, getOp_cons h]

theorem readOp_push {data : List UInt8} (h : data.length < 0x4c) (rest : CScript) :
    readOp (UInt8.ofNat data.length :: (data ++ rest)) =
      (true, ⟨UInt8.ofNat data.length, data, rest⟩) := by
  rw [readOp, getOp_push h]

theorem removeExtOutputPrefix_none {opcode : UInt8} {item : List UInt8} {pc rest : CScript}
    (hop : getOp pc = some (opcode, item, rest)) (h : isExtMode opcode = false) :
    removeExtOutputPrefix pc = none := by
  simp [removeExtOutputPrefix, hop, h]

/-! ## Hashes of scripts and witness programs -/

variable {templates : CScript → Option (TemplateType × List Valtype)} {vercode : UInt8}
  {version : Nat}

theorem solver_scriptID (id : Uint160) :
    solver templates (getScriptForDestination (.scriptID id)) =
      some (.scripthash, [u160.put id]) := by
  have hscript : getScriptForDestination (.scriptID id) =
      opHash160 :: (UInt8.ofNat 20 :: (u160.put id ++ [opEqual])) := by
    simp [getScriptForDestination, pushData_short]
  rw [hscript, solver, removeExtOutputPrefix_none (getOp_cons (by decide) _) (by decide)]
  have hpay : isPayToScriptHash
      (opHash160 :: (UInt8.ofNat 20 :: (u160.put id ++ [opEqual]))) = true := by
    simp [isPayToScriptHash, isScriptHash, opEqual]
  simp only [getD_none, hpay, if_true]
  simp

theorem isWitnessProgram_script {program : List UInt8} (hver : decodeOpN vercode = some version)
    (hlo : 2 ≤ program.length) (hhi : program.length ≤ 40) :
    isWitnessProgram (vercode :: pushData program) = some (version, program) := by
  have hsize : (UInt8.ofNat program.length).toNat = program.length := by
    exact Nat.mod_eq_of_lt (by omega)
  rw [isWitnessProgram_eq, pushData_short (by omega), programShape, hsize,
    if_pos ⟨hlo, hhi, rfl⟩, hver]
  rfl

theorem isExtMode_of_decodeOpN (h : decodeOpN vercode = some version) :
    isExtMode vercode = false ∧ vercode ≠ opHash160 := by
  have hsmall : vercode.toNat ≤ 0x60 := by
    unfold decodeOpN at h
    split_ifs at h with hzero hrange
    · rw [hzero]
      decide
    · simp only [Bool.and_eq_true, decide_eq_true_eq, UInt8.le_iff_toNat_le] at hrange
      exact hrange.2
  constructor
  · rw [isExtMode, Bool.and_eq_false_iff]
    refine .inl (decide_eq_false ?_)
    show ¬ 0xf0 ≤ vercode.toNat
    omega
  · rintro rfl
    exact absurd hsmall (by decide)

/-- **`Solver` finds a witness program by its version and its size.** -/
theorem solver_witness {program : List UInt8} (hver : decodeOpN vercode = some version)
    (hlo : 2 ≤ program.length) (hhi : program.length ≤ 40) :
    solver templates (vercode :: pushData program) =
      (witnessType version program).map fun t => (t, [program]) := by
  obtain ⟨hmode, hhash⟩ := isExtMode_of_decodeOpN hver
  have hpay : isPayToScriptHash (vercode :: pushData program) = false := by
    rw [pushData_short (by omega)]
    unfold isPayToScriptHash
    split_ifs
    · simp [isScriptHash, hhash]
    · simp [hmode]
  rw [solver, removeExtOutputPrefix_none (getOp_of_decodeOpN hver _) hmode]
  simp only [getD_none, hpay, Bool.false_eq_true, if_false, isWitnessProgram_script hver hlo hhi]

/-! ## Hashes of keys -/

theorem scanLoop_pass {k : Nat} {op op2 : UInt8} {vch vch2 : List UInt8}
    {pc1 pc2 rest rest2 : CScript} {vSolutions : List Valtype}
    (h1 : readOp pc1 = (true, ⟨op, vch, rest⟩)) (h2 : readOp pc2 = (true, ⟨op2, vch2, rest2⟩))
    (hbranch : op ≠ opIf ∧ op ≠ opElse ∧ op ≠ opEndif)
    (hdrop : removeSolverDropPrefix ⟨op, vch, rest⟩ = ⟨op, vch, rest⟩) (hkeys : op2 ≠ opPubkeys) :
    scanLoop (k + 1) pc1 pc2 vSolutions =
      match matchOp ⟨op, vch, rest⟩ op2 vch2 vSolutions with
      | some vSolutions' => scanLoop k rest rest2 vSolutions'
      | none => .broke vSolutions := by
  have hne : pc1.isEmpty = false := by
    cases pc1 with
    | nil => cases h1
    | cons => rfl
  rw [scanLoop, hne, h1]
  simp only [Bool.false_and, Bool.false_eq_true, if_false, enterBranch, hbranch, compareOp, h2,
    hdrop, hkeys]
  cases matchOp ⟨op, vch, rest⟩ op2 vch2 vSolutions <;> rfl

theorem removeSolverDropPrefix_of_next {op op' : UInt8} {vch' : List UInt8} {rest rest' : CScript}
    (hread : readOp rest = (true, ⟨op', vch', rest'⟩)) (hdrop : op' ≠ opDrop) :
    removeSolverDropPrefix ⟨op, [], rest⟩ = ⟨op, [], rest⟩ := by
  simp only [removeSolverDropPrefix, length_nil, ne_eq, not_true_eq_false, if_false, hread, hdrop]
  split_ifs <;> rfl

theorem removeSolverDropPrefix_of_push {op op' op'' : UInt8} {vch vch' vch'' : List UInt8}
    {rest rest' rest'' : CScript} (hvch : vch.length ≠ 0)
    (hread : readOp rest = (true, ⟨op', vch', rest'⟩))
    (hread' : readOp rest' = (true, ⟨op'', vch'', rest''⟩)) (hdrop : op'' ≠ opDrop) :
    removeSolverDropPrefix ⟨op, vch, rest⟩ = ⟨op, vch, rest⟩ := by
  simp only [removeSolverDropPrefix, hvch, ne_eq, not_false_eq_true, if_true, hread, hread', hdrop,
    if_false]
  split_ifs <;> rfl

def keyScript (data : List UInt8) : CScript :=
  opDup :: opHash160 :: (UInt8.ofNat data.length :: (data ++ [opEqualverify, opChecksig]))

section

variable {data : List UInt8}

/-- The template of a key breaks off at once: an `OP_DUP` is no key. -/
theorem scanLoop_pubkey (k : Nat) :
    scanLoop (k + 1) (keyScript data) [opPubkey, opChecksig] [] = .broke [] := by
  have hnext := readOp_cons (show opPushData4 < opHash160 by decide)
    (UInt8.ofNat data.length :: (data ++ [opEqualverify, opChecksig]))
  rw [keyScript, scanLoop_pass (readOp_cons (by decide) _) (readOp_cons (by decide) _) (by decide)
    (removeSolverDropPrefix_of_next hnext (by decide)) (by decide)]
  rfl

variable (hdata : data.length = 20)

include hdata

theorem scanLoop_pubkeyhash (k : Nat) :
    scanLoop (k + 6) (keyScript data)
      [opDup, opHash160, opPubkeyhash, opEqualverify, opChecksig] [] = .found [data] := by
  have hpush := readOp_push (show data.length < 0x4c by omega) [opEqualverify, opChecksig]
  have hnext := readOp_cons (show opPushData4 < opHash160 by decide)
    (UInt8.ofNat data.length :: (data ++ [opEqualverify, opChecksig]))
  have hsmall : UInt8.ofNat data.length ≠ opIf ∧ UInt8.ofNat data.length ≠ opElse ∧
      UInt8.ofNat data.length ≠ opEndif ∧ UInt8.ofNat data.length ≠ opDrop := by
    rw [hdata]
    decide
  have hhash : matchOp ⟨UInt8.ofNat data.length, data, [opEqualverify, opChecksig]⟩ opPubkeyhash []
      [] = some [data] := by
    simp [matchOp, hdata, opPubkeyhash, opPubkey]
  rw [keyScript,
    scanLoop_pass (readOp_cons (by decide) _) (readOp_cons (by decide) _) (by decide)
      (removeSolverDropPrefix_of_next hnext (by decide)) (by decide)]
  show scanLoop (k + 5) _ _ _ = _
  rw [scanLoop_pass hnext (readOp_cons (by decide) _) (by decide)
    (removeSolverDropPrefix_of_next hpush hsmall.2.2.2) (by decide)]
  show scanLoop (k + 4) _ _ _ = _
  rw [scanLoop_pass hpush (readOp_cons (by decide) _) ⟨hsmall.1, hsmall.2.1, hsmall.2.2.1⟩
    (removeSolverDropPrefix_of_push (by omega) (readOp_cons (by decide) _)
      (readOp_cons (by decide) _) (by decide)) (by decide), hhash]
  rfl

/-- **The template of the hash of a key is the one that matches.** -/
theorem solverTemplates_keyScript (altProof : List UInt8 → List UInt8 → Option Bool) :
    solverTemplates altProof (keyScript data) = some (.pubkeyhash, [data]) := by
  have hproof : solverCheckAltProof altProof (keyScript data) = ([], keyScript data) := by
    rw [solverCheckAltProof, keyScript, getOp_cons (by decide)]
    rfl
  have hlen : (keyScript data).length + 1 = 20 + 6 := by
    simp [keyScript, hdata]
  simp only [solverTemplates, hproof, scanTemplates, mTemplates, hlen, scanLoop_pubkey 25,
    scanLoop_pubkeyhash hdata 20]
  rfl

theorem solver_keyScript (altProof : List UInt8 → List UInt8 → Option Bool) :
    solver (solverTemplates altProof) (keyScript data) =
      some (.template .pubkeyhash, [data]) := by
  have hop := getOp_cons (show opPushData4 < opDup by decide)
    (opHash160 :: (UInt8.ofNat data.length :: (data ++ [opEqualverify, opChecksig])))
  have hpay : isPayToScriptHash (keyScript data) = false := by
    rw [isPayToScriptHash_eq, keyScript, removeExtOutputPrefix_none hop (by decide)]
    simp [isScriptHash, hdata]
  have hwitness : isWitnessProgram (keyScript data) = none := by
    rw [isWitnessProgram_eq, keyScript, programShape, if_neg]
    · rfl
    · rintro ⟨-, -, hsize⟩
      exact absurd hsize (by simp [hdata, opHash160])
  rw [solver, keyScript, removeExtOutputPrefix_none hop (by decide), ← keyScript]
  simp only [getD_none, hpay, Bool.false_eq_true, if_false, hwitness,
    solverTemplates_keyScript hdata, map_some]

end

/-! ## `ExtractDestination` -/

/-- A destination of a version without a meaning. -/
def CTxDestination.Unknown : CTxDestination → Prop
  | .witnessUnknown _ _ => True
  | _ => False

instance (d : CTxDestination) : Decidable d.Unknown := by
  cases d <;> unfold CTxDestination.Unknown <;> infer_instance

/-- The destinations that can be written: the version of an unknown one is free of meaning and fits
    a bech32 symbol and an opcode, and its program is of a size that both encodings take. -/
def CTxDestination.Writable : CTxDestination → Prop
  | .none => False
  | .witnessUnknown version program =>
    1 ≤ version ∧ version ≤ 15 ∧ version ≠ 14 ∧ 2 ≤ program.length ∧ program.length ≤ 40
  | _ => True

/-- **The script of a destination leads back to it, unless `Solver` does not know its version.** -/
theorem extractDestination_script (hash160 : List UInt8 → Uint160)
    (altProof : List UInt8 → List UInt8 → Option Bool) {d : CTxDestination} (hd : d.Writable) :
    extractDestination hash160 altProof (getScriptForDestination d) = some d ↔ ¬ d.Unknown := by
  cases d with
  | none => exact absurd hd id
  | keyID id =>
    have hscript : getScriptForDestination (.keyID id) = keyScript (u160.put id) := by
      simp [getScriptForDestination, keyScript, pushData_short]
    simp [extractDestination, hscript, solver_keyScript, CTxDestination.Unknown]
  | scriptID id => simp [extractDestination, solver_scriptID, CTxDestination.Unknown]
  | witnessV0KeyHash id | witnessV0ScriptHash id =>
    rw [extractDestination, getScriptForDestination,
      solver_witness (show decodeOpN 0 = some 0 by decide) (by simp) (by simp)]
    simp [witnessType, CTxDestination.Unknown]
  | witnessV14KeyHash id | witnessV14ScriptHash id =>
    rw [extractDestination, getScriptForDestination,
      solver_witness (show decodeOpN (encodeOpN 14) = some 14 by decide) (by simp) (by simp)]
    simp [witnessType, CTxDestination.Unknown]
  | witnessUnknown version program =>
    obtain ⟨hlo, hhi, hne, hsize⟩ := hd
    rw [extractDestination, getScriptForDestination,
      solver_witness (decodeOpN_encodeOpN hlo (by omega)) hsize.1 hsize.2]
    simp [witnessType, CTxDestination.Unknown, hne, Nat.ne_of_gt hlo]

end ShareCoin.Wire
