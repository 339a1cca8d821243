import ShareCoin.Server.CheckTransaction
import ShareCoin.Lib.Run

/-!
# What `CheckTransaction` checks

`TxSound` is what an accepted transaction should satisfy. Each loop of the function is described
by two lemmas, one for falling through to the next check and one for the `true` that it returns
early; a transaction is accepted in either way. The early way is `ScriptSlips`: the checks before
a bad script pass, the script is reached, and its comma list lets the transaction through. So the
function is sound exactly for the transactions in which no bad script is reached.
-/

namespace ShareCoin.Server

open Lib List

/-! ## What a sound transaction is -/

/-- The script parses into opcodes up to `MAX_OPCODE` with elements of bounded size. -/
inductive WellFormed (iface : CIface) : CScript → Prop
  | nil : WellFormed iface []
  | op {pc rest : CScript} {opcode : UInt8} {item : List UInt8}
      (hop : getOp pc = some (opcode, item, rest)) (hcode : opcode ≤ maxOpcode)
      (hitem : item.length ≤ iface.maxScriptElementSize) (hrest : WellFormed iface rest) :
      WellFormed iface pc

def ScriptOk (iface : CIface) (script : CScript) : Prop :=
  WellFormed iface script ∧ script.length ≤ iface.maxScriptSize

def valueSum (outs : List CTxOut) : Int := (outs.map fun out => out.nValue.toInt).sum

def InRange (iface : CIface) (v : Int) : Prop := 0 ≤ v ∧ v ≤ iface.maxMoney

instance (iface : CIface) (v : Int) : Decidable (InRange iface v) :=
  inferInstanceAs (Decidable (_ ∧ _))

/-- The outputs and their running total, which starts at `acc`, are all amounts in range. -/
def AmountsOk (iface : CIface) (acc : Int) (outs : List CTxOut) : Prop :=
  (∀ out ∈ outs, InRange iface out.nValue.toInt) ∧
    ∀ init, init <+: outs → InRange iface (acc + valueSum init)

/-- **What acceptance should mean.** -/
structure TxSound (iface : CIface) (tx : CTransaction) : Prop where
  vin_ne : tx.vin ≠ []
  vout_ne : tx.vout ≠ []
  amounts : AmountsOk iface 0 tx.vout
  outScripts : ∀ txout ∈ tx.vout, ScriptOk iface txout.scriptPubKey
  inScripts : tx.isCoinBase = false → ∀ txin ∈ tx.vin, ScriptOk iface txin.scriptSig
  noDuplicate : (tx.vin.map CTxIn.prevout).Nodup
  noNull : tx.isCoinBase = false → ∀ txin ∈ tx.vin, txin.prevout.isNull = false

/-! ## Scripts -/

theorem hasValidOpsLoop_iff (iface : CIface) {k : Nat} {pc : CScript} (hk : pc.length ≤ k) :
    hasValidOpsLoop iface k pc = true ↔ WellFormed iface pc := by
  induction k generalizing pc with
  | zero =>
    obtain rfl : pc = [] := length_eq_zero_iff.mp (by omega)
    exact ⟨fun _ => .nil, fun _ => rfl⟩
  | succ k ih =>
    cases pc with
    | nil => exact ⟨fun _ => .nil, fun _ => rfl⟩
    | cons b pc =>
      cases hop : getOp (b :: pc) with
      | none =>
        simp only [hasValidOpsLoop, hop]
        refine ⟨fun h => absurd h (by simp), fun h => ?_⟩
        cases h with
        | op hop' => rw [hop] at hop'; exact absurd hop' (by simp)
      | some r =>
        obtain ⟨opcode, item, rest⟩ := r
        have hlen := getOp_length hop
        have hrest : rest.length ≤ k := by omega
        simp only [hasValidOpsLoop, hop]
        constructor
        · intro h
          split_ifs at h with hbad
          simp only [Bool.or_eq_true, decide_eq_true_eq, not_or] at hbad
          exact .op hop (UInt8.not_lt.mp hbad.1) (by omega) ((ih hrest).mp h)
        · intro h
          cases h with
          | op hop' hcode hitem hwf =>
            rw [hop] at hop'
            cases hop'
            have hgood : ¬ (decide (maxOpcode < opcode) ||
                decide (iface.maxScriptElementSize < item.length)) = true := by
              simp only [Bool.or_eq_true, decide_eq_true_eq, not_or]
              exact ⟨UInt8.not_lt.mpr hcode, by omega⟩
            rw [if_neg hgood]
            exact (ih hrest).mpr hwf

variable {iface : CIface} {script : CScript} {vin : List CTxIn} {acc : Int64}

theorem txHasValidOps_iff : txHasValidOps iface script = true ↔ WellFormed iface script :=
  hasValidOpsLoop_iff iface (Nat.le_refl _)

/-- A script whose comma list is `true`. -/
def Slips (iface : CIface) (script : CScript) : Prop :=
  ¬ WellFormed iface script ∨ iface.maxScriptSize < script.length ∧ iface.maxScriptSize ≠ 0

theorem checkScript_next : checkScript iface script = .next ↔ ScriptOk iface script := by
  unfold checkScript ScriptOk
  rw [← txHasValidOps_iff]
  cases txHasValidOps iface script
  · simp
  · by_cases hlen : iface.maxScriptSize < script.length
    · simp [hlen]
    · simp [hlen, Nat.le_of_not_lt hlen]

theorem checkScript_ret {accepted : Bool}
    (h : checkScript iface script = .ret accepted) : ¬ ScriptOk iface script := by
  intro hok
  rw [checkScript_next.mpr hok] at h
  cases h

theorem checkScript_true : checkScript iface script = .ret true ↔ Slips iface script := by
  unfold checkScript Slips
  rw [← txHasValidOps_iff]
  cases txHasValidOps iface script
  · simp
  · by_cases hlen : iface.maxScriptSize < script.length
    · simp [hlen]
    · simp [hlen]

theorem Slips.not_ok (h : Slips iface script) : ¬ ScriptOk iface script := by
  rintro ⟨hwf, hlen⟩
  rcases h with h | ⟨h, -⟩
  · exact h hwf
  · omega

/-! ## Amounts -/

theorem amountsOk_nil {acc : Int} : AmountsOk iface acc [] ↔ InRange iface acc := by
  simp [AmountsOk, valueSum]

theorem amountsOk_cons {acc : Int} {out : CTxOut} {outs : List CTxOut} :
    AmountsOk iface acc (out :: outs) ↔
      InRange iface acc ∧ InRange iface out.nValue.toInt ∧
        AmountsOk iface (acc + out.nValue.toInt) outs := by
  constructor
  · rintro ⟨hval, hsum⟩
    refine ⟨?_, hval out mem_cons_self, (forall_mem_cons.mp hval).2, ?_⟩
    · simpa [valueSum] using hsum [] nil_prefix
    · intro init hinit
      have := hsum (out :: init) ((prefix_cons_inj out).mpr hinit)
      simpa [valueSum, Int.add_assoc] using this
  · rintro ⟨hacc, hout, hval, hsum⟩
    refine ⟨forall_mem_cons.mpr ⟨hout, hval⟩, fun init hinit => ?_⟩
    cases init with
    | nil => simpa [valueSum] using hacc
    | cons o init =>
      obtain ⟨rfl, hrest⟩ := cons_prefix_cons.mp hinit
      have := hsum init hrest
      simpa [valueSum, Int.add_assoc] using this

theorem AmountsOk.start {acc : Int} {outs : List CTxOut}
    (h : AmountsOk iface acc outs) : InRange iface acc := by
  simpa [valueSum] using h.2 [] nil_prefix

theorem moneyRange_iff {v : Int64} : moneyRange iface v = true ↔ InRange iface v.toInt := by
  simp [moneyRange, InRange]

theorem toInt_add_of_inRange {a b : Int64} (ha : InRange iface a.toInt)
    (hb : InRange iface b.toInt) : (a + b).toInt = a.toInt + b.toInt := by
  have hmax := iface.maxMoney_lt
  obtain ⟨ha₁, ha₂⟩ := ha
  obtain ⟨hb₁, hb₂⟩ := hb
  rw [Int64.toInt_add]
  exact Int.bmod_eq_of_le (by omega) (by omega)

/-! ## The output loop -/

theorem checkOutputs_cons (hacc : InRange iface acc.toInt) (txout : CTxOut) (vout : List CTxOut) :
    checkOutputs iface acc (txout :: vout) =
      if InRange iface txout.nValue.toInt ∧ InRange iface (acc.toInt + txout.nValue.toInt) then
        match checkScript iface txout.scriptPubKey with
        | .next => checkOutputs iface (acc + txout.nValue) vout
        | ret => ret
      else .ret false := by
  rw [checkOutputs]
  have hlt : txout.nValue < 0 ↔ txout.nValue.toInt < 0 := by
    rw [Int64.lt_iff_toInt_lt]
    rfl
  by_cases hval : InRange iface txout.nValue.toInt
  · have hmoney : moneyRange iface (acc + txout.nValue) = true ↔
        InRange iface (acc.toInt + txout.nValue.toInt) := by
      rw [moneyRange_iff, toInt_add_of_inRange hacc hval]
    rw [if_neg (hlt.not.mpr (Int.not_lt.mpr hval.1)), if_neg (Int.not_lt.mpr hval.2)]
    by_cases hsum : moneyRange iface (acc + txout.nValue) = true
    · refine (if_neg (by simp [hsum])).trans ?_
      refine Eq.trans ?_ (if_pos ⟨hval, hmoney.mp hsum⟩).symm
      cases checkScript iface txout.scriptPubKey <;> rfl
    · rw [if_pos (by simp [hsum]), if_neg fun h => hsum (hmoney.mpr h.2)]
  · have hbad : ¬ (InRange iface txout.nValue.toInt ∧
        InRange iface (acc.toInt + txout.nValue.toInt)) := fun h => hval h.1
    by_cases hneg : txout.nValue < 0
    · rw [if_pos hneg, if_neg hbad]
    · rw [if_neg hneg, if_neg hbad, if_pos]
      rw [hlt] at hneg
      unfold InRange at hval
      omega

/-- The output loop goes through if all amounts and scripts are right. It accepts early at the first
    bad script that it reaches. -/
theorem checkOutputs_iff {vout : List CTxOut} (hacc : InRange iface acc.toInt) :
    (checkOutputs iface acc vout = .next ↔
      AmountsOk iface acc.toInt vout ∧ ∀ txout ∈ vout, ScriptOk iface txout.scriptPubKey) ∧
    (checkOutputs iface acc vout = .ret true ↔
      ∃ pre txout post, vout = pre ++ txout :: post ∧
        AmountsOk iface acc.toInt (pre ++ [txout]) ∧
        (∀ o ∈ pre, ScriptOk iface o.scriptPubKey) ∧ Slips iface txout.scriptPubKey) := by
  induction vout generalizing acc with
  | nil => simp [checkOutputs, amountsOk_nil, hacc]
  | cons txout vout ih =>
    rw [checkOutputs_cons hacc, exists_split_cons]
    by_cases hr : InRange iface txout.nValue.toInt ∧ InRange iface (acc.toInt + txout.nValue.toInt)
    · rw [if_pos hr]
      have hsum := toInt_add_of_inRange hacc hr.1
      have ih' := @ih (acc + txout.nValue) (by rw [hsum]; exact hr.2)
      rw [hsum] at ih'
      cases hs : checkScript iface txout.scriptPubKey with
      | next =>
        have hok := checkScript_next.mp hs
        have hno : ¬ Slips iface txout.scriptPubKey := fun hslip => hslip.not_ok hok
        simp [ih', hok, hno, amountsOk_cons, hacc, hr.1]
      | ret b =>
        have hslips : b = true ↔ Slips iface txout.scriptPubKey := by
          rw [← checkScript_true, hs, Check.ret.injEq]
        simp [checkScript_ret hs, hslips, amountsOk_cons, amountsOk_nil, hacc, hr.1, hr.2]
    · -- an amount out of range rejects, wherever the script stands
      have hno : ∀ outs, ¬ AmountsOk iface acc.toInt (txout :: outs) := by
        intro outs hamt
        obtain ⟨-, hval, hrest⟩ := amountsOk_cons.mp hamt
        exact hr ⟨hval, hrest.start⟩
      simp [hr, hno]

/-! ## The input loops -/

theorem checkDuplicates_eq {seen : List COutPoint} :
    checkDuplicates seen vin =
      if (vin.map CTxIn.prevout).Nodup ∧ ∀ txin ∈ vin, txin.prevout ∉ seen then .next
      else .ret false := by
  induction vin generalizing seen with
  | nil => simp [checkDuplicates]
  | cons txin vin ih =>
    rw [checkDuplicates]
    by_cases hseen : txin.prevout ∈ seen
    · rw [if_pos hseen, if_neg]
      rintro ⟨-, hfresh⟩
      exact hfresh txin mem_cons_self hseen
    · rw [if_neg hseen, ih]
      refine if_congr ?_ rfl rfl
      simp only [map_cons, nodup_cons, mem_map, mem_cons, forall_eq_or_imp,
        not_or, not_exists, not_and]
      constructor
      · rintro ⟨hnd, hfresh⟩
        exact ⟨⟨fun x hx heq => (hfresh x hx).1 heq, hnd⟩, hseen, fun x hx => (hfresh x hx).2⟩
      · rintro ⟨⟨hne, hnd⟩, -, hfresh⟩
        exact ⟨hnd, fun x hx => ⟨fun heq => hne x hx heq, hfresh x hx⟩⟩

/-- The input loop goes through, or accepts early, as the output loop does. -/
theorem checkInputs_iff :
    (checkInputs iface vin = .next ↔
      (∀ txin ∈ vin, txin.prevout.isNull = false) ∧
        ∀ txin ∈ vin, ScriptOk iface txin.scriptSig) ∧
    (checkInputs iface vin = .ret true ↔
      ∃ pre txin post, vin = pre ++ txin :: post ∧
        (∀ i ∈ pre ++ [txin], i.prevout.isNull = false) ∧
        (∀ i ∈ pre, ScriptOk iface i.scriptSig) ∧ Slips iface txin.scriptSig) := by
  induction vin with
  | nil => simp [checkInputs]
  | cons txin vin ih =>
    rw [checkInputs, exists_split_cons]
    cases hnull : txin.prevout.isNull with
    | true => simp [hnull]
    | false =>
      cases hs : checkScript iface txin.scriptSig with
      | next =>
        have hok := checkScript_next.mp hs
        have hno : ¬ Slips iface txin.scriptSig := fun hslip => hslip.not_ok hok
        simp [ih, hnull, hok, hno]
      | ret b =>
        have hslips : b = true ↔ Slips iface txin.scriptSig := by
          rw [← checkScript_true, hs, Check.ret.injEq]
        simp [checkScript_ret hs, hslips, hnull]

/-! ## The whole function -/

/-- The checks before the loops. -/
def HeadOk (env : TxEnv) (iface : CIface) (tx : CTransaction) : Prop :=
  tx.vin ≠ [] ∧ tx.vout ≠ [] ∧ env.getSerializeSize tx ≤ iface.maxBlockSize

def OutputsOk (iface : CIface) (tx : CTransaction) : Prop :=
  AmountsOk iface 0 tx.vout ∧ ∀ txout ∈ tx.vout, ScriptOk iface txout.scriptPubKey

/-- **A bad script is reached**: every check before it passes, and its own returns a comma list
    that is true. -/
inductive ScriptSlips (env : TxEnv) (iface : CIface) (tx : CTransaction) : Prop
  | output (head : HeadOk env iface tx) (pre : List CTxOut) (txout : CTxOut) (post : List CTxOut)
      (hvout : tx.vout = pre ++ txout :: post) (amounts : AmountsOk iface 0 (pre ++ [txout]))
      (hpre : ∀ o ∈ pre, ScriptOk iface o.scriptPubKey) (hslip : Slips iface txout.scriptPubKey)
  | input (head : HeadOk env iface tx) (outputs : OutputsOk iface tx)
      (nodup : (tx.vin.map CTxIn.prevout).Nodup) (hcb : tx.isCoinBase = false)
      (pre : List CTxIn) (txin : CTxIn) (post : List CTxIn)
      (hvin : tx.vin = pre ++ txin :: post) (hnull : ∀ i ∈ pre ++ [txin], i.prevout.isNull = false)
      (hpre : ∀ i ∈ pre, ScriptOk iface i.scriptSig) (hslip : Slips iface txin.scriptSig)

theorem inRange_zero (iface : CIface) : InRange iface (0 : Int64).toInt :=
  ⟨by decide, by simp⟩

variable {env : TxEnv} {tx : CTransaction}

theorem checkTransaction_true
    (h : checkTransaction env iface tx = true) : TxSound iface tx ∨ ScriptSlips env iface tx := by
  unfold checkTransaction at h
  split_ifs at h with hvin hvout hsize
  have head : HeadOk env iface tx := by
    refine ⟨fun h => hvin (by simp [h]), fun h => hvout (by simp [h]), by omega⟩
  have h0 : (0 : Int64).toInt = 0 := rfl
  cases hout : checkOutputs iface 0 tx.vout with
  | ret b =>
    rw [hout] at h
    dsimp only at h
    rw [h] at hout
    obtain ⟨pre, txout, post, heq, hamt, hpre, hslip⟩ :=
      (checkOutputs_iff (inRange_zero iface)).2.mp hout
    exact .inr (.output head pre txout post heq (h0 ▸ hamt) hpre hslip)
  | next =>
    obtain ⟨hamt, hscripts⟩ := (checkOutputs_iff (inRange_zero iface)).1.mp hout
    rw [hout, checkDuplicates_eq] at h
    by_cases hnd : (tx.vin.map CTxIn.prevout).Nodup ∧ ∀ txin ∈ tx.vin, txin.prevout ∉ []
    · rw [if_pos hnd] at h
      unfold checkCoinbaseOrInputs at h
      cases hcb : tx.isCoinBase with
      | true =>
        exact .inl ⟨head.1, head.2.1, hamt, hscripts,
          fun hc => absurd (hcb.symm.trans hc) (by simp), hnd.1,
          fun hc => absurd (hcb.symm.trans hc) (by simp)⟩
      | false =>
        rw [hcb] at h
        simp only [Bool.false_eq_true, if_false] at h
        cases hin : checkInputs iface tx.vin with
        | next =>
          obtain ⟨hnn, hin'⟩ := checkInputs_iff.1.mp hin
          exact .inl ⟨head.1, head.2.1, hamt, hscripts, fun _ => hin', hnd.1, fun _ => hnn⟩
        | ret b =>
          rw [hin] at h
          dsimp only at h
          rw [h] at hin
          obtain ⟨pre, txin, post, heq, hnn, hpre, hslip⟩ := checkInputs_iff.2.mp hin
          exact .inr (.input head ⟨hamt, hscripts⟩ hnd.1 hcb pre txin post heq hnn hpre hslip)
    · rw [if_neg hnd] at h
      exact absurd h (by simp)

theorem checkTransaction_of_outputs {accepted : Bool} (head : HeadOk env iface tx)
    (hout : checkOutputs iface 0 tx.vout = .ret accepted) :
    checkTransaction env iface tx = accepted := by
  obtain ⟨hvin, hvout, hsize⟩ := head
  rw [checkTransaction, if_neg (by simpa using hvin), if_neg (by simpa using hvout),
    if_neg (by omega), hout]

theorem checkTransaction_of_inputs
    {accepted : Bool} (head : HeadOk env iface tx) (hout : checkOutputs iface 0 tx.vout = .next)
    (hdup : checkDuplicates [] tx.vin = .next)
    (hin : checkCoinbaseOrInputs iface tx = .ret accepted) :
    checkTransaction env iface tx = accepted := by
  obtain ⟨hvin, hvout, hsize⟩ := head
  rw [checkTransaction, if_neg (by simpa using hvin), if_neg (by simpa using hvout),
    if_neg (by omega), hout]
  rw [hdup]
  rw [hin]

theorem ScriptSlips.accepted
    (h : ScriptSlips env iface tx) : checkTransaction env iface tx = true := by
  have h0 : (0 : Int64).toInt = 0 := rfl
  cases h with
  | output head pre txout post hvout amounts hpre hslip =>
    have hout : checkOutputs iface 0 tx.vout = .ret true :=
      (checkOutputs_iff (inRange_zero iface)).2.mpr
        ⟨pre, txout, post, hvout, h0 ▸ amounts, hpre, hslip⟩
    exact checkTransaction_of_outputs head hout
  | input head outputs nodup hcb pre txin post hvin hnull hpre hslip =>
    have hout : checkOutputs iface 0 tx.vout = .next :=
      (checkOutputs_iff (inRange_zero iface)).1.mpr (h0 ▸ outputs)
    have hdup : checkDuplicates [] tx.vin = .next := by
      rw [checkDuplicates_eq, if_pos ⟨nodup, by simp⟩]
    have hin : checkCoinbaseOrInputs iface tx = .ret true := by
      rw [checkCoinbaseOrInputs, hcb]
      exact checkInputs_iff.2.mpr ⟨pre, txin, post, hvin, hnull, hpre, hslip⟩
    exact checkTransaction_of_inputs head hout hdup hin

theorem ScriptSlips.not_sound (h : ScriptSlips env iface tx) : ¬ TxSound iface tx := by
  intro hsound
  cases h with
  | output head pre txout post hvout amounts hpre hslip =>
    refine hslip.not_ok (hsound.outScripts txout ?_)
    simp [hvout]
  | input head outputs nodup hcb pre txin post hvin hnull hpre hslip =>
    refine hslip.not_ok (hsound.inScripts hcb txin ?_)
    simp [hvin]

/-- **`CheckTransaction` is sound exactly where no bad script is reached.** -/
theorem checkTransaction_sound_iff (env : TxEnv) (iface : CIface) (tx : CTransaction) :
    (checkTransaction env iface tx = true → TxSound iface tx) ↔ ¬ ScriptSlips env iface tx := by
  constructor
  · intro h hslip
    exact hslip.not_sound (h hslip.accepted)
  · intro h hacc
    exact (checkTransaction_true hacc).resolve_right h

/-- An environment in which the lock time is the hash and every transaction is small. -/
def txEnvSample : TxEnv where
  getHash := fun tx => BitVec.ofNat 256 tx.nLockTime.toNat
  getSerializeSize := fun _ => 100

/-- A transaction whose first output script is the invalid opcode `0xff`, and whose second output
    pays minus one. -/
def txSlips : CTransaction :=
  { nFlag := 1
    vin := [{ prevout := { hash := 1, n := 0 }, scriptSig := [], nSequence := 0xFFFFFFFF }]
    vout := [{ nValue := 1, scriptPubKey := [0xff] }, { nValue := -1, scriptPubKey := [] }]
    nLockTime := 7
    matrix := CTxMatrix.null
    ext := [] }

/-- **A bad script lets a negative output through.** -/
theorem checkTransaction_accepts_negative :
    checkTransaction txEnvSample shcIface txSlips = true ∧ ¬ TxSound shcIface txSlips := by
  refine ⟨by decide, ?_⟩
  intro hsound
  have hmem : ({ nValue := -1, scriptPubKey := [] } : CTxOut) ∈ txSlips.vout := by decide
  have hneg := (hsound.amounts.1 _ hmem).1
  exact absurd hneg (by decide)

end ShareCoin.Server
