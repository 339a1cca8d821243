import ShareCoin.Wire.Filter
import Mathlib.Data.List.GetD

/-!
# No false negatives

A key is held (`Held`) when its bits are set and the empty flag does not hide them. Bits are only
ever set, so a held key stays held: an insert keeps the bits and clears the empty flag, and
`UpdateEmptyFull` cannot find an empty array where a bit is set. The full flag stops inserts, so a
key is held after its insert only if that flag tells the truth (`WellFlagged`); `UpdateEmptyFull`
makes it do so, and no operation sets it otherwise.

`IsRelevant` changes the filter by inserts only, so what an insert preserves it preserves too.
-/

namespace ShareCoin.Wire

open Server List

/-! ## Bits -/

theorem bitMask_getD {k : Nat} (hk : k < 8) : (bitMask.getD k 0).toBitVec = BitVec.twoPow 8 k := by
  revert k
  decide

theorem and_bitMask {k : Nat} (hk : k < 8) (b : UInt8) :
    (b &&& bitMask.getD k 0 != 0) = b.toBitVec.getLsbD k := by
  have hzero : (b &&& bitMask.getD k 0 = 0) ↔ b.toBitVec.getLsbD k = false := by
    rw [← UInt8.toBitVec_inj, UInt8.toBitVec_and, bitMask_getD hk, BitVec.and_twoPow]
    cases b.toBitVec.getLsbD k with
    | false => simp
    | true =>
      refine iff_of_false ?_ (by simp)
      intro h
      have hbit := congrArg (BitVec.getLsbD · k) h
      simp [hk] at hbit
  cases hbit : b.toBitVec.getLsbD k with
  | false => simpa using hzero.mpr hbit
  | true =>
    rw [bne_iff_ne, ne_eq, hzero, hbit]
    simp

theorem checkBit_eq (vData : List UInt8) (nIndex : Nat) :
    checkBit vData nIndex = (vData.getD (nIndex / 8) 0).toBitVec.getLsbD (nIndex % 8) :=
  and_bitMask (Nat.mod_lt _ (by decide)) _

@[simp] theorem length_setBit (vData : List UInt8) (nIndex : Nat) :
    (setBit vData nIndex).length = vData.length := by
  simp [setBit]

theorem getD_setBit (vData : List UInt8) (nIndex j : Nat) :
    (setBit vData nIndex).getD j 0 =
      if nIndex / 8 = j ∧ j < vData.length then vData.getD j 0 ||| bitMask.getD (nIndex % 8) 0
      else vData.getD j 0 := by
  rw [setBit, getD_eq_getElem?_getD, getElem?_modify, getD_eq_getElem?_getD]
  by_cases hj : j < vData.length
  · by_cases hn : nIndex / 8 = j
    · simp [hn, hj]
    · simp [hn, hj]
  · simp [hj]

variable {vData : List UInt8}

theorem checkBit_setBit_self {nIndex : Nat}
    (h : nIndex / 8 < vData.length) : checkBit (setBit vData nIndex) nIndex = true := by
  have hk : nIndex % 8 < 8 := Nat.mod_lt _ (by decide)
  rw [checkBit_eq, getD_setBit, if_pos ⟨rfl, h⟩, UInt8.toBitVec_or, BitVec.getLsbD_or,
    bitMask_getD hk, BitVec.getLsbD_twoPow]
  simp [hk]

theorem checkBit_setBit_mono {m : Nat} (nIndex : Nat)
    (h : checkBit vData m = true) : checkBit (setBit vData nIndex) m = true := by
  rw [checkBit_eq] at h
  rw [checkBit_eq, getD_setBit]
  split_ifs
  · rw [UInt8.toBitVec_or, BitVec.getLsbD_or, h, Bool.true_or]
  · exact h

def setBits (index : Nat → Nat → Nat) (is : List Nat) (vData : List UInt8) : List UInt8 :=
  is.foldl (fun vData i => setBit vData (index vData.length i)) vData

@[simp] theorem length_setBits (index : Nat → Nat → Nat) (is : List Nat) (vData : List UInt8) :
    (setBits index is vData).length = vData.length := by
  induction is generalizing vData with
  | nil => rfl
  | cons i is ih => exact (ih _).trans (length_setBit _ _)

theorem checkBit_setBits_mono (index : Nat → Nat → Nat) (is : List Nat)
    {m : Nat} (h : checkBit vData m = true) : checkBit (setBits index is vData) m = true := by
  induction is generalizing vData with
  | nil => exact h
  | cons i is ih => exact ih (checkBit_setBit_mono _ h)

theorem checkBit_setBits_mem {index : Nat → Nat → Nat} {is : List Nat}
    {i : Nat} (hi : i ∈ is) (hindex : index vData.length i / 8 < vData.length) :
    checkBit (setBits index is vData) (index vData.length i) = true := by
  induction is generalizing vData with
  | nil => cases hi
  | cons j is ih =>
    rcases mem_cons.mp hi with rfl | hi
    · show checkBit (setBits index is (setBit vData (index vData.length i))) _ = true
      exact checkBit_setBits_mono _ _ (checkBit_setBit_self hindex)
    · have hlen := length_setBit vData (index vData.length j)
      have := ih hi (hlen.symm ▸ hindex)
      rwa [hlen] at this

/-! ## Held keys -/

namespace CBloomFilter

/-- The bits of a key are set, and the empty flag does not hide them. -/
structure Held (f : CBloomFilter) (vKey : List UInt8) : Prop where
  bits : ∀ i < f.nHashFuncs.toNat,
    checkBit f.vData (hash f.nTweak f.vData.length i vKey) = true
  shown : f.isFull = true ∨ f.isEmpty = false

/-- The array and the hash functions are there, and a filter that is called full is full. -/
structure WellFlagged (f : CBloomFilter) : Prop where
  data : f.vData ≠ []
  funcs : f.nHashFuncs ≠ 0
  full : f.isFull = true → ∀ b ∈ f.vData, b = 0xff

variable {f : CBloomFilter} {vKey vKey' : List UInt8} {s : Bool × CBloomFilter}

theorem Held.contains (h : f.Held vKey) : f.contains vKey = true := by
  unfold CBloomFilter.contains
  rcases h.shown with hfull | hempty
  · rw [if_pos hfull]
  · rw [hempty]
    split_ifs with hfull hfalse
    · rfl
    · cases hfalse
    · rw [all_eq_true]
      intro i hi
      exact h.bits i (mem_range.mp hi)

theorem hash_div_lt {size : Nat} (hsize : 0 < size) (nTweak : UInt32) (i : Nat)
    (vKey : List UInt8) : hash nTweak size i vKey / 8 < size := by
  apply Nat.div_lt_of_lt_mul
  rw [Nat.mul_comm]
  exact Nat.mod_lt _ (Nat.mul_pos hsize (by decide))

theorem WellFlagged.funcs_pos (h : f.WellFlagged) : 0 < f.nHashFuncs.toNat := by
  rcases Nat.eq_zero_or_pos f.nHashFuncs.toNat with hzero | hpos
  · exact absurd (UInt32.toNat_inj.mp hzero) h.funcs
  · exact hpos

theorem checkBit_full (hfull : ∀ b ∈ vData, b = 0xff) {n : Nat}
    (hn : n / 8 < vData.length) : checkBit vData n = true := by
  have hbyte : vData.getD (n / 8) 0 = 0xff := by
    rw [getD_eq_getElem _ _ hn]
    exact hfull _ (getElem_mem hn)
  rw [checkBit, hbyte]
  have : ∀ k < 8, ((0xff : UInt8) &&& bitMask.getD k 0 != 0) = true := by decide
  exact this _ (Nat.mod_lt _ (by decide))

/-! ## One insert -/

theorem insert_of_full (h : f.isFull = true) (vKey : List UInt8) : f.insert vKey = f := by
  rw [insert, if_pos h]

theorem insert_of_not_full (h : f.isFull = false) (vKey : List UInt8) :
    f.insert vKey = { f with
      vData := setBits (fun size i => hash f.nTweak size i vKey)
        (List.range f.nHashFuncs.toNat) f.vData
      isEmpty := false } := by
  rw [insert, h]
  rfl

/-- **A key is held after its insert.** -/
theorem WellFlagged.insert_held (h : f.WellFlagged) (vKey : List UInt8) :
    (f.insert vKey).Held vKey := by
  have hsize : 0 < f.vData.length := length_pos_of_ne_nil h.data
  cases hfull : f.isFull with
  | true =>
    rw [insert_of_full hfull]
    exact ⟨fun i _ => checkBit_full (h.full hfull) (hash_div_lt hsize _ _ _), .inl hfull⟩
  | false =>
    rw [insert_of_not_full hfull]
    refine ⟨?_, .inr rfl⟩
    intro i hi
    dsimp only at hi ⊢
    rw [length_setBits]
    let index := fun size i => hash f.nTweak size i vKey
    have hindex : index f.vData.length i / 8 < f.vData.length := hash_div_lt hsize _ _ _
    exact checkBit_setBits_mem (mem_range.mpr hi) hindex

theorem Held.insert (h : f.Held vKey) (vKey' : List UInt8) : (f.insert vKey').Held vKey := by
  cases hfull : f.isFull with
  | true => rwa [insert_of_full hfull]
  | false =>
    rw [insert_of_not_full hfull]
    refine ⟨?_, .inr rfl⟩
    intro i hi
    dsimp only
    rw [length_setBits]
    exact checkBit_setBits_mono _ _ (h.bits i hi)

theorem WellFlagged.insert (h : f.WellFlagged) (vKey : List UInt8) :
    (f.insert vKey).WellFlagged := by
  cases hfull : f.isFull with
  | true => rwa [insert_of_full hfull]
  | false =>
    rw [insert_of_not_full hfull]
    refine ⟨?_, h.funcs, ?_⟩
    · intro hnil
      have hlen := length_setBits (fun size i => hash f.nTweak size i vKey)
        (List.range f.nHashFuncs.toNat) f.vData
      dsimp only at hnil
      rw [hnil] at hlen
      exact h.data (length_eq_zero_iff.mp hlen.symm)
    · intro htrue
      rw [hfull] at htrue
      cases htrue

theorem nFlags_insert (f : CBloomFilter) (vKey : List UInt8) :
    (f.insert vKey).nFlags = f.nFlags := by
  unfold insert
  split_ifs <;> rfl

/-- What every insert preserves. -/
def Stable (P : CBloomFilter → Prop) : Prop := ∀ f vKey, P f → P (f.insert vKey)

theorem stable_held (vKey : List UInt8) : Stable (Held · vKey) := fun _ vKey' h => h.insert vKey'

theorem stable_wellFlagged : Stable WellFlagged := fun _ vKey h => h.insert vKey

theorem stable_nFlags (nFlags : UInt8) : Stable (CBloomFilter.nFlags · = nFlags) :=
  fun f vKey h => (nFlags_insert f vKey).trans h

/-! ## The flags -/

theorem WellFlagged.updateEmptyFull (h : f.WellFlagged) : f.updateEmptyFull.WellFlagged := by
  refine ⟨h.data, h.funcs, ?_⟩
  intro hfull b hb
  have hall : f.vData.all (· == 0xff) = true := hfull
  rw [all_eq_true] at hall
  exact beq_iff_eq.mp (hall b hb)

theorem exists_of_checkBit {n : Nat} (h : checkBit vData n = true) : ∃ b ∈ vData, b ≠ 0 := by
  have hn : n / 8 < vData.length := by
    by_contra hn
    rw [checkBit, getD_eq_default _ _ (Nat.le_of_not_lt hn)] at h
    simp at h
  refine ⟨vData.getD (n / 8) 0, ?_, ?_⟩
  · rw [getD_eq_getElem _ _ hn]
    exact getElem_mem hn
  · intro hzero
    rw [checkBit, hzero] at h
    simp at h

theorem Held.updateEmptyFull (hf : f.WellFlagged) (h : f.Held vKey) :
    f.updateEmptyFull.Held vKey := by
  refine ⟨h.bits, .inr ?_⟩
  obtain ⟨b, hb, hne⟩ := exists_of_checkBit (h.bits 0 hf.funcs_pos)
  show f.vData.all (· == 0) = false
  rw [all_eq_false]
  exact ⟨b, hb, by simpa using hne⟩

/-! ## `IsRelevant` -/

section

variable {templates : CScript → Option (TemplateType × List Valtype)} {P : CBloomFilter → Prop}
  {fUpdate : Bool} {txHash : Uint256}

theorem matchOutput_induct (hP : Stable P) (h : P s.2) (i : Nat) (txout : CTxOut) :
    P (matchOutput templates fUpdate txHash i txout s).2 := by
  unfold matchOutput
  split_ifs
  · exact hP _ _ h
  · exact h
  · exact h

theorem matchOutputs_induct (hP : Stable P) (vout : List CTxOut) (i : Nat) (h : P s.2) :
    P (matchOutputs templates fUpdate txHash vout i s).2 := by
  induction vout generalizing i s with
  | nil => exact h
  | cons txout vout ih => exact ih (i + 1) (matchOutput_induct hP h i txout)

/-- **What every insert preserves, `IsRelevant` preserves.** -/
theorem isRelevant_induct (hP : Stable P) (h : P f)
    (tx : CTransaction) : P (f.isRelevant templates tx txHash fUpdate).2 := by
  unfold isRelevant
  split_ifs
  · exact h
  · exact h
  · exact matchOutputs_induct hP tx.vout 0 h

theorem matchOutputs_append (before after : List CTxOut) (i : Nat) (s : Bool × CBloomFilter) :
    matchOutputs templates fUpdate txHash (before ++ after) i s =
      matchOutputs templates fUpdate txHash after (i + before.length)
        (matchOutputs templates fUpdate txHash before i s) := by
  induction before generalizing i s with
  | nil => rfl
  | cons txout before ih =>
    rw [cons_append, matchOutputs, ih, matchOutputs, length_cons]
    congr 1
    omega

end

variable (templates : CScript → Option (TemplateType × List Valtype))

/-- The loop of `IsRelevant` reaches the output `i` with a filter that contains data which the
    output pushes. -/
def MatchesOutput (f : CBloomFilter) (tx : CTransaction) (txHash : Uint256) (i : Nat)
    (g : CBloomFilter) (txout : CTxOut) : Prop :=
  f.isFull = false ∧ f.isEmpty = false ∧
    ∃ before after, tx.vout = before ++ txout :: after ∧ before.length = i ∧
      g = (matchOutputs templates true txHash before 0 (f.contains (u256.put txHash), f)).2 ∧
      g.matchesScript txout.scriptPubKey = true

variable {templates}

theorem MatchesOutput.held (hf : f.WellFlagged) {tx : CTransaction} {txHash : Uint256} {i : Nat}
    {g : CBloomFilter} {txout : CTxOut} (h : f.MatchesOutput templates tx txHash i g txout)
    (hadds : g.addsOutput templates txout.scriptPubKey = true) :
    (f.isRelevant templates tx txHash true).2.Held (outPoint.put ⟨txHash, UInt32.ofNat i⟩) := by
  obtain ⟨hfull, hempty, before, after, hvout, rfl, rfl, hmatch⟩ := h
  have hg : (matchOutputs templates true txHash before 0
      (f.contains (u256.put txHash), f)).2.WellFlagged :=
    matchOutputs_induct stable_wellFlagged before 0 hf
  unfold isRelevant
  rw [hfull, hempty, hvout, matchOutputs_append, matchOutputs, matchOutput, if_pos hmatch, hadds]
  refine matchOutputs_induct (stable_held _) after _ ?_
  rw [Nat.zero_add]
  exact hg.insert_held _

/-- **A transaction that spends an output the filter holds is relevant.** -/
theorem Held.relevant {tx : CTransaction} {txin : CTxIn} (htxin : txin ∈ tx.vin)
    (h : f.Held (outPoint.put txin.prevout)) (txHash : Uint256) (fUpdate : Bool) :
    (f.isRelevant templates tx txHash fUpdate).1 = true := by
  unfold isRelevant
  split_ifs with hfull hempty
  · rfl
  · rcases h.shown with hshown | hshown
    · exact absurd hshown hfull
    · rw [hempty] at hshown
      cases hshown
  · have hheld : (matchOutputs templates fUpdate txHash tx.vout 0
        (f.contains (u256.put txHash), f)).2.Held (outPoint.put txin.prevout) :=
      matchOutputs_induct (stable_held _) tx.vout 0 h
    rw [Bool.or_eq_true]
    refine .inr (any_eq_true.mpr ⟨txin, htxin, ?_⟩)
    rw [hheld.contains, Bool.true_or]

end CBloomFilter

/-! ## Runs -/

section

open CBloomFilter

variable (templates : CScript → Option (TemplateType × List Valtype))

def Inserts (f : CBloomFilter) : FilterOp → List UInt8 → Prop
  | .insert vKey, k => k = vKey
  | .updateEmptyFull, _ => False
  | .isRelevant tx txHash, k =>
    ∃ i g txout, f.MatchesOutput templates tx txHash i g txout ∧
      g.addsOutput templates txout.scriptPubKey = true ∧
      k = outPoint.put ⟨txHash, UInt32.ofNat i⟩

variable {templates} {f : CBloomFilter}

theorem FilterOp.apply_wellFlagged (h : f.WellFlagged) (op : FilterOp) :
    (op.apply templates f).WellFlagged := by
  cases op with
  | insert vKey => exact h.insert vKey
  | updateEmptyFull => exact h.updateEmptyFull
  | isRelevant tx txHash => exact isRelevant_induct stable_wellFlagged h tx

variable {vKey : List UInt8}

theorem FilterOp.apply_held (hf : f.WellFlagged) (h : f.Held vKey)
    (op : FilterOp) : (op.apply templates f).Held vKey := by
  cases op with
  | insert vKey' => exact h.insert vKey'
  | updateEmptyFull => exact h.updateEmptyFull hf
  | isRelevant tx txHash => exact isRelevant_induct (stable_held vKey) h tx

theorem FilterOp.apply_nFlags (f : CBloomFilter) (op : FilterOp) :
    (op.apply templates f).nFlags = f.nFlags := by
  cases op with
  | insert vKey => exact nFlags_insert f vKey
  | updateEmptyFull => rfl
  | isRelevant tx txHash => exact isRelevant_induct (stable_nFlags f.nFlags) rfl tx

theorem Inserts.held (hf : f.WellFlagged) {op : FilterOp}
    (h : Inserts templates f op vKey) : (op.apply templates f).Held vKey := by
  cases op with
  | insert vKey' =>
    cases h
    exact hf.insert_held vKey
  | updateEmptyFull => cases h
  | isRelevant tx txHash =>
    obtain ⟨i, g, txout, hmatch, hadds, rfl⟩ := h
    exact hmatch.held hf hadds

theorem runFilter_wellFlagged (h : f.WellFlagged) (ops : List FilterOp) :
    (runFilter templates f ops).WellFlagged := by
  induction ops generalizing f with
  | nil => exact h
  | cons op ops ih => exact ih (op.apply_wellFlagged h)

theorem runFilter_held (hf : f.WellFlagged) (h : f.Held vKey)
    (ops : List FilterOp) : (runFilter templates f ops).Held vKey := by
  induction ops generalizing f with
  | nil => exact h
  | cons op ops ih => exact ih (op.apply_wellFlagged hf) (op.apply_held hf h)

theorem runFilter_nFlags (f : CBloomFilter) (ops : List FilterOp) :
    (runFilter templates f ops).nFlags = f.nFlags := by
  induction ops generalizing f with
  | nil => rfl
  | cons op ops ih => exact (ih _).trans (op.apply_nFlags f)

theorem held_of_inserts (hf : f.WellFlagged) {before after : List FilterOp} {op : FilterOp}
    (h : Inserts templates (runFilter templates f before) op vKey) :
    (runFilter templates f (before ++ op :: after)).Held vKey := by
  have hbefore : (runFilter templates f before).WellFlagged := runFilter_wellFlagged hf before
  rw [runFilter, foldl_append, foldl_cons]
  exact runFilter_held (op.apply_wellFlagged hbefore) (h.held hbefore) after

/-- **No false negatives.** A filter with an array and a hash function, and with a full flag that is
    set only where the array is full, contains after any use each key that was inserted. With
    `BLOOM_UPDATE_ALL`, once a transaction matched through data of its output `i`, each later
    transaction that spends this output is relevant. -/
theorem filter_contains_inserted (templates : CScript → Option (TemplateType × List Valtype))
    (f : CBloomFilter) (hdata : f.vData ≠ []) (hfuncs : f.nHashFuncs ≠ 0)
    (hfull : f.isFull = true → ∀ b ∈ f.vData, b = 0xff) (before after : List FilterOp) :
    (∀ op vKey, Inserts templates (runFilter templates f before) op vKey →
      (runFilter templates f (before ++ op :: after)).contains vKey = true) ∧
    (f.nFlags &&& bloomUpdateMask = bloomUpdateAll → ∀ tx txHash i g txout,
      (runFilter templates f before).MatchesOutput templates tx txHash i g txout →
      ∀ tx' txHash' fUpdate, (∃ txin ∈ tx'.vin, txin.prevout = ⟨txHash, UInt32.ofNat i⟩) →
        ((runFilter templates f (before ++ .isRelevant tx txHash :: after)).isRelevant templates
          tx' txHash' fUpdate).1 = true) := by
  have hf : f.WellFlagged := ⟨hdata, hfuncs, hfull⟩
  refine ⟨fun op vKey h => (held_of_inserts hf h).contains, ?_⟩
  intro hall tx txHash i g txout hmatch tx' txHash' fUpdate hspends
  obtain ⟨txin, htxin, hprevout⟩ := hspends
  have hmode : g.nFlags = f.nFlags := by
    obtain ⟨-, -, outs, -, -, -, rfl, -⟩ := hmatch
    exact matchOutputs_induct (stable_nFlags f.nFlags) outs 0 (runFilter_nFlags f before)
  have hadds : g.addsOutput templates txout.scriptPubKey = true := by
    rw [addsOutput, hmode, if_pos hall]
  have hinserts : Inserts templates (runFilter templates f before) (.isRelevant tx txHash)
      (outPoint.put txin.prevout) :=
    ⟨i, g, txout, hmatch, hadds, by rw [hprevout]⟩
  exact (held_of_inserts hf hinserts).relevant htxin txHash' fUpdate

/-- A filter of eight bits with one hash function keeps a key over an update of the flags. -/
theorem eight_bits_keep_key :
    (runFilter (fun _ => none) ⟨[0], false, false, 1, 0, bloomUpdateAll⟩
      [.insert [1], .updateEmptyFull]).contains [1] = true :=
  (filter_contains_inserted (fun _ => none) ⟨[0], false, false, 1, 0, bloomUpdateAll⟩ (by simp)
    (by decide) (by intro h; cases h) [] [.updateEmptyFull]).1 (.insert [1]) [1] rfl

/-- **A filter that was read and not updated loses keys.** Its full flag is still that of the
    constructor, so the insert does nothing. -/
theorem read_filter_loses_key :
    (readFilter false [0] 1 0 bloomUpdateAll).vData ≠ [] ∧
    (readFilter false [0] 1 0 bloomUpdateAll).nHashFuncs ≠ 0 ∧
    Inserts (fun _ => none) (readFilter false [0] 1 0 bloomUpdateAll) (.insert [1]) [1] ∧
    (runFilter (fun _ => none) (readFilter false [0] 1 0 bloomUpdateAll)
      [.insert [1], .updateEmptyFull]).contains [1] = false := by
  refine ⟨by simp [readFilter], by decide, rfl, rfl⟩

end

end ShareCoin.Wire
