import ShareCoin.Proof.Server.ExtPrefix
import ShareCoin.Server.Color
import Mathlib.Algebra.Order.BigOperators.Group.List

/-!
# What the acceptance of a colored block leaves open

A block that `color_ProcessBlock` adds has passed `CheckBlock` and `CheckTransactionInputs`. For a
transaction none of whose inputs names another one of the block, these find each previous
transaction in the store; they do not look at the index of the output. Nothing else is looked at:
not the work that the parent asks for, not the inputs of the remaining transactions, not whether an
output is spent twice, and not one amount.

`ColorEnforced` is what a block should satisfy and `LeftOpen` the part of it that the sender of a
block decides. For the amounts, `color_GetBlockValue` itself goes wrong: it counts the hundredths of
a coin, and then takes each of them for a tenth.
-/

namespace ShareCoin.Server

open List

section

variable {env : ColorEnv} {db : ChainDb} {table : ColorTable} {block : ColorBlock}

/-- `color_ProcessBlock` returns, and the block is in the index as it was not before. -/
def Adds (env : ColorEnv) (db : ChainDb) (table : ColorTable) (block : ColorBlock) : Prop :=
  ∃ ok table', colorProcessBlock env db table block = some (ok, table') ∧
    table (env.getBlockHash block.toCBlockHeader) = none ∧
    (table' (env.getBlockHash block.toCBlockHeader)).isSome

def Stored (env : TxEnv) (db : ChainDb) (o : COutPoint) : Prop :=
  ∃ prev ∈ getTransaction env db o.hash, o.n.toNat < prev.1.vout.length

def OutputOf (env : TxEnv) (vtx : List CTransaction) (o : COutPoint) : Prop :=
  ∃ prev ∈ vtx, env.getHash prev = o.hash ∧ o.n.toNat < prev.vout.length

def blockSpends (vtx : List CTransaction) : List COutPoint :=
  (vtx.filter fun tx => ! tx.isCoinBase).flatMap fun tx => tx.vin.map (·.prevout)

section

variable (env : ColorEnv) (db : ChainDb) (table : ColorTable) (block : ColorBlock)

/-- **What the acceptance of a block is for.** -/
structure ColorEnforced : Prop where
  work : block.nBits = env.getNextWorkRequired (colorPrev table block)
  known : ∀ pre tx post, block.vtx = pre ++ tx :: post → tx.isCoinBase = false →
    ∀ txin ∈ tx.vin, Stored env.toTxEnv db txin.prevout ∨ OutputOf env.toTxEnv pre txin.prevout
  once : (blockSpends block.vtx).Nodup

/-- What no check looks at. A transaction that `fInBlock` passes over has to have its inputs right,
    and the others the indices of theirs. -/
structure LeftOpen : Prop where
  work : block.nBits = env.getNextWorkRequired (colorPrev table block)
  linked : ∀ pre tx post, block.vtx = pre ++ tx :: post → tx.isCoinBase = false →
    inBlock env.toTxEnv block.vtx tx = true → ∀ txin ∈ tx.vin,
      Stored env.toTxEnv db txin.prevout ∨ OutputOf env.toTxEnv pre txin.prevout
  indices : ∀ pre tx post, block.vtx = pre ++ tx :: post → tx.isCoinBase = false →
    inBlock env.toTxEnv block.vtx tx = false → ∀ txin ∈ tx.vin,
      ∀ prev ∈ getTransaction env.toTxEnv db txin.prevout.hash,
        prev.1.vout.length ≤ txin.prevout.n.toNat → OutputOf env.toTxEnv pre txin.prevout
  once : (blockSpends block.vtx).Nodup

end

/-! ## What the checks do see -/

theorem adds_iff : Adds env db table block ↔
    colorCheckBlock env block = some true ∧ checkBlockInputs env.toTxEnv db block.vtx = true ∧
      colorAcceptable env table block = true ∧
        table (env.getBlockHash block.toCBlockHeader) = none := by
  constructor
  · rintro ⟨ok, table', hprocess, hnew, hadded⟩
    obtain ⟨checked, hcheck, heq⟩ := Option.map_eq_some_iff.mp hprocess
    -- the three ways out before the end leave the index as it is
    have hkept : table' ≠ table := fun h => by simp [h, hnew] at hadded
    split_ifs at heq with hc hi ha
    · exact absurd (Prod.mk.inj heq).2.symm hkept
    · exact absurd (Prod.mk.inj heq).2.symm hkept
    · exact absurd (Prod.mk.inj heq).2.symm hkept
    · refine ⟨?_, by simpa using hi, by simpa using ha, hnew⟩
      rw [hcheck]
      simpa using hc
  · rintro ⟨hcheck, hinputs, haccept, hnew⟩
    refine ⟨env.writeBlock block, colorAddToBlockIndex env table block, ?_, hnew, ?_⟩
    · simp [colorProcessBlock, hcheck, hinputs, haccept]
    · simp [colorAddToBlockIndex]

theorem previous_stored (h : checkBlockInputs env.toTxEnv db block.vtx = true) {tx : CTransaction}
    (hmem : tx ∈ block.vtx) (hcoinbase : tx.isCoinBase = false)
    (hin : inBlock env.toTxEnv block.vtx tx = false) {txin : CTxIn} (htxin : txin ∈ tx.vin) :
    ∃ prev, getTransaction env.toTxEnv db txin.prevout.hash = some prev := by
  have hchecked : checkTransactionInputs env.toTxEnv db tx = true := by
    simpa [hin] using all_eq_true.mp h tx hmem
  unfold checkTransactionInputs at hchecked
  rw [if_neg (by simp [hcoinbase])] at hchecked
  split_ifs at hchecked
  have hverified := all_eq_true.mp hchecked txin htxin
  simp only [verifyTxHash, Bool.and_eq_true] at hverified
  exact Option.isSome_iff_exists.mp hverified.2

/-- **An added block is as it should be exactly if what no check looks at is.** -/
theorem color_enforced_iff (h : Adds env db table block) :
    ColorEnforced env db table block ↔ LeftOpen env db table block := by
  constructor
  · intro he
    refine ⟨he.work, fun pre tx post hvtx hc _ => he.known pre tx post hvtx hc, ?_, he.once⟩
    intro pre tx post hvtx hc _ txin htxin prev hprev hlen
    obtain ⟨prev', hprev', hlt⟩ | hout := he.known pre tx post hvtx hc txin htxin
    · cases Option.mem_unique hprev hprev'
      exact absurd hlt (Nat.not_lt.mpr hlen)
    · exact hout
  · intro ho
    refine ⟨ho.work, ?_, ho.once⟩
    intro pre tx post hvtx hc txin htxin
    cases hin : inBlock env.toTxEnv block.vtx tx with
    | true => exact ho.linked pre tx post hvtx hc hin txin htxin
    | false =>
      have hmem : tx ∈ block.vtx := by simp [hvtx]
      obtain ⟨prev, hprev⟩ := previous_stored (adds_iff.mp h).2.1 hmem hc hin htxin
      by_cases hlt : txin.prevout.n.toNat < prev.1.vout.length
      · exact .inl ⟨prev, hprev, hlt⟩
      · exact .inr (ho.indices pre tx post hvtx hc hin txin htxin prev hprev (Nat.not_lt.mp hlt))

end

/-! ## A block that should have been refused -/

def colorTx (nLockTime : UInt32) (vin : List CTxIn) (nValue : Int64) : CTransaction :=
  { nFlag := 1, vin := vin, vout := [⟨nValue, [0x51]⟩], nLockTime := nLockTime, matrix := .null,
    ext := [] }

def colorSpend (hash : Uint256) : CTxIn := ⟨⟨hash, 0⟩, [], sequenceFinal⟩

def colorEnvSample : ColorEnv where
  getHash tx := BitVec.ofNat 256 tx.nLockTime.toNat
  getSerializeSize _ := 100
  getBlockHash header := BitVec.ofNat 256 header.nNonce.toNat
  getPoWHash _ := 0
  getBlockWeight _ := 1000
  buildMerkleTree _ := 0
  getNextWorkRequired _ := 0x1d00ffff
  getAdjustedTime := 0
  writeBlock _ := true

def colorDbSample : ChainDb where
  coins _ := none
  txs hash := if hash = 1 then [0] else []
  blocks _ := some ⟨5, [colorTx 1 [colorSpend 2] 100000000]⟩

def colorBlockSample (nBits : UInt32) (nValue : Int64) (vtx : List CTransaction) : ColorBlock where
  nVersion := 4
  hashPrevBlock := 0
  hashMerkleRoot := 0
  nTime := 0
  nBits := nBits
  nNonce := 7
  vtx := colorTx 9 [⟨⟨0, 0xFFFFFFFF⟩, [0, 0], sequenceFinal⟩] nValue :: vtx

/-- A block with the wrong work, whose last transaction spends a coin again and one that is nowhere,
    and pays out ten coins; its first input, from the transaction before it, is why no other one is
    looked at. The coinbase pays a thousand coins. -/
def looseBlock : ColorBlock :=
  colorBlockSample 0x1e00ffff 100000000000 [colorTx 10 [colorSpend 1] 100000000,
    colorTx 11 [colorSpend 10, colorSpend 1, colorSpend 99] 1000000000]

theorem looseBlock_adds : Adds colorEnvSample colorDbSample (fun _ => none) looseBlock := by
  refine adds_iff.mpr ⟨?_, ?_, ?_, rfl⟩ <;> decide

/-- A block with one transaction, which spends a stored coin. -/
theorem color_enforced_sample :
    ColorEnforced colorEnvSample colorDbSample (fun _ => none)
        (colorBlockSample 0x1d00ffff 0 [colorTx 10 [colorSpend 1] 0]) ↔
      LeftOpen colorEnvSample colorDbSample (fun _ => none)
        (colorBlockSample 0x1d00ffff 0 [colorTx 10 [colorSpend 1] 0]) := by
  apply color_enforced_iff
  refine adds_iff.mpr ⟨?_, ?_, ?_, rfl⟩ <;> decide

/-- **Wrong work, an unknown output and one that is spent twice go through together.** -/
theorem loose_block_added :
    Adds colorEnvSample colorDbSample (fun _ => none) looseBlock ∧
      looseBlock.nBits ≠ colorEnvSample.getNextWorkRequired (colorPrev (fun _ => none) looseBlock) ∧
      (⟨99, 0⟩ ∈ blockSpends looseBlock.vtx ∧
        getTransaction colorEnvSample.toTxEnv colorDbSample 99 = none ∧
        99 ∉ looseBlock.vtx.map colorEnvSample.getHash) ∧
      ¬ (blockSpends looseBlock.vtx).Nodup := by
  refine ⟨looseBlock_adds, ?_, ⟨?_, ?_, ?_⟩, ?_⟩ <;> decide

/-! ## The value of a block -/

section

variable {venv : BlockValueEnv} {d : Double} {opt : ColorOpt} {nHeight : Nat} {nFees : Int}

theorem Double.rnd_one (d : Double) : d.rnd 1 = 1 := by
  simpa using d.rnd_int 1 (by decide)

section

variable (env : TxEnv) (db : ChainDb) (vtx : List CTransaction)

end

/-- An added block has one coinbase, in front. -/
theorem Adds.coinbase {env : ColorEnv} {db : ChainDb} {table : ColorTable} {block : ColorBlock}
    (h : Adds env db table block) :
    ∃ coinbase vtx, block.vtx = coinbase :: vtx ∧ coinbase.isCoinBase = true ∧
      ∀ tx ∈ vtx, tx.isCoinBase = false := by
  obtain ⟨ok, -, heq⟩ := Option.map_eq_some_iff.mp (adds_iff.mp h).1
  obtain ⟨-, hcontents⟩ := Bool.and_eq_true_iff.mp heq
  rw [colorCheckContents] at hcontents
  cases hvtx : block.vtx with
  | nil => simp [hvtx] at hcontents
  | cons coinbase vtx =>
    simp only [hvtx] at hcontents
    split_ifs at hcontents with _ hcoinbase _ _ hmore
    refine ⟨coinbase, vtx, rfl, by simpa using hcoinbase, fun tx htx => ?_⟩
    exact Bool.eq_false_iff.mpr fun htrue => hmore (any_eq_true.mpr ⟨tx, htx, htrue⟩)

end

def SmallOpts (opt : ColorOpt) : Prop := ∀ mode, opt mode ≠ 0 → 1 ≤ mode ∧ mode ≤ 16 ∧ opt mode ≤ 16

theorem decodeOpN_le {opcode : UInt8} {n : Nat} (h : decodeOpN opcode = some n) : n ≤ 16 := by
  unfold decodeOpN at h
  split_ifs at h with hzero hrange
  · cases h
    exact Nat.zero_le _
  · cases h
    have hle := UInt8.le_iff_toNat_le.mp (of_decide_eq_true (Bool.and_eq_true_iff.mp hrange).2)
    exact Nat.sub_le_of_le_add hle

theorem setColorOpt_cases {opt : ColorOpt} (hopt : SmallOpts opt) (codes : UInt8 × UInt8) :
    (∃ opt', setColorOpt opt codes = some opt' ∧ SmallOpts opt') ∧
        (decodeOpN codes.1).isSome ∧ (decodeOpN codes.2).isSome ∨
      setColorOpt opt codes = none ∧
        ¬ ((decodeOpN codes.1).isSome ∧ (decodeOpN codes.2).isSome) := by
  unfold setColorOpt
  cases hm : decodeOpN codes.1 with
  | none => exact .inr ⟨rfl, by simp⟩
  | some mode =>
    cases hv : decodeOpN codes.2 with
    | none => exact .inr ⟨rfl, by simp⟩
    | some value =>
      refine .inl ⟨⟨_, rfl, ?_⟩, rfl, rfl⟩
      split_ifs with hz
      · exact hopt
      · intro m hm0
        by_cases heq : m = mode
        · subst heq
          rw [Function.update_self] at hm0 ⊢
          exact ⟨by omega, decodeOpN_le hm, decodeOpN_le hv⟩
        · rw [Function.update_of_ne heq] at hm0 ⊢
          exact hopt m hm0

theorem foldlM_setColorOpt {pairs : List (UInt8 × UInt8)} : ∀ {opt : ColorOpt}, SmallOpts opt →
    ((∃ opt', pairs.foldlM setColorOpt opt = some opt' ∧ SmallOpts opt') ↔
      ∀ codes ∈ pairs, (decodeOpN codes.1).isSome ∧ (decodeOpN codes.2).isSome) := by
  induction pairs with
  | nil => exact fun hopt => ⟨fun _ => by simp, fun _ => ⟨_, rfl, hopt⟩⟩
  | cons codes pairs ih =>
    intro opt hopt
    rw [forall_mem_cons, foldlM_cons]
    rcases setColorOpt_cases hopt codes with ⟨⟨opt', hset, hopt'⟩, hcodes⟩ | ⟨hset, hcodes⟩
    · rw [hset, and_iff_right hcodes]
      exact ih hopt'
    · rw [hset]
      exact iff_of_false (fun h => by simp at h) (fun h => hcodes h.1)

/-- The entries of a map whose modes and values are from 1 to 16. -/
structure OptEntries (opt : List (Nat × Nat)) : Prop where
  sorted : opt.Pairwise fun a b => a.1 < b.1
  inRange : ∀ tok ∈ opt, (1 ≤ tok.1 ∧ tok.1 ≤ 16) ∧ 1 ≤ tok.2 ∧ tok.2 ≤ 16

/-- What the map reads. -/
def optOf (opt : List (Nat × Nat)) : ColorOpt := fun mode => (opt.lookup mode).getD 0

theorem opcodePairs_entries {opt : List (Nat × Nat)} {k : Nat} (hk : opt.length ≤ k)
    (hopt : ∀ tok ∈ opt, (1 ≤ tok.1 ∧ tok.1 ≤ 16) ∧ 1 ≤ tok.2 ∧ tok.2 ≤ 16) :
    opcodePairs k (opt.flatMap fun tok => [encodeOpN tok.1, encodeOpN tok.2]) =
      opt.map fun tok => (encodeOpN tok.1, encodeOpN tok.2) := by
  induction opt generalizing k with
  | nil => cases k <;> rfl
  | cons tok opt ih =>
    rw [forall_mem_cons] at hopt
    obtain ⟨k, rfl⟩ : ∃ n, k = n + 1 := ⟨k - 1, by simp at hk; omega⟩
    simp only [flatMap_cons, cons_append, nil_append, opcodePairs, map_cons,
      getOp_of_decodeOpN (decodeOpN_encodeOpN hopt.1.1.1 hopt.1.1.2),
      getOp_of_decodeOpN (decodeOpN_encodeOpN hopt.1.2.1 hopt.1.2.2)]
    rw [ih (by simpa using hk) hopt.2]

theorem foldlM_entries {opt : List (Nat × Nat)} (hopt : OptEntries opt) : ∀ acc : ColorOpt,
    (opt.map fun tok => (encodeOpN tok.1, encodeOpN tok.2)).foldlM setColorOpt acc =
      some fun mode => (opt.lookup mode).getD (acc mode) := by
  obtain ⟨hsorted, hrange⟩ := hopt
  induction opt with
  | nil => exact fun acc => rfl
  | cons tok opt ih =>
    intro acc
    rw [pairwise_cons] at hsorted
    rw [forall_mem_cons] at hrange
    obtain ⟨mode₀, value⟩ := tok
    have hset : setColorOpt acc (encodeOpN mode₀, encodeOpN value) =
        some (Function.update acc mode₀ value) := by
      have hne : ¬ (mode₀ = 0 ∨ value = 0) := by omega
      simp [setColorOpt, decodeOpN_encodeOpN hrange.1.1.1 hrange.1.1.2,
        decodeOpN_encodeOpN hrange.1.2.1 hrange.1.2.2, hne]
    rw [map_cons, foldlM_cons, hset]
    refine (ih hsorted.2 hrange.2 _).trans (congrArg some (funext fun mode => ?_))
    -- the mode of the first entry does not come again
    by_cases heq : mode = mode₀
    · have hfresh : opt.lookup mode = none := by
        rw [lookup_eq_none_iff]
        intro tok htok
        simpa [heq] using (hsorted.1 tok htok).ne
      subst heq
      simp [hfresh]
    · simp [lookup_cons, beq_eq_false_iff_ne.mpr heq, heq]

/-- **The options of a color survive their script; a script survives its options exactly if each
    pair of opcodes behind `OP_RETURN OP_0` is of numbers.** Any other opcode fails an assertion.
    What is read has modes and values from 1 to 16. -/
theorem color_opt_script_iff {opt : List (Nat × Nat)} (hopt : OptEntries opt) (script : CScript) :
    parseColorOptScript (getColorOptScript opt) = some (optOf opt) ∧
      ((∃ opt', parseColorOptScript script = some opt' ∧ SmallOpts opt') ↔
        ∀ pairs, opcodePairs script.length script = (0x6a, 0) :: pairs →
          ∀ codes ∈ pairs, (decodeOpN codes.1).isSome ∧ (decodeOpN codes.2).isSome) := by
  have hzero : SmallOpts fun _ => 0 := fun _ h => absurd rfl h
  refine ⟨?_, ?_⟩
  · have hlen : opt.length ≤ (getColorOptScript opt).length - 1 := by
      simp [getColorOptScript, length_flatMap]
      omega
    obtain ⟨k, hk⟩ : ∃ k, (getColorOptScript opt).length = k + 1 := ⟨_, rfl⟩
    have hpairs : opcodePairs (getColorOptScript opt).length (getColorOptScript opt) =
        (0x6a, 0) :: opt.map fun tok => (encodeOpN tok.1, encodeOpN tok.2) := by
      rw [hk] at hlen ⊢
      rw [getColorOptScript, opcodePairs, getOp_cons (by decide)]
      simp only [getOp_of_decodeOpN (show decodeOpN 0 = some 0 from rfl)]
      rw [opcodePairs_entries (k := k) hlen hopt.inRange]
    rw [parseColorOptScript, hpairs]
    exact foldlM_entries hopt _
  · unfold parseColorOptScript
    cases hpairs : opcodePairs script.length script with
    | nil => exact iff_of_true ⟨_, rfl, hzero⟩ (fun _ h => by simp at h)
    | cons codes pairs =>
      dsimp only
      split_ifs with hcodes
      · rw [foldlM_setColorOpt hzero, hcodes]
        simp
      · exact iff_of_true ⟨_, rfl, hzero⟩ (fun _ h => absurd (List.cons.inj h).1 hcodes)

theorem color_opt_script_two :
    parseColorOptScript (getColorOptScript [(4, 2), (7, 16)]) = some (optOf [(4, 2), (7, 16)]) :=
  (color_opt_script_iff ⟨by decide, by decide⟩ []).1

/-- **`OP_DUP` in the options of a color** fails the assertion. -/
theorem dup_option_asserts : parseColorOptScript [0x6a, 0, 0x76, 0x76] = none := rfl

end ShareCoin.Server
