import ShareCoin.Proof.Server.Connect
import ShareCoin.Proof.Server.CheckTransaction
import Mathlib.Algebra.Order.BigOperators.Group.List

/-!
# Value of a connected transaction

`core_ConnectCoinInputs` adds the value of each input to `nValueIn` twice. A transaction is then
accepted when its outputs are covered by twice its inputs, and the fee that is credited to the block
is too high by the value of the inputs. The amounts are right only for a transaction whose inputs
are worth nothing; for blocks of such transactions the coinbase is bounded as it should be.
-/

namespace ShareCoin.Server

open Lib List Option

variable {env : ConnectEnv} {iface : CIface} {node : Node} {fl : ConnectFlags}
  {pindex : CBlockIndex} {pBlock : Option CBlock} {tx : CTransaction} {rest : List CTransaction}
  {coinbase : CTransaction} {block : CBlock} {s s' : ConnectState}

/-! ## The value of the inputs -/

def prevValue (env : ConnectEnv) (node : Node) (pBlock : Option CBlock) (txin : CTxIn) : Int :=
  ((prevOut env node pBlock txin.prevout).map fun out => out.nValue.toInt).getD 0

/-- The value of the outputs that the inputs of a transaction refer to, each counted once. -/
def valueIn (env : ConnectEnv) (node : Node) (pBlock : Option CBlock) (tx : CTransaction) : Int :=
  (tx.vin.map (prevValue env node pBlock)).sum

theorem connectInputs_value {s s' : InputState} {inputs : List (CTxIn × Nat)}
    (h : exec (connectInput env iface node fl pindex pBlock tx) s inputs = some s') :
    0 ≤ ((inputs.map Prod.fst).map (prevValue env node pBlock)).sum ∧
      s'.nValueIn = s.nValueIn +
        Int64.ofInt (2 * ((inputs.map Prod.fst).map (prevValue env node pBlock)).sum) := by
  induction inputs generalizing s with
  | nil =>
    cases h
    simp
  | cons input inputs ih =>
    obtain ⟨s₁, h₁, h₂⟩ := exec_cons_eq_some.mp h
    obtain ⟨prevtx, out, outs, hp⟩ := connectInput_spec h₁
    obtain ⟨hnonneg, hvalue⟩ := ih h₂
    have hprev : prevValue env node pBlock input.1 = out.nValue.toInt := by
      rw [prevValue, hp.prevOut_eq]
      rfl
    obtain ⟨hout, -⟩ := moneyRange_iff.mp hp.range
    rw [map_cons, map_cons, sum_cons, hprev]
    refine ⟨by omega, ?_⟩
    rw [hvalue, hp.value_eq, Int.mul_add, Int64.ofInt_add, Int.two_mul out.nValue.toInt,
      Int64.ofInt_add, Int64.ofInt_toInt]
    simp only [Int64.add_assoc]

theorem connectSpends_value (h : connectSpends env iface node fl pindex pBlock tx s = some s') :
    ∃ nValueIn : Int64, 0 ≤ valueIn env node pBlock tx ∧
      nValueIn = Int64.ofInt (2 * valueIn env node pBlock tx) ∧
      InRange iface nValueIn.toInt ∧ InRange iface (nValueIn - tx.getValueOut).toInt ∧
      tx.getValueOut ≤ nValueIn ∧ s'.nFees = s.nFees + (nValueIn - tx.getValueOut) := by
  obtain ⟨start, r, hc⟩ := connectSpends_spec h
  obtain ⟨hnonneg, hvalue⟩ := connectInputs_value hc.run
  have hfst : tx.vin.zipIdx.map Prod.fst = tx.vin := zipIdx_map_fst 0 tx.vin
  rw [hfst] at hnonneg hvalue
  rw [hc.start_eq.2, Int64.zero_add] at hvalue
  exact ⟨r.nValueIn, hnonneg, hvalue, moneyRange_iff.mp hc.range, moneyRange_iff.mp hc.fee,
    hc.covers, hc.fees_eq⟩

/-- The fee does not wrap: it is what twice the inputs leave over the outputs. -/
theorem fee_toInt {nValueIn out : Int64} (hrange : InRange iface nValueIn.toInt)
    (hfee : InRange iface (nValueIn - out).toInt) (hcov : out ≤ nValueIn) :
    (nValueIn - out).toInt = nValueIn.toInt - out.toInt := by
  have hmax := iface.maxMoney_lt
  have hlow := out.le_toInt
  have hle := Int64.le_iff_toInt_le.mp hcov
  obtain ⟨h₁, h₂⟩ := hrange
  obtain ⟨h₃, -⟩ := hfee
  rw [Int64.toInt_sub, Int.bmod_def] at h₃ ⊢
  split_ifs at h₃ ⊢ <;> omega

def Conserves (tx : CTransaction) (value : Int) (nFees nFees' : Int64) : Prop :=
  tx.getValueOut.toInt ≤ value ∧ nFees'.toInt = nFees.toInt + (value - tx.getValueOut.toInt)

/-- **A connected transaction conserves value exactly when its inputs are worth nothing**, and the
    total of the fees does not overflow. -/
theorem connectSpends_conserves_iff
    (h : connectSpends env iface node fl pindex pBlock tx s = some s') :
    Conserves tx (valueIn env node pBlock tx) s.nFees s'.nFees ↔
      valueIn env node pBlock tx = 0 ∧ s.nFees.toInt - tx.getValueOut.toInt < 2 ^ 63 := by
  obtain ⟨nValueIn, hnonneg, hvalue, hrange, hfee, hcov, hfees⟩ := connectSpends_value h
  have hfeeInt := fee_toInt hrange hfee hcov
  have hin : nValueIn.toInt = (2 * valueIn env node pBlock tx).bmod (2 ^ 64) := by
    rw [hvalue, Int64.toInt_ofInt]
    rfl
  have hle := Int64.le_iff_toInt_le.mp hcov
  have hlow := s.nFees.le_toInt
  obtain ⟨h₁, h₂⟩ := hrange
  have hnew : s'.nFees.toInt
      = (s.nFees.toInt + (nValueIn.toInt - tx.getValueOut.toInt)).bmod (2 ^ 64) := by
    rw [hfees, Int64.toInt_add, hfeeInt]
  -- what is left is arithmetic: twice the value is in range, or has wrapped around
  unfold Conserves
  generalize valueIn env node pBlock tx = value at *
  rw [Int.bmod_def] at hin hnew
  split_ifs at hin hnew <;> omega

/-! ## Blocks -/

theorem connectTxs_fees {txs : List CTransaction} {v v' : ValidateState}
    (hcb : ∀ tx ∈ txs, tx.isCoinBase = false)
    (hzero : ∀ tx ∈ txs, valueIn env node (some block) tx = 0)
    (h : connectTxs env iface node pindex block txs s v = some (some s', v')) :
    (∀ tx ∈ txs, tx.getValueOut.toInt ≤ 0) ∧
      s'.nFees = s.nFees - Int64.ofInt (txs.map fun tx => tx.getValueOut.toInt).sum := by
  induction txs generalizing s v with
  | nil =>
    cases h
    simp
  | cons tx txs ih =>
    obtain ⟨s₁, v₁, h, ⟨hyes, -⟩ | ⟨-, hc⟩⟩ := connectTxs_cons h
    · rw [hcb tx mem_cons_self] at hyes
      cases hyes
    obtain ⟨nValueIn, -, hvalue, -, -, hcov, hfees⟩ := connectSpends_value hc
    obtain ⟨hrest, hsum⟩ := ih (forall_mem_cons.mp hcb).2
      (forall_mem_cons.mp hzero).2 h
    have hnone : nValueIn = 0 := by
      rw [hvalue, hzero tx mem_cons_self]
      rfl
    rw [hnone] at hcov hfees
    constructor
    · exact forall_mem_cons.mpr ⟨Int64.le_iff_toInt_le.mp hcov, hrest⟩
    · rw [hsum, hfees, map_cons, sum_cons, Int64.ofInt_add, Int64.ofInt_toInt, Int64.zero_sub]
      simp only [Int64.sub_eq_add_neg, Int64.neg_add, Int64.add_assoc]

/-- Except for a color, the fees are added to the subsidy, or are not counted at height zero. -/
theorem getBlockValue_fees (env : BlockValueEnv) {coin : CoinIface} (hcolor : coin ≠ .color)
    (nHeight : Nat) (nFees : Int64) :
    getBlockValue env coin nHeight nFees = getBlockValue env coin nHeight 0 + nFees ∨
      getBlockValue env coin nHeight nFees = getBlockValue env coin nHeight 0 := by
  by_cases hzero : nHeight = 0
  all_goals
    cases coin <;>
      simp [getBlockValue, testGetBlockValue, shcGetBlockValue, emc2GetBlockValue,
        ltcGetBlockValue, testnetGetBlockValue, hzero] at hcolor ⊢

/-- The coins that a block creates: its outputs less the outputs that it spends. -/
def created (env : ConnectEnv) (node : Node) (block : CBlock) : Int :=
  (block.vtx.map fun tx => tx.getValueOut.toInt).sum -
    ((block.vtx.filter fun tx => ! tx.isCoinBase).map (valueIn env node (some block))).sum

theorem coinbase_le {disk : Disk} {node' : Node}
    (h : coreConnectBlock env disk iface node block pindex = some (true, node'))
    (hvtx : block.vtx = coinbase :: rest) (hcb : coinbase.isCoinBase = true) :
    ∃ s v v', connectTxs env iface node pindex block rest connectStart v = some (some s, v') ∧
      coinbase.getValueOut ≤ getBlockValue env.toBlockValueEnv iface.ifaceIndex pindex.nHeight
        s.nFees := by
  cases coreConnectBlock_outcome h with
  | committed hctx hwalk htot hcommit =>
    rename_i s v db
    rw [hvtx] at hwalk
    obtain ⟨s₁, v₁, hwalk, ⟨-, rfl⟩ | ⟨hno, -⟩⟩ := connectTxs_cons hwalk
    · refine ⟨s, v₁, v, hwalk, ?_⟩
      unfold checkTotals at htot
      rw [hvtx] at htot
      split_ifs at htot
      · cases htot
      · rwa [some.injEq, decide_eq_true_eq] at htot
    · rw [hcb] at hno
      cases hno

theorem created_eq (hvtx : block.vtx = coinbase :: rest) (hcb : coinbase.isCoinBase = true)
    (hrest : ∀ tx ∈ rest, tx.isCoinBase = false)
    (hzero : ∀ tx ∈ rest, valueIn env node (some block) tx = 0) :
    created env node block
      = coinbase.getValueOut.toInt + (rest.map fun tx => tx.getValueOut.toInt).sum := by
  have hfilter : (coinbase :: rest).filter (fun tx => ! tx.isCoinBase) = rest := by
    rw [filter_cons, hcb]
    exact filter_eq_self.mpr fun tx htx => by rw [hrest tx htx]; rfl
  have hsum : (rest.map (valueIn env node (some block))).sum = 0 :=
    sum_eq_zero (forall_mem_map.mpr hzero)
  rw [created, hvtx, hfilter, hsum, map_cons, sum_cons, Int.sub_zero]

/-- **A block whose transactions have worthless inputs creates what it may.** -/
theorem created_le {disk : Disk} {node' : Node}
    (h : coreConnectBlock env disk iface node block pindex = some (true, node'))
    (hvtx : block.vtx = coinbase :: rest) (hcb : coinbase.isCoinBase = true)
    (hrest : ∀ tx ∈ rest, tx.isCoinBase = false)
    (hzero : ∀ tx ∈ rest, valueIn env node (some block) tx = 0)
    (hcolor : iface.ifaceIndex = .color → ∀ tx ∈ rest, tx.getValueOut.toInt = 0) :
    created env node block ≤
      (getBlockValue env.toBlockValueEnv iface.ifaceIndex pindex.nHeight 0).toInt := by
  obtain ⟨s, v, v', hwalk, hle⟩ := coinbase_le h hvtx hcb
  obtain ⟨hneg, hfees⟩ := connectTxs_fees hrest hzero hwalk
  have hle' := Int64.le_iff_toInt_le.mp hle
  have hsum : (rest.map fun tx => tx.getValueOut.toInt).sum ≤ 0 :=
    (sum_le_card_nsmul _ 0 (forall_mem_map.mpr hneg)).trans_eq (nsmul_zero _)
  rw [created_eq hvtx hcb hrest hzero]
  by_cases hc : iface.ifaceIndex = .color
  · -- without fees there is nothing to multiply by ten
    have hnone : (rest.map fun tx => tx.getValueOut.toInt).sum = 0 :=
      sum_eq_zero (forall_mem_map.mpr (hcolor hc))
    rw [hnone] at hfees ⊢
    have hnoFees : s.nFees = 0 := hfees
    rw [hnoFees] at hle'
    omega
  · have hlow := (getBlockValue env.toBlockValueEnv iface.ifaceIndex pindex.nHeight 0).le_toInt
    rcases getBlockValue_fees env.toBlockValueEnv hc pindex.nHeight s.nFees with heq | heq
    · -- a sum that wraps is below the sum
      have hstart : connectStart.nFees = 0 := rfl
      have hvalue : (getBlockValue env.toBlockValueEnv iface.ifaceIndex pindex.nHeight 0
            + s.nFees).toInt
          = ((getBlockValue env.toBlockValueEnv iface.ifaceIndex pindex.nHeight 0).toInt
            - (rest.map fun tx => tx.getValueOut.toInt).sum).bmod (2 ^ 64) := by
        rw [hfees, hstart, Int64.zero_sub, ← Int64.sub_eq_add_neg, Int64.toInt_sub,
          Int64.toInt_ofInt]
        exact Int.sub_bmod_bmod
      rw [heq, hvalue, Int.bmod_def] at hle'
      split_ifs at hle' <;> omega
    · rw [heq] at hle'
      omega

/-- **Value of connected transactions and blocks.** Every transaction that is connected conserves
    value exactly when its inputs are worth nothing and the fees do not overflow. A block of such
    transactions after its coinbase creates no more than its height allows; on a color, whose
    reward multiplies the fees, when there are none. -/
theorem connect_conserves_value (env : ConnectEnv) (iface : CIface) (node : Node) :
    (∀ (fl : ConnectFlags) (pindex : CBlockIndex) (pBlock : Option CBlock) (tx : CTransaction)
        (s s' : ConnectState) (v v' : ValidateState), tx.isCoinBase = false →
      connectCoinInputs env iface node fl pindex pBlock tx s v = some (some s', v') →
      (Conserves tx (valueIn env node pBlock tx) s.nFees s'.nFees ↔
        valueIn env node pBlock tx = 0 ∧ s.nFees.toInt - tx.getValueOut.toInt < 2 ^ 63)) ∧
    (∀ (disk : Disk) (block : CBlock) (pindex : CBlockIndex) (node' : Node)
        (coinbase : CTransaction) (rest : List CTransaction),
      coreConnectBlock env disk iface node block pindex = some (true, node') →
      block.vtx = coinbase :: rest → coinbase.isCoinBase = true →
      (∀ tx ∈ rest, tx.isCoinBase = false ∧ valueIn env node (some block) tx = 0 ∧
        (iface.ifaceIndex = .color → tx.getValueOut.toInt = 0)) →
      created env node block ≤
        (getBlockValue env.toBlockValueEnv iface.ifaceIndex pindex.nHeight 0).toInt) := by
  constructor
  · intro fl pindex pBlock tx s s' v v' hcb h
    rw [connectCoinInputs, hcb, if_neg Bool.false_ne_true, some.injEq, Prod.mk.injEq] at h
    exact connectSpends_conserves_iff h.1
  · intro disk block pindex node' coinbase rest h hvtx hcb hrest
    exact created_le h hvtx hcb (fun tx htx => (hrest tx htx).1)
      (fun tx htx => (hrest tx htx).2.1) fun hc tx htx => (hrest tx htx).2.2 hc

/-- The coinbase of height 1, and a transaction that spends an output of the first block. -/
def blockOf (n : UInt32) (nValue : Int64) : CBlock :=
  { hash := 101, vtx := [coinbaseTx 2 [33340000000], spendTx 3 [(1, n)] [nValue]] }

/-- **A transaction pays out twice its inputs.** It spends fifty and pays a hundred, and the block
    creates fifty more than the subsidy. -/
theorem connect_doubles_value :
    (connectCoinInputs connectEnvSample shcIface nodeSample blockFlags (chainSample 1)
        (some (blockOf 0 100)) (spendTx 3 [(1, 0)] [100]) connectStart ValidateState.null).map
        (fun r => r.1.isSome) = some true ∧
      valueIn connectEnvSample nodeSample (some (blockOf 0 100)) (spendTx 3 [(1, 0)] [100]) = 50 ∧
      (spendTx 3 [(1, 0)] [100]).getValueOut = 100 ∧
      (coreConnectBlock connectEnvSample diskSample shcIface nodeSample (blockOf 0 100)
        (chainSample 1)).map Prod.fst = some true ∧
      created connectEnvSample nodeSample (blockOf 0 100) = 33340000050 ∧
      getBlockValue connectEnvSample.toBlockValueEnv .shc 1 0 = 33340000000 := by
  decide

/-- A transaction that moves nothing, and its block. -/
theorem connect_conserves_value_zero :
    (∃ s' v', connectCoinInputs connectEnvSample shcIface nodeSample blockFlags (chainSample 1)
        (some (blockOf 2 0)) (spendTx 3 [(1, 2)] [0]) connectStart ValidateState.null
        = some (some s', v') ∧
      Conserves (spendTx 3 [(1, 2)] [0])
        (valueIn connectEnvSample nodeSample (some (blockOf 2 0)) (spendTx 3 [(1, 2)] [0]))
        connectStart.nFees s'.nFees) ∧
      created connectEnvSample nodeSample (blockOf 2 0) ≤ 33340000000 := by
  obtain ⟨htx, hblock⟩ := connect_conserves_value connectEnvSample shcIface nodeSample
  constructor
  · have hsome : (connectCoinInputs connectEnvSample shcIface nodeSample blockFlags (chainSample 1)
        (some (blockOf 2 0)) (spendTx 3 [(1, 2)] [0]) connectStart ValidateState.null).map
        (fun r => r.1.isSome) = some true := rfl
    obtain ⟨⟨r, v'⟩, hrun, hr⟩ := map_eq_some_iff.mp hsome
    obtain ⟨s', hs'⟩ := isSome_iff_exists.mp hr
    dsimp only at hs'
    rw [hs'] at hrun
    exact ⟨s', v', hrun, (htx _ _ _ _ _ _ _ _ rfl hrun).mpr (by decide)⟩
  · have hsome : (coreConnectBlock connectEnvSample diskSample shcIface nodeSample (blockOf 2 0)
        (chainSample 1)).map Prod.fst = some true := rfl
    obtain ⟨⟨_, node'⟩, hrun, rfl⟩ := map_eq_some_iff.mp hsome
    exact hblock diskSample (blockOf 2 0) (chainSample 1) node' _ _ hrun rfl rfl
      (by decide)

end ShareCoin.Server
