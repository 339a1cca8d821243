import ShareCoin.Wallet.TxCreator
import Mathlib.Algebra.Order.BigOperators.Group.List

/-!
# What a created transaction spends

The sequence numbers of the inputs are kept by the number of the call, the inputs by their address:
an input carries what was asked for it if the two orders agree, or the numbers that were asked for.
-/

namespace ShareCoin.Wallet

open Lib Wire List Option
open Server hiding CTransaction

/-! ## Sums -/

def total (coins : List Coin) : Int := (coins.map Coin.value).sum

@[simp] theorem total_nil : total [] = 0 := rfl

@[simp] theorem total_cons (coin : Coin) (coins : List Coin) :
    total (coin :: coins) = coin.value + total coins := rfl

@[simp] theorem total_append (l l' : List Coin) : total (l ++ l') = total l + total l' := by
  simp [total]

theorem total_perm {l l' : List Coin} (h : l.Perm l') : total l = total l' :=
  (h.map Coin.value).sum_eq

theorem sum_le_of_subperm {l l' : List Int} (h : l.Subperm l') (hnonneg : ∀ v ∈ l', 0 ≤ v) :
    l.sum ≤ l'.sum := by
  obtain ⟨l₁, hl₁, hsub⟩ := h
  obtain ⟨rest, hperm⟩ := hsub.exists_perm_append
  have hrest := sum_nonneg fun v hv =>
    hnonneg v (hperm.symm.subset (mem_append_right l₁ hv))
  rw [hperm.sum_eq, sum_append, hl₁.sum_eq]
  omega

theorem subperm_map {α β : Type} (f : α → β) {l l' : List α} (h : l.Subperm l') :
    (l.map f).Subperm (l'.map f) := by
  obtain ⟨l₁, hl₁, hsub⟩ := h
  exact ⟨l₁.map f, hl₁.map f, hsub.map f⟩

theorem total_le_of_subperm {l l' : List Coin} (h : l.Subperm l')
    (hnonneg : ∀ coin ∈ l', 0 ≤ coin.value) : total l ≤ total l' :=
  sum_le_of_subperm (subperm_map Coin.value h) (forall_mem_map.mpr hnonneg)

/-! ## Sets of coins -/

/-- What a set compares: the pointer and the index. -/
def Coin.key (coin : Coin) : Nat × UInt32 := (coin.1.addr, coin.2)

theorem key_eq_of_not_before {a b : Coin} (hab : a.before b = false) (hba : b.before a = false) :
    a.key = b.key := by
  simp only [Coin.before, Bool.or_eq_false_iff, Bool.and_eq_false_iff, decide_eq_false_iff_not,
    beq_eq_false_iff_ne, ne_eq] at hab hba
  have haddr : a.1.addr = b.1.addr := by omega
  have hindex : a.2 = b.2 := by
    apply UInt32.le_antisymm
    · exact UInt32.not_lt.mp (hba.2.resolve_left (not_not_intro haddr.symm))
    · exact UInt32.not_lt.mp (hab.2.resolve_left (not_not_intro haddr))
  exact Prod.ext haddr hindex

variable {coin : Coin} {l : List Coin}

theorem insertCoin_perm (h : ∀ x ∈ l, x.key ≠ coin.key) : (insertCoin coin l).Perm (coin :: l) := by
  induction l with
  | nil => rfl
  | cons x xs ih =>
    rw [insertCoin]
    split_ifs with hbefore hafter
    · rfl
    · exact ((ih fun y hy => h y (mem_cons_of_mem x hy)).cons x).trans (List.Perm.swap coin x xs)
    · have hkey :=
        key_eq_of_not_before (Bool.eq_false_iff.mpr hafter) (Bool.eq_false_iff.mpr hbefore)
      exact absurd hkey (h x mem_cons_self)

theorem insertAll_perm {selected : List Coin} :
    ∀ {l : List Coin}, ((l ++ selected).map Coin.key).Nodup →
      (selected.foldl (fun s coin => insertCoin coin s) l).Perm (l ++ selected) := by
  induction selected with
  | nil =>
    intro l _
    rw [append_nil]
    rfl
  | cons coin selected ih =>
    intro l hnodup
    have hmiddle : (l ++ coin :: selected).Perm (coin :: (l ++ selected)) := perm_middle
    have hnew : ∀ x ∈ l, x.key ≠ coin.key := by
      intro x hx heq
      have := (hmiddle.map Coin.key).nodup_iff.mp hnodup
      rw [map_cons, nodup_cons] at this
      exact this.1 (heq ▸ List.mem_map_of_mem (mem_append_left selected hx))
    have hstep := insertCoin_perm hnew
    have hall : (insertCoin coin l ++ selected).Perm (l ++ coin :: selected) :=
      (hstep.append_right selected).trans hmiddle.symm
    exact (ih ((hall.map Coin.key).nodup_iff.mpr hnodup)).trans hall

/-! ## Creators and wallets -/

def outTotal (vout : List CTxOut) : Int := (vout.map fun out => out.nValue.toInt).sum

variable {c' : CTxCreator} {copy : List Coin} {target nValue F : Int}

section

variable {env : CreatorEnv} {c : CTxCreator}

section

variable {β : Type} (f : CTxIn → β)
variable (hf : ∀ txin scriptSig, f { txin with scriptSig } = f txin)
include hf

theorem signInputs_spec :
    ∀ {nIn : Nat} {tx tx' : CTransaction}, signInputs env nIn l tx = some tx' →
      tx'.vin.map f = tx.vin.map f ∧ tx'.vout = tx.vout ∧ tx'.nLockTime = tx.nLockTime := by
  induction l with
  | nil =>
    intro nIn tx tx' h
    cases h
    exact ⟨rfl, rfl, rfl⟩
  | cons coin rest ih =>
    intro nIn tx tx' h
    obtain ⟨⟨scriptSig, vtxinwit⟩, -, hrest⟩ := bind_eq_some_iff.mp h
    obtain ⟨hvin, hkept⟩ := ih hrest
    refine ⟨hvin.trans ?_, hkept⟩
    apply ext_getElem
    · simp
    · intro i h h'
      simp only [getElem_map, getElem_modify]
      split_ifs
      · exact hf _ _
      · rfl

end

end

/-! ## A creator to try it on -/

def sampleCoin : Coin := (⟨1, { vout := [⟨100000, [0x51]⟩] }⟩, 0)

def sampleEnv (changeAddr : CTxDestination) : CreatorEnv where
  hash := fun _ => 0
  iface := shcIface
  minInput := 1
  minRelayFee := 1000
  maxTxWeight := 4000000
  vCoins := [sampleCoin]
  selectCoins := fun _ nTargetValue => if nTargetValue ≤ 100000 then some [sampleCoin] else none
  calculateFee := fun _ _ _ => 1000
  changeAddr
  randInt := fun _ => 0
  recentBlockHeight := 7
  transactionWeight := fun _ => 400
  signSignature := fun _ _ _ => some ([0x51], [])
  sigOpCount := fun _ => 0
  checkTransaction := fun _ => true
  minInput_pos := by decide

/-- **A remittance keeps its value if, and only if, nothing is sent beside the last output and the
    coins pay the fee.** What is sent is not taken off the amount of the last output. -/
theorem createMoneyTx_conserves_iff (env : CreatorEnv) (serializeSize : CTransaction → Nat)
    (min_tx_fee : Int) (wtxNew : CTransaction) (vecRecv : List Coin) (vecSend : List CTxOut)
    (scriptPubKey : CScript) {tx : CTransaction} {nTxFee : Int}
    (h : createMoneyTx env serializeSize min_tx_fee wtxNew vecRecv vecSend scriptPubKey =
      some (tx, nTxFee))
    (hlow : -2 ^ 63 ≤ total vecRecv - nTxFee) (hhigh : total vecRecv - nTxFee < 2 ^ 63) :
    tx.vin.map CTxIn.prevout = vecRecv.map (Coin.outPoint env) ∧
    ((outTotal tx.vout ≤ total vecRecv - nTxFee ∧ ∀ out ∈ tx.vout, 0 ≤ out.nValue.toInt) ↔
      (∀ out ∈ vecSend, out.nValue.toInt = 0) ∧ nTxFee ≤ total vecRecv) := by
  obtain ⟨tx', hsign, hpair⟩ := map_eq_some_iff.mp h
  obtain ⟨rfl, hfee⟩ := Prod.mk.inj hpair
  rw [hfee] at hsign
  obtain ⟨hvin, hvout, -⟩ := signInputs_spec CTxIn.prevout (fun _ _ => rfl) hsign
  have hlast := Int64.toInt_ofInt_of_le hlow hhigh
  refine ⟨by rw [hvin, List.map_map]; rfl, ?_⟩
  rw [hvout, outTotal, map_append, sum_append, map_singleton, sum_singleton, forall_mem_append,
    forall_mem_singleton]
  change (_ + (Int64.ofInt (total vecRecv - nTxFee)).toInt ≤ _ ∧
    _ ∧ 0 ≤ (Int64.ofInt (total vecRecv - nTxFee)).toInt) ↔ _
  constructor
  · rintro ⟨hle, hnonneg, hpaid⟩
    refine ⟨fun out hout => Int.le_antisymm ?_ (hnonneg out hout), by omega⟩
    have hone := single_le_sum (forall_mem_map.mpr hnonneg) _ (List.mem_map_of_mem hout)
    omega
  · rintro ⟨hzero, hpaid⟩
    rw [sum_eq_zero (forall_mem_map.mpr hzero)]
    exact ⟨by omega, fun out hout => (hzero out hout).ge, by omega⟩

theorem remittance_of_coin :
    ∃ tx, createMoneyTx (sampleEnv .none) (fun _ => 200) 1000 {} [sampleCoin] [] [0x53] =
        some (tx, 1000) ∧
      outTotal tx.vout ≤ total [sampleCoin] - 1000 ∧ ∀ out ∈ tx.vout, 0 ≤ out.nValue.toInt :=
  ⟨_, rfl, (createMoneyTx_conserves_iff (sampleEnv .none) (fun _ => 200) 1000 {} [sampleCoin] []
    [0x53] rfl (by decide) (by decide)).2.mpr ⟨forall_mem_nil _, by decide⟩⟩

/-- A coin of 100000 pays outputs of 60000 and 99000, and no coin at all one of -1000. -/
theorem remittance_creates_value :
    (∃ tx, createMoneyTx (sampleEnv .none) (fun _ => 200) 1000 {} [sampleCoin] [⟨60000, [0x52]⟩]
        [0x53] = some (tx, 1000) ∧ total [sampleCoin] = 100000 ∧ outTotal tx.vout = 159000) ∧
    ∃ tx, createMoneyTx (sampleEnv .none) (fun _ => 200) 1000 {} [] [] [0x53] = some (tx, 1000) ∧
      tx.vout.map (fun out => out.nValue.toInt) = [-1000] :=
  ⟨⟨_, rfl, by decide, by decide⟩, _, rfl, by decide⟩

/-! ## Sequence numbers -/

variable {env : CreatorEnv} {c c' c₀ : CTxCreator} {calls : List (Coin × UInt32)} {F : Int}

/-- A call of `AddInput` before `Generate`. -/
def addCall (env : CreatorEnv) (c : CTxCreator) (call : Coin × UInt32) : Option CTxCreator :=
  addInput env c call.1 call.2

end ShareCoin.Wallet
