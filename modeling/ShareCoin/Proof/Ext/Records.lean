import ShareCoin.Ext.Records
import ShareCoin.Lib.Table
import ShareCoin.Proof.Wire.SignatureHash
import Mathlib.Data.Nat.Bitwise

/-!
# Who can change a named record

A record belongs to whoever can spend the output that holds it. The commit routines ask less. An
activation of an alias, and an update or a removal of a context, overwrite the entry of a
registered record with no look at the inputs. An update or a removal of an alias or an asset asks
for an input of the registered transaction, but not which of its outputs that input spends. Each
routine writes one entry at most, so what it does to a table is decided by the entry it writes to.
-/

namespace ShareCoin.Ext

open Lib Wire Option
open Server hiding CTransaction

/-! ## Flags -/

theorem testBit_sub_mod (n : Nat) {k : Nat} (hk : 4 ≤ k) :
    (n - n % 2 ^ 4).testBit k = n.testBit k := by
  have h : n - n % 2 ^ 4 = 2 ^ 4 * (n / 2 ^ 4) := by omega
  rw [h, Nat.testBit_two_pow_mul, Nat.testBit_div_two_pow, Nat.sub_add_cancel hk,
    decide_eq_true hk, Bool.true_and]

theorem hasFlag_eq_testBit {flag : UInt32} {k : Nat} (hflag : flag.toNat = 2 ^ k)
    (nFlag : UInt32) : hasFlag nFlag flag = nFlag.toNat.testBit k := by
  rw [hasFlag, Bool.eq_iff_iff, bne_iff_ne, ne_eq, ← UInt32.toNat_inj, UInt32.toNat_and, hflag,
    Nat.and_two_pow]
  cases nFlag.toNat.testBit k with
  | false | true => simp

theorem isFlag_eq_hasFlag {flag : UInt32} {k : Nat} (hflag : flag.toNat = 2 ^ k) (hk : 4 ≤ k)
    (tx : CTransaction) : isFlag tx flag = hasFlag tx.nFlag flag := by
  have hle : tx.nFlag &&& 15 ≤ tx.nFlag := by
    exact Nat.and_le_left
  have hmask : (15 : UInt32).toNat = 2 ^ 4 - 1 := rfl
  change hasFlag (tx.nFlag - (tx.nFlag &&& 15)) flag = hasFlag tx.nFlag flag
  rw [hasFlag_eq_testBit hflag, hasFlag_eq_testBit hflag, UInt32.toNat_sub_of_le _ _ hle,
    UInt32.toNat_and, hmask, Nat.and_two_pow_sub_one_eq_mod, testBit_sub_mod _ hk]

/-! ## Hashes -/

/-- Surroundings with the same hash functions. -/
def SameHash (env env' : RecordEnv) : Prop := env'.hash = env.hash ∧ env'.hash160 = env.hash160

variable {env : RecordEnv}

theorem SameHash.recordHash {env' : RecordEnv} (h : SameHash env env') (record : List UInt8) :
    recordHash env' record = recordHash env record := by
  rw [Ext.recordHash, Ext.recordHash, h.1, h.2]

/-! ## Owners -/

def extIndex (tx : CTransaction) : Option Nat := indexOfExtOutput (asServer tx)

def assetIndex (tx : CTransaction) : Option Nat := (indexOfAssetOutput (asServer tx)).join

section

variable (env : RecordEnv) (index : CTransaction → Option Nat) (tx : CTransaction) (H : Uint256)
include index

def SpendsRecord : Prop :=
  ∃ txH n, env.getTransaction H = some txH ∧ index txH = some n ∧
    ∃ txin ∈ tx.vin, txin.prevout.hash = H ∧ txin.prevout.n.toNat = n

/-- The inputs spend outputs of `H`, and the record's output is not one of them. -/
def SpendsBeside : Prop :=
  spendsTx tx H = true ∧ ¬ SpendsRecord env index tx H

end

section

variable (env : RecordEnv) (tx : CTransaction) (w : Wallet)

/-- Every registered entry that is not null and changes is one whose record's output is spent. -/
structure OwnerOnly (w' : Wallet) : Prop where
  mapAlias : ChangedBy (· ≠ 0) (SpendsRecord env extIndex tx) w.mapAlias w'.mapAlias
  mapContext : ChangedBy (· ≠ 0) (SpendsRecord env extIndex tx) w.mapContext w'.mapContext
  mapAsset : ChangedBy (· ≠ 0) (SpendsRecord env assetIndex tx) w.mapAsset w'.mapAsset

theorem OwnerOnly.refl : OwnerOnly env tx w w :=
  ⟨changedBy_refl, changedBy_refl, changedBy_refl⟩

end

variable {tx : CTransaction} {w w' : Wallet} {entry : Option Uint256}

theorem OwnerOnly.trans {w'' : Wallet}
    (h : OwnerOnly env tx w w') (h' : OwnerOnly env tx w' w'') : OwnerOnly env tx w w'' :=
  ⟨h.mapAlias.trans h'.mapAlias, h.mapContext.trans h'.mapContext, h.mapAsset.trans h'.mapAsset⟩

theorem ownerOnly_mapAlias_iff {label : List UInt8} {arch : Std.TreeMap Uint256 (List UInt8)} :
    OwnerOnly env tx w { w with
      mapAliasArch := arch, mapAlias := Function.update w.mapAlias label entry } ↔
      ∀ H, w.mapAlias label = some H → H ≠ 0 → entry ≠ some H → SpendsRecord env extIndex tx H :=
  ⟨fun h => changedBy_update_iff.mp h.mapAlias,
    fun h => ⟨changedBy_update_iff.mpr h, changedBy_refl, changedBy_refl⟩⟩

theorem ownerOnly_mapContext_iff {name : Uint160} {arch : Std.TreeMap Uint256 Uint160} :
    OwnerOnly env tx w { w with
      mapContextArch := arch, mapContext := Function.update w.mapContext name entry } ↔
      ∀ H, w.mapContext name = some H → H ≠ 0 → entry ≠ some H → SpendsRecord env extIndex tx H :=
  ⟨fun h => changedBy_update_iff.mp h.mapContext,
    fun h => ⟨changedBy_refl, changedBy_update_iff.mpr h, changedBy_refl⟩⟩

variable {hash : Uint160}

theorem ownerOnly_mapAsset_iff :
    OwnerOnly env tx w { w with mapAsset := Function.update w.mapAsset hash entry } ↔
      ∀ H, w.mapAsset hash = some H → H ≠ 0 → entry ≠ some H → SpendsRecord env assetIndex tx H :=
  ⟨fun h => changedBy_update_iff.mp h.mapAsset,
    fun h => ⟨changedBy_refl, changedBy_refl, changedBy_update_iff.mpr h⟩⟩

theorem ownerOnly_ite_iff {p : Prop} [Decidable p] {r : Bool × Wallet} :
    OwnerOnly env tx w (if p then (false, w) else r).2 ↔ (¬ p → OwnerOnly env tx w r.2) := by
  by_cases hp : p
  · simp only [hp, if_true, not_true_eq_false, false_implies, iff_true]
    exact .refl env tx w
  · simp only [hp, if_false, not_false_eq_true, true_implies]

/-! ## Aliases -/

/-- A verified transaction writes over the alias of `H` without spending its output: an activation
    that pays its fee, or an update or a removal that spends `H` beside the record. -/
def AliasTakenOver (env : RecordEnv) (w : Wallet) (tx : CTransaction) (nHeight : Int) : Prop :=
  verifyAlias env tx = true ∧ ∃ H out mode hash,
    aliasOutput tx = some (out, mode, hash) ∧ w.mapAlias tx.calias.vchLabel = some H ∧ H ≠ 0 ∧
    (mode = opExtActivate ∧ env.getAliasOpFee nHeight ≤ out.nValue ∧ tx.getHash env.hash ≠ H ∧
        ¬ SpendsRecord env extIndex tx H ∨
      mode = opExtUpdate ∧ tx.getHash env.hash ≠ H ∧ SpendsBeside env extIndex tx H ∨
      mode = opExtRemove ∧ SpendsBeside env extIndex tx H)

theorem connectAliasTx_ownerOnly_iff :
    OwnerOnly env tx w (connectAliasTx env w tx) ↔
      ∀ H, w.mapAlias tx.calias.vchLabel = some H → H ≠ 0 → tx.getHash env.hash ≠ H →
        SpendsRecord env extIndex tx H := by
  rw [connectAliasTx, ownerOnly_mapAlias_iff]
  simp only [ne_eq, some.injEq]

theorem removeAliasTx_ownerOnly_iff :
    OwnerOnly env tx w (removeAliasTx w tx).2 ↔
      ∀ H, w.mapAlias tx.calias.vchLabel = some H → H ≠ 0 → SpendsRecord env extIndex tx H := by
  cases hH : w.mapAlias tx.calias.vchLabel with
  | none =>
    simp only [removeAliasTx, hH]
    exact iff_of_true (.refl env tx w) (fun _ h => by cases h)
  | some curTx =>
    simp only [removeAliasTx, hH]
    rw [ownerOnly_mapAlias_iff, hH]
    constructor
    · intro h H heq hne
      exact h H heq hne (fun h0 => hne (some.inj h0).symm)
    · intro h H heq hne _
      exact h H heq hne

variable {H : Uint256} {out : CTxOut} {mode : UInt8}

theorem verifyAliasChain_eq
    (hH : w.mapAlias tx.calias.vchLabel = some H) : verifyAliasChain w tx = spendsTx tx H := by
  rw [verifyAliasChain, hH]

/-- The commit registers the transaction for its label: an activation that pays its fee, or an
    update that spends the registered transaction. -/
def AliasAssigns (env : RecordEnv) (w : Wallet) (tx : CTransaction) (nHeight : Int) : Prop :=
  verifyAlias env tx = true ∧ ∃ out mode hash, aliasOutput tx = some (out, mode, hash) ∧
    (mode = opExtActivate ∧ env.getAliasOpFee nHeight ≤ out.nValue ∨
      mode = opExtUpdate ∧ verifyAliasChain w tx = true)

/-- The commit removes the label: a removal that spends the registered transaction. -/
def AliasRemoves (env : RecordEnv) (w : Wallet) (tx : CTransaction) : Prop :=
  verifyAlias env tx = true ∧ ∃ out hash, aliasOutput tx = some (out, opExtRemove, hash) ∧
    verifyAliasChain w tx = true

theorem AliasRemoves.chain (h : AliasRemoves env w tx) : verifyAliasChain w tx = true := by
  obtain ⟨_, _, _, _, hchain⟩ := h
  exact hchain

section AliasOutput

variable {out : CTxOut} {mode : UInt8} (hv : verifyAlias env tx = true)
  (hout : aliasOutput tx = some (out, mode, hash))

include hv hout

theorem aliasAssigns_iff (nHeight : Int) :
    AliasAssigns env w tx nHeight ↔
      mode = opExtActivate ∧ env.getAliasOpFee nHeight ≤ out.nValue ∨
        mode = opExtUpdate ∧ verifyAliasChain w tx = true := by
  simp only [AliasAssigns, hv, hout, some.injEq, Prod.mk.injEq, true_and]
  constructor
  · rintro ⟨_, _, _, ⟨rfl, rfl, rfl⟩, h⟩
    exact h
  · exact fun h => ⟨out, mode, hash, ⟨rfl, rfl, rfl⟩, h⟩

theorem aliasRemoves_iff :
    AliasRemoves env w tx ↔ mode = opExtRemove ∧ verifyAliasChain w tx = true := by
  simp only [AliasRemoves, hv, hout, some.injEq, Prod.mk.injEq, true_and]
  constructor
  · rintro ⟨_, _, ⟨rfl, rfl, rfl⟩, h⟩
    exact ⟨rfl, h⟩
  · rintro ⟨rfl, h⟩
    exact ⟨out, hash, ⟨rfl, rfl, rfl⟩, h⟩

end AliasOutput

theorem commitAliasTx_cases (env : RecordEnv) (w : Wallet) (tx : CTransaction) (nHeight : Int) :
    (AliasAssigns env w tx nHeight ∧ ¬ AliasRemoves env w tx ∧
      (commitAliasTx env w tx nHeight).2 = connectAliasTx env w tx) ∨
    (AliasRemoves env w tx ∧ ¬ AliasAssigns env w tx nHeight ∧
      (commitAliasTx env w tx nHeight).2 = (removeAliasTx w tx).2) ∨
    (¬ AliasAssigns env w tx nHeight ∧ ¬ AliasRemoves env w tx ∧
      (commitAliasTx env w tx nHeight).2 = w) := by
  by_cases hv : verifyAlias env tx = true
  swap
  · refine .inr (.inr ⟨fun h => hv h.1, fun h => hv h.1, ?_⟩)
    simp only [commitAliasTx, hv, Bool.not_false, if_true]
  cases hout : aliasOutput tx with
  | none =>
    refine .inr (.inr ⟨?_, ?_, ?_⟩)
    · rintro ⟨_, _, _, _, h, _⟩
      cases hout.symm.trans h
    · rintro ⟨_, _, _, h, _⟩
      cases hout.symm.trans h
    · simp only [commitAliasTx, hv, hout, Bool.not_true, Bool.false_eq_true, if_false]
  | some o =>
    obtain ⟨out, mode, hash⟩ := o
    rw [aliasAssigns_iff hv hout, aliasRemoves_iff hv hout]
    simp only [commitAliasTx, hv, hout, Bool.not_true, Bool.false_eq_true, if_false]
    have hau : opExtActivate ≠ opExtUpdate := by decide
    have har : opExtActivate ≠ opExtRemove := by decide
    have hur : opExtUpdate ≠ opExtRemove := by decide
    by_cases hact : mode = opExtActivate
    · subst hact
      by_cases hfee : env.getAliasOpFee nHeight ≤ out.nValue
      · refine .inl ⟨.inl ⟨rfl, hfee⟩, fun h => har h.1, ?_⟩
        rw [if_pos rfl, if_neg (Int64.not_lt.mpr hfee)]
      · refine .inr (.inr ⟨?_, fun h => har h.1, ?_⟩)
        · rintro (⟨_, h⟩ | ⟨h, _⟩)
          · exact hfee h
          · exact hau h
        · rw [if_pos rfl, if_pos (Int64.not_le.mp hfee)]
    rw [if_neg hact]
    by_cases hupd : mode = opExtUpdate
    · subst hupd
      cases hchain : verifyAliasChain w tx with
      | true => exact .inl ⟨.inr ⟨rfl, rfl⟩, fun h => hur h.1, rfl⟩
      | false => exact .inr (.inr ⟨by simp [hact], by simp, rfl⟩)
    rw [if_neg hupd]
    by_cases hrem : mode = opExtRemove
    · subst hrem
      cases hchain : verifyAliasChain w tx with
      | true => exact .inr (.inl ⟨⟨rfl, rfl⟩, by simp [hact, hupd], rfl⟩)
      | false => exact .inr (.inr ⟨by simp [hact], by simp, rfl⟩)
    rw [if_neg hrem]
    exact .inr (.inr ⟨by simp [hact, hupd], by simp [hrem], rfl⟩)

theorem aliasTakenOver_iff {nHeight : Int} :
    AliasTakenOver env w tx nHeight ↔
      ∃ H, w.mapAlias tx.calias.vchLabel = some H ∧ H ≠ 0 ∧
        (AliasAssigns env w tx nHeight ∧ tx.getHash env.hash ≠ H ∨ AliasRemoves env w tx) ∧
        ¬ SpendsRecord env extIndex tx H := by
  constructor
  · rintro ⟨hv, H, out, mode, hash, hout, hH, hne, hcase⟩
    have hchain := verifyAliasChain_eq hH
    rcases hcase with ⟨hmode, hfee, hself, hno⟩ | ⟨hmode, hself, hspends, hno⟩ |
      ⟨hmode, hspends, hno⟩
    · exact ⟨H, hH, hne, .inl ⟨⟨hv, out, mode, hash, hout, .inl ⟨hmode, hfee⟩⟩, hself⟩, hno⟩
    · have hupdate := hchain.trans hspends
      exact ⟨H, hH, hne, .inl ⟨⟨hv, out, mode, hash, hout, .inr ⟨hmode, hupdate⟩⟩, hself⟩, hno⟩
    · exact ⟨H, hH, hne, .inr ⟨hv, out, hash, hmode ▸ hout, hchain.trans hspends⟩, hno⟩
  · rintro ⟨H, hH, hne, hcase, hno⟩
    have hchain := verifyAliasChain_eq hH
    rcases hcase with ⟨⟨hv, out, mode, hash, hout, hmode⟩, hself⟩ | ⟨hv, out, hash, hout, hspends⟩
    · refine ⟨hv, H, out, mode, hash, hout, hH, hne, ?_⟩
      rcases hmode with ⟨hmode, hfee⟩ | ⟨hmode, hspends⟩
      · exact .inl ⟨hmode, hfee, hself, hno⟩
      · exact .inr (.inl ⟨hmode, hself, hchain.symm.trans hspends, hno⟩)
    · have hbeside : SpendsBeside env extIndex tx H := ⟨hchain.symm.trans hspends, hno⟩
      exact ⟨hv, H, out, _, hash, hout, hH, hne, .inr (.inr ⟨rfl, hbeside⟩)⟩

theorem commitAliasTx_ownerOnly_iff {nHeight : Int} :
    OwnerOnly env tx w (commitAliasTx env w tx nHeight).2 ↔
      ¬ AliasTakenOver env w tx nHeight := by
  rw [aliasTakenOver_iff]
  obtain ⟨ha, hr, heq⟩ | ⟨hr, ha, heq⟩ | ⟨ha, hr, heq⟩ := commitAliasTx_cases env w tx nHeight
  · rw [heq, connectAliasTx_ownerOnly_iff]
    simp only [ha, hr, true_and, or_false, not_exists, not_and, not_not]
  · rw [heq, removeAliasTx_ownerOnly_iff]
    simp only [hr, or_true, true_and, not_exists, not_and, not_not]
  · rw [heq]
    exact iff_of_true (.refl env tx w) (by simp [ha, hr])

/-! ## Contexts -/

/-- A verified update or removal of the context of `H` does not spend its output. -/
def ContextTakenOver (env : RecordEnv) (w : Wallet) (tx : CTransaction) : Prop :=
  ∃ H mode, verifyContextTx env tx = some mode ∧ mode ≠ opExtNew ∧
    w.mapContext tx.certificate.hashIssuer = some H ∧ H ≠ 0 ∧ tx.getHash env.hash ≠ H ∧
    ¬ SpendsRecord env extIndex tx H

/-- The commit registers the transaction for its name: a new context whose name is free, or any
    other verified context. -/
def ContextAssigns (env : RecordEnv) (w : Wallet) (tx : CTransaction) : Prop :=
  ∃ mode, verifyContextTx env tx = some mode ∧
    (mode = opExtNew → w.mapContext tx.certificate.hashIssuer = none)

def Wallet.setContexts (w : Wallet) (t : Archived Uint160 Uint256) : Wallet :=
  { w with mapContext := t.cur, mapContextArch := t.arch }

theorem commitContextTx_cases (env : RecordEnv) (w : Wallet) (tx : CTransaction) :
    (ContextAssigns env w tx ∧ (commitContextTx env w tx).2 =
      w.setContexts (w.contexts.assign tx.certificate.hashIssuer (tx.getHash env.hash))) ∨
    (¬ ContextAssigns env w tx ∧ (commitContextTx env w tx).2 = w) := by
  cases hv : verifyContextTx env tx with
  | none =>
    refine .inr ⟨?_, ?_⟩
    · rintro ⟨mode, h, _⟩
      cases hv.symm.trans h
    · simp only [commitContextTx, hv]
  | some mode =>
    cases hcur : w.mapContext tx.certificate.hashIssuer with
    | none =>
      refine .inl ⟨⟨mode, hv, fun _ => hcur⟩, ?_⟩
      simp only [commitContextTx, hv, hcur, Wallet.setContexts, Wallet.contexts, Archived.assign]
    | some o =>
      by_cases hnew : mode = opExtNew
      · refine .inr ⟨?_, ?_⟩
        · rintro ⟨mode', h, hfree⟩
          cases hv.symm.trans h
          cases hcur.symm.trans (hfree hnew)
        · simp only [commitContextTx, hv, hcur, hnew, if_true]
      · refine .inl ⟨⟨mode, hv, fun h => absurd h hnew⟩, ?_⟩
        simp only [commitContextTx, hv, hcur, hnew, if_false, Wallet.setContexts, Wallet.contexts,
          Archived.assign]

theorem commitContextTx_ownerOnly_iff :
    OwnerOnly env tx w (commitContextTx env w tx).2 ↔ ¬ ContextTakenOver env w tx := by
  obtain ⟨⟨mode, hv, hfree⟩, heq⟩ | ⟨ha, heq⟩ := commitContextTx_cases env w tx
  · rw [heq]
    refine ownerOnly_mapContext_iff.trans ⟨?_, fun h H hH hne hself => ?_⟩
    · rintro h ⟨H, _, _, _, hH, hne, hself, hno⟩
      exact hno (h H hH hne fun heq => hself (some.inj heq))
    · by_contra hno
      refine h ⟨H, mode, hv, fun hnew => ?_, hH, hne, fun heq => hself (congrArg some heq), hno⟩
      cases hH.symm.trans (hfree hnew)
  · rw [heq]
    refine iff_of_true (.refl env tx w) ?_
    rintro ⟨_, mode, hv, hnew, _⟩
    exact ha ⟨mode, hv, fun h => absurd h hnew⟩

/-! ## Assets -/

def AssetTakenOver (env : RecordEnv) (w : Wallet) (tx : CTransaction) : Prop :=
  verifyAsset env tx = some true ∧ ∃ H out mode hash,
    assetOutput tx = some (some (out, mode, hash)) ∧
    w.mapAsset tx.certificate.hashIssuer = some H ∧ H ≠ 0 ∧
    (getTxOfAsset env w tx.certificate.hashIssuer).isSome = true ∧
    SpendsBeside env assetIndex tx H ∧
    (mode = opExtUpdate ∧ tx.getHash env.hash ≠ H ∨ mode = opExtRemove)

theorem copy_getHash (hash : List UInt8 → Uint256) (tx : CTransaction) :
    tx.copy.getHash hash = tx.getHash hash :=
  congrArg (fun bytes => hash (tx.put Wire.serializeTransactionNoWitness ++ bytes))
    tx.copy_payloadBytes

theorem verifyAssetChainOrigin_eq {hIssuer : Uint160} (hH : w.mapAsset hIssuer = some H) :
    verifyAssetChainOrigin env w tx hIssuer =
      ((getTxOfAsset env w hIssuer).isSome && spendsTx tx H) := by
  unfold verifyAssetChainOrigin
  cases hget : getTxOfAsset env w hIssuer with
  | none => rfl
  | some assetTx =>
    have hhash : assetTx.getHash env.hash = H := by
      simp only [getTxOfAsset, hH, bind_eq_bind, bind_some] at hget
      obtain ⟨txIn, hstored, hcopy⟩ := bind_eq_some_iff.mp hget
      split_ifs at hcopy
      cases hcopy
      rw [copy_getHash]
      exact env.getTransaction_hash H txIn hstored
    simp only [hhash, isSome_some, Bool.true_and]

theorem processNewAssetTx_ownerOnly : OwnerOnly env tx w (processNewAssetTx env w tx).2 := by
  refine ownerOnly_ite_iff.mpr fun hfree => ownerOnly_ite_iff.mpr fun _ => ?_
  refine ownerOnly_mapAsset_iff.mpr fun H hH => ?_
  exact absurd (by rw [hH]; rfl) hfree

theorem assignAsset_ownerOnly_iff :
    OwnerOnly env tx w (assignAsset env w tx entry).2 ↔
      ∀ H, w.mapAsset tx.certificate.hashIssuer = some H → H ≠ 0 → entry ≠ some H →
        (getTxOfAsset env w tx.certificate.hashIssuer).isSome = true → spendsTx tx H = true →
        SpendsRecord env assetIndex tx H := by
  unfold assignAsset
  simp only [ownerOnly_ite_iff, ownerOnly_mapAsset_iff, Bool.not_eq_true', Bool.not_eq_false]
  constructor
  · intro h H hH hne hentry hget hspends
    refine h ?_ H hH hne hentry
    rw [verifyAssetChainOrigin_eq hH, hget, hspends, Bool.and_self]
  · intro h hchain H hH hne hentry
    rw [verifyAssetChainOrigin_eq hH, Bool.and_eq_true] at hchain
    exact h H hH hne hentry hchain.1 hchain.2

theorem not_assetTakenOver_iff (hv : verifyAsset env tx = some true)
    (hout : assetOutput tx = some (some (out, mode, hash))) :
    ¬ AssetTakenOver env w tx ↔
      ∀ H, w.mapAsset tx.certificate.hashIssuer = some H → H ≠ 0 →
        (mode = opExtUpdate ∧ tx.getHash env.hash ≠ H ∨ mode = opExtRemove) →
        (getTxOfAsset env w tx.certificate.hashIssuer).isSome = true → spendsTx tx H = true →
        SpendsRecord env assetIndex tx H := by
  constructor
  · intro h H hH hne hmode hget hspends
    by_contra hno
    exact h ⟨hv, H, out, mode, hash, hout, hH, hne, hget, ⟨hspends, hno⟩, hmode⟩
  · rintro h ⟨_, H, out', mode', hash', hout', hH, hne, hget, ⟨hspends, hno⟩, hmode⟩
    obtain rfl : mode = mode' := by
      rw [hout] at hout'
      simp only [some.injEq, Prod.mk.injEq] at hout'
      exact hout'.2.1
    exact hno (h H hH hne hmode hget hspends)

theorem processAssetTx_refused
    (h : ∀ o, ¬ (verifyAsset env tx = some true ∧ assetOutput tx = some (some o)))
    {r : Bool × Wallet} (hr : processAssetTx env w tx = some r) : r.2 = w := by
  obtain ⟨ok, hv, hr⟩ := bind_eq_some_iff.mp hr
  cases ok with
  | false =>
    cases hr
    rfl
  | true =>
    obtain ⟨o, hout, hr⟩ := bind_eq_some_iff.mp hr
    cases o with
    | none =>
      cases hr
      rfl
    | some o => exact absurd ⟨hv, hout⟩ (h o)

theorem processAssetTx_verified (hv : verifyAsset env tx = some true)
    (hout : assetOutput tx = some (some (out, mode, hash))) :
    processAssetTx env w tx = some
      (if mode = opExtNew then processNewAssetTx env w tx
      else if mode = opExtUpdate then processUpdateAssetTx env w tx
      else if mode = opExtRemove then processRemoveAssetTx env w tx
      else (true, w)) := by
  simp only [processAssetTx, hv, hout, bind_eq_bind, bind_some, Bool.not_true,
    Bool.false_eq_true, if_false, apply_ite some]

theorem processAssetTx_ownerOnly_iff :
    (∀ r ∈ processAssetTx env w tx, OwnerOnly env tx w r.2) ↔ ¬ AssetTakenOver env w tx := by
  by_cases hverified : ∃ o, verifyAsset env tx = some true ∧ assetOutput tx = some (some o)
  swap
  · refine iff_of_true (fun r hr => ?_) ?_
    · rw [processAssetTx_refused (not_exists.mp hverified) hr]
      exact .refl env tx w
    · rintro ⟨hv, _, out, mode, hash, hout, _⟩
      exact hverified ⟨_, hv, hout⟩
  obtain ⟨⟨out, mode, hash⟩, hv, hout⟩ := hverified
  rw [not_assetTakenOver_iff hv hout, processAssetTx_verified hv hout]
  simp only [mem_def, some.injEq, forall_eq']
  by_cases hnew : mode = opExtNew
  · subst hnew
    refine iff_of_true processNewAssetTx_ownerOnly fun H _ _ hmode => ?_
    rcases hmode with ⟨hmode, _⟩ | hmode
    · exact absurd hmode (by decide)
    · exact absurd hmode (by decide)
  rw [if_neg hnew]
  by_cases hupd : mode = opExtUpdate
  · subst hupd
    rw [if_pos rfl, processUpdateAssetTx, assignAsset_ownerOnly_iff]
    constructor
    · rintro h H hH hne (⟨_, hself⟩ | hmode)
      · exact h H hH hne (fun heq => hself (some.inj heq))
      · exact absurd hmode (by decide)
    · intro h H hH hne hself
      exact h H hH hne (.inl ⟨rfl, fun heq => hself (congrArg some heq)⟩)
  rw [if_neg hupd]
  by_cases hrem : mode = opExtRemove
  · subst hrem
    rw [if_pos rfl, processRemoveAssetTx, assignAsset_ownerOnly_iff]
    constructor
    · intro h H hH hne _
      exact h H hH hne (by simp)
    · intro h H hH hne _
      exact h H hH hne (.inr rfl)
  rw [if_neg hrem]
  refine iff_of_true (.refl env tx w) fun H _ _ hmode => ?_
  rcases hmode with ⟨hmode, _⟩ | hmode
  · exact absurd hmode hupd
  · exact absurd hmode hrem

/-! ## The three tables -/

/-- **Which transactions change a record only with its owner.** A commit routine changes a
    registered entry that is not null only where the output of its record is spent, exactly if the
    transaction takes over no record in one of the ways that the routine leaves open. -/
theorem named_record_owner_iff (env : RecordEnv) (w : Wallet) (tx : CTransaction)
    (nHeight : Int) :
    (OwnerOnly env tx w (commitAliasTx env w tx nHeight).2 ↔
      ¬ AliasTakenOver env w tx nHeight) ∧
    (OwnerOnly env tx w (commitContextTx env w tx).2 ↔ ¬ ContextTakenOver env w tx) ∧
    ((∀ r ∈ processAssetTx env w tx, OwnerOnly env tx w r.2) ↔ ¬ AssetTakenOver env w tx) :=
  ⟨commitAliasTx_ownerOnly_iff, commitContextTx_ownerOnly_iff, processAssetTx_ownerOnly_iff⟩

theorem SpendsRecord.spendsTx {index : CTransaction → Option Nat}
    (h : SpendsRecord env index tx H) :
    spendsTx tx H = true := by
  obtain ⟨_, _, _, _, txin, hmem, hhash, _⟩ := h
  exact List.any_eq_true.mpr ⟨txin, hmem, beq_iff_eq.mpr hhash⟩

/-- An activation of the alias `a` that spends the first output of the transaction `n`. -/
def activation (n : Nat) : CTransaction where
  nFlag := 0x41
  vin := [{ prevout := { hash := BitVec.ofNat 256 n, n := 0 }, scriptSig := [],
            nSequence := 0xFFFFFFFF }]
  vout := [{ nValue := 1, scriptPubKey :=
    [0xf1, 0x5a, 0xa9, 0x14, 7] ++ List.replicate 19 0 ++ [0x6d, 0x51] }]
  vtxinwit := []
  nLockTime := 0
  calias := { vchLabel := [0x61], tExpire := 1 }

theorem getHash_of_stored {hash : List UInt8 → Uint256} {stored tx : CTransaction} {h : Uint256}
    (hget : (if h = stored.getHash hash then some stored else none) = some tx) :
    tx.getHash hash = h := by
  split_ifs at hget with heq
  cases hget
  exact heq.symm

/-- Surroundings with the transaction `activation 1` in the chain. A hash is made of the first
    bytes. -/
def oneActivation : RecordEnv where
  hash bytes := BitVec.ofNat 256 (Server.leNat bytes 32)
  hash160 _ := 7
  now := 0
  shutime _ := 0
  getAliasOpFee _ := 1
  getContextOpFee _ := 1
  verifyContext _ _ := true
  getTxOfCert _ := none
  getTransaction h :=
    let tx := activation 1
    if h = tx.getHash (fun bytes => BitVec.ofNat 256 (Server.leNat bytes 32)) then some tx else none
  getTransaction_hash _ _ := getHash_of_stored

/-- After the first activation the label is registered; the second one takes it, and spends nothing
    of the first. -/
theorem second_activation_takes_alias :
    ∃ w H, exec connectExtTx .empty [⟨oneActivation, activation 1, 1⟩] = some w ∧
      w.mapAlias [0x61] = some H ∧ H ≠ 0 ∧
      (commitAliasTx oneActivation w (activation 2) 2).2.mapAlias [0x61] ≠ some H ∧
      spendsTx (activation 2) H = false ∧
      ¬ OwnerOnly oneActivation (activation 2) w
        (commitAliasTx oneActivation w (activation 2) 2).2 := by
  have hH : (commitAliasTx oneActivation .empty (activation 1) 1).2.mapAlias [0x61] =
      some ((activation 1).getHash oneActivation.hash) := rfl
  have hnot : spendsTx (activation 2) ((activation 1).getHash oneActivation.hash) = false := by
    decide
  have hne : (activation 1).getHash oneActivation.hash ≠ 0 := by decide
  have hchanged : (commitAliasTx oneActivation
      (commitAliasTx oneActivation .empty (activation 1) 1).2 (activation 2) 2).2.mapAlias [0x61] ≠
      some ((activation 1).getHash oneActivation.hash) := by decide
  refine ⟨_, _, rfl, hH, hne, hchanged, hnot, fun howner => ?_⟩
  have hspends := (howner.mapAlias [0x61] _ hH hne hchanged).spendsTx
  rw [hnot] at hspends
  cases hspends

/-! ## Runs -/

/-- The transaction takes over a record of one of the tables. -/
def TakenOver (w : Wallet) (c : Connecting) : Prop :=
  AliasTakenOver c.env w c.tx c.nHeight ∨ ContextTakenOver c.env w c.tx ∨
    AssetTakenOver c.env w c.tx

theorem commitAliasTx_frame (env : RecordEnv) (w : Wallet) (tx : CTransaction) (nHeight : Int) :
    (commitAliasTx env w tx nHeight).2.mapContext = w.mapContext ∧
      (commitAliasTx env w tx nHeight).2.mapAsset = w.mapAsset := by
  unfold commitAliasTx connectAliasTx removeAliasTx
  dsimp only
  constructor
  · repeat' split
    all_goals rfl
  · repeat' split
    all_goals rfl

theorem ContextTakenOver.congr
    (heq : w.mapContext = w'.mapContext) (h : ContextTakenOver env w tx) :
    ContextTakenOver env w' tx := by
  unfold ContextTakenOver at *
  rwa [← heq]

theorem AssetTakenOver.congr (heq : w.mapAsset = w'.mapAsset) (h : AssetTakenOver env w tx) :
    AssetTakenOver env w' tx := by
  unfold AssetTakenOver getTxOfAsset at *
  rwa [← heq]

theorem connectExtTx_ownerOnly {c : Connecting} (hno : ¬ TakenOver w c)
    (h : connectExtTx w c = some w') : OwnerOnly c.env c.tx w w' := by
  obtain ⟨halias, hctx, hasset⟩ : ¬ AliasTakenOver c.env w c.tx c.nHeight ∧
      ¬ ContextTakenOver c.env w c.tx ∧ ¬ AssetTakenOver c.env w c.tx := by
    simpa only [TakenOver, not_or] using hno
  unfold connectExtTx at h
  -- the alias is committed first, and the other routine sees the other tables as they were
  generalize hw₁ : (if isFlag c.tx Wire.txfAlias then (commitAliasTx c.env w c.tx c.nHeight).2
    else w) = w₁ at h
  obtain ⟨howner, hcontexts, hassets⟩ : OwnerOnly c.env c.tx w w₁ ∧
      w₁.mapContext = w.mapContext ∧ w₁.mapAsset = w.mapAsset := by
    subst hw₁
    split_ifs
    · exact ⟨commitAliasTx_ownerOnly_iff.mpr halias, commitAliasTx_frame ..⟩
    · exact ⟨.refl _ _ _, rfl, rfl⟩
  refine howner.trans ?_
  split_ifs at h
  · obtain ⟨r, hr, rfl⟩ := map_eq_some_iff.mp h
    exact processAssetTx_ownerOnly_iff.mpr (fun htaken => hasset (htaken.congr hassets)) r hr
  · cases h
    exact .refl _ _ _
  · cases h
    exact commitContextTx_ownerOnly_iff.mpr fun htaken => hctx (htaken.congr hcontexts)
  · cases h
    exact .refl _ _ _

/-- **A record stays with its owner along a run.** While no transaction takes over a record, an
    entry stays until its record's output is spent. -/
theorem records_kept {cs : List Connecting}
    (hok : StepsOk connectExtTx (fun w c => ¬ TakenOver w c) w cs)
    (h : exec connectExtTx w cs = some w') (hne : H ≠ 0) :
    (∀ label, w.mapAlias label = some H →
      (∀ c ∈ cs, ¬ SpendsRecord c.env extIndex c.tx H) → w'.mapAlias label = some H) ∧
    (∀ name, w.mapContext name = some H →
      (∀ c ∈ cs, ¬ SpendsRecord c.env extIndex c.tx H) → w'.mapContext name = some H) ∧
    (∀ asset, w.mapAsset asset = some H →
      (∀ c ∈ cs, ¬ SpendsRecord c.env assetIndex c.tx H) → w'.mapAsset asset = some H) := by
  refine ⟨fun label hH hno => ?_, fun name hH hno => ?_, fun asset hH hno => ?_⟩
  · exact exec_kept (fun _ _ _ hok h => (connectExtTx_ownerOnly hok h).mapAlias) hok hno hne hH h
  · exact exec_kept (fun _ _ _ hok h => (connectExtTx_ownerOnly hok h).mapContext) hok hno hne hH h
  · exact exec_kept (fun _ _ _ hok h => (connectExtTx_ownerOnly hok h).mapAsset) hok hno hne hH h

def otherAlias : Wallet :=
  { Wallet.empty with mapAlias := fun label => if label = [0x62] then some 1 else none }

theorem activation_keeps_other_alias :
    ∃ w', exec connectExtTx otherAlias [⟨oneActivation, activation 2, 2⟩] = some w' ∧
      w'.mapAlias [0x62] = some 1 := by
  have hno : ¬ TakenOver otherAlias ⟨oneActivation, activation 2, 2⟩ := by
    rintro (⟨-, H, -, -, -, -, hH, -⟩ | ⟨H, -, -, -, hH, -⟩ | ⟨-, H, -, -, -, -, hH, -⟩)
    all_goals cases hH
  refine ⟨_, rfl, (@records_kept otherAlias _ 1 [_] ⟨hno, trivial⟩ rfl (by decide)).1 _ rfl ?_⟩
  intro c hc hspends
  cases List.mem_singleton.mp hc
  exact absurd hspends.spendsTx (by decide)

end ShareCoin.Ext
