import ShareCoin.Ext.AssetChain
import ShareCoin.Proof.Ext.Records

/-!
# Which asset chains are found again

The disconnect of an update walks back through the inputs. It finds the chain exactly when in each
transaction the first input that spends an output of the asset is the one that spends the previous
transaction of the chain, and its index is not by chance the number of inputs of that previous
transaction. Then the table comes back as it was.

A history of an asset lists its transactions, the newest first. What else happens in between may
write to other entries of the table.
-/

namespace ShareCoin.Ext

open Wire List Option Function
open Server hiding CTransaction

theorem isFlag_txfAsset (tx : CTransaction) : isFlag tx txfAsset = hasFlag tx.nFlag txfAsset :=
  isFlag_eq_hasFlag (k := 9) rfl (by decide) tx

/-! ## Histories -/

/-- `ProcessAssetTx` accepts the transaction for the asset: the first one of its history is new, the
    others update or remove it. -/
structure AssetStep (env : RecordEnv) (asset : Uint160) (w : Wallet) (chain : List CTransaction)
    (tx : CTransaction) (w' : Wallet) : Prop where
  accepted : ∃ env', SameHash env env' ∧ processAssetTx env' w tx = some (true, w')
  kind : ∃ out mode hash, assetOutput tx = some (some (out, mode, hash)) ∧
    (mode = opExtNew ∧ chain = [] ∧ recordHash env (CCert.codec.put tx.certificate) = asset ∨
      (mode = opExtUpdate ∨ mode = opExtRemove) ∧ chain ≠ [] ∧ tx.certificate.hashIssuer = asset)

def RemovesAsset (tx : CTransaction) : Prop :=
  ∃ out hash, assetOutput tx = some (some (out, opExtRemove, hash))

inductive AssetHistory (env : RecordEnv) (asset : Uint160) : Wallet → List CTransaction → Prop
  | nil (w : Wallet) : AssetHistory env asset w []
  | step {w w' : Wallet} {chain : List CTransaction} {tx : CTransaction}
      (history : AssetHistory env asset w chain) (next : AssetStep env asset w chain tx w')
      (kept : ¬ RemovesAsset tx) : AssetHistory env asset w' (tx :: chain)
  /-- Something happens that leaves the entry of the asset. -/
  | other {w w' : Wallet} {chain : List CTransaction}
      (history : AssetHistory env asset w chain)
      (same : w'.mapAsset asset = w.mapAsset asset) : AssetHistory env asset w' chain

variable {env : RecordEnv} {tx next : CTransaction}

theorem verifyAsset_accepts {out : CTxOut} {mode : UInt8}
    {hash : Uint160} (hv : verifyAsset env tx = some true)
    (hout : assetOutput tx = some (some (out, mode, hash))) :
    getAsset tx = some tx.certificate ∧
      hash = recordHash env (CCert.codec.put tx.certificate) := by
  rw [verifyAsset, hout] at hv
  cases hasset : isAssetTx tx with
  | false => simp [hasset] at hv
  | true =>
    rw [isAssetTx, isRecordTx, Bool.and_eq_true, isFlag_txfAsset] at hasset
    refine ⟨if_pos hasset.1, ?_⟩
    split_ifs at hv
    · cases hv
    · simp only [map_some, some.injEq, Bool.and_eq_true, beq_iff_eq] at hv
      exact hv.2

variable {w w' : Wallet}

theorem assignAsset_accepts {entry : Option Uint256} (h : assignAsset env w tx entry = (true, w')) :
    w' = { w with
      mapAsset := update w.mapAsset tx.certificate.hashIssuer entry } := by
  rw [assignAsset] at h
  split_ifs at h
  · cases h
  · exact (Prod.mk.inj h).2.symm

variable {asset : Uint160} {chain : List CTransaction} {fuel : Nat} {found : CTransaction × UInt8}
  {older : List CTransaction}

theorem AssetStep.cases (h : AssetStep env asset w chain tx w') :
    getAsset tx = some tx.certificate ∧
    ∃ out mode hash entry, assetOutput tx = some (some (out, mode, hash)) ∧
      w' = { w with
        mapAsset := update w.mapAsset asset entry } ∧
      (¬ RemovesAsset tx → entry = some (tx.getHash env.hash)) ∧
      (mode = opExtNew ∧ chain = [] ∧ hash = asset ∧
          recordHash env (CCert.codec.put tx.certificate) = asset ∧ w.mapAsset asset = none ∨
        mode ≠ opExtNew ∧ chain ≠ [] ∧ tx.certificate.hashIssuer = asset) := by
  obtain ⟨env', ⟨hhash, hhash160⟩, hacc⟩ := h.accepted
  obtain ⟨out, mode, hash, hout, hkind⟩ := h.kind
  have hrecord := SameHash.recordHash ⟨hhash, hhash160⟩
  obtain ⟨ok, hv, hrest⟩ := bind_eq_some_iff.mp hacc
  cases ok with
  | false => cases hrest
  | true =>
  rw [processAssetTx_verified hv hout, some.injEq] at hacc
  obtain ⟨hasset, hhashes⟩ := verifyAsset_accepts hv hout
  refine ⟨hasset, out, mode, hash, ?_⟩
  rcases hkind with ⟨rfl, hchain, hnew⟩ | ⟨hmode, hchain, hissuer⟩
  · rw [if_pos rfl, processNewAssetTx, hrecord, hnew, hhash] at hacc
    split_ifs at hacc with htaken hsig
    · cases hacc
    · cases hacc
    · obtain ⟨-, rfl⟩ := Prod.mk.inj hacc
      refine ⟨_, hout, rfl, fun _ => rfl, .inl ⟨rfl, hchain, ?_, hnew, ?_⟩⟩
      · rw [hhashes, hrecord, hnew]
      · simpa using htaken
  · rcases hmode with rfl | rfl
    · obtain rfl := assignAsset_accepts hacc
      refine ⟨_, hout, by rw [hissuer], fun _ => by rw [hhash], .inr ⟨by decide, hchain, hissuer⟩⟩
    · obtain rfl := assignAsset_accepts hacc
      exact ⟨_, hout, by rw [hissuer], fun hkept => absurd ⟨out, hash, hout⟩ hkept,
        .inr ⟨by decide, hchain, hissuer⟩⟩

/-- What a history says about its transactions: the oldest is the asset, the others name it. -/
def ChainOf (env : RecordEnv) (asset : Uint160) : List CTransaction → Prop
  | [] => True
  | [tx] => getAsset tx = some tx.certificate ∧
      recordHash env (CCert.codec.put tx.certificate) = asset
  | tx :: older => getAsset tx = some tx.certificate ∧ tx.certificate.hashIssuer = asset ∧
      ChainOf env asset older

theorem AssetHistory.chainOf (h : AssetHistory env asset w chain) : ChainOf env asset chain := by
  induction h with
  | nil => trivial
  | @step w w' chain tx _ next _ ih =>
    obtain ⟨hasset, _, _, _, _, -, -, -, ⟨-, rfl, -, hnew, -⟩ | ⟨-, hchain, hissuer⟩⟩ := next.cases
    · exact ⟨hasset, hnew⟩
    · cases chain with
      | nil => exact absurd rfl hchain
      | cons older rest => exact ⟨hasset, hissuer, ih⟩
  | other _ _ ih => exact ih

theorem AssetHistory.entry (h : AssetHistory env asset w (tx :: older)) :
    w.mapAsset asset = some (tx.getHash env.hash) := by
  generalize hchain : tx :: older = chain at h
  induction h with
  | nil => cases hchain
  | step _ next hkept =>
    obtain ⟨rfl, rfl⟩ := List.cons.inj hchain
    obtain ⟨_, _, _, _, _, -, rfl, hentry, -⟩ := next.cases
    exact (update_self _ _ _).trans (hentry hkept)
  | other _ same ih => exact same.trans (ih hchain)

/-! ## The walk back -/

theorem copy_certificate (h : getAsset tx = some tx.certificate) :
    tx.copy.certificate = tx.certificate := by
  have hflag : hasFlag tx.nFlag txfAsset = true := by
    by_contra hno
    rw [getAsset, if_neg hno] at h
    cases h
  refine if_pos (bne_iff_ne.mpr fun hcert => bne_iff_ne.mp hflag ?_)
  have hmask : txfAsset = txfCert &&& txfAsset := by decide
  rw [hmask, ← UInt32.and_assoc, hcert, UInt32.zero_and]

/-- The first input of the transaction that spends an output of the asset spends the previous
    transaction. Its index is not the number of inputs of that transaction, and the output is an
    update if the chain goes on. -/
def AssetLink (env : RecordEnv) (asset : Uint160) (next prev : CTransaction) (more : Bool) : Prop :=
  ∃ before txin rest pTx mode, next.vin = before ++ txin :: rest ∧
    (∀ other ∈ before, assetInput env asset other = some none) ∧
    assetInput env asset txin = some (some (pTx, mode)) ∧ pTx.copy = prev.copy ∧
    before.length ≠ prev.vin.length ∧ (mode = opExtUpdate ↔ more = true)

/-- Each transaction of the chain is linked to the one before it. -/
def Linked (env : RecordEnv) (asset : Uint160) : CTransaction → List CTransaction → Prop
  | _, [] => True
  | next, tx :: older =>
    AssetLink env asset next tx (! older.isEmpty) ∧ Linked env asset tx older

theorem assetInputs_of_first {before rest : List CTxIn} {txin : CTxIn} (i : Nat)
    (hbefore : ∀ other ∈ before, assetInput env asset other = some none)
    (hfound : assetInput env asset txin = some (some found)) :
    assetInputs env asset i (before ++ txin :: rest) = some (some (i + before.length, found)) := by
  induction before generalizing i with
  | nil => simp only [nil_append, assetInputs, hfound, length_nil, Nat.add_zero]
  | cons other before ih =>
    rw [forall_mem_cons] at hbefore
    simp only [cons_append, assetInputs, hbefore.1, ih (i + 1) hbefore.2, length_cons]
    rw [Nat.add_right_comm, Nat.add_assoc]

theorem assetInputs_found {vin : List CTxIn} {i j : Nat}
    (h : assetInputs env asset i vin = some (some (j, found))) :
    ∃ before txin rest, vin = before ++ txin :: rest ∧
      (∀ other ∈ before, assetInput env asset other = some none) ∧
      assetInput env asset txin = some (some found) ∧ j = i + before.length := by
  induction vin generalizing i with
  | nil => cases h
  | cons txin vin ih =>
    rw [assetInputs] at h
    cases hin : assetInput env asset txin with
    | none => simp only [hin, reduceCtorEq] at h
    | some entry =>
      cases entry with
      | some first =>
        simp only [hin, some.injEq, Prod.mk.injEq] at h
        exact ⟨[], txin, vin, rfl, by simp, h.2 ▸ hin, h.1.symm⟩
      | none =>
        simp only [hin] at h
        obtain ⟨before, next, rest, rfl, hbefore, hfound, rfl⟩ := ih h
        refine ⟨txin :: before, next, rest, rfl, ?_, hfound, ?_⟩
        · exact forall_mem_cons.mpr ⟨hin, hbefore⟩
        · rw [length_cons, Nat.add_right_comm, Nat.add_assoc]

theorem AssetLink.iff {prev : CTransaction} {more : Bool} :
    AssetLink env asset next prev more ↔
      ∃ i pTx mode, assetInputs env asset 0 next.vin = some (some (i, pTx, mode)) ∧
        pTx.copy = prev.copy ∧ i ≠ prev.vin.length ∧ (mode = opExtUpdate ↔ more = true) := by
  constructor
  · rintro ⟨before, txin, rest, pTx, mode, hvin, hbefore, hfound, hlink⟩
    refine ⟨before.length, pTx, mode, ?_, hlink⟩
    rw [hvin, assetInputs_of_first 0 hbefore hfound, Nat.zero_add]
  · rintro ⟨i, pTx, mode, hinputs, hlink⟩
    obtain ⟨before, txin, rest, hvin, hbefore, hfound, rfl⟩ := assetInputs_found hinputs
    rw [Nat.zero_add] at hlink
    exact ⟨before, txin, rest, pTx, mode, hvin, hbefore, hfound, hlink⟩

theorem assetChainLoop_append (env : RecordEnv) (fuel : Nat) (tx : CTransaction)
    (hashIssuer : Uint160) (vTx : List CTransaction) :
    assetChainLoop env fuel tx hashIssuer vTx =
      (assetChainLoop env fuel tx hashIssuer []).map (Option.map (· ++ vTx)) := by
  induction fuel generalizing tx hashIssuer vTx with
  | zero => rfl
  | succ fuel ih =>
    rw [assetChainLoop, assetChainLoop]
    split
    · rfl
    · rfl
    · rename_i pTx _ _
      split_ifs
      · rfl
      · rw [ih pTx _ (pTx.copy :: vTx), ih pTx _ [pTx.copy]]
        simp only [Option.map_map, comp_def, append_assoc, singleton_append]
      · rfl

theorem assetChainLoop_ne_nil {hashIssuer : Uint160} {vTx : List CTransaction}
    (h : assetChainLoop env fuel tx hashIssuer [] = some (some vTx)) : vTx ≠ [] := by
  rintro rfl
  cases fuel with
  | zero => cases h
  | succ fuel =>
    rw [assetChainLoop] at h
    split at h
    · cases h
    · cases h
    · split_ifs at h
      · cases h
      · rw [assetChainLoop_append] at h
        obtain ⟨r, -, hr⟩ := map_eq_some_iff.mp h
        obtain ⟨vTx, -, hnil⟩ := map_eq_some_iff.mp hr
        exact append_ne_nil_of_right_ne_nil vTx (cons_ne_nil _ _) hnil
      · cases h

theorem vin_of_copy_eq {tx' : CTransaction} (h : tx.copy = tx'.copy) : tx.vin = tx'.vin := by
  change tx.copy.vin = tx'.copy.vin
  rw [h]

theorem certificate_of_copy_eq {tx' : CTransaction} (h : tx.copy = tx'.copy)
    (hasset : getAsset tx' = some tx'.certificate) : tx.certificate = tx'.certificate := by
  have hflag : tx.nFlag = tx'.nFlag := by
    change tx.copy.nFlag = tx'.copy.nFlag
    rw [h]
  have htx : getAsset tx = some tx.certificate := by
    rw [getAsset] at hasset ⊢
    rw [hflag]
    split_ifs at hasset ⊢
    rfl
  rw [← copy_certificate htx, h, copy_certificate hasset]

theorem Linked.congr_vin {next' : CTransaction} (h : next.vin = next'.vin) :
    Linked env asset next chain ↔ Linked env asset next' chain := by
  cases chain with
  | nil => rfl
  | cons tx older => simp only [Linked, AssetLink, h]

theorem assetChainLoop_lost {vTx found : List CTransaction}
    (h : ∀ r, assetInputs env asset 0 next.vin ≠ some (some r)) :
    assetChainLoop env fuel next asset vTx ≠ some (some found) := by
  cases fuel with
  | zero => exact some_ne_none _ ∘ Eq.symm
  | succ fuel =>
    rw [assetChainLoop]
    rcases hinputs : assetInputs env asset 0 next.vin with _ | _ | r
    · simp
    · simp
    · exact absurd hinputs (h r)

theorem assetChainLoop_succ_iff {fuel i : Nat} {pTx : CTransaction} {mode : UInt8}
    (hinputs : assetInputs env asset 0 next.vin = some (some (i, pTx, mode))) :
    assetChainLoop env (fuel + 1) next asset [] =
        some (some ((tx :: older).reverse.map CTransaction.copy)) ↔
      pTx.copy = tx.copy ∧ i ≠ pTx.vin.length ∧
        if mode = opExtUpdate then
          assetChainLoop env fuel pTx pTx.certificate.hashIssuer [] =
            some (some (older.reverse.map CTransaction.copy))
        else older = [] := by
  rw [assetChainLoop, reverse_cons, map_append, map_singleton]
  simp only [hinputs]
  by_cases hi : i = pTx.vin.length
  · simp [hi]
  split_ifs with hmode
  · rw [assetChainLoop_append]
    constructor
    · intro h
      obtain ⟨r, hr, h⟩ := map_eq_some_iff.mp h
      obtain ⟨found, rfl, h⟩ := map_eq_some_iff.mp h
      obtain ⟨rfl, hcopy⟩ := append_inj' (some.inj h) rfl
      exact ⟨(List.cons.inj hcopy).1, hi, hr⟩
    · rintro ⟨hcopy, -, hr⟩
      rw [hr, hcopy]
      rfl
  · constructor
    · intro h
      have h : [] ++ [pTx.copy] = _ ++ [tx.copy] := some.inj (some.inj h)
      obtain ⟨hnil, hcopy⟩ := append_inj' h rfl
      exact ⟨(List.cons.inj hcopy).1, hi, reverse_eq_nil_iff.mp (map_eq_nil_iff.mp hnil.symm)⟩
    · rintro ⟨hcopy, -, rfl⟩
      rw [hcopy]
      rfl

/-- **The walk finds exactly the linked chains.** -/
theorem assetChainLoop_iff (hne : chain ≠ []) (hchain : ChainOf env asset chain)
    (hfuel : chain.length ≤ fuel) (next : CTransaction) :
    assetChainLoop env fuel next asset [] = some (some (chain.reverse.map CTransaction.copy)) ↔
      Linked env asset next chain := by
  -- along the chain: each round finds one transaction of it
  induction chain generalizing fuel next with
  | nil => exact absurd rfl hne
  | cons tx older ih =>
    obtain ⟨fuel, rfl⟩ : ∃ less, fuel = less + 1 := Nat.exists_eq_add_one.mpr (by
      rw [length_cons] at hfuel
      omega)
    rw [Linked, AssetLink.iff]
    by_cases hfound : ∃ r, assetInputs env asset 0 next.vin = some (some r)
    swap
    · refine iff_of_false (assetChainLoop_lost (not_exists.mp hfound)) ?_
      rintro ⟨⟨i, pTx, mode, hinputs, -⟩, -⟩
      exact hfound ⟨_, hinputs⟩
    obtain ⟨⟨i, pTx, mode⟩, hinputs⟩ := hfound
    rw [assetChainLoop_succ_iff hinputs]
    have hrest (hcopy : pTx.copy = tx.copy) :
        (if mode = opExtUpdate then assetChainLoop env fuel pTx pTx.certificate.hashIssuer [] =
            some (some (older.reverse.map CTransaction.copy)) else older = []) ↔
          (mode = opExtUpdate ↔ (! older.isEmpty) = true) ∧ Linked env asset tx older := by
      cases older with
      | nil =>
        split_ifs with hmode
        · refine iff_of_false (fun h => assetChainLoop_ne_nil h rfl) ?_
          rintro ⟨hmore, -⟩
          exact absurd (hmore.mp hmode) (by decide)
        · exact iff_of_true rfl ⟨iff_of_false hmode (by decide), trivial⟩
      | cons tx' older =>
        obtain ⟨hasset, hissuer, hchain⟩ := hchain
        split_ifs with hmode
        · rw [certificate_of_copy_eq hcopy hasset, hissuer,
            ih (cons_ne_nil _ _) hchain (Nat.le_of_succ_le_succ hfuel) pTx,
            Linked.congr_vin (vin_of_copy_eq hcopy), iff_true_intro hmode]
          simp
        · simp [hmode]
    constructor
    · rintro ⟨hcopy, hi, h⟩
      obtain ⟨hmode, hlinked⟩ := (hrest hcopy).mp h
      exact ⟨⟨i, pTx, mode, hinputs, hcopy, vin_of_copy_eq hcopy ▸ hi, hmode⟩, hlinked⟩
    · rintro ⟨⟨i', pTx', mode', hinputs', hcopy, hi, hmode⟩, hlinked⟩
      rw [hinputs] at hinputs'
      cases hinputs'
      exact ⟨hcopy, (vin_of_copy_eq hcopy).symm ▸ hi, (hrest hcopy).mpr ⟨hmode, hlinked⟩⟩

/-! ## Disconnecting -/

theorem ChainOf.oldest
    (h : ChainOf env asset chain) {first : CTransaction} (hfirst : chain.getLast? = some first) :
    recordHash env (CCert.codec.put first.copy.certificate) = asset := by
  induction chain with
  | nil => cases hfirst
  | cons tx older ih =>
    cases older with
    | nil =>
      obtain ⟨hasset, hrecord⟩ := h
      rw [getLast?_singleton, some.injEq] at hfirst
      rw [← hfirst, copy_certificate hasset, hrecord]
    | cons tx' older =>
      exact ih h.2.2 hfirst

theorem disconnectAssetTx_of_found (hhist : AssetHistory env asset w chain)
    (hlast : AssetStep env asset w chain tx w')
    (hfound : getAssetChain env fuel tx = some (some (chain.reverse.map CTransaction.copy))) :
    disconnectAssetTx env fuel w' tx = some (true, w) := by
  obtain ⟨hasset, out, mode, hash, entry, hout, rfl, -, hkind⟩ := hlast.cases
  simp only [disconnectAssetTx, hasset, hout, bind_some]
  rcases hkind with ⟨rfl, -, rfl, -, hnone⟩ | ⟨hmode, hne, -⟩
  · rw [if_pos rfl, update_idem, update_eq_self_iff.mpr hnone.symm]
  · obtain ⟨newest, older, rfl⟩ := exists_cons_of_ne_nil hne
    obtain ⟨first, hfirst⟩ : ∃ first, (newest :: older).getLast? = some first :=
      ⟨_, getLast?_eq_getLast_of_ne_nil hne⟩
    rw [if_neg hmode, hfound]
    simp only [bind_some, bind_eq_bind, head?_map, head?_reverse, hfirst,
      getLast?_map, getLast?_reverse, head?_cons, map_some,
      hhist.chainOf.oldest hfirst, copy_getHash, update_idem]
    rw [update_eq_self_iff.mpr hhist.entry.symm]

/-- **The table comes back exactly for linked chains.** The disconnect of the last transaction of an
    asset finds the earlier ones, in order, and restores the table, if and only if each is linked to
    the one before it. The vector that is returned holds copies. -/
theorem asset_table_restored_iff (env : RecordEnv) (asset : Uint160) (w w' : Wallet)
    (chain : List CTransaction) (tx : CTransaction) (fuel : Nat)
    (hhist : AssetHistory env asset w chain) (hlast : AssetStep env asset w chain tx w')
    (hfuel : chain.length ≤ fuel) :
    (getAssetChain env fuel tx = some (some (chain.reverse.map CTransaction.copy)) ∧
      disconnectAssetTx env fuel w' tx = some (true, w)) ↔ Linked env asset tx chain := by
  rw [and_iff_left_of_imp (disconnectAssetTx_of_found hhist hlast)]
  obtain ⟨hasset, out, mode, hash, entry, hout, -, -, hkind⟩ := hlast.cases
  rw [getAssetChain, hout, bind_some]
  rcases hkind with ⟨rfl, rfl, -⟩ | ⟨hmode, hne, rfl⟩
  · exact iff_of_true rfl trivial
  · simp only [if_neg hmode]
    exact assetChainLoop_iff hne hhist.chainOf hfuel tx

/-- A transaction of the asset 7 that spends the first outputs of the transactions `spent`. -/
def assetTx (mode : UInt8) (hashIssuer : Uint160) (spent : List Uint256) : CTransaction where
  nFlag := 0x201
  vin := spent.map fun hash =>
    { prevout := { hash := hash, n := 0 }, scriptSig := [], nSequence := 0xFFFFFFFF }
  vout := [{ nValue := 1, scriptPubKey :=
    [mode, 0x5f, 0xa9, 0x14, 7] ++ List.replicate 19 0 ++ [0x6d, 0x51] }]
  vtxinwit := []
  nLockTime := 0
  certificate := { CCert.null with
    hashIssuer := hashIssuer }

def assetCreated : CTransaction := assetTx opExtNew 0 [1]

def oneAsset : RecordEnv where
  hash bytes := BitVec.ofNat 256 (Server.leNat bytes 32)
  hash160 _ := 7
  now := 0
  shutime _ := 0
  getAliasOpFee _ := 1
  getContextOpFee _ := 1
  verifyContext _ _ := true
  getTxOfCert _ := some assetCreated
  getTransaction h :=
    if h = assetCreated.getHash (fun bytes => BitVec.ofNat 256 (Server.leNat bytes 32)) then
      some assetCreated
    else none
  getTransaction_hash _ _ := getHash_of_stored

def assetWallet : Wallet :=
  { Wallet.empty with
    mapAsset := update Wallet.empty.mapAsset 7
      (some (assetCreated.getHash oneAsset.hash)) }

def assetUpdated (spent : List Uint256) : CTransaction :=
  assetTx opExtUpdate 7 (spent ++ [assetCreated.getHash oneAsset.hash])

def updatedWallet (spent : List Uint256) : Wallet :=
  { assetWallet with
    mapAsset := update assetWallet.mapAsset 7
      (some ((assetUpdated spent).getHash oneAsset.hash)) }

section

variable (mode : UInt8) (hashIssuer : Uint160) (spent : List Uint256)
  (hmode : mode = opExtNew ∨ mode = opExtUpdate)
include hashIssuer hmode

theorem assetTx_output : ∃ out,
    assetOutput (assetTx mode hashIssuer spent) = some (some (out, mode, 7)) := by
  rcases hmode with rfl | rfl
  · exact ⟨_, rfl⟩
  · exact ⟨_, rfl⟩

theorem assetTx_kept : ¬ RemovesAsset (assetTx mode hashIssuer spent) := by
  rintro ⟨out', hash, hout'⟩
  obtain ⟨out, hout⟩ := assetTx_output mode hashIssuer spent hmode
  rw [hout] at hout'
  obtain ⟨-, rfl, -⟩ := hout'
  exact absurd hmode (by decide)

theorem assetTx_verified : verifyAsset oneAsset (assetTx mode hashIssuer spent) = some true := by
  obtain ⟨out, hout⟩ := assetTx_output mode hashIssuer spent hmode
  have hasset : isAssetTx (assetTx mode hashIssuer spent) = true := by
    have hflag : hasFlag 0x201 txfAsset = true := by decide
    rw [isAssetTx, isRecordTx, isFlag_txfAsset, Bool.and_eq_true]
    rcases hmode with rfl | rfl
    · exact ⟨hflag, rfl⟩
    · exact ⟨hflag, rfl⟩
  have hrecord : ∀ record, recordHash oneAsset record = 7 := fun _ => rfl
  rw [verifyAsset, hasset, hout]
  rcases hmode with rfl | rfl
  · simp [hrecord]
  · simp [hrecord]

end

theorem assetCreated_step : AssetStep oneAsset 7 .empty [] assetCreated assetWallet := by
  obtain ⟨out, hout⟩ := assetTx_output opExtNew 0 [1] (.inl rfl)
  refine ⟨⟨oneAsset, ⟨rfl, rfl⟩, ?_⟩, out, _, _, hout, .inl ⟨rfl, rfl, rfl⟩⟩
  rfl

theorem assetUpdated_step (spent : List Uint256) :
    AssetStep oneAsset 7 assetWallet [assetCreated] (assetUpdated spent) (updatedWallet spent) := by
  obtain ⟨out, hout⟩ := assetTx_output opExtUpdate 7
    (spent ++ [assetCreated.getHash oneAsset.hash]) (.inr rfl)
  refine ⟨⟨oneAsset, ⟨rfl, rfl⟩, ?_⟩, out, _, _, hout, .inr ⟨.inl rfl, cons_ne_nil _ _, rfl⟩⟩
  have hH : assetWallet.mapAsset 7 = some (assetCreated.getHash oneAsset.hash) := rfl
  have hget : getTxOfAsset oneAsset assetWallet 7 = some assetCreated.copy := by
    decide
  have horigin : verifyAssetChainOrigin oneAsset assetWallet (assetUpdated spent) 7 = true := by
    rw [verifyAssetChainOrigin_eq hH, hget]
    simp [spendsTx, assetUpdated, assetTx]
  have hissuer : (assetUpdated spent).certificate.hashIssuer = 7 := rfl
  rw [assetUpdated, processAssetTx_verified (assetTx_verified _ _ _ (.inr rfl)) hout,
    ← assetUpdated, if_neg (by decide), if_pos rfl, processUpdateAssetTx, assignAsset, hissuer,
    horigin]
  rfl

theorem assetWallet_history : AssetHistory oneAsset 7 assetWallet [assetCreated] :=
  .step (.nil .empty) assetCreated_step (assetTx_kept opExtNew 0 [1] (.inl rfl))

/-- An update that spends only the asset is taken back. -/
theorem update_of_asset_alone_taken_back :
    getAssetChain oneAsset 1 (assetUpdated []) = some (some [assetCreated.copy]) ∧
      disconnectAssetTx oneAsset 1 (updatedWallet []) (assetUpdated []) =
        some (true, assetWallet) :=
  (asset_table_restored_iff oneAsset 7 assetWallet (updatedWallet []) [assetCreated]
    (assetUpdated []) 1 assetWallet_history (assetUpdated_step []) (by decide)).mpr
    ⟨⟨[], _, [], assetCreated, opExtNew, rfl, by simp, rfl, rfl, by decide,
      by decide⟩, trivial⟩

/-- An update with an ordinary input before the input of the asset: the asset is found at index 1,
    and the transaction that created it has one input. The walk fails, and the update stays
    registered. -/
theorem update_beside_ordinary_input_not_found :
    AssetHistory oneAsset 7 assetWallet [assetCreated] ∧
    AssetStep oneAsset 7 assetWallet [assetCreated] (assetUpdated [2]) (updatedWallet [2]) ∧
    getAssetChain oneAsset 1 (assetUpdated [2]) = some none ∧
    disconnectAssetTx oneAsset 1 (updatedWallet [2]) (assetUpdated [2]) =
      some (false, updatedWallet [2]) ∧
    (updatedWallet [2]).mapAsset 7 ≠ assetWallet.mapAsset 7 := by
  have hchain : getAssetChain oneAsset 1 (assetUpdated [2]) = some none := rfl
  obtain ⟨hasset, out, mode, hash, -, hout, -, -, ⟨-, hnil, -⟩ | ⟨hmode, -⟩⟩ :=
    (assetUpdated_step [2]).cases
  · cases hnil
  refine ⟨assetWallet_history, assetUpdated_step [2], hchain, ?_, by decide⟩
  simp only [disconnectAssetTx, hasset, hout, bind_some, if_neg hmode, hchain]

end ShareCoin.Ext
