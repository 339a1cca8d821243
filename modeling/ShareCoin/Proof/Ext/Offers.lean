import ShareCoin.Ext.Offers
import ShareCoin.Proof.Ext.Records
import ShareCoin.Proof.Server.Ext

/-!
# What the disconnect of an offer erases

A commit that is refused writes nothing, and its disconnect erases all the same. So an offer that is
made a second time, or accepted a second time, is refused when its block is connected, and takes the
entry of the first one with it when its block is disconnected. The tables come back exactly where
the entry that the mode names was free before the commit, whatever the commit did.
-/

namespace ShareCoin.Ext

open Wire Option Function
open Server hiding CTransaction

variable {mode : UInt8} {env : OfferEnv} {tx : CTransaction} {t : OfferTables}

theorem getExtOutputOfScript_of_decode {op : Nat} {script : CScript} {hash : Uint160}
    (h : decodeExtHash op script = some (mode, hash)) :
    getExtOutputOfScript script op = some (some mode) := by
  obtain ⟨⟨m, item, pc⟩, hmode, h⟩ := bind_eq_some_iff.mp h
  dsimp only at h
  split_ifs at h with hext
  obtain ⟨⟨opcode, item', pc'⟩, hop, h⟩ := bind_eq_some_iff.mp h
  split_ifs at h with hsmall htype
  obtain ⟨⟨opcode', item'', pc''⟩, _, h⟩ := bind_eq_some_iff.mp h
  split_ifs at h
  obtain ⟨_, _, h⟩ := bind_eq_some_iff.mp h
  cases h
  simp only [Bool.not_eq_true', Bool.not_eq_false] at hext
  simp only [Bool.or_eq_true, decide_eq_true_eq, not_or, UInt8.not_lt] at hsmall
  have hzero : opcode ≠ 0 := by
    rintro rfl
    exact absurd hsmall.1 (by decide)
  have hnum : decodeOpN opcode = some op := by
    simp only [decodeOpN, hzero, if_false, hsmall, decide_true, Bool.and_self, if_true]
    exact congrArg some (not_not.mp htype)
  simp only [getExtOutputOfScript, hmode, hop, hext, if_true, hnum, map_some]

theorem getExtOutputLoop_of_findIdx {op : Nat} {vout : List CTxOut} {n : Nat} {out : CTxOut}
    {hash : Uint160} (hfind : vout.findIdx? (fun out =>
      match getOp out.scriptPubKey with
      | some (opcode, _, _) => isExtMode opcode
      | none => false) = some n) (hout : vout[n]? = some out)
    (h : decodeExtHash op out.scriptPubKey = some (mode, hash)) (nOut : Nat) :
    getExtOutputLoop op nOut vout = some (some (mode, nOut + n, out.scriptPubKey)) := by
  induction vout generalizing n nOut with
  | nil => cases hout
  | cons o vout ih =>
    rw [List.findIdx?_cons] at hfind
    split_ifs at hfind with hskip
    · cases hfind
      cases hout
      simp only [getExtOutputLoop, getExtOutputOfScript_of_decode h, Nat.add_zero]
    · obtain ⟨m, hm, rfl⟩ := map_eq_some_iff.mp hfind
      have hnone : getExtOutputOfScript o.scriptPubKey op = some none := by
        refine getExtOutputOfScript_of_not_mode ?_
        rintro ⟨mode', item, pc, hop, hext⟩
        simp only [hop] at hskip
        exact hskip hext
      rw [getExtOutputLoop, hnone]
      rw [ih hm (by simpa using hout), Nat.add_right_comm, Nat.add_assoc]

theorem verifyOffer_eq_some (h : verifyOffer env tx = some mode) :
    ∃ out hash, offerOutput tx = some (out, mode, hash) ∧ getOffer tx = some tx.offer := by
  unfold verifyOffer at h
  split_ifs at h
  cases hout : offerOutput tx with
  | none => simp [hout] at h
  | some o =>
    obtain ⟨out, m, hash⟩ := o
    cases hoffer : getOffer tx with
    | none => simp [hout, hoffer] at h
    | some offer =>
      simp only [hout, hoffer] at h
      split_ifs at h
      cases h
      have heq : offer = tx.offer := by
        unfold getOffer at hoffer
        split_ifs at hoffer
        exact (some.inj hoffer).symm
      exact ⟨out, hash, rfl, congrArg some heq⟩

/-- **The mode that `VerifyOffer` sees is the mode that the disconnect sees.** -/
theorem getExtOutputMode_of_verifyOffer (h : verifyOffer env tx = some mode) :
    getExtOutputMode (asServer tx) opOffer = some (some mode) := by
  obtain ⟨out, hash, hout, _⟩ := verifyOffer_eq_some h
  obtain ⟨n, hn, hout⟩ := bind_eq_some_iff.mp hout
  obtain ⟨o, ho, hout⟩ := bind_eq_some_iff.mp hout
  obtain ⟨⟨m, hash'⟩, hdecode, hout⟩ := bind_eq_some_iff.mp hout
  cases hout
  have hloop := getExtOutputLoop_of_findIdx hn ho hdecode 0
  exact congrArg (Option.map (Option.map Prod.fst)) hloop

/-! ## The erased entry -/

/-- The entry that a disconnect erases is not there. -/
def EntryFree (env : OfferEnv) (t : OfferTables) (offer : COffer) (mode : UInt8) : Prop :=
  (mode = opExtNew → t.mapOffer (offerHash env offer) = none) ∧
  (mode = opExtActivate → t.mapOfferAccept offer.hashOffer = none) ∧
  (mode = opExtGenerate → t.mapOfferGenerate offer.hashOffer = none)

theorem eraseOffer_eq_iff {offer : COffer} :
    eraseOffer env t offer mode = t ↔ EntryFree env t offer mode := by
  have hna : opExtNew ≠ opExtActivate := by decide
  have hng : opExtNew ≠ opExtGenerate := by decide
  have hag : opExtActivate ≠ opExtGenerate := by decide
  unfold eraseOffer EntryFree
  by_cases hnew : mode = opExtNew
  · subst hnew
    simp only [if_true, hna, hng, false_implies, and_true, true_implies, OfferTables.ext_iff,
      update_eq_self_iff]
    exact eq_comm
  by_cases hact : mode = opExtActivate
  · subst hact
    simp only [hnew, if_false, if_true, hag, false_implies, and_true, true_and, true_implies,
      OfferTables.ext_iff, update_eq_self_iff]
    exact eq_comm
  by_cases hgen : mode = opExtGenerate
  · subst hgen
    simp only [hnew, hact, if_false, if_true, false_implies, true_and, true_implies,
      OfferTables.ext_iff, update_eq_self_iff]
    exact eq_comm
  simp only [hnew, hact, hgen, if_false, false_implies, and_self]

/-- The commit looks up the original offer: for a generation of an accepted offer, and for a removal
    of one that is not accepted. -/
def AsksOriginal (t : OfferTables) (offer : COffer) (mode : UInt8) : Prop :=
  t.mapOffer offer.hashOffer ≠ none ∧
    (mode = opExtGenerate ∧ t.mapOfferAccept offer.hashOffer ≠ none ∨
      mode = opExtRemove ∧ t.mapOfferAccept offer.hashOffer = none)

/-- What a verified commit may come to: it does not return where the lookup of the original offer
    does not, and otherwise what it writes is the entry that its disconnect erases. -/
def OfferOutcome (env : OfferEnv) (t : OfferTables) (tx : CTransaction) (mode : UInt8) :
    Option (Option OfferError × OfferTables) → Prop
  | none => AsksOriginal t tx.offer mode ∧
      offerVerifyGenerateHier env t tx tx.offer.hashOffer = none
  | some (_, t₁) =>
      (AsksOriginal t tx.offer mode → offerVerifyGenerateHier env t tx tx.offer.hashOffer ≠ none) ∧
        eraseOffer env t₁ tx.offer mode = eraseOffer env t tx.offer mode

section Outcome

variable {t : OfferTables}

theorem OfferOutcome.of_not_asks (hasks : ¬ AsksOriginal t tx.offer mode)
    {r : Option OfferError × OfferTables}
    (hr : eraseOffer env r.2 tx.offer mode = eraseOffer env t tx.offer mode) :
    OfferOutcome env t tx mode (some r) :=
  ⟨fun h => absurd h hasks, hr⟩

theorem OfferOutcome.of_asks (hasks : AsksOriginal t tx.offer mode)
    {next : Bool → Option OfferError × OfferTables}
    (hnext : ∀ ok, eraseOffer env (next ok).2 tx.offer mode = eraseOffer env t tx.offer mode) :
    OfferOutcome env t tx mode
      ((offerVerifyGenerateHier env t tx tx.offer.hashOffer).map next) := by
  cases hhier : offerVerifyGenerateHier env t tx tx.offer.hashOffer with
  | none => exact ⟨hasks, hhier⟩
  | some ok => exact ⟨fun _ => by simp [hhier], hnext ok⟩

end Outcome

theorem commitOfferTx_verified (h : verifyOffer env tx = some mode) :
    OfferOutcome env t tx mode (commitOfferTx env t tx) := by
  obtain ⟨_, _, _, hoffer⟩ := verifyOffer_eq_some h
  have hng : opExtNew ≠ opExtGenerate := by decide
  have hnr : opExtNew ≠ opExtRemove := by decide
  have hag : opExtActivate ≠ opExtGenerate := by decide
  have har : opExtActivate ≠ opExtRemove := by decide
  have hgr : opExtGenerate ≠ opExtRemove := by decide
  simp only [commitOfferTx, h, hoffer]
  by_cases hnew : mode = opExtNew
  · subst hnew
    have hasks : ¬ AsksOriginal t tx.offer opExtNew := by simp [AsksOriginal, hng, hnr]
    simp only [if_true, insertTable]
    split_ifs
    · exact .of_not_asks hasks rfl
    · refine .of_not_asks hasks ?_
      simp only [eraseOffer, if_true, update_idem]
  by_cases hact : mode = opExtActivate
  · subst hact
    have hasks : ¬ AsksOriginal t tx.offer opExtActivate := by simp [AsksOriginal, hag, har]
    simp only [hnew, if_false, if_true, insertTable]
    split_ifs
    · exact .of_not_asks hasks rfl
    · exact .of_not_asks hasks rfl
    · refine .of_not_asks hasks ?_
      simp only [eraseOffer, hnew, if_false, if_true, update_idem]
  by_cases hgen : mode = opExtGenerate
  · subst hgen
    simp only [hnew, hact, if_false, if_true]
    by_cases hmade : t.mapOffer tx.offer.hashOffer = none
    · rw [if_pos hmade]
      exact .of_not_asks (fun h => h.1 hmade) rfl
    by_cases hacc : t.mapOfferAccept tx.offer.hashOffer = none
    · rw [if_neg hmade, if_pos hacc]
      exact .of_not_asks (by simp [AsksOriginal, hgr, hacc]) rfl
    · rw [if_neg hmade, if_neg hacc]
      refine .of_asks ⟨hmade, .inl ⟨rfl, hacc⟩⟩ fun ok => ?_
      split_ifs
      · rfl
      · rfl
      · simp only [eraseOffer, hnew, hact, if_false, if_true, update_idem]
  by_cases hrem : mode = opExtRemove
  · subst hrem
    simp only [hnew, hact, hgen, if_false, if_true]
    split_ifs with hmade hacc
    · exact .of_not_asks (fun h => h.1 hmade) rfl
    · refine .of_asks ⟨hmade, .inr ⟨rfl, hacc⟩⟩ fun ok => ?_
      split_ifs
      · rfl
      · rfl
    · exact .of_not_asks (by simp [AsksOriginal, hgen, hacc]) rfl
  simp only [hnew, hact, hgen, hrem, if_false]
  exact .of_not_asks (by simp [AsksOriginal, hgen, hrem]) rfl

theorem offerVerifyGenerateHier_ne_none_iff {hOffer : Uint160} :
    offerVerifyGenerateHier env t tx hOffer ≠ none ↔
      ∀ txOffer, getTxOfOffer env t hOffer = some txOffer →
        (getExtOutput (asServer txOffer) opOffer).isSome = true := by
  unfold offerVerifyGenerateHier
  cases getTxOfOffer env t hOffer with
  | none => simp
  | some txOffer => simp [isSome_iff_ne_none]

/-! ## The tables after a commit and its disconnect -/

/-- When the tables come back: the lookup of the offer's output returns, the entry that its mode
    names was free, and the lookup of the original offer returns where the commit makes it. -/
def OfferTakenBack (env : OfferEnv) (t : OfferTables) (tx : CTransaction) : Prop :=
  getOffer tx ≠ none →
    (∃ mode, getExtOutputMode (asServer tx) opOffer = some mode ∧
      ∀ m, mode = some m → EntryFree env t tx.offer m) ∧
    ∀ mode, verifyOffer env tx = some mode → AsksOriginal t tx.offer mode →
      ∀ txOffer, getTxOfOffer env t tx.offer.hashOffer = some txOffer →
        (getExtOutput (asServer txOffer) opOffer).isSome = true

theorem getOffer_eq (h : getOffer tx ≠ none) : getOffer tx = some tx.offer := by
  unfold getOffer at h ⊢
  split_ifs at h ⊢
  · rfl
  · exact absurd rfl h

theorem disconnectOfferTx_iff {t t' : OfferTables} (hoffer : getOffer tx = some tx.offer) :
    (∃ ok, disconnectOfferTx env t tx = some (ok, t')) ↔
      ∃ mode, getExtOutputMode (asServer tx) opOffer = some mode ∧
        (mode = none → t = t') ∧ ∀ m, mode = some m → eraseOffer env t tx.offer m = t' := by
  simp only [disconnectOfferTx, hoffer]
  cases getExtOutputMode (asServer tx) opOffer with
  | none => simp
  | some mode =>
    cases mode with
    | none | some m => simp

/-- **Which offers a disconnect takes back.** The three tables are as they were before the commit
    exactly if the entry that the offer's mode names was free, whether or not the commit was
    refused, and the lookups return. -/
theorem offer_tables_restored_iff (env : OfferEnv) (t : OfferTables) (tx : CTransaction) :
    (∃ e t₁ ok, commitOfferTx env t tx = some (e, t₁) ∧
      disconnectOfferTx env t₁ tx = some (ok, t)) ↔ OfferTakenBack env t tx := by
  by_cases hnone : getOffer tx = none
  · have hv : verifyOffer env tx = none := by
      rw [← not_isSome_iff_eq_none, isSome_iff_exists]
      rintro ⟨mode, h⟩
      obtain ⟨_, _, _, hoffer⟩ := verifyOffer_eq_some h
      cases hnone.symm.trans hoffer
    refine iff_of_true ⟨some .inval, t, false, ?_, ?_⟩ fun h => absurd hnone h
    · simp only [commitOfferTx, hv]
    · simp only [disconnectOfferTx, hnone]
  have hoffer := getOffer_eq hnone
  simp only [OfferTakenBack, ne_eq, hnone, not_false_eq_true, true_implies]
  cases hv : verifyOffer env tx with
  | none =>
    have hcommit : commitOfferTx env t tx = some (some .inval, t) := by
      simp only [commitOfferTx, hv]
    simp only [hcommit, some.injEq, Prod.mk.injEq, reduceCtorEq, false_implies, implies_true,
      and_true, ← eraseOffer_eq_iff]
    constructor
    · rintro ⟨_, _, ok, ⟨_, rfl⟩, hdis⟩
      obtain ⟨mode, hmode, _, herase⟩ := (disconnectOfferTx_iff hoffer).mp ⟨ok, hdis⟩
      exact ⟨mode, hmode, herase⟩
    · rintro ⟨mode, hmode, herase⟩
      obtain ⟨ok, hdis⟩ := (disconnectOfferTx_iff hoffer).mpr ⟨mode, hmode, fun _ => rfl, herase⟩
      exact ⟨_, _, ok, ⟨rfl, rfl⟩, hdis⟩
  | some mode =>
    have hmode := getExtOutputMode_of_verifyOffer hv
    simp only [some.injEq, forall_eq', hmode, ← eraseOffer_eq_iff, exists_eq_left']
    have houtcome := commitOfferTx_verified (t := t) hv
    rcases hcommit : commitOfferTx env t tx with _ | ⟨e, t₁⟩
    · rw [hcommit] at houtcome
      obtain ⟨hasks, hhier⟩ := houtcome
      refine iff_of_false ?_ fun h =>
        offerVerifyGenerateHier_ne_none_iff.mpr (h.2 hasks) hhier
      rintro ⟨_, _, _, h, _⟩
      cases h
    · rw [hcommit] at houtcome
      obtain ⟨hhier, herase⟩ := houtcome
      rw [← herase]
      constructor
      · rintro ⟨_, t₂, ok, h, hdis⟩
        cases h
        obtain ⟨_, hmode', _, hback⟩ := (disconnectOfferTx_iff hoffer).mp ⟨ok, hdis⟩
        cases hmode.symm.trans hmode'
        exact ⟨hback mode rfl, fun hasks => offerVerifyGenerateHier_ne_none_iff.mp (hhier hasks)⟩
      · rintro ⟨hback, _⟩
        obtain ⟨ok, hdis⟩ := (disconnectOfferTx_iff hoffer).mpr
          ⟨some mode, hmode, fun h => (by cases h), fun m h => (by cases h; exact hback)⟩
        exact ⟨e, t₁, ok, rfl, hdis⟩

/-- A new offer that spends the first output of the transaction `n`. -/
def newOffer (n : Nat) : CTransaction where
  nFlag := 0x81
  vin := [{ prevout := { hash := BitVec.ofNat 256 n, n := 0 }, scriptSig := [],
            nSequence := 0xFFFFFFFF }]
  vout := [{ nValue := 1, scriptPubKey :=
    [0xf0, 0x5b, 0xa9, 0x14, 7] ++ List.replicate 19 0 ++ [0x6d, 0x51] }]
  vtxinwit := []
  nLockTime := 0

/-- Surroundings in which the offers of `newOffer` are verified. -/
def offerEnv : OfferEnv where
  toRecordEnv := oneActivation
  maxShareNameLength := 136
  commitGenerateOffer _ _ := true

def oneOffer : OfferTables where
  mapOffer := update (fun _ => none) 7 (some ((newOffer 1).getHash oneActivation.hash))
  mapOfferAccept := fun _ => none
  mapOfferGenerate := fun _ => none

/-- The same offer is made again. The commit refuses it, and its disconnect erases the first. -/
theorem duplicate_offer_erases_first :
    commitOfferTx offerEnv .empty (newOffer 1) = some (none, oneOffer) ∧
      commitOfferTx offerEnv oneOffer (newOffer 2) = some (some .notUniq, oneOffer) ∧
      disconnectOfferTx offerEnv oneOffer (newOffer 2) = some (true, .empty) ∧
      oneOffer ≠ .empty := by
  have hv : ∀ n ∈ [1, 2], verifyOffer offerEnv (newOffer n) = some opExtNew := by decide
  have hmode : getExtOutputMode (asServer (newOffer 2)) opOffer = some (some opExtNew) := by
    decide
  have herase : eraseOffer offerEnv oneOffer (newOffer 2).offer opExtNew = .empty := by
    change OfferTables.mk (update _ 7 none) _ _ = _
    rw [oneOffer, update_idem, update_eq_self_iff.mpr rfl]
    rfl
  refine ⟨?_, ?_, ?_, fun h => ?_⟩
  · rw [commitOfferTx, hv 1 (by decide)]
    rfl
  · rw [commitOfferTx, hv 2 (by decide)]
    rfl
  · rw [← herase]
    simp only [disconnectOfferTx, hmode]
    rfl
  · exact absurd (congrFun (congrArg OfferTables.mapOffer h) 7) (by decide)

end ShareCoin.Ext
