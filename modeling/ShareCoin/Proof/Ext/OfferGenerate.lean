import ShareCoin.Ext.OfferGenerate
import ShareCoin.Proof.Ext.Offers

/-!
# What is known of an exchange that is recorded

The checks of `CommitGenerateOffer` refuse an exchange with an error code, and the caller reads that
code as the `bool` it is converted to, which is true. So the exchange is recorded as if the check
had passed. Only the failures behind the checks, which are reported as false, keep it out.
-/

namespace ShareCoin.Ext

open Wire Option

variable {env : OfferEnv} {g : GenerateEnv} {t t' : OfferTables} {tx : CTransaction}
  {offer : COffer}

/-- The exchange has the terms of the offer it names, and of the acceptance of that offer. -/
def HasTerms (env : OfferEnv) (t : OfferTables) (gen : COffer) : Prop :=
  ∃ txOffer txAccept, getTxOfOffer env t gen.hashOffer = some txOffer ∧
    getTxOfAcceptOffer env t gen.hashOffer = some txAccept ∧
    (txOffer.offer.nType &&& 16 ≠ 0 ∧ txAccept.offer.nType &&& 16 ≠ 0 ∧ gen.nType &&& 16 ≠ 0) ∧
    SameTerms txOffer.offer txAccept.offer gen ∧ offerHash env txOffer.offer = gen.hashOffer

/-- The exchange has not expired, and does not expire too late. -/
def InTime (env : OfferEnv) (g : GenerateEnv) (offer : COffer) : Prop :=
  g.isExpired offer = false ∧ env.shutime offer.tExpire - env.now ≤ offerExpireSpan

def Checked (env : OfferEnv) (g : GenerateEnv) (t : OfferTables) (offer : COffer) : Prop :=
  InTime env g offer ∧ offerVerifyGenerateOffer env t offer = none

/-- What `CommitOfferTx` asks for before it generates the exchange: the offer and an acceptance are
    recorded, and the transaction spends the offer. -/
def SpendsAccepted (env : OfferEnv) (t : OfferTables) (tx : CTransaction) : Prop :=
  t.mapOffer tx.offer.hashOffer ≠ none ∧ t.mapOfferAccept tx.offer.hashOffer ≠ none ∧
    offerVerifyGenerateHier env t tx tx.offer.hashOffer = some true

/-- The tables with the exchange. -/
def withExchange (env : OfferEnv) (t : OfferTables) (tx : CTransaction) : OfferTables :=
  { t with mapOfferGenerate :=
    Function.update t.mapOfferGenerate tx.offer.hashOffer (some (tx.getHash env.hash)) }

theorem getOffer_of_getTxOfOffer {hash : Server.Uint160} {txOffer : CTransaction}
    (h : getTxOfOffer env t hash = some txOffer) : getOffer txOffer = some txOffer.offer := by
  obtain ⟨hashTx, -, h⟩ := bind_eq_some_iff.mp h
  obtain ⟨tx', -, h⟩ := bind_eq_some_iff.mp h
  split_ifs at h with hoffer
  cases h
  rw [Bool.not_eq_true', Bool.not_eq_false, isOfferTx, Bool.and_eq_true] at hoffer
  rw [getOffer, ← isFlag_eq_hasFlag (k := 7) rfl (by decide), if_pos hoffer.1]

theorem offerVerifyGenerateOffer_iff :
    offerVerifyGenerateOffer env t offer = none ↔ HasTerms env t offer := by
  unfold offerVerifyGenerateOffer HasTerms
  cases hoffer : getTxOfOffer env t offer.hashOffer with
  | none => simp
  | some txOffer =>
    dsimp only
    rw [getOffer_of_getTxOfOffer hoffer]
    cases hacc : getTxOfAcceptOffer env t offer.hashOffer with
    | none => simp
    | some txAccept =>
      dsimp only
      split_ifs with htype hsame hhash
      · refine iff_of_false not_false ?_
        rintro ⟨_, _, ⟨⟩, ⟨⟩, ⟨hoffer16, hacc16, hgen16⟩, -⟩
        exact htype.elim hoffer16 (·.elim hacc16 hgen16)
      · refine iff_of_false not_false ?_
        rintro ⟨_, _, ⟨⟩, ⟨⟩, -, -, heq⟩
        exact hhash heq
      · push Not at htype
        exact iff_of_true rfl ⟨txOffer, txAccept, rfl, rfl, htype, hsame, not_not.mp hhash⟩
      · refine iff_of_false not_false ?_
        rintro ⟨_, _, ⟨⟩, ⟨⟩, -, hterms, -⟩
        exact hsame hterms

/-- **An exchange that fails a check is generated**: the code of the error counts as true. -/
theorem commitGenerateOffer_of_not_checked (halt : g.altIface offer = true)
    (h : ¬ Checked env g t offer) : (commitGenerateOffer env g t offer).toBool = true := by
  unfold commitGenerateOffer
  rw [halt, Bool.not_true, if_neg Bool.false_ne_true]
  split_ifs with hexp hspan
  · rfl
  · rfl
  · cases hverify : offerVerifyGenerateOffer env t offer with
    | some err => rfl
    | none => exact absurd ⟨⟨Bool.eq_false_iff.mpr hexp, not_lt.mp hspan⟩, hverify⟩ h

theorem commitOfferTx_generates_iff
    (hmode : verifyOffer (env.generating g) tx = some opExtGenerate) :
    commitOfferTx (env.generating g) t tx = some (none, t') ↔
      SpendsAccepted env t tx ∧ (commitGenerateOffer env g t tx.offer).toBool = true ∧
        t' = withExchange env t tx := by
  obtain ⟨_, _, _, hoffer⟩ := verifyOffer_eq_some hmode
  have hnew : opExtGenerate ≠ opExtNew := by decide
  have hact : opExtGenerate ≠ opExtActivate := by decide
  have hhier : offerVerifyGenerateHier (env.generating g) t tx tx.offer.hashOffer =
      offerVerifyGenerateHier env t tx tx.offer.hashOffer := rfl
  simp only [commitOfferTx, hmode, hoffer, if_neg hnew, if_neg hact, if_true, SpendsAccepted, hhier]
  by_cases hmade : t.mapOffer tx.offer.hashOffer = none
  · simp [hmade]
  by_cases hacc : t.mapOfferAccept tx.offer.hashOffer = none
  · simp [hacc]
  rw [if_neg hmade, if_neg hacc, map_eq_some_iff]
  constructor
  · rintro ⟨ok, hok, hend⟩
    split_ifs at hend with hrefused hfailed
    · cases hend
    · cases hend
    · cases hend
      rw [Bool.not_eq_true', Bool.not_eq_false] at hrefused hfailed
      exact ⟨⟨hmade, hacc, hrefused ▸ hok⟩, hfailed, rfl⟩
  · rintro ⟨⟨-, -, hok⟩, hgen, rfl⟩
    have hgen' : (env.generating g).commitGenerateOffer t tx.offer = true := hgen
    refine ⟨true, hok, ?_⟩
    rw [hgen']
    rfl

/-- **Only checked exchanges are recorded exactly if this one is in time and has the terms of its
    offer and acceptance, or it does not spend an accepted offer.** The checks themselves keep
    nothing out. -/
theorem generated_offer_checked_iff (halt : g.altIface tx.offer = true)
    (hmode : verifyOffer (env.generating g) tx = some opExtGenerate) :
    (∀ t', commitOfferTx (env.generating g) t tx = some (none, t') →
      Checked env g t tx.offer ∧ t' = withExchange env t tx) ↔
    InTime env g tx.offer ∧ HasTerms env t tx.offer ∨ ¬ SpendsAccepted env t tx := by
  have hchecked : Checked env g t tx.offer ↔ InTime env g tx.offer ∧ HasTerms env t tx.offer := by
    rw [Checked, offerVerifyGenerateOffer_iff]
  rw [← hchecked]
  constructor
  · intro h
    by_contra hno
    rw [not_or, not_not] at hno
    have hgen := commitGenerateOffer_of_not_checked halt hno.1
    exact hno.1 (h _ ((commitOfferTx_generates_iff hmode).mpr ⟨hno.2, hgen, rfl⟩)).1
  · rintro h t' hcommit
    obtain ⟨hspends, -, rfl⟩ := (commitOfferTx_generates_iff hmode).mp hcommit
    exact ⟨h.resolve_right (not_not_intro hspends), rfl⟩

/-! ## An exchange after its time -/

def exchange : CTransaction where
  nFlag := 0x81
  vin := [{ prevout := { hash := (newOffer 1).getHash oneActivation.hash, n := 0 }, scriptSig := [],
            nSequence := 0xFFFFFFFF }]
  vout := [{ nValue := 1, scriptPubKey :=
    [0xf4, 0x5b, 0xa9, 0x14, 7] ++ List.replicate 19 0 ++ [0x6d, 0x51] }]
  vtxinwit := []
  nLockTime := 0
  offer := { tExpire := 1, hashOffer := 7 }

def acceptance : CTransaction := { newOffer 2 with offer := { hashOffer := 7 } }

def exchangeEnv : OfferEnv := { offerEnv with
  getTransaction := fun h =>
    [newOffer 1, acceptance].find? fun tx => tx.getHash oneActivation.hash == h
  getTransaction_hash := fun _ _ hget => eq_of_beq (List.find?_some hget :) }

/-- The other coin is there; the time is after that of `exchange` if `late` is set. -/
def exchangeRest (late : Bool) : GenerateEnv where
  altIface _ := true
  after _ := late
  altTransaction _ := some (newOffer 1)
  poolTx := none
  isMine _ := false
  getAltTx _ := none
  getDebit _ := 0
  nAltFee _ := 0
  commitTransaction _ := true

def acceptedOffer : OfferTables := { oneOffer with
  mapOfferAccept := Function.update (fun _ => none) 7
    (some (acceptance.getHash oneActivation.hash)) }

theorem exchange_verified (late : Bool) :
    verifyOffer (exchangeEnv.generating (exchangeRest late)) exchange = some opExtGenerate := by
  cases late <;> decide

theorem exchange_committed (late : Bool) :
    commitOfferTx (exchangeEnv.generating (exchangeRest late)) acceptedOffer exchange =
      some (none, withExchange exchangeEnv acceptedOffer exchange) := by
  have hgen : (commitGenerateOffer exchangeEnv (exchangeRest late) acceptedOffer
      exchange.offer).toBool = true := by
    cases late <;> decide
  have hspends : SpendsAccepted exchangeEnv acceptedOffer exchange :=
    ⟨by decide, by decide, rfl⟩
  exact (commitOfferTx_generates_iff (exchange_verified late)).mpr ⟨hspends, hgen, rfl⟩

theorem generated_offer_checked_in_time :
    Checked exchangeEnv (exchangeRest false) acceptedOffer exchange.offer ∧
      HasTerms exchangeEnv acceptedOffer exchange.offer := by
  have hterms : HasTerms exchangeEnv acceptedOffer exchange.offer :=
    offerVerifyGenerateOffer_iff.mp rfl
  have htime : InTime exchangeEnv (exchangeRest false) exchange.offer :=
    ⟨rfl, by decide⟩
  exact ⟨((generated_offer_checked_iff (g := exchangeRest false) rfl
    (exchange_verified false)).mpr (.inl ⟨htime, hterms⟩) _ (exchange_committed false)).1, hterms⟩

/-- The exchange is committed after it has expired, and it is recorded. -/
theorem expired_exchange_recorded :
    (exchangeRest true).altIface exchange.offer = true ∧
    (exchangeRest true).isExpired exchange.offer = true ∧
    ∃ t', commitOfferTx (exchangeEnv.generating (exchangeRest true)) acceptedOffer exchange =
        some (none, t') ∧
      t'.mapOfferGenerate exchange.offer.hashOffer =
        some (exchange.getHash exchangeEnv.hash) := by
  refine ⟨rfl, rfl, _, exchange_committed true, ?_⟩
  exact Function.update_self (f := acceptedOffer.mapOfferGenerate) 7 _

end ShareCoin.Ext
