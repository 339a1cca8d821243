import ShareCoin.Ext.Certificates
import ShareCoin.Proof.Ext.Records

/-!
# What a disconnect takes back

The disconnect routines of the aliases, the contexts and the certificates read the archive in the
order of the transaction hashes and take the last entry of their name for the one that was
registered before. It is that one exactly when no archived transaction of the name has a greater
hash. A removal registers the null hash, which no disconnect matches. The label of a certificate is
taken whenever the certificate comes back, also where it was free.

The archive keeps what was disconnected. So a run of commits is taken back where each name occurs
once in it; the archived entries of the other names are what has to be left alone on the way.
-/

namespace ShareCoin.Ext

open Lib Wire List Option Function
open Server hiding CTransaction

theorem compare_isLE_iff {w : Nat} {a b : BitVec w} : (compare a b).isLE = true ↔ a ≤ b :=
  isLE_compareOfLessAndEq BitVec.le_antisymm BitVec.not_le BitVec.le_total

/-- Every archived transaction of the name has a hash that is at most the registered one. -/
def GreatestRegistered {κ : Type} (t : Archived κ Uint256) (name : κ) : Prop :=
  ∀ h : Uint256, t.arch[h]? = some name → ∃ H, t.cur name = some H ∧ h ≤ H

/-- The transaction is archived under the name, and no other one of the name has a greater hash. -/
def GreatestArchived {κ : Type} (t : Archived κ Uint256) (name : κ) (hash : Uint256) : Prop :=
  t.arch[hash]? = some name ∧ ∀ h : Uint256, t.arch[h]? = some name → h ≤ hash

section Tables

variable {κ : Type} [DecidableEq κ] {t : Archived κ Uint256} {name : κ} {hash : Uint256}

theorem undo_assign_iff :
    ((t.assign name hash).undo name hash).2.cur = t.cur ↔ GreatestRegistered t name := by
  rw [Archived.undo_assign_cur_iff]
  simp only [compare_isLE_iff, GreatestRegistered]

end Tables

/-! ## Aliases -/

variable {tx : CTransaction} {env : RecordEnv}

section Wallets

variable (env : RecordEnv) (w : Wallet) (tx : CTransaction) (nHeight : Int)

def Wallet.setAliases (w : Wallet) (t : Archived (List UInt8) Uint256) : Wallet :=
  { w with mapAlias := t.cur, mapAliasArch := t.arch }

theorem connectAliasTx_eq :
    connectAliasTx env w tx =
      w.setAliases (w.aliases.assign tx.calias.vchLabel (tx.getHash env.hash)) := by
  cases hcur : w.mapAlias tx.calias.vchLabel with
  | none | some o =>
    simp only [connectAliasTx, Wallet.setAliases, Wallet.aliases, Archived.assign, hcur]

theorem removeAliasTx_eq (h : verifyAliasChain w tx = true) :
    (removeAliasTx w tx).2 = w.setAliases (w.aliases.assign tx.calias.vchLabel 0) := by
  unfold verifyAliasChain at h
  cases hcur : w.mapAlias tx.calias.vchLabel with
  | none =>
    rw [hcur] at h
    cases h
  | some curTx =>
    simp only [removeAliasTx, Wallet.setAliases, Wallet.aliases, Archived.assign, hcur]

/-- When the disconnect of an alias transaction takes its commit back. A label that was registered
    needs the registered hash to be the greatest of the label. A removal needs the null hash to have
    been registered, unless it is the hash of the removal itself. A commit that changed nothing
    needs the transaction not to be the registered one, or to be the greatest archived one too. -/
structure AliasTakenBack (env : RecordEnv) (w : Wallet) (tx : CTransaction) (nHeight : Int) :
    Prop where
  assigned : AliasAssigns env w tx nHeight → GreatestRegistered w.aliases tx.calias.vchLabel
  removed : AliasRemoves env w tx →
    if tx.getHash env.hash = 0 then GreatestRegistered w.aliases tx.calias.vchLabel
    else w.mapAlias tx.calias.vchLabel = some 0
  unchanged : ¬ AliasAssigns env w tx nHeight → ¬ AliasRemoves env w tx →
    w.mapAlias tx.calias.vchLabel = some (tx.getHash env.hash) →
      GreatestArchived w.aliases tx.calias.vchLabel (tx.getHash env.hash)

/-- When the disconnect of a context transaction takes its commit back. -/
structure ContextTakenBack (env : RecordEnv) (w : Wallet) (tx : CTransaction) : Prop where
  assigned : ContextAssigns env w tx → GreatestRegistered w.contexts tx.certificate.hashIssuer
  unchanged : ¬ ContextAssigns env w tx →
    w.mapContext tx.certificate.hashIssuer = some (tx.getHash env.hash) →
      GreatestArchived w.contexts tx.certificate.hashIssuer (tx.getHash env.hash)

theorem commitAliasTx_contexts : (commitAliasTx env w tx nHeight).2.contexts = w.contexts := by
  obtain ⟨_, _, heq⟩ | ⟨hr, _, heq⟩ | ⟨_, _, heq⟩ := commitAliasTx_cases env w tx nHeight
  · rw [heq, connectAliasTx_eq]
    rfl
  · rw [heq, removeAliasTx_eq _ _ hr.chain]
    rfl
  · rw [heq]

theorem commitContextTx_aliases : (commitContextTx env w tx).2.aliases = w.aliases := by
  obtain ⟨_, heq⟩ | ⟨_, heq⟩ := commitContextTx_cases env w tx
  · rw [heq]
    rfl
  · rw [heq]

end Wallets

/-! ## Certificates -/

/-- The commit registers the certificate: it is verified, its label is free, and its hash is not
    registered, or to be registered anew. -/
structure CertAssigns (env : CertEnv) (w : CertWallet) (tx : CTransaction) (nHeight : Int)
    (fUpdate : Bool) : Prop where
  verified : verifyCert env tx nHeight = true
  chain : verifyCertChain env w tx = true
  label : w.mapCertLabel tx.certificate.vchLabel = none
  other : w.mapCert (certHash env tx.certificate) ≠ some (tx.getHash env.hash)
  update : fUpdate = true ∨ w.mapCert (certHash env tx.certificate) = none

def CertWallet.register (w : CertWallet) (env : CertEnv) (tx : CTransaction) : CertWallet :=
  let certs := w.certs.assign (certHash env tx.certificate) (tx.getHash env.hash)
  { w with
    mapCert := certs.cur
    mapCertArch := certs.arch
    mapCertLabel := update w.mapCertLabel tx.certificate.vchLabel
      (some (certHash env tx.certificate)) }

section Certificates

variable {env : CertEnv} {w : CertWallet}

theorem CertWallet.register_mapCert (w : CertWallet) (env : CertEnv) (tx : CTransaction) :
    (w.register env tx).mapCert (certHash env tx.certificate) = some (tx.getHash env.hash) :=
  update_self ..

/-- What `InsertCertTable` does to the wallet. Without an update, the new transaction is the one
    that is archived. -/
theorem insertCertTable_cases (env : CertEnv) (w : CertWallet) (tx : CTransaction) (nHeight : Int)
    (fUpdate : Bool) :
    (CertAssigns env w tx nHeight fUpdate ∧
      (insertCertTable env w tx nHeight fUpdate).2 = w.register env tx) ∨
    (¬ CertAssigns env w tx nHeight fUpdate ∧
      w.mapCert (certHash env tx.certificate) ≠ some (tx.getHash env.hash) ∧
      (insertCertTable env w tx nHeight fUpdate).2 = { w with
        mapCertArch :=
          w.mapCertArch.insert (tx.getHash env.hash) (certHash env tx.certificate) }) ∨
    (¬ CertAssigns env w tx nHeight fUpdate ∧
      (insertCertTable env w tx nHeight fUpdate).2 = w) := by
  unfold insertCertTable
  by_cases hv : verifyCert env tx nHeight = true
  swap
  · exact .inr (.inr ⟨fun h => hv h.verified, by simp only [hv, Bool.not_false, if_true]⟩)
  by_cases hc : verifyCertChain env w tx = true
  swap
  · exact .inr (.inr ⟨fun h => hc h.chain, by simp [hv, hc]⟩)
  simp only [hv, hc, Bool.not_true, Bool.false_eq_true, if_false]
  cases hl : w.mapCertLabel tx.certificate.vchLabel with
  | some k =>
    refine .inr (.inr ⟨fun h => ?_, rfl⟩)
    cases hl.symm.trans h.label
  | none =>
    simp only [isSome_none, Bool.false_eq_true, if_false]
    cases hcur : w.mapCert (certHash env tx.certificate) with
    | none =>
      refine .inl ⟨⟨hv, hc, hl, by simp [hcur], .inr hcur⟩, ?_⟩
      simp only [CertWallet.register, CertWallet.certs, Archived.assign, hcur]
    | some o =>
      by_cases ho : o = tx.getHash env.hash
      · refine .inr (.inr ⟨fun h => h.other (hcur.trans (congrArg some ho)), ?_⟩)
        simp only [ho, if_true]
      have hother : w.mapCert (certHash env tx.certificate) ≠ some (tx.getHash env.hash) := by
        rw [hcur]
        exact fun h => ho (some.inj h)
      simp only [ho, if_false]
      cases fUpdate with
      | true =>
        refine .inl ⟨⟨hv, hc, hl, hother, .inl rfl⟩, ?_⟩
        simp only [CertWallet.register, CertWallet.certs, Archived.assign, hcur, Bool.not_true,
          Bool.false_eq_true, if_false]
      | false =>
        refine .inr (.inl ⟨fun h => ?_, hcur ▸ hother, rfl⟩)
        rcases h.update with h | h
        · cases h
        · cases hcur.symm.trans h

theorem disconnectCertificate_of_ne
    (h : w.mapCert (certHash env tx.certificate) ≠ some (tx.getHash env.hash)) :
    (disconnectCertificate env w tx).2 = w := by
  have hundo := Archived.undo_of_ne (a := w.certs) h
  have hok : (w.certs.undo (certHash env tx.certificate) (tx.getHash env.hash)).1 = false := by
    rw [Archived.undo_fst]
    exact decide_eq_false h
  simp only [disconnectCertificate, hundo, hok, Bool.false_eq_true, if_false]
  rfl

theorem disconnectCertificate_of_eq
    (h : w.mapCert (certHash env tx.certificate) = some (tx.getHash env.hash)) :
    (disconnectCertificate env w tx).2.mapCert = update w.mapCert
        (certHash env tx.certificate) (lastFor w.mapCertArch (certHash env tx.certificate)) ∧
      (disconnectCertificate env w tx).2.mapCertLabel = update w.mapCertLabel
        tx.certificate.vchLabel ((lastFor w.mapCertArch (certHash env tx.certificate)).map
          fun _ => certHash env tx.certificate) := by
  have hcur := Archived.undo_cur_of_eq (a := w.certs) h
  have hok : (w.certs.undo (certHash env tx.certificate) (tx.getHash env.hash)).1 = true := by
    rw [Archived.undo_fst]
    exact decide_eq_true h
  refine ⟨hcur, ?_⟩
  simp only [disconnectCertificate, hok, if_true, hcur, update_self]
  rfl

/-- When the disconnect of a certificate takes its commit back. The hash of a certificate that was
    registered must have been free and not archived: the label, which was free, is taken if an
    earlier transaction of the hash comes back. -/
structure CertTakenBack (env : CertEnv) (w : CertWallet) (tx : CTransaction) (nHeight : Int)
    (fUpdate : Bool) : Prop where
  assigned : CertAssigns env w tx nHeight fUpdate →
    w.mapCert (certHash env tx.certificate) = none ∧
      ∀ h : Uint256, w.mapCertArch[h]? ≠ some (certHash env tx.certificate)
  unchanged : ¬ CertAssigns env w tx nHeight fUpdate →
    w.mapCert (certHash env tx.certificate) = some (tx.getHash env.hash) →
      GreatestArchived w.certs (certHash env tx.certificate) (tx.getHash env.hash) ∧
        w.mapCertLabel tx.certificate.vchLabel = some (certHash env tx.certificate)

end Certificates

/-! ## The three kinds -/

/-- When the disconnect takes the commit back. -/
def TakenBack (w : CertWallet) : RecordCommit → Prop
  | .calias env tx nHeight => AliasTakenBack env w.toWallet tx nHeight
  | .context env tx => ContextTakenBack env w.toWallet tx
  | .cert env tx nHeight fUpdate => CertTakenBack env w tx nHeight fUpdate

theorem insertCertTable_toWallet (env : CertEnv) (w : CertWallet) (tx : CTransaction)
    (nHeight : Int) (fUpdate : Bool) :
    (insertCertTable env w tx nHeight fUpdate).2.toWallet = w.toWallet := by
  obtain ⟨_, heq⟩ | ⟨_, _, heq⟩ | ⟨_, heq⟩ := insertCertTable_cases env w tx nHeight fUpdate
  · rw [heq]
    rfl
  · rw [heq]
  · rw [heq]

/-- What a run asks of a commit, besides being taken back: the transaction is new to the table and
    removes no alias, and neither its hash nor the one it replaces is archived under another
    name. -/
def Separate (w : CertWallet) : RecordCommit → Prop
  | .calias env tx _ =>
    w.mapAlias tx.calias.vchLabel ≠ some (tx.getHash env.hash) ∧ ¬ AliasRemoves env w.toWallet tx ∧
      w.aliases.Owns tx.calias.vchLabel (tx.getHash env.hash)
  | .context env tx =>
    w.mapContext tx.certificate.hashIssuer ≠ some (tx.getHash env.hash) ∧
      w.contexts.Owns tx.certificate.hashIssuer (tx.getHash env.hash)
  | .cert env tx _ _ =>
    w.mapCert (certHash env tx.certificate) ≠ some (tx.getHash env.hash) ∧
      w.certs.Owns (certHash env tx.certificate) (tx.getHash env.hash)

/-- The same entries, and the same archived transactions of the names `ks`. -/
structure Agree (ks : Set RecordName) (w w' : CertWallet) : Prop where
  aliases : Archived.SameFor (Set.preimage .calias ks) w.aliases w'.aliases
  contexts : Archived.SameFor (Set.preimage .context ks) w.contexts w'.contexts
  certs : Archived.SameFor (Set.preimage .cert ks) w.certs w'.certs
  mapCertLabel : w.mapCertLabel = w'.mapCertLabel

theorem Agree.refl (ks : Set RecordName) (w : CertWallet) : Agree ks w w :=
  ⟨.refl _ _, .refl _ _, .refl _ _, rfl⟩

theorem preimage_subset_insert {κ : Type} (f : κ → RecordName) (n : RecordName)
    (ks : Set RecordName) : Set.preimage f ks ⊆ Set.preimage f (insert n ks) :=
  Set.preimage_mono (Set.subset_insert n ks)

theorem insert_preimage_subset {κ : Type} (f : κ → RecordName) (k : κ) (ks : Set RecordName) :
    insert k (Set.preimage f ks) ⊆ Set.preimage f (insert (f k) ks) :=
  Set.insert_subset (Set.mem_insert ..) (preimage_subset_insert f (f k) ks)

variable {ks : Set RecordName} {t w : CertWallet}

theorem Agree.disconnectAlias {nHeight : Int}
    (h : Agree (insert (.calias tx.calias.vchLabel) ks) t
      (commitRecord w (.calias env tx nHeight)))
    (hback : AliasTakenBack env w.toWallet tx nHeight)
    (hsep : Separate w (.calias env tx nHeight)) (hks : .calias tx.calias.vchLabel ∉ ks) :
    Agree ks (disconnectRecord t (.calias env tx nHeight)) w := by
  obtain ⟨hnew, hrem, hown⟩ := hsep
  refine ⟨?_, ?_, h.certs.mono (preimage_subset_insert ..), h.mapCertLabel⟩
  · have haliases := h.aliases
    change Archived.SameFor _ _ (commitAliasTx env w.toWallet tx nHeight).2.aliases at haliases
    obtain ⟨ha, _, heq⟩ | ⟨hr, _⟩ | ⟨_, _, heq⟩ := commitAliasTx_cases env w.toWallet tx nHeight
    · rw [heq, connectAliasTx_eq] at haliases
      exact (haliases.mono (insert_preimage_subset ..)).undo_assign
        (undo_assign_iff.mpr (hback.assigned ha)) hown hks
    · exact absurd hr hrem
    · rw [heq] at haliases
      exact (haliases.mono (preimage_subset_insert ..)).undo_of_ne hnew
  · have hcontexts := h.contexts.mono (preimage_subset_insert ..)
    exact commitAliasTx_contexts env w.toWallet tx nHeight ▸ hcontexts

theorem Agree.disconnectContext (h : Agree (insert (.context tx.certificate.hashIssuer) ks) t
      (commitRecord w (.context env tx))) (hback : ContextTakenBack env w.toWallet tx)
    (hsep : Separate w (.context env tx)) (hks : .context tx.certificate.hashIssuer ∉ ks) :
    Agree ks (disconnectRecord t (.context env tx)) w := by
  obtain ⟨hnew, hown⟩ := hsep
  refine ⟨?_, ?_, h.certs.mono (preimage_subset_insert ..), h.mapCertLabel⟩
  · have haliases := h.aliases.mono (preimage_subset_insert ..)
    exact commitContextTx_aliases env w.toWallet tx ▸ haliases
  · have hcontexts := h.contexts
    change Archived.SameFor _ _ (commitContextTx env w.toWallet tx).2.contexts at hcontexts
    obtain ⟨ha, heq⟩ | ⟨_, heq⟩ := commitContextTx_cases env w.toWallet tx
    · rw [heq] at hcontexts
      exact (hcontexts.mono (insert_preimage_subset ..)).undo_assign
        (undo_assign_iff.mpr (hback.assigned ha)) hown hks
    · rw [heq] at hcontexts
      exact (hcontexts.mono (preimage_subset_insert ..)).undo_of_ne hnew

theorem Agree.disconnectCert {env : CertEnv} {nHeight : Int} {fUpdate : Bool}
    (h : Agree (insert (.cert (certHash env tx.certificate)) ks) t
      (commitRecord w (.cert env tx nHeight fUpdate)))
    (hback : CertTakenBack env w tx nHeight fUpdate)
    (hsep : Separate w (.cert env tx nHeight fUpdate))
    (hks : .cert (certHash env tx.certificate) ∉ ks) :
    Agree ks (disconnectRecord t (.cert env tx nHeight fUpdate)) w := by
  obtain ⟨hnew, hown⟩ := hsep
  have hwallet := insertCertTable_toWallet env w tx nHeight fUpdate
  have haliases : Archived.SameFor (Set.preimage .calias ks) t.aliases w.aliases :=
    congrArg Wallet.aliases hwallet ▸ h.aliases.mono (preimage_subset_insert ..)
  have hcontexts : Archived.SameFor (Set.preimage .context ks) t.contexts w.contexts :=
    congrArg Wallet.contexts hwallet ▸ h.contexts.mono (preimage_subset_insert ..)
  have hcerts := h.certs
  have hlabels := h.mapCertLabel
  have hother (hcur : t.mapCert = w.mapCert) :
      disconnectRecord t (.cert env tx nHeight fUpdate) = t :=
    disconnectCertificate_of_ne (hcur ▸ hnew)
  simp only [commitRecord] at hcerts hlabels
  obtain ⟨ha, heq⟩ | ⟨ha, _, heq⟩ | ⟨_, heq⟩ := insertCertTable_cases env w tx nHeight fUpdate
  · rw [heq] at hcerts hlabels
    obtain ⟨hfree, hnone⟩ := hback.assigned ha
    have hreg : t.certs.cur (certHash env tx.certificate) = some (tx.getHash env.hash) := by
      rw [hcerts.cur]
      exact w.register_mapCert env tx
    have hundone : Archived.SameFor (Set.preimage .cert ks) (t.certs.undo
        (certHash env tx.certificate) (tx.getHash env.hash)).2 w.certs :=
      (hcerts.mono (insert_preimage_subset ..)).undo_assign
        (undo_assign_iff.mpr fun h hh => absurd hh (hnone h)) hown hks
    have hlast : lastFor t.mapCertArch (certHash env tx.certificate) = none := by
      have hcur := congrFun hundone.cur (certHash env tx.certificate)
      rw [Archived.undo_cur_of_eq hreg, update_self] at hcur
      exact hcur.trans hfree
    refine ⟨haliases, hcontexts, hundone, ?_⟩
    rw [disconnectRecord, (disconnectCertificate_of_eq hreg).2, hlast, hlabels,
      CertWallet.register, map_none, update_idem, update_eq_self_iff]
    exact ha.label.symm
  · rw [heq] at hcerts hlabels
    rw [hother hcerts.cur]
    refine ⟨haliases, hcontexts, ⟨hcerts.cur, fun k hk h => ?_⟩, hlabels⟩
    have hne : k ≠ certHash env tx.certificate := fun heq => hks (heq ▸ hk)
    exact (hcerts.arch k (preimage_subset_insert _ _ _ hk) h).trans
      (Archived.insert_arch_iff hne (fun hold => hne (hown _ (.inl rfl) k hold)) h)
  · rw [heq] at hcerts hlabels
    rw [hother hcerts.cur]
    exact ⟨haliases, hcontexts, hcerts.mono (preimage_subset_insert ..), hlabels⟩

theorem Agree.disconnect {c : RecordCommit} (h : Agree (insert c.name ks) t (commitRecord w c))
    (hback : TakenBack w c) (hsep : Separate w c) (hks : c.name ∉ ks) :
    Agree ks (disconnectRecord t c) w := by
  cases c with
  | calias env tx nHeight => exact h.disconnectAlias hback hsep hks
  | context env tx => exact h.disconnectContext hback hsep hks
  | cert env tx nHeight fUpdate => exact h.disconnectCert hback hsep hks

/-- The run of the commits, and the disconnects from the last to the first. -/
def disconnectAll (w : CertWallet) (cs : List RecordCommit) : CertWallet :=
  cs.foldr (fun c w => disconnectRecord w c) (cs.foldl commitRecord w)

def activate (n : Nat) : RecordCommit := .calias oneActivation (activation n) 1

end ShareCoin.Ext
