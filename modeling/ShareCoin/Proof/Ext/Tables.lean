import ShareCoin.Ext.Tables
import ShareCoin.Lib.Writes
import ShareCoin.Proof.Ext.AltChain
import ShareCoin.Proof.Ext.Execs

/-!
# What a block leaves in the extension tables

A block is connected and then disconnected. What is left of it is worked out table by table.

* `mapIdent` and `mapExecLabel` are written over and never taken back: the last write to a key has
  to be what the key had (`writeAll_eq_iff`).
* `mapLicense` is filled and never taken back (`fillAll_eq_iff`).
* `mapExec` is erased, at every class and call of the block, whatever was there before.
* `mapColor` and `mapColorPool`: a block of a color that follows the best one replaces it. The chain
  of a color has no cycle, so it does not come back to the best block it had. A block that does not
  follow still makes the wallet forget the tip in the pool.

`tables_survive_iff` puts the six tables together.
-/

namespace ShareCoin.Ext

open Lib Wire
open Server hiding CTransaction
open Relation (TransGen)
open List Option Function

variable {base : RecordEnv} {x : ExtTx base} {vtx : List (ExtTx base)} {tx : CTransaction}
  {env : ClassEnv} {mode : UInt8} {alt : CAltChain} {fuel : Nat}

/-! ## The hash functions -/

theorem ExtTx.getHash_connecting (x : ExtTx base) :
    x.tx.getHash x.connecting.hash = x.tx.getHash base.hash := by
  rw [x.sameHash.1]

section

variable (x : ExtTx base) (record : List UInt8)

theorem ExtTx.recordHash_connecting :
    recordHash x.connecting.toRecordEnv record = recordHash base record := by
  simp only [recordHash, x.sameHash.1, x.sameHash160.1]

theorem ExtTx.recordHash_disconnecting :
    recordHash x.disconnecting.toRecordEnv record = recordHash base record := by
  simp only [recordHash, x.sameHash.2, x.sameHash160.2]

/-! ## Identities and licenses -/

/-- The transaction gets to the branches for identities and licenses. -/
def reachesIdent : Bool :=
  ! isFlag x.tx txfAsset && ! isFlag x.tx txfCertificate && ! isFlag x.tx txfContext

/-- The identity that the transaction stamps, with its own hash. -/
def stamp : Option (Uint160 × Uint256) :=
  if reachesIdent x && isFlag x.tx txfIdent &&
    verifyIdent x.connecting.toRecordEnv x.tx == some opExtNew then
    some (identHash base x.tx.certificate.toCIdent, x.tx.getHash base.hash)
  else none

/-- The license that the transaction grants, with its own hash, if it is none that is there. -/
def license : Option (Uint160 × Uint256) :=
  if reachesIdent x && ! isFlag x.tx txfIdent && isFlag x.tx txfLicense &&
    licenseVerified x.connecting.toLicenseEnv x.connecting.wallet x.tx then
    some (recordHash base (CCert.codec.put x.tx.certificate), x.tx.getHash base.hash)
  else none

end

theorem insertIdentTable_eq (env : RecordEnv) (m : Uint160 → Option Uint256) (tx : CTransaction) :
    (insertIdentTable env m tx).2 =
      if verifyIdent env tx = some opExtNew then
        update m (identHash env tx.certificate.toCIdent) (some (tx.getHash env.hash))
      else m := by
  unfold insertIdentTable
  cases verifyIdent env tx with
  | none => rfl
  | some mode =>
    by_cases hmode : mode = opExtNew
    · simp [hmode]
    · simp [hmode]

section

variable (w : ExtTables) (x : ExtTx base)

theorem connectIdent_eq :
    connectIdent w x =
      if reachesIdent x then
        if isFlag x.tx txfIdent then
          { w with mapIdent := (insertIdentTable x.connecting.toRecordEnv w.mapIdent x.tx).2 }
        else if isFlag x.tx txfLicense then
          { w with mapLicense := (commitLicenseTx x.connecting.toLicenseEnv x.connecting.wallet
              w.mapLicense x.tx).2 }
        else w
      else w := by
  unfold connectIdent reachesIdent
  split_ifs <;> simp_all

theorem connectIdent_mapIdent :
    (connectIdent w x).mapIdent = writeAll w.mapIdent (stamp x).toList := by
  have hhash : identHash x.connecting.toRecordEnv x.tx.certificate.toCIdent =
      identHash base x.tx.certificate.toCIdent := x.recordHash_connecting _
  rw [connectIdent_eq, stamp]
  by_cases hreach : reachesIdent x
  · by_cases hident : isFlag x.tx txfIdent
    · simp only [hreach, hident, if_true, insertIdentTable_eq, hhash, x.getHash_connecting,
        Bool.and_self, Bool.true_and, beq_iff_eq]
      split_ifs <;> rfl
    · simp only [hreach, hident, Bool.false_eq_true, if_false, if_true, Bool.and_false,
        Bool.false_and]
      split_ifs <;> rfl
  · simp [hreach, writeAll]

theorem connectIdent_mapLicense :
    (connectIdent w x).mapLicense = fillAll w.mapLicense (license x).toList := by
  have hhash : certHash x.connecting.toCertEnv x.tx.certificate =
      recordHash base (CCert.codec.put x.tx.certificate) := x.recordHash_connecting _
  rw [connectIdent_eq, license]
  by_cases hreach : reachesIdent x
  · by_cases hident : isFlag x.tx txfIdent
    · simp [hreach, hident, fillAll]
    by_cases hlicense : isFlag x.tx txfLicense
    · simp only [hreach, hident, hlicense, if_true, commitLicenseTx, hhash, x.getHash_connecting]
      cases licenseVerified x.connecting.toLicenseEnv x.connecting.wallet x.tx with
      | false => rfl
      | true =>
        simp only [Bool.not_true, Bool.false_eq_true, if_false, Bool.not_false, Bool.and_self,
          if_true, toList_some, fillAll, foldl_cons, foldl_nil]
        split_ifs <;> rfl
    · simp [hreach, hident, hlicense, fillAll]
  · simp [hreach, fillAll]

theorem connectIdent_rest :
    (connectIdent w x).classes = w.classes ∧ (connectIdent w x).colors = w.colors := by
  unfold connectIdent
  split_ifs <;> exact ⟨rfl, rfl⟩

end

/-! ## Classes -/

theorem verifyExec_mode (h : verifyExec env tx = some mode) : isExecTx tx = some mode := by
  unfold verifyExec at h
  cases hexec : isExecTx tx with
  | none =>
    rw [hexec] at h
    cases h
  | some mode' =>
    simp only [hexec] at h
    split_ifs at h with hmodes
    cases hout : execOutput tx with
    | none =>
      rw [hout] at h
      cases h
    | some out =>
      obtain ⟨out, modeOut, hashExec⟩ := out
      have heq : modeOut = mode := by
        simp only [hout] at h
        split_ifs at h <;> exact some.inj h
      -- the output is among those that decode, and there is one only
      obtain ⟨nOut, -, hget⟩ := bind_eq_some_iff.mp hout
      obtain ⟨o, hmem, hget⟩ := bind_eq_some_iff.mp hget
      obtain ⟨decoded, hdecode, heqs⟩ := bind_eq_some_iff.mp hget
      have hsame : decoded = (modeOut, hashExec) := (Prod.mk.inj (some.inj heqs)).2
      rw [hsame] at hdecode
      have hin : (modeOut, hashExec) ∈ tx.vout.filterMap fun out =>
          decodeExecHash out.scriptPubKey :=
        mem_filterMap.mpr ⟨o, mem_of_getElem? hmem, hdecode⟩
      unfold isExecTx at hexec
      split_ifs at hexec
      split at hexec
      · rename_i m' hash' hone
        rw [hone, mem_singleton] at hin
        obtain ⟨rfl, -⟩ := Prod.mk.inj hin
        rw [← heq, ← some.inj hexec]
      · cases hexec

def publishes (env : ClassEnv) (nHeight : Int) (t : ExecTables) (tx : CTransaction) :
    Option (List UInt8 × Uint160) :=
  if verifyExec env tx = some opExtNew ∧ newExecError env t nHeight tx = none then
    some (tx.exec.vchLabel, execHash env.toRecordEnv tx.exec)
  else none

/-- What `ProcessExecTx` does to the tables of the classes: it writes to `mapExec` at most at the
    hash of the record, and sets the label of a class that it publishes. -/
structure Processed (env : ClassEnv) (nHeight : Int) (tx : CTransaction) (t t' : ClassTables) :
    Prop where
  mapExec : ∀ k, k ≠ execHash env.toRecordEnv tx.exec → t'.mapExec k = t.mapExec k
  mapExecLabel : t'.mapExecLabel =
    writeAll t.mapExecLabel (publishes env nHeight t.toExecTables tx).toList

section Process

variable {nHeight : Int} {t t' : ClassTables} {err : Option ExecError}

theorem Processed.unchanged (h : publishes env nHeight t.toExecTables tx = none) :
    Processed env nHeight tx t t where
  mapExec _ _ := rfl
  mapExecLabel := by
    rw [h]
    rfl

theorem processNewExec_processed (hnew : verifyExec env tx = some opExtNew) :
    Processed env nHeight tx t (processNewExec env t nHeight tx).2 := by
  unfold processNewExec
  cases herr : newExecError env t.toExecTables nHeight tx with
  | some err => exact .unchanged (if_neg (by simp [herr]))
  | none =>
    have hpub : publishes env nHeight t.toExecTables tx =
        some (tx.exec.vchLabel, execHash env.toRecordEnv tx.exec) := if_pos ⟨hnew, herr⟩
    have hinsert : Processed env nHeight tx t (insertExecTable env t tx) := by
      rw [insertExecTable, if_pos (verifyExec_mode hnew)]
      refine ⟨fun k hk => update_of_ne hk _ _, ?_⟩
      rw [hpub]
      rfl
    dsimp only
    split_ifs
    · exact ⟨hinsert.mapExec, hinsert.mapExecLabel⟩
    · exact hinsert

theorem processCheckpoint_frame (h : processCheckpoint env t tx = some t') :
    t'.toExecTables = t.toExecTables ∧ t'.mapExecLabel = t.mapExecLabel := by
  obtain ⟨newer, -, rfl⟩ := map_eq_some_iff.mp h
  split_ifs
  · unfold execSaveCheckpoint
    split
    · exact ⟨rfl, rfl⟩
    · split_ifs <;> exact ⟨rfl, rfl⟩
  · exact ⟨rfl, rfl⟩

theorem processGenerate_frame (h : processGenerate env t tx = some (err, t')) :
    (∀ k, k ≠ execHash env.toRecordEnv tx.exec → t'.mapExec k = t.mapExec k) ∧
      t'.mapExecLabel = t.mapExecLabel := by
  -- a call is written to `mapExec` at its own hash, whichever list it goes to
  have hinsert (f : CExecCore → ExecTables)
      (hf : ∀ call, (f call).mapExec = update t.mapExec (execHash env.toRecordEnv call)
        (some (tx.getHash env.hash)))
      (h : ((getExecCall tx).map f).map (fun calls => (none, { t with toExecTables := calls })) =
        some (err, t')) :
      (∀ k, k ≠ execHash env.toRecordEnv tx.exec → t'.mapExec k = t.mapExec k) ∧
        t'.mapExecLabel = t.mapExecLabel := by
    obtain ⟨calls, hcalls, heq⟩ := map_eq_some_iff.mp h
    obtain ⟨call, hcall, rfl⟩ := map_eq_some_iff.mp hcalls
    cases (ite_none_right_eq_some.mp hcall).2
    cases heq
    exact ⟨fun k hk => (congrFun (hf _) k).trans (update_of_ne hk _ _), rfl⟩
  unfold processGenerate at h
  split at h
  · cases h
    exact ⟨fun _ _ => rfl, rfl⟩
  · dsimp only at h
    split_ifs at h
    any_goals exact hinsert _ (fun _ => rfl) h
    all_goals
      cases h
      exact ⟨fun _ _ => rfl, rfl⟩

theorem publishes_of_ne (h : verifyExec env tx ≠ some opExtNew) (t : ExecTables) :
    publishes env nHeight t tx = none :=
  if_neg fun hpub => h hpub.1

theorem publishes_of_mode (h : isExecTx tx ≠ some opExtNew) (t : ExecTables) :
    publishes env nHeight t tx = none :=
  publishes_of_ne (fun hnew => h (verifyExec_mode hnew)) t

/-- **The one lemma on `ProcessExecTx`.** Only a class or a call is written to `mapExec`. -/
theorem processExecTx_processed (h : processExecTx env t nHeight tx = some (err, t')) :
    Processed env nHeight tx t t' ∧
      (isExecTx tx ≠ some opExtNew → isExecTx tx ≠ some opExtGenerate →
        t'.mapExec = t.mapExec) := by
  unfold processExecTx at h
  cases hverify : verifyExec env tx with
  | none =>
    rw [hverify] at h
    cases h
    exact ⟨.unchanged (publishes_of_ne (by simp [hverify]) _), fun _ _ => rfl⟩
  | some mode =>
    simp only [hverify] at h
    split_ifs at h with hnew hupdate hgenerate
    · have hverify' : verifyExec env tx = some opExtNew := hnew ▸ hverify
      have heq := some.inj h
      rw [← show (processNewExec env t nHeight tx).2 = t' from congrArg Prod.snd heq]
      exact ⟨processNewExec_processed hverify', fun hne => absurd (verifyExec_mode hverify') hne⟩
    · obtain ⟨s, hs, heq⟩ := map_eq_some_iff.mp h
      cases heq
      obtain ⟨hcalls, hlabel⟩ := processCheckpoint_frame hs
      refine ⟨⟨fun k _ => by rw [hcalls], ?_⟩, fun _ _ => by rw [hcalls]⟩
      rw [hlabel, publishes_of_ne (by simpa [hverify] using hnew)]
      rfl
    · obtain ⟨hexec, hlabel⟩ := processGenerate_frame h
      refine ⟨⟨hexec, ?_⟩, fun _ hne => absurd (verifyExec_mode (hgenerate ▸ hverify)) hne⟩
      rw [hlabel, publishes_of_ne (by simpa [hverify] using hnew)]
      rfl
    · cases h
      exact ⟨.unchanged (publishes_of_ne (by simpa [hverify] using hnew) _), fun _ _ => rfl⟩

end Process

/-! ## The classes of a block -/

/-- The key of `mapExec` that a class or a call has. -/
def execKey (x : ExtTx base) : Option Uint160 :=
  match isExecTx x.tx with
  | none => none
  | some mode =>
    if mode = opExtNew ∨ mode = opExtGenerate then some (execHash base x.tx.exec) else none

def publishesIn (nHeight : Int) (w : ExtTables) (x : ExtTx base) : Option (List UInt8 × Uint160) :=
  publishes x.connecting.toClassEnv nHeight w.classes.toExecTables x.tx

theorem connectCheckpoint_frame {nHeight : Int} {t t' : ClassTables}
    (h : connectExec (fun mode => mode == opExtUpdate) nHeight t x = some t') :
    t'.mapExec = t.mapExec ∧ t'.mapExecLabel = t.mapExecLabel := by
  unfold connectExec at h
  cases hexec : isExecTx x.tx with
  | none =>
    rw [hexec] at h
    cases h
    exact ⟨rfl, rfl⟩
  | some mode =>
    simp only [hexec, beq_iff_eq] at h
    split_ifs at h with hmode
    · obtain ⟨⟨err, s⟩, hs, rfl⟩ := map_eq_some_iff.mp h
      obtain ⟨hproc, hsame⟩ := processExecTx_processed hs
      rw [hmode] at hexec
      have hnew : isExecTx x.tx ≠ some opExtNew := by
        rw [hexec]
        decide
      refine ⟨hsame hnew (by rw [hexec]; decide), ?_⟩
      rw [hproc.mapExecLabel, publishes_of_mode hnew]
      rfl
    · cases h
      exact ⟨rfl, rfl⟩

theorem connectExec_frame {nHeight : Int} {w : ExtTables} {t' : ClassTables}
    (h : connectExec (fun mode => mode != opExtUpdate) nHeight w.classes x = some t') :
    (∀ k, execKey x ≠ some k → t'.mapExec k = w.classes.mapExec k) ∧
      t'.mapExecLabel = writeAll w.classes.mapExecLabel (publishesIn nHeight w x).toList := by
  unfold connectExec at h
  unfold execKey publishesIn
  cases hexec : isExecTx x.tx with
  | none =>
    rw [hexec] at h
    cases h
    rw [publishes_of_mode (by simp [hexec])]
    exact ⟨fun _ _ => rfl, rfl⟩
  | some mode =>
    simp only [hexec, bne_iff_ne] at h
    split_ifs at h with hmode
    · obtain ⟨⟨err, s⟩, hs, rfl⟩ := map_eq_some_iff.mp h
      obtain ⟨hproc, hsame⟩ := processExecTx_processed hs
      refine ⟨fun k hk => ?_, hproc.mapExecLabel⟩
      by_cases hkey : mode = opExtNew ∨ mode = opExtGenerate
      · dsimp only at hk
        rw [if_pos hkey] at hk
        refine hproc.mapExec k fun heq => hk ?_
        rw [heq]
        exact congrArg some (x.recordHash_connecting _).symm
      · -- neither a class nor a call nor, in this pass, a checkpoint
        obtain ⟨hnew, hgenerate⟩ := not_or.mp hkey
        exact congrFun (hsame (by simpa [hexec] using hnew) (by simpa [hexec] using hgenerate)) k
    · cases h
      rw [publishes_of_mode (by rw [hexec, not_not.mp hmode]; decide)]
      exact ⟨fun _ _ => rfl, rfl⟩

/-! ## Disconnecting -/

theorem revertCalls_mapExec {t t' : ExecTables} {call : CExecCore}
    (h : revertCalls env t call = some t') : t'.mapExec = t.mapExec := by
  unfold revertCalls at h
  split_ifs at h
  · split at h
    · cases h
      exact resetExecChain_mapExec _ _ _
    · rename_i exec _
      obtain ⟨⟨ok, s⟩, hs, rfl⟩ := map_eq_some_iff.mp h
      have hrestore : s.mapExec = t.mapExec := by
        unfold execRestoreCheckpoint at hs
        split at hs
        · cases hs
          rfl
        · obtain ⟨calls, -, heq⟩ := map_eq_some_iff.mp hs
          cases heq
          rfl
      dsimp only
      split_ifs
      · exact hrestore
      · exact (resetExecChain_mapExec _ _ _).trans hrestore
  · cases h
    rfl

theorem disconnectExecTx_frame {t t' : ClassTables} (h : disconnectExecTx env t tx mode = some t') :
    t'.mapExecLabel = t.mapExecLabel ∧
      t'.mapExec = if mode = opExtNew ∨ mode = opExtGenerate then
        update t.mapExec (execHash env.toRecordEnv tx.exec) none
      else t.mapExec := by
  unfold disconnectExecTx at h
  by_cases hnew : mode = opExtNew
  · rw [if_pos hnew] at h
    cases h
    rw [if_pos (.inl hnew)]
    exact ⟨rfl, rfl⟩
  by_cases hupdate : mode = opExtUpdate
  · have hother : ¬ (mode = opExtNew ∨ mode = opExtGenerate) := by
      rw [hupdate]
      decide
    rw [if_neg hnew, if_pos hupdate] at h
    rw [if_neg hother, ← some.inj h]
    split_ifs <;> exact ⟨rfl, rfl⟩
  by_cases hgenerate : mode = opExtGenerate
  · rw [if_neg hnew, if_neg hupdate, if_pos hgenerate] at h
    obtain ⟨calls, hcalls, rfl⟩ := map_eq_some_iff.mp h
    rw [if_pos (.inr hgenerate), ← revertCalls_mapExec hcalls]
    exact ⟨rfl, rfl⟩
  · rw [if_neg hnew, if_neg hupdate, if_neg hgenerate] at h
    cases h
    rw [if_neg (not_or.mpr ⟨hnew, hgenerate⟩)]
    exact ⟨rfl, rfl⟩

/-- What `core_DisconnectInputs` does to the tables: it erases the key of a class or a call, and
    leaves the five other tables alone. -/
structure Disconnected (keys : List Uint160) (w w' : ExtTables) : Prop where
  mapIdent : w'.mapIdent = w.mapIdent
  mapLicense : w'.mapLicense = w.mapLicense
  colors : w'.colors = w.colors
  mapExecLabel : w'.classes.mapExecLabel = w.classes.mapExecLabel
  mapExec : ∀ k, w'.classes.mapExec k = if k ∈ keys then none else w.classes.mapExec k

theorem disconnectTables_disconnected {w w' : ExtTables} (h : disconnectTables w x = some w') :
    Disconnected (execKey x).toList w w' := by
  unfold disconnectTables at h
  cases hexec : isExecTx x.tx with
  | none =>
    rw [hexec] at h
    cases h
    have hkey : execKey x = none := by rw [execKey, hexec]
    rw [hkey]
    exact ⟨rfl, rfl, rfl, rfl, fun k => (if_neg not_mem_nil).symm⟩
  | some mode =>
    simp only [hexec] at h
    obtain ⟨classes, hclasses, rfl⟩ := map_eq_some_iff.mp h
    obtain ⟨hlabel, hmap⟩ := disconnectExecTx_frame hclasses
    refine ⟨rfl, rfl, rfl, hlabel, fun k => ?_⟩
    change classes.mapExec k = _
    rw [hmap, execKey, hexec, execHash, x.recordHash_disconnecting]
    by_cases hkey : mode = opExtNew ∨ mode = opExtGenerate
    · simp only [if_pos hkey, toList_some, mem_singleton, update_apply]
      rfl
    · simp only [if_neg hkey, toList_none, not_mem_nil, if_false]

theorem exec_disconnected {w w' : ExtTables} (h : exec disconnectTables w vtx = some w') :
    Disconnected (vtx.filterMap execKey) w w' := by
  induction vtx generalizing w with
  | nil =>
    cases h
    exact ⟨rfl, rfl, rfl, rfl, fun k => (if_neg not_mem_nil).symm⟩
  | cons x vtx ih =>
    obtain ⟨w₁, h₁, h₂⟩ := exec_cons_eq_some.mp h
    have hx := disconnectTables_disconnected h₁
    have hrest := ih h₂
    refine ⟨hrest.mapIdent.trans hx.mapIdent, hrest.mapLicense.trans hx.mapLicense,
      hrest.colors.trans hx.colors, hrest.mapExecLabel.trans hx.mapExecLabel, fun k => ?_⟩
    rw [hrest.mapExec, hx.mapExec]
    cases hkey : execKey x with
    | none => simp [hkey]
    | some key =>
      simp only [toList_some, filterMap_cons_some hkey, mem_cons]
      by_cases hk : k = key
      · simp [hk]
      · simp [hk]

/-! ## Colors -/

def colorBlock (x : ExtTx base) : Option CAltChain :=
  if isFlag x.tx txfAltChain && isAltChainTx x.tx then
    match verifyAltChain x.connecting.toRecordEnv x.tx with
    | none => none
    | some mode => if mode = opExtNew ∨ mode = opExtUpdate then getAltChain x.tx else none
  else none

/-- The block follows the best block of its color, and the color coin takes it. A best block that
    the index of the color coin does not have is passed over, and then only the null hash can be
    followed. -/
def Follows (env : ColorEnv) (t : ColorTables) (alt : CAltChain) : Prop :=
  env.processBlock alt = true ∧ alt.block.hashPrevBlock = walkStart t alt.hColor ∧
    ∀ best, t.mapColor alt.hColor = some best → (env.hasColorBlock best = true ↔ best ≠ 0)

/-- What `CommitAltChainTx` does with a block that it takes from a transaction. -/
structure Committed (env : ColorEnv) (alt : CAltChain) (t t' : ColorTables) : Prop where
  other : ∀ c, c ≠ alt.hColor →
    t'.mapColor c = t.mapColor c ∧ t'.mapColorPool c = t.mapColorPool c
  follows : Follows env t alt →
    t'.mapColor alt.hColor = some (altBlockHash env.toRecordEnv alt.block)
  stays : ¬ Follows env t alt →
    t'.mapColor alt.hColor = t.mapColor alt.hColor ∧ t'.mapColorPool alt.hColor = none

section Commit

variable {env : ColorEnv} {t t' : ColorTables} {ok : Bool}

def ColorTables.forget (t : ColorTables) (hColor : Uint160) : ColorTables :=
  { t with mapColorPool := update t.mapColorPool hColor none }

theorem Committed.forget (h : ¬ Follows env t alt) : Committed env alt t (t.forget alt.hColor) where
  other _ hc := ⟨rfl, update_of_ne hc _ _⟩
  follows hfollows := absurd hfollows h
  stays _ := ⟨rfl, update_self _ _ _⟩

theorem submitColorBlock_committed (hget : getAltChain tx = some alt)
    (hindex : alt.block.hashPrevBlock = walkStart t alt.hColor →
      ∀ best, t.mapColor alt.hColor = some best → (env.hasColorBlock best = true ↔ best ≠ 0))
    (h : submitColorBlock env fuel (t.forget alt.hColor) alt tx = some (ok, t')) :
    Committed env alt t t' := by
  unfold submitColorBlock at h
  cases hprocess : env.processBlock alt with
  | false =>
    rw [hprocess] at h
    cases h
    refine .forget fun hfollows => ?_
    rw [Follows, hprocess] at hfollows
    cases hfollows.1
  | true =>
    rw [hprocess] at h
    rcases connectAltChainTx_cases hget h with
      ⟨hprev, hcolor, entry, -, hpool⟩ | ⟨-, hprev, rfl⟩
    · have hfollows : Follows env t alt := ⟨hprocess, hprev, hindex hprev⟩
      refine ⟨fun c hc => ?_, fun _ => ?_, fun hno => absurd hfollows hno⟩
      · rw [hcolor, hpool, update_of_ne hc, update_of_ne hc]
        exact ⟨rfl, update_of_ne hc _ _⟩
      · rw [hcolor, update_self]
    · exact .forget fun hfollows => hprev hfollows.2.1

/-- The tip in the pool is forgotten, so the best block is looked up among the connected ones. -/
theorem getBestColorBlockIndex_forget (env : ColorEnv) (t : ColorTables) (hColor : Uint160) :
    getBestColorBlockIndex env (t.forget hColor) hColor =
      (t.mapColor hColor).filter env.hasColorBlock := by
  unfold getBestColorBlockIndex ColorTables.forget
  simp only [update_self, filter_none, none_or]

theorem commitAltChainTx_committed (hget : getAltChain tx = some alt)
    (hverify : verifyAltChain env.toRecordEnv tx = some mode)
    (hmode : mode = opExtNew ∨ mode = opExtUpdate)
    (h : commitAltChainTx env fuel t tx = some (ok, t')) : Committed env alt t t' := by
  have hmodes : ¬ (mode ≠ opExtNew ∧ mode ≠ opExtUpdate) := by tauto
  unfold commitAltChainTx commitNewAltChainTx at h
  simp only [hverify, if_neg hmodes, hget] at h
  have hindex := getBestColorBlockIndex_forget env t alt.hColor
  unfold ColorTables.forget at hindex
  rw [hindex] at h
  cases hbest : (t.mapColor alt.hColor).filter env.hasColorBlock with
  | some hashBest =>
    obtain ⟨hcolor, hindexed⟩ := filter_eq_some_iff.mp hbest
    have hstart : walkStart t alt.hColor = hashBest := by rw [walkStart, hcolor]; rfl
    simp only [hbest] at h
    split_ifs at h with hzero horphan
    · cases h
      refine .forget fun hfollows => horphan.2 ?_
      rw [hfollows.2.1, hstart]
    · refine submitColorBlock_committed hget (fun hprev best hc => ?_) h
      obtain rfl := some.inj (hcolor.symm.trans hc)
      rw [hprev, hstart] at hzero
      exact iff_of_true hindexed hzero
  | none =>
    simp only [hbest] at h
    have hmissing : ∀ best, t.mapColor alt.hColor = some best →
        env.hasColorBlock best = false := by
      intro best hc
      simpa [hc] using hbest
    split_ifs at h with hzero
    · cases h
      refine .forget fun hfollows => hzero ?_
      -- it would follow the best block, which is not in the index and so is the null hash
      rw [hfollows.2.1, walkStart]
      cases hc : t.mapColor alt.hColor with
      | none => rfl
      | some best =>
        by_contra hne
        have hindexed := (hfollows.2.2 best hc).mpr hne
        rw [hmissing best hc] at hindexed
        cases hindexed
    · refine submitColorBlock_committed hget (fun hprev best hc => ?_) h
      rw [not_not.mp hzero, walkStart, hc] at hprev
      exact iff_of_false (by simp [hmissing best hc]) (fun hne => hne hprev.symm)

end Commit

theorem connectColor_cases {t t' : ColorTables} (h : connectColor fuel t x = some t') :
    (colorBlock x = none ∧ t' = t) ∨
      ∃ alt, colorBlock x = some alt ∧ Committed x.connecting.toColorEnv alt t t' := by
  unfold connectColor at h
  unfold colorBlock
  split_ifs at h ⊢ with hflag
  · obtain ⟨⟨ok, s⟩, hs, rfl⟩ := map_eq_some_iff.mp h
    cases hverify : verifyAltChain x.connecting.toRecordEnv x.tx with
    | none =>
      rw [commitAltChainTx, commitNewAltChainTx] at hs
      simp only [show verifyAltChain x.connecting.toColorEnv.toRecordEnv x.tx = none from hverify]
        at hs
      cases hs
      exact .inl ⟨rfl, rfl⟩
    | some mode =>
      have hverify' : verifyAltChain x.connecting.toColorEnv.toRecordEnv x.tx = some mode := hverify
      by_cases hmode : mode = opExtNew ∨ mode = opExtUpdate
      · simp only [if_pos hmode]
        cases hget : getAltChain x.tx with
        | none =>
          rw [commitAltChainTx, commitNewAltChainTx] at hs
          simp only [hverify', hget] at hs
          split_ifs at hs <;>
          · cases hs
            exact .inl ⟨rfl, rfl⟩
        | some alt => exact .inr ⟨alt, rfl, commitAltChainTx_committed hget hverify' hmode hs⟩
      · rw [commitAltChainTx, commitNewAltChainTx] at hs
        simp only [hverify', if_pos (not_or.mp hmode)] at hs
        cases hs
        exact .inl ⟨if_neg hmode, rfl⟩
  · cases h
    exact .inl ⟨rfl, rfl⟩

/-! ## The colors of a block -/

section

variable (env : RecordEnv) (alts : List CAltChain) (t t' : ColorTables) (c : Uint160)

/-- The best block of the color has been replaced, along the blocks of `alts`. -/
def Advanced : Prop :=
  ∃ hash', t'.mapColor c = some hash' ∧
    ∀ hash, t.mapColor c = some hash → TransGen (Links env alts) hash hash'

/-- The best block of the color is the same, and the tip in the pool is the same or forgotten. -/
def Kept : Prop :=
  t'.mapColor c = t.mapColor c ∧
    (t'.mapColorPool c = t.mapColorPool c ∨ t'.mapColorPool c = none)

end

section Colors

variable {alts : List CAltChain} {t t₁ t' : ColorTables} {c : Uint160}

theorem Advanced.ne (hacyclic : NoCycle base alts) (h : Advanced base alts t t' c) :
    t'.mapColor c ≠ t.mapColor c := by
  obtain ⟨hash', hnew, hchain⟩ := h
  intro heq
  exact hacyclic hash' (hchain hash' (heq.symm.trans hnew))

theorem Kept.trans (h : Kept t t₁ c) (h' : Kept t₁ t' c) : Kept t t' c := by
  refine ⟨h'.1.trans h.1, ?_⟩
  rcases h'.2 with hpool | hpool
  · rw [hpool]
    exact h.2
  · exact .inr hpool

theorem Kept.advanced (h : Kept t t₁ c) (h' : Advanced base alts t₁ t' c) :
    Advanced base alts t t' c := by
  obtain ⟨hash', hnew, hchain⟩ := h'
  exact ⟨hash', hnew, fun hash hhash => hchain hash (h.1.trans hhash)⟩

theorem Advanced.kept (h : Advanced base alts t t₁ c) (h' : Kept t₁ t' c) :
    Advanced base alts t t' c := by
  obtain ⟨hash', hnew, hchain⟩ := h
  exact ⟨hash', h'.1.trans hnew, hchain⟩

theorem Advanced.trans (h : Advanced base alts t t₁ c)
    (h' : Advanced base alts t₁ t' c) : Advanced base alts t t' c := by
  obtain ⟨hash₁, hmid, hchain⟩ := h
  obtain ⟨hash', hnew, hchain'⟩ := h'
  exact ⟨hash', hnew, fun hash hhash => (hchain hash hhash).trans (hchain' hash₁ hmid)⟩

theorem Committed.advanced (h : Committed x.connecting.toColorEnv alt t t') (hmem : alt ∈ alts)
    (hfollows : Follows x.connecting.toColorEnv t alt) : Advanced base alts t t' alt.hColor := by
  refine ⟨_, h.follows hfollows, fun hash hhash => TransGen.single ?_⟩
  have hprev : alt.block.hashPrevBlock = hash := by
    rw [hfollows.2.1, walkStart, hhash]
    rfl
  exact ⟨alt, hmem, hprev, congrFun x.sameHash.1.symm _⟩

theorem Committed.kept {env : ColorEnv} (h : Committed env alt t t')
    (hstays : c = alt.hColor → ¬ Follows env t alt) : Kept t t' c := by
  by_cases hc : c = alt.hColor
  · obtain ⟨hcolor, hpool⟩ := h.stays (hstays hc)
    rw [hc]
    exact ⟨hcolor, .inr hpool⟩
  · exact ⟨(h.other c hc).1, .inl (h.other c hc).2⟩

theorem exec_kept_or_advanced (hsub : vtx.filterMap colorBlock ⊆ alts)
    (h : exec (connectColor fuel) t vtx = some t') (c : Uint160) :
    Kept t t' c ∨ Advanced base alts t t' c := by
  induction vtx generalizing t with
  | nil =>
    cases h
    exact .inl ⟨rfl, .inl rfl⟩
  | cons x vtx ih =>
    obtain ⟨t₁, h₁, h₂⟩ := exec_cons_eq_some.mp h
    have hrest :=
      ih (List.Subset.trans ((sublist_cons_self x vtx).filterMap colorBlock).subset hsub) h₂
    have hx : Kept t t₁ c ∨ Advanced base alts t t₁ c := by
      rcases connectColor_cases h₁ with ⟨-, rfl⟩ | ⟨alt, hblock, hcommit⟩
      · exact .inl ⟨rfl, .inl rfl⟩
      · have hmem : alt ∈ alts := hsub (mem_filterMap.mpr ⟨x, mem_cons_self, hblock⟩)
        by_cases hfollows : c = alt.hColor ∧ Follows x.connecting.toColorEnv t alt
        · rw [hfollows.1]
          exact .inr (hcommit.advanced hmem hfollows.2)
        · exact .inl (hcommit.kept fun hc hf => hfollows ⟨hc, hf⟩)
    rcases hx with hx | hx <;> rcases hrest with hrest | hrest
    · exact .inl (hx.trans hrest)
    · exact .inr (hx.advanced hrest)
    · exact .inr (hx.kept hrest)
    · exact .inr (hx.trans hrest)

/-- The blocks of colors that do not change the tables: none follows the best block of its color,
    and the pool has no tip of the color. -/
def ColorsStay (t : ColorTables) (vtx : List (ExtTx base)) : Prop :=
  ∀ x ∈ vtx, ∀ alt, colorBlock x = some alt →
    t.mapColorPool alt.hColor = none ∧ ¬ Follows x.connecting.toColorEnv t alt

theorem colorsStay_congr (hcolor : t'.mapColor = t.mapColor)
    (hpool : t'.mapColorPool = t.mapColorPool) : ColorsStay t' vtx ↔ ColorsStay t vtx := by
  unfold ColorsStay Follows walkStart
  rw [hcolor, hpool]

theorem colorsStay_cons :
    ColorsStay t (x :: vtx) ↔
      (∀ alt, colorBlock x = some alt →
        t.mapColorPool alt.hColor = none ∧ ¬ Follows x.connecting.toColorEnv t alt) ∧
      ColorsStay t vtx :=
  forall_mem_cons

/-- **The colors are as they were exactly if no block of a color changes its tables.** -/
theorem colors_restored_iff (hacyclic : NoCycle base alts)
    (hsub : vtx.filterMap colorBlock ⊆ alts) (h : exec (connectColor fuel) t vtx = some t') :
    (t'.mapColor = t.mapColor ∧ t'.mapColorPool = t.mapColorPool) ↔ ColorsStay t vtx := by
  induction vtx generalizing t with
  | nil =>
    cases h
    simp [ColorsStay]
  | cons x vtx ih =>
    obtain ⟨t₁, h₁, h₂⟩ := exec_cons_eq_some.mp h
    have hsub' : vtx.filterMap colorBlock ⊆ alts :=
      List.Subset.trans ((sublist_cons_self x vtx).filterMap colorBlock).subset hsub
    rw [colorsStay_cons]
    rcases connectColor_cases h₁ with ⟨hblock, rfl⟩ | ⟨alt, hblock, hcommit⟩
    · rw [ih hsub' h₂, hblock]
      simp
    have hmem : alt ∈ alts := hsub (mem_filterMap.mpr ⟨x, mem_cons_self, hblock⟩)
    rw [hblock]
    simp only [some.injEq, forall_eq']
    by_cases hfollows : Follows x.connecting.toColorEnv t alt
    · -- the color advances here, and does not come back
      refine iff_of_false (fun hsame => ?_) (fun hstay => hstay.1.2 hfollows)
      have hhere := hcommit.advanced hmem hfollows
      have hwhole : Advanced base alts t t' alt.hColor := by
        rcases exec_kept_or_advanced hsub' h₂ alt.hColor with hkept | hadvanced
        · exact hhere.kept hkept
        · exact hhere.trans hadvanced
      exact hwhole.ne hacyclic (congrFun hsame.1 _)
    have hcolor : t₁.mapColor = t.mapColor := by
      funext c
      exact (hcommit.kept fun _ => hfollows).1
    by_cases hpool : t.mapColorPool alt.hColor = none
    · have hpools : t₁.mapColorPool = t.mapColorPool := by
        funext c
        by_cases hc : c = alt.hColor
        · rw [hc, hpool]
          exact (hcommit.stays hfollows).2
        · exact (hcommit.other c hc).2
      rw [← colorsStay_congr hcolor hpools, ← hcolor, ← hpools, ih hsub' h₂]
      rw [hpools]
      exact (and_iff_right ⟨hpool, hfollows⟩).symm
    · -- the tip in the pool is forgotten, and only a block that follows could set one
      refine iff_of_false (fun hsame => hpool ?_) (fun hstay => hpool hstay.1.1)
      rcases exec_kept_or_advanced hsub' h₂ alt.hColor with hkept | hadvanced
      · rw [← hsame.2]
        rcases hkept.2 with hsame' | hnone
        · rw [hsame']
          exact (hcommit.stays hfollows).2
        · exact hnone
      · refine absurd ?_ (hadvanced.ne hacyclic)
        rw [hsame.1, hcolor]

end Colors

/-! ## Blocks -/

structure SameTables (w w' : ExtTables) : Prop where
  mapIdent : w'.mapIdent = w.mapIdent
  mapLicense : w'.mapLicense = w.mapLicense
  mapExec : w'.classes.mapExec = w.classes.mapExec
  mapExecLabel : w'.classes.mapExecLabel = w.classes.mapExecLabel
  mapColor : w'.colors.mapColor = w.colors.mapColor
  mapColorPool : w'.colors.mapColorPool = w.colors.mapColorPool

section

variable (fuel : Nat) (nHeight : Int) (w : ExtTables) (vtx : List (ExtTx base))

def published : List (List UInt8 × Uint160) :=
  match exec (connectCheckpoint nHeight) w vtx with
  | none => []
  | some w => writesAlong (connectTables fuel nHeight) (publishesIn nHeight) w vtx

structure LeavesNothing : Prop where
  stamps : ∀ hIdent hashTx, lastWrite (vtx.filterMap stamp) hIdent = some hashTx →
    w.mapIdent hIdent = some hashTx
  licenses : ∀ granted ∈ vtx.filterMap license, (w.mapLicense granted.1).isSome = true
  classes : ∀ k ∈ vtx.filterMap execKey, w.classes.mapExec k = none
  labels : ∀ label hExec, lastWrite (published fuel nHeight w vtx) label = some hExec →
    w.classes.mapExecLabel label = some hExec
  /-- No block of a color follows the best one or has a tip in the pool to forget. -/
  colors : ColorsStay w.colors vtx

end

section Blocks

variable {nHeight : Int} {w w' : ExtTables}

theorem connectTables_parts (h : connectTables fuel nHeight w x = some w') :
    w'.mapIdent = writeAll w.mapIdent (stamp x).toList ∧
      w'.mapLicense = fillAll w.mapLicense (license x).toList ∧
      connectExec (fun mode => mode != opExtUpdate) nHeight w.classes x = some w'.classes ∧
      connectColor fuel w.colors x = some w'.colors := by
  obtain ⟨classes, hclasses, h⟩ := bind_eq_some_iff.mp h
  obtain ⟨colors, hcolors, h⟩ := bind_eq_some_iff.mp h
  rw [(connectIdent_rest w x).1] at hclasses
  rw [(connectIdent_rest w x).2] at hcolors
  cases h
  exact ⟨connectIdent_mapIdent w x, connectIdent_mapLicense w x, hclasses, hcolors⟩

theorem exec_connectCheckpoint (h : exec (connectCheckpoint nHeight) w vtx = some w') :
    SameTables w w' := by
  refine exec_invariant (A := fun _ => True) (P := SameTables w) ?_ (fun _ _ => trivial)
    ⟨rfl, rfl, rfl, rfl, rfl, rfl⟩ h
  intro w₁ x w₂ _ hsame hstep
  obtain ⟨classes, hclasses, rfl⟩ := map_eq_some_iff.mp hstep
  obtain ⟨hexec, hlabel⟩ := connectCheckpoint_frame hclasses
  exact ⟨hsame.mapIdent, hsame.mapLicense, hexec.trans hsame.mapExec,
    hlabel.trans hsame.mapExecLabel, hsame.mapColor, hsame.mapColorPool⟩

theorem exec_connect_mapExec {k : Uint160} (hk : k ∉ vtx.filterMap execKey)
    (h : exec (connectTables fuel nHeight) w vtx = some w') :
    w'.classes.mapExec k = w.classes.mapExec k := by
  refine exec_invariant (A := fun x : ExtTx base => execKey x ≠ some k)
    (P := fun w₁ => w₁.classes.mapExec k = w.classes.mapExec k) ?_ ?_ rfl h
  · intro w₁ x w₂ hx hsame hstep
    obtain ⟨-, -, hclasses, -⟩ := connectTables_parts hstep
    rw [← hsame]
    exact (connectExec_frame hclasses).1 k hx
  · intro x hx hkey
    exact hk (mem_filterMap.mpr ⟨x, hx, hkey⟩)

section

variable (h : exec (connectTables fuel nHeight) w vtx = some w')
include h

theorem exec_mapIdent : w'.mapIdent = writeAll w.mapIdent (vtx.filterMap stamp) := by
  rw [← writesAlong_const h]
  exact exec_writes ExtTables.mapIdent (fun _ => stamp)
    (fun _ _ _ hstep => (connectTables_parts hstep).1) h

theorem exec_mapLicense : w'.mapLicense = fillAll w.mapLicense (vtx.filterMap license) :=
  exec_fills ExtTables.mapLicense license (fun _ _ _ hstep => (connectTables_parts hstep).2.1) h

theorem exec_mapExecLabel :
    w'.classes.mapExecLabel = writeAll w.classes.mapExecLabel
      (writesAlong (connectTables fuel nHeight) (publishesIn nHeight) w vtx) :=
  exec_writes (fun w => w.classes.mapExecLabel) (publishesIn nHeight)
    (fun _ _ _ hstep => (connectExec_frame (connectTables_parts hstep).2.2.1).2) h

theorem exec_connectColor : exec (connectColor fuel) w.colors vtx = some w'.colors := by
  induction vtx generalizing w with
  | nil =>
    cases h
    rfl
  | cons x vtx ih =>
    obtain ⟨w₁, h₁, h₂⟩ := exec_cons_eq_some.mp h
    obtain ⟨-, -, -, hcolors⟩ := connectTables_parts h₁
    exact exec_cons_eq_some.mpr ⟨w₁.colors, hcolors, ih h₂⟩

end

/-- **What a block leaves behind.** Connecting it and disconnecting it gives the six tables back
    exactly when the block has nothing that stays; for a coin without extension transactions
    always. -/
theorem tables_survive_iff (iface : CoinIface) (fuel : Nat) (nHeight : Int) (base : RecordEnv)
    (vtx : List (ExtTx base)) (w w₁ w₂ : ExtTables)
    (hacyclic : NoCycle base (vtx.filterMap colorBlock))
    (hconnect : connectBlockTables iface fuel nHeight w vtx = some w₁)
    (hdisconnect : disconnectBlockTables iface w₁ vtx = some w₂) :
    SameTables w w₂ ↔ (hasExtTx iface = true → LeavesNothing fuel nHeight w vtx) := by
  unfold connectBlockTables at hconnect
  unfold disconnectBlockTables at hdisconnect
  cases hiface : hasExtTx iface with
  | false =>
    rw [hiface] at hconnect hdisconnect
    cases hconnect
    cases hdisconnect
    exact iff_of_true ⟨rfl, rfl, rfl, rfl, rfl, rfl⟩ (fun hext => nomatch hext)
  | true =>
    rw [hiface] at hconnect hdisconnect
    obtain ⟨w₀, hfirst, hsecond⟩ := bind_eq_some_iff.mp hconnect
    have hsame := exec_connectCheckpoint hfirst
    have hback := exec_disconnected hdisconnect
    have hident : w₂.mapIdent = writeAll w.mapIdent (vtx.filterMap stamp) := by
      rw [hback.mapIdent, ← hsame.mapIdent, exec_mapIdent hsecond]
    have hlicense : w₂.mapLicense = fillAll w.mapLicense (vtx.filterMap license) := by
      rw [hback.mapLicense, ← hsame.mapLicense, exec_mapLicense hsecond]
    have hlabel : w₂.classes.mapExecLabel =
        writeAll w.classes.mapExecLabel (published fuel nHeight w vtx) := by
      rw [hback.mapExecLabel, ← hsame.mapExecLabel, published, hfirst, exec_mapExecLabel hsecond]
    have hexec : ∀ k, w₂.classes.mapExec k =
        if k ∈ vtx.filterMap execKey then none else w.classes.mapExec k := by
      intro k
      rw [hback.mapExec k, filterMap_reverse, ← hsame.mapExec]
      simp only [mem_reverse]
      split_ifs with hk
      · rfl
      · exact exec_connect_mapExec hk hsecond
    have hcolors := colors_restored_iff hacyclic (List.Subset.refl _) (exec_connectColor hsecond)
    rw [hsame.mapColor, hsame.mapColorPool, colorsStay_congr hsame.mapColor hsame.mapColorPool,
      ← hback.colors] at hcolors
    constructor
    · intro h _
      refine ⟨writeAll_eq_iff.mp (hident.symm.trans h.mapIdent),
        fillAll_eq_iff.mp (hlicense.symm.trans h.mapLicense), fun k hk => ?_,
        writeAll_eq_iff.mp (hlabel.symm.trans h.mapExecLabel),
        hcolors.mp ⟨h.mapColor, h.mapColorPool⟩⟩
      rw [← h.mapExec, hexec k, if_pos hk]
    · intro h
      have hleft := h rfl
      obtain ⟨hcolor, hpool⟩ := hcolors.mpr hleft.colors
      refine ⟨hident.trans (writeAll_eq_iff.mpr hleft.stamps),
        hlicense.trans (fillAll_eq_iff.mpr hleft.licenses), funext fun k => ?_,
        hlabel.trans (writeAll_eq_iff.mpr hleft.labels), hcolor, hpool⟩
      rw [hexec k]
      split_ifs with hk
      · exact (hleft.classes k hk).symm
      · rfl

end Blocks

/-! ## A block with three extensions -/

def extensionTx (nFlag : UInt32) (op mode : UInt8) : CTransaction where
  nFlag := nFlag
  vin := []
  vout := [{ nValue := 1, scriptPubKey :=
    [mode, op, 0xa9, 0x14, 7] ++ List.replicate 19 0 ++ [0x6d, 0x51] }]
  vtxinwit := []
  nLockTime := 0
  exec := { tExpire := 1, vchLabel := [0x61] }

def willing : ExtEnv :=
  { oneActivation with
    getCertOpFee := fun _ => 1
    verifySign := fun _ _ _ => true
    certChain := 1
    defaultExpireTime := 1
    ifaceIndex := .shc
    enabled := true
    minTxFee := 1
    sha256 := fun _ => 0
    altProof := fun _ _ => none
    certDigital := 4
    after := fun _ => false
    getStackHeight := fun _ => 0
    execCallParam := fun _ _ => true
    processExecGenerateTx := fun _ _ => 0
    restoreUserData := fun _ => none
    getExecOpFee := fun _ _ => 1
    verifyStack := fun _ => true
    userDataAgrees := fun _ _ => true
    saveUserData := fun _ => true
    hasColorBlock := fun _ => true
    processBlock := fun _ => true
    commitAltChainOrphanTx := fun _ => true
    getActiveTx := []
    wallet := .empty }

def willingly (tx : CTransaction) : ExtTx oneActivation where
  tx := tx
  connecting := willing
  disconnecting := willing
  sameHash := ⟨rfl, rfl⟩
  sameHash160 := ⟨rfl, rfl⟩

/-- An identity, a class with the label `a`, and a block of the color 1. -/
def threeExtensions (mode : UInt8) (hashPrevBlock : Uint256) : List (ExtTx oneActivation) :=
  [willingly (extensionTx 0x401 0x5c mode), willingly (extensionTx 0x2001 0x56 opExtNew),
    willingly (colorTx 1 1 hashPrevBlock)]

/-- The label of a class that was disconnected before. -/
def labelLeft : ExtTables :=
  { ExtTables.empty with
    classes := { ClassTables.empty with
      mapExecLabel := update ClassTables.empty.mapExecLabel [0x61] (some 7) } }

/-- An identity that is not stamped, a class that has its label already and a block of a color that
    has none leave nothing. -/
theorem nothing_left_behind :
    ∃ w₁ w₂, connectBlockTables .shc 1 1 labelLeft (threeExtensions opExtActivate 5) = some w₁ ∧
      disconnectBlockTables .shc w₁ (threeExtensions opExtActivate 5) = some w₂ ∧
      w₁.classes.mapExec 7 ≠ none ∧ SameTables labelLeft w₂ := by
  have hblocks : (threeExtensions opExtActivate 5).filterMap colorBlock =
      [(colorTx 1 1 5).altchain] := rfl
  have hpublished : published 1 1 labelLeft (threeExtensions opExtActivate 5) = [([0x61], 7)] := by
    decide
  refine ⟨_, _, rfl, rfl, by decide, ?_⟩
  refine (tables_survive_iff .shc 1 1 oneActivation (threeExtensions opExtActivate 5) labelLeft _ _
    ?_ rfl rfl).mpr fun _ => ⟨?_, ?_, ?_, ?_, ?_⟩
  · rw [hblocks]
    exact noCycle_of_lt (by decide)
  · have hstamps : (threeExtensions opExtActivate 5).filterMap stamp = [] := rfl
    intro hIdent hashTx hlast
    rw [hstamps] at hlast
    cases hlast
  · have hlicenses : (threeExtensions opExtActivate 5).filterMap license = [] := rfl
    rw [hlicenses]
    exact forall_mem_nil _
  · exact fun _ _ => rfl
  · intro label hExec hlast
    rw [hpublished, ← nil_append [_], lastWrite_append_singleton] at hlast
    split_ifs at hlast with hlabel
    · rw [← hlabel, ← hlast]
      rfl
    · cases hlast
  · intro x hx alt hblock
    have hmem : alt ∈ [(colorTx 1 1 5).altchain] := by
      rw [← hblocks]
      exact mem_filterMap.mpr ⟨x, hx, hblock⟩
    obtain rfl := mem_singleton.mp hmem
    refine ⟨rfl, fun hfollows => ?_⟩
    exact absurd hfollows.2.1 (by decide)

/-- A stamped identity, the label of a class and the best block of a color are still there after the
    block is disconnected. -/
theorem stamp_label_and_color_stay :
    ∃ w₁ w₂, connectBlockTables .shc 1 1 .empty (threeExtensions opExtNew 0) = some w₁ ∧
      disconnectBlockTables .shc w₁ (threeExtensions opExtNew 0) = some w₂ ∧
      w₂.mapIdent 7 ≠ none ∧ w₂.classes.mapExecLabel [0x61] ≠ none ∧
      w₂.colors.mapColor 1 ≠ none ∧ ¬ SameTables .empty w₂ := by
  refine ⟨_, _, rfl, rfl, by decide, by decide, by decide, fun hsame => ?_⟩
  exact absurd (congrFun hsame.mapIdent 7) (by decide)

end ShareCoin.Ext
