import ShareCoin.Ext.Spring
import ShareCoin.Proof.Ext.Tables

/-!
# What is left of a claim on the spring matrix

A claim clears two bits of the field and erases an identity. Neither is taken back if the block that
makes the claim does not become part of the best chain. If the block is connected and then
disconnected, the bits come back if the identity is in `mapIdent` at that time; the claim has erased
it, so it has to be stamped again by the block itself.

The field is treated as the set of the bits that are set (`Marked`): a claim takes bits out of the
set and a retraction puts bits into it. `retract_connect_iff` then says when connecting and
disconnecting restores both tables. In a run of a node the blocks that are connected are on a stack,
and what disconnecting all of them would give (`undone`) is what no step changes.
-/

namespace ShareCoin.Ext

open Lib Wire
open Server hiding CTransaction
open List hiding Vector

/-! ## Bits -/

/-- A bit of the field: its cell, whether it is in the second word, and its place there. -/
abbrev BitPlace := (Fin 256 × Fin 256) × Bool × Fin 32

def SpringCell.word (cell : SpringCell) : Bool → BitVec 32
  | false => cell.lat
  | true => cell.lon

def Marked (m : SpringMatrix) (p : BitPlace) : Prop := ((m p.1).word p.2.1).getLsbD p.2.2 = true

def SpringBits.places (bits : SpringBits) : List BitPlace :=
  [((bits.y, bits.x), false, bits.lat1), ((bits.y, bits.x), false, bits.lat2),
    ((bits.y, bits.x), true, bits.lon1), ((bits.y, bits.x), true, bits.lon2)]

def SpringBits.firsts (bits : SpringBits) : List BitPlace :=
  [((bits.y, bits.x), false, bits.lat1), ((bits.y, bits.x), true, bits.lon1)]

variable {bits : SpringBits} {p : BitPlace}

theorem SpringBits.places_of_firsts (h : p ∈ bits.firsts) : p ∈ bits.places := by
  simp only [firsts, places, mem_cons, not_mem_nil, or_false] at h ⊢
  tauto

@[simp] theorem getElem_oneBit (i j : Fin 32) : (oneBit i)[j.val] = decide (j = i) := by
  have h : oneBit i = BitVec.twoPow 32 i := rfl
  rw [h, BitVec.getElem_twoPow]
  simp [Fin.ext_iff, eq_comm]

theorem and_oneBit_ne_zero (w : BitVec 32) (i : Fin 32) : (w &&& oneBit i != 0) = w.getLsbD i := by
  have h : w &&& oneBit i = if w.getLsbD i then oneBit i else 0 := BitVec.and_twoPow w i
  rw [h]
  cases w.getLsbD i with
  | false => rfl
  | true =>
    have hbit : oneBit i ≠ 0 := by
      intro hzero
      have hset := getElem_oneBit i i
      simp [hzero] at hset
    simpa using hbit

variable {m : SpringMatrix} {places : List SpringBits}

theorem springMatrix_ext {m' : SpringMatrix} (h : ∀ p, Marked m p ↔ Marked m' p) : m = m' := by
  funext cell
  have hword : ∀ second, (m cell).word second = (m' cell).word second := fun second =>
    BitVec.eq_of_getLsbD_eq fun i hi => Bool.eq_iff_iff.mpr (h (cell, second, ⟨i, hi⟩))
  exact SpringCell.ext (hword false) (hword true)

theorem isSpringLoc_iff :
    isSpringLoc m bits = true ↔
      bits.lat1 ≠ bits.lat2 ∧ bits.lon1 ≠ bits.lon2 ∧ ∀ p ∈ bits.places, Marked m p := by
  simp only [isSpringLoc, and_oneBit_ne_zero, SpringBits.places, Marked, SpringCell.word,
    Bool.and_eq_true, bne_iff_ne, forall_mem_cons]
  tauto

theorem marked_springLocSet : Marked (springLocSet m bits) p ↔ Marked m p ∨ p ∈ bits.places := by
  obtain ⟨cell, second, i⟩ := p
  unfold springLocSet Marked
  by_cases hcell : cell = (bits.y, bits.x)
  · subst hcell
    cases second with
    | false | true =>
      simp [SpringBits.places, SpringCell.word, or_assoc]
  · simp [SpringBits.places, hcell]

theorem marked_springLocClaim (hfree : isSpringLoc m bits = true) :
    Marked (springLocClaim m bits) p ↔ Marked m p ∧ p ∉ bits.firsts := by
  obtain ⟨cell, second, i⟩ := p
  unfold springLocClaim Marked
  rw [if_pos hfree]
  by_cases hcell : cell = (bits.y, bits.x)
  · subst hcell
    cases second with
    | false | true =>
      simp [SpringBits.firsts, SpringCell.word]
  · simp [SpringBits.firsts, hcell]

theorem marked_setAll :
    Marked (places.foldl springLocSet m) p ↔ Marked m p ∨ ∃ bits ∈ places, p ∈ bits.places := by
  induction places generalizing m with
  | nil => simp
  | cons bits places ih => simp [ih, marked_springLocSet, or_assoc]

/-- **Bits that were cleared are set again, and no others, exactly when the places that are set
    were free of other claims and cover what was cleared.** -/
theorem setAll_eq_iff {m' : SpringMatrix} {cleared : List BitPlace}
    (hcleared : ∀ p ∈ cleared, Marked m p) (hm' : ∀ p, Marked m' p ↔ Marked m p ∧ p ∉ cleared) :
    places.foldl springLocSet m' = m ↔
      (∀ bits ∈ places, ∀ p ∈ bits.places, Marked m p) ∧
        ∀ p ∈ cleared, ∃ bits ∈ places, p ∈ bits.places := by
  constructor
  · rintro rfl
    refine ⟨fun bits hbits p hp => marked_setAll.mpr (.inr ⟨bits, hbits, hp⟩), fun p hp => ?_⟩
    rcases marked_setAll.mp (hcleared p hp) with hmarked | hset
    · exact absurd hp ((hm' p).mp hmarked).2
    · exact hset
  · rintro ⟨hplaces, hcover⟩
    refine springMatrix_ext fun p => ?_
    rw [marked_setAll, hm']
    constructor
    · rintro (⟨hmarked, -⟩ | ⟨bits, hbits, hp⟩)
      · exact hmarked
      · exact hplaces bits hbits p hp
    · intro hmarked
      by_cases hp : p ∈ cleared
      · exact .inr (hcover p hp)
      · exact .inl ⟨hmarked, hp⟩

/-! ## The claim of a block -/

variable {base : RecordEnv} {env : SpringEnv} {s s' : SpringState} {block : SpringBlock base}
  {getTransaction : TxLookup} {c : SpringClaims} {vtx : List (ExtTx base)}

abbrev SpringClaim := SpringBits × Uint160

def txClaim (env : SpringEnv) (getTransaction : TxLookup) (c : SpringClaims) (tx : CTransaction) :
    Option SpringClaim :=
  if verifyMatrixTx env.matrixEnv (asServer tx) = some opExtPay ∧ tx.matrix.nType = mSpring then
    (verifySpringMatrix env getTransaction c tx.matrix).map fun bits => (bits, tx.matrix.hRef)
  else none

/-- The claim that a block makes when it is submitted. -/
def springClaim (env : SpringEnv) (c : SpringClaims) (block : SpringBlock base) :
    Option SpringClaim :=
  if block.hasPrev && block.timely then
    block.vtx.head?.bind fun x => txClaim env block.accepting c x.tx
  else none

theorem springClaim_cons {x : ExtTx base} (hprev : block.hasPrev = true)
    (htime : block.timely = true) (hvtx : block.vtx = x :: vtx) :
    springClaim env c block = txClaim env block.accepting c x.tx := by
  rw [springClaim, hprev, htime, hvtx]
  rfl

def SpringState.after (s : SpringState) : Option SpringClaim → SpringState
  | none => s
  | some (bits, hRef) => s.claim bits hRef

@[simp] theorem SpringState.after_none (s : SpringState) : s.after none = s := rfl

/-- A claim on a free place, for an identity that is pending. -/
def ClaimOk (c : SpringClaims) (claim : Option SpringClaim) : Prop :=
  ∀ bits hRef, claim = some (bits, hRef) →
    isSpringLoc c.field bits = true ∧ c.mapIdent hRef ≠ none

theorem verifySpringMatrix_eq_some {matrix : CTxMatrix} :
    verifySpringMatrix env getTransaction c matrix = some bits ↔
      ∃ tx, getTxOfIdent getTransaction c.mapIdent matrix.hRef = some tx ∧
        hasFlag tx.nFlag txfCert = true ∧ isSpringLoc c.field bits = true ∧
        matrix.vData = springMatrixCompress c.field ∧
        env.springLocBits tx.certificate.geo = bits := by
  unfold verifySpringMatrix
  -- the digest of the field is never to be evaluated
  generalize springMatrixCompress c.field = digest
  cases getTxOfIdent getTransaction c.mapIdent matrix.hRef with
  | none => simp
  | some tx =>
    by_cases hcert : hasFlag tx.nFlag txfCert
    · by_cases hloc : isSpringLoc c.field (env.springLocBits tx.certificate.geo)
      · by_cases hdata : matrix.vData = digest
        · simp only [hcert, hloc, hdata, Bool.not_true, Bool.false_eq_true, if_false, ne_eq,
            not_true_eq_false, Option.some.injEq]
          constructor
          · rintro rfl
            exact ⟨tx, rfl, hcert, hloc, trivial, rfl⟩
          · rintro ⟨_, rfl, -, -, -, hbits⟩
            exact hbits
        · simp [hcert, hloc, hdata]
      · simp only [hcert, hloc, Bool.not_true, Bool.not_false, Bool.false_eq_true, if_false,
          if_true, reduceCtorEq, false_iff, Option.some.injEq]
        rintro ⟨_, rfl, -, hfree, -, rfl⟩
        exact hloc hfree
    · simp [hcert]

theorem mapIdent_of_getTxOfIdent {m : Uint160 → Option Uint256} {hash : Uint160}
    {tx : CTransaction} (h : getTxOfIdent getTransaction m hash = some tx) : m hash ≠ none := by
  intro hnone
  simp [getTxOfIdent, hnone] at h

theorem claimOk_txClaim (getTransaction : TxLookup) (c : SpringClaims) (tx : CTransaction) :
    ClaimOk c (txClaim env getTransaction c tx) := by
  intro bits hRef h
  unfold txClaim at h
  split_ifs at h
  obtain ⟨bits', hverify, heq⟩ := Option.map_eq_some_iff.mp h
  cases heq
  obtain ⟨_, hident, -, hfree, -, -⟩ := verifySpringMatrix_eq_some.mp hverify
  exact ⟨hfree, mapIdent_of_getTxOfIdent hident⟩

theorem claimOk_springClaim (c : SpringClaims) (block : SpringBlock base) :
    ClaimOk c (springClaim env c block) := by
  intro bits hRef h
  unfold springClaim at h
  split_ifs at h
  obtain ⟨x, -, hclaim⟩ := Option.bind_eq_some_iff.mp h
  exact claimOk_txClaim _ c x.tx bits hRef hclaim

theorem txClaim_of_ne {tx : CTransaction}
    (h : verifyMatrixTx env.matrixEnv (asServer tx) ≠ some opExtPay) :
    txClaim env getTransaction c tx = none :=
  if_neg fun hboth => h hboth.1

/-- What `BlockAcceptSpringMatrix` does: it performs the claim, if there is one, and it refuses no
    matrix that makes a claim. -/
theorem blockAcceptSpringMatrix_cases (env : SpringEnv) (getTransaction : TxLookup)
    (s : SpringState) (tx : CTransaction) :
    let r := blockAcceptSpringMatrix env getTransaction s tx
    let claim := txClaim env getTransaction s.claims tx
    r.2.2 = s.after claim ∧ ((r.1 && ! r.2.1) = true → claim = none) := by
  unfold blockAcceptSpringMatrix txClaim
  by_cases hmode : verifyMatrixTx env.matrixEnv (asServer tx) = some opExtPay
  · by_cases htype : tx.matrix.nType = mSpring
    · cases hverify : verifySpringMatrix env getTransaction s.claims tx.matrix with
      | none | some bits => simp [hmode, htype, SpringState.after]
    · simp [hmode, htype, SpringState.after]
  · simp [hmode, SpringState.after]

variable {r : Bool × SpringState} {coreAccept : SpringState → Option (Bool × SpringState)}

/-- **A block is refused before anything happens, or its claim is performed and it goes on to
    `core_AcceptBlock`.** -/
theorem acceptBlock_cases (env : SpringEnv)
    (coreAccept : SpringState → Option (Bool × SpringState)) (s : SpringState)
    (block : SpringBlock base) :
    (acceptBlock env coreAccept s block = some (false, s) ∧
        springClaim env s.claims block = none) ∨
      acceptBlock env coreAccept s block =
        coreAccept (s.after (springClaim env s.claims block)) := by
  unfold acceptBlock springClaim
  by_cases hprev : block.hasPrev
  swap
  · simp [hprev]
  by_cases htime : block.timely
  swap
  · simp [hprev, htime]
  simp only [hprev, htime, Bool.not_true, Bool.false_eq_true, if_false, Bool.and_self, if_true]
  cases hvtx : block.vtx with
  | nil => exact .inr rfl
  | cons x vtx =>
    simp only [head?_cons, Option.bind_some]
    -- only a matrix transaction in the mode `OP_EXT_PAY` claims anything
    by_cases hpay : verifyMatrixTx env.matrixEnv (asServer x.tx) = some opExtPay
    · obtain ⟨hafter, hrefused⟩ := blockAcceptSpringMatrix_cases env block.accepting s x.tx
      rw [hpay]
      simp only [if_neg (by decide : opExtPay ≠ opExtValidate), if_true, hafter]
      split_ifs with hcheck
      · rw [hrefused hcheck]
        exact .inl ⟨rfl, rfl⟩
      · exact .inr rfl
    · rw [txClaim_of_ne hpay]
      cases hmode : verifyMatrixTx env.matrixEnv (asServer x.tx) with
      | none => exact .inr rfl
      | some mode =>
        have hne : mode ≠ opExtPay := fun heq => hpay (heq ▸ hmode)
        simp only [if_neg hne]
        split_ifs
        · exact .inl ⟨rfl, trivial⟩
        · exact .inr rfl
        · exact .inr rfl

/-! ## Connecting and disconnecting -/

def SpringBlock.stamps (block : SpringBlock base) : List (Uint160 × Uint256) :=
  block.vtx.filterMap stamp

/-- The place that is set when the block is disconnected, if the transaction names one. -/
def retractedPlace (env : SpringEnv) (block : SpringBlock base) (m : Uint160 → Option Uint256)
    (x : ExtTx base) : Option SpringBits :=
  if carriesSpringMatrix x.tx && block.nHeight == x.tx.matrix.nHeight then
    (getTxOfIdent block.retracting m x.tx.matrix.hRef).map fun idTx =>
      env.springLocBits idTx.certificate.geo
  else none

/-- The places that are set when the block is disconnected. -/
def retracted (env : SpringEnv) (block : SpringBlock base) (m : Uint160 → Option Uint256) :
    List SpringBits :=
  if block.hasPrev then block.vtx.filterMap (retractedPlace env block m) else []

/-- The field and the identities after the block is disconnected. -/
def SpringClaims.retract (env : SpringEnv) (c : SpringClaims) (block : SpringBlock base) :
    SpringClaims :=
  { c with field := (retracted env block c.mapIdent).foldl springLocSet c.field }

theorem coreConnect_claims {fuel : Nat} (h : coreConnect block fuel s = some r) :
    r.1 = true ∧
      r.2.claims = { s.claims with mapIdent := writeAll s.claims.mapIdent block.stamps } := by
  obtain ⟨tables, hconnect, rfl⟩ := Option.map_eq_some_iff.mp h
  obtain ⟨w, hfirst, hsecond⟩ := Option.bind_eq_some_iff.mp hconnect
  have hident : tables.mapIdent = writeAll s.tables.mapIdent block.stamps := by
    rw [exec_mapIdent hsecond, (exec_connectCheckpoint hfirst).mapIdent]
    rfl
  exact ⟨rfl, SpringClaims.ext rfl hident⟩

section

variable (env : SpringEnv) (block : SpringBlock base) (s : SpringState)

theorem retractStep_eq (x : ExtTx base) :
    (if carriesSpringMatrix x.tx then
      blockRetractSpringMatrix env block.retracting block.nHeight s x.tx else s) =
      { s with
        field := (retractedPlace env block s.tables.mapIdent x).toList.foldl springLocSet
          s.field } := by
  unfold retractedPlace blockRetractSpringMatrix
  by_cases hcarries : carriesSpringMatrix x.tx
  · by_cases hheight : block.nHeight = x.tx.matrix.nHeight
    · simp only [hcarries, hheight, if_true, ne_eq, not_true_eq_false, if_false, Bool.true_and,
        beq_self_eq_true]
      cases getTxOfIdent block.retracting s.tables.mapIdent x.tx.matrix.hRef with
      | none | some idTx => rfl
    · simp [hcarries, hheight]
  · simp [hcarries]

theorem retractLoop_eq :
    retractLoop env block s =
      { s with field := (retracted env block s.tables.mapIdent).foldl springLocSet s.field } := by
  unfold retractLoop retracted
  cases block.hasPrev with
  | false => rfl
  | true =>
    simp only [Bool.not_true, Bool.false_eq_true, if_false, if_true, retractStep_eq]
    -- the loop does not write `mapIdent`, so every place is looked up in the same table
    induction block.vtx generalizing s with
    | nil => rfl
    | cons x vtx ih =>
      rw [foldl_cons, ih]
      cases hplace : retractedPlace env block s.tables.mapIdent x with
      | none | some bits => simp [hplace]

end

theorem disconnectBlock_claims (h : disconnectBlock env s block = some s') :
    s'.claims = s.claims.retract env block := by
  unfold disconnectBlock at h
  rw [retractLoop_eq] at h
  obtain ⟨tables, hdisconnect, rfl⟩ := Option.map_eq_some_iff.mp h
  exact SpringClaims.ext rfl (exec_disconnected hdisconnect).mapIdent

/-- A block leaves the field and the identities as they were, where it makes the claim first. -/
structure Restores (env : SpringEnv) (claim : Option SpringClaim) (c : SpringClaims)
    (block : SpringBlock base) : Prop where
  registered : ∀ hIdent hashTx, lastWrite block.stamps hIdent = some hashTx →
    c.mapIdent hIdent = some hashTx
  restamped : ∀ bits hRef, claim = some (bits, hRef) → lastWrite block.stamps hRef ≠ none
  /-- The places that are set when the block is disconnected have their bits set before. -/
  unclaimed : ∀ bits ∈ retracted env block c.mapIdent, ∀ p ∈ bits.places, Marked c.field p
  covered : ∀ bits hRef, claim = some (bits, hRef) → ∀ p ∈ bits.firsts,
    ∃ place ∈ retracted env block c.mapIdent, p ∈ place.places

variable {claim : Option SpringClaim}

section

variable (hok : ClaimOk s.claims claim)
include hok

theorem mapIdent_restored_iff {ws : List (Uint160 × Uint256)} :
    writeAll (s.after claim).claims.mapIdent ws = s.claims.mapIdent ↔
      (∀ k v, lastWrite ws k = some v → s.claims.mapIdent k = some v) ∧
        ∀ bits hRef, claim = some (bits, hRef) → lastWrite ws hRef ≠ none := by
  cases claim with
  | none => simpa using writeAll_eq_iff
  | some claim =>
    obtain ⟨bits, hRef⟩ := claim
    refine (writeAll_erase_eq_iff (hok bits hRef rfl).2).trans (and_congr_right fun _ => ?_)
    constructor
    · rintro h _ _ ⟨⟩
      exact h
    · exact fun h => h bits hRef rfl

theorem field_restored_iff :
    places.foldl springLocSet (s.after claim).claims.field = s.claims.field ↔
      (∀ bits ∈ places, ∀ p ∈ bits.places, Marked s.claims.field p) ∧
        ∀ bits hRef, claim = some (bits, hRef) → ∀ p ∈ bits.firsts,
          ∃ place ∈ places, p ∈ place.places := by
  cases claim with
  | none => simpa using setAll_eq_iff (forall_mem_nil _) (fun p => by simp)
  | some claim =>
    obtain ⟨bits, hRef⟩ := claim
    have hfree := (hok bits hRef rfl).1
    have hmarked : ∀ p ∈ bits.firsts, Marked s.claims.field p := fun p hp =>
      (isSpringLoc_iff.mp hfree).2.2 p (SpringBits.places_of_firsts hp)
    refine (setAll_eq_iff hmarked fun _ => marked_springLocClaim hfree).trans
      (and_congr_right fun _ => ?_)
    constructor
    · rintro h _ _ ⟨⟩
      exact h
    · exact fun h => h bits hRef rfl

/-- **After a claim, connecting and disconnecting, the field and the identities are as before
    exactly when the block restores them.** -/
theorem retract_connect_iff :
    SpringClaims.retract env
        { (s.after claim).claims with
          mapIdent := writeAll (s.after claim).claims.mapIdent block.stamps } block = s.claims ↔
      Restores env claim s.claims block := by
  rw [SpringClaims.ext_iff]
  simp only [SpringClaims.retract]
  constructor
  · rintro ⟨hfield, hident⟩
    rw [hident] at hfield
    obtain ⟨hregistered, hrestamped⟩ := (mapIdent_restored_iff hok).mp hident
    obtain ⟨hunclaimed, hcovered⟩ := (field_restored_iff hok).mp hfield
    exact ⟨hregistered, hrestamped, hunclaimed, hcovered⟩
  · rintro ⟨hregistered, hrestamped, hunclaimed, hcovered⟩
    have hident := (mapIdent_restored_iff hok).mpr ⟨hregistered, hrestamped⟩
    refine ⟨?_, hident⟩
    rw [hident]
    exact (field_restored_iff hok).mpr ⟨hunclaimed, hcovered⟩

/-- A claim never leaves the tables as they were. -/
theorem after_claims_eq_iff : (s.after claim).claims = s.claims ↔ claim = none := by
  cases claim with
  | none => exact iff_of_true rfl rfl
  | some claim =>
    obtain ⟨bits, hRef⟩ := claim
    refine iff_of_false (fun h => (hok bits hRef rfl).2 ?_) (Option.some_ne_none _)
    have hident := congrFun (congrArg SpringClaims.mapIdent h) hRef
    exact hident.symm.trans (Function.update_self _ _ _)

end

/-! ## Runs -/

/-- What the event has to meet so that nothing of its block is left. -/
def LeavesNoClaim (env : SpringEnv) (c : SpringChain base) : SpringEvent base → Prop
  | .refuse block _ => springClaim env c.state.claims block = none
  | .connect block _ =>
    Restores env (springClaim env c.state.claims block) c.state.claims block
  | .reconnect block _ => Restores env none c.state.claims block
  | .disconnect => True

def undone (env : SpringEnv) (c : SpringChain base) : SpringClaims :=
  c.connected.foldl (SpringClaims.retract env) c.state.claims

theorem refuse_claims {ok : Bool} (h : acceptBlock env (coreRefuse ok) s block = some r) :
    r.2.claims = (s.after (springClaim env s.claims block)).claims := by
  rcases acceptBlock_cases env (coreRefuse ok) s block with ⟨heq, hnone⟩ | heq
  · cases heq.symm.trans h
    rw [hnone]
    rfl
  · cases heq.symm.trans h
    rfl

theorem refuse_returns (env : SpringEnv) (s : SpringState) (block : SpringBlock base) (ok : Bool) :
    ∃ r, acceptBlock env (coreRefuse ok) s block = some r := by
  rcases acceptBlock_cases env (coreRefuse ok) s block with ⟨heq, -⟩ | heq
  · exact ⟨_, heq⟩
  · exact ⟨_, heq⟩

theorem connect_claims {fuel : Nat}
    (h : acceptBlock env (coreConnect block fuel) s block = some r) (hr : r.1 = true) :
    r.2.claims =
      { (s.after (springClaim env s.claims block)).claims with
        mapIdent := writeAll (s.after (springClaim env s.claims block)).claims.mapIdent
          block.stamps } := by
  rcases acceptBlock_cases env (coreConnect block fuel) s block with ⟨heq, -⟩ | heq
  · cases heq.symm.trans h
    cases hr
  · exact (coreConnect_claims (heq.symm.trans h)).2

/-- No step changes what disconnecting the blocks of the run would give. -/
theorem springStep_undone {c c' : SpringChain base} {e : SpringEvent base}
    (hok : LeavesNoClaim env c e) (h : springStep env c e = some c') :
    undone env c' = undone env c := by
  cases e with
  | refuse block ok =>
    obtain ⟨r, haccept, rfl⟩ := Option.map_eq_some_iff.mp h
    have hclaims : r.2.claims = c.state.claims := by
      rw [refuse_claims haccept, hok, SpringState.after_none]
    simp only [undone, hclaims]
  | connect block fuel =>
    obtain ⟨r, haccept, rfl⟩ := Option.map_eq_some_iff.mp h
    by_cases hr : r.1 = true
    · have hback := (retract_connect_iff (claimOk_springClaim c.state.claims block)).mpr hok
      rw [← connect_claims haccept hr] at hback
      simp only [undone, hr, if_true, foldl_cons, hback]
    · rcases acceptBlock_cases env (coreConnect block fuel) c.state block with ⟨heq, -⟩ | heq
      · cases heq.symm.trans haccept
        rfl
      · exact absurd (coreConnect_claims (heq.symm.trans haccept)).1 hr
  | reconnect block fuel =>
    obtain ⟨r, hconnect, rfl⟩ := Option.map_eq_some_iff.mp h
    have hnone : ClaimOk c.state.claims none := by
      rintro _ _ ⟨⟩
    have hback := (retract_connect_iff hnone).mpr hok
    rw [SpringState.after_none, ← (coreConnect_claims hconnect).2] at hback
    simp only [undone, foldl_cons, hback]
  | disconnect =>
    cases hconnected : c.connected with
    | nil => simp [springStep, hconnected] at h
    | cons block connected =>
      simp only [springStep, hconnected] at h
      obtain ⟨state, hdisconnect, rfl⟩ := Option.map_eq_some_iff.mp h
      simp only [undone, hconnected, foldl_cons, disconnectBlock_claims hdisconnect]

/-- **What is left of the claim of a block.** A block that does not become part of the best chain
    leaves the field and the identities as they were exactly when it makes no claim. A block that is
    connected and then disconnected leaves them exactly when it restores them. In a run whose blocks
    all do, they are as before whenever the blocks of the run are disconnected. -/
theorem spring_claims_follow_iff (base : RecordEnv) (env : SpringEnv) :
    (∀ (s : SpringState) (block : SpringBlock base) (ok : Bool) (r : Bool × SpringState),
      acceptBlock env (coreRefuse ok) s block = some r →
        (r.2.claims = s.claims ↔ springClaim env s.claims block = none)) ∧
    (∀ (s s₁ s₂ : SpringState) (block : SpringBlock base) (fuel : Nat),
      acceptBlock env (coreConnect block fuel) s block = some (true, s₁) →
      disconnectBlock env s₁ block = some s₂ →
        (s₂.claims = s.claims ↔ Restores env (springClaim env s.claims block) s.claims block)) ∧
    (∀ (s s' : SpringState) (events : List (SpringEvent base)),
      exec (springStep env) ⟨s, []⟩ events = some ⟨s', []⟩ →
      StepsOk (springStep env) (LeavesNoClaim env) ⟨s, []⟩ events → s'.claims = s.claims) := by
  refine ⟨fun s block ok r h => ?_, fun s s₁ s₂ block fuel haccept hdisconnect => ?_,
    fun s s' events h hok => ?_⟩
  · rw [refuse_claims h]
    exact after_claims_eq_iff (claimOk_springClaim s.claims block)
  · rw [disconnectBlock_claims hdisconnect, connect_claims haccept rfl]
    exact retract_connect_iff (claimOk_springClaim s.claims block)
  · exact exec_preserves (undone env) (fun _ _ _ => springStep_undone) hok h

/-! ## A claim for a stamped identity -/

def pendingIdent : CTransaction := extensionTx 0x401 0x5c opExtNew

def lastPlace : SpringBits where
  y := Fin.last 255
  x := Fin.last 255
  lat1 := Fin.last 31
  lat2 := (Fin.last 30).castSucc
  lon1 := Fin.last 31
  lon2 := (Fin.last 30).castSucc

def allFree : SpringMatrix := fun _ => ⟨BitVec.allOnes 32, BitVec.allOnes 32⟩

def lastPlaceEnv : SpringEnv where
  matrixEnv :=
    { getHash := fun _ => 0
      getSerializeSize := fun _ => 0
      matrixHash := fun _ => 7
      hash160 := fun _ => 0
      solverPubKey := fun _ => none }
  springLocBits := fun _ => lastPlace

def identPending : SpringState where
  field := allFree
  tables := { ExtTables.empty with
    mapIdent := Function.update ExtTables.empty.mapIdent 7
      (some (pendingIdent.getHash oneActivation.hash)) }

def claimingTx (digest : Vector UInt32 9) : CTransaction :=
  { extensionTx 0x801 0x59 opExtPay with
    vin := [{ prevout := { hash := 0, n := 0xffffffff }, scriptSig := [], nSequence := 0 }]
    matrix := { nType := mSpring, nHeight := 1, hRef := 7, vData := digest } }

theorem claimingTx_vData (digest : Vector UInt32 9) : (claimingTx digest).matrix.vData = digest :=
  rfl

def freeDigest : Vector UInt32 9 := springMatrixCompress allFree

theorem freeDigest_eq : freeDigest = springMatrixCompress allFree := rfl

-- it is only ever compared
attribute [irreducible] freeDigest

def claimingBlock (others : List CTransaction) : SpringBlock oneActivation where
  vtx := willingly (claimingTx freeDigest) :: others.map willingly
  nHeight := 1
  hasPrev := true
  timely := true
  validates := true
  accepting := fun _ => some pendingIdent
  retracting := fun _ => some pendingIdent

theorem paysMatrix_claimingTx :
    verifyMatrixTx lastPlaceEnv.matrixEnv (asServer (willingly (claimingTx freeDigest)).tx) =
      some opExtPay ∧ (willingly (claimingTx freeDigest)).tx.matrix.nType = mSpring :=
  ⟨rfl, rfl⟩

section

variable (others : List CTransaction)

theorem txClaim_claimingTx :
    txClaim lastPlaceEnv (claimingBlock others).accepting identPending.claims
      (willingly (claimingTx freeDigest)).tx = some (lastPlace, 7) := by
  have hfield : identPending.claims.field = allFree := rfl
  have hdigest : (claimingTx freeDigest).matrix.vData =
      springMatrixCompress identPending.claims.field := by
    rw [claimingTx_vData, freeDigest_eq, hfield]
  have hverify : verifySpringMatrix lastPlaceEnv (claimingBlock others).accepting
      identPending.claims (claimingTx freeDigest).matrix = some lastPlace :=
    verifySpringMatrix_eq_some.mpr ⟨pendingIdent, rfl, by decide, rfl, hdigest, rfl⟩
  rw [txClaim, if_pos paysMatrix_claimingTx]
  exact congrArg (Option.map fun bits => (bits, 7)) hverify

theorem springClaim_claimingBlock :
    springClaim lastPlaceEnv identPending.claims (claimingBlock others) = some (lastPlace, 7) :=
  (springClaim_cons rfl rfl rfl).trans (txClaim_claimingTx others)

theorem accept_claimingBlock (coreAccept : SpringState → Option (Bool × SpringState)) :
    acceptBlock lastPlaceEnv coreAccept identPending (claimingBlock others) =
      coreAccept (identPending.after (some (lastPlace, 7))) := by
  have hclaim := springClaim_claimingBlock others
  rcases acceptBlock_cases lastPlaceEnv coreAccept identPending (claimingBlock others)
    with ⟨-, hnone⟩ | heq
  · rw [hclaim] at hnone
    cases hnone
  · rw [heq, hclaim]

theorem marked_allFree (p : BitPlace) : Marked allFree p := by
  have hword : (allFree p.1).word p.2.1 = BitVec.allOnes 32 := by
    cases p.2.1 with
    | false | true => rfl
  rw [Marked, hword, BitVec.getLsbD_allOnes]
  exact decide_eq_true p.2.2.isLt

theorem restores_restamped :
    Restores lastPlaceEnv (some (lastPlace, 7)) identPending.claims
      (claimingBlock [pendingIdent]) := by
  have hlast : ∀ k, lastWrite (claimingBlock [pendingIdent]).stamps k =
      if 7 = k then some (pendingIdent.getHash oneActivation.hash) else none := by
    intro k
    exact lastWrite_append_singleton ([] : List (Uint160 × Uint256)) _ k
  refine ⟨fun k v hk => ?_, ?_, fun _ _ p _ => marked_allFree p, ?_⟩
  · rw [hlast] at hk
    split_ifs at hk with h7
    rw [← h7, ← hk]
    rfl
  · rintro _ _ ⟨⟩
    exact Option.some_ne_none _
  · rintro _ _ ⟨⟩ p hp
    exact ⟨lastPlace, mem_singleton_self _, SpringBits.places_of_firsts hp⟩

theorem connect_claimingBlock (h : others ∈ [[], [pendingIdent]]) :
    ∃ s₁ s₂, acceptBlock lastPlaceEnv (coreConnect (claimingBlock others) 1) identPending
        (claimingBlock others) = some (true, s₁) ∧
      disconnectBlock lastPlaceEnv s₁ (claimingBlock others) = some s₂ := by
  rw [accept_claimingBlock]
  rcases mem_cons.mp h with rfl | h
  · exact ⟨_, _, rfl, rfl⟩
  · obtain rfl := mem_singleton.mp h
    exact ⟨_, _, rfl, rfl⟩

end

/-- A block whose identity is not pending claims nothing. One that stamps the identity of its claim
    again takes the claim back when it is disconnected. -/
theorem restamped_claim_is_retracted :
    (∃ r, acceptBlock lastPlaceEnv (coreRefuse true) ⟨allFree, .empty⟩ (claimingBlock []) =
        some r ∧ r.2.claims = (⟨allFree, .empty⟩ : SpringState).claims) ∧
    (∃ s₁ s₂, acceptBlock lastPlaceEnv (coreConnect (claimingBlock [pendingIdent]) 1) identPending
        (claimingBlock [pendingIdent]) = some (true, s₁) ∧
      disconnectBlock lastPlaceEnv s₁ (claimingBlock [pendingIdent]) = some s₂ ∧
      s₂.claims = identPending.claims) ∧
    ∃ s₂, exec (springStep lastPlaceEnv) ⟨identPending, []⟩
        [.connect (claimingBlock [pendingIdent]) 1, .disconnect] = some ⟨s₂, []⟩ ∧
      s₂.claims = identPending.claims := by
  obtain ⟨hrefuse, hconnect, hrun⟩ := spring_claims_follow_iff oneActivation lastPlaceEnv
  have hclaim := springClaim_claimingBlock [pendingIdent]
  have hrestores := restores_restamped
  rw [← hclaim] at hrestores
  obtain ⟨s₁, s₂, h₁, h₂⟩ := connect_claimingBlock [pendingIdent] (by simp)
  have hnone : springClaim lastPlaceEnv (⟨allFree, .empty⟩ : SpringState).claims
      (claimingBlock []) = none := by
    have hident : getTxOfIdent (claimingBlock []).accepting ExtTables.empty.mapIdent
        (willingly (claimingTx freeDigest)).tx.matrix.hRef = none := rfl
    rw [springClaim_cons rfl rfl rfl, txClaim, if_pos paysMatrix_claimingTx, verifySpringMatrix,
      SpringState.claims, hident]
    rfl
  obtain ⟨r, hr⟩ : ∃ r, acceptBlock lastPlaceEnv (coreRefuse true) ⟨allFree, .empty⟩
      (claimingBlock []) = some r := refuse_returns _ _ _ _
  have hstep : springStep lastPlaceEnv ⟨identPending, []⟩
      (.connect (claimingBlock [pendingIdent]) 1) = some ⟨s₁, [claimingBlock [pendingIdent]]⟩ := by
    rw [springStep, h₁]
    rfl
  have hback : springStep lastPlaceEnv ⟨s₁, [claimingBlock [pendingIdent]]⟩ .disconnect =
      some ⟨s₂, []⟩ :=
    congrArg (Option.map fun state => (⟨state, []⟩ : SpringChain oneActivation)) h₂
  have hexec : exec (springStep lastPlaceEnv) ⟨identPending, []⟩
      [.connect (claimingBlock [pendingIdent]) 1, .disconnect] = some ⟨s₂, []⟩ :=
    exec_cons_eq_some.mpr ⟨_, hstep, exec_cons_eq_some.mpr ⟨_, hback, rfl⟩⟩
  refine ⟨⟨r, hr, (hrefuse _ _ _ _ hr).mpr hnone⟩,
    ⟨s₁, s₂, h₁, h₂, (hconnect _ _ _ _ _ h₁ h₂).mpr hrestores⟩, s₂, hexec, ?_⟩
  exact hrun _ _ _ hexec (StepsOk.cons hrestores hstep (StepsOk.cons trivial hback trivial))

/-- A block that claims the place and does not become part of the best chain keeps the place and the
    identity, and so does one that is connected and disconnected. -/
theorem claim_outlives_block :
    (∃ r, acceptBlock lastPlaceEnv (coreRefuse true) identPending (claimingBlock []) = some r ∧
      isSpringLoc identPending.field lastPlace = true ∧
      isSpringLoc r.2.field lastPlace = false ∧ r.2.tables.mapIdent 7 = none ∧
      r.2.claims ≠ identPending.claims) ∧
    ∃ s₁ s₂, acceptBlock lastPlaceEnv (coreConnect (claimingBlock []) 1) identPending
        (claimingBlock []) = some (true, s₁) ∧
      disconnectBlock lastPlaceEnv s₁ (claimingBlock []) = some s₂ ∧
      s₂.claims ≠ identPending.claims := by
  refine ⟨⟨(true, identPending.after (some (lastPlace, 7))), accept_claimingBlock [] _,
    rfl, rfl, rfl, fun h => ?_⟩, ?_⟩
  · have hident := congrFun (congrArg SpringClaims.mapIdent h) 7
    cases hident
  · obtain ⟨s₁, s₂, h₁, h₂⟩ := connect_claimingBlock [] (by simp)
    refine ⟨s₁, s₂, h₁, h₂, fun h => ?_⟩
    rw [disconnectBlock_claims h₂, connect_claims h₁ rfl] at h
    have hrestores := (retract_connect_iff (claimOk_springClaim _ _)).mp h
    exact hrestores.restamped lastPlace 7 (springClaim_claimingBlock []) rfl

end ShareCoin.Ext
