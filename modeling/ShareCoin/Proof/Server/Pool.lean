import ShareCoin.Server.Pool
import ShareCoin.Proof.Server.Evict

/-!
# The pool and the chain

Two questions about the active queue. The first one is whether the pool and a block agree on what is
spent: both look at the marker of an output, but `AreInputsSpent` takes any marker for a spend, and
stops with "unspent" at an output that has none, where a block would be refused.

The second one is what a rejected transaction leaves. Everything that can reject it comes before the
removal of the transactions it would replace, so nothing is removed, if its previous transactions
have been looked up before. To look them up can itself make transactions active, and replace others.
-/

namespace ShareCoin.Server

open List Option Function

/-! ## Markers -/

/-- The marker that `AreInputsSpent` reads for an output: none if its previous transaction is not
    known, or its record is too short, or the index is too large. -/
def inputMarker (env : TxEnv) (db : ChainDb) (mapInputs : TxCache) (o : COutPoint) :
    Option Uint256 :=
  (mapInputs o.hash).bind fun prevTx =>
    (readCoins env db prevTx).bind fun vOuts => vOuts[o.n.toNat]?

variable {txin : CTxIn} {vin : List CTxIn}
  {recover : PoolState → Uint256 → Option (Option CTransaction × PoolState)}

section

variable {env : ConnectEnv} {node : Node} {pBlock : Option CBlock} {tx : CTransaction}
  {mapInputs : TxCache}

variable (env node pBlock tx) in
/-- `core_ConnectCoinInputs` finds the output, and takes it for unspent; no spends of the block are
    queued. -/
def ConnectUnspent (o : COutPoint) : Prop :=
  ∃ prevtx hashBlock outs marker,
    findPrevTx env node pBlock o.hash = some (prevtx, hashBlock) ∧
    queuedOuts env.toTxEnv node.db ∅ o.hash prevtx = some outs ∧
    outs.length = prevtx.vout.length ∧ outs[o.n.toNat]? = some marker ∧
    alreadySpent env.toTxEnv node.db tx marker = false

variable (env node pBlock tx mapInputs) in
/-- The previous transactions are known to the pool, as to the chain. -/
def InputsKnown : Prop :=
  ∀ txin ∈ tx.vin, ∃ prevtx hashBlock,
    findPrevTx env node pBlock txin.prevout.hash = some (prevtx, hashBlock) ∧
    mapInputs txin.prevout.hash = some prevtx

theorem connectUnspent_iff (hknown : InputsKnown env node pBlock tx mapInputs)
    (htxin : txin ∈ tx.vin) :
    ConnectUnspent env node pBlock tx txin.prevout ↔
      ∃ marker, inputMarker env.toTxEnv node.db mapInputs txin.prevout = some marker ∧
        alreadySpent env.toTxEnv node.db tx marker = false := by
  obtain ⟨prevtx, hashBlock, hfind, hinput⟩ := hknown txin htxin
  have hqueue : ∀ prevtx, queuedOuts env.toTxEnv node.db ∅ txin.prevout.hash prevtx =
      readCoins env.toTxEnv node.db prevtx := by
    intro prevtx
    rw [queuedOuts, Std.TreeMap.getElem?_emptyc]
  rw [inputMarker, hinput, bind_some]
  constructor
  · rintro ⟨prevtx', hashBlock', outs, marker, hfind', houts, -, hmarker, hfree⟩
    rw [hfind] at hfind'
    cases hfind'
    rw [hqueue] at houts
    exact ⟨marker, by rw [houts, bind_some, hmarker], hfree⟩
  · rintro ⟨marker, hmarker, hfree⟩
    obtain ⟨outs, houts, hget⟩ := bind_eq_some_iff.mp hmarker
    exact ⟨prevtx, hashBlock, outs, marker, hfind, by rw [hqueue, houts],
      (readCoins_marker houts).1, hget, hfree⟩

end

/-! ## Whose spends are seen -/

section

variable {env : TxEnv} {db : ChainDb} {mapInputs : TxCache}

variable (env db mapInputs) in
def IsMarked (txin : CTxIn) : Prop :=
  ∃ marker, inputMarker env db mapInputs txin.prevout = some marker ∧ marker ≠ 0

variable (env db mapInputs) in
/-- An output without a marker comes after one whose marker is set. -/
def MissingAfterMarked (vin : List CTxIn) : Prop :=
  ∀ pre txin post, vin = pre ++ txin :: post → inputMarker env db mapInputs txin.prevout = none →
    ∃ txin' ∈ pre, IsMarked env db mapInputs txin'

theorem missingAfterMarked_cons_zero (h : inputMarker env db mapInputs txin.prevout = some 0) :
    MissingAfterMarked env db mapInputs (txin :: vin) ↔
      MissingAfterMarked env db mapInputs vin := by
  have hzero : ¬ IsMarked env db mapInputs txin := by
    rintro ⟨marker, hmarker, hne⟩
    rw [h] at hmarker
    exact hne (some.inj hmarker).symm
  constructor
  · intro hall pre t post heq hnone
    obtain ⟨t', ht', hmarked⟩ := hall (txin :: pre) t post (by rw [heq]; rfl) hnone
    rcases mem_cons.mp ht' with rfl | ht'
    · exact absurd hmarked hzero
    · exact ⟨t', ht', hmarked⟩
  · intro hall pre t post heq hnone
    cases pre with
    | nil =>
      cases heq
      rw [h] at hnone
      cases hnone
    | cons x pre =>
      cases heq
      obtain ⟨t', ht', hmarked⟩ := hall pre t post rfl hnone
      exact ⟨t', mem_cons_of_mem _ ht', hmarked⟩

theorem areInputsSpent_cons_none (hknown : (mapInputs txin.prevout.hash).isSome = true)
    (h : inputMarker env db mapInputs txin.prevout = none) :
    areInputsSpent env db mapInputs (txin :: vin) = false := by
  obtain ⟨prevTx, hprev⟩ := isSome_iff_exists.mp hknown
  rw [inputMarker, hprev, bind_some] at h
  simp only [areInputsSpent, hprev]
  cases hcoins : readCoins env db prevTx with
  | none => rfl
  | some vOuts =>
    rw [hcoins, bind_some] at h
    simp only [h]

theorem areInputsSpent_cons_some {marker : Uint256}
    (h : inputMarker env db mapInputs txin.prevout = some marker) :
    areInputsSpent env db mapInputs (txin :: vin) =
      if marker ≠ 0 then true else areInputsSpent env db mapInputs vin := by
  obtain ⟨prevTx, hprev, hbind⟩ := bind_eq_some_iff.mp h
  obtain ⟨vOuts, hcoins, hout⟩ := bind_eq_some_iff.mp hbind
  simp only [areInputsSpent, hprev, hcoins, hout]

/-- **What `AreInputsSpent` looks for**: a marker that is set, before any output that has none. -/
theorem areInputsSpent_iff (hknown : ∀ txin ∈ vin, (mapInputs txin.prevout.hash).isSome = true) :
    areInputsSpent env db mapInputs vin = true ↔
      (∃ txin ∈ vin, IsMarked env db mapInputs txin) ∧
        MissingAfterMarked env db mapInputs vin := by
  induction vin with
  | nil => simp [areInputsSpent]
  | cons txin vin ih =>
    have ih := ih (forall_mem_cons.mp hknown).2
    cases hmarker : inputMarker env db mapInputs txin.prevout with
    | none =>
      rw [areInputsSpent_cons_none (hknown txin mem_cons_self) hmarker]
      refine iff_of_false Bool.false_ne_true ?_
      rintro ⟨-, hall⟩
      obtain ⟨t, ht, -⟩ := hall [] txin vin rfl hmarker
      cases ht
    | some marker =>
      rw [areInputsSpent_cons_some hmarker]
      by_cases hzero : marker = 0
      · subst hzero
        have hnot : ¬ IsMarked env db mapInputs txin := by
          rintro ⟨m, hm, hne⟩
          rw [hmarker] at hm
          exact hne (some.inj hm).symm
        simp only [ne_eq, not_true_eq_false, if_false]
        rw [ih, missingAfterMarked_cons_zero hmarker, exists_mem_cons_iff, or_iff_right hnot]
      · simp only [ne_eq, hzero, not_false_eq_true, if_true, true_iff]
        refine ⟨⟨txin, mem_cons_self, marker, hmarker, hzero⟩, ?_⟩
        intro pre t post heq hnone
        cases pre with
        | nil =>
          cases heq
          rw [hmarker] at hnone
          cases hnone
        | cons x pre =>
          cases heq
          exact ⟨_, mem_cons_self, marker, hmarker, hzero⟩

end

/-! ## Agreement -/

section

variable (env : ConnectEnv) (node : Node) (mapInputs : TxCache) (tx : CTransaction)

/-- When the two agree: an output without a marker comes after one whose marker is set; and where
    all outputs have markers and one is set, one of them is a spend of the chain. -/
structure MarkersSettled : Prop where
  missing : MissingAfterMarked env.toTxEnv node.db mapInputs tx.vin
  stale : (∀ txin ∈ tx.vin, inputMarker env.toTxEnv node.db mapInputs txin.prevout ≠ none) →
    (∃ txin ∈ tx.vin, IsMarked env.toTxEnv node.db mapInputs txin) →
    ∃ txin ∈ tx.vin, ∃ marker,
      inputMarker env.toTxEnv node.db mapInputs txin.prevout = some marker ∧
        alreadySpent env.toTxEnv node.db tx marker = true

end

/-- **The pool takes the inputs of a transaction for unspent exactly if they exist and a block
    would, if and only if the markers are settled.** -/
theorem spentness_agrees_iff (env : ConnectEnv) (node : Node) (pBlock : Option CBlock)
    (tx : CTransaction) (mapInputs : TxCache) (hknown : InputsKnown env node pBlock tx mapInputs) :
    (areInputsSpent env.toTxEnv node.db mapInputs tx.vin = false ↔
      ∀ txin ∈ tx.vin, ConnectUnspent env node pBlock tx txin.prevout) ↔
    MarkersSettled env node mapInputs tx := by
  have hinputs : ∀ txin ∈ tx.vin, (mapInputs txin.prevout.hash).isSome = true := by
    intro txin htxin
    obtain ⟨prevtx, hashBlock, -, hinput⟩ := hknown txin htxin
    rw [hinput]
    rfl
  have hspent := @areInputsSpent_iff tx.vin env.toTxEnv node.db mapInputs hinputs
  have hmarked : ∀ marker, alreadySpent env.toTxEnv node.db tx marker = true → marker ≠ 0 := by
    rintro marker halready rfl
    cases halready
  rw [← Bool.not_eq_true, hspent]
  by_cases hnone : ∃ txin ∈ tx.vin, inputMarker env.toTxEnv node.db mapInputs txin.prevout = none
  · -- a block refuses such an input, so the scan has to end at a marker that is set
    obtain ⟨txin, htxin, hmissing⟩ := hnone
    have hno : ¬ ∀ txin ∈ tx.vin, ConnectUnspent env node pBlock tx txin.prevout := by
      intro hall
      obtain ⟨marker, hmarker, -⟩ := (connectUnspent_iff hknown htxin).mp (hall txin htxin)
      rw [hmissing] at hmarker
      cases hmarker
    rw [iff_false_right hno, not_not]
    constructor
    · exact fun h => ⟨h.2, fun hall => absurd hmissing (hall txin htxin)⟩
    · intro h
      obtain ⟨pre, post, heq⟩ := append_of_mem htxin
      obtain ⟨t, ht, hset⟩ := h.missing pre txin post heq hmissing
      exact ⟨⟨t, by rw [heq]; exact mem_append_left _ ht, hset⟩, h.missing⟩
  · push Not at hnone
    have hsettled : MissingAfterMarked env.toTxEnv node.db mapInputs tx.vin := by
      intro pre txin post heq hmissing
      exact absurd hmissing (hnone txin (by rw [heq]; simp))
    have hfree : (∀ txin ∈ tx.vin, ConnectUnspent env node pBlock tx txin.prevout) ↔
        ¬ ∃ txin ∈ tx.vin, ∃ marker,
          inputMarker env.toTxEnv node.db mapInputs txin.prevout = some marker ∧
            alreadySpent env.toTxEnv node.db tx marker = true := by
      constructor
      · rintro hall ⟨txin, htxin, marker, hmarker, halready⟩
        obtain ⟨marker', hmarker', hfree⟩ :=
          (connectUnspent_iff hknown htxin).mp (hall txin htxin)
        rw [hmarker] at hmarker'
        cases hmarker'
        rw [halready] at hfree
        cases hfree
      · intro hno txin htxin
        obtain ⟨marker, hmarker⟩ := ne_none_iff_exists'.mp (hnone txin htxin)
        refine (connectUnspent_iff hknown htxin).mpr
          ⟨marker, hmarker, Bool.eq_false_iff.mpr fun halready => ?_⟩
        exact hno ⟨txin, htxin, marker, hmarker, halready⟩
    rw [hfree, and_iff_left hsettled, not_iff_not]
    constructor
    · exact fun h => ⟨hsettled, fun _ => h.mp⟩
    · refine fun h => ⟨h.stale hnone, ?_⟩
      rintro ⟨txin, htxin, marker, hmarker, halready⟩
      exact ⟨txin, htxin, marker, hmarker, hmarked marker halready⟩

def cacheSample : TxCache := fun hash =>
  if hash = 1 then some (spendTx 1 [(9, 0)] [50, 50, 0]) else none

/-- In the sample chain nothing is spent, and both say so. -/
theorem spentness_agrees_sample :
    (areInputsSpent connectEnvSample.toTxEnv nodeSample.db cacheSample
      (spendTx 4 [(1, 0)] [40]).vin = false ↔
      ∀ txin ∈ (spendTx 4 [(1, 0)] [40]).vin,
        ConnectUnspent connectEnvSample nodeSample none (spendTx 4 [(1, 0)] [40]) txin.prevout) ∧
    areInputsSpent connectEnvSample.toTxEnv nodeSample.db cacheSample
      (spendTx 4 [(1, 0)] [40]).vin = false := by
  have hzero : inputMarker connectEnvSample.toTxEnv nodeSample.db cacheSample ⟨1, 0⟩ = some 0 := by
    decide
  refine ⟨(spentness_agrees_iff connectEnvSample nodeSample none (spendTx 4 [(1, 0)] [40])
    cacheSample ?_).mpr ⟨?_, ?_⟩, rfl⟩
  · intro txin htxin
    obtain rfl := mem_singleton.mp htxin
    exact ⟨_, 100, rfl, rfl⟩
  · intro pre txin post heq hnone
    have htxin : txin ∈ (spendTx 4 [(1, 0)] [40]).vin := by rw [heq]; simp
    obtain rfl := mem_singleton.mp htxin
    rw [hzero] at hnone
    cases hnone
  · rintro - ⟨txin, htxin, marker, hmarker, hne⟩
    obtain rfl := mem_singleton.mp htxin
    rw [hzero] at hmarker
    exact absurd (some.inj hmarker).symm hne

/-- **The pool and a block disagree.** The transaction of the chain has three outputs, and the pool
    takes a sixth one for unspent. And where the marker of the first one names a transaction that is
    not in the chain, the pool takes it for spent, and a block does not. -/
theorem spentness_disagrees :
    (areInputsSpent connectEnvSample.toTxEnv nodeSample.db cacheSample
        (spendTx 5 [(1, 5)] [40]).vin = false ∧
      ¬ ConnectUnspent connectEnvSample nodeSample none (spendTx 5 [(1, 5)] [40]) ⟨1, 5⟩) ∧
    areInputsSpent connectEnvSample.toTxEnv dbSpent cacheSample
        (spendTx 5 [(1, 0)] [40]).vin = true ∧
      ConnectUnspent connectEnvSample { nodeSample with db := dbSpent } none
        (spendTx 5 [(1, 0)] [40]) ⟨1, 0⟩ := by
  refine ⟨⟨rfl, ?_⟩, rfl,
    ⟨_, 100, [4, 0, 0], 4, rfl, rfl, rfl, rfl, rfl⟩⟩
  rintro ⟨prevtx, hashBlock, outs, marker, hfind, -, hlen, hmarker, -⟩
  have hprev : findPrevTx connectEnvSample nodeSample none 1 =
      some (spendTx 1 [(9, 0)] [50, 50, 0], 100) := rfl
  obtain ⟨rfl, -⟩ := Prod.mk.inj (some.inj (hprev.symm.trans hfind))
  have hlt := (List.getElem?_eq_some_iff.mp hmarker).1
  rw [hlen] at hlt
  exact absurd hlt (by decide)

/-! ## Entries -/

section

variable {env : PoolEnv} {s : PoolState}

theorem findEntry_insertEntry (ptx : CPoolTx) (queue : List CPoolTx) :
    (findEntry env.toTxEnv (insertEntry env ptx queue) (env.getHash ptx.tx)).isSome = true := by
  induction queue with
  | nil => simp [insertEntry, findEntry]
  | cons x xs ih =>
    rw [insertEntry]
    split_ifs with hlt heq
    · simp [findEntry]
    · simp [findEntry]
    · rw [findEntry, find?_cons_of_neg (by simpa using fun h => heq h.symm)]
      exact ih

/-! ## What a rejection keeps -/

/-- The active queue and the stores are as they were. -/
def SameActive (s s' : PoolState) : Prop := s'.pool.active = s.pool.active ∧ s'.db = s.db

theorem sameActive_addOverflowTx (ptx : CPoolTx) : SameActive s (addOverflowTx env s ptx).2 := by
  rw [addOverflowTx]
  split_ifs <;> exact ⟨rfl, rfl⟩

theorem sameActive_addPendingTx (ptx : CPoolTx) : SameActive s (addPendingTx env s ptx) := by
  rw [addPendingTx]
  split_ifs <;> exact ⟨rfl, rfl⟩

theorem sameActive_addInvalTx (ptx : CPoolTx) : SameActive s (addInvalTx env s ptx) := by
  unfold SameActive addInvalTx
  exact ⟨rfl, rfl⟩

/-- All previous transactions of an entry have been looked up. -/
def CPoolTx.HasInputs (ptx : CPoolTx) : Prop :=
  ∀ txin ∈ ptx.tx.vin, (ptx.mapInputs txin.prevout.hash).isSome = true

theorem fillLoop_of_known {mapInputs : TxCache}
    (h : ∀ txin ∈ vin, (mapInputs txin.prevout.hash).isSome = true) :
    fillLoop env recover vin mapInputs s = some (true, mapInputs, s) := by
  induction vin with
  | nil => rfl
  | cons txin vin ih =>
    rw [fillLoop, if_pos (h txin mem_cons_self)]
    exact ih (forall_mem_cons.mp h).2

theorem fillLoop_fills :
    ∀ {mapInputs mapInputs' : TxCache} {s s' : PoolState},
      fillLoop env recover vin mapInputs s = some (true, mapInputs', s') →
      (∀ hash, (mapInputs hash).isSome = true → (mapInputs' hash).isSome = true) ∧
      ∀ txin ∈ vin, (mapInputs' txin.prevout.hash).isSome = true := by
  induction vin with
  | nil =>
    intro mapInputs mapInputs' s s' h
    cases h
    exact ⟨fun _ h => h, fun _ h => by cases h⟩
  | cons txin vin ih =>
    intro mapInputs mapInputs' s s' h
    -- an input is in the table when the rest is looked up, and stays there
    have hadd : ∀ {prevTx s₁}, fillLoop env recover vin
        (update mapInputs txin.prevout.hash (some prevTx)) s₁ =
          some (true, mapInputs', s') →
        (∀ hash, (mapInputs hash).isSome = true → (mapInputs' hash).isSome = true) ∧
        ∀ t ∈ txin :: vin, (mapInputs' t.prevout.hash).isSome = true := by
      intro prevTx s₁ hrest
      obtain ⟨hkeep, hfill⟩ := ih hrest
      have hself := hkeep txin.prevout.hash (by rw [update_self]; rfl)
      refine ⟨fun hash hsome => hkeep hash ?_, fun t ht => ?_⟩
      · by_cases heq : hash = txin.prevout.hash
        · rw [heq, update_self]
          rfl
        · rw [update_of_ne heq]
          exact hsome
      · rcases mem_cons.mp ht with rfl | ht
        · exact hself
        · exact hfill t ht
    rw [fillLoop] at h
    split_ifs at h with hknown
    · obtain ⟨hkeep, hfill⟩ := ih h
      refine ⟨hkeep, fun t ht => ?_⟩
      rcases mem_cons.mp ht with rfl | ht
      · exact hkeep _ hknown
      · exact hfill t ht
    · cases hlookup : lookupActive env s txin.prevout.hash with
      | some prevTx =>
        rw [hlookup] at h
        exact hadd h
      | none =>
        rw [hlookup] at h
        obtain ⟨⟨found, s₁⟩, -, hrest⟩ := bind_eq_some_iff.mp h
        cases found with
        | none => cases hrest
        | some prevTx => exact hadd hrest

theorem poolFillInputs_fills {fuel : Nat} {tx : CTransaction} {m m' : TxCache} {s' : PoolState}
    (h : poolFillInputs env fuel s tx m = some (true, m', s')) :
    ∀ txin ∈ tx.vin, (m' txin.prevout.hash).isSome = true := by
  cases fuel with
  | zero => cases h
  | succ fuel => exact (fillLoop_fills h).2

theorem addActiveTx_outcome (fuel : Nat) {ptx : CPoolTx} (hinputs : ptx.HasInputs) :
    ∃ ok s', addActiveTx env (fuel + 1) s ptx = some (ok, s') ∧
      (SameActive s s' ∨ findEntry env.toTxEnv s.pool.active (env.getHash ptx.tx) = none ∧
        (findEntry env.toTxEnv s'.pool.active (env.getHash ptx.tx)).isSome = true) := by
  unfold addActiveTx addActiveWith
  dsimp only
  cases hactive : findEntry env.toTxEnv s.pool.active (env.getHash ptx.tx) with
  | some _ => exact ⟨true, s, rfl, .inl ⟨rfl, rfl⟩⟩
  | none =>
    by_cases hweight : env.maxWeight < activeWeight s + ptx.nWeight
    · rw [if_pos hweight]
      exact ⟨_, _, rfl, .inl (sameActive_addOverflowTx ptx)⟩
    rw [if_neg hweight, poolFillInputs, fillLoop_of_known hinputs, map_some]
    simp only [Bool.not_true, Bool.false_eq_true, if_false]
    -- up to the conflicts, a rejection changes the other queues at most
    by_cases hspent : areInputsSpent env.toTxEnv s.db ptx.mapInputs ptx.tx.vin = true
    · rw [if_pos hspent]
      exact ⟨_, _, rfl, .inl (sameActive_addInvalTx _)⟩
    rw [if_neg hspent]
    cases resolveScripts env ptx.tx ptx.mapInputs (ptx.tx.vin.zipIdx.drop 1) with
    | invalid => exact ⟨_, _, rfl, .inl (sameActive_addInvalTx _)⟩
    | immature => exact ⟨_, _, rfl, .inl (sameActive_addOverflowTx _)⟩
    | pass =>
      cases resolveConflicts env _ ptx.tx with
      | none => exact ⟨_, _, rfl, .inl (sameActive_addInvalTx _)⟩
      | some s₁ => exact ⟨_, _, rfl, .inr ⟨trivial, findEntry_insertEntry _ s₁.pool.active⟩⟩

end

/-! ## A pool to try it on -/

/-- A pool with room for everything. The signature of the second input of transaction 6 is wrong. -/
def poolEnvSample : PoolEnv where
  toTxEnv := connectEnvSample.toTxEnv
  maxWeight := 1000
  maxQueueMem := 1000
  bestHeight := 1
  coinbaseMaturity := 0
  txHeight := fun _ => none
  checkFinal := fun _ => true
  isExpired := fun _ => false
  verifyStandards := fun _ _ => true
  verifySignature := fun _ tx _ => tx.nLockTime != 6

end ShareCoin.Server
