import ShareCoin.Proof.Server.PoolCalls

/-!
# What holds in every pool

Along every run of calls no two active transactions spend one output, and `mapNextTx` has what an
active entry spends. A hash has one place as long as no transaction is added that spends an output
of an orphan: an orphan that is taken up and refused stays where it was.

`AddActiveTx` looks at the signatures of all inputs but the first, so an entry that it inserts has
been verified exactly if its first input would have been. That needs no run: it holds of every
state, and of what is made active while the inputs are looked up as well.
-/

namespace ShareCoin.Server

open Lib List Option

/-! ## Runs -/

abbrev poolStep (pool : CPool) (c : PoolCall) : Option CPool :=
  (c.step pool).map PoolState.pool

theorem run_inv {k : PoolConst} (tight : Prop) {calls : List PoolCall} {pool pool' : CPool}
    (hcalls : ∀ c ∈ calls, c.env.const = k)
    (h : PoolInv k tight (fun _ => False) (fun _ => False) pool)
    (hcond : tight → StepsOk poolStep (fun pool c => c.NoOrphan pool) pool calls)
    (hrun : exec poolStep pool calls = some pool') :
    PoolInv k tight (fun _ => False) (fun _ => False) pool' := by
  induction calls generalizing pool with
  | nil =>
    cases hrun
    exact h
  | cons c calls ih =>
    obtain ⟨_, hstep, hrun⟩ := exec_cons_eq_some.mp hrun
    obtain rfl := hcalls c mem_cons_self
    refine ih (forall_mem_cons.mp hcalls).2 ?_
      (fun ht => (hcond ht).tail hstep) hrun
    obtain ⟨s', hs, rfl⟩ := map_eq_some_iff.mp hstep
    exact step_inv h (fun ht => (hcond ht).1) hs

/-- **No two active transactions spend one output**, and the map of an active entry has what it
    spends. -/
theorem active_conflict_free {k : PoolConst} {calls : List PoolCall} {pool : CPool}
    (hcalls : ∀ c ∈ calls, c.env.const = k) (hrun : poolRun calls = some pool) :
    (pool.active.Pairwise fun a b => ∀ o ∈ a.tx.prevouts, o ∉ b.tx.prevouts) ∧
      ∀ ptx ∈ pool.active, ∀ o, o ∈ ptx.mapNextTx ↔ o ∈ ptx.tx.prevouts := by
  have h := run_inv False hcalls poolInv_empty False.elim hrun
  refine ⟨h.apart, fun ptx hptx o => ?_⟩
  have hok := h.entries .active ptx hptx
  exact ⟨fun ho => hok.next_sub ho, fun ho => hok.active rfl ho⟩

/-- **Each hash is in one queue**, along a run in which no transaction is added that spends an
    output of a pending one. -/
theorem one_queue_of_no_orphan {k : PoolConst} {calls : List PoolCall} {pool : CPool}
    (hcalls : ∀ c ∈ calls, c.env.const = k)
    (hcond : StepsOk poolStep (fun pool c => c.NoOrphan pool) {} calls)
    (hrun : poolRun calls = some pool) : OneQueue k.getHash pool :=
  (run_inv True hcalls poolInv_empty (fun _ => hcond) hrun).single trivial

/-! ## Calls of `AddActiveTx` -/

/-- The calls of `AddActiveTx` that are made: the states that they find, and the entries. -/
abbrev ActiveCalls := List (PoolState × CPoolTx)

section

variable (env : PoolEnv) (calls : PoolState → CTransaction → TxCache → ActiveCalls)

/-- A call, and those of its `FillInputs`. -/
def addActiveCalls (s : PoolState) (ptx : CPoolTx) : ActiveCalls :=
  (s, ptx) ::
    if (findEntry env.toTxEnv s.pool.active (env.getHash ptx.tx)).isSome ∨
      env.maxWeight < activeWeight s + ptx.nWeight then []
    else calls ⟨s.db, s.pool.unqueued env ptx⟩ ptx.tx ptx.mapInputs

def recoverCalls (fill : PoolState → CTransaction → TxCache → Option Filled) (s : PoolState)
    (hash : Uint256) : ActiveCalls :=
  match findEntry env.toTxEnv s.pool.overflow hash with
  | some ptx =>
    if env.checkFinal ptx.tx && decide (env.maxWeight ≤ activeWeight s + ptx.nWeight) then
      addActiveCalls env calls (removeTx env.toTxEnv s hash) ptx
    else []
  | none =>
    match findEntry env.toTxEnv s.pool.pending hash with
    | none => []
    | some orphan => calls s orphan.tx (fun _ => none) ++
      match fill s orphan.tx fun _ => none with
      | some (true, mapInputs, s) =>
        if env.verifyStandards orphan.tx mapInputs then
          addActiveCalls env calls s { orphan with mapInputs }
        else []
      | _ => []

end

def fillLoopCalls (env : PoolEnv)
    (recover : PoolState → Uint256 → Option (Option CTransaction × PoolState))
    (calls : PoolState → Uint256 → ActiveCalls) : List CTxIn → TxCache → PoolState → ActiveCalls
  | [], _, _ => []
  | txin :: vin, mapInputs, s =>
    let hash := txin.prevout.hash
    if (mapInputs hash).isSome then fillLoopCalls env recover calls vin mapInputs s
    else
      match lookupActive env s hash with
      | some prevTx =>
        fillLoopCalls env recover calls vin (Function.update mapInputs hash (some prevTx)) s
      | none => calls s hash ++
        match recover s hash with
        | some (some prevTx, s) =>
          fillLoopCalls env recover calls vin (Function.update mapInputs hash (some prevTx)) s
        | _ => []

def fillCalls (env : PoolEnv) : Nat → PoolState → CTransaction → TxCache → ActiveCalls
  | 0, _, _, _ => []
  | fuel + 1, s, tx, mapInputs =>
    fillLoopCalls env (recoverTx env (poolFillInputs env fuel))
      (recoverCalls env (fillCalls env fuel) (poolFillInputs env fuel)) tx.vin mapInputs s

section

variable (env : PoolCallEnv) (fuel : Nat) (s : PoolState)

def purgeActiveCalls : ActiveCalls :=
  match (env.sort s.pool.overflow).find? fun ptx =>
      env.checkFinal ptx.tx && decide (activeWeight s + ptx.nWeight < env.maxWeight) with
  | none => []
  | some ptx => addActiveCalls env.toPoolEnv (fillCalls env.toPoolEnv fuel)
      (removeTx env.toTxEnv s (env.getHash ptx.tx)) ptx

def overflowCalls : List CPoolTx → Int → PoolState → ActiveCalls
  | [], _, _ => []
  | ptx :: rest, nWeight, s =>
    let hash := env.getHash ptx.tx
    match findEntry env.toTxEnv s.pool.overflow hash with
    | none => overflowCalls rest nWeight s
    | some ptx =>
      if env.maxWeight < nWeight + ptx.nWeight then overflowCalls rest nWeight s
      else addActiveCalls env.toPoolEnv (fillCalls env.toPoolEnv fuel) s ptx ++
        match addActiveTx env.toPoolEnv fuel s ptx with
        | none => []
        | some (_, s) => overflowCalls rest
          (if (findEntry env.toTxEnv s.pool.active hash).isSome then nWeight + ptx.nWeight
            else nWeight) s

def purgeOverflowCalls : ActiveCalls :=
  let overflow := s.pool.overflow.filter fun ptx => !env.overflowExpired ptx.tx
  let s := { s with pool := { s.pool with overflow } }
  overflowCalls env fuel (env.sort (overflow.filter fun ptx => env.checkFinal ptx.tx))
    (activeWeight s) s

def addTxCalls (tx : CTransaction) (isLocal : Bool) : ActiveCalls :=
  let tx := env.enforceCoinStandards tx
  let hash := env.getHash tx
  if s.pool.inval.contains hash || (s.pool.getTx env.toTxEnv hash).isSome ||
      (getTransaction env.toTxEnv s.db hash).isSome || !env.verifyTx tx then []
  else fillCalls env.toPoolEnv fuel s tx (fun _ => none) ++
    match poolFillInputs env.toPoolEnv fuel s tx fun _ => none with
    | some (true, mapInputs, s) =>
      let nWeight : Int := env.getTransactionWeight tx
      let ptx : CPoolTx := { tx, mapInputs, nWeight, nTxSize := (nWeight + 3) / 4 }
      let nSigOpCost := env.getSigOpCost tx mapInputs
      let nFee := env.getFee tx mapInputs
      if env.maxWeight < nWeight || env.maxSigOpCost < nSigOpCost ||
          !env.verifyStandards tx mapInputs || nFee < env.minRelayTxFee ||
          !isLocal && (decide (env.softWeight < nWeight) ||
            decide (env.softSigOpCost < nSigOpCost)) ||
          nFee < env.calculateSoftFee tx || !env.checkFinal tx then []
      else purgeActiveCalls env fuel s ++
        match purgeActiveTx env fuel s with
        | none => []
        | some s => addActiveCalls env.toPoolEnv (fillCalls env.toPoolEnv fuel) s ptx
    | _ => []

end

def PoolCall.activeCalls (c : PoolCall) (pool : CPool) : ActiveCalls :=
  match c.op with
  | .addTx tx isLocal => addTxCalls c.env c.fuel ⟨c.db, pool⟩ tx isLocal
  | .commit vtx =>
    purgeOverflowCalls c.env c.fuel (commitPool c.env.toTxEnv ⟨c.db, pool⟩ vtx)
  | .purgeActiveTx => purgeActiveCalls c.env c.fuel ⟨c.db, pool⟩
  | .purgeOverflowTx => purgeOverflowCalls c.env c.fuel ⟨c.db, pool⟩
  | .removeTx _ | .purgePendingTx => []

section

variable {env : PoolCallEnv} {fuel : Nat} {s : PoolState} {ptx : CPoolTx}

/-- The previous transactions of every entry have been looked up. -/
def LookedUp (calls : ActiveCalls) : Prop := ∀ a ∈ calls, a.2.HasInputs

theorem fillCalls_of_known {env : PoolEnv} {tx : CTransaction} {m : TxCache}
    (h : ∀ txin ∈ tx.vin, (m txin.prevout.hash).isSome = true) :
    fillCalls env fuel s tx m = [] := by
  cases fuel with
  | zero => rfl
  | succ fuel =>
    rw [fillCalls]
    generalize tx.vin = vin at h
    induction vin with
    | nil => rfl
    | cons txin vin ih =>
      rw [fillLoopCalls, if_pos (h txin mem_cons_self)]
      exact ih (forall_mem_cons.mp h).2

theorem addActiveCalls_lookedUp {env : PoolEnv} (h : ptx.HasInputs) :
    LookedUp (addActiveCalls env (fillCalls env fuel) s ptx) := by
  rw [addActiveCalls, fillCalls_of_known h, ite_self]
  exact forall_mem_singleton.mpr h

/-- What every pool of a run is like, and every pool within a call. -/
abbrev LooseInv (k : PoolConst) (pool : CPool) : Prop :=
  PoolInv k False (fun _ => False) (fun _ => False) pool

theorem recoverCalls_lookedUp {hash : Uint256}
    (hcalls : ∀ {s tx m}, LooseInv env.const s.pool →
      LookedUp (fillCalls env.toPoolEnv fuel s tx m)) (h : LooseInv env.const s.pool) :
    LookedUp (recoverCalls env.toPoolEnv (fillCalls env.toPoolEnv fuel)
      (poolFillInputs env.toPoolEnv fuel) s hash) := by
  unfold recoverCalls
  split
  · next ptx hptx =>
    split_ifs
    · exact addActiveCalls_lookedUp
        ((h.entries .overflow ptx (mem_of_findEntry _ hptx).1).filled rfl)
    · exact forall_mem_nil _
  · split
    · exact forall_mem_nil _
    · refine forall_mem_append.mpr ⟨hcalls h, ?_⟩
      split
      · next mapInputs s₁ hfill =>
        split_ifs
        · exact addActiveCalls_lookedUp (poolFillInputs_fills hfill)
        · exact forall_mem_nil _
      · exact forall_mem_nil _

theorem fillCalls_lookedUp : ∀ {s : PoolState} {tx : CTransaction} {m : TxCache},
    LooseInv env.const s.pool → LookedUp (fillCalls env.toPoolEnv fuel s tx m) := by
  induction fuel with
  | zero => exact fun _ => forall_mem_nil _
  | succ fuel ih =>
    intro s tx m h
    rw [fillCalls]
    induction tx.vin generalizing s m with
    | nil => exact forall_mem_nil _
    | cons txin vin ihvin =>
      rw [fillLoopCalls]
      split_ifs
      · exact ihvin h
      split
      · exact ihvin h
      · refine forall_mem_append.mpr ⟨recoverCalls_lookedUp ih h, ?_⟩
        split
        · next prevTx s₁ hrec =>
          exact ihvin (recoverTx_inv (poolFillInputs_inv fuel) h False.elim hrec)
        · exact forall_mem_nil _

theorem purgeActiveCalls_lookedUp (h : LooseInv env.const s.pool) :
    LookedUp (purgeActiveCalls env fuel s) := by
  unfold purgeActiveCalls
  split
  · exact forall_mem_nil _
  · next ptx hptx =>
    have hmem : ptx ∈ s.pool.overflow := (env.sort_perm _).mem_iff.mp (mem_of_find?_eq_some hptx)
    exact addActiveCalls_lookedUp ((h.entries .overflow ptx hmem).filled rfl)

theorem overflowCalls_lookedUp {vPoolTx : List CPoolTx} : ∀ {s : PoolState} {nWeight : Int},
    LooseInv env.const s.pool → LookedUp (overflowCalls env fuel vPoolTx nWeight s) := by
  induction vPoolTx with
  | nil => exact fun _ => forall_mem_nil _
  | cons x vPoolTx ih =>
    intro s nWeight h
    rw [overflowCalls]
    split
    · exact ih h
    · next ptx hptx =>
      have hok := h.entries .overflow ptx (mem_of_findEntry _ hptx).1
      split_ifs
      · exact ih h
      · refine forall_mem_append.mpr ⟨addActiveCalls_lookedUp (hok.filled rfl), ?_⟩
        split
        · exact forall_mem_nil _
        · next ok s₁ hadd => exact ih (addActiveTx_inv h hok False.elim hadd)

theorem purgeOverflowCalls_lookedUp (h : LooseInv env.const s.pool) :
    LookedUp (purgeOverflowCalls env fuel s) :=
  overflowCalls_lookedUp (h.shrink (overflowFilter_shrinks env s.pool))

theorem addTxCalls_lookedUp {tx : CTransaction} {isLocal : Bool} (h : LooseInv env.const s.pool) :
    LookedUp (addTxCalls env fuel s tx isLocal) := by
  unfold addTxCalls
  dsimp only
  split_ifs
  · exact forall_mem_nil _
  refine forall_mem_append.mpr ⟨fillCalls_lookedUp h, ?_⟩
  split
  · next mapInputs s₁ hfill =>
    have h₁ := poolFillInputs_inv fuel h False.elim hfill
    split_ifs
    · exact forall_mem_nil _
    · refine forall_mem_append.mpr ⟨purgeActiveCalls_lookedUp h₁, ?_⟩
      split
      · exact forall_mem_nil _
      · exact addActiveCalls_lookedUp (poolFillInputs_fills hfill)
  · exact forall_mem_nil _

theorem activeCalls_lookedUp {c : PoolCall} {pool : CPool} (h : LooseInv c.env.const pool) :
    LookedUp (c.activeCalls pool) := by
  unfold PoolCall.activeCalls
  split
  · exact addTxCalls_lookedUp h
  · next vtx hop =>
    exact purgeOverflowCalls_lookedUp (h.shrink (commitPool_shrinks _ ⟨c.db, pool⟩ vtx))
  · exact purgeActiveCalls_lookedUp h
  · exact purgeOverflowCalls_lookedUp h
  all_goals exact forall_mem_nil _

end

/-- **A rejected transaction removes nothing.** Whatever a run hands to `AddActiveTx`, its previous
    transactions have been looked up; and if it is not inserted, the active queue is what it was,
    and so are the markers. -/
theorem rejected_keeps_active {k : PoolConst} {calls : List PoolCall} {pool : CPool}
    {c : PoolCall} (hcalls : ∀ c ∈ calls, c.env.const = k) (hc : c.env.const = k)
    (hrun : poolRun calls = some pool) :
    ∀ a ∈ c.activeCalls pool, a.2.HasInputs ∧ ∀ fuel,
      ∃ ok s', addActiveTx c.env.toPoolEnv (fuel + 1) a.1 a.2 = some (ok, s') ∧
        ((findEntry c.env.toTxEnv a.1.pool.active (c.env.getHash a.2.tx)).isSome = true ∨
          findEntry c.env.toTxEnv s'.pool.active (c.env.getHash a.2.tx) = none →
          s'.pool.active = a.1.pool.active ∧ s'.db = a.1.db) := by
  subst hc
  intro a ha
  have hinputs := activeCalls_lookedUp (run_inv False hcalls poolInv_empty False.elim hrun) a ha
  refine ⟨hinputs, fun fuel => ?_⟩
  obtain ⟨ok, s', hadd, hsame | ⟨hbefore, hafter⟩⟩ :=
    @addActiveTx_outcome c.env.toPoolEnv a.1 fuel a.2 hinputs
  · exact ⟨ok, s', hadd, fun _ => hsame⟩
  · refine ⟨ok, s', hadd, ?_⟩
    rintro (hactive | hnone)
    · rw [hbefore] at hactive
      cases hactive
    · rw [hnone] at hafter
      cases hafter

/-! ## Verified inputs -/

/-- The signature of an input is accepted against the output that it refers to, and the output has
    matured if it is one of a coinbase of the chain. -/
def InputOk (env : PoolEnv) (tx : CTransaction) (mapInputs : TxCache) (x : CTxIn × Nat) : Prop :=
  ∃ txFrom, mapInputs x.1.prevout.hash = some txFrom ∧
    x.1.prevout.n.toNat < txFrom.vout.length ∧ env.verifySignature txFrom tx x.2 = true ∧
    (txFrom.isCoinBase = true → ∀ nHeight, env.txHeight x.1.prevout.hash = some nHeight →
      (env.coinbaseMaturity : Int) ≤ env.bestHeight + 1 - nHeight)

/-- The input of an entry at an index, if there is one, has been verified. -/
def InputVerified (env : PoolEnv) (ptx : CPoolTx) (i : Nat) : Prop :=
  ∀ txin, ptx.tx.vin[i]? = some txin → InputOk env ptx.tx ptx.mapInputs (txin, i)

/-- The blocks that transactions are found in are below the best one. -/
def PoolEnv.InChain (env : PoolEnv) : Prop :=
  env.bestHeight < 2 ^ 31 ∧ ∀ hash nHeight, env.txHeight hash = some nHeight →
    nHeight ≤ env.bestHeight

variable {fill : PoolState → CTransaction → TxCache → Option Filled}

section

variable {env : PoolEnv} {P : CPoolTx → Prop} {s s' : PoolState} {ptx : CPoolTx} {ok : Bool}

/-- Where the loop "resolve script" passes, it has found every input verified. -/
theorem resolveScripts_pass (hchain : env.InChain) {tx : CTransaction} {mapInputs : TxCache}
    {ins : List (CTxIn × Nat)}
    (hknown : ∀ x ∈ ins, (mapInputs x.1.prevout.hash).isSome = true)
    (h : resolveScripts env tx mapInputs ins = .pass) : ∀ x ∈ ins, InputOk env tx mapInputs x := by
  induction ins with
  | nil => exact fun x hx => absurd hx not_mem_nil
  | cons y ins ih =>
    obtain ⟨txFrom, hfrom⟩ := isSome_iff_exists.mp (hknown y mem_cons_self)
    rw [resolveScripts, hfrom] at h
    dsimp only at h
    by_cases hbad : (decide (txFrom.vout.length ≤ y.1.prevout.n.toNat) ||
        !env.verifySignature txFrom tx y.2) = true
    · rw [if_pos hbad] at h
      cases h
    rw [if_neg hbad] at h
    simp only [Bool.or_eq_true, not_or, decide_eq_true_eq, Bool.not_eq_true',
      Bool.not_eq_false] at hbad
    -- only a coinbase that is found in the chain is asked for its depth
    have hrest : resolveScripts env tx mapInputs ins = .pass ∧ (txFrom.isCoinBase = true →
        ∀ nHeight, env.txHeight y.1.prevout.hash = some nHeight →
          (env.coinbaseMaturity : Int) ≤ env.bestHeight + 1 - nHeight) := by
      split at h
      · next nHeight hheight =>
        split_ifs at hheight with hcoin
        split_ifs at h with hdepth
        refine ⟨h, fun _ n hn => ?_⟩
        rw [hheight] at hn
        cases hn
        have hle := hchain.2 _ _ hheight
        omega
      · next hnone =>
        refine ⟨h, fun hcoin n hn => ?_⟩
        rw [if_pos hcoin, hn] at hnone
        cases hnone
    intro x hx
    rcases mem_cons.mp hx with rfl | hx
    · exact ⟨txFrom, hfrom, by omega, hbad.2, hrest.2⟩
    · exact ih (forall_mem_cons.mp hknown).2 hrest.1 x hx

/-- An entry has passed the loop, which starts at the second input. -/
def Checked (env : PoolEnv) (e : CPoolTx) : Prop :=
  e.HasInputs ∧ resolveScripts env e.tx e.mapInputs (e.tx.vin.zipIdx.drop 1) = .pass

theorem Checked.verified_iff (hchain : env.InChain) (h : Checked env ptx) :
    (∀ i, InputVerified env ptx i) ↔ InputVerified env ptx 0 := by
  refine ⟨fun hall => hall 0, fun hfirst i txin hi => ?_⟩
  cases i with
  | zero => exact hfirst txin hi
  | succ i =>
    have hmem : (txin, i + 1) ∈ ptx.tx.vin.zipIdx.drop 1 := by
      refine mem_of_getElem? (i := i) ?_
      rw [getElem?_drop, getElem?_zipIdx, Nat.add_comm 1 i, hi]
      simp
    refine resolveScripts_pass hchain (fun x hx => ?_) h.2 _ hmem
    exact h.1 x.1 (mem_of_mem_drop hx |> fst_mem_of_mem_zipIdx)

/-- What looking up inputs does to the active queue: it may grow by checked entries. -/
def FillChecks (P : CPoolTx → Prop)
    (fill : PoolState → CTransaction → TxCache → Option Filled) : Prop :=
  ∀ {s s' : PoolState} {tx : CTransaction} {m m' : TxCache} {ok : Bool},
    (∀ e ∈ s.pool.active, P e) → fill s tx m = some (ok, m', s') →
    (∀ e ∈ s'.pool.active, P e) ∧
      (ok = true → ∀ txin ∈ tx.vin, (m' txin.prevout.hash).isSome = true)

theorem addActiveWith_checks (hP : ∀ e, Checked env e → P e) (hfill : FillChecks P fill)
    (h : ∀ e ∈ s.pool.active, P e) (hadd : addActiveWith env fill s ptx = some (ok, s')) :
    ∀ e ∈ s'.pool.active, P e := by
  unfold addActiveWith at hadd
  dsimp only at hadd
  split_ifs at hadd
  · cases hadd
    exact h
  · have hsame : (addOverflowTx env s ptx).2.pool.active = s.pool.active :=
      (sameActive_addOverflowTx ptx).1
    rw [some.inj hadd] at hsame
    exact fun e he => h e (hsame ▸ he)
  · obtain ⟨⟨ok₁, mapInputs, s₁⟩, hfilled, hadd⟩ := map_eq_some_iff.mp hadd
    obtain ⟨h₁, hknown⟩ := hfill (by exact h) hfilled
    split_ifs at hadd with hno hspent
    · cases hadd
      exact fun e he => h₁ e ((sameActive_addPendingTx _).1 ▸ he)
    · cases hadd
      exact fun e he => h₁ e ((sameActive_addInvalTx _).1 ▸ he)
    · split at hadd
      · cases hadd
        exact fun e he => h₁ e ((sameActive_addInvalTx _).1 ▸ he)
      · cases hadd
        exact fun e he => h₁ e ((sameActive_addOverflowTx _).1 ▸ he)
      · next hscripts =>
        split at hadd
        · cases hadd
          exact fun e he => h₁ e ((sameActive_addInvalTx _).1 ▸ he)
        · next s₂ hres =>
          cases hadd
          intro e he
          rcases mem_insertEntry env he with he | rfl
          · unfold resolveConflicts at hres
            dsimp only at hres
            split_ifs at hres
            cases hres
            exact h₁ e ((removeEntries_active _ _ _).1.active.subset he)
          · exact hP _ ⟨hknown (by simpa using hno), hscripts⟩

theorem recoverTx_checks (hP : ∀ e, Checked env e → P e) (hfill : FillChecks P fill)
    {hash : Uint256} {found : Option CTransaction} (h : ∀ e ∈ s.pool.active, P e)
    (hrec : recoverTx env fill s hash = some (found, s')) : ∀ e ∈ s'.pool.active, P e := by
  unfold recoverTx at hrec
  split at hrec
  · split_ifs at hrec
    · obtain ⟨⟨ok, s₁⟩, hadd, heq⟩ := map_eq_some_iff.mp hrec
      cases heq
      exact addActiveWith_checks hP hfill
        (fun e he => h e ((removeTx_shrinks _ s hash).active.subset he)) hadd
    · cases hrec
      exact h
  · split at hrec
    · cases hrec
      exact h
    · obtain ⟨⟨ok, mapInputs, s₁⟩, hfilled, hrec⟩ := bind_eq_some_iff.mp hrec
      have h₁ := (hfill h hfilled).1
      dsimp only at hrec
      split_ifs at hrec
      · cases hrec
        exact h₁
      · obtain ⟨⟨ok₂, s₂⟩, hadd, hrec⟩ := bind_eq_some_iff.mp hrec
        have h₂ := addActiveWith_checks hP hfill h₁ hadd
        split_ifs at hrec <;> cases hrec <;> exact h₂

theorem poolFillInputs_checks (hP : ∀ e, Checked env e → P e) (fuel : Nat) :
    FillChecks P (poolFillInputs env fuel) := by
  induction fuel with
  | zero => exact fun _ hfill => nomatch hfill
  | succ fuel ih =>
    intro s s' tx m m' ok h hfill
    refine ⟨fillLoop_keeps (P := fun s => ∀ e ∈ s.pool.active, P e) (Q := fun _ => True)
      (fun _ h hrec => recoverTx_checks hP ih h hrec) h (fun _ _ => trivial) hfill, ?_⟩
    rintro rfl
    exact (fillLoop_fills hfill).2

/-- **What `AddActiveTx` verifies.** Of an entry that it makes active, all inputs have been verified
    exactly if the first one would have been: the loop starts at the second. -/
theorem inserted_verified_iff (hchain : env.InChain) {fuel : Nat}
    (hadd : addActiveTx env fuel s ptx = some (ok, s')) {e : CPoolTx} (he : e ∈ s'.pool.active)
    (hnew : e ∉ s.pool.active) : (∀ i, InputVerified env e i) ↔ InputVerified env e 0 := by
  have hchecked : e ∈ s.pool.active ∨ Checked env e :=
    addActiveWith_checks (P := fun e => e ∈ s.pool.active ∨ Checked env e) (fun _ => .inr)
      (poolFillInputs_checks (fun _ => .inr) fuel) (fun _ => .inl) hadd e he
  exact (hchecked.resolve_left hnew).verified_iff hchain

end

/-! ## Pools to try it on -/

def poolCallEnvSample : PoolCallEnv where
  toPoolEnv := poolEnvSample
  enforceCoinStandards := fun tx => tx
  verifyTx := fun _ => true
  getTransactionWeight := fun _ => 4
  getSigOpCost := fun _ _ => 0
  maxSigOpCost := 80
  softWeight := 400
  softSigOpCost := 80
  getFee := fun _ _ => 10
  minRelayTxFee := 1
  maxFreeTxSize := 100
  isFreeRelay := fun _ _ => true
  calculateSoftFee := fun _ => 1
  activeExpired := fun _ => false
  overflowExpired := fun _ => false
  sort := fun queue => queue
  sort_perm := fun _ => .refl _

def addCall (tx : CTransaction) : PoolCall where
  env := poolCallEnvSample
  db := nodeSample.db
  fuel := 3
  op := .addTx tx true

/-- Transactions 4 and 5 spend outputs of the chain, and are active. -/
def addedCalls : List PoolCall :=
  [addCall (spendTx 4 [(1, 0)] [40]), addCall (spendTx 5 [(1, 1)] [40])]

def addedPool : CPool := (poolRun addedCalls).getD {}

theorem addedPool_eq : poolRun addedCalls = some addedPool := rfl

theorem addedCalls_const : ∀ c ∈ addedCalls, c.env.const = poolCallEnvSample.const := by
  simp [addedCalls, addCall]

theorem active_conflict_free_sample :
    addedPool.active.map (fun ptx => ptx.tx.prevouts) = [[⟨1, 0⟩], [⟨1, 1⟩]] ∧
      (addedPool.active.Pairwise fun a b => ∀ o ∈ a.tx.prevouts, o ∉ b.tx.prevouts) ∧
      ∀ ptx ∈ addedPool.active, ∀ o, o ∈ ptx.mapNextTx ↔ o ∈ ptx.tx.prevouts :=
  ⟨rfl, active_conflict_free addedCalls_const addedPool_eq⟩

theorem one_queue_sample : OneQueue poolCallEnvSample.getHash addedPool := by
  refine one_queue_of_no_orphan addedCalls_const ?_ addedPool_eq
  -- no transaction is pending at any time
  refine StepsOk.cons ?_ (i := addCall _) rfl (StepsOk.cons ?_ (i := addCall _) rfl trivial)
  all_goals
    intro tx isLocal _ txin _
    exact not_mem_nil

/-- Transaction 6 spends the same outputs as the two others, which stay. -/
theorem rejected_keeps_active_sample :
    ∃ a s', a ∈ (addCall (spendTx 6 [(1, 0), (1, 1)] [20])).activeCalls addedPool ∧
      addActiveTx poolEnvSample 1 a.1 a.2 = some (false, s') ∧
      a.1.pool.active.map (fun ptx => ptx.tx) =
        [spendTx 4 [(1, 0)] [40], spendTx 5 [(1, 1)] [40]] ∧
      s'.pool.active = a.1.pool.active ∧ s'.db = a.1.db := by
  have hcall : ∃ a, a ∈ (addCall (spendTx 6 [(1, 0), (1, 1)] [20])).activeCalls addedPool ∧
      (addActiveTx poolEnvSample 1 a.1 a.2).map (fun r => (r.1,
        (findEntry poolEnvSample.toTxEnv r.2.pool.active (poolEnvSample.getHash a.2.tx)).isSome)) =
          some (false, false) ∧
      a.1.pool.active.map (fun ptx => ptx.tx) =
        [spendTx 4 [(1, 0)] [40], spendTx 5 [(1, 1)] [40]] :=
    ⟨_, mem_cons_self, rfl, rfl⟩
  obtain ⟨a, ha, hrefused, hactive⟩ := hcall
  obtain ⟨-, hkeeps⟩ := rejected_keeps_active addedCalls_const rfl addedPool_eq a ha
  obtain ⟨ok, s', hadd, hsame⟩ := hkeeps 0
  have hadd : addActiveTx poolEnvSample 1 a.1 a.2 = some (ok, s') := hadd
  rw [hadd, map_some, some.injEq, Prod.mk.injEq] at hrefused
  obtain ⟨rfl, hnone⟩ := hrefused
  rw [← Bool.not_eq_true, not_isSome_iff_eq_none] at hnone
  exact ⟨a, s', ha, hadd, hactive, hsame (.inr hnone)⟩

/-- **An orphan that is refused is in two queues.** Transaction 6 comes before the chain has what it
    spends, and waits. Transaction 7 spends its output; now its inputs are found, but the signature
    of the second is wrong. It is noted as invalid, and stays pending. -/
theorem refused_orphan_in_two_queues :
    ∃ pool, poolRun
        [{ addCall (spendTx 6 [(1, 0), (1, 1)] [20]) with
            db := ⟨fun _ => none, fun _ => [], fun _ => none⟩ },
          addCall (spendTx 7 [(6, 0)] [10])] = some pool ∧
      6 ∈ pool.hashes poolCallEnvSample.getHash .pending ∧
      6 ∈ pool.hashes poolCallEnvSample.getHash .inval :=
  ⟨_, rfl, by decide, by decide⟩

/-- Both inputs of transaction 4 are verified, as the first one is. -/
theorem inserted_verified_sample :
    ∃ s' e, addActiveTx poolEnvSample 2 { db := nodeSample.db }
        { tx := spendTx 4 [(1, 0), (1, 1)] [40] } = some (true, s') ∧ e ∈ s'.pool.active ∧
      e.tx.vin.length = 2 ∧ ∀ i, InputVerified poolEnvSample e i := by
  have hadd : ∃ s' e, addActiveTx poolEnvSample 2 { db := nodeSample.db }
      { tx := spendTx 4 [(1, 0), (1, 1)] [40] } = some (true, s') ∧ s'.pool.active = [e] ∧
      e.tx = spendTx 4 [(1, 0), (1, 1)] [40] ∧
      e.mapInputs 1 = some (spendTx 1 [(9, 0)] [50, 50, 0]) :=
    ⟨_, _, rfl, rfl, rfl, rfl⟩
  obtain ⟨s', e, hadd, he, htx, hinput⟩ := hadd
  have hmem : e ∈ s'.pool.active := by simp [he]
  have hchain : poolEnvSample.InChain := ⟨by decide, by simp [poolEnvSample]⟩
  refine ⟨s', e, hadd, hmem, by rw [htx]; rfl,
    (inserted_verified_iff hchain hadd hmem not_mem_nil).mpr ?_⟩
  intro txin htxin
  rw [htx] at htxin ⊢
  cases htxin
  exact ⟨_, hinput, by decide, rfl, by simp [poolEnvSample]⟩

/-- **The first input is not verified**: transaction 6 has one input, its signature is wrong, and
    the transaction is active. -/
theorem unsigned_first_input_active :
    ∃ pool e, poolRun [addCall (spendTx 6 [(1, 0)] [20])] = some pool ∧ pool.active = [e] ∧
      ¬ InputVerified poolEnvSample e 0 := by
  refine ⟨_, _, rfl, rfl, ?_⟩
  intro h
  obtain ⟨txFrom, -, -, hsig, -⟩ := h _ rfl
  exact Bool.false_ne_true hsig

end ShareCoin.Server
