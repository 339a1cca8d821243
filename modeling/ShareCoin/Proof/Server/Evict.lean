import ShareCoin.Proof.Server.Disconnect

/-!
# Whose spends a disconnect releases

`core_DisconnectCoinInputs` resets a marker without looking at it. For a transaction of the chain
the marker names the transaction itself. A transaction of the memory pool has set no marker: when it
is dropped because a block spends the same output, the marker names the transaction of the block,
and it is reset.
-/

namespace ShareCoin.Server

open Lib List Option

variable {env : TxEnv} {pool : CPool} {db : ChainDb} {tx : CTransaction}
  {es : List (CTransaction × COutPoint)}

/-! ## One transaction -/

section

variable (env : TxEnv) (pool : CPool) (db : ChainDb) (tx : CTransaction)

/-- Only markers that name the transaction are reset. -/
def ReleasesOwn : Prop :=
  ∀ o, db.marker o ≠ 0 → (disconnectInputs env pool db tx).marker o ≠ db.marker o →
    db.marker o = env.getHash tx

/-- The outputs that the transaction lets go, through its inputs or with its own record, are unspent
    or spent by itself. -/
def OwnSpends : Prop :=
  ∀ o : COutPoint, o.hash = env.getHash tx ∨ Releases env db pool tx o →
    db.marker o = 0 ∨ db.marker o = env.getHash tx

end

theorem releasesOwn_iff : ReleasesOwn env pool db tx ↔ OwnSpends env pool db tx := by
  have hd : Disconnected env db pool tx (disconnectInputs env pool db tx) := disconnectInputs_spec
  constructor
  · intro hown o ho
    by_cases hzero : db.marker o = 0
    · exact .inl hzero
    · refine .inr (hown o hzero ?_)
      rw [hd.zero o ho]
      exact fun h => hzero h.symm
  · intro hown o hzero hne
    by_cases ho : o.hash = env.getHash tx ∨ Releases env db pool tx o
    · exact (hown o ho).resolve_left hzero
    · rw [not_or] at ho
      exact absurd (hd.same o ho.1 ho.2) hne

/-! ## A commit of the memory pool -/

section

variable (env : TxEnv) (s : PoolState)

def RevertsOwn (hash : Uint256) : Prop :=
  ∀ ptx, findEntry env s.pool.active hash = some ptx → OwnSpends env s.pool s.db ptx.tx

def EvictsOwn (txin : CTxIn) : Prop :=
  StepsOk (fun s hash => some (removeTx env s hash)) (RevertsOwn env) s
    (conflicts env txin.prevout s.pool.active ++ conflicts env txin.prevout s.pool.overflow ++
      conflicts env txin.prevout s.pool.pending)

/-- Every eviction of `CPool::Commit` does. -/
def CommitsOwn (vtx : List CTransaction) : Prop :=
  StepsOk (fun s txin => some (removeTxWithInput env s txin)) (EvictsOwn env)
    (vtx.foldl (popTx env) s) (vtx.flatMap CTransaction.vin)

end

/-- The spends of a block are recorded, and none of its transactions is active. -/
structure Kept (env : TxEnv) (es : List (CTransaction × COutPoint)) (s : PoolState) : Prop where
  marked : ∀ e ∈ es, s.db.marker e.2 = env.getHash e.1
  apart : ∀ e ∈ es, ∀ ptx ∈ s.pool.active, env.getHash ptx.tx ≠ env.getHash e.1

variable {s : PoolState}

theorem mem_eraseEntry {hash : Uint256} {queue : List CPoolTx} {ptx : CPoolTx} :
    ptx ∈ eraseEntry env hash queue ↔ ptx ∈ queue ∧ env.getHash ptx.tx ≠ hash := by
  simp [eraseEntry]

theorem removeTx_kept {hash : Uint256} (hok : RevertsOwn env s hash) (hk : Kept env es s) :
    Kept env es (removeTx env s hash) := by
  unfold removeTx
  cases hf : findEntry env s.pool.active hash with
  | none =>
    split_ifs <;> exact ⟨hk.marked, hk.apart⟩
  | some ptx =>
    have hact : ptx ∈ s.pool.active := mem_of_find?_eq_some hf
    have hown := releasesOwn_iff.mpr (hok ptx hf)
    refine ⟨fun e he => ?_, fun e he t ht => hk.apart e he t (mem_eraseEntry.mp ht).1⟩
    -- a marker that changed would name the reverted transaction, which is not one of the block
    have hmark := hk.marked e he
    by_contra hne
    rw [← hmark] at hne
    by_cases hzero : s.db.marker e.2 = 0
    · have hd : Disconnected env s.db s.pool ptx.tx _ := disconnectInputs_spec
      by_cases ho : e.2.hash = env.getHash ptx.tx ∨ Releases env s.db s.pool ptx.tx e.2
      · rw [hzero] at hne
        exact hne (hd.zero e.2 ho)
      · rw [not_or] at ho
        exact hne (hd.same e.2 ho.1 ho.2)
    · have heq := hown e.2 hzero hne
      rw [hmark] at heq
      exact hk.apart e he ptx hact heq.symm

theorem removeTxWithInput_kept {txin : CTxIn} (hok : EvictsOwn env s txin) (hk : Kept env es s) :
    Kept env es (removeTxWithInput env s txin) :=
  foldl_invariant (fun _ _ => removeTx_kept) hok hk

theorem popTx_active {ptx : CPoolTx} (h : ptx ∈ (popTx env s tx).pool.active) :
    ptx ∈ s.pool.active ∧ (tx.isCoinBase = false → env.getHash ptx.tx ≠ env.getHash tx) := by
  unfold popTx at h
  dsimp only at h
  split_ifs at h with hskip
  · -- not in the pool at all, so not in the active queue
    refine ⟨h, ?_⟩
    intro hcb
    rw [hcb, Bool.false_or, isNone_iff_eq_none, CPool.getTx, or_eq_none_iff,
      or_eq_none_iff] at hskip
    have hnone := find?_eq_none.mp (map_eq_none_iff.mp hskip.1.1) ptx h
    simpa using hnone
  · obtain ⟨hmem, hne⟩ := mem_eraseEntry.mp h
    exact ⟨hmem, fun _ => hne⟩

theorem popTx_db : (popTx env s tx).db = s.db := by
  unfold popTx
  dsimp only
  split_ifs
  · rfl
  · rfl

theorem foldl_popTx {vtx : List CTransaction} :
    (vtx.foldl (popTx env) s).db = s.db ∧
    ∀ ptx ∈ (vtx.foldl (popTx env) s).pool.active, ptx ∈ s.pool.active ∧
      ∀ tx ∈ vtx, tx.isCoinBase = false → env.getHash ptx.tx ≠ env.getHash tx := by
  induction vtx generalizing s with
  | nil => exact ⟨rfl, fun ptx h => ⟨h, fun _ htx => absurd htx not_mem_nil⟩⟩
  | cons tx vtx ih =>
    refine ⟨ih.1.trans popTx_db, fun ptx h => ?_⟩
    obtain ⟨hmem, hrest⟩ := ih.2 ptx h
    obtain ⟨hmem', hfirst⟩ := popTx_active hmem
    refine ⟨hmem', ?_⟩
    intro tx' htx'
    rcases mem_cons.mp htx' with rfl | htx'
    · exact hfirst
    · exact hrest tx' htx'

/-- **A disconnect releases only its own spends exactly when the outputs it lets go are unspent or
    spent by the transaction itself.** In a commit of the memory pool whose evictions all meet this,
    every output that the block spends stays recorded as spent by it. -/
theorem disconnect_releases_own_iff (env : TxEnv) :
    (∀ (pool : CPool) (db : ChainDb) (tx : CTransaction),
      ReleasesOwn env pool db tx ↔ OwnSpends env pool db tx) ∧
    (∀ (s : PoolState) (block : CBlock), CommitsOwn env s block.vtx →
      (∀ e ∈ spends block.vtx, s.db.marker e.2 = env.getHash e.1) →
      ∀ e ∈ spends block.vtx, (commitPool env s block.vtx).db.marker e.2 = env.getHash e.1) := by
  refine ⟨fun pool db tx => releasesOwn_iff, fun s block hok hmark => ?_⟩
  have hstart : Kept env (spends block.vtx) (block.vtx.foldl (popTx env) s) := by
    refine ⟨fun e he => by rw [foldl_popTx.1, hmark e he], ?_⟩
    intro e he ptx hptx
    obtain ⟨hmem, hcb, -⟩ := mem_spends.mp he
    exact (foldl_popTx.2 ptx hptx).2 e.1 hmem hcb
  exact (foldl_invariant (fun _ _ => removeTxWithInput_kept) hok hstart).marked

def nodePooled (tx : CTransaction) : Node :=
  { nodeSample with pool := { active := [{ tx }] } }

/-- **An eviction releases the spend of a block.** Transaction 3 of the block spends the first
    output of transaction 1, as transaction 4 of the active queue does. The marker is 3 once the
    block is connected, and null once the pool has been committed. -/
theorem commit_releases_spend :
    let block : CBlock := { hash := 101, vtx := [coinbaseTx 2 [1000], spendTx 3 [(1, 0)] [50]] }
    let o : COutPoint := { hash := 1, n := 0 }
    (coreConnectBlock connectEnvSample diskSample shcIface (nodePooled (spendTx 4 [(1, 0)] [40]))
        block (chainSample 1)).map
      (fun r => (r.1, r.2.db.marker o,
        (commitPool connectEnvSample.toTxEnv ⟨r.2.db, r.2.pool⟩ block.vtx).db.marker o))
      = some (true, 3, 0) := by
  decide

def dbSpent : ChainDb :=
  { nodeSample.db with coins := fun hash => if hash = 1 then some [4, 0, 0] else none }

/-- Disconnecting transaction 4 clears the one marker that names it, and it is not in the pool. -/
theorem disconnect_releases_own_spent :
    ReleasesOwn connectEnvSample.toTxEnv nodeSample.pool dbSpent (spendTx 4 [(1, 0)] [40]) := by
  refine ((disconnect_releases_own_iff connectEnvSample.toTxEnv).1 nodeSample.pool dbSpent
    (spendTx 4 [(1, 0)] [40])).mpr ?_
  rintro o (ho | ⟨-, ⟨txin, htxin, rfl⟩, -⟩)
  · have hno : dbSpent.coins o.hash = none := by
      rw [ho]
      decide
    exact .inl (by rw [ChainDb.marker, hno]; rfl)
  · obtain rfl := mem_singleton.mp htxin
    exact .inr rfl

end ShareCoin.Server
