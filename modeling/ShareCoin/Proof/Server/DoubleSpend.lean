import ShareCoin.Proof.Server.Connect

/-!
# Double spends in and across blocks

The test of `core_ConnectCoinInputs` lets a marker pass that names the transaction itself, or one
that is not in the chain. A transaction of the block that is being connected is not in the chain
yet. So the test keeps a block from spending again what an earlier block has spent, but it does not
keep two inputs of the block apart: it does so only for a transaction that was in the chain before.
-/

namespace ShareCoin.Server

open Lib

/-- No two inputs of the block refer to the same output. -/
def SpendsOnce (vtx : List CTransaction) : Prop := ((spends vtx).map Prod.snd).Nodup

/-- The output is recorded as spent by another transaction, which is in the chain. -/
def SpentElsewhere (env : TxEnv) (db : ChainDb) (e : CTransaction × COutPoint) : Prop :=
  db.marker e.2 ≠ 0 ∧ db.marker e.2 ≠ env.getHash e.1 ∧
    (getTransaction env db (db.marker e.2)).isSome = true

/-- The hash of the earlier one of two spends stops the later one. -/
def Caught (env : TxEnv) (db : ChainDb) (a b : CTransaction × COutPoint) : Prop :=
  env.getHash a.1 ≠ 0 ∧ env.getHash a.1 ≠ env.getHash b.1 ∧
    verifyTxHash env db (env.getHash a.1) = true

instance (vtx : List CTransaction) : Decidable (SpendsOnce vtx) :=
  inferInstanceAs (Decidable (List.Nodup _))

/-- **An accepted block spends every output once**, and none that another transaction of the chain
    has spent, exactly when any two inputs with the same output are caught by the test: the earlier
    transaction has been in the chain before. -/
theorem connect_spends_once_iff (env : ConnectEnv) (disk : Disk) (iface : CIface) (node : Node)
    (block : CBlock) (pindex : CBlockIndex) (node' : Node)
    (h : coreConnectBlock env disk iface node block pindex = some (true, node')) :
    (SpendsOnce block.vtx ∧
        ∀ e ∈ spends block.vtx, ¬ SpentElsewhere env.toTxEnv node.db e) ↔
      (spends block.vtx).Pairwise fun a b => a.2 = b.2 → Caught env.toTxEnv node.db a b := by
  have hpass := (coreConnectBlock_accepted h).passes
  constructor
  · rintro ⟨honce, -⟩
    have hne : (spends block.vtx).Pairwise fun a b => a.2 ≠ b.2 := List.pairwise_map.mp honce
    exact hne.imp fun hne heq => absurd heq hne
  · intro hcaught
    have honce : SpendsOnce block.vtx :=
      hpass.nodup (hcaught.imp fun hc heq => busy_iff.mpr (hc heq))
    exact ⟨honce, fun e he hspent => hpass.free honce he (busy_iff.mpr hspent)⟩

/-- **Two transactions of a block spend one output.** Transactions 3 and 4 both spend the first
    output of transaction 1, and the block is accepted. -/
theorem connect_accepts_conflict : let block : CBlock :=
      { hash := 101
        vtx := [coinbaseTx 2 [1000], spendTx 3 [(1, 0)] [50], spendTx 4 [(1, 0)] [40]] }
    (coreConnectBlock connectEnvSample diskSample shcIface nodeSample block (chainSample 1)).map
        Prod.fst = some true ∧ ¬ SpendsOnce block.vtx := by
  decide

theorem connect_spends_once_chained : SpendsOnce blockOne.vtx := by
  have hsome : (coreConnectBlock connectEnvSample diskSample shcIface nodeSample blockOne
      (chainSample 1)).map Prod.fst = some true := rfl
  obtain ⟨⟨_, node'⟩, hrun, rfl⟩ := Option.map_eq_some_iff.mp hsome
  refine ((connect_spends_once_iff connectEnvSample diskSample shcIface nodeSample blockOne
    (chainSample 1) node' hrun).mpr ?_).1
  have hne : (spends blockOne.vtx).Pairwise fun a b => a.2 ≠ b.2 := by decide
  exact hne.imp fun hne heq => absurd heq hne

end ShareCoin.Server
