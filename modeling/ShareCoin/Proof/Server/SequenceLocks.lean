import ShareCoin.Server.SequenceLocks
import ShareCoin.Proof.Server.Connect

/-!
# Relative lock times in a block

A transaction passes `SequenceLocks` exactly if each of its inputs would pass alone. The hash of a
transaction is not in the table of blocks, so for a block every input comes from height zero, and a
lock that counts blocks ends too early.
-/

namespace ShareCoin.Server

open List

variable {medianTime : CBlockIndex → Int} {block : CBlockIndex} {tx : CTransaction}

def matured (medianTime : CBlockIndex → Int) (block : CBlockIndex) (input : CTxIn × Nat) : Bool :=
  evaluateSequenceLocks medianTime block (lockInput medianTime block (-1, -1) input)

/-- One input adds its own lock to those before it. -/
theorem lockInput_step {lockPair : Int × Int} (h : -1 ≤ lockPair.1 ∧ -1 ≤ lockPair.2)
    (input : CTxIn × Nat) :
    let lockPair' := lockInput medianTime block lockPair input
    (-1 ≤ lockPair'.1 ∧ -1 ≤ lockPair'.2) ∧
      (evaluateSequenceLocks medianTime block lockPair' = true ↔
        evaluateSequenceLocks medianTime block lockPair = true ∧
          matured medianTime block input = true) := by
  unfold matured lockInput evaluateSequenceLocks
  cases block.pprev with
  | none | some pprev =>
    dsimp only
    split_ifs <;> simp <;> omega

theorem foldl_lockInput {inputs : List (CTxIn × Nat)} :
    ∀ {lockPair : Int × Int}, -1 ≤ lockPair.1 ∧ -1 ≤ lockPair.2 →
      (evaluateSequenceLocks medianTime block
          (inputs.foldl (lockInput medianTime block) lockPair) = true ↔
        evaluateSequenceLocks medianTime block lockPair = true ∧
          ∀ input ∈ inputs, matured medianTime block input = true) := by
  induction inputs with
  | nil => simp
  | cons input inputs ih =>
    intro lockPair h
    obtain ⟨hlow, hstep⟩ := @lockInput_step medianTime block _ h input
    rw [foldl_cons, ih hlow, hstep, forall_mem_cons, and_assoc]

/-- **Where BIP68 is enforced, the locks of a transaction are those of its inputs.** -/
theorem sequenceLocks_iff {flags : UInt32} (hversion : 2 ≤ tx.getVersion)
    (hflag : testFlag flags locktimeVerifySequence = true) (nHeight : CTxIn → Nat) :
    sequenceLocks medianTime tx flags (tx.vin.map nHeight) block = true ↔
      evaluateSequenceLocks medianTime block (-1, -1) = true ∧
        ∀ txin ∈ tx.vin, matured medianTime block (txin, nHeight txin) = true := by
  rw [sequenceLocks, calculateSequenceLocks, if_neg (by simp), if_neg (by simp [hversion, hflag]),
    ← map_prod_left_eq_zip, foldl_lockInput (by simp)]
  simp

/-- **A block and the pool on relative lock times.** A transaction of an accepted block passes
    `CheckSequenceLocks` exactly if its inputs are known there, and none has matured at the height
    in the table of blocks without having matured at its own. -/
theorem block_sequenceLocks_iff (env : ConnectEnv) (disk : Disk) (iface : CIface)
    (node node' : Node) (block : CBlock) (pindex tip : CBlockIndex) (tx : CTransaction)
    (medianTime : CBlockIndex → Int)
    (hlocks : env.sequenceLocks = sequenceLocks medianTime)
    (hrun : coreConnectBlock env disk iface node block pindex = some (true, node'))
    (hprev : pindex.pprev = some tip) (hbest : node.best = some tip)
    (hflag : testFlag (env.getBlockScriptFlags pindex) locktimeVerifySequence = true)
    (htx : tx ∈ block.vtx) (hcoinbase : tx.isCoinBase = false) (hversion : 2 ≤ tx.getVersion) :
    node.checkSequenceLocks env.toTxEnv medianTime tx standardLocktimeVerifyFlags = true ↔
      ∀ txin ∈ tx.vin, ∃ nHeight, prevHeight env.toTxEnv node tip txin.prevout.hash = some nHeight ∧
        (matured medianTime pindex
            (txin, (node.blockIndex txin.prevout.hash).getD 0) = true →
          matured medianTime pindex (txin, nHeight) = true) := by
  cases coreConnectBlock_outcome hrun with
  | committed hctx _ _ _ =>
    simp only [checkContext, checkSequenceLocks, Bool.and_eq_true, Bool.or_eq_true,
      all_eq_true, hlocks] at hctx
    obtain ⟨hbase, hlook⟩ := (sequenceLocks_iff hversion hflag _).mp
      ((hctx.2 tx htx).resolve_left (by simp [hcoinbase]))
    -- the index that `CheckSequenceLocks` makes up has the ancestors of the block
    obtain ⟨hash, ancestors⟩ := pindex
    cases ancestors with
    | nil => cases hprev
    | cons _ _ =>
      cases hprev
      rw [Node.checkSequenceLocks, hbest]
      dsimp only
      rw [Bool.and_eq_true, sequenceLocks_iff hversion (by decide), all_eq_true]
      constructor
      · rintro ⟨hknown, -, hall⟩ txin hmem
        obtain ⟨nHeight, hheight⟩ := Option.isSome_iff_exists.mp (hknown txin hmem)
        have hmatured := hall txin hmem
        rw [hheight] at hmatured
        exact ⟨nHeight, hheight, fun _ => hmatured⟩
      · intro h
        refine ⟨fun txin hmem => ?_, hbase, fun txin hmem => ?_⟩
        all_goals
          obtain ⟨nHeight, hheight, hmatured⟩ := h txin hmem
          rw [hheight]
        · rfl
        · exact hmatured (hlook txin hmem)

def lockEnv : ConnectEnv :=
  { connectEnvSample with
    getBlockScriptFlags := fun _ => locktimeVerifySequence
    sequenceLocks := sequenceLocks fun _ => 0 }

def nodeOne : Node :=
  { ((coreConnectBlock connectEnvSample diskSample shcIface nodeSample blockOne
      (chainSample 1)).getD (false, nodeSample)).2 with
    blockIndex := fun hash => if hash = 100 then some 0 else if hash = 101 then some 1 else none
    best := some (chainSample 1) }

def lockedTx (nSequence : UInt32) : CTransaction :=
  { spendTx 5 [] [40] with nFlag := 2, vin := [⟨⟨4, 0⟩, [], nSequence⟩] }

def blockTwo (nSequence : UInt32) : CBlock :=
  { hash := 102, vtx := [coinbaseTx 6 [1000], lockedTx nSequence] }

theorem block_sequenceLocks_one :
    nodeOne.checkSequenceLocks lockEnv.toTxEnv (fun _ => 0) (lockedTx 1)
      standardLocktimeVerifyFlags = true := by
  have hsome : (coreConnectBlock lockEnv diskSample shcIface nodeOne (blockTwo 1)
      (chainSample 2)).map Prod.fst = some true := rfl
  obtain ⟨⟨_, node'⟩, hrun, rfl⟩ := Option.map_eq_some_iff.mp hsome
  refine (block_sequenceLocks_iff _ _ _ _ node' _ _ (chainSample 1) _ _ rfl hrun rfl rfl
    (by decide) (by simp [blockTwo]) rfl (by decide)).mpr fun txin hmem => ?_
  obtain rfl := mem_singleton.mp hmem
  exact ⟨1, rfl, fun _ => rfl⟩

/-- **A lock of two blocks that ends after one.** Its output is from height one, and the block at
    height two that spends it is accepted. -/
theorem young_input_accepted :
    (coreConnectBlock lockEnv diskSample shcIface nodeOne (blockTwo 2) (chainSample 2)).map
        Prod.fst = some true ∧
      nodeOne.checkSequenceLocks lockEnv.toTxEnv (fun _ => 0) (lockedTx 2)
        standardLocktimeVerifyFlags = false := by
  decide

end ShareCoin.Server
