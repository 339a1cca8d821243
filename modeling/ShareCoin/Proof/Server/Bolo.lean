import ShareCoin.Server.Bolo

/-!
# Nothing is ever proposed

`bolo_GetSlaveNotaryTx` has a value only for scripts of two bytes and more, and it is false there.
So `bolo_PROPOSED_HEIGHT` keeps the zero it starts with, `bolo_connectblock_master` returns at once,
and no checkpoint is created in any history whose calls return.

From a state in which something *is* proposed, the handler of the master chain verifies the amounts
and signatures of at least eleven inputs, but does not call `bolo_IsNotaryTx`: whether they are the
recorded proposals is left to the transaction.
-/

namespace ShareCoin.Server

open Lib List Option

variable {env : BoloEnv} {s s' : BoloState} {vtx : List CTransaction} {hash : Uint256}
  {nHeight : Nat} {tx : CTransaction}

/-! ## The slave chain -/

theorem scanOutputs_eq_false {vout : List CTxOut} {found : Bool}
    (h : scanOutputs vout = some found) : found = false := by
  induction vout with
  | nil => exact (some.inj h).symm
  | cons out vout ih =>
    obtain ⟨b, hb, h⟩ := bind_eq_some_iff.mp h
    unfold getSlaveNotaryTx at hb
    split_ifs at hb
    cases hb
    exact ih h

theorem scanTxs_eq (h : scanTxs nHeight hash vtx s = some s') : s' = s := by
  induction vtx with
  | nil => exact (some.inj h).symm
  | cons tx vtx ih =>
    obtain ⟨found, hfound, h⟩ := bind_eq_some_iff.mp h
    rw [scanOutputs_eq_false hfound] at h
    exact ih h

theorem proposeOrScan_height (h : proposeOrScan env nHeight hash vtx s = some s') :
    s'.proposedHeight = s.proposedHeight := by
  unfold proposeOrScan at h
  split_ifs at h
  · cases h
    rfl
  · rw [scanTxs_eq h]
  · cases h
    rfl

theorem connectBlockSlave_height (h : connectBlockSlave env nHeight hash vtx s = some s') :
    s'.proposedHeight = s.proposedHeight ∨ s'.proposedHeight = 0 := by
  unfold connectBlockSlave at h
  split_ifs at h
  · exact .inl (by rw [proposeOrScan_height h])
  · cases h
    exact .inr rfl
  · exact .inl (proposeOrScan_height h)

/-! ## Histories -/

theorem boloStep_idle {calls calls' : List CheckpointCall} {op : BoloOp}
    (hidle : s.proposedHeight = 0 ∧ calls = [])
    (h : boloStep env (s, calls) op = some (s', calls')) :
    s'.proposedHeight = 0 ∧ calls' = [] := by
  obtain ⟨hheight, rfl⟩ := hidle
  cases op with
  | connectSlave nHeight hash vtx =>
    obtain ⟨s₁, h₁, heq⟩ := map_eq_some_iff.mp h
    cases heq
    obtain hkept | hzero := connectBlockSlave_height h₁
    · exact ⟨hkept.trans hheight, rfl⟩
    · exact ⟨hzero, rfl⟩
  | connectMaster vtx =>
    simp only [boloStep, connectBlockMaster, if_pos hheight, append_nil, some.injEq,
      Prod.mk.injEq] at h
    exact ⟨h.1 ▸ hheight, h.2.symm⟩
  | disconnectSlave nHeight | disconnectMaster nHeight =>
    cases h
    split_ifs
    · exact ⟨rfl, rfl⟩
    · exact ⟨hheight, rfl⟩

theorem boloRun_idle {s₀ : BoloState} {ops : List BoloOp} {calls : List CheckpointCall}
    (hzero : s₀.proposedHeight = 0) (h : exec (boloStep env) (s₀, []) ops = some (s, calls)) :
    s.proposedHeight = 0 ∧ calls = [] :=
  exec_invariant (P := fun p => p.1.proposedHeight = 0 ∧ p.2 = []) (A := fun _ => True)
    (fun _ _ _ _ hp hstep => boloStep_idle hp hstep) (fun _ _ => trivial) ⟨hzero, rfl⟩ h

/-! ## Checkpoints -/

variable {call : CheckpointCall} {calls : List CheckpointCall}

/-- Two chains on which everything the handlers ask for succeeds. -/
def boloEnvSample : BoloEnv where
  getHash tx := BitVec.ofNat 256 tx.nLockTime.toNat
  getSerializeSize _ := 100
  slaveHash := 1
  slaveHeight _ := none
  getSlaveMerkle _ := 0
  hash160 _ := 0
  extractDestination _ := true
  getScriptID _ := none
  isMine _ := true
  signSignature _ _ := some [1]
  verifySignature _ _ := true
  fillInputs _ := none
  commitNotaryTx _ := none
  proposeMasterTx _ := none
  createCheckpoint _ := true

def markedOut : CTxOut := ⟨0, [opReturn, 0]⟩

/-- A transaction that spends a proposal, with the outputs `vout`. -/
def boloTx (vout : List CTxOut) : CTransaction :=
  { nFlag := 1, vin := [⟨⟨1, 0⟩, [], sequenceFinal⟩], vout := vout, nLockTime := 0,
    matrix := .null, ext := [] }

/-- A block of the slave chain with a marked output, and one of the master chain. -/
def markedHistory : List BoloOp := [.connectSlave 5 7 [boloTx [markedOut]], .connectMaster []]

theorem markedHistory_run :
    boloRun boloEnvSample markedHistory = some ({ hwmHeight := 5 }, []) := rfl

/-- An output that marks a block: `OP_RETURN OP_0` at the end, and an amount of at most one coin. -/
def isMarked (out : CTxOut) : Bool :=
  [opReturn, 0].isSuffixOf out.scriptPubKey && decide (0 ≤ out.nValue) &&
    decide (out.nValue ≤ Int64.ofNat 100000000)

def firstMarked (nHeight : Nat) (ops : List BoloOp) : Option Nat :=
  ops.findSome? fun
    | .connectSlave h _ vtx =>
      if nHeight / boloBlockMerkleDepth * boloBlockMerkleDepth ≤ h ∧ h ≤ nHeight ∧
          vtx.any (fun tx => tx.vout.any isMarked) then some h
      else none
    | _ => none

/-- A notary transaction for the proposed block that the loop over the inputs gives a signature. -/
def GetsSignature (env : BoloEnv) (s : BoloState) (tx : CTransaction) : Prop :=
  isNotaryTx s tx = true ∧ (tx.nLockTime.toNat : Int) = s.proposedLocktime ∧
    tx.vout = [⟨0, masterRedeemScript env s⟩] ∧
    ∃ i : Nat, (tx.vin[i]?).any (·.scriptSig.isEmpty) = true ∧
      ((signInputs env (List.range tx.vin.length) s false tx).2.vin[i]?).any
        (! ·.scriptSig.isEmpty) = true

theorem getSlaveNotaryTx_iff (out : CTxOut) :
    getSlaveNotaryTx out = some (isMarked out) ↔
      2 ≤ out.scriptPubKey.length ∧ isMarked out = false := by
  unfold getSlaveNotaryTx
  split_ifs with hlen
  · exact ⟨fun heq => ⟨hlen, (some.inj heq).symm⟩, fun heq => by rw [heq.2]⟩
  · exact ⟨fun heq => absurd heq (by simp), fun heq => absurd heq.1 hlen⟩

theorem updateMasterNotaryTx_eq (h : tx.vout ≠ []) : updateMasterNotaryTx s tx = some false := by
  unfold updateMasterNotaryTx
  split_ifs with _ _ hlen
  · rfl
  · rfl
  · rfl
  · exact absurd (length_eq_zero_iff.mp (not_not.mp hlen)) h

/-- **Each step of the protocol does what it is for exactly where it has nothing to do**: the
    recogniser is right about the outputs of two bytes and more that mark nothing, the proposed
    height about the stretches without a marked block, and the update about the transactions that
    get no signature. -/
theorem notary_progress_iff {ops : List BoloOp} {calls : List CheckpointCall} {out : CTxOut}
    {nHeight : Nat} {cur : BoloState} {tx : CTransaction}
    (h : boloRun env ops = some (s, calls)) :
    (getSlaveNotaryTx out = some (isMarked out) ↔
      2 ≤ out.scriptPubKey.length ∧ isMarked out = false) ∧
    ((∀ first ∈ firstMarked nHeight ops, s.proposedHeight = first) ↔
      ∀ first ∈ firstMarked nHeight ops, first = 0) ∧
    ((GetsSignature env cur tx → updateMasterNotaryTx cur tx = some true) ↔
      ¬ GetsSignature env cur tx) := by
  obtain ⟨hheight, -⟩ := boloRun_idle rfl h
  refine ⟨getSlaveNotaryTx_iff out, ?_, ?_⟩
  · rw [hheight]
    exact forall₂_congr fun first _ => eq_comm
  · constructor
    · intro hupdate hsig
      have hvout : tx.vout ≠ [] := by simp [hsig.2.2.1]
      rw [updateMasterNotaryTx_eq hvout] at hupdate
      exact absurd (hupdate hsig) (by simp)
    · exact fun hnot hsig => absurd hsig hnot

/-- The only marked block is the first one, and height zero is what is proposed; an output that pays
    someone is told from a mark, and a transaction of another lock time gets no signature. -/
theorem notary_progress_start :
    let ops : List BoloOp := [.connectSlave 0 7 [boloTx [markedOut]],
      .connectSlave 5 8 [boloTx [⟨1, [0x51, 0x52]⟩]]]
    ∃ s calls, boloRun boloEnvSample ops = some (s, calls) ∧ s.hwmHeight = 5 ∧
      getSlaveNotaryTx ⟨1, [0x51, 0x52]⟩ = some (isMarked ⟨1, [0x51, 0x52]⟩) ∧
      firstMarked 5 ops = some 0 ∧ (∀ first ∈ firstMarked 5 ops, s.proposedHeight = first) ∧
      ¬ GetsSignature boloEnvSample { proposedLocktime := 6 } (boloTx []) := by
  intro ops
  obtain ⟨s, calls, h, hwm⟩ : ∃ s calls, boloRun boloEnvSample ops = some (s, calls) ∧
      s.hwmHeight = 5 := ⟨_, _, rfl, rfl⟩
  have hfirst : firstMarked 5 ops = some 0 := by decide
  obtain ⟨hout, hheight, hsig⟩ := @notary_progress_iff boloEnvSample s ops calls
    ⟨1, [0x51, 0x52]⟩ 5 { proposedLocktime := 6 } (boloTx []) h
  refine ⟨s, calls, h, hwm, hout.mpr (by decide), hfirst, hheight.mpr (by simp [hfirst]), ?_⟩
  refine hsig.mp fun hgets => ?_
  exact absurd hgets.2.1 (by decide)

/-- **A marked output is not recognised, and a script of one byte is read outside of; the block is
    not proposed; and a transaction that gets its signature is said not to be updated.** The state
    of the last part has one recorded proposal. -/
theorem marked_block_not_proposed :
    (isMarked markedOut = true ∧ getSlaveNotaryTx markedOut = some false ∧
      getSlaveNotaryTx ⟨0, [0]⟩ = none) ∧
    (boloRun boloEnvSample markedHistory = some ({ hwmHeight := 5 }, []) ∧
      firstMarked 5 markedHistory = some 5) ∧
    (let s : BoloState := { proposedHeight := 5, mapNotary := [⟨⟨1, 0⟩, [], sequenceFinal⟩] }
     let tx := boloTx [⟨0, masterRedeemScript boloEnvSample s⟩]
     GetsSignature boloEnvSample s tx ∧ updateMasterNotaryTx s tx = some false) := by
  refine ⟨⟨by decide, by decide, by decide⟩, ⟨markedHistory_run, by decide⟩, ?_, by decide⟩
  exact ⟨by decide, by decide, rfl, 0, by decide, by decide⟩

end ShareCoin.Server
