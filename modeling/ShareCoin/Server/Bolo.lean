import ShareCoin.Lib.Codec
import ShareCoin.Lib.Run
import ShareCoin.Server.Matrix

/-!
# `bolo_validation03.cpp` — blocks of one chain, notarised on another

The *slave* chain marks a block with an output of `OP_RETURN OP_0`, and the first such block of a
stretch becomes the proposed one. On the *master* chain each notary then sends a proposal, and the
proposals are spent together by a final transaction that eleven of them have signed. When that one
is connected, the proposed block becomes a checkpoint.

All of it works on global variables, which are `BoloState`. `CheckpointCall` records a call of
`bolo_checkpoint_create` with the state at that moment and the transaction that leads to it.

Two conditions of the source are the wrong way round, and are modelled as they are: the recogniser
of the marked output turns away every script of *at least* two bytes and reads outside of the
others, and the update of a notary transaction turns away every transaction that *has* outputs.
-/

namespace ShareCoin.Server

open Lib

def boloMinRatify : Nat := 11

def boloLocktimeDepth : Nat := 20

def boloBlockMerkleDepth : Nat := 1000

def boloNotaryCoinValue : Int64 := 1000

/-- The global variables, with the values they start with. -/
structure BoloState where
  checkpointHeight : Int := 0
  proposedHeight : Nat := 0
  proposedBlock : Uint256 := 0
  hwmHeight : Nat := 0
  mapNotary : List CTxIn := []
  mapNotaryScript : List CScript := []
  proposedLocktime : Int := 0
  proposedNotary : Bool := false

/-- What the handlers ask the two chains and the wallet for. `signSignature` and `verifySignature`
    are those of a notary transaction; `commitNotaryTx` is `bolo_CreateMasterNotaryTx` with
    `CommitTransaction` and has the lock time, and `proposeMasterTx` is `bolo_ProposeMasterTx` with
    what `Send` returns, if it comes to that. -/
structure BoloEnv extends TxEnv where
  slaveHash : Uint160
  slaveHeight : Uint256 → Option Nat
  getSlaveMerkle : Int → Uint256
  hash160 : CScript → Uint160
  extractDestination : CScript → Bool
  getScriptID : CScript → Option Uint160
  isMine : CTxIn → Bool
  signSignature : CTransaction → Nat → Option CScript
  verifySignature : CTransaction → Nat → Bool
  fillInputs : CTransaction → Option (Uint256 → CTransaction)
  commitNotaryTx : BoloState → Option Int
  proposeMasterTx : BoloState → Option Bool
  createCheckpoint : Int → Bool

def resetMasterTx (s : BoloState) : BoloState :=
  { s with mapNotary := [], mapNotaryScript := [], proposedBlock := 0, proposedHeight := 0,
           proposedNotary := false }

/-! ## The slave chain -/

/-- `bolo_GetSlaveNotaryTx`. Where the first operand of the condition is false, the second reads
    `scriptPubKey[size() - 2]` of a script of less than two bytes; that has no value. -/
def getSlaveNotaryTx (out : CTxOut) : Option Bool :=
  if 2 ≤ out.scriptPubKey.length then some false else none

/-- The loop over the outputs of a transaction, which stops at the first it finds. -/
def scanOutputs : List CTxOut → Option Bool
  | [] => some false
  | out :: vout =>
    (getSlaveNotaryTx out).bind fun found => if found then some true else scanOutputs vout

/-- The loop over the transactions of a block. -/
def scanTxs (nHeight : Nat) (hash : Uint256) : List CTransaction → BoloState → Option BoloState
  | [], s => some s
  | tx :: vtx, s =>
    (scanOutputs tx.vout).bind fun found =>
      scanTxs nHeight hash vtx
        (if found then { resetMasterTx s with proposedHeight := nHeight, proposedBlock := hash }
         else s)

section

variable (env : BoloEnv) (nHeight : Nat) (hash : Uint256) (vtx : List CTransaction) (s : BoloState)

/-- `bolo_connectblock_slave` behind the check of the height. -/
def proposeOrScan : Option BoloState :=
  if nHeight % boloLocktimeDepth = 0 ∧
      ((nHeight / boloLocktimeDepth : Nat) - 1 : Int) * boloLocktimeDepth ≤ s.proposedHeight ∧
      s.proposedHeight < nHeight then
    some { s with proposedNotary := (env.proposeMasterTx s).getD false }
  else if s.proposedHeight ≤ nHeight / boloBlockMerkleDepth * boloBlockMerkleDepth then
    scanTxs nHeight hash vtx s
  else some s

def connectBlockSlave : Option BoloState :=
  if s.hwmHeight < nHeight then proposeOrScan env nHeight hash vtx { s with hwmHeight := nHeight }
  else if nHeight ≠ s.hwmHeight then some (resetMasterTx s)
  else proposeOrScan env nHeight hash vtx s

/-! ## The master chain -/

def masterRedeemScript : CScript :=
  [opReturn, 0x5b, 0x51, 0x5b] ++ 20 :: Codec.leBytes 20 env.slaveHash.toNat ++
    32 :: rawBytes s.proposedBlock ++ 32 :: rawBytes (env.getSlaveMerkle s.proposedHeight) ++
    4 :: Codec.leBytes 4 s.proposedHeight ++ [0]

/-- `bolo_GetMasterProposeTx`: the input that spends the proposal, and its destination. The last
    output that funds one counts. -/
def getMasterProposeTx (tx : CTransaction) : Option (CTxIn × CScript) :=
  let fBlock := tx.vout.any fun out => out.nValue == 0 && env.extractDestination out.scriptPubKey &&
    env.getScriptID out.scriptPubKey == some (env.hash160 (masterRedeemScript env s))
  let funds := tx.vout.zipIdx.filter fun p =>
    p.1.nValue == boloNotaryCoinValue && env.extractDestination p.1.scriptPubKey
  if fBlock then
    funds.getLast?.map fun p =>
      (⟨⟨env.getHash tx, p.2.toUInt32⟩, [], sequenceFinal⟩, p.1.scriptPubKey)
  else none

end

def readOpcode (op : UInt8) (pc : CScript) : Option CScript :=
  (getOp pc).bind fun (opcode, _, pc) => if opcode = op then some pc else none

def readBytes (n : Nat) (pc : CScript) : Option (Nat × CScript) :=
  (getOp pc).bind fun (_, vch, pc) => if vch.length = n then some (Codec.leValue vch, pc) else none

/-- The four values of a final script: the coin, the block, the root and the height. -/
def readFinal (script : CScript) : Option (Nat × Nat × Nat × Int) := do
  let pc ← readOpcode opReturn script
  let pc ← readOpcode 0x5b pc
  let pc ← readOpcode 0x51 pc
  let pc ← readOpcode 0x5b pc
  let (hIface, pc) ← readBytes 20 pc
  let (hBlock, pc) ← readBytes 32 pc
  let (hMerkle, pc) ← readBytes 32 pc
  let (nHeight, _) ← readBytes 4 pc
  some (hIface, hBlock, hMerkle, (nHeight : Int).bmod (2 ^ 32))

def getMasterFinalTx (env : BoloEnv) (s : BoloState) (out : CTxOut) : Option Int :=
  if out.nValue ≠ 0 then none
  else if out.scriptPubKey.length < 85 ∨ 153 < out.scriptPubKey.length then none
  else
    (readFinal out.scriptPubKey).bind fun (hIface, hBlock, hMerkle, nHeight) =>
      if hIface = 0 ∨ hBlock = 0 ∨ nHeight = 0 then none
      else if nHeight ≤ s.checkpointHeight then none
      else if env.slaveHash.toNat ≠ hIface then none
      else if (env.slaveHeight (BitVec.ofNat 256 hBlock)).map Int.ofNat ≠ some nHeight then none
      else if nHeight ≠ s.proposedHeight then none
      else if (env.getSlaveMerkle nHeight).toNat ≠ hMerkle then none
      else some nHeight

def applySequence (tx : CTransaction) (nIn : Nat) : CTransaction :=
  { tx with vin := tx.vin.modify nIn fun txin => { txin with nSequence := sequenceFinal - 1 } }

/-- The loop that verifies the inputs `js` of a final transaction. -/
def verifyInputs (env : BoloEnv) (inputs : Uint256 → CTransaction) : List Nat → CTransaction → Bool
  | [], _ => true
  | j :: js, tx =>
    let out := (tx.vin[j]?).bind fun txin => (inputs txin.prevout.hash).vout[txin.prevout.n.toNat]?
    (out.any fun out => decide (boloNotaryCoinValue ≤ out.nValue)) &&
      env.verifySignature (applySequence tx j) j && verifyInputs env inputs js (applySequence tx j)

structure CheckpointCall where
  nHeight : Int
  tx : CTransaction
  state : BoloState

section

variable (env : BoloEnv) (s : BoloState)

/-- `bolo_connectblock_master` for one transaction of the block. -/
def connectMasterTx (tx : CTransaction) : BoloState × List CheckpointCall :=
  match getMasterProposeTx env s tx with
  | some (txin, script) =>
    if s.mapNotaryScript.contains script then (s, [])
    else
      let s := { s with mapNotary := s.mapNotary ++ [txin],
                        mapNotaryScript := s.mapNotaryScript ++ [script] }
      if s.proposedNotary ∧ boloMinRatify ≤ s.mapNotary.length then
        ({ s with proposedLocktime := (env.commitNotaryTx s).getD s.proposedLocktime }, [])
      else (s, [])
  | none =>
    match tx.vout with
    | [out] =>
      match getMasterFinalTx env s out, env.fillInputs tx with
      | some nHeight, some inputs =>
        if tx.vin.length < boloMinRatify then (s, [])
        else if ! verifyInputs env inputs (List.range tx.vin.length) tx then (s, [])
        else
          let ok := decide (1 < nHeight) && env.createCheckpoint nHeight
          ({ s with checkpointHeight := if ok then nHeight else s.checkpointHeight,
                    proposedNotary := false }, [⟨nHeight, tx, s⟩])
      | _, _ => (s, [])
    | _ => (s, [])

def connectBlockMaster (vtx : List CTransaction) : BoloState × List CheckpointCall :=
  if s.proposedHeight = 0 then (s, [])
  else
    vtx.foldl (fun (s, calls) tx =>
      let (s, call) := connectMasterTx env s tx
      (s, calls ++ call)) (s, [])

/-! ## Notary transactions of the pool -/

def isNotaryTx (tx : CTransaction) : Bool :=
  tx.vin.all fun txin => s.mapNotary.any fun known => known.prevout == txin.prevout

/-- `bolo_ApplyNotarySignature`, for an input that has no signature yet; the comparison of
    `prevout.n` with the place of the input is the source's. -/
def applyNotarySignature (tx : CTransaction) (nIn : Nat) (txin : CTxIn) : Bool × CTransaction :=
  let setSig (sig : CScript) := { applySequence tx nIn with
    vin := (applySequence tx nIn).vin.modify nIn fun txin => { txin with scriptSig := sig } }
  if env.isMine txin then
    match env.signSignature tx nIn with
    | none => (false, applySequence tx nIn)
    | some sig => (true, setSig sig)
  else
    match s.mapNotary.find? fun known => known.scriptSig ≠ [] ∧
        known.prevout.hash = txin.prevout.hash ∧ known.prevout.n.toNat = nIn with
    | none => (false, tx)
    | some known => (true, setSig known.scriptSig)

def saveNotarySignature (tx : CTransaction) (nIn : Nat) (txin : CTxIn) : BoloState :=
  if txin.nSequence ≠ sequenceFinal - 1 then s
  else
    { s with mapNotary := s.mapNotary.map fun known =>
        if known.scriptSig = [] ∧ known.prevout = txin.prevout ∧ env.verifySignature tx nIn then
          { known with scriptSig := txin.scriptSig }
        else known }

end

/-- The loop "sign local inputs" of `bolo_UpdateMasterNotaryTx`, over the inputs `is`: the flag,
    which each unsigned input overwrites, and the transaction. -/
def signInputs (env : BoloEnv) : List Nat → BoloState → Bool → CTransaction → Bool × CTransaction
  | [], _, fUpdated, tx => (fUpdated, tx)
  | i :: is, s, fUpdated, tx =>
    match tx.vin[i]? with
    | none => (fUpdated, tx)
    | some txin =>
      if txin.scriptSig = [] then
        let (fUpdated, tx) := applyNotarySignature env s tx i txin
        signInputs env is s fUpdated tx
      else signInputs env is (saveNotarySignature env s tx i txin) fUpdated tx

/-- `bolo_UpdateMasterNotaryTx`: what it returns. Nothing gets to the loop: with an output the third
    condition returns, and without one it reads the first. -/
def updateMasterNotaryTx (s : BoloState) (tx : CTransaction) : Option Bool :=
  if ! isNotaryTx s tx then some false
  else if (tx.nLockTime.toNat : Int) ≠ s.proposedLocktime then some false
  else if tx.vout.length ≠ 0 then some false
  else none

/-! ## Histories -/

/-- What happens to the two chains. -/
inductive BoloOp where
  | connectSlave (nHeight : Nat) (hash : Uint256) (vtx : List CTransaction)
  | connectMaster (vtx : List CTransaction)
  | disconnectSlave (nHeight : Nat)
  | disconnectMaster (nHeight : Nat)

/-- One event: the state, and the calls of `bolo_checkpoint_create` so far. -/
def boloStep (env : BoloEnv) :
    BoloState × List CheckpointCall → BoloOp → Option (BoloState × List CheckpointCall)
  | (s, calls), .connectSlave nHeight hash vtx =>
    (connectBlockSlave env nHeight hash vtx s).map fun s => (s, calls)
  | (s, calls), .connectMaster vtx =>
    let (s, call) := connectBlockMaster env s vtx
    some (s, calls ++ call)
  | (s, calls), .disconnectSlave nHeight =>
    some (if nHeight ≤ s.checkpointHeight then resetMasterTx s else s, calls)
  | (s, calls), .disconnectMaster nHeight =>
    some (if nHeight ≤ s.proposedLocktime then resetMasterTx s else s, calls)

/-- A history from the start of the program. -/
def boloRun (env : BoloEnv) (ops : List BoloOp) : Option (BoloState × List CheckpointCall) :=
  exec (boloStep env) ({}, []) ops

/-! ## The Merkle tree over Merkle roots -/

section SlaveMerkle

variable {α : Type} (pair : α → α → α) (size : Nat)

def treeGet (tree : Nat → α) (i : Nat) : Option α := if i < size then some (tree i) else none

def treeSet (tree : Nat → α) (i : Nat) (x : α) : Option (Nat → α) :=
  if i < size then some (Function.update tree i x) else none

/-- The inner loop of `iguana_merkle`, for the first `k` pairs of the level at `prev`. -/
def hashPairs (prev n : Nat) (tree : Nat → α) : Nat → Option (Nat → α)
  | 0 => some tree
  | k + 1 => do
      let tree ← hashPairs prev n tree k
      let a ← treeGet size tree (prev + 2 * k)
      let b ← treeGet size tree (prev + 2 * k + 1)
      treeSet size tree (n + k) (pair a b)

/-- An odd level gets a copy of its last node. -/
def padLevel (tree : Nat → α) (prev txnCount : Nat) : Option (Nat → α) :=
  if txnCount % 2 = 1 then
    (treeGet size tree (prev + txnCount - 1)).bind (treeSet size tree (prev + txnCount))
  else some tree

/-- `while (txn_count > 1)`. Where the loop starts over, `n` is `prev`; an `int32_t` holds them as
    long as it holds `3 * txn_count`. -/
def iguanaLevels (tree : Nat → α) (prev txnCount : Nat) : Option α :=
  if txnCount ≤ 1 then treeGet size tree prev
  else do
    let tree ← padLevel size tree prev txnCount
    let n := prev + (txnCount + txnCount % 2)
    let tree ← hashPairs pair size prev n tree ((txnCount + txnCount % 2) / 2)
    iguanaLevels tree n ((txnCount + txnCount % 2) / 2)
termination_by txnCount
decreasing_by omega

/-- `iguana_merkle`. A single leaf is returned at once, as the loop would. -/
def iguanaMerkle (tree : Nat → α) (txnCount : Nat) : Option α :=
  iguanaLevels pair size tree 0 txnCount

end SlaveMerkle

/-- The Merkle roots that `bolo_GetSlaveMerkle` copies to the tree, from the slave block at
    `height` down; `none` where there is no block. -/
def lastRoots (merkleRootAt : Int → Option Uint256) (height momDepth : Int) :
    List (Option Uint256) :=
  (List.range (max 0 (min momDepth (height - 1))).toNat).map fun i : Nat =>
    merkleRootAt (height - i)

def boloGetSlaveMerkle (pair : Uint256 → Uint256 → Uint256) (merkleRootAt : Int → Option Uint256)
    (height momDepth : Int) : Option Uint256 :=
  let roots := lastRoots merkleRootAt height momDepth
  if roots.any Option.isNone then some 0
  else if roots.length = 0 then some 0
  else
    iguanaMerkle pair (roots.length * 3) (fun i => (roots.map fun root => root.getD 0).getD i 0)
      roots.length

end ShareCoin.Server
