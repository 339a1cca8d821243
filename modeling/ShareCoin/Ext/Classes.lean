import ShareCoin.Ext.Execs

/-!
# `exec.cpp` — the transactions of a class

`ProcessExecTx` takes a transaction of a block that connects. A new class is registered in `mapExec`
under its hash, and its label is set to it; a checkpoint is remembered for its class; a call goes to
one of the lists of its class, and to `mapExec`. `DisconnectExecTx` takes one back.

`ClassEnv` adds to the surroundings what the run time of the classes says about a class that is
published and about the user data of a checkpoint.
-/

namespace ShareCoin.Ext

open Wire Function
open Server hiding CTransaction

structure ClassEnv extends ExecEnv where
  getExecOpFee : Int → Nat → Int64
  verifyStack : CExecCore → Bool
  /-- The end of `CExecCheckpoint::VerifyChecksum`, by class and checkpoint. -/
  userDataAgrees : CExecCore → CExecCore → Bool
  /-- Whether the user data of the class is copied to its checkpoint. -/
  saveUserData : CExecCore → Bool
  defaultExpireTime : Int

structure ClassTables extends ExecTables where
  mapExecLabel : List UInt8 → Option Uint160
  mapExecCheckpoint : Uint160 → Option Uint256

/-- The tables before the first block. -/
def ClassTables.empty : ClassTables where
  toExecTables := .empty
  mapExecLabel := fun _ => none
  mapExecCheckpoint := fun _ => none

/-! ## Verification -/

def indexOfExecOutput (tx : CTransaction) : Option Nat :=
  tx.vout.findIdx? fun out =>
    match getOp out.scriptPubKey with
    | some (opcode, _, pc) =>
      isExtMode opcode &&
        match getOp pc with
        | some (opcode, _, _) => opcode == encodeOpN opExec
        | none => false
    | none => false

/-- The output that holds the class, the checkpoint or the call. -/
def execOutput (tx : CTransaction) : Option (CTxOut × UInt8 × Uint160) :=
  recordOutput decodeExecHash tx (indexOfExecOutput tx)

/-- `VerifyExec`: the mode. The mode that is compared first is that of `IsExecTx`, and the other
    cases are told apart by the mode of the output. -/
def verifyExec (env : ClassEnv) (tx : CTransaction) : Option UInt8 :=
  match isExecTx tx with
  | none => none
  | some mode =>
    if ! [opExtNew, opExtUpdate, opExtGenerate].contains mode then none
    else
      match execOutput tx with
      | none => none
      | some (_, mode, hashExec) =>
        if mode = opExtNew then
          if hashExec == execHash env.toRecordEnv tx.exec && tx.exec.tExpire != 0 &&
            decide (env.shutime tx.exec.tExpire ≤ env.now + env.defaultExpireTime + 1) then
            some mode
          else none
        else if mode = opExtGenerate then
          if hashExec == execHash env.toRecordEnv tx.exec then some mode else none
        else some mode

def isValidExecHash (env : ExecEnv) (t : ExecTables) (hExec : Uint160) : Bool :=
  match getTxOfExec env t hExec with
  | none => false
  | some txIn => (isExecTx txIn).isSome

/-! ## Classes -/

/-- What `ProcessExecTx` returns when it does not return zero. -/
inductive ExecError where
  | inval
  | exist
  | fee
  | io
  | noEnt
  /-- `SHERR_OPNOTSUPP` -/
  | opNotSupp
  /-- The error of `ProcessExecGenerateTx`. -/
  | generate (err : Int32)
  deriving DecidableEq

section

variable (env : ClassEnv)

def insertExecTable (t : ClassTables) (tx : CTransaction) : ClassTables :=
  if isExecTx tx = some opExtNew then
    let hExec := execHash env.toRecordEnv tx.exec
    { t with
      mapExecLabel := update t.mapExecLabel tx.exec.vchLabel (some hExec)
      mapExec := update t.mapExec hExec (some (tx.getHash env.hash)) }
  else t

def newExecError (t : ExecTables) (nHeight : Int) (tx : CTransaction) : Option ExecError :=
  if isValidExecHash env.toExecEnv t (execHash env.toRecordEnv tx.exec) then some .exist
  else
    match execOutput tx with
    | none => some .inval
    | some (out, _, _) =>
      if out.nValue < env.getExecOpFee nHeight tx.exec.vContext.length then some .fee
      else if ! env.verifyStack tx.exec then some .io
      else none

/-- `ProcessExecTx` for `OP_EXT_NEW`. The list of calls that wait shows that the class is not
    processed yet. -/
def processNewExec (t : ClassTables) (nHeight : Int) (tx : CTransaction) :
    Option ExecError × ClassTables :=
  match newExecError env t.toExecTables nHeight tx with
  | some err => (some err, t)
  | none =>
    let hExec := execHash env.toRecordEnv tx.exec
    let t := insertExecTable env t tx
    (none,
      if (t.mapExecCallPending hExec).isNone then
        { t with
          mapExecCallPending := update t.mapExecCallPending hExec (some []) }
      else t)

/-! ## Checkpoints -/

def isNewerCheckpoint (t : ClassTables) (cp : CExecCore) : Option Bool :=
  match t.mapExecCheckpoint cp.hExec with
  | none => some true
  | some hCheckpointTx =>
    match env.getTransaction hCheckpointTx with
    | none => some false
    | some txIn => (getExecCall txIn).map fun tcp => decide (tcp.nHeight ≤ cp.nHeight)

def execSaveCheckpoint (t : ClassTables) (hExec : Uint160) (cpTx : CTransaction) : ClassTables :=
  match getExecByHash env.toExecEnv t.toExecTables hExec with
  | none => t
  | some exec =>
    if ! env.saveUserData exec then t
    else
      { t with
        mapExecCheckpoint := update t.mapExecCheckpoint (execHash env.toRecordEnv exec)
          (some (cpTx.getHash env.hash)) }

def verifyChecksum (t : ExecTables) (cp : CExecCore) : Bool :=
  match getExecByHash env.toExecEnv t cp.hExec with
  | none => false
  | some exec => env.userDataAgrees exec cp

def processCheckpoint (t : ClassTables) (tx : CTransaction) : Option ClassTables :=
  (isNewerCheckpoint env t tx.exec).map fun newer =>
    if newer && verifyChecksum env t.toExecTables tx.exec then
      execSaveCheckpoint env t tx.exec.hExec tx
    else t

/-! ## Calls -/

def isExecCallHash (t : ExecTables) (hExec hCall : Uint160) : Bool :=
  (t.active hExec).contains hCall

def processGenerate (t : ClassTables) (tx : CTransaction) :
    Option (Option ExecError × ClassTables) :=
  match getExecByHash env.toExecEnv t.toExecTables tx.exec.hExec with
  | none => some (some .noEnt, t)
  | some exec =>
    let hExec := execHash env.toRecordEnv exec
    if isExecCallHash t.toExecTables hExec (execHash env.toRecordEnv tx.exec) then some (none, t)
    else if (t.mapExecCallPending hExec).isSome then
      (insertExecCallPendingTable env.toExecEnv t.toExecTables hExec tx).map fun calls =>
        (none, { t with toExecTables := calls })
    else if ! env.execCallParam exec tx.exec then some (some .inval, t)
    else
      let err := env.processExecGenerateTx exec tx.exec
      if err ≠ 0 then some (some (.generate err), t)
      else
        (insertExecCallTable env.toExecEnv t.toExecTables hExec tx).map fun calls =>
          (none, { t with toExecTables := calls })

/-! ## Transactions -/

def processExecTx (t : ClassTables) (nHeight : Int) (tx : CTransaction) :
    Option (Option ExecError × ClassTables) :=
  match verifyExec env tx with
  | none => some (some .inval, t)
  | some mode =>
    if mode = opExtNew then some (processNewExec env t nHeight tx)
    else if mode = opExtUpdate then (processCheckpoint env t tx).map fun t => (none, t)
    else if mode = opExtGenerate then processGenerate env t tx
    else some (some .opNotSupp, t)

/-- The part of `DisconnectExecTx` that takes back a call that was processed. -/
def revertCalls (t : ExecTables) (call : CExecCore) : Option ExecTables :=
  if (t.active call.hExec).contains (execHash env.toRecordEnv call) then
    match getExecByHash env.toExecEnv t call.hExec with
    | none => some (resetExecChain env.toExecEnv t call.hExec)
    | some exec =>
      (execRestoreCheckpoint env.toExecEnv t exec).map fun (ok, t') =>
        if ok then t' else resetExecChain env.toExecEnv t' call.hExec
  else some t

/-- `DisconnectExecTx`. The user data of a class that is erased is not kept here. -/
def disconnectExecTx (t : ClassTables) (tx : CTransaction) (mode : UInt8) : Option ClassTables :=
  let hash := execHash env.toRecordEnv tx.exec
  if mode = opExtNew then
    some { t with
      mapExecCall := update t.mapExecCall hash none
      mapExecCallPending := update t.mapExecCallPending hash none
      mapExecCheckpoint := update t.mapExecCheckpoint hash none
      mapExec := update t.mapExec hash none }
  else if mode = opExtUpdate then
    some (if t.mapExecCheckpoint tx.exec.hExec = some (tx.getHash env.hash) then
      { t with
        mapExecCheckpoint := update t.mapExecCheckpoint tx.exec.hExec none }
    else t)
  else if mode = opExtGenerate then
    (revertCalls env t.toExecTables tx.exec).map fun calls =>
      { t with
        mapExecCall := calls.mapExecCall
        mapExecCallPending :=
          match calls.mapExecCallPending tx.exec.hExec with
          | none => calls.mapExecCallPending
          | some l => update calls.mapExecCallPending tx.exec.hExec (some (l.erase hash))
        mapExec := update calls.mapExec hash none }
  else some t

end

end ShareCoin.Ext
