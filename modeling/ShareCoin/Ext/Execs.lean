import ShareCoin.Ext.Records

/-!
# `exec.cpp` — the calls of a class

A call of a class is a transaction. The wallet keeps, for each class, the calls that have been
processed and the calls that wait, and in `mapExec` the transaction of each call. Five routines move
calls from one list to the other: two insert a call, `CallExecChain` performs the calls that wait,
`ResetExecChain` and `ExecRestoreCheckpoint` go back to an earlier state of the class.

What the run time of the classes does is a parameter: how far a class has come, the result of a
call, and the height of the checkpoint that is restored. A routine without a value followed a null
pointer, or wrote to one vector at a place in another.
-/

namespace ShareCoin.Ext

open Wire Function
open Server hiding CTransaction

structure ExecEnv extends RecordEnv where
  /-- `shtime_after(shtime(), t)`. -/
  after : UInt64 → Bool
  getStackHeight : CExecCore → Int64
  execCallParam : CExecCore → CExecCore → Bool
  processExecGenerateTx : CExecCore → CExecCore → Int32
  /-- The height of the checkpoint, if the user data of the class is restored from it. -/
  restoreUserData : CExecCore → Option Int32

/-- The tables of `CWallet` for classes and their calls. -/
structure ExecTables where
  mapExec : Uint160 → Option Uint256
  mapExecCall : Uint160 → Option (List Uint160)
  mapExecCallPending : Uint160 → Option (List Uint160)

/-- The tables before the first block. -/
def ExecTables.empty : ExecTables where
  mapExec := fun _ => none
  mapExecCall := fun _ => none
  mapExecCallPending := fun _ => none

/-- The processed calls of a class. -/
def ExecTables.active (t : ExecTables) (hExec : Uint160) : List Uint160 :=
  (t.mapExecCall hExec).getD []

/-- The calls of a class that wait. -/
def ExecTables.pending (t : ExecTables) (hExec : Uint160) : List Uint160 :=
  (t.mapExecCallPending hExec).getD []

/-! ## Lookups -/

def opExec : Nat := 6

def decodeExecHash : CScript → Option (UInt8 × Uint160) := decodeExtHash opExec

def isExecTx (tx : CTransaction) : Option UInt8 :=
  if ! isFlag tx txfExec then none
  else
    match tx.vout.filterMap fun out => decodeExecHash out.scriptPubKey with
    | [(mode, _)] => some mode
    | _ => none

def getExecCall (tx : CTransaction) : Option CExecCore :=
  if hasFlag tx.nFlag txfExec then some tx.exec else none

def execHash (env : RecordEnv) (exec : CExecCore) : Uint160 :=
  recordHash env (CExecCore.codec.put exec)

def ExecEnv.isExpired (env : ExecEnv) (exec : CExecCore) : Bool :=
  exec.tExpire != 0 && env.after exec.tExpire

section

variable (env : ExecEnv) (t : ExecTables)

def getTxOfExec (hashExec : Uint160) : Option CTransaction := do
  let hTx ← t.mapExec hashExec
  let txIn ← env.getTransaction hTx
  let mode ← isExecTx txIn
  if mode = opExtNew ∧ env.isExpired txIn.exec then none else some txIn.copy

def getRecordByHash (mode : UInt8) (hash : Uint160) : Option CExecCore := do
  let txIn ← getTxOfExec env t hash
  if (← isExecTx txIn) ≠ mode then none
  else if env.isExpired txIn.exec then none
  else some txIn.exec

def getExecByHash : Uint160 → Option CExecCore :=
  getRecordByHash env t opExtNew

def getCallByHash : Uint160 → Option CExecCore :=
  getRecordByHash env t opExtGenerate

/-! ## Inserting a call -/

def insertExecCallTable (hExec : Uint160) (tx : CTransaction) : Option ExecTables :=
  (getExecCall tx).map fun call =>
    let hCall := execHash env.toRecordEnv call
    { mapExecCall := update t.mapExecCall hExec (some (t.active hExec ++ [hCall]))
      mapExecCallPending :=
        match t.mapExecCallPending hExec with
        | none => t.mapExecCallPending
        | some l => update t.mapExecCallPending hExec (some (l.erase hCall))
      mapExec := update t.mapExec hCall (some (tx.getHash env.hash)) }

def insertExecCallPendingTable (hExec : Uint160) (tx : CTransaction) : Option ExecTables :=
  (getExecCall tx).map fun call =>
    let hCall := execHash env.toRecordEnv call
    let vCall := t.active hExec ++ [hCall]
    { t with
      mapExecCall := update t.mapExecCall hExec (some (vCall.erase hCall))
      mapExec := update t.mapExec hCall (some (tx.getHash env.hash)) }

end

/-! ## Moving calls -/

def callExecLoop (env : ExecEnv) (exec : CExecCore) (hExec : Uint160) (nUpdateHeight : Int64) :
    List Uint160 → Int32 → ExecTables → Option (Bool × Int32 × ExecTables)
  | [], nCheckpoint, t => some (true, nCheckpoint, t)
  | hCall :: vCall, nCheckpoint, t =>
    match getTxOfExec env t hCall with
    | none => callExecLoop env exec hExec nUpdateHeight vCall nCheckpoint t
    | some tx => do
      let call ← getExecCall tx
      if call.nHeight ≤ nUpdateHeight then
        callExecLoop env exec hExec nUpdateHeight vCall nCheckpoint t
      else if ! env.execCallParam exec call then some (false, nCheckpoint, t)
      else
        let nCheckpoint :=
          if env.processExecGenerateTx exec call = 0 then
            (max nCheckpoint.toInt64 call.nHeight).toInt32
          else nCheckpoint
        callExecLoop env exec hExec nUpdateHeight vCall nCheckpoint
          (← insertExecCallTable env t hExec tx)

/-- `CallExecChain`. The calls that the loop passed over are erased with the others. -/
def callExecChain (env : ExecEnv) (t : ExecTables) (exec : CExecCore) :
    Option (Bool × Int32 × ExecTables) :=
  let hExec := execHash env.toRecordEnv exec
  match t.mapExecCallPending hExec with
  | none => some (true, 0, t)
  | some vCall =>
    (callExecLoop env exec hExec (env.getStackHeight exec) vCall 0 t).map
      fun (ok, nCheckpoint, t) =>
        if ok then
          (true, nCheckpoint, { t with
            mapExecCallPending := update t.mapExecCallPending hExec none })
        else (false, nCheckpoint, t)

def resetExecChain (env : ExecEnv) (t : ExecTables) (hExec : Uint160) : ExecTables :=
  match getExecByHash env t hExec with
  | none => t
  | some _ =>
    { t with
      mapExecCall := update t.mapExecCall hExec (some [])
      mapExecCallPending :=
        update t.mapExecCallPending hExec (some (t.active hExec ++ t.pending hExec)) }

/-- The loop of `ExecRestoreCheckpoint`, with the processed calls and those that wait. A call above
    the checkpoint is inserted into the second vector at the end of the first. -/
def restoreLoop (env : ExecEnv) (t : ExecTables) (nHeight : Int32) (vIsPend : List Uint160) :
    List Uint160 → List Uint160 × List Uint160 → Option (List Uint160 × List Uint160)
  | [], calls => some calls
  | hash :: vCall, (vActiveCall, vPendCall) =>
    if hash ∈ vIsPend then
      restoreLoop env t nHeight vIsPend vCall (vActiveCall, vPendCall ++ [hash])
    else
      match getCallByHash env t hash with
      | none => restoreLoop env t nHeight vIsPend vCall (vActiveCall, vPendCall)
      | some call =>
        if call.nHeight ≤ nHeight.toInt64 then
          restoreLoop env t nHeight vIsPend vCall (vActiveCall ++ [hash], vPendCall)
        else none

def execRestoreCheckpoint (env : ExecEnv) (t : ExecTables) (exec : CExecCore) :
    Option (Bool × ExecTables) :=
  match env.restoreUserData exec with
  | none => some (false, t)
  | some nHeight =>
    let hExec := execHash env.toRecordEnv exec
    let vCall := t.active hExec ++ t.pending hExec
    (restoreLoop env t nHeight (t.active hExec) vCall ([], [])).map
      fun (vActiveCall, vPendCall) =>
        (true, { t with
          mapExecCall := update t.mapExecCall hExec (some vActiveCall)
          mapExecCallPending := update t.mapExecCallPending hExec (some vPendCall) })

/-! ## Runs -/

inductive ExecRoutine where
  | insertCall (hExec : Uint160) (tx : CTransaction)
  | insertPending (hExec : Uint160) (tx : CTransaction)
  | callChain (exec : CExecCore)
  | resetChain (hExec : Uint160)
  | restoreCheckpoint (exec : CExecCore)

/-- The tables after a routine; what it returns is not read here. -/
def execRoutine (env : ExecEnv) (t : ExecTables) : ExecRoutine → Option ExecTables
  | .insertCall hExec tx => insertExecCallTable env t hExec tx
  | .insertPending hExec tx => insertExecCallPendingTable env t hExec tx
  | .callChain exec => (callExecChain env t exec).map fun r => r.2.2
  | .resetChain hExec => some (resetExecChain env t hExec)
  | .restoreCheckpoint exec => (execRestoreCheckpoint env t exec).map Prod.snd

end ShareCoin.Ext
