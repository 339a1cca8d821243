import ShareCoin.Ext.Records

/-!
# `ext_param.cpp` — votes on the parameters of the coin

A param transaction is a vote for a block size or a minimum fee. `ConnectParamTx` puts the vote in
front of the list of all votes, of both kinds, and counts those of its kind. If enough of them agree
the parameter is set, and the transaction is archived. `DisconnectParamTx` takes the vote off the
list again. If the transaction is archived, it sets the parameter to what the archive says.

A call has no value (the outer `none`) where the lookup of the param output fails its assertion,
where the loop over the votes to be dropped runs below zero, and where the vote that is left in
front is read although there is none.
-/

namespace ShareCoin.Ext

open Wire
open Server hiding CTransaction txfParam

/-- The votes and the archive of `CWallet`, and the two parameters of the coin interface. -/
@[ext]
structure ParamState where
  mapParam : List CParam
  mapParamArch : List Uint256
  maxBlockSize : Int64
  minRelayFee : Int64

structure ParamEnv extends RecordEnv where
  defMaxBlockSize : Int64
  hasParamConsensus : Bool
  /-- `shtime_after(shtimeu(nTime), tExpire)`. -/
  shtimeAfter : Int → UInt64 → Bool
  /-- `100.0 / nTotal * nMax < 90.0`, in floating point. -/
  percentBelow : Nat → Nat → Bool

def decodeParamHash : CScript → Option (UInt8 × Uint160) := decodeExtHash opParam

def getParam (tx : CTransaction) : Option CParam :=
  if hasFlag tx.nFlag txfParam then some tx.param else none

def paramHash (env : ParamEnv) (param : CParam) : Uint160 :=
  recordHash env.toRecordEnv (CParam.codec.put param)

/-- `VerifyParamTx`: the mode. The check of the output's value returns the value instead of an
    error, so an update with a value other than zero passes as well. -/
def verifyParamTx (env : ParamEnv) (tx : CTransaction) : Option (Option UInt8) :=
  match getParam tx with
  | none => some none
  | some param =>
    (getExtOutput (asServer tx) opParam).map fun
      | none => none
      | some (_, nOut, _) => do
        let out ← tx.vout[nOut]?
        let (mode, hashParam) ← decodeParamHash out.scriptPubKey
        if hashParam ≠ paramHash env param then none
        else if param.nVersion = 0 || 0x80000000 ≤ param.nVersion then none
        else if param.nVersion = 1 && mode ≠ opExtUpdate then none
        else if 135 < param.vchLabel.length then none
        else some mode

/-! ## The parameters -/

def extparamBlocksize : List UInt8 := [0x62, 0x6c, 0x6f, 0x63, 0x6b, 0x73, 0x69, 0x7a, 0x65]

def extparamMinfee : List UInt8 := [0x6d, 0x69, 0x6e, 0x66, 0x65, 0x65]

section

variable (env : ParamEnv) (s : ParamState)

def getParamTxDefaultValue (strName : List UInt8) : Int64 :=
  if strName = extparamBlocksize then env.defMaxBlockSize
  else if strName = extparamMinfee then s.minRelayFee
  else 0

def getParamTxValue (strName : List UInt8) : Int64 :=
  if strName = extparamBlocksize then s.maxBlockSize
  else if strName = extparamMinfee then s.minRelayFee
  else 0

def isValidParamTxConsensus (strMode : List UInt8) (nValue nCurrent : Int64) : Bool :=
  if nValue = 0 then false
  else if strMode = extparamBlocksize ∧
    (nValue ≠ nCurrent ∧ nValue ≠ nCurrent * 2 ∧ nValue ≠ nCurrent / 2 ∨
      nValue < 1024000 ∨ 131072000 < nValue) then false
  else if strMode = extparamMinfee ∧
    (nValue ≠ nCurrent ∧ nValue ≠ nCurrent / 10 ∧ nValue ≠ nCurrent * 10 ∨
      nValue < 100 ∨ 100000000 ≤ nValue) then false
  else true

def isExpired (param : CParam) (nTime : Int) : Bool :=
  param.tExpire != 0 && env.shtimeAfter nTime param.tExpire

def validVotes (votes : List CParam) (strName : List UInt8) (nCurrentValue : Int64) : List CParam :=
  votes.filter fun param =>
    param.vchLabel == strName && isValidParamTxConsensus strName param.nValue nCurrentValue

/-- The value with the most votes, and how many it has: the least one of several. -/
def highestConsensus (values : List Int64) : Nat × Int64 :=
  (values.dedup.mergeSort (fun v v' => decide (v ≤ v'))).foldl
    (fun best v => if best.1 < values.count v then (values.count v, v) else best) (0, 0)

end

/-- The loop that erases the votes at the positions `vDel`. Its index is an `unsigned int`, and it
    is left when the index is negative. -/
def eraseVotes (vDel : List Nat) : Nat → UInt32 → List CParam → Option (List CParam)
  | 0, _, _ => none
  | fuel + 1, idx, votes =>
    if 0 ≤ idx then
      -- a read behind the end of `vDel` has no value
      vDel[idx.toNat]?.bind fun p_idx => eraseVotes vDel fuel (idx - 1) (votes.eraseIdx p_idx)
    else some votes

section

variable (env : ParamEnv) (s : ParamState) (strName : List UInt8) (nTime : Int)

/-- The positions of the votes of the kind that expired more than a year ago. -/
def archivalVotes : List Nat :=
  let nCurrentValue := getParamTxValue s strName
  (s.mapParam.zipIdx.filter fun (param, _) =>
    param.vchLabel == strName && isValidParamTxConsensus strName param.nValue nCurrentValue &&
      (isExpired env param nTime && decide (env.shutime param.tExpire < env.now - 31536000))).map
    (·.2)

/-- The values of the votes of the kind that are counted. -/
def tallies : List Int64 :=
  ((validVotes s.mapParam strName (getParamTxValue s strName)).filter fun param =>
    ! isExpired env param nTime).map (·.nValue)

end

section

variable (fuel : Nat) (env : ParamEnv) (s : ParamState) (strName : List UInt8)

/-- `GetParamTxConsensus`: the value, and the votes that are left. -/
def getParamTxConsensus (nTime : Int) : Option (Option Int64 × List CParam) :=
  let nCurrentValue := getParamTxValue s strName
  let vDel := archivalVotes env s strName nTime
  let nTotal := (tallies env s strName nTime).length
  let (nMax, nRetValue) := highestConsensus (tallies env s strName nTime)
  if 135 < strName.length then some (none, s.mapParam)
  else if nCurrentValue = 0 then some (none, s.mapParam)
  else if nTotal < 10240 then some (none, s.mapParam)
  else if nRetValue = 0 then some (none, s.mapParam)
  else
    (if vDel.length ≠ 0 then eraseVotes vDel fuel (UInt32.ofNat (vDel.length - 1)) s.mapParam
      else some s.mapParam).map fun votes =>
        if nRetValue = nCurrentValue then (none, votes)
        else if env.percentBelow nTotal nMax then (none, votes)
        else (some nRetValue, votes)

def applyParam (strMode : List UInt8) (nNewValue : Int64) : ParamState :=
  if strMode = extparamBlocksize then { s with maxBlockSize := nNewValue }
  else if strMode = extparamMinfee then { s with minRelayFee := nNewValue }
  else s

/-! ## Connecting and disconnecting -/

def connectParamTx (tx : CTransaction) (pindexPrev : Option Int) : Option (Bool × ParamState) :=
  match pindexPrev, getParam tx with
  | none, _ => some (false, s)
  | _, none => some (false, s)
  | some nTime, some param =>
    if ! env.hasParamConsensus then some (false, s)
    else
      (verifyParamTx env tx).bind fun
        | none => some (false, s)
        | some opMode =>
          if opMode ≠ opExtUpdate then some (true, s)
          else
            let s := { s with mapParam := param :: s.mapParam }
            (getParamTxConsensus fuel env s param.vchLabel nTime).map fun (nNewValue, votes) =>
              let s := { s with mapParam := votes }
              match nNewValue with
              | none => (true, s)
              | some nNewValue =>
                if nNewValue = getParamTxValue s param.vchLabel then (true, s)
                else
                  let s := applyParam s param.vchLabel nNewValue
                  (true, { s with mapParamArch := s.mapParamArch ++ [tx.getHash env.hash] })

/-- The vote that an archived transaction holds, if it is found and of the kind. -/
def appliedValue (hash : Uint256) : Option Int64 := do
  let tx ← env.getTransaction hash
  let param ← getParam tx
  if param.vchLabel ≠ strName then none else some param.nValue

def getBestParamValue : Int64 :=
  (s.mapParamArch.reverse.findSome? (appliedValue env strName)).getD
    (getParamTxDefaultValue env s strName)

/-- `DisconnectParamTx`. The vote that was in front is read after it is erased, so what is read is
    the one that is in front then. -/
def disconnectParamTx (tx : CTransaction) : Option (Bool × ParamState) :=
  (verifyParamTx env tx).bind fun
    | none => some (false, s)
    | some opMode =>
      if opMode ≠ opExtUpdate then some (true, s)
      else
        match getParam tx, s.mapParam with
        | none, _ => some (false, s)
        | _, [] => some (false, s)
        | some param, wparam :: votes =>
          if paramHash env wparam ≠ paramHash env param then some (false, s)
          else
            let s := { s with mapParam := votes }
            let hash := tx.getHash env.hash
            if s.mapParamArch.contains hash then
              let s := { s with mapParamArch := s.mapParamArch.erase hash }
              votes.head?.map fun wparam =>
                (true, applyParam s wparam.vchLabel (getBestParamValue env s wparam.vchLabel))
            else some (true, s)

end

/-- A vote that is connected, and the surroundings in which it is disconnected. The hash functions
    are the same. -/
structure ParamVote where
  /-- The passes that the loop over the votes to be dropped is given. -/
  fuel : Nat
  env : ParamEnv
  envBack : ParamEnv
  hash_eq : envBack.hash = env.hash
  hash160_eq : envBack.hash160 = env.hash160
  tx : CTransaction
  pindexPrev : Option Int

def connectVote (s : ParamState) (v : ParamVote) : Option ParamState :=
  (connectParamTx v.fuel v.env s v.tx v.pindexPrev).map Prod.snd

def disconnectVote (s : ParamState) (v : ParamVote) : Option ParamState :=
  (disconnectParamTx v.envBack s v.tx).map Prod.snd

end ShareCoin.Ext
