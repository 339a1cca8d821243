import ShareCoin.Server.Script
import ShareCoin.Wire.Transaction

/-!
# `txsignature.cpp` — what a signature signs

`CSignature::SignatureHash` hashes one of two byte strings. For a script of the base version it is
the transaction itself, serialized again with the scripts of its inputs blanked and the script code
in the place of the one being signed; for a witness program it is a list of fields, three of which
are hashes of their own. The double SHA-256 of `Hash` and `CHashWriter` is a parameter.
-/

namespace ShareCoin.Wire

open Lib Server

def sighashAll : Int32 := 1

def sighashNone : Int32 := 2

def sighashSingle : Int32 := 3

def sighashAnyoneCanPay : Int32 := 0x80

def outputType (nHashType : Int32) : Int32 := nHashType &&& 0x1f

def anyoneCanPay (nHashType : Int32) : Bool := nHashType &&& sighashAnyoneCanPay != 0

def opCodeSeparator : UInt8 := 0xab

def nullTxOut : CTxOut := { nValue := -1, scriptPubKey := [] }

/-! ## The base version -/

/-- `CTransaction(const CTransaction&)`: of the records, those that the flags select. -/
def CTransaction.copy (tx : CTransaction) : CTransaction :=
  { toCTransactionCore := tx.toCTransactionCore
    certificate := if hasFlag tx.nFlag txfCert then tx.certificate else .null
    calias := if hasFlag tx.nFlag txfAlias then tx.calias else {}
    offer := if hasFlag tx.nFlag txfOffer then tx.offer else {}
    matrix := if hasFlag tx.nFlag txfMatrix then tx.matrix else .null
    exec := if hasFlag tx.nFlag txfExec then tx.exec else {}
    altchain := if hasFlag tx.nFlag txfAltChain then tx.altchain else {}
    param := if hasFlag tx.nFlag txfParam then tx.param else {} }

/-- The inputs with the other inputs' signatures blanked; the others' sequence numbers too, unless
    the hash type commits to all outputs. -/
def blankInputs (scriptCode : CScript) (nIn : Nat) (nHashType : Int32) (vin : List CTxIn) :
    List CTxIn :=
  let others := outputType nHashType = sighashNone || outputType nHashType = sighashSingle
  vin.mapIdx fun i txin =>
    { txin with
      scriptSig := if i = nIn then scriptCode else []
      nSequence := if others && i != nIn then 0 else txin.nSequence }

/-- The outputs that are signed; no value where the output of `SIGHASH_SINGLE` does not exist. -/
def blankOutputs (nIn : Nat) (nHashType : Int32) (vout : List CTxOut) : Option (List CTxOut) :=
  if outputType nHashType = sighashNone then some []
  else if outputType nHashType = sighashSingle then
    (vout[nIn]?).map fun txout => List.replicate nIn nullTxOut ++ [txout]
  else some vout

/-- The string that `base_SignatureHash` hashes. It hashes none, and the result is 1, if the output
    of `SIGHASH_SINGLE` does not exist. -/
def basePreimage (scriptCode : CScript) (txTo : CTransaction) (nIn : Nat) (nHashType : Int32) :
    Option (List UInt8) := do
  let scriptCode := findAndDelete [opCodeSeparator] scriptCode
  let vin := blankInputs scriptCode nIn nHashType txTo.vin
  let vout ← blankOutputs nIn nHashType txTo.vout
  let vin ← if anyoneCanPay nHashType then (vin[nIn]?).map fun txin => [txin] else some vin
  let txTmp : CTransaction := { txTo.copy with vin := vin, vout := vout }
  some (txTmp.serialize serGetHash serializeTransactionNoWitness ++ i32.put nHashType)

/-! ## The witness versions -/

section

variable (hash : List UInt8 → Uint256)

section

variable (txTo : CTransaction)

def getPrevoutHash : Uint256 :=
  hash (txTo.vin.flatMap fun txin => outPoint.put txin.prevout)

def getSequenceHash : Uint256 :=
  hash (txTo.vin.flatMap fun txin => u32.put txin.nSequence)

def getOutputsHash : Uint256 := hash (txTo.vout.flatMap txOut.put)

def outputsHash (nIn : Nat) (nHashType : Int32) : Uint256 :=
  if outputType nHashType ≠ sighashSingle && outputType nHashType ≠ sighashNone then
    getOutputsHash hash txTo
  else if outputType nHashType = sighashSingle then
    ((txTo.vout[nIn]?).map fun txout => hash (txOut.put txout)).getD 0
  else 0

def sequenceHash (nHashType : Int32) : Uint256 :=
  if !anyoneCanPay nHashType && outputType nHashType ≠ sighashSingle &&
      outputType nHashType ≠ sighashNone then getSequenceHash hash txTo
  else 0

end

/-- The string that `witness_v0_SignatureHash` hashes, for the input `txin` being signed. -/
def witnessPreimage (scriptCode : CScript) (txTo : CTransaction) (nIn : Nat) (txin : CTxIn)
    (nHashType : Int32) (nAmount : Int64) : List UInt8 :=
  u32.put txTo.nFlag ++
  (u256.put (if anyoneCanPay nHashType then 0 else getPrevoutHash hash txTo) ++
  (u256.put (sequenceHash hash txTo nHashType) ++
  (outPoint.put txin.prevout ++
  (cbuff.put scriptCode ++
  (i64.put nAmount ++
  (u32.put txin.nSequence ++
  (u256.put (outputsHash hash txTo nIn nHashType) ++
  (u32.put txTo.nLockTime ++ i32.put nHashType))))))))

/-- The string that `CSignature::SignatureHash` hashes; no value where it hashes none. `nAmount` is
    the value of the output that the input spends, which `FillInputs` and `GetOutputFor` find. -/
def signaturePreimage (sigver : SigVersion) (scriptCode : CScript) (tx : CTransaction) (nIn : Nat)
    (nHashType : Int32) (nAmount : Int64) : Option (List UInt8) := do
  let txin ← tx.vin[nIn]?
  match sigver with
  | .base => basePreimage scriptCode tx nIn nHashType
  | .witnessV0 | .witnessV14 => some (witnessPreimage hash scriptCode tx nIn txin nHashType nAmount)

end

end ShareCoin.Wire
