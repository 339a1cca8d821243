import ShareCoin.Server.VerifyScript
import ShareCoin.Wire.CheckBlock

/-!
# `block.cpp` — the cost of the signature operations

`GetSigOpCost` is written twice, over the previous transactions of a pool entry and over those that
`FetchInputs` has read. The sum has three parts: what the scripts of the transaction count by
themselves, what the redeem scripts count, and the witnesses. The first version adds the redeem
scripts up in a variable of its own, which hides the one that is returned.
-/

namespace ShareCoin.Wire

open Server

/-! ## Scripts -/

/-- The loop of `CScript::GetSigOpCount(true)`: a number in front of a multisignature operation is
    how many keys it has. -/
def accurateLoop : Nat → UInt8 → CScript → UInt32
  | 0, _, _ => 0
  | k + 1, lastOpcode, pc =>
    match getOp pc with
    | none => 0
    | some (opcode, _, pc) =>
      (if (opcode = 0xae ∨ opcode = 0xaf) ∧ 0x51 ≤ lastOpcode ∧ lastOpcode ≤ 0x60 then
        (lastOpcode - 0x50).toUInt32 else opSigOps opcode) + accurateLoop k opcode pc

/-- `CScript::GetSigOpCount(true)`. -/
def accurateSigOps (script : CScript) : UInt32 := accurateLoop script.length 0xff script

def lastPush : Nat → List UInt8 → CScript → Option (List UInt8)
  | 0, data, _ => some data
  | k + 1, data, pc =>
    if pc.isEmpty then some data
    else
      match getOp pc with
      | none => none
      | some (opcode, data, pc) => if 0x60 < opcode then none else lastPush k data pc

def redeemSigOps (scriptSig : CScript) : UInt32 :=
  ((lastPush scriptSig.length [] scriptSig).map accurateSigOps).getD 0

def witnessSigOps (witversion : Nat) (witprogram : List UInt8) (witness : Stack) : Nat :=
  if witversion ≠ 0 then 0
  else if witprogram.length = 20 then 1
  else if witprogram.length = 32 then (witness.getLast?.map (accurateSigOps · |>.toNat)).getD 0
  else 0

def countWitnessSigOps (scriptSig scriptPubKey : CScript) (witness : Stack) (flags : UInt32) :
    Nat :=
  if flags ≠ 0 ∧ ! testFlag flags scriptVerifyWitness then 0
  else
    match isWitnessProgram scriptPubKey with
    | some (version, program) => witnessSigOps version program witness
    | none =>
      if ! (isPayToScriptHash scriptPubKey && isPushOnly scriptSig) then 0
      else
        match isWitnessProgram ((lastPush scriptSig.length [] scriptSig).getD []) with
        | some (version, program) => witnessSigOps version program witness
        | none => 0

/-! ## Transactions -/

/-- The previous transactions, by hash: a `tx_cache`, or the transactions of a `MapPrevTx`. -/
abbrev PrevTxs := Uint256 → Option CTransaction

def getOutputFor (inputs : PrevTxs) (txin : CTxIn) : Option CTxOut :=
  (inputs txin.prevout.hash).bind fun txPrev => txPrev.vout[txin.prevout.n.toNat]?

def scaleFactor : UInt32 := 4

/-- The step of the witness loops. -/
def inputWitnessSigOps (tx : CTransaction) (flags : UInt32) (input : CTxIn × Nat)
    (prevout : CTxOut) : Nat :=
  countWitnessSigOps input.1.scriptSig prevout.scriptPubKey (tx.vtxinwit.getD input.2 []) flags

section

variable (tx : CTransaction) (inputs : PrevTxs) (flags : UInt32)

/-- `CTransaction::GetSigOpCost(tx_cache&, int)`. The loop over the redeem scripts has no effect: it
    counts in a second `nSigOps`, which ends with its block. -/
def getSigOpCostCache : Nat :=
  let nSigOps := (getLegacySigOpCount tx * scaleFactor).toNat
  if isCoinBase tx then nSigOps
  else if flags = 0 ∨ testFlag flags scriptVerifyWitness then
    nSigOps + (tx.vin.zipIdx.map fun input =>
      ((getOutputFor inputs input.1).map (inputWitnessSigOps tx flags input)).getD 0).sum
  else nSigOps

/-- What an input adds in `CTransaction::GetP2SHSigOpCount`. -/
def inputRedeemSigOps (txin : CTxIn) (prevout : CTxOut) : UInt32 :=
  if isPayToScriptHash prevout.scriptPubKey then redeemSigOps txin.scriptSig else 0

def getP2SHSigOpCount : Option UInt32 :=
  if isCoinBase tx then some 0
  else (tx.vin.mapM fun txin =>
    (getOutputFor inputs txin).map (inputRedeemSigOps txin)).map List.sum

def getSigOpCost : Option Nat := do
  let nSigOps := (getLegacySigOpCount tx * scaleFactor).toNat
  if isCoinBase tx then some nSigOps
  else
    let nRedeem ← if testFlag flags scriptVerifyP2sh then getP2SHSigOpCount tx inputs else some 0
    let nWitness ← tx.vin.zipIdx.mapM fun input =>
      (getOutputFor inputs input.1).map (inputWitnessSigOps tx flags input)
    some (nSigOps + (nRedeem * scaleFactor).toNat + nWitness.sum)

end

end ShareCoin.Wire
