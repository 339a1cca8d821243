import ShareCoin.Server.Templates
import ShareCoin.Wire.SignatureHash

/-!
# `matrix.cpp` — gathering the signatures of a notary transaction

A notary transaction spends the output of a matrix transaction with the signatures of all of its
notaries. It is passed from node to node with an empty slot for every signature that is missing;
`UpdateValidateNotaryTx` parses the script of its input, fills the slots of the keys that the wallet
has, and builds the script again. The sequence number counts the updates, and is the one that is
signed as soon as no slot is empty.

The hash, signing and verifying are parameters. A key of a wallet is found by its public key, not by
the hash of it.
-/

namespace ShareCoin.Wire

open Lib Server

def sequenceDisableFlag : UInt32 := 0x80000000

def CTransaction.getVersion (tx : CTransaction) : Nat := (tx.nFlag &&& 15).toNat

/-- What is computed elsewhere: `Hash`, and `ECKey::Sign` and `ECKey::Verify` with the secret of a
    public key. -/
structure NotaryEnv extends MatrixEnv where
  hash : List UInt8 → Uint256
  sign : CPubKey → Uint256 → Option Valtype
  verify : CPubKey → Uint256 → Valtype → Bool

/-- A node at the time of a call: the matrix transactions it knows, its clock, and whether its
    wallet has a key for a public key, of either kind. -/
structure NotaryNode where
  validate : ValidateState
  nBestHeight : Int
  adjustedTime : Int
  ecKey : CPubKey → Bool
  diKey : CPubKey → Bool

def NotaryNode.isMine (node : NotaryNode) (pubkey : CPubKey) : Bool :=
  node.ecKey pubkey || node.diKey pubkey

def isFinal (node : NotaryNode) (tx : CTransaction) : Bool :=
  tx.nLockTime == 0 ||
  decide ((tx.nLockTime.toNat : Int) <
    if tx.nLockTime.toNat < locktimeThreshold then node.nBestHeight else node.adjustedTime) ||
  tx.vin.all fun txin => txin.nSequence == sequenceFinal

/-! ## Signatures -/

section

variable (hash : List UInt8 → Uint256)

def baseSignatureHash (scriptCode : CScript) (txTo : CTransaction) (nIn : Nat)
    (nHashType : Int32) : Uint256 :=
  ((basePreimage scriptCode txTo nIn nHashType).map hash).getD 1

def checkSigBase (verify : CPubKey → Uint256 → Valtype → Bool) (tx : CTransaction) (nIn : Nat)
    (vchSig : Valtype) (vchPubKey : CPubKey) (scriptCode : CScript) : Bool :=
  match vchSig.getLast? with
  | none => false
  | some nHashType =>
    verify vchPubKey (baseSignatureHash hash scriptCode tx nIn (Int32.ofNat nHashType.toNat))
      vchSig.dropLast

end

/-! ## `UpdateValidateNotaryTx` -/

/-- The loop that extracts the signatures: those that were there, and the position behind them. -/
def extractSigs : Nat → CScript → List Valtype × CScript
  | 0, pc => ([], pc)
  | n + 1, pc =>
    match readOp pc with
    | (false, c) => ([], c.pc)
    | (true, c) =>
      let (vsig, pc) := extractSigs n c.pc
      (c.vch :: vsig, pc)

def unsolved (vsig : List Valtype) : Nat := vsig.countP List.isEmpty

/-- One slot: the signature, and whether it is new. -/
def fillSlot (env : NotaryEnv) (node : NotaryNode) (sighash : Uint256) (pubkey : CPubKey)
    (vch : Valtype) : Valtype × Bool :=
  if vch ≠ [] then (vch, false)
  else if node.ecKey pubkey then
    match env.sign pubkey sighash with
    | some result => (result ++ [UInt8.ofNat sighashAll.toNatClampNeg], true)
    | none => ([], false)
  else ([], false)

/-- The loop over the keys. -/
def fillSlots (env : NotaryEnv) (node : NotaryNode) (sighash : Uint256) :
    List CPubKey → List Valtype → List (Valtype × Bool)
  | [], _ => []
  | pubkey :: kSend, vsig =>
    fillSlot env node sighash pubkey (vsig.headD []) :: fillSlots env node sighash kSend vsig.tail

def nextSequence (tx : CTransaction) (nSequence : UInt32) : UInt32 :=
  let nSeq := (nSequence &&& 0xFFFF) + 1
  if 2 ≤ tx.getVersion then nSeq ||| sequenceDisableFlag else nSeq

section

variable (env : NotaryEnv) (coin : CoinIface)

/-- The part behind the checks, for the only input of the transaction. The sequence stays the one
    that is signed where no slot was filled. `OP_0` is the push of nothing. -/
def updateInput (node : NotaryNode) (kSend : List CPubKey) (tx : CTransaction) (txin : CTxIn) :
    CTxIn :=
  match readOp txin.scriptSig with
  | (false, _) => txin
  | (true, c) =>
    if c.opcode ≠ 0 then txin
    else
      let (vsig, pc) := extractSigs (minConsensus coin) c.pc
      if unsolved vsig = 0 then txin
      else
        let (fConsensus, scriptRedeem) := generateValidateScript coin kSend
        if !fConsensus then txin
        else
          let locked := { txin with nSequence := sequenceFinal - 1 }
          let sighash :=
            baseSignatureHash env.hash scriptRedeem { tx with vin := [locked] } 0 sighashAll
          let slots := fillSlots env node sighash kSend vsig
          if slots.any Prod.snd then
            let nSequence :=
              if unsolved (slots.map Prod.fst) = 0 then sequenceFinal - 1
              else nextSequence tx txin.nSequence
            if nSequence = sequenceFinal then { txin with nSequence }
            else
              { txin with
                nSequence
                scriptSig := 0 :: ((slots.map Prod.fst).flatMap pushData ++ pc) }
          else locked

def updateValidateNotaryTx (scriptPrev : CScript) (tx : CTransaction) (node : NotaryNode) :
    CTransaction :=
  match tx.vin with
  | [txin] =>
    if isFinal node tx then tx
    else if !verifyValidateMatrixScript env.toMatrixEnv coin node.validate txin.prevout.hash
        scriptPrev then tx
    else if tx.vout.length ≠ 1 then tx
    else
      match getValidateNotaries coin node.validate txin.prevout.hash with
      | (false, _) => tx
      | (true, kSend) =>
        if kSend.any node.isMine then
          { tx with vin := [updateInput env coin node kSend tx txin] }
        else tx
  | _ => tx

/-- The nodes apply it one after the other. -/
def gather (scriptPrev : CScript) (run : List NotaryNode) (tx : CTransaction) : CTransaction :=
  run.foldl (updateValidateNotaryTx env coin scriptPrev) tx

/-! ## `CreateValidateNotaryTx` -/

def maxNotaryTxValue : Int64 := 100

def createValidateNotaryTx (node : NotaryNode) (hPrevTx : Uint256) (vout : List CTxOut)
    (nPrevOut : UInt32) (nLockTime : UInt32) (kSend : List CPubKey) : Option CTransaction :=
  match vout[nPrevOut.toNat]? with
  | none => none
  | some out =>
    if !verifyValidateMatrixScript env.toMatrixEnv coin node.validate hPrevTx out.scriptPubKey then
      none
    else
      let (fConsensus, scriptRedeem) := generateValidateScript coin kSend
      if !fConsensus then none
      else
        let scriptSig := 0 :: (List.replicate (minConsensus coin) 0 ++ pushData scriptRedeem)
        let tx : CTransaction := {}
        let nSequence : UInt32 := if 2 ≤ tx.getVersion then 1 ||| sequenceDisableFlag else 1
        some { tx with
          vin := [⟨⟨hPrevTx, nPrevOut⟩, scriptSig, nSequence⟩]
          vout := [⟨maxNotaryTxValue, [opReturn, 0]⟩]
          nLockTime }

end

end ShareCoin.Wire
