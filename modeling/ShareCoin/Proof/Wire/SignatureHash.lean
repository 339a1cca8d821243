import ShareCoin.Proof.Wire.Transaction
import ShareCoin.Wire.SignatureHash

/-!
# A signature and the records of a transaction

The base version serializes the transaction with its records, so two transactions whose records are
written differently are signed differently. The witness versions list the fields of the core and
none of the records.
-/

namespace ShareCoin.Wire

open Lib Server Option

/-- The fields that two transactions have in common when they differ in their records at most. -/
structure SameCore (tx tx' : CTransaction) : Prop where
  nFlag : tx.nFlag = tx'.nFlag
  vin : tx.vin = tx'.vin
  vout : tx.vout = tx'.vout
  nLockTime : tx.nLockTime = tx'.nLockTime

/-- The serialized records that are part of the hash of a transaction. -/
def CTransaction.payloadBytes (tx : CTransaction) : List UInt8 :=
  (payload serGetHash tx.nFlag).put tx.records

/-! ## The base version -/

theorem CTransaction.copy_payloadBytes (tx : CTransaction) : tx.copy.payloadBytes =
    tx.payloadBytes := by
  simp only [payloadBytes, payload, Codec.pair, records, copy, Codec.put_opt_select]

def signedCore (scriptCode : CScript) (tx : CTransaction) (nIn : Nat) : CTransactionCore :=
  { tx.toCTransactionCore with
    vin := blankInputs (findAndDelete [opCodeSeparator] scriptCode) nIn sighashAll tx.vin }

theorem basePreimage_all (scriptCode : CScript) (tx : CTransaction) (nIn : Nat) :
    basePreimage scriptCode tx nIn sighashAll =
      some ((signedCore scriptCode tx nIn).put serializeTransactionNoWitness ++ tx.payloadBytes ++
        i32.put sighashAll) := by
  have hout : blankOutputs nIn sighashAll tx.vout = some tx.vout := rfl
  have hpay : anyoneCanPay sighashAll = false := rfl
  rw [← tx.copy_payloadBytes]
  simp only [basePreimage, hout, hpay, bind_eq_bind, bind_some]
  rfl

theorem signedCore_put {scriptCode : CScript} {tx tx' : CTransaction} {nIn : Nat}
    (h : SameCore tx tx') :
    (signedCore scriptCode tx nIn).put serializeTransactionNoWitness =
      (signedCore scriptCode tx' nIn).put serializeTransactionNoWitness := by
  have heq : signedCore scriptCode tx nIn =
      { signedCore scriptCode tx' nIn with vtxinwit := tx.vtxinwit } := by
    simp only [signedCore, h.nFlag, h.vin, h.vout, h.nLockTime]
  rw [heq, CTransaction.put_noWitness]

/-! ## The witness versions -/

theorem witnessPreimage_congr {hash : List UInt8 → Uint256} {scriptCode : CScript}
    {tx tx' : CTransaction} {nIn : Nat} {txin : CTxIn} {nHashType : Int32} {nAmount : Int64}
    (h : SameCore tx tx') :
    witnessPreimage hash scriptCode tx nIn txin nHashType nAmount =
      witnessPreimage hash scriptCode tx' nIn txin nHashType nAmount := by
  simp only [witnessPreimage, sequenceHash, outputsHash, getPrevoutHash, getSequenceHash,
    getOutputsHash, h.nFlag, h.vin, h.vout, h.nLockTime]

/-! ## The main result -/

/-- **A signature binds the records of a transaction exactly in the base version.** Two transactions
    with the same core and differently written records have different preimages for `SIGHASH_ALL`
    if the version is the base version, and the same preimage if it is a witness version. -/
theorem records_signed_iff_base (hash : List UInt8 → Uint256) (sigver : SigVersion)
    (scriptCode : CScript) (tx tx' : CTransaction) (nIn : Nat) (nAmount : Int64)
    (hcore : SameCore tx tx') (hrecords : tx.payloadBytes ≠ tx'.payloadBytes)
    (hin : nIn < tx.vin.length) :
    signaturePreimage hash sigver scriptCode tx nIn sighashAll nAmount ≠
      signaturePreimage hash sigver scriptCode tx' nIn sighashAll nAmount ↔ sigver = .base := by
  have htxin : tx.vin[nIn]? = some tx.vin[nIn] := List.getElem?_eq_getElem hin
  have htxin' : tx'.vin[nIn]? = some tx.vin[nIn] := hcore.vin ▸ htxin
  simp only [signaturePreimage, htxin, htxin', bind_eq_bind, bind_some]
  cases sigver with
  | base =>
    refine iff_of_true ?_ rfl
    intro heq
    rw [basePreimage_all, basePreimage_all, signedCore_put hcore] at heq
    have hbytes := List.append_cancel_right (some.inj heq)
    exact hrecords (List.append_cancel_left hbytes)
  | witnessV0 | witnessV14 =>
    refine iff_of_false ?_ (by decide)
    exact not_not_intro (congrArg some (witnessPreimage_congr hcore))

/-! ## Samples -/

def aliasFor (vAddr : List UInt8) : CTransaction where
  nFlag := 0x41
  vin := [⟨⟨7, 0⟩, [], 0xFFFFFFFF⟩]
  vout := [⟨5, [0x51]⟩]
  calias := { vchLabel := [0x61], vAddr := vAddr }

theorem aliasFor_base_signs_address :
    signaturePreimage (fun _ => 0) .base [0x51] (aliasFor [1]) 0 sighashAll 9 ≠
      signaturePreimage (fun _ => 0) .base [0x51] (aliasFor [2]) 0 sighashAll 9 :=
  (records_signed_iff_base (fun _ => 0) .base [0x51] (aliasFor [1]) (aliasFor [2]) 0 9
    ⟨rfl, rfl, rfl, rfl⟩ (by decide) (by decide)).mpr rfl

/-- The address of an alias can be exchanged below a witness signature; what the hash of the
    transaction is taken of changes, what is signed does not. -/
theorem witness_leaves_address_open :
    SameCore (aliasFor [1]) (aliasFor [2]) ∧
    (aliasFor [1]).payloadBytes ≠ (aliasFor [2]).payloadBytes ∧
    (aliasFor [1]).serialize serGetHash serializeTransactionNoWitness ≠
      (aliasFor [2]).serialize serGetHash serializeTransactionNoWitness ∧
    ∀ hash, signaturePreimage hash .witnessV0 [0x51] (aliasFor [1]) 0 sighashAll 9 =
      signaturePreimage hash .witnessV0 [0x51] (aliasFor [2]) 0 sighashAll 9 :=
  ⟨⟨rfl, rfl, rfl, rfl⟩, by decide, by decide, fun _ => rfl⟩

end ShareCoin.Wire
