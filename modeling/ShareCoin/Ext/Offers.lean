import ShareCoin.Ext.Records

/-!
# `offer.cpp` — the tables of the offers

An offer is registered under its hash. What is done with it later names that hash: the transaction
that accepts the offer, and the one that generates the exchange, have a table each. `CommitOfferTx`
writes an entry where its checks pass, and `DisconnectOfferTx` erases one. The disconnect goes by
the mode of the output alone, and not by whether the commit had written anything.

A call has no value where the lookup of the offer's output fails its assertion. `CommitOfferTx` also
reads the certificate of the transaction as an offer, for a hash that it does not use; that is left
out.
-/

namespace ShareCoin.Ext

open Wire Function
open Server hiding CTransaction

@[ext]
structure OfferTables where
  mapOffer : Uint160 → Option Uint256
  mapOfferAccept : Uint160 → Option Uint256
  mapOfferGenerate : Uint160 → Option Uint256

/-- The tables before the first block. -/
def OfferTables.empty : OfferTables where
  mapOffer := fun _ => none
  mapOfferAccept := fun _ => none
  mapOfferGenerate := fun _ => none

structure OfferEnv extends RecordEnv where
  maxShareNameLength : Nat
  /-- `CommitGenerateOffer`: it hands the prepared transaction to the wallet of the other coin, and
      reads the tables for what the offer and its acceptance agreed on. -/
  commitGenerateOffer : OfferTables → COffer → Bool

def opOffer : Nat := 11

def decodeOfferHash : CScript → Option (UInt8 × Uint160) := decodeExtHash opOffer

def isOfferTx (tx : CTransaction) : Bool :=
  isFlag tx txfOffer &&
    tx.vout.countP (fun out => (decodeOfferHash out.scriptPubKey).isSome) == 1

def getOffer (tx : CTransaction) : Option COffer :=
  if hasFlag tx.nFlag txfOffer then some tx.offer else none

section

variable (env : OfferEnv)

def offerHash (offer : COffer) : Uint160 :=
  recordHash env.toRecordEnv ((COffer.codec serGetHash).put offer)

def offerOutput (tx : CTransaction) : Option (CTxOut × UInt8 × Uint160) :=
  recordOutput decodeOfferHash tx (indexOfExtOutput (asServer tx))

def verifyOffer (tx : CTransaction) : Option UInt8 :=
  if ! isOfferTx tx then none
  else
    match offerOutput tx, getOffer tx with
    | some (_, mode, hashOffer), some offer =>
      if [opExtNew, opExtActivate, opExtTransfer, opExtGenerate, opExtPay,
          opExtRemove].contains mode &&
        hashOffer == offerHash env offer &&
        [offer.vchLabel, offer.vchPayAddr, offer.vchXferAddr, offer.vchPayCoin,
          offer.vchXferCoin].all (fun vch => decide (vch.length ≤ env.maxShareNameLength))
      then some mode else none
    | _, _ => none

def getTxOfOffer (t : OfferTables) (hashOffer : Uint160) : Option CTransaction := do
  let hashTx ← t.mapOffer hashOffer
  let tx ← env.getTransaction hashTx
  if ! isOfferTx tx then none else some tx

def offerVerifyGenerateHier (t : OfferTables) (tx : CTransaction) (hOffer : Uint160) :
    Option Bool :=
  match getTxOfOffer env t hOffer with
  | none => some false
  | some txOffer =>
    (getExtOutput (asServer txOffer) opOffer).map fun
      | none => false
      | some (offerMode, nTxOut, _) =>
        offerMode == opExtNew && tx.vin.any fun txin =>
          txin.prevout.hash == txOffer.getHash env.hash && txin.prevout.n.toNat == nTxOut

end

/-- What `CommitOfferTx` returns when it does not return zero. -/
inductive OfferError where
  | inval
  | notUniq
  | noEnt
  | access
  deriving DecidableEq

/-- `InsertOfferTable` and `InsertPendingTable`, on their table: an entry that is there stays. -/
def insertTable (table : Uint160 → Option Uint256) (hTx : Uint256) (hash : Uint160) :
    Option (Uint160 → Option Uint256) :=
  if (table hash).isSome then none else some (update table hash (some hTx))

section

variable (env : OfferEnv) (t : OfferTables) (tx : CTransaction)

def commitOfferTx : Option (Option OfferError × OfferTables) :=
  let hashTx := tx.getHash env.hash
  match verifyOffer env tx, getOffer tx with
  | none, _ => some (some .inval, t)
  | _, none => some (some .inval, t)
  | some txMode, some offer =>
    if txMode = opExtNew then
      match insertTable t.mapOffer hashTx (offerHash env offer) with
      | none => some (some .notUniq, t)
      | some table => some (none, { t with mapOffer := table })
    else if txMode = opExtActivate then
      if t.mapOffer offer.hashOffer = none then some (some .noEnt, t)
      else
        match insertTable t.mapOfferAccept hashTx offer.hashOffer with
        | none => some (some .notUniq, t)
        | some table => some (none, { t with mapOfferAccept := table })
    else if txMode = opExtGenerate then
      if t.mapOffer offer.hashOffer = none then some (some .noEnt, t)
      else if t.mapOfferAccept offer.hashOffer = none then some (some .noEnt, t)
      else (offerVerifyGenerateHier env t tx offer.hashOffer).map fun ok =>
        if ! ok then (some .access, t)
        else if ! env.commitGenerateOffer t offer then (some .inval, t)
        else (none, { t with
          mapOfferGenerate := update t.mapOfferGenerate offer.hashOffer (some hashTx) })
    else if txMode = opExtRemove then
      if t.mapOffer offer.hashOffer = none then some (some .noEnt, t)
      else if t.mapOfferAccept offer.hashOffer = none then
        (offerVerifyGenerateHier env t tx offer.hashOffer).map fun ok =>
          if ! ok then (some .access, t) else (none, t)
      else some (none, t)
    else some (none, t)

/-- The entry that `DisconnectOfferTx` erases, by the mode. -/
def eraseOffer (offer : COffer) (offerMode : UInt8) : OfferTables :=
  if offerMode = opExtNew then
    { t with mapOffer := update t.mapOffer (offerHash env offer) none }
  else if offerMode = opExtActivate then
    { t with mapOfferAccept := update t.mapOfferAccept offer.hashOffer none }
  else if offerMode = opExtGenerate then
    { t with mapOfferGenerate := update t.mapOfferGenerate offer.hashOffer none }
  else t

def disconnectOfferTx : Option (Bool × OfferTables) :=
  match getOffer tx with
  | none => some (false, t)
  | some offer =>
    (getExtOutputMode (asServer tx) opOffer).map fun
      | none => (false, t)
      | some offerMode => (true, eraseOffer env t offer offerMode)

end

end ShareCoin.Ext
