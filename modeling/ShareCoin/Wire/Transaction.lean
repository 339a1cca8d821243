import ShareCoin.Wire.Payload

/-!
# `block.h` — the serialization of a transaction

A transaction is its core and the records its flags select. The writer of the core puts an empty
input list and a flag byte in front when there is a witness; the reader takes an empty input list
for that mark. A witness has a stack for each input and no length of its own: the writer resizes it
to the number of inputs, with a cast that takes the `const` away, and the reader reads as many
stacks as it read inputs. With `SERIALIZE_TRANSACTION_NO_WITNESS` in the version there is no mark
and no witness.
-/

namespace ShareCoin.Wire

open Lib Server

def serNetwork : Int32 := 1

def serGetHash : Int32 := 4

def serializeTransactionNoWitness : UInt32 := 0x40000000

def noWitness (nVersion : UInt32) : Bool := nVersion &&& serializeTransactionNoWitness != 0

/-! ## The core -/

abbrev Stack := List (List UInt8)

structure CTransactionCore where
  nFlag : UInt32 := 1
  vin : List CTxIn := []
  vout : List CTxOut := []
  vtxinwit : List Stack := []
  nLockTime : UInt32 := 0
  deriving DecidableEq

def witnessIsNull (vtxinwit : List Stack) : Bool := vtxinwit.all List.isEmpty

def resize (n : Nat) (vtxinwit : List Stack) : List Stack :=
  vtxinwit.take n ++ List.replicate (n - vtxinwit.length) []

namespace CTransactionCore

section

variable (nVersion : UInt32) (tx : CTransactionCore)

/-- Whether the witness is written: the bit `flag & 1`. -/
def flag : Bool :=
  !noWitness nVersion && !witnessIsNull tx.vtxinwit

def put : List UInt8 :=
  u32.put tx.nFlag ++
  ((if tx.flag nVersion then (vec txIn).put [] ++ u8.put 1 else []) ++
  ((vec txIn).put tx.vin ++
  ((vec txOut).put tx.vout ++
  ((if tx.flag nVersion then (vec cbuff).putAll (resize tx.vin.length tx.vtxinwit) else []) ++
  u32.put tx.nLockTime))))

def size : UInt32 :=
  u32.size tx.nFlag +
  ((if tx.flag nVersion then (vec txIn).size [] + u8.size 1 else 0) +
  ((vec txIn).size tx.vin +
  ((vec txOut).size tx.vout +
  ((if tx.flag nVersion then (vec cbuff).sizeAll (resize tx.vin.length tx.vtxinwit) else 0) +
  u32.size tx.nLockTime))))

/-- The inputs and the outputs, with the flag byte. -/
def getVectors (s : List UInt8) : Option ((UInt8 × List CTxIn × List CTxOut) × List UInt8) := do
  let (vin, s) ← (vec txIn).get s
  if vin.isEmpty && !noWitness nVersion then
    let (flag, s) ← u8.get s
    if flag ≠ 0 then
      let (vin, s) ← (vec txIn).get s
      let (vout, s) ← (vec txOut).get s
      some ((flag, vin, vout), s)
    else some ((flag, vin, []), s)
  else
    let (vout, s) ← (vec txOut).get s
    some ((0, vin, vout), s)

def getWitness (flag : UInt8) (n : Nat) (s : List UInt8) : Option (List Stack × List UInt8) :=
  if flag &&& 1 ≠ 0 && !noWitness nVersion then (vec cbuff).getN n s else some ([], s)

def get (s : List UInt8) : Option (CTransactionCore × List UInt8) := do
  let (nFlag, s) ← u32.get s
  let ((flag, vin, vout), s) ← getVectors nVersion s
  let (vtxinwit, s) ← getWitness nVersion flag vin.length s
  let (nLockTime, s) ← u32.get s
  some (⟨nFlag, vin, vout, vtxinwit, nLockTime⟩, s)

end

end CTransactionCore

/-! ## The transaction -/

structure CTransaction extends CTransactionCore where
  certificate : CCert := .null
  calias : CAlias := {}
  offer : COffer := {}
  matrix : CTxMatrix := .null
  exec : CExecCore := {}
  altchain : CAltChain := {}
  param : CParam := {}
  deriving DecidableEq

/-- `TXF_CERTIFICATE`, `TXF_LICENSE`, `TXF_ASSET`, `TXF_IDENT` or `TXF_CONTEXT`. -/
def txfCert : UInt32 := 0x4630

def txfExec : UInt32 := 0x2000

def txfAlias : UInt32 := 0x40

def txfOffer : UInt32 := 0x80

def txfMatrix : UInt32 := 0x800

def txfAltChain : UInt32 := 0x8000

def txfParam : UInt32 := 0x100

def hasFlag (nFlag txf : UInt32) : Bool := nFlag &&& txf != 0

/-- The records that follow the core. -/
def payload (nType : Int32) (nFlag : UInt32) :
    Codec (CCert × CExecCore × CAlias × COffer × CTxMatrix × CAltChain × CParam) :=
  (Codec.opt (hasFlag nFlag txfCert) .null CCert.codec).pair
  ((Codec.opt (hasFlag nFlag txfExec) {} CExecCore.codec).pair
  ((Codec.opt (hasFlag nFlag txfAlias) {} CAlias.codec).pair
  ((Codec.opt (hasFlag nFlag txfOffer) {} (COffer.codec nType)).pair
  ((Codec.opt (hasFlag nFlag txfMatrix) .null matrix).pair
  ((Codec.opt (hasFlag nFlag txfAltChain) {} CAltChain.codec).pair
    (Codec.opt (hasFlag nFlag txfParam) {} CParam.codec))))))

namespace CTransaction

/-- The records of a transaction in the order of the serialization. -/
def records (tx : CTransaction) :
    CCert × CExecCore × CAlias × COffer × CTxMatrix × CAltChain × CParam :=
  (tx.certificate, tx.exec, tx.calias, tx.offer, tx.matrix, tx.altchain, tx.param)

section

variable (nType : Int32) (nVersion : UInt32) (tx : CTransaction)

def serialize : List UInt8 :=
  tx.toCTransactionCore.put nVersion ++ (payload nType tx.nFlag).put tx.records

def getSerializeSize : UInt32 :=
  tx.toCTransactionCore.size nVersion + (payload nType tx.nFlag).size tx.records

/-- `CTransaction::Unserialize` into a new transaction; no value where the stream throws. -/
def unserialize (s : List UInt8) : Option (CTransaction × List UInt8) := do
  let (core, s) ← CTransactionCore.get nVersion s
  let ((certificate, exec, calias, offer, matrix, altchain, param), s) ←
    (payload nType core.nFlag).get s
  some (⟨core, certificate, calias, offer, matrix, exec, altchain, param⟩, s)

end

def getHash (hash : List UInt8 → Uint256) (tx : CTransaction) : Uint256 :=
  hash (tx.serialize serGetHash serializeTransactionNoWitness)

end CTransaction

end ShareCoin.Wire
