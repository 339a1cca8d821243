import ShareCoin.Server.Matrix

/-!
# `txext.cpp` — looking for an extension output

The script of an extension output starts with its mode, one of ten opcodes, and its type, a small
number. `GetExtOutput` looks for the first output of a given type. It decodes the second opcode of
every output that starts with a mode, with a function that asserts its argument to be a small
number, so a call has no value here (the outer `none`) when an assertion fails.
-/

namespace ShareCoin.Server

def opParam : Nat := 3

def opAsset : Nat := 15

def txfParam : UInt32 := 0x100

/-- `CScript::DecodeOP_N`; no value where the assertion fails. -/
def decodeOpN (opcode : UInt8) : Option Nat :=
  if opcode = 0 then some 0
  else if 0x51 ≤ opcode && opcode ≤ 0x60 then some (opcode.toNat - 0x50)
  else none

def getExtOutputOfScript (script : CScript) (extMode : Int) : Option (Option UInt8) :=
  match getOp script with
  | none => some none
  | some (opcode, _, pc) =>
    if isExtMode opcode then
      match getOp pc with
      | none => some none
      | some (opcode2, _, _) =>
        (decodeOpN opcode2).map fun (op : Nat) => if (op : Int) = extMode then some opcode else none
    else some none

def getExtOutputLoop (extMode : Int) : Nat → List CTxOut →
    Option (Option (UInt8 × Nat × CScript))
  | _, [] => some none
  | nOut, out :: vout =>
    match getExtOutputOfScript out.scriptPubKey extMode with
    | none => none
    | some (some mode) => some (some (mode, nOut, out.scriptPubKey))
    | some none => getExtOutputLoop extMode (nOut + 1) vout

section

variable (tx : CTransaction) (extMode : Int)

/-- `GetExtOutput` of a transaction: the mode, the index and the script of the first output of the
    type. -/
def getExtOutput : Option (Option (UInt8 × Nat × CScript)) :=
  getExtOutputLoop extMode 0 tx.vout

def getExtOutputMode : Option (Option UInt8) :=
  (getExtOutput tx extMode).map (Option.map Prod.fst)

/-! ## The lookups -/

def isParamTx : Option Bool :=
  if ! tx.isFlag txfParam then some false
  else (getExtOutput tx opParam).map Option.isSome

def indexOfAssetOutput : Option (Option Nat) :=
  (getExtOutput tx opAsset).map (Option.map fun out => out.2.1)

/-- The test of `core_AcceptBlock` whether a coinbase is to be notarised. -/
def isValidateMatrixTx : Option Bool :=
  if ! tx.isFlag txfMatrix then some false
  else (getExtOutputMode tx opMatrix).map fun mode => decide (mode = some opExtValidate)

end

end ShareCoin.Server
