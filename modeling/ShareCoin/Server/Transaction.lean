import Mathlib.Data.UInt

/-!
# `block.h`, `script.h` — transactions and scripts

The value types that the rest of the server passes around, with the few accessors that compute
something. Amounts are `Int64`, so a sum of them is the sum that the source computes.

Two functions of a transaction have no body here: its hash, which is the double SHA-256 of the
serialization, and the size of that serialization. They are fields of `TxEnv`, and everything that
follows is stated for any value of it. The extension objects of a transaction other than the
matrix are kept as the bytes they serialize to: nothing reads them, but they count towards the
hash.
-/

namespace ShareCoin.Server

abbrev Uint256 := BitVec 256

abbrev Uint160 := BitVec 160

abbrev CScript := List UInt8

/-! ## The coin interface -/

/-- The coins the server runs; `ifaceIndex`. -/
inductive CoinIface where
  | test | shc | emc2 | ltc | testnet | color
  deriving DecidableEq, Repr

/-- `coin_iface_t`, as far as it is read here. The greatest amount any coin sets is
    `TEST_MAX_MONEY`, `1600000000 * COIN`; a sum of two amounts in range does not overflow. -/
structure CIface where
  ifaceIndex : CoinIface
  maxBlockSize : Nat
  maxMoney : Nat
  maxSigops : Nat
  maxScriptSize : Nat
  maxScriptElementSize : Nat
  coinbaseMaturity : Nat
  bip30Height : Int
  bip34Height : Int
  maxMoney_lt : maxMoney < 2 ^ 62

def shcIface : CIface where
  ifaceIndex := .shc
  maxBlockSize := 4096000
  maxMoney := 500000794 * 100000000
  maxSigops := 32768
  maxScriptSize := 60624
  maxScriptElementSize := 3368
  coinbaseMaturity := 60
  bip30Height := 1
  bip34Height := 1
  maxMoney_lt := by decide

def moneyRange (iface : CIface) (nValue : Int64) : Bool :=
  decide (0 ≤ nValue.toInt) && decide (nValue.toInt ≤ iface.maxMoney)

/-! ## Transactions -/

structure COutPoint where
  hash : Uint256
  n : UInt32
  deriving DecidableEq, Repr

def COutPoint.isNull (o : COutPoint) : Bool := o.hash == 0 && o.n == 0xFFFFFFFF

structure CTxIn where
  prevout : COutPoint
  scriptSig : CScript
  nSequence : UInt32
  deriving DecidableEq, Repr

def sequenceFinal : UInt32 := 0xFFFFFFFF

structure CTxOut where
  nValue : Int64
  scriptPubKey : CScript
  deriving DecidableEq

structure CTxMatrix where
  nType : UInt32
  nHeight : UInt32
  hRef : Uint160
  vData : Vector UInt32 9
  deriving DecidableEq, Repr

def CTxMatrix.null : CTxMatrix :=
  { nType := 0, nHeight := 0, hRef := 0, vData := Vector.replicate 9 0 }

structure CTransaction where
  nFlag : UInt32
  vin : List CTxIn
  vout : List CTxOut
  nLockTime : UInt32
  matrix : CTxMatrix
  ext : List UInt8
  deriving DecidableEq

def CTransaction.isCoinBase (tx : CTransaction) : Bool :=
  match tx.vin with
  | [txin] => txin.prevout.isNull
  | _ => false

def CTransaction.getValueOut (tx : CTransaction) : Int64 :=
  tx.vout.foldl (fun nValueOut txout => nValueOut + txout.nValue) 0

/-- `CTransactionCore::isFlag`: the low four bits are the version. -/
def CTransaction.isFlag (tx : CTransaction) (flag : UInt32) : Bool :=
  (tx.nFlag - (tx.nFlag &&& 15)) &&& flag != 0

def txfMatrix : UInt32 := 0x800

/-- What is computed from the serialization of a transaction. -/
structure TxEnv where
  getHash : CTransaction → Uint256
  getSerializeSize : CTransaction → Nat

/-! ## Reading a script -/

def opPushData1 : UInt8 := 0x4c

def opPushData2 : UInt8 := 0x4d

def opPushData4 : UInt8 := 0x4e

/-- The little endian number in the first `n` bytes, as `memcpy` to an `unsigned int` reads it. -/
def leNat (bytes : List UInt8) (n : Nat) : Nat :=
  (bytes.take n).foldr (fun b acc => b.toNat + 256 * acc) 0

def takeOperand (opcode : UInt8) (pc : CScript) (nSize : Nat) :
    Option (UInt8 × List UInt8 × CScript) :=
  if pc.length < nSize then none else some (opcode, pc.take nSize, pc.drop nSize)

/-- `CScript::GetOp2`: the opcode, the bytes it pushes and the rest of the script; `none` when the
    script ends first. -/
def getOp : CScript → Option (UInt8 × List UInt8 × CScript)
  | [] => none
  | opcode :: pc =>
    if opcode < opPushData1 then takeOperand opcode pc opcode.toNat
    else if opcode = opPushData1 then
      if pc.length < 1 then none else takeOperand opcode (pc.drop 1) (leNat pc 1)
    else if opcode = opPushData2 then
      if pc.length < 2 then none else takeOperand opcode (pc.drop 2) (leNat pc 2)
    else if opcode = opPushData4 then
      if pc.length < 4 then none else takeOperand opcode (pc.drop 4) (leNat pc 4)
    else some (opcode, [], pc)

theorem takeOperand_length {opcode : UInt8} {pc rest : CScript} {nSize : Nat} {op : UInt8}
    {item : List UInt8} (h : takeOperand opcode pc nSize = some (op, item, rest)) :
    rest.length ≤ pc.length := by
  unfold takeOperand at h
  split_ifs at h
  cases h
  simp

theorem getOp_length {pc rest : CScript} {opcode : UInt8} {item : List UInt8}
    (h : getOp pc = some (opcode, item, rest)) : rest.length < pc.length := by
  cases pc with
  | nil => exact absurd h (by simp [getOp])
  | cons b pc =>
    unfold getOp at h
    dsimp only at h
    split_ifs at h
    · exact Nat.lt_succ_of_le (takeOperand_length h)
    · exact Nat.lt_succ_of_le (Nat.le_trans (takeOperand_length h) (by simp))
    · exact Nat.lt_succ_of_le (Nat.le_trans (takeOperand_length h) (by simp))
    · exact Nat.lt_succ_of_le (Nat.le_trans (takeOperand_length h) (by simp))
    · cases h
      simp

end ShareCoin.Server
