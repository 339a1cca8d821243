import ShareCoin.Lib.Codec
import ShareCoin.Server.Transaction

/-!
# `serialize.h`, `ext/*.h` — the records a transaction can carry

Each class of the source lists the fields it writes in `IMPLEMENT_SERIALIZE`; here the list is a
`Codec`, the fields in the same order. `READWRITE(x)` is a call of the writer, the reader or the
size function of the type of `x`, with the stream type and version passed on. Only one class looks
at either: the serializer of `COffer` says `nType` for a member of that name, but there `nType` is
the parameter. What is written is the type of the stream, and the member is not read back.

A vector behind a length is refused by the reader above `MAX_SIZE` elements. `CAltChain` has a
member `nFlag` that nothing sets, reads or writes; it is left out.
-/

namespace ShareCoin.Wire

open Lib Server

/-! ## Words -/

def u8 : Codec UInt8 :=
  .word 1 UInt8.toNat UInt8.ofNat (fun a => a.toNat_lt) (fun _ => UInt8.ofNat_toNat)

def u32 : Codec UInt32 :=
  .word 4 UInt32.toNat UInt32.ofNat (fun a => a.toNat_lt) (fun _ => UInt32.ofNat_toNat)

def u64 : Codec UInt64 :=
  .word 8 UInt64.toNat UInt64.ofNat (fun a => a.toNat_lt) (fun _ => UInt64.ofNat_toNat)

def i32 : Codec Int32 :=
  .word 4 (fun a => a.toUInt32.toNat) (fun n => (UInt32.ofNat n).toInt32)
    (fun a => a.toUInt32.toNat_lt) (fun a => by simp)

def i64 : Codec Int64 :=
  .word 8 (fun a => a.toUInt64.toNat) (fun n => (UInt64.ofNat n).toInt64)
    (fun a => a.toUInt64.toNat_lt) (fun a => by simp)

def u160 : Codec Uint160 :=
  .word 20 BitVec.toNat (BitVec.ofNat 160) (fun a => a.isLt) (fun a => BitVec.ofNat_toNat 160 a)

def u256 : Codec Uint256 :=
  .word 32 BitVec.toNat (BitVec.ofNat 256) (fun a => a.isLt) (fun a => BitVec.ofNat_toNat 256 a)

/-! ## Compact sizes -/

def maxSize : Nat := 0x05000000

def getSizeOfCompactSize (nSize : Nat) : UInt32 :=
  if nSize < 253 then 1
  else if nSize ≤ 0xFFFF then 3
  else if nSize ≤ 0xFFFFFFFF then 5
  else 9

def writeCompactSize (nSize : Nat) : List UInt8 :=
  if nSize < 253 then [UInt8.ofNat nSize]
  else if nSize ≤ 0xFFFF then 253 :: Codec.leBytes 2 nSize
  else if nSize ≤ 0xFFFFFFFF then 254 :: Codec.leBytes 4 nSize
  else 255 :: Codec.leBytes 8 nSize

def readWord (n : Nat) (is : List UInt8) : Option (Nat × List UInt8) :=
  if is.length < n then none else some (Codec.leValue (is.take n), is.drop n)

def readCompactSize : List UInt8 → Option (Nat × List UInt8)
  | [] => none
  | chSize :: is =>
    (if chSize < 253 then some (chSize.toNat, is)
      else if chSize = 253 then readWord 2 is
      else if chSize = 254 then readWord 4 is
      else readWord 8 is).bind fun (nSizeRet, is) =>
        if maxSize < nSizeRet then none else some (nSizeRet, is)

theorem readWord_leBytes {n x : Nat} (h : x < 256 ^ n) (rest : List UInt8) :
    readWord n (Codec.leBytes n x ++ rest) = some (x, rest) := by
  have hlen : ¬ (Codec.leBytes n x ++ rest).length < n := by simp
  rw [readWord, if_neg hlen, List.take_left' (Codec.leBytes_length n x),
    List.drop_left' (Codec.leBytes_length n x), Codec.leValue_leBytes h]

theorem readCompactSize_write {nSize : Nat} (h : nSize ≤ maxSize) (rest : List UInt8) :
    readCompactSize (writeCompactSize nSize ++ rest) = some (nSize, rest) := by
  have hmax : ¬ maxSize < nSize := Nat.not_lt.mpr h
  have hle : nSize ≤ 0xFFFFFFFF := Nat.le_trans h (by decide)
  unfold writeCompactSize
  split_ifs with h₁ h₂
  · have hsize : (UInt8.ofNat nSize).toNat = nSize := by
      rw [UInt8.toNat_ofNat']
      omega
    have hlt : UInt8.ofNat nSize < 253 := by
      rw [UInt8.lt_iff_toNat_lt, hsize]
      exact h₁
    simp [readCompactSize, hlt, hsize, hmax]
  · have hword := readWord_leBytes (n := 2) (x := nSize) (by omega) rest
    simp [readCompactSize, hword, hmax]
  · have hword := readWord_leBytes (n := 4) (x := nSize) (by omega) rest
    simp [readCompactSize, hword, hmax]

theorem getSizeOfCompactSize_eq (nSize : Nat) :
    getSizeOfCompactSize nSize = UInt32.ofNat (writeCompactSize nSize).length := by
  unfold getSizeOfCompactSize writeCompactSize
  split_ifs <;> simp

def compactSize : Codec Nat where
  put := writeCompactSize
  get := readCompactSize
  size := getSizeOfCompactSize
  fits n := n ≤ maxSize
  norm n := n
  get_put rest h := readCompactSize_write h rest
  put_norm _ := rfl
  size_eq := getSizeOfCompactSize_eq

/-- `std::vector`. -/
def vec {α : Type} (c : Codec α) : Codec (List α) := .list compactSize (fun _ => rfl) c

def cbuff : Codec (List UInt8) := vec u8

theorem vec_exact {α : Type} {c : Codec α} (hc : c.Exact) : (vec c).Exact := .list hc

theorem cbuff_exact : cbuff.Exact := vec_exact fun _ => rfl

/-! ## Inputs and outputs -/

def outPoint : Codec COutPoint :=
  (u256.pair u32).record (fun (hash, n) => ⟨hash, n⟩) (fun o => (o.hash, o.n)) (fun _ => rfl)

def txIn : Codec CTxIn :=
  (outPoint.pair (cbuff.pair u32)).record
    (fun (prevout, scriptSig, nSequence) => ⟨prevout, scriptSig, nSequence⟩)
    (fun i => (i.prevout, i.scriptSig, i.nSequence)) (fun _ => rfl)

def txOut : Codec CTxOut :=
  (i64.pair cbuff).record (fun (nValue, scriptPubKey) => ⟨nValue, scriptPubKey⟩)
    (fun o => (o.nValue, o.scriptPubKey)) (fun _ => rfl)

/-! ## `CExtCore` and its kin -/

/-- `CExtCore`; `SetNull` gives the defaults. -/
structure CExtCore where
  nVersion : UInt32 := 1
  tExpire : UInt64 := 0
  vchLabel : List UInt8 := []
  deriving DecidableEq

def CExtCore.codec : Codec CExtCore :=
  (u32.pair (u64.pair cbuff)).record
    (fun (nVersion, tExpire, vchLabel) => ⟨nVersion, tExpire, vchLabel⟩)
    (fun e => (e.nVersion, e.tExpire, e.vchLabel)) (fun _ => rfl)

/-- `shgeo_t`, written as it lies in memory; it has no padding. -/
structure Shgeo where
  geoStamp : UInt64 := 0
  geoLat : UInt64 := 0
  geoLon : UInt64 := 0
  geoAlt : UInt32 := 0
  reserved : UInt32 := 0
  deriving DecidableEq

def Shgeo.codec : Codec Shgeo :=
  (u64.pair (u64.pair (u64.pair (u32.pair u32)))).record
    (fun (stamp, lat, lon, alt, reserved) => ⟨stamp, lat, lon, alt, reserved⟩)
    (fun g => (g.geoStamp, g.geoLat, g.geoLon, g.geoAlt, g.reserved)) (fun _ => rfl)

structure CIdent extends CExtCore where
  geo : Shgeo := {}
  vAddr : List UInt8 := []
  nType : UInt32 := 0
  deriving DecidableEq

def CIdent.codec : Codec CIdent :=
  (CExtCore.codec.pair (Shgeo.codec.pair (cbuff.pair u32))).record
    (fun (core, geo, vAddr, nType) => ⟨core, geo, vAddr, nType⟩)
    (fun i => (i.toCExtCore, i.geo, i.vAddr, i.nType)) (fun _ => rfl)

structure CSign where
  nAlg : UInt32 := 0
  vPubKey : List UInt8 := []
  vAddrKey : List UInt8 := []
  vSig : List (List UInt8) := []
  deriving DecidableEq

def CSign.codec : Codec CSign :=
  (u32.pair (cbuff.pair (cbuff.pair (vec cbuff)))).record
    (fun (nAlg, vPubKey, vAddrKey, vSig) => ⟨nAlg, vPubKey, vAddrKey, vSig⟩)
    (fun s => (s.nAlg, s.vPubKey, s.vAddrKey, s.vSig)) (fun _ => rfl)

/-- `CCert`, which an asset, an identity, a licence and a context are as well. -/
structure CCert extends CIdent where
  hashIssuer : Uint160 := 0
  signature : CSign := {}
  vContext : List UInt8 := []
  nFee : Int64 := 0
  nFlag : Int32 := 0x2804
  deriving DecidableEq

def CCert.null : CCert := { nVersion := 3 }

def CCert.codec : Codec CCert :=
  (CIdent.codec.pair (u160.pair (CSign.codec.pair (cbuff.pair (i64.pair i32))))).record
    (fun (i, hashIssuer, signature, vContext, nFee, nFlag) =>
      ⟨i, hashIssuer, signature, vContext, nFee, nFlag⟩)
    (fun c => (c.toCIdent, c.hashIssuer, c.signature, c.vContext, c.nFee, c.nFlag))
    (fun _ => rfl)

structure CAlias extends CIdent where
  deriving DecidableEq

def CAlias.codec : Codec CAlias :=
  CIdent.codec.record (fun i => ⟨i⟩) (fun a => a.toCIdent) (fun _ => rfl)

structure CParam extends CExtCore where
  nValue : Int64 := 0
  deriving DecidableEq

def CParam.codec : Codec CParam :=
  (CExtCore.codec.pair i64).record (fun (core, nValue) => ⟨core, nValue⟩)
    (fun p => (p.toCExtCore, p.nValue)) (fun _ => rfl)

/-! ## `CTxMatrix` -/

def matrix : Codec CTxMatrix :=
  (u32.pair (u32.pair (u160.pair (.vector 9 u32)))).record
    (fun (nHeight, nType, hRef, vData) => ⟨nType, nHeight, hRef, vData⟩)
    (fun m => (m.nHeight, m.nType, m.hRef, m.vData)) (fun _ => rfl)

/-! ## `COffer` -/

/-- `COffer`. `SetNull` compares `nValue` with zero and does not set it; a reader that skips the
    offer leaves it as it was. -/
structure COffer extends CExtCore where
  nType : UInt32 := 16
  hSinkOut : UInt32 := 0
  nValue : Int64 := 0
  nMinValue : Int64 := 0
  nMaxValue : Int64 := 0
  nRate : Int64 := 0
  hashOffer : Uint160 := 0
  hashColor : Uint160 := 0
  hPayTx : Uint256 := 0
  hXferTx : Uint256 := 0
  hSinkTx : Uint256 := 0
  hChain : Uint256 := 0
  vchPayAddr : List UInt8 := []
  vchXferAddr : List UInt8 := []
  vchPayCoin : List UInt8 := []
  vchXferCoin : List UInt8 := []
  deriving DecidableEq

/-- The second word is the type of the stream, not the member `nType`: the reader leaves that at
    what `SetNull` gave it. -/
def COffer.codec (nType : Int32) : Codec COffer :=
  (CExtCore.codec.pair ((Codec.skip i32 nType).pair (i64.pair (i64.pair (i64.pair (i64.pair
    (u160.pair (u160.pair (u256.pair (u256.pair (u256.pair (u32.pair (u256.pair
      (cbuff.pair (cbuff.pair (cbuff.pair cbuff)))))))))))))))).record
    (fun (core, _, nValue, nMinValue, nMaxValue, nRate, hashOffer, hashColor, hPayTx, hXferTx,
        hSinkTx, hSinkOut, hChain, vchPayAddr, vchXferAddr, vchPayCoin, vchXferCoin) =>
      { toCExtCore := core, nValue, nMinValue, nMaxValue, nRate, hashOffer, hashColor, hPayTx,
        hXferTx, hSinkTx, hSinkOut, hChain, vchPayAddr, vchXferAddr, vchPayCoin, vchXferCoin })
    (fun o => (o.toCExtCore, (), o.nValue, o.nMinValue, o.nMaxValue, o.nRate, o.hashOffer,
      o.hashColor, o.hPayTx, o.hXferTx, o.hSinkTx, o.hSinkOut, o.hChain, o.vchPayAddr,
      o.vchXferAddr, o.vchPayCoin, o.vchXferCoin))
    (fun _ => rfl)

/-! ## `CExecCore` -/

structure CExecCore extends CExtCore where
  kSender : Uint160 := 0
  vContext : List UInt8 := []
  signature : CSign := {}
  nTime : Int64 := 0
  nHeight : Int64 := 0
  nValue : Int64 := 0
  hResult : UInt64 := 0
  hExec : Uint160 := 0
  hPrev : Uint160 := 0
  hData : Uint256 := 0
  vchMethod : List UInt8 := []
  vArg : List (List UInt8) := []
  vTx : List Uint256 := []
  deriving DecidableEq

def CExecCore.codec : Codec CExecCore :=
  (CExtCore.codec.pair (u160.pair (cbuff.pair (CSign.codec.pair (i64.pair (i64.pair (i64.pair
    (u64.pair (u160.pair (u160.pair (u256.pair (cbuff.pair ((vec cbuff).pair
      (vec u256)))))))))))))).record
    (fun (core, kSender, vContext, signature, nTime, nHeight, nValue, hResult, hExec, hPrev,
        hData, vchMethod, vArg, vTx) =>
      { toCExtCore := core, kSender, vContext, signature, nTime, nHeight, nValue, hResult, hExec,
        hPrev, hData, vchMethod, vArg, vTx })
    (fun e => (e.toCExtCore, e.kSender, e.vContext, e.signature, e.nTime, e.nHeight, e.nValue,
      e.hResult, e.hExec, e.hPrev, e.hData, e.vchMethod, e.vArg, e.vTx))
    (fun _ => rfl)

/-! ## `CAltChain` -/

structure CAltBlock where
  nFlag : UInt32 := 1
  hashPrevBlock : Uint256 := 0
  hashMerkleRoot : Uint256 := 0
  nTime : UInt32 := 0
  nBits : UInt32 := 0
  nNonce : UInt32 := 0
  deriving DecidableEq

def CAltBlock.codec : Codec CAltBlock :=
  (u32.pair (u256.pair (u256.pair (u32.pair (u32.pair u32))))).record
    (fun (nFlag, hashPrevBlock, hashMerkleRoot, nTime, nBits, nNonce) =>
      ⟨nFlag, hashPrevBlock, hashMerkleRoot, nTime, nBits, nNonce⟩)
    (fun b => (b.nFlag, b.hashPrevBlock, b.hashMerkleRoot, b.nTime, b.nBits, b.nNonce))
    (fun _ => rfl)

structure CAltTx where
  nFlag : UInt32 := 1
  vin : List CTxIn := []
  vout : List CTxOut := []
  nLockTime : UInt32 := 0
  vchAux : List UInt8 := []
  deriving DecidableEq

def CAltTx.codec : Codec CAltTx :=
  (Codec.dep (u32.pair ((vec txIn).pair ((vec txOut).pair u32))) (fun x => decide (1 < x.1))
    (fun _ => rfl) (fun aux => .opt aux [] cbuff)).record
    (fun ((nFlag, vin, vout, nLockTime), vchAux) => ⟨nFlag, vin, vout, nLockTime, vchAux⟩)
    (fun t => ((t.nFlag, t.vin, t.vout, t.nLockTime), t.vchAux)) (fun _ => rfl)

structure CAltChain extends CExtCore where
  hColor : Uint160 := 0
  block : CAltBlock := {}
  vtx : List CAltTx := []
  deriving DecidableEq

def CAltChain.codec : Codec CAltChain :=
  (CExtCore.codec.pair (u160.pair (CAltBlock.codec.pair (vec CAltTx.codec)))).record
    (fun (core, hColor, block, vtx) => ⟨core, hColor, block, vtx⟩)
    (fun a => (a.toCExtCore, a.hColor, a.block, a.vtx)) (fun _ => rfl)

end ShareCoin.Wire
