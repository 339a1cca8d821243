import ShareCoin.Wire.Base58

/-!
# `bech32.cpp` — texts with a checksum of polynomials

A text has a part for humans, a separator and symbols of five bits, of which the last six are a
checksum: the remainder of a polynomial over the symbols, computed in 30 bits. `PolyMod` multiplies
by `x` in each step, and the five bits that fall out select the multiples of the generator that are
added.
-/

namespace ShareCoin.Wire

namespace Bech32

def charset : List UInt8 := ascii "qpzry9x8gf2tvdw0s3jn54khce6mua7l"

def charsetRev : List Int := [
  -1, -1, -1, -1, -1, -1, -1, -1, -1, -1, -1, -1, -1, -1, -1, -1,
  -1, -1, -1, -1, -1, -1, -1, -1, -1, -1, -1, -1, -1, -1, -1, -1,
  -1, -1, -1, -1, -1, -1, -1, -1, -1, -1, -1, -1, -1, -1, -1, -1,
  15, -1, 10, 17, 21, 20, 26, 30,  7,  5, -1, -1, -1, -1, -1, -1,
  -1, 29, -1, 24, 13, 25,  9,  8, 23, -1, 18, 22, 31, 27, 19, -1,
  1,  0,  3, 16, 11, 28, 12, 14,  6,  4,  2, -1, -1, -1, -1, -1,
  -1, 29, -1, 24, 13, 25,  9,  8, 23, -1, 18, 22, 31, 27, 19, -1,
  1,  0,  3, 16, 11, 28, 12, 14,  6,  4,  2, -1, -1, -1, -1, -1]

/-- One pass of the loop of `PolyMod`. -/
def polyStep (c : BitVec 32) (v : UInt8) : BitVec 32 :=
  let c0 := (c >>> 25).setWidth 8
  let c := ((c &&& 0x1ffffff#32) <<< 5) ^^^ v.toBitVec.setWidth 32
  let c := if c0.getLsbD 0 then c ^^^ 0x3b6a57b2#32 else c
  let c := if c0.getLsbD 1 then c ^^^ 0x26508e6d#32 else c
  let c := if c0.getLsbD 2 then c ^^^ 0x1ea119fa#32 else c
  let c := if c0.getLsbD 3 then c ^^^ 0x3d4233dd#32 else c
  if c0.getLsbD 4 then c ^^^ 0x2a1462b3#32 else c

def polyMod (v : List UInt8) : BitVec 32 := v.foldl polyStep 1

def lowerCase (c : UInt8) : UInt8 := if 65 ≤ c ∧ c ≤ 90 then c - 65 + 97 else c

def expandHRP (hrp : List UInt8) : List UInt8 :=
  (hrp.map fun (c : UInt8) => c >>> 5) ++ (0 :: hrp.map fun c => c &&& 0x1f)

def verifyChecksum (hrp values : List UInt8) : Bool := polyMod (expandHRP hrp ++ values) == 1

/-- The five bits of the checksum that stand at a place. -/
def checksumSymbol (mod : BitVec 32) (i : Nat) : UInt8 :=
  UInt8.ofNat ((mod >>> (5 * (5 - i))) &&& 31).toNat

def createChecksum (hrp values : List UInt8) : List UInt8 :=
  let mod := polyMod (expandHRP hrp ++ values ++ List.replicate 6 0) ^^^ 1
  (List.range 6).map (checksumSymbol mod)

def separator : UInt8 := 49

def encode (hrp values : List UInt8) : List UInt8 :=
  hrp ++ [separator] ++
    (values ++ createChecksum hrp values).map fun c => charset.getD c.toNat 0

def rfind (str : List UInt8) : Option Nat :=
  (str.reverse.idxOf? separator).map fun k => str.length - 1 - k

def symbol (c : UInt8) : Option UInt8 :=
  let rev := if c < 33 ∨ 126 < c then -1 else charsetRev.getD c.toNat (-1)
  if rev = -1 then none else some (UInt8.ofNat rev.toNat)

/-- `bech32::Decode`; the two parts are empty where it fails. -/
def decode (str : List UInt8) : List UInt8 × List UInt8 :=
  if str.any fun c => decide (c < 33) || decide (126 < c) then ([], [])
  else if (str.any fun c => decide (97 ≤ c) && decide (c ≤ 122)) &&
      str.any fun c => decide (65 ≤ c) && decide (c ≤ 90) then ([], [])
  else
    match rfind str with
    | none => ([], [])
    | some pos =>
      if 90 < str.length ∨ pos = 0 ∨ str.length < pos + 7 then ([], [])
      else
        match (str.drop (pos + 1)).mapM symbol with
        | none => ([], [])
        | some values =>
          let hrp := (str.take pos).map lowerCase
          if verifyChecksum hrp values then (hrp, values.take (values.length - 6)) else ([], [])

end Bech32

end ShareCoin.Wire
