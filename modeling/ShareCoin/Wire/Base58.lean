import ShareCoin.Lib.Radix
import ShareCoin.Server.Script
import ShareCoin.Wire.Block

/-!
# `base58.h`, `base58.cpp` — texts with a checksum

A byte string is read as a number with the highest byte first, and written in base 58; each zero
byte in front is one `1` in front. The check appends four bytes of a hash.

`CBigNum` is a number here. `getvch` gives its bytes with the lowest first, and with a zero byte at
the end where the highest bit would read as a sign; `DecodeBase58` cuts that byte off. A text is the
list of its bytes; the functions of the C library stop at a zero byte.
-/

namespace ShareCoin.Wire

open Lib Server

/-- The bytes of a text. -/
def ascii (s : String) : List UInt8 := s.toList.map fun c => UInt8.ofNat c.toNat

def isspace (c : UInt8) : Bool := c == 32 || (decide (9 ≤ c) && decide (c ≤ 13))

def cstr (str : List UInt8) : List UInt8 := str.takeWhile (· != 0)

def pszBase58 : List UInt8 := ascii "123456789ABCDEFGHJKLMNPQRSTUVWXYZabcdefghijkmnopqrstuvwxyz"

def encodeBase58 (vch : List UInt8) : List UInt8 :=
  let bn := Codec.leValue vch.reverse
  let str := (Radix.toDigits 58 bn bn).map fun c => pszBase58.getD c 0
  (str ++ (vch.takeWhile (· == 0)).map fun _ => pszBase58.getD 0 0).reverse

/-- The loop that converts the text to a number. -/
def readBase58 : List UInt8 → Nat → Option Nat
  | [], bn => some bn
  | c :: p, bn =>
    match pszBase58.idxOf? c with
    | some d => readBase58 p (bn * 58 + d)
    | none => if ((c :: p).dropWhile isspace).isEmpty then some bn else none

/-- "Trim off sign byte if present". -/
def trimSign (vchTmp : List UInt8) : List UInt8 :=
  match vchTmp.reverse with
  | 0 :: b :: rest => if 0x80 ≤ b then (b :: rest).reverse else vchTmp
  | _ => vchTmp

def decodeBase58 (psz : List UInt8) : Option (List UInt8) :=
  let psz := psz.dropWhile isspace
  (readBase58 psz 0).map fun (bn : Nat) =>
    let nLeadingZeros := (psz.takeWhile (· == pszBase58.getD 0 0)).length
    List.replicate nLeadingZeros 0 ++ (trimSign (vchOfNum bn)).reverse

section

variable (sha256 : List UInt8 → Uint256)

def encodeBase58Check (vchIn : List UInt8) : List UInt8 :=
  encodeBase58 (vchIn ++ (rawBytes (sha256d sha256 vchIn)).take 4)

def decodeBase58Check (psz : List UInt8) : Option (List UInt8) :=
  (decodeBase58 psz).bind fun vchRet =>
    if vchRet.length < 4 then none
    else
      let vch := vchRet.take (vchRet.length - 4)
      if (rawBytes (sha256d sha256 vch)).take 4 = vchRet.drop (vchRet.length - 4) then some vch
      else none

end

end ShareCoin.Wire
