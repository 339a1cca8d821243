import ShareCoin.Lib.Codec
import ShareCoin.Server.Matrix

/-!
# `script.h`, `bignum.h` — scripts as bytes, values as numbers

What the interpreter and the signature hash need of a script besides `getOp` and `pushData`:
deleting a pattern, and the two readings of a stack element, as a truth value and as a number. A
number is its magnitude in little endian with the sign in the highest bit; `CBigNum` and
`CScriptNum` agree on that.
-/

namespace ShareCoin.Server

open Lib List

/-- `valtype`: an element of a stack. -/
abbrev Valtype := List UInt8

inductive SigVersion where
  | base | witnessV0 | witnessV14
  deriving DecidableEq, Repr

def SigVersion.toNat : SigVersion → Nat
  | .base => 0
  | .witnessV0 => 1
  | .witnessV14 => 15

/-! ## Deleting a pattern, literals -/

/-- The loops of `CScript::FindAndDelete` from a position on: as long as the pattern stands there
    it is erased, otherwise the position moves past an operation. -/
def findAndDeleteFrom (b : CScript) (hb : b ≠ []) (pc : CScript) : CScript :=
  if _h : b <+: pc then findAndDeleteFrom b hb (pc.drop b.length)
  else
    match _hop : getOp pc with
    | none => pc
    | some (_, _, rest) => pc.take (pc.length - rest.length) ++ findAndDeleteFrom b hb rest
termination_by pc.length
decreasing_by
  · have hlen := _h.length_le
    have hpos : 0 < b.length := length_pos_of_ne_nil hb
    simp only [length_drop]
    omega
  · exact getOp_length _hop

def findAndDelete (b script : CScript) : CScript :=
  if hb : b = [] then script else findAndDeleteFrom b hb script

def isPushOnlyLoop : Nat → CScript → Bool
  | _, [] => true
  | 0, _ :: _ => false
  | k + 1, b :: pc =>
    match getOp (b :: pc) with
    | none => false
    | some (opcode, _, rest) => if 0x60 < opcode then false else isPushOnlyLoop k rest

def isPushOnly (script : CScript) : Bool := isPushOnlyLoop script.length script

/-! ## Values -/

def vchFalse : Valtype := []

def vchTrue : Valtype := [1]

def vchOfBool (f : Bool) : Valtype := if f then vchTrue else vchFalse

def castToBool : Valtype → Bool
  | [] => false
  | [b] => b != 0 && b != 0x80
  | b :: vch => b != 0 || castToBool vch

def numOfVch (vch : Valtype) : Int :=
  match vch.getLast? with
  | none => 0
  | some b =>
    if b < 0x80 then (Codec.leValue vch : Int)
    else -((Codec.leValue vch - 0x80 * 256 ^ (vch.length - 1) : Nat) : Int)

/-- The bytes of a magnitude, the lowest first and no zero at the end; `k` bounds them. -/
def magnitude : Nat → Nat → List UInt8
  | 0, _ => []
  | k + 1, n => if n = 0 then [] else UInt8.ofNat n :: magnitude k (n / 256)

/-- `CBigNum::getvch` and `CScriptNum::serialize`. -/
def vchOfNum (n : Int) : Valtype :=
  let bytes := magnitude n.natAbs n.natAbs
  match bytes.getLast? with
  | none => []
  | some b =>
    if 0x80 ≤ b then bytes ++ [if n < 0 then 0x80 else 0]
    else if n < 0 then bytes.dropLast ++ [b ||| 0x80]
    else bytes

def getint (n : Int) : Int := max (-2147483648) (min n 2147483647)

end ShareCoin.Server
