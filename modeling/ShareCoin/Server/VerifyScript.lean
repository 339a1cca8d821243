import ShareCoin.Server.Connect
import ShareCoin.Server.Ext
import ShareCoin.Server.Interpreter

/-!
# `script.cpp` — spending an output

`VerifyScript` evaluates the script of an input and the script of the output it spends, one after
the other on one stack, and then looks at the form of the output script. For a pay-to-script-hash
output it evaluates the redeem script on a copy of the stack, for a witness program the script of
the program on the witness. `Solver` looks at the same forms behind an extension prefix, for the
wallet.

The back of a witness is the head of the list, as with the other stacks.
-/

namespace ShareCoin.Server

/-! ## Witness programs -/

/-- `CScript::IsWitnessProgram` behind the mode of an extension prefix: the version opcode and what
    follows it. The prefix has a type, an operation, a push and `OP_2DROP`. -/
def witnessPrefix (pc : CScript) : Option (UInt8 × CScript) := do
  let (_, _, pc) ← getOp pc
  let (_, _, pc) ← getOp pc
  let (_, vch, pc) ← getOp pc
  let (opcode, _, pc) ← if vch = [] then none else getOp pc
  let (vercode, _, pc) ← if opcode ≠ op2Drop then none else getOp pc
  some (vercode, pc)

/-- The end of `CScript::IsWitnessProgram`: the version and the program in a script of which `pc`
    follows the version opcode. The offset of the length is held in an `unsigned char`. -/
def witnessTail (script : CScript) (vercode : UInt8) (pc : CScript) :
    Option (Nat × List UInt8) := do
  let version ← decodeOpN vercode
  if pc.length + 1 < 4 || 42 < pc.length + 1 then none
  else
    let of := UInt8.ofNat (script.length - pc.length)
    let sz ← script[of.toNat]?
    if sz.toNat = script.length - (of + 1).toNat then some (version, script.drop (of + 1).toNat)
    else none

def isWitnessProgram (script : CScript) : Option (Nat × List UInt8) := do
  let (vercode, _, pc) ← if script.length < 4 then none else getOp script
  let (vercode, pc) ← if isExtMode vercode then witnessPrefix pc else some (vercode, pc)
  witnessTail script vercode pc

/-! ## Solver -/

/-- The types that `Solver` finds by a template. -/
inductive TemplateType where
  | pubkey | pubkeyhash | multisig | ret | nonstandard
  deriving DecidableEq, Repr

inductive TxnOutType where
  | scripthash
  | witnessV0Keyhash
  | witnessV0Scripthash
  | witnessV14Keyhash
  | witnessV14Scripthash
  | template (t : TemplateType)
  deriving DecidableEq, Repr

def witnessType (version : Nat) (program : List UInt8) : Option TxnOutType :=
  if version = 0 ∧ program.length = 20 then some .witnessV0Keyhash
  else if version = 0 ∧ program.length = 32 then some .witnessV0Scripthash
  else if version = 14 ∧ program.length = 20 then some .witnessV14Keyhash
  else if version = 14 ∧ program.length = 32 then some .witnessV14Scripthash
  else none

/-- `Solver`, if it returns true: the type and the solutions. `templates` is the scan of the
    templates for a script of neither form. -/
def solver (templates : CScript → Option (TemplateType × List Valtype)) (scriptPubKey : CScript) :
    Option (TxnOutType × List Valtype) :=
  let script := (removeExtOutputPrefix scriptPubKey).getD scriptPubKey
  if isPayToScriptHash script then some (.scripthash, [(script.drop 2).take 20])
  else
    match isWitnessProgram script with
    | some (version, program) => (witnessType version program).map fun t => (t, [program])
    | none => (templates script).map fun (t, vSolutions) => (.template t, vSolutions)

/-! ## Verifying -/

section

variable (sig : CSignature) (flags : UInt32)

def evaluatesToTrue (sigver : SigVersion) (stack : List Valtype) (script : CScript) : Bool :=
  match evalScript sig sigver flags stack script with
  | some (top :: _) => castToBool top
  | _ => false

def witnessSigVersion : Nat → Option SigVersion
  | 0 => some .witnessV0
  | 14 => some .witnessV14
  | _ => none

def witnessScript (witness : List Valtype) (program : List UInt8) :
    Option (CScript × List Valtype) :=
  if program.length = 32 then
    match witness with
    | [] => none
    | script :: stack => if (sig.sha256 script).toList = program then some (script, stack) else none
  else if program.length = 20 then
    -- OP_DUP OP_HASH160 program OP_EQUALVERIFY OP_CHECKSIG
    if witness.length = 2 then
      some ([0x76, opHash160] ++ pushData program ++ [0x88, 0xac], witness)
    else none
  else none

def verifyWitnessProgram (witness : List Valtype) (witversion : Nat) (program : List UInt8) :
    Bool :=
  match witnessSigVersion witversion with
  | none => !testFlag flags scriptVerifyDiscourageUpgradableWitnessProgram
  | some sigver =>
    match witnessScript sig witness program with
    | none => false
    | some (script, stack) =>
      stack.all (fun vch => decide (vch.length ≤ sig.iface.maxScriptElementSize)) &&
      match evalScript sig sigver (scriptVerifyMinimalIf ||| flags) stack script with
      | some [top] => castToBool top
      | _ => false

section

variable (scriptSig : CScript) (witness : List Valtype) (scriptPubKey : CScript)

def verifyBareWitness : Option Bool :=
  if !testFlag flags scriptVerifyWitness then some false
  else
    match isWitnessProgram scriptPubKey with
    | none => some false
    | some (version, program) =>
      if scriptSig.isEmpty && verifyWitnessProgram sig flags witness version program then some true
      else none

def verifyRedeemWitness (pubKey2 : CScript) : Option Bool :=
  if !testFlag flags scriptVerifyWitness then some false
  else
    match isWitnessProgram pubKey2 with
    | none => some false
    | some (version, program) =>
      if scriptSig = pushData pubKey2 ∧ verifyWitnessProgram sig flags witness version program then
        some true
      else none

/-- The part of `VerifyScript` for a pay-to-script-hash output. The redeem script is evaluated
    without flags. An empty copy of the stack has no `back()`. -/
def verifyPayToScriptHash (stackCopy : List Valtype) : Option Bool :=
  if !(testFlag flags scriptVerifyP2sh && isPayToScriptHash scriptPubKey) then some false
  else if !isPushOnly scriptSig then none
  else
    match stackCopy with
    | [] => none
    | pubKey2 :: stackCopy =>
      if evaluatesToTrue sig 0 .base stackCopy pubKey2 then
        verifyRedeemWitness sig flags scriptSig witness pubKey2
      else none

def verifyScript : Bool :=
  (!testFlag flags scriptVerifySigPushOnly || isPushOnly scriptSig) &&
  match evalScript sig .base flags [] scriptSig with
  | none => false
  | some stackCopy =>
    evaluatesToTrue sig flags .base stackCopy scriptPubKey &&
    match verifyBareWitness sig flags scriptSig witness scriptPubKey,
      verifyPayToScriptHash sig flags scriptSig witness scriptPubKey stackCopy with
    | some bare, some redeem =>
      !testFlag flags scriptVerifyWitness || bare || redeem || witness.isEmpty
    | _, _ => false

end

end

end ShareCoin.Server
