import ShareCoin.Lib.Loop
import ShareCoin.Server.Script

/-!
# `script.cpp` — the script interpreter

`EvalScript` runs a script on a stack of byte strings. One pass of its loop reads an operation and
executes it, unless it stands in a branch that is not taken; here the pass is `step`, and `evalRun`
is the loop with the states it goes through. The top of a stack is the head of the list.

A pass ends with `return false`, with an exception that `catch (...)` turns into `return false`,
with an access outside of a stack, or with a failed `assert`; `Stop` keeps them apart. The opcodes
that rearrange the top of the stack have their guard and their effect in common, and are one
constructor of `Op`; so are those that compute with one number, with two, and those that hash.

The signature check, the hash functions and the proof of an alternate chain are parameters, with the
lengths of the hashes in their types.
-/

namespace ShareCoin.Server

open Lib

/-! ## Flags -/

def scriptVerifyP2sh : UInt32 := 0x1

def scriptVerifyLowS : UInt32 := 0x8

def scriptVerifySigPushOnly : UInt32 := 0x20

def scriptVerifyMinimalData : UInt32 := 0x40

def scriptVerifyCheckLockTimeVerify : UInt32 := 0x200

def scriptVerifyCheckSequenceVerify : UInt32 := 0x400

def scriptVerifyWitness : UInt32 := 0x800

def scriptVerifyDiscourageUpgradableWitnessProgram : UInt32 := 0x1000

def scriptVerifyMinimalIf : UInt32 := 0x2000

def testFlag (flags flag : UInt32) : Bool := flags &&& flag != 0

/-! ## What is checked -/

/-- `CSignature`: the input being checked, and what the interpreter calls elsewhere.
    `verifyAltProof` is the lookup by the color of the first argument in `OP_CHECKALTPROOF`. -/
structure CSignature where
  iface : CIface
  tx : CTransaction
  nTxIn : Nat
  nTxIn_lt : nTxIn < tx.vin.length
  checkSig : Valtype → Valtype → CScript → SigVersion → Bool
  checkLowS : Valtype → Bool
  ripemd160 : Valtype → Vector UInt8 20
  sha1 : Valtype → Vector UInt8 20
  sha256 : Valtype → Vector UInt8 32
  hash160 : Valtype → Vector UInt8 20
  hash256 : Valtype → Vector UInt8 32
  verifyAltProof : Valtype → Valtype → Bool

def CSignature.txin (sig : CSignature) : CTxIn := sig.tx.vin.get ⟨sig.nTxIn, sig.nTxIn_lt⟩

def CTransaction.getVersion (tx : CTransaction) : Nat := (tx.nFlag &&& 15).toNat

/-- How a pass ends before its end. -/
inductive Stop where
  /-- `return false` -/
  | fail
  /-- an exception other than those below -/
  | thrown
  /-- `stack.at` or `popstack` outside of the stack -/
  | outOfRange
  /-- `assert` -/
  | assertion
  /-- more passes than the model has -/
  | outOfPasses
  deriving DecidableEq, Repr

abbrev Eval := Except Stop

/-- `if (!b) return false`. -/
def require (b : Bool) : Eval Unit := if b then .ok () else .error .fail

/-! ## Stacks -/

def stacktop (stack : List Valtype) (i : Nat) : Eval Valtype :=
  match stack[i]? with
  | some vch => .ok vch
  | none => .error .outOfRange

def popstack : List Valtype → Eval (List Valtype)
  | [] => .error .outOfRange
  | _ :: stack => .ok stack

def popAll : Nat → List Valtype → Eval (List Valtype)
  | 0, stack => .ok stack
  | i + 1, stack => do popAll i (← popstack stack)

/-- The elements at the given places below the top. -/
def pickAll (stack : List Valtype) : List Nat → Eval (List Valtype)
  | [] => .ok []
  | i :: is => do
    let vch ← stacktop stack i
    let vchs ← pickAll stack is
    .ok (vch :: vchs)

/-- The opcodes that rearrange the top `need` elements: the new top are those at `picks`. -/
def shuffle (need : Nat) (picks : List (Fin need)) (stack : List Valtype) :
    Eval (List Valtype) := do
  require (need ≤ stack.length)
  let top ← pickAll stack (picks.map fun i => i.val)
  .ok (top ++ stack.drop need)

/-- `stack.push_back(fSuccess ? vchTrue : vchFalse)`, and the tail of a `VERIFY` opcode. -/
def pushBool (verify fSuccess : Bool) (stack : List Valtype) : Eval (List Valtype) :=
  if verify then
    if fSuccess then popstack (vchOfBool fSuccess :: stack) else .error .fail
  else .ok (vchOfBool fSuccess :: stack)

/-! ## Numbers -/

def castToBigNum (vch : Valtype) : Eval Int :=
  if 4 < vch.length then .error .thrown else .ok (numOfVch vch)

/-- The minimal encoding that `CScriptNum` asks for. -/
def isMinimal (vch : Valtype) : Bool :=
  match vch.reverse with
  | [] => true
  | [b] => b &&& 0x7f != 0
  | b :: c :: _ => b &&& 0x7f != 0 || c &&& 0x80 != 0

def scriptNum (vch : Valtype) (fRequireMinimal : Bool) (nMaxNumSize : Nat) : Eval Int :=
  if nMaxNumSize < vch.length then .error .thrown
  else if fRequireMinimal && !isMinimal vch then .error .thrown
  else .ok (numOfVch vch)

/-- The inner `switch` of the opcodes with one number. -/
def unaryNum (opcode : UInt8) (bn : Int) : Eval Int :=
  match opcode with
  | 0x8b => .ok (bn + 1)  -- OP_1ADD
  | 0x8c => .ok (bn - 1)  -- OP_1SUB
  | 0x8f => .ok (-bn)  -- OP_NEGATE
  | 0x90 => .ok (if bn < 0 then -bn else bn)  -- OP_ABS
  | 0x91 => .ok (if bn = 0 then 1 else 0)  -- OP_NOT
  | 0x92 => .ok (if bn ≠ 0 then 1 else 0)  -- OP_0NOTEQUAL
  | _ => .error .assertion

/-- The inner `switch` of the opcodes with two numbers. -/
def binaryNum (opcode : UInt8) (bn1 bn2 : Int) : Eval Int :=
  match opcode with
  | 0x93 => .ok (bn1 + bn2)  -- OP_ADD
  | 0x94 => .ok (bn1 - bn2)  -- OP_SUB
  | 0x9a => .ok (if bn1 ≠ 0 ∧ bn2 ≠ 0 then 1 else 0)  -- OP_BOOLAND
  | 0x9b => .ok (if bn1 ≠ 0 ∨ bn2 ≠ 0 then 1 else 0)  -- OP_BOOLOR
  | 0x9c => .ok (if bn1 = bn2 then 1 else 0)  -- OP_NUMEQUAL
  | 0x9d => .ok (if bn1 = bn2 then 1 else 0)  -- OP_NUMEQUALVERIFY
  | 0x9e => .ok (if bn1 ≠ bn2 then 1 else 0)  -- OP_NUMNOTEQUAL
  | 0x9f => .ok (if bn1 < bn2 then 1 else 0)  -- OP_LESSTHAN
  | 0xa0 => .ok (if bn2 < bn1 then 1 else 0)  -- OP_GREATERTHAN
  | 0xa1 => .ok (if bn1 ≤ bn2 then 1 else 0)  -- OP_LESSTHANOREQUAL
  | 0xa2 => .ok (if bn2 ≤ bn1 then 1 else 0)  -- OP_GREATERTHANOREQUAL
  | 0xa3 => .ok (if bn1 < bn2 then bn1 else bn2)  -- OP_MIN
  | 0xa4 => .ok (if bn2 < bn1 then bn1 else bn2)  -- OP_MAX
  | _ => .error .assertion

/-! ## Time locks and signatures -/

def locktimeThreshold : Nat := 500000000

/-- A height and a time are not compared: both numbers are below the threshold, or neither is. -/
def sameKind (threshold a b : Nat) : Bool :=
  (a < threshold && b < threshold) || (threshold ≤ a && threshold ≤ b)

/-- `OP_CHECKLOCKTIMEVERIFY`. The 5 in `CScriptNum nLockTime(stacktop(-1), 5)` is taken for
    `fRequireMinimal`; the size stays at most four. -/
def checkLockTimeVerify (sig : CSignature) (flags : UInt32) (stack : List Valtype) : Eval Unit :=
  if !testFlag flags scriptVerifyCheckLockTimeVerify then .ok ()
  else do
    require (1 ≤ stack.length)
    let nLockTime ← scriptNum (← stacktop stack 0) true 4
    require (0 ≤ nLockTime)
    require (sameKind locktimeThreshold sig.tx.nLockTime.toNat nLockTime.toNat)
    require (nLockTime.toNat ≤ sig.tx.nLockTime.toNat)
    require (sig.txin.nSequence != 0xFFFFFFFF)

def sequenceLocktimeDisableFlag : Nat := 2 ^ 31

def sequenceLocktimeTypeFlag : Nat := 2 ^ 22

def sequenceLocktimeMask : Nat := 0xffff

/-- `OP_CHECKSEQUENCEVERIFY`. -/
def checkSequenceVerify (sig : CSignature) (flags : UInt32) (stack : List Valtype) : Eval Unit :=
  if !testFlag flags scriptVerifyCheckSequenceVerify then .ok ()
  else do
    require (1 ≤ stack.length)
    let nSequence ← scriptNum (← stacktop stack 0) (testFlag flags scriptVerifyMinimalData) 5
    require (0 ≤ nSequence)
    if nSequence.toNat &&& sequenceLocktimeDisableFlag ≠ 0 then .ok ()
    else
      let txToSequence := sig.txin.nSequence.toNat
      let nLockTimeMask := sequenceLocktimeTypeFlag ||| sequenceLocktimeMask
      let txToSequenceMasked := txToSequence &&& nLockTimeMask
      let nSequenceMasked := nSequence.toNat &&& nLockTimeMask
      require (2 ≤ sig.tx.getVersion)
      require (txToSequence &&& sequenceLocktimeDisableFlag == 0)
      require (sameKind sequenceLocktimeTypeFlag txToSequenceMasked nSequenceMasked)
      require (nSequenceMasked ≤ txToSequenceMasked)

/-- `_CheckLowS` of a signature without its last byte. The vector without the last byte of an empty
    one is refused by its constructor. No signature version has the number 14. -/
def checkLowS (sig : CSignature) (sigver : SigVersion) (flags : UInt32) (vchSig : Valtype) :
    Eval Unit :=
  if sigver.toNat ≠ 14 && testFlag flags scriptVerifyLowS then
    if vchSig.isEmpty then .error .thrown else require (sig.checkLowS vchSig.dropLast)
  else .ok ()

def dropSig (sigver : SigVersion) (vchSig : Valtype) (scriptCode : CScript) : CScript :=
  if sigver = .base then findAndDelete (pushData vchSig) scriptCode else scriptCode

def dropSigs (sigver : SigVersion) (stack : List Valtype) : Nat → Nat → CScript → Eval CScript
  | 0, _, scriptCode => .ok scriptCode
  | k + 1, isig, scriptCode => do
    let vchSig ← stacktop stack isig
    dropSigs sigver stack k (isig + 1) (dropSig sigver vchSig scriptCode)

/-- `while (fSuccess && nSigsCount > 0)`: each pass uses up a key. There are never fewer keys than
    signatures where it is entered. -/
def multiSigLoop (sig : CSignature) (sigver : SigVersion) (scriptCode : CScript)
    (stack : List Valtype) : Nat → Nat → Nat → Nat → Eval Bool
  | _, 0, _, _ => .ok true
  | 0, _ + 1, _, _ => .error .outOfPasses
  | nKeysCount + 1, nSigsCount + 1, isig, ikey => do
    let vchSig ← stacktop stack isig
    let vchPubKey ← stacktop stack ikey
    let fOk := sig.checkSig vchSig vchPubKey scriptCode sigver
    let isig' := if fOk then isig + 1 else isig
    let nSigsCount' := if fOk then nSigsCount else nSigsCount + 1
    if nKeysCount < nSigsCount' then .ok false
    else multiSigLoop sig sigver scriptCode stack nKeysCount nSigsCount' isig' (ikey + 1)

/-! ## Operations -/

/-- What the `switch` does with an opcode. -/
inductive Op where
  | number (n : Int)
  | nop
  | checkLockTimeVerify
  | checkSequenceVerify
  | cond (negate : Bool)
  | orElse
  | endIf
  | verify
  | invalid
  | toAltStack
  | fromAltStack
  | shuffle (need : Nat) (picks : List (Fin need))
  | ifDup
  | depth
  | pick (roll : Bool)
  | size
  | equal (verify : Bool)
  | unary (opcode : UInt8)
  | binary (opcode : UInt8)
  | within
  | hash (opcode : UInt8)
  | codeSeparator
  | checkSig (verify : Bool)
  | checkMultiSig (verify : Bool)
  | checkAltProof

/-- The cases of the `switch` that stand for a range of opcodes, and the `default`. -/
def decodeRange (opcode : UInt8) : Op :=
  -- OP_1NEGATE, OP_1 to OP_16
  if opcode == 0x4f || (0x51 ≤ opcode && opcode ≤ 0x60) then .number (opcode.toNat - 0x50)
  -- OP_1ADD to OP_0NOTEQUAL
  else if 0x8b ≤ opcode && opcode ≤ 0x92 then .unary opcode
  -- OP_ADD to OP_MAX
  else if 0x93 ≤ opcode && opcode ≤ 0xa4 then .binary opcode
  -- OP_RIPEMD160 to OP_HASH256
  else if 0xa6 ≤ opcode && opcode ≤ 0xaa then .hash opcode
  else if isExtMode opcode then .nop
  else .invalid

/-- The cases of the `switch`. `OP_RETURN` and the `default` are `invalid`; the disabled opcodes do
    not get here. -/
def decode (opcode : UInt8) : Op :=
  match opcode with
  | 0x61 => .nop  -- OP_NOP
  | 0xb0 => .nop  -- OP_NOP1
  | 0xb3 => .nop  -- OP_NOP4
  | 0xb4 => .nop  -- OP_NOP5
  | 0xb5 => .nop  -- OP_NOP6
  | 0xb6 => .nop  -- OP_NOP7
  | 0xb8 => .nop  -- OP_NOP9
  | 0xb9 => .nop  -- OP_NOP10
  | 0xb1 => .checkLockTimeVerify
  | 0xb2 => .checkSequenceVerify
  | 0x63 => .cond false  -- OP_IF
  | 0x64 => .cond true  -- OP_NOTIF
  | 0x67 => .orElse
  | 0x68 => .endIf
  | 0x69 => .verify
  | 0x6b => .toAltStack
  | 0x6c => .fromAltStack
  | 0x6d => .shuffle 2 []  -- OP_2DROP
  | 0x6e => .shuffle 2 [0, 1, 0, 1]  -- OP_2DUP
  | 0x6f => .shuffle 3 [0, 1, 2, 0, 1, 2]  -- OP_3DUP
  | 0x70 => .shuffle 4 [2, 3, 0, 1, 2, 3]  -- OP_2OVER
  | 0x71 => .shuffle 6 [4, 5, 0, 1, 2, 3]  -- OP_2ROT
  | 0x72 => .shuffle 4 [2, 3, 0, 1]  -- OP_2SWAP
  | 0x73 => .ifDup
  | 0x74 => .depth
  | 0x75 => .shuffle 1 []  -- OP_DROP
  | 0x76 => .shuffle 1 [0, 0]  -- OP_DUP
  | 0x77 => .shuffle 2 [0]  -- OP_NIP
  | 0x78 => .shuffle 2 [1, 0, 1]  -- OP_OVER
  | 0x79 => .pick false  -- OP_PICK
  | 0x7a => .pick true  -- OP_ROLL
  | 0x7b => .shuffle 3 [2, 0, 1]  -- OP_ROT
  | 0x7c => .shuffle 2 [1, 0]  -- OP_SWAP
  | 0x7d => .shuffle 2 [0, 1, 0]  -- OP_TUCK
  | 0x82 => .size
  | 0x87 => .equal false  -- OP_EQUAL
  | 0x88 => .equal true  -- OP_EQUALVERIFY
  | 0xa5 => .within
  | 0xab => .codeSeparator
  | 0xac => .checkSig false  -- OP_CHECKSIG
  | 0xad => .checkSig true  -- OP_CHECKSIGVERIFY
  | 0xae => .checkMultiSig false  -- OP_CHECKMULTISIG
  | 0xaf => .checkMultiSig true  -- OP_CHECKMULTISIGVERIFY
  | 0xb7 => .checkAltProof
  | opcode => decodeRange opcode

def hashBytes (sig : CSignature) (opcode : UInt8) (vch : Valtype) : Valtype :=
  if opcode = 0xa6 then (sig.ripemd160 vch).toList
  else if opcode = 0xa7 then (sig.sha1 vch).toList
  else if opcode = 0xa8 then (sig.sha256 vch).toList
  else if opcode = 0xa9 then (sig.hash160 vch).toList
  else (sig.hash256 vch).toList

/-- The variables of `EvalScript`; `pc` and `pbegincodehash` are the script from there on. -/
structure EvalState where
  pc : CScript
  pbegincodehash : CScript
  stack : List Valtype
  altstack : List Valtype := []
  vfExec : List Bool := []
  nOpCount : Nat := 0
  deriving DecidableEq

def EvalState.fExec (s : EvalState) : Bool := s.vfExec.all id

def EvalState.live (s : EvalState) : Bool := !s.pc.isEmpty

/-- The variables after an operation was read; those above `OP_16` are counted. -/
def EvalState.read (s : EvalState) (opcode : UInt8) (pc : CScript) : EvalState :=
  { s with pc := pc, nOpCount := if 0x60 < opcode then s.nOpCount + 1 else s.nOpCount }

section

variable (sig : CSignature) (sigver : SigVersion) (flags : UInt32)

/-- `OP_IF` and `OP_NOTIF` where the branch is taken: the condition and the rest of the stack. -/
def condition (negate : Bool) (stack : List Valtype) : Eval (Bool × List Valtype) := do
  require (1 ≤ stack.length)
  let vch ← stacktop stack 0
  require (sigver = .base || !testFlag flags scriptVerifyMinimalIf || vch == [] || vch == [1])
  let stack ← popstack stack
  .ok (castToBool vch != negate, stack)

def pick (roll : Bool) (stack : List Valtype) : Eval (List Valtype) := do
  require (2 ≤ stack.length)
  let bn ← castToBigNum (← stacktop stack 0)
  let stack ← popstack stack
  require (0 ≤ getint bn && getint bn < stack.length)
  let vch ← stacktop stack (getint bn).toNat
  .ok (vch :: if roll then stack.eraseIdx (getint bn).toNat else stack)

/-- The opcodes with two numbers. -/
def binary (opcode : UInt8) (stack : List Valtype) : Eval (List Valtype) := do
  require (2 ≤ stack.length)
  let bn1 ← castToBigNum (← stacktop stack 1)
  let bn2 ← castToBigNum (← stacktop stack 0)
  let bn ← binaryNum opcode bn1 bn2
  let stack := vchOfNum bn :: (← popAll 2 stack)
  -- OP_NUMEQUALVERIFY
  if opcode = 0x9d then
    require (castToBool (← stacktop stack 0))
    popstack stack
  else .ok stack

def within (stack : List Valtype) : Eval (List Valtype) := do
  require (3 ≤ stack.length)
  let bn1 ← castToBigNum (← stacktop stack 2)
  let bn2 ← castToBigNum (← stacktop stack 1)
  let bn3 ← castToBigNum (← stacktop stack 0)
  let stack ← popAll 3 stack
  .ok (vchOfBool (bn2 ≤ bn1 && bn1 < bn3) :: stack)

/-- `OP_CHECKSIG` and `OP_CHECKSIGVERIFY`. -/
def checkSig (verify : Bool) (pbegincodehash : CScript) (stack : List Valtype) :
    Eval (List Valtype) := do
  require (2 ≤ stack.length)
  let vchSig ← stacktop stack 1
  let vchPubKey ← stacktop stack 0
  let scriptCode := dropSig sigver vchSig pbegincodehash
  checkLowS sig sigver flags vchSig
  let fSuccess := sig.checkSig vchSig vchPubKey scriptCode sigver
  let stack ← popAll 2 stack
  pushBool verify fSuccess stack

/-- `OP_CHECKMULTISIG` and `OP_CHECKMULTISIGVERIFY`: the stack and the number of keys, which count
    as operations. -/
def checkMultiSig (verify : Bool) (pbegincodehash : CScript) (nOpCount : Nat)
    (stack : List Valtype) : Eval (List Valtype × Nat) := do
  require (1 ≤ stack.length)
  let keys ← castToBigNum (← stacktop stack 0)
  require (0 ≤ getint keys && getint keys ≤ 20)
  let nKeysCount := (getint keys).toNat
  require (nOpCount + nKeysCount ≤ 201)
  require (nKeysCount + 2 ≤ stack.length)
  let sigs ← castToBigNum (← stacktop stack (nKeysCount + 1))
  require (0 ≤ getint sigs && getint sigs ≤ nKeysCount)
  let nSigsCount := (getint sigs).toNat
  let isig := nKeysCount + 2
  require (nKeysCount + nSigsCount + 3 ≤ stack.length)
  let scriptCode ← dropSigs sigver stack nSigsCount isig pbegincodehash
  let fSuccess ← multiSigLoop sig sigver scriptCode stack nKeysCount nSigsCount isig 1
  let stack ← popAll (nKeysCount + nSigsCount + 3) stack
  let stack ← pushBool verify fSuccess stack
  .ok (stack, nOpCount + nKeysCount)

/-- The opcodes that change the stack and nothing else. -/
def stackOp (pbegincodehash : CScript) (stack : List Valtype) : Op → Eval (List Valtype)
  | .number n => .ok (vchOfNum n :: stack)
  | .checkLockTimeVerify => (checkLockTimeVerify sig flags stack).map fun _ => stack
  | .checkSequenceVerify => (checkSequenceVerify sig flags stack).map fun _ => stack
  | .verify => do
    require (1 ≤ stack.length)
    require (castToBool (← stacktop stack 0))
    popstack stack
  | .shuffle need picks => shuffle need picks stack
  | .ifDup => do
    require (1 ≤ stack.length)
    let vch ← stacktop stack 0
    .ok (if castToBool vch then vch :: stack else stack)
  | .depth => .ok (vchOfNum stack.length :: stack)
  | .pick roll => pick roll stack
  | .size => do
    require (1 ≤ stack.length)
    let vch ← stacktop stack 0
    .ok (vchOfNum vch.length :: stack)
  | .equal verify => do
    require (2 ≤ stack.length)
    let vch1 ← stacktop stack 1
    let vch2 ← stacktop stack 0
    pushBool verify (vch1 == vch2) (← popAll 2 stack)
  | .unary opcode => do
    require (1 ≤ stack.length)
    let bn ← unaryNum opcode (← castToBigNum (← stacktop stack 0))
    .ok (vchOfNum bn :: (← popstack stack))
  | .binary opcode => binary opcode stack
  | .within => within stack
  | .hash opcode => do
    require (1 ≤ stack.length)
    let vch ← stacktop stack 0
    .ok (hashBytes sig opcode vch :: (← popstack stack))
  | .checkSig verify => checkSig sig sigver flags verify pbegincodehash stack
  | .checkAltProof => do
    require (2 ≤ stack.length)
    let vchColor ← stacktop stack 0
    let vchTx ← stacktop stack 1
    .ok (vchOfBool (sig.verifyAltProof vchColor vchTx) :: (← popAll 2 stack))
  | .invalid => .error .fail
  | _ => .ok stack

/-- The `switch`, with the position behind the operation in `s.pc`. -/
def execOp (op : Op) (s : EvalState) : Eval EvalState :=
  match op with
  | .cond negate =>
    if s.fExec then do
      let (fValue, stack) ← condition sigver flags negate s.stack
      .ok { s with stack := stack, vfExec := fValue :: s.vfExec }
    else .ok { s with vfExec := false :: s.vfExec }
  | .orElse =>
    match s.vfExec with
    | [] => .error .fail
    | fValue :: vfExec => .ok { s with vfExec := (!fValue) :: vfExec }
  | .endIf =>
    match s.vfExec with
    | [] => .error .fail
    | _ :: vfExec => .ok { s with vfExec := vfExec }
  | .toAltStack => do
    require (1 ≤ s.stack.length)
    let vch ← stacktop s.stack 0
    .ok { s with altstack := vch :: s.altstack, stack := ← popstack s.stack }
  | .fromAltStack => do
    require (1 ≤ s.altstack.length)
    let vch ← stacktop s.altstack 0
    .ok { s with stack := vch :: s.stack, altstack := ← popstack s.altstack }
  | .codeSeparator => .ok { s with pbegincodehash := s.pc }
  | .checkMultiSig verify => do
    let (stack, nOpCount) ← checkMultiSig sig sigver verify s.pbegincodehash s.nOpCount s.stack
    .ok { s with stack := stack, nOpCount := nOpCount }
  | op => (stackOp sig sigver flags s.pbegincodehash s.stack op).map fun stack =>
      { s with stack := stack }

/-- `OP_CAT` to `OP_RIGHT`, `OP_INVERT` to `OP_XOR`, `OP_2MUL`, `OP_2DIV` and `OP_MUL` to
    `OP_RSHIFT`. -/
def isDisabled (opcode : UInt8) : Bool :=
  (0x7e ≤ opcode && opcode ≤ 0x81) || (0x83 ≤ opcode && opcode ≤ 0x86) || opcode == 0x8d ||
    opcode == 0x8e || (0x95 ≤ opcode && opcode ≤ 0x99)

/-- The operation that was read, from the push of an operand to the `switch`. -/
def execRead (opcode : UInt8) (vchPushValue : Valtype) (s : EvalState) : Eval EvalState :=
  if s.fExec && opcode ≤ opPushData4 then .ok { s with stack := vchPushValue :: s.stack }
  else if s.fExec || (0x63 ≤ opcode && opcode ≤ 0x68) then
    execOp sig sigver flags (decode opcode) s
  else .ok s

/-- One pass of the loop of `EvalScript`. -/
def step (s : EvalState) : Eval EvalState :=
  match getOp s.pc with
  | none => .error .fail
  | some (opcode, vchPushValue, pc) => do
    require (vchPushValue.length ≤ 520)
    require (opcode ≤ 0x60 || (s.read opcode pc).nOpCount ≤ 201)
    require (!isDisabled opcode)
    let s' ← execRead sig sigver flags opcode vchPushValue (s.read opcode pc)
    require (s'.stack.length + s'.altstack.length ≤ 1000)
    .ok s'

def evalRun (stack : List Valtype) (script : CScript) : LoopRun Stop EvalState :=
  if 10000 < script.length then ⟨[], 0, .error .fail⟩
  else
    loop EvalState.live (step sig sigver flags) .outOfPasses script.length
      { pc := script, pbegincodehash := script, stack := stack }

def evalScript (stack : List Valtype) (script : CScript) : Option (List Valtype) :=
  match (evalRun sig sigver flags stack script).result with
  | .ok s => if s.vfExec.isEmpty then some s.stack else none
  | .error _ => none

end

end ShareCoin.Server
