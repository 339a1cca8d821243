import ShareCoin.Server.VerifyScript

/-!
# `script.cpp` — the templates of `Solver`

A script of neither form that `Solver` knows is compared with four templates, operation by
operation. A template can ask for a public key, for the hash of one, for a small number or for any
number of keys. The comparison follows one branch of a conditional: the value that it is decided by
comes from a proof in front of the script, which is looked up in another chain (`altProof`, where
there is no value if no such chain is known).

`GetOp` moves its position also when it fails, and two of the loops go on after that; `readOp` says
where. The checks on a `TX_MULTISIG` match read the first byte of the first solution, which a failed
proof leaves empty; it is zero here.
-/

namespace ShareCoin.Server

def opIf : UInt8 := 0x63

def opElse : UInt8 := 0x67

def opEndif : UInt8 := 0x68

def opDrop : UInt8 := 0x75

def opDup : UInt8 := 0x76

def opEqual : UInt8 := 0x87

def opEqualverify : UInt8 := 0x88

def opChecksig : UInt8 := 0xac

def opCheckmultisig : UInt8 := 0xae

def opCheckaltproof : UInt8 := 0xb7

def opSmallinteger : UInt8 := 0xfa

def opPubkeys : UInt8 := 0xfb

def opExtHash : UInt8 := 0xfc

def opPubkeyhash : UInt8 := 0xfd

def opPubkey : UInt8 := 0xfe

def opInvalidopcode : UInt8 := 0xff

/-! ## Reading on -/

/-- What `GetOp` sets: the opcode, its operand and the position. -/
structure Cursor where
  opcode : UInt8
  vch : List UInt8
  pc : CScript
  deriving DecidableEq

/-- The position after `GetOp2` failed: behind the opcode, and behind the size if it was there. -/
def failedPc : CScript → CScript
  | [] => []
  | opcode :: pc =>
    let nSize :=
      if opcode = opPushData1 then 1
      else if opcode = opPushData2 then 2
      else if opcode = opPushData4 then 4
      else 0
    if pc.length < nSize then pc else pc.drop nSize

def readOp (pc : CScript) : Bool × Cursor :=
  match getOp pc with
  | some (opcode, vch, pc) => (true, ⟨opcode, vch, pc⟩)
  | none => (false, ⟨opInvalidopcode, [], failedPc pc⟩)

def skipUntil (stop : UInt8) : Nat → Cursor → Cursor
  | 0, c => c
  | k + 1, c =>
    if c.opcode = stop then c
    else
      match readOp c.pc with
      | (true, c) => skipUntil stop k c
      | (false, c) => c

def takePubkeys : Nat → Cursor → List Valtype × Cursor
  | 0, c => ([], c)
  | k + 1, c =>
    if 33 ≤ c.vch.length ∧ c.vch.length ≤ 120 then
      match readOp c.pc with
      | (true, c') =>
        let (keys, last) := takePubkeys k c'
        (c.vch :: keys, last)
      | (false, c') => ([c.vch], c')
    else ([], c)

def removeSolverDropPrefix (c : Cursor) : Cursor :=
  let (read, opcode, pc) :=
    if c.vch.length ≠ 0 then
      let (read, next) := readOp c.pc
      (read, next.opcode, next.pc)
    else (true, c.opcode, c.pc)
  if !read || opcode == 0 then c
  else
    match readOp pc with
    | (true, next) => if next.opcode = opDrop then (readOp next.pc).2 else c
    | (false, _) => c

/-! ## The scan -/

/-- The conditional at the start of a pass: what is read after it, unless the comparison ends, and
    the solutions. -/
def enterBranch (c : Cursor) (vSolutions : List Valtype) : Option Cursor × List Valtype :=
  if c.opcode = opIf then
    match vSolutions.getLast? with
    | none => (none, vSolutions)
    | some back =>
      let c := if back = vchTrue then c else skipUntil opElse (c.pc.length + 1) c
      match readOp c.pc with
      | (true, c) => (some c, vSolutions.dropLast)
      | (false, _) => (none, vSolutions.dropLast)
  else (some c, vSolutions)

/-- One operation against an operation of the template: the solutions, if they agree. -/
def matchOp (c : Cursor) (opcode2 : UInt8) (vch2 : List UInt8) (vSolutions : List Valtype) :
    Option (List Valtype) :=
  if opcode2 = opPubkey then
    if c.vch.length < 33 ∨ 120 < c.vch.length then none else some (vSolutions ++ [c.vch])
  else if opcode2 = opPubkeyhash then
    if c.vch.length ≠ 20 then none else some (vSolutions ++ [c.vch])
  else if opcode2 = opExtHash then
    if c.vch.length ≠ 20 then none else some vSolutions
  else if opcode2 = opSmallinteger then
    (decodeOpN c.opcode).map fun n => vSolutions ++ [[UInt8.ofNat n]]
  else if c.opcode ≠ opcode2 ∨ c.vch ≠ vch2 then none
  else some vSolutions

/-- How the comparison with a template ends. -/
inductive ScanResult where
  | found (vSolutions : List Valtype)
  | broke (vSolutions : List Valtype)
  deriving DecidableEq

/-- The end of a pass: one operation of the script was read and is compared. -/
def compareOp (c : Cursor) (pc2 : CScript) (vSolutions : List Valtype) :
    Option (List Valtype) × CScript × CScript × List Valtype :=
  match readOp pc2 with
  | (false, _) => (none, c.pc, pc2, vSolutions)
  | (true, c2) =>
    let c := removeSolverDropPrefix c
    if c2.opcode = opPubkeys then
      let (keys, c) := takePubkeys (c.pc.length + 1) c
      let vSolutions := vSolutions ++ keys
      match readOp c2.pc with
      | (false, _) => (none, c.pc, c2.pc, vSolutions)
      | (true, c2) => (matchOp c c2.opcode c2.vch vSolutions, c.pc, c2.pc, vSolutions)
    else (matchOp c c2.opcode c2.vch vSolutions, c.pc, c2.pc, vSolutions)

/-- The loop over the operations of the script; `k` bounds the passes. -/
def scanLoop : Nat → CScript → CScript → List Valtype → ScanResult
  | 0, _, _, vSolutions => .broke vSolutions
  | k + 1, pc1, pc2, vSolutions =>
    if pc1.isEmpty && pc2.isEmpty then .found vSolutions
    else
      match readOp pc1 with
      | (false, _) => .broke vSolutions
      | (true, c) =>
        match enterBranch c vSolutions with
        | (none, vSolutions) => .broke vSolutions
        | (some c, vSolutions) =>
          let c := if c.opcode = opElse then skipUntil opEndif (c.pc.length + 1) c else c
          if c.opcode = opEndif then
            -- the operation after the conditional is read and not compared
            scanLoop k (readOp c.pc).2.pc pc2 vSolutions
          else
            match compareOp c pc2 vSolutions with
            | (some vSolutions, pc1, pc2, _) => scanLoop k pc1 pc2 vSolutions
            | (none, _, _, vSolutions) => .broke vSolutions

def mTemplates : List (TemplateType × CScript) :=
  [(.pubkey, [opPubkey, opChecksig]),
   (.pubkeyhash, [opDup, opHash160, opPubkeyhash, opEqualverify, opChecksig]),
   (.multisig, [opSmallinteger, opPubkeys, opSmallinteger, opCheckmultisig]),
   (.ret, [opReturn])]

/-- "Additional checks for TX_MULTISIG". -/
def multisigOk (vSolutions : List Valtype) : Bool :=
  let m := (vSolutions.headD []).headD 0
  let n := (vSolutions.getLastD []).headD 0
  decide (1 ≤ m) && decide (1 ≤ n) && decide (m ≤ n) &&
    decide (vSolutions.length - 2 = n.toNat)

def scanTemplates (script : CScript) (vSolutions : List Valtype) :
    List (TemplateType × CScript) → List Valtype →
      Option (TemplateType × List Valtype) ⊕ List Valtype
  | [], left => .inr left
  | (type, script2) :: templates, _ =>
    match scanLoop (script.length + 1) script script2 vSolutions with
    | .found solutions =>
      .inl (if type = .multisig && !multisigOk solutions then none else some (type, solutions))
    | .broke left => scanTemplates script vSolutions templates left

def solverCheckAltProof (altProof : List UInt8 → List UInt8 → Option Bool) (script : CScript) :
    List Valtype × CScript :=
  match getOp script with
  | none => ([], script)
  | some (_, vchTx, pc) =>
    if vchTx.length ≠ 32 then ([], script)
    else
      match getOp pc with
      | none => ([], script)
      | some (_, vchColor, pc) =>
        if vchColor.length ≠ 20 then ([], script)
        else
          match getOp pc with
          | none => ([], script)
          | some (opcode, _, pc) =>
            if opcode ≠ opCheckaltproof then ([], script)
            else ((altProof vchTx vchColor).toList.map vchOfBool, pc)

/-- The part of `Solver` behind the two forms it knows. -/
def solverTemplates (altProof : List UInt8 → List UInt8 → Option Bool) (scriptPubKey : CScript) :
    Option (TemplateType × List Valtype) :=
  let (vSolutions, script) := solverCheckAltProof altProof scriptPubKey
  match scanTemplates script vSolutions mTemplates [] with
  | .inl result => result
  | .inr left =>
    match script with
    | opcode :: pc => if opcode = opReturn ∧ isPushOnly pc then some (.ret, left) else none
    | [] => none

end ShareCoin.Server
