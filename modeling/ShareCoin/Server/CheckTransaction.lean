import ShareCoin.Server.Transaction

/-!
# `CTransaction::CheckTransaction`

The checks of a transaction that need no context, in the order of the source. Most rejections are
`return error(..)`, which is `false`. Four of them are written

    return (ERR_2BIG, "(%s) ...", iface->name, ...);

without the call: a comma list, whose value is its last operand. For an invalid script that is a
`const char *` from `c_str()`, never null; for an oversized one it is `MAX_SCRIPT_SIZE(iface)`. Both
convert to `true`, so these branches *accept* the transaction, and the checks behind them are not
made. `txHasValidOps` and the four branches are modelled as they are.
-/

namespace ShareCoin.Server

def maxOpcode : UInt8 := 0xf9

/-- The loop of `tx_HasValidOps`; `k` bounds the number of operations, and an operation takes at
    least one byte. -/
def hasValidOpsLoop (iface : CIface) : Nat → CScript → Bool
  | _, [] => true
  | 0, _ :: _ => false
  | k + 1, it =>
    match getOp it with
    | none => false
    | some (opcode, item, it) =>
      if maxOpcode < opcode || iface.maxScriptElementSize < item.length then false
      else hasValidOpsLoop iface k it

def txHasValidOps (iface : CIface) (script : CScript) : Bool :=
  hasValidOpsLoop iface script.length script

/-- How a loop of checks goes on: with the next element, or out of the function with a result. -/
inductive Check where
  | next
  | ret (accepted : Bool)
  deriving DecidableEq, Repr

/-- The two script checks of the output and the input loop. The comma lists return `true` and
    `MAX_SCRIPT_SIZE(iface)`. -/
def checkScript (iface : CIface) (script : CScript) : Check :=
  if ! txHasValidOps iface script then .ret true
  else if iface.maxScriptSize < script.length then .ret (decide (iface.maxScriptSize ≠ 0))
  else .next

/-- "Check for negative or overflow output values". -/
def checkOutputs (iface : CIface) (nValueOut : Int64) : List CTxOut → Check
  | [] => .next
  | txout :: vout =>
    if txout.nValue < 0 then .ret false
    else if (iface.maxMoney : Int) < txout.nValue.toInt then .ret false
    else if ! moneyRange iface (nValueOut + txout.nValue) then .ret false
    else
      match checkScript iface txout.scriptPubKey with
      | .next => checkOutputs iface (nValueOut + txout.nValue) vout
      | ret => ret

/-- "Check for duplicate inputs", with the set of outpoints seen so far. -/
def checkDuplicates (vInOutPoints : List COutPoint) : List CTxIn → Check
  | [] => .next
  | txin :: vin =>
    if txin.prevout ∈ vInOutPoints then .ret false
    else checkDuplicates (txin.prevout :: vInOutPoints) vin

/-- The input loop of a transaction that is no coinbase. -/
def checkInputs (iface : CIface) : List CTxIn → Check
  | [] => .next
  | txin :: vin =>
    if txin.prevout.isNull then .ret false
    else
      match checkScript iface txin.scriptSig with
      | .next => checkInputs iface vin
      | ret => ret

def checkCoinbaseOrInputs (iface : CIface) (tx : CTransaction) : Check :=
  if tx.isCoinBase then
    match tx.vin with
    | txin :: _ =>
      if txin.scriptSig.length < 2 || 100 < txin.scriptSig.length then .ret false else .next
    | [] => .next
  else checkInputs iface tx.vin

def checkTransaction (env : TxEnv) (iface : CIface) (tx : CTransaction) : Bool :=
  if tx.vin.isEmpty then false
  else if tx.vout.isEmpty then false
  else if iface.maxBlockSize < env.getSerializeSize tx then false
  else
    match checkOutputs iface 0 tx.vout with
    | .ret accepted => accepted
    | .next =>
      match checkDuplicates [] tx.vin with
      | .ret accepted => accepted
      | .next =>
        match checkCoinbaseOrInputs iface tx with
        | .ret accepted => accepted
        | .next => true

end ShareCoin.Server
