import ShareCoin.Wire.CoinAddr

/-!
# `txcreator.cpp` — making a transaction

A `CTxCreator` collects inputs and outputs; `Generate` selects more inputs until they pay for the
outputs and the fee, adds an output for the change and signs. The fee depends on the transaction, so
it is computed in a loop: each pass selects coins for the fee of the last one, makes a transaction
of some of them, and computes its fee. The inputs that are used in the end are all that were
selected.

A coin is a pointer to a wallet transaction and an index. Sets of coins are ordered by the pointer,
which decides the order in which they are counted; two pointers to the same transaction are the same
input. The selection of coins, the fee, the signatures and the checks on the finished transaction
are parameters. Amounts are integers here: no wallet has so many coins that a sum would overflow.
-/

namespace ShareCoin.Wallet

open Wire
open Server hiding CTransaction

structure CWalletTx where
  addr : Nat
  tx : CTransaction

/-- `pair<CWalletTx *, unsigned int>`. -/
abbrev Coin := CWalletTx × UInt32

/-- The value of the output, or zero where there is none. -/
def Coin.value (coin : Coin) : Int :=
  ((coin.1.tx.vout[coin.2.toNat]?).map fun out => out.nValue.toInt).getD 0

/-- What the functions take from elsewhere. `selectCoins` is `SelectCoins_Avg` on the coins of the
    wallet in the pass with the given number, as it shuffles them; `changeAddr` is the address for
    the change, or none if the wallet has none and cannot make one. -/
structure CreatorEnv where
  hash : List UInt8 → Uint256
  iface : CIface
  minInput : Nat
  minRelayFee : Nat
  maxTxWeight : Nat
  vCoins : List Coin
  selectCoins : Nat → Int → Option (List Coin)
  calculateFee : CTransaction → Int → Int → Int
  changeAddr : CTxDestination
  randInt : Nat → Nat
  recentBlockHeight : UInt32
  transactionWeight : CTransaction → Nat
  signSignature : CTransaction → Nat → Coin → Option (CScript × List Stack)
  sigOpCount : CTransaction → Nat
  checkTransaction : CTransaction → Bool
  minInput_pos : 0 < minInput

structure CTxCreator where
  tx : CTransaction := {}
  setInput : List Coin := []
  setSeq : Nat → Option UInt32 := fun _ => none
  nCredit : Int := 0
  nDebit : Int := 0
  nMinFee : Int := 0
  nFeeDepth : Int := 6
  fAutoLock : Bool := true

def hasExtOutput (vout : List CTxOut) : Bool :=
  vout.any fun out => ((getOp out.scriptPubKey).map fun op => isExtMode op.1).getD false

/-! ## Sets of coins -/

/-- The order of pairs with a pointer. -/
def Coin.before (a b : Coin) : Bool :=
  decide (a.1.addr < b.1.addr) || (a.1.addr == b.1.addr && decide (a.2 < b.2))

def insertCoin (coin : Coin) : List Coin → List Coin
  | [] => [coin]
  | x :: xs =>
    if coin.before x then coin :: x :: xs
    else if x.before coin then x :: insertCoin coin xs
    else x :: xs

section

variable (env : CreatorEnv)

/-- The output a coin stands for. -/
def Coin.outPoint (coin : Coin) : COutPoint := ⟨coin.1.tx.getHash env.hash, coin.2⟩

def inMoneyRange (nValue : Int) : Bool :=
  decide (0 ≤ nValue) && decide (nValue ≤ env.iface.maxMoney)

def dustRelayFee : Int := env.minRelayFee * 3

/-! ## Inputs and outputs -/

def haveInput (c : CTxCreator) (coin : Coin) : Bool :=
  c.setInput.any fun input => input.outPoint env == coin.outPoint env

def addInput (c : CTxCreator) (coin : Coin) (seq : UInt32) : Option CTxCreator :=
  match coin.1.tx.vout[coin.2.toNat]? with
  | none => none
  | some out =>
    -- `min_input` is unsigned, and so is the comparison
    if env.minInput ≠ 0 ∧ out.nValue.toUInt64.toNat < env.minInput then none
    else if haveInput env c coin then none
    else
      let setInput := insertCoin coin c.setInput
      some { c with
        nCredit := c.nCredit + out.nValue.toInt
        setInput
        setSeq :=
          if seq = sequenceFinal then c.setSeq
          else Function.update c.setSeq (setInput.length - 1) (some seq) }

def addOutput (c : CTxCreator) (scriptPubKey : CScript) (nValue : Int) (fInsert : Bool) :
    Option CTxCreator :=
  if scriptPubKey.length = 0 then none
  else if !inMoneyRange env nValue then none
  else
    let out : CTxOut := ⟨Int64.ofInt nValue, scriptPubKey⟩
    let vout := c.tx.vout
    let position :=
      if fInsert then 0
      else if vout.length = 0 || hasExtOutput vout then vout.length
      else env.randInt vout.length
    some { c with
      tx := { c.tx with vout := vout.take position ++ out :: vout.drop position }
      nDebit := c.nDebit + nValue }

/-- `txcreator_AddDummySignature`: the script of the input and its witness. -/
def dummySignature (coin : Coin) : CScript × Stack :=
  let scriptPubKey :=
    ((coin.1.tx.vout[coin.2.toNat]?).map fun out => out.scriptPubKey).getD []
  let sigDummy := List.replicate 40 (7 : UInt8)
  let sigPub := List.replicate 65 (7 : UInt8)
  match isWitnessProgram scriptPubKey with
  | none => (pushData sigDummy ++ pushData sigPub, [])
  | some (witnessversion, _) =>
    if witnessversion = 14 then ([], [List.replicate 2702 7, List.replicate 1474 7])
    else ([], [sigDummy, sigPub])

/-- Selected coins that are used: those with an output that are no inputs yet. -/
def selectable (c : CTxCreator) (setCoins : List Coin) : List Coin :=
  setCoins.filter fun coin =>
    decide (coin.2.toNat < coin.1.tx.vout.length) && !haveInput env c coin

/-- The loop "add inputs": the coins that are counted and `nTotCredit`. A selected coin is left out
    once the target is reached. -/
def countCoins (c : CTxCreator) (nTarget : Int) : List Coin → Int → List Coin × Int
  | [], nTotCredit => ([], nTotCredit)
  | coin :: rest, nTotCredit =>
    if !haveInput env c coin && decide (nTarget ≤ nTotCredit) then
      countCoins c nTarget rest nTotCredit
    else
      let (counted, nTotCredit) := countCoins c nTarget rest (nTotCredit + coin.value)
      (coin :: counted, nTotCredit)

/-- Whether an amount is paid back. -/
def isChange (nChange : Int) : Bool :=
  inMoneyRange env nChange && decide ((env.minInput : Int) ≤ nChange) &&
    decide (dustRelayFee env ≤ nChange)

/-- `t_wtx`. It starts as a copy, so the outputs are in it twice. -/
def tempTx (c : CTxCreator) (size : Nat) (counted : List Coin) (nChange : Int) : CTransaction :=
  let dummies := counted.map dummySignature
  let vtxinwit := resize size c.tx.vtxinwit
  { c.tx with
    vin := c.tx.vin ++ counted.map fun coin =>
      ⟨coin.outPoint env, (dummySignature coin).1, sequenceFinal⟩
    vtxinwit := vtxinwit.mapIdx fun i stack => stack ++ ((dummies[i]?).map Prod.snd).getD []
    vout := c.tx.vout ++ c.tx.vout ++
      if isChange env nChange then
        [⟨Int64.ofInt nChange, getScriptForDestination env.changeAddr⟩]
      else [] }

/-- The loop of `Generate`, from pass `i` on: all coins that are used and the fee, unless it returns
    false. No value where `fuel` passes do not suffice. -/
def feeLoop (c : CTxCreator) : Nat → Nat → Int → Int → Option (Option (List Coin × Int))
  | 0, _, _, _ => none
  | fuel + 1, i, nFee, nTotCredit =>
    match if nTotCredit < c.nDebit + nFee then env.selectCoins i (c.nDebit + nFee)
      else some [] with
    | none => some none
    | some setCoins =>
      let selected := selectable env c setCoins
      let setCoinsCopy := selected.foldl (fun s coin => insertCoin coin s) c.setInput
      let nValueIn := (c.setInput.map Coin.value).sum + (selected.map Coin.value).sum
      if nValueIn < c.nDebit + nFee - nTotCredit then some none
      else
        let (counted, nTotCredit) := countCoins env c (c.nDebit + nFee) setCoinsCopy 0
        if counted.isEmpty then some none
        else
          let t_wtx := tempTx env c setCoinsCopy.length counted (nTotCredit - c.nDebit - nFee)
          let nFee := env.calculateFee t_wtx c.nMinFee c.nFeeDepth
          if nTotCredit < c.nDebit + nFee then feeLoop c fuel (i + 1) nFee nTotCredit
          else some (some (setCoinsCopy, nFee))

/-! ## The transaction -/

/-- The loop "parse inputs". -/
def addSelected : CTxCreator → List Coin → Option CTxCreator
  | c, [] => some c
  | c, coin :: rest =>
    if haveInput env c coin then addSelected c rest
    else (addInput env c coin sequenceFinal).bind fun c => addSelected c rest

/-- "handle coin change". What `AddOutput` returns is not looked at. -/
def addChange (c : CTxCreator) (nFee : Int) : CTxCreator :=
  let nChange := c.nCredit - c.nDebit - nFee
  if isChange env nChange then
    (addOutput env c (getScriptForDestination env.changeAddr) nChange false).getD c
  else c

/-- "add inputs to transaction". -/
def buildInputs (c : CTxCreator) : List CTxIn :=
  c.setInput.mapIdx fun nIn coin =>
    let seq := (c.setSeq nIn).getD sequenceFinal
    let seq := if c.tx.nLockTime ≠ 0 ∧ seq = sequenceFinal then sequenceFinal - 1 else seq
    ⟨coin.outPoint env, [], seq⟩

def signInputs : Nat → List Coin → CTransaction → Option CTransaction
  | _, [], tx => some tx
  | nIn, coin :: rest, tx =>
    (env.signSignature tx nIn coin).bind fun (scriptSig, vtxinwit) =>
      signInputs (nIn + 1) rest { tx with
        vin := tx.vin.modify nIn fun txin => { txin with scriptSig }
        vtxinwit }

/-- The part of `Generate` behind the loop, if it returns true. -/
def finish (c : CTxCreator) (setCoinsCopy : List Coin) (nFee : Int) : Option CTxCreator := do
  let c ← addSelected env c setCoinsCopy
  let c := addChange env c nFee
  let c := { c with tx := { c.tx with vin := buildInputs env c } }
  if env.maxTxWeight ≤ env.transactionWeight c.tx then none
  else
    let tx ← signInputs env 0 c.setInput c.tx
    if env.maxTxWeight ≤ env.transactionWeight tx then none
    else if env.iface.maxSigops / 5 < env.sigOpCount tx then none
    else if !env.checkTransaction tx then none
    else some { c with tx }

def autoLock (c : CTxCreator) : CTxCreator :=
  if c.fAutoLock && c.tx.nLockTime == 0 && env.iface.ifaceIndex != .color &&
      !hasExtOutput c.tx.vout && decide (env.recentBlockHeight.toNat < locktimeThreshold) then
    { c with tx := { c.tx with nLockTime := env.recentBlockHeight } }
  else c

/-- `CTxCreator::Generate`: the finished transaction and the fee, unless it returns false. No value
    where `fuel` passes do not suffice. -/
def generate (fuel : Nat) (c : CTxCreator) : Option (Option (CTxCreator × Int)) :=
  if c.tx.vout.length = 0 then some none
  else
    let c := autoLock env c
    (feeLoop env c fuel 0 env.minRelayFee c.nCredit).map fun result =>
      result.bind fun (setCoinsCopy, nFee) =>
        if !inMoneyRange env nFee then none
        else (finish env c setCoinsCopy nFee).map fun c => (c, nFee)

/-! ## A remittance -/

/-- `CreateMoneyTx` of `wallet.cpp`: the transaction and its fee, if it returns true. The size is
    that of the wallet's copy of the transaction, and `nBytes` is an `unsigned int`. -/
def createMoneyTx (serializeSize : CTransaction → Nat) (min_tx_fee : Int) (wtxNew : CTransaction)
    (vecRecv : List Coin) (vecSend : List CTxOut) (scriptPubKey : CScript) :
    Option (CTransaction × Int) :=
  let nTotalValue := (vecRecv.map Coin.value).sum
  let wtxNew := { wtxNew with
    vin := vecRecv.map fun out => ⟨out.outPoint env, [], sequenceFinal⟩
    vout := vecSend }
  let nBytes := (serializeSize wtxNew + 66 * vecRecv.length) % 2 ^ 32
  let nTxFee := ((1 + nBytes / 1000 : Nat) : Int) * min_tx_fee
  let wtxNew := { wtxNew with
    vout := vecSend ++ [⟨Int64.ofInt (nTotalValue - nTxFee), scriptPubKey⟩] }
  (signInputs env 0 vecRecv wtxNew).map fun wtxNew => (wtxNew, nTxFee)

end

end ShareCoin.Wallet
