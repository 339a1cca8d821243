import ShareCoin.Server.Transaction
import ShareCoin.Blockchain.Shcrc

/-!
# `matrix.cpp` — the validate matrix and its notaries

Every 27 blocks a coinbase may carry a *validate matrix*: the wallet's matrix with the checksum of
one more block hash added to one of nine cells. `BlockAcceptValidateMatrix` takes it over when the
block is connected, remembers the transaction and the key its coinbase pays to, and
`BlockRetractValidateMatrix` is meant to take it back. The last keys remembered form the notary set,
whose multi-signature script is the output of the next matrix transaction.

Signatures of a script other than its bytes are parameters (`MatrixEnv`): the two hashes, and what
`Solver` recognises as a bare public key. A block index is the hash of a block and those of its
ancestors, the nearest first; its height is their number.
-/

namespace ShareCoin.Server

abbrev CPubKey := List UInt8

/-- What the matrix functions take from elsewhere: `CTxMatrix::GetHash`, the hash of a script, and
    the key of a script that `Solver` finds to be a `TX_PUBKEY`. -/
structure MatrixEnv extends TxEnv where
  matrixHash : CTxMatrix → Uint160
  hash160 : CScript → Uint160
  solverPubKey : CScript → Option CPubKey

/-! ## The block index -/

/-- `CBlockIndex`, as far as it is read here. -/
structure CBlockIndex where
  hash : Uint256
  ancestors : List Uint256
  deriving DecidableEq, Repr

def CBlockIndex.nHeight (pindex : CBlockIndex) : Nat := pindex.ancestors.length

def CBlockIndex.pprev (pindex : CBlockIndex) : Option CBlockIndex :=
  match pindex.ancestors with
  | [] => none
  | hash :: ancestors => some { hash := hash, ancestors := ancestors }

/-- `while (pindex && pindex->pprev && pindex->nHeight > height) pindex = pindex->pprev`. -/
def walkBack (height : Nat) (hash : Uint256) : List Uint256 → CBlockIndex
  | [] => { hash := hash, ancestors := [] }
  | p :: ps =>
    if height < (p :: ps).length then walkBack height p ps
    else { hash := hash, ancestors := p :: ps }

/-! ## The matrix -/

def mValidate : UInt32 := 1

def rawBytes (hash : Uint256) : List UInt8 :=
  (List.range 32).map fun i => UInt8.ofNat (hash.toNat / 256 ^ i % 256)

/-- The word a block hash adds to its cell. -/
def hashCrc (hash : Uint256) : UInt32 := (Blockchain.shcrc (rawBytes hash)).toUInt32

/-- `idx`, which is `3 * row + col`. -/
def cellOf (height : Nat) : Fin 9 := ⟨height / 27 % 9, Nat.mod_lt _ (by decide)⟩

section

variable (m : CTxMatrix) (cell : Fin 9) (val : UInt32)

def CTxMatrix.addCell : CTxMatrix :=
  { m with vData := m.vData.set cell (m.vData[cell] + val) }

def CTxMatrix.subCell : CTxMatrix :=
  { m with vData := m.vData.set cell (m.vData[cell] - val) }

def CTxMatrix.append (heightIn : Nat) (hash : Uint256) : CTxMatrix :=
  { m with nHeight := UInt32.ofNat heightIn }.addCell (cellOf heightIn) (hashCrc hash)

def CTxMatrix.retract (heightIn : Nat) (hash : Uint256) : CTxMatrix :=
  if m.nHeight < UInt32.ofNat heightIn then m
  else { m with nHeight := UInt32.ofNat heightIn - 27 }.subCell (cellOf heightIn) (hashCrc hash)

end

/-- The part of `CWallet` that the matrix functions keep. -/
structure ValidateState where
  matrixValidate : CTxMatrix
  mapValidateTx : List Uint256
  mapValidateNotary : Uint256 → Option CPubKey

def ValidateState.null : ValidateState :=
  { matrixValidate := CTxMatrix.null, mapValidateTx := [], mapValidateNotary := fun _ => none }

/-! ## Extension scripts -/

def opReturn : UInt8 := 0x6a

def op2Drop : UInt8 := 0x6d

def opHash160 : UInt8 := 0xa9

def opCheckMultisig : UInt8 := 0xae

def opExtValidate : UInt8 := 0xf7

def opMatrix : Nat := 9

/-- An opcode of the ten extension modes. -/
def isExtMode (opcode : UInt8) : Bool := 0xf0 ≤ opcode && opcode ≤ 0xf9

def uint160OfBytes (vch : List UInt8) : Uint160 :=
  if vch.length = 20 then BitVec.ofNat 160 (leNat vch 20) else 0

def decodeMatrixHash (script : CScript) : Option (UInt8 × Uint160) := do
  let (mode, _, pc) ← getOp script
  if ! isExtMode mode then none
  else
    let (opcode, _, pc) ← getOp pc
    if opcode < 0x51 || 0x60 < opcode then none
    else if opcode.toNat - 0x50 ≠ opMatrix then none
    else
      let (opcode, _, pc) ← getOp pc
      if opcode ≠ opHash160 then none
      else
        let (_, vch, _) ← getOp pc
        some (mode, uint160OfBytes vch)

def indexOfExtOutput (tx : CTransaction) : Option Nat :=
  tx.vout.findIdx? fun out =>
    match getOp out.scriptPubKey with
    | some (opcode, _, _) => isExtMode opcode
    | none => false

def verifyMatrixTx (env : MatrixEnv) (tx : CTransaction) : Option UInt8 := do
  if ! tx.isFlag txfMatrix then none
  else
    let nOut ← indexOfExtOutput tx
    let out ← tx.vout[nOut]?
    let (mode, hashMatrix) ← decodeMatrixHash out.scriptPubKey
    if hashMatrix ≠ env.matrixHash tx.matrix then none else some mode

/-- `GetExtOutput(tx, OP_MATRIX, ..)`: the script of the first matrix output. The `assert` in
    `DecodeOP_N` stops the process on an extension output whose second opcode is no small number;
    the callers below have seen `VerifyMatrixTx` succeed, and then the first extension output is
    the matrix output. -/
def getExtMatrixOutput (tx : CTransaction) : Option CScript :=
  (tx.vout.find? fun out =>
    match getOp out.scriptPubKey with
    | some (opcode, _, pc) =>
      isExtMode opcode &&
        match getOp pc with
        | some (opcode2, _, _) => opcode2.toNat == 0x50 + opMatrix
        | none => false
    | none => false).map CTxOut.scriptPubKey

/-- The loop of `RemoveExtOutputPrefix`: past the next `OP_2DROP`. `k` bounds the operations. -/
def dropPrefixLoop : Nat → CScript → Option CScript
  | 0, _ => none
  | k + 1, pc => do
    let (opcode, _, pc) ← getOp pc
    if opcode = op2Drop then some pc else dropPrefixLoop k pc

def removeExtOutputPrefix (script : CScript) : Option CScript := do
  let (mode, _, pc) ← getOp script
  if ! isExtMode mode then none
  else
    let (op, _, pc) ← getOp pc
    if op < 0x51 || 0x5f < op then none else dropPrefixLoop pc.length pc

/-! ## Notaries -/

def validateNotaryDepth : Nat := 18

def minConsensus : CoinIface → Nat
  | .test => 1
  | _ => 6

/-- The loop of `GetValidateNotaries`: `kSend` grows by the keys not seen before, up to
    `nMinConsensus` of them. -/
def notaryLoop (nMinConsensus : Nat) (notary : Uint256 → Option CPubKey) :
    List Uint256 → List CPubKey → List CPubKey
  | [], kSend => kSend
  | hTx :: rest, kSend =>
    match notary hTx with
    | none => notaryLoop nMinConsensus notary rest kSend
    | some pubkey =>
      if pubkey ∈ kSend then notaryLoop nMinConsensus notary rest kSend
      else if kSend.length + 1 = nMinConsensus then kSend ++ [pubkey]
      else notaryLoop nMinConsensus notary rest (kSend ++ [pubkey])

/-- The index `GetValidateNotaries` starts from, before the depth is taken off: the tail, or the
    position in front of the transaction. -/
def notaryIndex (w : ValidateState) (hMatrixTx : Uint256) : Option Int :=
  if hMatrixTx = 0 then some (w.mapValidateTx.length - 1)
  else (w.mapValidateTx.findIdx? (· == hMatrixTx)).map fun idx => (idx : Int) - 1

def getValidateNotaries (coin : CoinIface) (w : ValidateState) (hMatrixTx : Uint256) :
    Bool × List CPubKey :=
  match notaryIndex w hMatrixTx with
  | none => (false, [])
  | some idx =>
    let start := (max 0 (idx - validateNotaryDepth)).toNat
    let kSend := notaryLoop (minConsensus coin) w.mapValidateNotary (w.mapValidateTx.drop start) []
    (kSend.length == minConsensus coin, kSend)

def pushData (vch : List UInt8) : CScript :=
  let size := vch.length
  let le := fun n => (List.range n).map fun i => UInt8.ofNat (size / 256 ^ i % 256)
  if size < 0x4c then le 1 ++ vch
  else if size ≤ 0xff then opPushData1 :: le 1 ++ vch
  else if size ≤ 0xffff then opPushData2 :: le 2 ++ vch
  else opPushData4 :: le 4 ++ vch

def encodeOpN (n : Nat) : UInt8 := if n = 0 then 0 else UInt8.ofNat (0x50 + n)

def generateValidateScript (coin : CoinIface) (kSend : List CPubKey) : Bool × CScript :=
  if minConsensus coin ≤ kSend.length then
    (true, encodeOpN kSend.length ::
      ((kSend.take (minConsensus coin)).flatMap pushData ++
        [encodeOpN kSend.length, opCheckMultisig]))
  else (false, [opReturn, 0])

def verifyValidateMatrixScript (env : MatrixEnv) (coin : CoinIface) (w : ValidateState)
    (hMatrixTx : Uint256) (scriptIn : CScript) : Bool :=
  match removeExtOutputPrefix scriptIn with
  | none => false
  | some script =>
    match getOp script with
    | none => false
    | some (opcode, _, pc) =>
      if opcode = opReturn then true
      else if opcode = opHash160 then
        match getOp pc with
        | none => false
        | some (_, vch, _) =>
          match getValidateNotaries coin w hMatrixTx with
          | (false, _) => false
          | (true, kSend) =>
            env.hash160 (generateValidateScript coin kSend).2 == uint160OfBytes vch
      else false

/-! ## Taking a matrix over and back -/

/-- The loop of `ExtractValidateCoinbaseDestination`, from output `i` on. `scriptPubKey.at(0)` of an
    empty script throws: the outer `none`. -/
def extractLoop (env : MatrixEnv) (nExtOut : Option Nat) : Nat → List CTxOut →
    Option (Option CPubKey)
  | _, [] => some none
  | i, out :: vout =>
    if nExtOut = some i then extractLoop env nExtOut (i + 1) vout
    else if out.nValue = 0 then extractLoop env nExtOut (i + 1) vout
    else
      match out.scriptPubKey with
      | [] => none
      | b :: _ =>
        if b = opReturn then extractLoop env nExtOut (i + 1) vout
        else
          match env.solverPubKey out.scriptPubKey with
          | none => extractLoop env nExtOut (i + 1) vout
          | some pubkey => some (some pubkey)

def insertValidateNotary (env : MatrixEnv) (w : ValidateState) (tx : CTransaction) :
    Option ValidateState := do
  match ← extractLoop env (indexOfExtOutput tx) 0 tx.vout with
  | none => some w
  | some pubkey =>
    some { w with
      mapValidateNotary := Function.update w.mapValidateNotary (env.getHash tx) (some pubkey) }

def verifyValidateMatrix (w : ValidateState) (matrix : CTxMatrix) (pindex : Option CBlockIndex) :
    Bool :=
  match pindex with
  | none => false
  | some pindex =>
    let root := walkBack (matrix.nHeight.toNat / 27 * 27) pindex.hash pindex.ancestors
    { w.matrixValidate with nType := mValidate }.append root.nHeight root.hash == matrix

/-- `GenerateValidateMatrix`: the transaction with its matrix. Without an index it is the best block
    that is built on. -/
def generateValidateMatrix (w : ValidateState) (best : Option CBlockIndex) (tx : CTransaction)
    (pindex : Option CBlockIndex) : Option CTransaction :=
  if tx.nFlag &&& txfMatrix ≠ 0 then none
  else
    (pindex.or best).bind fun pindex =>
      let height := (pindex.nHeight - 27) / 27 * 27
      if height ≤ 27 then none
      else if height ≤ w.matrixValidate.nHeight.toNat then none
      else
        let root := walkBack height pindex.hash pindex.ancestors
        some { tx with
          nFlag := tx.nFlag ||| txfMatrix
          matrix := { w.matrixValidate with nType := mValidate }.append root.nHeight root.hash }

section

variable (env : MatrixEnv) (coin : CoinIface) (w : ValidateState) (tx : CTransaction)

/-- `BlockAcceptValidateMatrix`: `none` for "no matrix was present", and otherwise `fCheck`. The
    outer `none` is for the exception of `InsertValidateNotary`. `pindex` is the block's parent, or
    the best block when it has none. -/
def blockAcceptValidateMatrix (pindex : Option CBlockIndex) :
    Option (Option Bool × ValidateState) :=
  if verifyMatrixTx env tx ≠ some opExtValidate then some (none, w)
  else if ! (tx.matrix.nType == mValidate && w.matrixValidate.nHeight < tx.matrix.nHeight) then
    some (none, w)
  else
    match getExtMatrixOutput tx with
    | none => some (some false, w)
    | some script =>
      if ! verifyValidateMatrixScript env coin w 0 script then some (some false, w)
      else if ! verifyValidateMatrix w tx.matrix pindex then some (some false, w)
      else do
        let w := { w with
          matrixValidate := tx.matrix
          mapValidateTx := w.mapValidateTx ++ [env.getHash tx] }
        let w ← insertValidateNotary env w tx
        some (some true, w)

/-- The height `BlockRetractValidateMatrix` expects of the matrix, an `int`. -/
def retractHeight (pindex : CBlockIndex) : Int := ((pindex.nHeight : Int) - 1 - 27).tdiv 27 * 27

def blockRetractValidateMatrix (pindex : CBlockIndex) : ValidateState :=
  let height := retractHeight pindex
  if (w.matrixValidate.nHeight.toNat : Int) ≠ height % 2 ^ 32 then w
  else
    let root := walkBack height.toNat pindex.hash pindex.ancestors
    { matrixValidate := w.matrixValidate.retract root.nHeight root.hash
      mapValidateTx :=
        if w.mapValidateTx.getLast? = some (env.getHash tx) then w.mapValidateTx.dropLast
        else w.mapValidateTx
      mapValidateNotary := Function.update w.mapValidateNotary (env.getHash tx) none }

end

/-! ## Blocks on top of a chain

What connecting and disconnecting a block does to this state: the coinbase branch of
`core_ConnectCoinInputs`, and the loop of `SHCBlock::DisconnectBlock`. -/

def CBlockIndex.child (tip : CBlockIndex) (hash : Uint256) : CBlockIndex :=
  { hash := hash, ancestors := tip.hash :: tip.ancestors }

section

variable (env : MatrixEnv) (coin : CoinIface) (s : CBlockIndex × ValidateState)
  (b : Uint256 × CTransaction)

/-- A block with the given hash and coinbase is connected. A matrix that fails its check rejects the
    block. -/
def connectMatrix : Option (CBlockIndex × ValidateState) :=
  match blockAcceptValidateMatrix env coin s.2 b.2 (s.1.child b.1).pprev with
  | none => none
  | some (some false, _) => none
  | some (_, w) => some (s.1.child b.1, w)

/-- The coinbases that `SHCBlock::DisconnectBlock` retracts. -/
def carriesValidateMatrix (tx : CTransaction) : Bool :=
  tx.isCoinBase && tx.isFlag txfMatrix && tx.matrix.nType == mValidate

def disconnectMatrix : CBlockIndex × ValidateState :=
  match s.1.pprev with
  | none => s
  | some pprev =>
    (pprev, if carriesValidateMatrix b.2 then blockRetractValidateMatrix env s.2 b.2 s.1 else s.2)

end

end ShareCoin.Server
