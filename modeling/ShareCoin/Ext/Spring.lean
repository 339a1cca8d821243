import ShareCoin.Ext.Tables

/-!
# `spring.c`, `matrix.cpp`, `shc_block.cpp` — claims on the spring matrix

The spring matrix is a field of 256 by 256 cells of two words. A place on the earth has a cell, two
bits of its first word and two of its second; it can be claimed while all four are set, and a claim
clears one bit of each word. A block claims the place of a stamped identity with a spring matrix in
its first transaction, a digest of the field as it is before the claim.

`SHCBlock::AcceptBlock` performs the claim, and erases the identity from `mapIdent`, before
`core_AcceptBlock` has looked at the block. What takes a claim back is
`BlockRetractSpringMatrix`, which `SHCBlock::DisconnectBlock` calls; it looks for the identity in
`mapIdent`.

The function from the place of an identity to its cell and its bits is a parameter, as is what is
checked of a block before its matrix. `core_AcceptBlock` is a parameter of `acceptBlock`: on these
tables it either does nothing, or connects the block. `springStep` puts the steps together that a
node takes with its blocks.
-/

namespace ShareCoin.Ext

open Wire
open Server hiding CTransaction

/-! ## The field -/

structure SpringBits where
  y : Fin 256
  x : Fin 256
  lat1 : Fin 32
  lat2 : Fin 32
  lon1 : Fin 32
  lon2 : Fin 32
  deriving DecidableEq

/-- The two words of a cell, `i_ar`. -/
@[ext]
structure SpringCell where
  lat : BitVec 32
  lon : BitVec 32
  deriving DecidableEq

abbrev SpringMatrix := Fin 256 × Fin 256 → SpringCell

def oneBit (i : Fin 32) : BitVec 32 := 1#32 <<< i.val

section

variable (m : SpringMatrix) (bits : SpringBits)

def isSpringLoc : Bool :=
  bits.lat1 != bits.lat2 && bits.lon1 != bits.lon2 &&
    let cell := m (bits.y, bits.x)
    cell.lat &&& oneBit bits.lat1 != 0 && cell.lat &&& oneBit bits.lat2 != 0 &&
      cell.lon &&& oneBit bits.lon1 != 0 && cell.lon &&& oneBit bits.lon2 != 0

def springLocSet : SpringMatrix :=
  let cell := m (bits.y, bits.x)
  Function.update m (bits.y, bits.x)
    { lat := cell.lat ||| oneBit bits.lat1 ||| oneBit bits.lat2
      lon := cell.lon ||| oneBit bits.lon1 ||| oneBit bits.lon2 }

def springLocClaim : SpringMatrix :=
  if isSpringLoc m bits then
    let cell := m (bits.y, bits.x)
    Function.update m (bits.y, bits.x)
      { lat := cell.lat &&& ~~~ oneBit bits.lat1
        lon := cell.lon &&& ~~~ oneBit bits.lon1 }
  else m

def springMatrixCompress : Vector UInt32 9 :=
  (List.finRange 256).foldl (fun v y =>
    (List.finRange 256).foldl (fun (v : Vector UInt32 9) x =>
      let cell : Fin 9 := ⟨3 * (y.val / 85 % 3) + x.val / 85 % 3, by omega⟩
      v.set cell (v[cell] + UInt32.ofBitVec (m (y, x)).lat)) v) (Vector.replicate 9 0)

end

/-! ## Claims -/

def mSpring : UInt32 := 2

structure SpringEnv where
  matrixEnv : MatrixEnv
  springLocBits : Shgeo → SpringBits

/-- `GetTransaction`, at one time. -/
abbrev TxLookup := Uint256 → Option CTransaction

/-- The field and the table of the pending identities. -/
@[ext]
structure SpringClaims where
  field : SpringMatrix
  mapIdent : Uint160 → Option Uint256

structure SpringState where
  field : SpringMatrix
  tables : ExtTables

def SpringState.claims (s : SpringState) : SpringClaims where
  field := s.field
  mapIdent := s.tables.mapIdent

def getTxOfIdent (getTransaction : TxLookup) (mapIdent : Uint160 → Option Uint256)
    (hash : Uint160) : Option CTransaction :=
  match (mapIdent hash).bind getTransaction with
  | none => none
  | some tx => if isIdentTx tx then some tx else none

def verifySpringMatrix (env : SpringEnv) (getTransaction : TxLookup) (c : SpringClaims)
    (matrix : CTxMatrix) : Option SpringBits :=
  match getTxOfIdent getTransaction c.mapIdent matrix.hRef with
  | none => none
  | some tx =>
    if ! hasFlag tx.nFlag txfCert then none
    else
      let bits := env.springLocBits tx.certificate.geo
      if ! isSpringLoc c.field bits then none
      else if matrix.vData ≠ springMatrixCompress c.field then none
      else some bits

def SpringState.claim (s : SpringState) (bits : SpringBits) (hRef : Uint160) : SpringState where
  field := springLocClaim s.field bits
  tables := { s.tables with mapIdent := Function.update s.tables.mapIdent hRef none }

def blockAcceptSpringMatrix (env : SpringEnv) (getTransaction : TxLookup) (s : SpringState)
    (tx : CTransaction) : Bool × Bool × SpringState :=
  if verifyMatrixTx env.matrixEnv (asServer tx) ≠ some opExtPay then (false, false, s)
  else if tx.matrix.nType ≠ mSpring then (false, false, s)
  else
    match verifySpringMatrix env getTransaction s.claims tx.matrix with
    | none => (true, false, s)
    | some bits => (true, true, s.claim bits tx.matrix.hRef)

/-! ## Blocks -/

structure SpringBlock (base : RecordEnv) where
  vtx : List (ExtTx base)
  nHeight : UInt32
  /-- The previous block has an index. -/
  hasPrev : Bool
  /-- The checks of the time pass. -/
  timely : Bool
  /-- `BlockVerifyValidateMatrix` of the first transaction. -/
  validates : Bool
  accepting : TxLookup
  /-- The transactions that are found when the block is disconnected. -/
  retracting : TxLookup

variable {base : RecordEnv}

section

variable (env : SpringEnv)

def acceptBlock (coreAccept : SpringState → Option (Bool × SpringState)) (s : SpringState)
    (block : SpringBlock base) : Option (Bool × SpringState) :=
  if ! block.hasPrev then some (false, s)
  else if ! block.timely then some (false, s)
  else
    match block.vtx with
    | [] => coreAccept s
    | x :: _ =>
      match verifyMatrixTx env.matrixEnv (asServer x.tx) with
      | none => coreAccept s
      | some mode =>
        if mode = opExtValidate then
          if ! block.validates then some (false, s) else coreAccept s
        else if mode = opExtPay then
          let r := blockAcceptSpringMatrix env block.accepting s x.tx
          if r.1 && ! r.2.1 then some (false, r.2.2) else coreAccept r.2.2
        else coreAccept s

/-- `core_AcceptBlock` of a block that does not get into the best chain: it fails, or the work of
    its chain is not enough. -/
def coreRefuse (ok : Bool) (s : SpringState) : Option (Bool × SpringState) := some (ok, s)

def coreConnect (block : SpringBlock base) (fuel : Nat) (s : SpringState) :
    Option (Bool × SpringState) :=
  (connectBlockTables .shc fuel block.nHeight.toNat s.tables block.vtx).map fun tables =>
    (true, { s with tables })

def blockRetractSpringMatrix (getTransaction : TxLookup) (nHeight : UInt32) (s : SpringState)
    (tx : CTransaction) : SpringState :=
  if nHeight ≠ tx.matrix.nHeight then s
  else
    match getTxOfIdent getTransaction s.tables.mapIdent tx.matrix.hRef with
    | none => s
    | some idTx =>
      { s with field := springLocSet s.field (env.springLocBits idTx.certificate.geo) }

def carriesSpringMatrix (tx : CTransaction) : Bool :=
  (asServer tx).isCoinBase && isFlag tx Wire.txfMatrix && tx.matrix.nType == mSpring

def retractLoop (block : SpringBlock base) (s : SpringState) : SpringState :=
  if ! block.hasPrev then s
  else
    block.vtx.foldl (fun s x =>
      if carriesSpringMatrix x.tx then
        blockRetractSpringMatrix env block.retracting block.nHeight s x.tx
      else s) s

/-- `SHCBlock::DisconnectBlock`, as far as it writes these tables. -/
def disconnectBlock (s : SpringState) (block : SpringBlock base) : Option SpringState :=
  let s := retractLoop env block s
  (disconnectBlockTables .shc s.tables block.vtx).map fun tables => { s with tables }

end

/-! ## Runs -/

/-- What happens to the blocks of a node. A reorganisation is a block that is refused at first, the
    blocks that are disconnected, and those that are connected in their place. -/
inductive SpringEvent (base : RecordEnv) where
  /-- A block is submitted and does not become part of the best chain. -/
  | refuse (block : SpringBlock base) (ok : Bool)
  | connect (block : SpringBlock base) (fuel : Nat)
  /-- A block that was submitted before is connected. -/
  | reconnect (block : SpringBlock base) (fuel : Nat)
  /-- The last block is disconnected. -/
  | disconnect

/-- The state, and the blocks that were connected since the run began, the last one first. -/
structure SpringChain (base : RecordEnv) where
  state : SpringState
  connected : List (SpringBlock base)

def springStep (env : SpringEnv) (c : SpringChain base) :
    SpringEvent base → Option (SpringChain base)
  | .refuse block ok =>
    (acceptBlock env (coreRefuse ok) c.state block).map fun r => { c with state := r.2 }
  | .connect block fuel =>
    (acceptBlock env (coreConnect block fuel) c.state block).map fun r =>
      { state := r.2, connected := if r.1 then block :: c.connected else c.connected }
  | .reconnect block fuel =>
    (coreConnect block fuel c.state).map fun r =>
      { state := r.2, connected := block :: c.connected }
  | .disconnect =>
    match c.connected with
    | [] => none
    | block :: connected =>
      (disconnectBlock env c.state block).map fun state => { state, connected }

end ShareCoin.Ext
