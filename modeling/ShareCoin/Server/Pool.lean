import ShareCoin.Server.Disconnect

/-!
# `txmempool.cpp` — accepting a transaction into the active queue

An entry of the pool is a transaction with its previous transactions, as far as they have been
looked up. `AddActiveTx` looks the others up, checks the inputs, removes active transactions that
spend the same outputs, and inserts the entry.

To look up a previous transaction that is neither active nor in the chain, `FillInputs` tries to
make it active first: one that waits in the overflow queue, or an orphan of the pending queue, whose
own inputs are looked up in the same way. So the two functions call each other, and `fuel` bounds
how deep; there is no value where it does not suffice.

The wallet, the fee estimator and the flags of an entry are left out. `AcceptTx` returns true for
every coin. The tables of an orphan are cleared before they are used again, so they are not kept.
-/

namespace ShareCoin.Server

/-! ## Queues -/

/-- What is asked of other parts of the server. `txHeight` is the height of the block that
    `GetBlockIndexByTx` finds. -/
structure PoolEnv extends TxEnv where
  maxWeight : Int
  maxQueueMem : Int
  bestHeight : Nat
  coinbaseMaturity : Nat
  txHeight : Uint256 → Option Nat
  checkFinal : CTransaction → Bool
  isExpired : CTransaction → Bool
  verifyStandards : CTransaction → TxCache → Bool
  verifySignature : CTransaction → CTransaction → Nat → Bool

variable (env : PoolEnv)

def insertEntry (ptx : CPoolTx) : List CPoolTx → List CPoolTx
  | [] => [ptx]
  | x :: xs =>
    if env.getHash ptx.tx < env.getHash x.tx then ptx :: x :: xs
    else if env.getHash ptx.tx = env.getHash x.tx then ptx :: xs
    else x :: insertEntry ptx xs

def activeWeight (s : PoolState) : Int := (s.pool.active.map CPoolTx.nWeight).sum

section

variable (s : PoolState) (ptx : CPoolTx)

def addOverflowTx : Bool × PoolState :=
  if (findEntry env.toTxEnv s.pool.overflow (env.getHash ptx.tx)).isSome then (true, s)
  else if env.maxQueueMem < (s.pool.overflow.map CPoolTx.nTxSize).sum + ptx.nTxSize then (false, s)
  else (true, { s with pool := { s.pool with overflow := insertEntry env ptx s.pool.overflow } })

def addPendingTx : PoolState :=
  if (findEntry env.toTxEnv s.pool.pending (env.getHash ptx.tx)).isSome then s
  else
    let pending := s.pool.pending.filter fun ptx => !env.isExpired ptx.tx
    { s with pool := { s.pool with pending := insertEntry env ptx pending } }

/-- `CPool::AddInvalTx`: the smallest hashes are dropped if there are too many. -/
def addInvalTx : PoolState :=
  let hash := env.getHash ptx.tx
  let inval :=
    if s.pool.inval.contains hash then s.pool.inval
    else s.pool.inval.filter (· < hash) ++ hash :: s.pool.inval.filter (hash < ·)
  { s with pool := { s.pool with inval := inval.drop (inval.length - 1000) } }

end

/-! ## Checks -/

/-- `CPool::AreInputsSpent`, from an input on. Where the markers cannot be read, or there is none
    for the output, it returns what `error` returns, which is false. -/
def areInputsSpent (txEnv : TxEnv) (db : ChainDb) (mapInputs : TxCache) : List CTxIn → Bool
  | [] => false
  | txin :: vin =>
    match mapInputs txin.prevout.hash with
    | none => areInputsSpent txEnv db mapInputs vin
    | some prevTx =>
      match readCoins txEnv db prevTx with
      | none => false
      | some vOuts =>
        match vOuts[txin.prevout.n.toNat]? with
        | none => false
        | some marker => if marker ≠ 0 then true else areInputsSpent txEnv db mapInputs vin

/-- How the loop "resolve script" ends. -/
inductive ScriptVerdict where
  | pass | invalid | immature
  deriving DecidableEq

def resolveScripts (tx : CTransaction) (mapInputs : TxCache) : List (CTxIn × Nat) → ScriptVerdict
  | [] => .pass
  | (txin, i) :: rest =>
    match mapInputs txin.prevout.hash with
    | none => resolveScripts tx mapInputs rest
    | some txFrom =>
      if txFrom.vout.length ≤ txin.prevout.n.toNat || !env.verifySignature txFrom tx i then .invalid
      else
        match if txFrom.isCoinBase then env.txHeight txin.prevout.hash else none with
        | some nHeight =>
          let nDepth : Int := ((env.bestHeight : Int) + 1 - nHeight) % 2 ^ 32
          if nDepth < env.coinbaseMaturity then .immature else resolveScripts tx mapInputs rest
        | none => resolveScripts tx mapInputs rest

def isNewerThan (tx old : CTransaction) : Bool :=
  if tx.vin.map CTxIn.prevout ≠ old.vin.map CTxIn.prevout then false
  else
    ((tx.vin.zip old.vin).foldl (fun (r : Bool × UInt32) (ins : CTxIn × CTxIn) =>
      if ins.1.nSequence = ins.2.nSequence then r
      else
        let r := if ins.1.nSequence ≤ r.2 then (false, ins.1.nSequence) else r
        if ins.2.nSequence < r.2 then (true, ins.2.nSequence) else r) (false, 0xFFFFFFFF)).1

/-- Whether the map of an entry has an output that the transaction spends. -/
def spendsMapped (ptx : CPoolTx) (tx : CTransaction) : Bool :=
  tx.vin.any fun txin => ptx.mapNextTx.contains txin.prevout

/-- `CPool::ResolveConflicts`, if it returns true, up to the map that it makes. -/
def resolveConflicts (s : PoolState) (tx : CTransaction) : Option PoolState :=
  let vRemove := s.pool.active.filter fun ptx => spendsMapped ptx tx
  if vRemove.any fun ptx => isNewerThan ptx.tx tx then none
  else some (vRemove.foldl (fun s ptx => removeTx env.toTxEnv s (env.getHash ptx.tx)) s)

/-! ## `FillInputs` and `AddActiveTx` -/

/-- What looking up the inputs returns: the verdict, the previous transactions, and the state. -/
abbrev Filled := Bool × TxCache × PoolState

section

variable (fill : PoolState → CTransaction → TxCache → Option Filled) (s : PoolState)
include fill

def addActiveWith (ptx : CPoolTx) : Option (Bool × PoolState) :=
  let hash := env.getHash ptx.tx
  if (findEntry env.toTxEnv s.pool.active hash).isSome then some (true, s)
  else if env.maxWeight < activeWeight s + ptx.nWeight then some (addOverflowTx env s ptx)
  else
    let s := { s with pool := { s.pool with
      overflow := eraseEntry env.toTxEnv hash s.pool.overflow
      stale := eraseEntry env.toTxEnv hash s.pool.stale } }
    (fill s ptx.tx ptx.mapInputs).map fun (ok, mapInputs, s) =>
      let ptx := { ptx with mapInputs }
      if !ok then (false, addPendingTx env s ptx)
      else if areInputsSpent env.toTxEnv s.db mapInputs ptx.tx.vin then
        (false, addInvalTx env s ptx)
      else
        match resolveScripts env ptx.tx mapInputs (ptx.tx.vin.zipIdx.drop 1) with
        | .invalid => (false, addInvalTx env s ptx)
        | .immature => (false, (addOverflowTx env s ptx).2)
        | .pass =>
          match resolveConflicts env s ptx.tx with
          | none => (false, addInvalTx env s ptx)
          | some s =>
            let ptx :=
              { ptx with mapNextTx := ptx.mapNextTx ++ ptx.tx.vin.map CTxIn.prevout }
            (true, { s with pool := { s.pool with active := insertEntry env ptx s.pool.active } })

/-- A previous transaction that waits in another queue is made active: the transaction, if that
    succeeds, and the state. -/
def recoverTx (hash : Uint256) : Option (Option CTransaction × PoolState) :=
  match findEntry env.toTxEnv s.pool.overflow hash with
  | some ptx =>
    if env.checkFinal ptx.tx && decide (env.maxWeight ≤ activeWeight s + ptx.nWeight) then
      (addActiveWith env fill (removeTx env.toTxEnv s hash) ptx).map fun (ok, s) =>
        (if ok then some ptx.tx else none, s)
    else some (none, s)
  | none =>
    match findEntry env.toTxEnv s.pool.pending hash with
    | none => some (none, s)
    | some orphan => do
      let (ok, mapInputs, s) ← fill s orphan.tx fun _ => none
      if !ok || !env.verifyStandards orphan.tx mapInputs then some (none, s)
      else
        let (ok, s) ← addActiveWith env fill s { orphan with mapInputs }
        if ok then
          let pending := eraseEntry env.toTxEnv hash s.pool.pending
          some (some orphan.tx, { s with pool := { s.pool with pending } })
        else some (none, s)

end

def lookupActive (s : PoolState) (hash : Uint256) : Option CTransaction :=
  (findTx env.toTxEnv s.pool.active hash).or
    ((getTransaction env.toTxEnv s.db hash).map Prod.fst)

def fillLoop (recover : PoolState → Uint256 → Option (Option CTransaction × PoolState)) :
    List CTxIn → TxCache → PoolState → Option Filled
  | [], mapInputs, s => some (true, mapInputs, s)
  | txin :: vin, mapInputs, s =>
    let hash := txin.prevout.hash
    if (mapInputs hash).isSome then fillLoop recover vin mapInputs s
    else
      match lookupActive env s hash with
      | some prevTx => fillLoop recover vin (Function.update mapInputs hash (some prevTx)) s
      | none =>
        (recover s hash).bind fun (found, s) =>
          match found with
          | none => some (false, mapInputs, s)
          | some prevTx => fillLoop recover vin (Function.update mapInputs hash (some prevTx)) s

def poolFillInputs : Nat → PoolState → CTransaction → TxCache → Option Filled
  | 0, _, _, _ => none
  | fuel + 1, s, tx, mapInputs =>
    fillLoop env (recoverTx env (poolFillInputs fuel)) tx.vin mapInputs s

def addActiveTx (fuel : Nat) (s : PoolState) (ptx : CPoolTx) : Option (Bool × PoolState) :=
  addActiveWith env (poolFillInputs env fuel) s ptx

end ShareCoin.Server
