import ShareCoin.Server.Pool
import Mathlib.Algebra.Order.Ring.Unbundled.Rat

/-!
# `txmempool.cpp` — the calls of the pool

`AddTx` makes an entry of a transaction and sends it to a queue; `PurgeActiveTx` and
`PurgeOverflowTx` move entries between the queues, and `Commit` takes out what a block spends. They
all reach the active queue through `AddActiveTx`.

Between two calls time goes by and blocks come in, so a call has its own environment and its own
stores. Colors, flags, priorities and the fee estimator are left out; the order that `sort` makes is
any order.
-/

namespace ShareCoin.Server

/-- What the calls ask of other parts of the server, beyond `AddActiveTx`. `overflowExpired` is
    false for a local transaction. -/
structure PoolCallEnv extends PoolEnv where
  enforceCoinStandards : CTransaction → CTransaction
  verifyTx : CTransaction → Bool
  getTransactionWeight : CTransaction → Nat
  getSigOpCost : CTransaction → TxCache → Int
  maxSigOpCost : Int
  softWeight : Int
  softSigOpCost : Int
  getFee : CTransaction → TxCache → Int
  minRelayTxFee : Int
  maxFreeTxSize : Int
  isFreeRelay : CTransaction → TxCache → Bool
  calculateSoftFee : CTransaction → Int
  activeExpired : CTransaction → Bool
  overflowExpired : CTransaction → Bool
  sort : List CPoolTx → List CPoolTx
  sort_perm : ∀ queue, (sort queue).Perm queue

variable (env : PoolCallEnv) (fuel : Nat)

def addStaleTx (s : PoolState) (ptx : CPoolTx) : PoolState :=
  if (findEntry env.toTxEnv s.pool.stale (env.getHash ptx.tx)).isSome then s
  else if env.maxQueueMem < (s.pool.stale.map CPoolTx.nTxSize).sum + ptx.nTxSize then s
  else { s with pool := { s.pool with stale := insertEntry env.toPoolEnv ptx s.pool.stale } }

/-- `CPool::PurgeActiveTx`: one entry of the overflow queue is tried, and one that has expired goes
    to the stale queue. -/
def purgeActiveTx (s : PoolState) : Option PoolState :=
  let promoted :=
    match (env.sort s.pool.overflow).find? fun ptx =>
        env.checkFinal ptx.tx && decide (activeWeight s + ptx.nWeight < env.maxWeight) with
    | none => some s
    | some ptx =>
      (addActiveTx env.toPoolEnv fuel (removeTx env.toTxEnv s (env.getHash ptx.tx)) ptx).map
        Prod.snd
  promoted.map fun s =>
    match s.pool.active.find? fun ptx => env.activeExpired ptx.tx with
    | none => s
    | some ptx => addStaleTx env (removeTx env.toTxEnv s (env.getHash ptx.tx)) ptx

def overflowLoop : List CPoolTx → Int → PoolState → Option PoolState
  | [], _, s => some s
  | ptx :: rest, nWeight, s =>
    let hash := env.getHash ptx.tx
    match findEntry env.toTxEnv s.pool.overflow hash with
    | none => overflowLoop rest nWeight s
    | some ptx =>
      if env.maxWeight < nWeight + ptx.nWeight then overflowLoop rest nWeight s
      else do
        let (_, s) ← addActiveTx env.toPoolEnv fuel s ptx
        overflowLoop rest
          (if (findEntry env.toTxEnv s.pool.active hash).isSome then nWeight + ptx.nWeight
            else nWeight) s

section

variable (s : PoolState)

def purgeOverflowTx : Option PoolState :=
  let overflow := s.pool.overflow.filter fun ptx => !env.overflowExpired ptx.tx
  let s := { s with pool := { s.pool with overflow } }
  overflowLoop env fuel (env.sort (overflow.filter fun ptx => env.checkFinal ptx.tx))
    (activeWeight s) s

def purgePendingTx : PoolState :=
  { s with pool := { s.pool with
    pending := s.pool.pending.filter fun ptx => !env.isExpired ptx.tx } }

def addTx (tx : CTransaction) (isLocal : Bool) : Option (Bool × PoolState) :=
  let tx := env.enforceCoinStandards tx
  let hash := env.getHash tx
  if s.pool.inval.contains hash || (s.pool.getTx env.toTxEnv hash).isSome ||
      (getTransaction env.toTxEnv s.db hash).isSome || !env.verifyTx tx then some (false, s)
  else do
    let (hasInputs, mapInputs, s) ← poolFillInputs env.toPoolEnv fuel s tx fun _ => none
    let nWeight : Int := env.getTransactionWeight tx
    let ptx : CPoolTx := { tx, mapInputs, nWeight, nTxSize := (nWeight + 3) / 4 }
    let nSigOpCost := env.getSigOpCost tx mapInputs
    if env.maxWeight < nWeight || env.maxSigOpCost < nSigOpCost then
      some (false, addInvalTx env.toPoolEnv s ptx)
    else if !hasInputs then some (false, addPendingTx env.toPoolEnv s ptx)
    else if !env.verifyStandards tx mapInputs then some (false, addInvalTx env.toPoolEnv s ptx)
    else
      let nFee := env.getFee tx mapInputs
      if nFee < env.minRelayTxFee then
        if env.maxFreeTxSize < nWeight || !env.isFreeRelay tx mapInputs then
          some (false, addInvalTx env.toPoolEnv s ptx)
        else some (addOverflowTx env.toPoolEnv s ptx)
      else if !isLocal && (decide (env.softWeight < nWeight) ||
          decide (env.softSigOpCost < nSigOpCost)) then some (addOverflowTx env.toPoolEnv s ptx)
      else if nFee < env.calculateSoftFee tx || !env.checkFinal tx then
        some (addOverflowTx env.toPoolEnv s ptx)
      else do
        let s ← purgeActiveTx env fuel s
        addActiveTx env.toPoolEnv fuel s ptx

/-- `CPool::Commit` of a block that has an index. -/
def commitTxs (vtx : List CTransaction) : Option PoolState :=
  purgeOverflowTx env fuel (commitPool env.toTxEnv s vtx)

end

/-! ## Calls and runs -/

inductive PoolOp where
  | addTx (tx : CTransaction) (isLocal : Bool)
  | removeTx (hash : Uint256)
  | commit (vtx : List CTransaction)
  | purgeActiveTx
  | purgeOverflowTx
  | purgePendingTx

/-- A call: what the server answers at its time, and the stores that it finds. -/
structure PoolCall where
  env : PoolCallEnv
  db : ChainDb
  fuel : Nat
  op : PoolOp

def PoolCall.step (c : PoolCall) (pool : CPool) : Option PoolState :=
  match c.op with
  | .addTx tx isLocal => (Server.addTx c.env c.fuel ⟨c.db, pool⟩ tx isLocal).map Prod.snd
  | .removeTx hash => some (Server.removeTx c.env.toTxEnv ⟨c.db, pool⟩ hash)
  | .commit vtx => commitTxs c.env c.fuel ⟨c.db, pool⟩ vtx
  | .purgeActiveTx => Server.purgeActiveTx c.env c.fuel ⟨c.db, pool⟩
  | .purgeOverflowTx => Server.purgeOverflowTx c.env c.fuel ⟨c.db, pool⟩
  | .purgePendingTx => some (Server.purgePendingTx c.env ⟨c.db, pool⟩)

def poolRun (calls : List PoolCall) : Option CPool :=
  Lib.exec (fun pool c => (c.step pool).map PoolState.pool) {} calls

/-! ## The order of the active queue -/

structure RankedTx extends CPoolTx where
  dFeePriority : Rat

section

variable (txEnv : TxEnv) (ptx other : RankedTx)

/-- `CPoolTx::IsDependent`: the *other* entry spends an output of this one. -/
def isDependent : Bool :=
  (other.mapInputs (txEnv.getHash ptx.tx)).isSome

def poolLess : Bool :=
  if isDependent txEnv ptx other then true else decide (other.dFeePriority < ptx.dFeePriority)

/-- What `GetActiveTx` may return: the transactions of the queue as some `sort` leaves them. -/
def GetActiveTx (active : List RankedTx) (vTx : List CTransaction) : Prop :=
  ∃ vPoolTx : List RankedTx, vPoolTx.Perm active ∧
    vPoolTx.Pairwise (fun a b => poolLess txEnv b a = false) ∧ vTx = vPoolTx.map (·.tx)

end

end ShareCoin.Server
