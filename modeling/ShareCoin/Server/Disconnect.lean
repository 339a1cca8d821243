import ShareCoin.Server.Connect

/-!
# `coin.cpp`, `txmempool.cpp` — disconnecting transactions

`core_DisconnectInputs` takes a transaction out of the stores: it looks its previous transactions up
again, resets the markers of the outputs it spent, and erases its own records. Two callers use it: a
block that leaves the chain disconnects its transactions, the last one first, and the memory pool
reverts an active transaction that it drops.

The results `false` of the steps are ignored by their callers, and so they are here. Writes to the
coin chain succeed.
-/

namespace ShareCoin.Server

/-! ## One transaction -/

/-- What `FillInputs` asks of an output when `fAllowSpent` is off. -/
def isUnspent (env : TxEnv) (db : ChainDb) (prevTx : CTransaction) (n : Nat) : Bool :=
  match readCoins env db prevTx with
  | none => false
  | some vOuts => vOuts[n]? == some 0

/-- The transaction that `FillInputs` finds: in the chain, or else in the active queue. -/
def lookupTx (env : TxEnv) (db : ChainDb) (pool : CPool) (hash : Uint256) : Option CTransaction :=
  ((getTransaction env db hash).map Prod.fst).or (findTx env pool.active hash)

/-- The loop of `CWallet::FillInputs`. It stops at the first input whose transaction is unknown; the
    cache keeps what was found before. -/
def fillInputs (env : TxEnv) (db : ChainDb) (pool : CPool) (fAllowSpent : Bool) :
    List CTxIn → TxCache → Bool × TxCache
  | [], inputs => (true, inputs)
  | txin :: vin, inputs =>
    match inputs txin.prevout.hash with
    | some _ => fillInputs env db pool fAllowSpent vin inputs
    | none =>
      match lookupTx env db pool txin.prevout.hash with
      | none => (false, inputs)
      | some prevTx =>
        if ! fAllowSpent && ! isUnspent env db prevTx txin.prevout.n.toNat then (false, inputs)
        else fillInputs env db pool fAllowSpent vin
          (Function.update inputs txin.prevout.hash (some prevTx))

/-- `core_DisconnectCoinInputs`. Whose spend the marker records is not looked at. -/
def disconnectCoinInputs (env : TxEnv) (db : ChainDb) (prevTx : CTransaction)
    (prevout : COutPoint) : ChainDb :=
  match readCoins env db prevTx with
  | none => db
  | some vOuts =>
    match vOuts[prevout.n.toNat]? with
    | none => db
    | some marker =>
      if marker = 0 then db
      else (writeCoins env true db prevTx (vOuts.set prevout.n.toNat 0)).getD db

/-- The loop over the inputs. -/
def releaseInputs (env : TxEnv) (inputs : TxCache) (vin : List CTxIn) (db : ChainDb) : ChainDb :=
  vin.foldl (fun db txin =>
    match inputs txin.prevout.hash with
    | none => db
    | some prevTx => disconnectCoinInputs env db prevTx txin.prevout) db

section

variable (env : TxEnv) (pool : CPool) (db : ChainDb)

/-- `core_DisconnectInputs`, without the wallet and the extension tables. -/
def disconnectInputs (tx : CTransaction) : ChainDb :=
  let db :=
    if tx.isCoinBase then db
    else
      let (_, inputs) := fillInputs env db pool true tx.vin fun _ => none
      releaseInputs env inputs tx.vin db
  eraseTx env (eraseCoins env db tx) tx

/-- `core_DisconnectBlock`: in reverse order. -/
def disconnectBlock (block : CBlock) : ChainDb :=
  block.vtx.foldr (fun tx db => disconnectInputs env pool db tx) db

/-! ## The memory pool -/

end

structure PoolState where
  db : ChainDb
  pool : CPool := {}

section

variable (env : TxEnv)

def eraseEntry (hash : Uint256) (queue : List CPoolTx) : List CPoolTx :=
  queue.filter fun ptx => env.getHash ptx.tx != hash

/-- The hashes of a queue that spend the same output, once for each input that does. -/
def conflicts (prevout : COutPoint) (queue : List CPoolTx) : List Uint256 :=
  queue.flatMap fun ptx =>
    (ptx.tx.vin.filter fun txin => txin.prevout == prevout).map fun _ => env.getHash ptx.tx

variable (s : PoolState)

/-- `CPool::RemoveTx`. An active transaction is reverted; it is still in its queue at that time. -/
def removeTx (hash : Uint256) : PoolState :=
  match findEntry env s.pool.active hash with
  | some ptx =>
    { db := disconnectInputs env s.pool s.db ptx.tx
      pool := { s.pool with active := eraseEntry env hash s.pool.active } }
  | none =>
    if (findEntry env s.pool.pending hash).isSome then
      { s with pool := { s.pool with pending := eraseEntry env hash s.pool.pending } }
    else if (findEntry env s.pool.overflow hash).isSome then
      { s with pool := { s.pool with overflow := eraseEntry env hash s.pool.overflow } }
    else if (findEntry env s.pool.stale hash).isSome then
      { s with pool := { s.pool with stale := eraseEntry env hash s.pool.stale } }
    else { s with pool := { s.pool with inval := s.pool.inval.filter (· != hash) } }

def removeTxWithInput (txin : CTxIn) : PoolState :=
  (conflicts env txin.prevout s.pool.active ++ conflicts env txin.prevout s.pool.overflow ++
    conflicts env txin.prevout s.pool.pending).foldl (removeTx env) s

/-- `CPool::PopTx`. The stale queue is not touched. -/
def popTx (tx : CTransaction) : PoolState :=
  let hash := env.getHash tx
  if tx.isCoinBase || (s.pool.getTx env hash).isNone then s
  else { s with pool := { s.pool with
    inval := s.pool.inval.filter (· != hash)
    pending := eraseEntry env hash s.pool.pending
    overflow := eraseEntry env hash s.pool.overflow
    active := eraseEntry env hash s.pool.active } }

/-- `CPool::Commit` of a block in the table, up to `PurgeOverflowTx`: the transactions of the block
    leave the pool, and then those that spend one of its inputs. -/
def commitPool (vtx : List CTransaction) : PoolState :=
  (vtx.flatMap CTransaction.vin).foldl (removeTxWithInput env) (vtx.foldl (popTx env) s)

end

end ShareCoin.Server
