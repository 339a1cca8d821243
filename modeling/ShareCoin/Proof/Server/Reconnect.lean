import ShareCoin.Proof.Server.Disconnect
import Mathlib.Data.List.TakeWhile

/-!
# Connecting a block and taking it back

Disconnecting a block takes its transactions out of the stores, the last one first, and each of them
looks its previous transactions up again in stores that the walk has already changed. A previous
transaction that stands later in the block is gone by then, and the inputs after it release nothing.

The result is exact. It speaks of the stores right after the block was written (`storedDb`): there
the tx chain still has all references, and the walk takes one away for every transaction it has
passed (`unreferenced`).
-/

namespace ShareCoin.Server

open Lib List Option Function

variable {hash hashBlock : Uint256} {pre post : List CTransaction}

/-! ## The walk back -/

section Back

variable {env : TxEnv} {pool : CPool} {db : ChainDb}

/-- The stores after the given transactions have been disconnected, the last one first. -/
def walkedBack (env : TxEnv) (pool : CPool) (db : ChainDb) (txs : List CTransaction) : ChainDb :=
  txs.foldr (fun tx db => disconnectInputs env pool db tx) db

/-- One of the transactions releases the output when its turn comes. -/
def ReleasedIn (env : TxEnv) (pool : CPool) (db : ChainDb) : List CTransaction → COutPoint → Prop
  | [], _ => False
  | tx :: txs, o =>
    Releases env (walkedBack env pool db txs) pool tx o ∨ ReleasedIn env pool db txs o

/-- Everything the walk leaves. -/
structure WalkedBack (env : TxEnv) (pool : CPool) (db : ChainDb) (txs : List CTransaction)
    (db' : ChainDb) : Prop where
  blocks_eq : db'.blocks = db.blocks
  txs_eq : ∀ hash, db'.txs hash = (db.txs hash).drop ((txs.map env.getHash).count hash)
  gone : ∀ hash ∈ txs.map env.getHash, db'.coins hash = none
  lengths : ∀ hash, hash ∉ txs.map env.getHash →
    (db'.coins hash).map List.length = (db.coins hash).map List.length
  zero : ∀ o : COutPoint, o.hash ∉ txs.map env.getHash → ReleasedIn env pool db txs o →
    db'.marker o = 0
  same : ∀ o : COutPoint, o.hash ∉ txs.map env.getHash → ¬ ReleasedIn env pool db txs o →
    db'.marker o = db.marker o

theorem walkedBack_spec (txs : List CTransaction) :
    WalkedBack env pool db txs (walkedBack env pool db txs) := by
  induction txs with
  | nil =>
    exact ⟨rfl, fun _ => rfl, fun _ h => absurd h not_mem_nil, fun _ _ => rfl,
      fun _ _ h => h.elim, fun _ _ _ => rfl⟩
  | cons tx txs ih =>
    have hd : Disconnected env (walkedBack env pool db txs) pool tx
        (walkedBack env pool db (tx :: txs)) := disconnectInputs_spec
    -- the transactions behind it have been taken out when its turn comes
    refine ⟨hd.blocks_eq.trans ih.blocks_eq, ?_, ?_,
      ?_, ?_, ?_⟩
    · intro hash
      rw [map_cons]
      by_cases heq : hash = env.getHash tx
      · rw [heq, hd.txs_self, ih.txs_eq, count_cons_self, tail_drop]
      · rw [hd.txs_ne hash heq, ih.txs_eq, count_cons_of_ne (Ne.symm heq)]
    · intro hash hmem
      by_cases heq : hash = env.getHash tx
      · rw [heq, hd.coins_self]
      · rw [map_cons, mem_cons] at hmem
        have hlen := hd.lengths hash heq
        rw [ih.gone hash (hmem.resolve_left heq)] at hlen
        simpa using hlen
    · intro hash hmem
      rw [map_cons, mem_cons, not_or] at hmem
      rw [hd.lengths hash hmem.1, ih.lengths hash hmem.2]
    · intro o ho hrel
      rw [map_cons, mem_cons, not_or] at ho
      by_cases hfirst : Releases env (walkedBack env pool db txs) pool tx o
      · exact hd.zero o (.inr hfirst)
      · rw [hd.same o ho.1 hfirst]
        exact ih.zero o ho.2 (hrel.resolve_left hfirst)
    · intro o ho hrel
      rw [map_cons, mem_cons, not_or] at ho
      rw [ReleasedIn, not_or] at hrel
      rw [hd.same o ho.1 hrel.1, ih.same o ho.2 hrel.2]

/-- The tx chain without one reference for each of the given transactions. -/
def unreferenced (env : TxEnv) (db : ChainDb) (txs : List CTransaction) : ChainDb :=
  { db with txs := fun hash => (db.txs hash).drop ((txs.map env.getHash).count hash) }

theorem lookupTx_walkedBack (txs : List CTransaction) (hash : Uint256) :
    lookupTx env (walkedBack env pool db txs) pool hash
      = lookupTx env (unreferenced env db txs) pool hash := by
  have hw : WalkedBack env pool db txs _ := walkedBack_spec txs
  have hget : getTransaction env (walkedBack env pool db txs) hash
      = getTransaction env (unreferenced env db txs) hash :=
    getTransaction_congr (by rw [hw.txs_eq]; rfl) hw.blocks_eq
  rw [lookupTx, lookupTx, hget]

theorem resolved_walkedBack (txs : List CTransaction) (vin : List CTxIn) :
    resolved env (walkedBack env pool db txs) pool vin
      = resolved env (unreferenced env db txs) pool vin := by
  unfold resolved
  simp only [lookupTx_walkedBack]

theorem releasedIn_iff {txs : List CTransaction} {o : COutPoint} :
    ReleasedIn env pool db txs o ↔ ∃ pre tx post, txs = pre ++ tx :: post ∧
      Releases env (walkedBack env pool db post) pool tx o := by
  induction txs with
  | nil => simp [ReleasedIn]
  | cons t txs ih =>
    rw [ReleasedIn, ih, exists_split_cons]

theorem lookup_of_mem_resolved {vin : List CTxIn} (h : hash ∈ resolved env db pool vin) :
    ∃ tx, lookupTx env db pool hash = some tx := by
  have hfound := mem_takeWhile_imp h
  exact isSome_iff_exists.mp hfound

end Back

/-! ## Known transactions -/

section Known

variable {env : ConnectEnv} {iface : CIface} {node : Node} {block : CBlock} {pindex : CBlockIndex}
  {tx : CTransaction}

/-- The transactions that a search can find: of a stored block, of the pool, or of the block. -/
def Known (node : Node) (block : CBlock) (tx : CTransaction) : Prop :=
  (∃ height b, node.db.blocks height = some b ∧ tx ∈ b.vtx) ∨
    (∃ ptx, (ptx ∈ node.pool.active ∨ ptx ∈ node.pool.pending ∨ ptx ∈ node.pool.overflow ∨
      ptx ∈ node.pool.stale) ∧ ptx.tx = tx) ∨
    tx ∈ block.vtx

def OutputsAgree (env : TxEnv) (node : Node) (block : CBlock) : Prop :=
  ∀ t t', Known node block t → Known node block t' → env.getHash t = env.getHash t' →
    t.vout.length = t'.vout.length

theorem getTransaction_mem {env : TxEnv} {db : ChainDb}
    (h : getTransaction env db hash = some (tx, hashBlock)) :
    ∃ height b, db.blocks height = some b ∧ tx ∈ b.vtx := by
  unfold getTransaction at h
  split at h
  · cases h
  · rename_i height rest hrefs
    obtain ⟨b, hb, h⟩ := bind_eq_some_iff.mp h
    obtain ⟨tx', htx', h⟩ := bind_eq_some_iff.mp h
    cases h
    exact ⟨height, b, hb, mem_of_find?_eq_some htx'⟩

theorem findPrevTx_known (h : findPrevTx env node (some block) hash = some (tx, hashBlock)) :
    Known node block tx := by
  unfold findPrevTx at h
  split at h
  · rename_i found hfound
    cases h
    exact .inl (getTransaction_mem hfound)
  · split at h
    · rename_i tx' htx'
      cases h
      unfold CPool.getTx at htx'
      rw [or_eq_some_iff, or_eq_some_iff, or_eq_some_iff] at htx'
      rcases htx' with (h | ⟨-, h⟩) | ⟨-, h | ⟨-, h⟩⟩ <;>
        obtain ⟨ptx, hptx, rfl⟩ := map_eq_some_iff.mp h <;>
        exact .inr (.inl ⟨ptx, by simp [mem_of_find?_eq_some hptx], rfl⟩)
    · obtain ⟨tx', htx', heq⟩ := map_eq_some_iff.mp h
      cases heq
      exact .inr (.inr (mem_of_find?_eq_some htx'))

theorem storedDb_blocks {height : Nat} {b : CBlock}
    (h : (storedDb env iface node.db block pindex).blocks height = some b) :
    node.db.blocks height = some b ∨ b = block := by
  unfold storedDb at h
  cases hprev : pindex.pprev with
  | none =>
    rw [hprev] at h
    exact .inl h
  | some p =>
    rw [hprev] at h
    unfold withBlock at h
    split_ifs at h
    · exact .inl h
    · dsimp only at h
      by_cases heq : height = commitHeight env iface pindex
      · rw [heq, update_self] at h
        cases h
        exact .inr rfl
      · rw [update_of_ne heq] at h
        exact .inl h

theorem lookupTx_known {txs : List CTransaction} (h : lookupTx env.toTxEnv
      (unreferenced env.toTxEnv (storedDb env iface node.db block pindex) txs) node.pool hash
        = some tx) : Known node block tx := by
  unfold lookupTx at h
  rw [or_eq_some_iff] at h
  rcases h with h | ⟨-, h⟩
  · obtain ⟨⟨tx', hashBlock⟩, hget, heq⟩ := map_eq_some_iff.mp h
    cases heq
    obtain ⟨height, b, hb, hmem⟩ := getTransaction_mem hget
    rcases storedDb_blocks hb with hb | rfl
    · exact .inl ⟨height, b, hb, hmem⟩
    · exact .inr (.inr hmem)
  · obtain ⟨ptx, hptx, rfl⟩ := map_eq_some_iff.mp h
    exact .inr (.inl ⟨ptx, .inl (mem_of_find?_eq_some hptx), rfl⟩)

end Known

/-! ## There and back -/

/-- The markers of the transactions that are not in the block are as before, and the records of its
    own transactions are gone. -/
def Restores (env : TxEnv) (block : CBlock) (before after : ChainDb) : Prop :=
  (∀ o : COutPoint, o.hash ∉ block.vtx.map env.getHash → after.marker o = before.marker o) ∧
    ∀ tx ∈ block.vtx, after.coins (env.getHash tx) = none ∧ after.txs (env.getHash tx) = []

/-- One of the transactions spends the output, and finds its transaction again when the ones behind
    it have lost a reference; for that all its inputs before must be found, too. -/
def Released (env : TxEnv) (pool : CPool) (stored : ChainDb) (vtx : List CTransaction)
    (o : COutPoint) : Prop :=
  ∃ pre tx post, vtx = pre ++ tx :: post ∧ tx.isCoinBase = false ∧
    (∃ txin ∈ tx.vin, txin.prevout = o) ∧
    o.hash ∈ resolved env (unreferenced env stored post) pool tx.vin

section ThereAndBack

variable {env : ConnectEnv} {iface : CIface} {node node' : Node} {block : CBlock}
  {pindex : CBlockIndex} {o : COutPoint}

theorem Released.spent {pool : CPool} {stored : ChainDb} {vtx : List CTransaction}
    (h : Released env.toTxEnv pool stored vtx o) : o ∈ (spends vtx).map Prod.snd := by
  obtain ⟨pre, tx, post, rfl, hcb, hin, -⟩ := h
  refine List.mem_map.mpr ⟨(tx, o), mem_spends.mpr ⟨?_, hcb, hin⟩, rfl⟩
  exact mem_append_right _ mem_cons_self

theorem BlockAccepted.lookupTx_eq (h : BlockAccepted env iface node block pindex node')
    (txs : List CTransaction) (hash : Uint256) :
    lookupTx env.toTxEnv (unreferenced env.toTxEnv node'.db txs) node'.pool hash
      = lookupTx env.toTxEnv
          (unreferenced env.toTxEnv (storedDb env iface node.db block pindex) txs)
          node.pool hash := by
  have hget : getTransaction env.toTxEnv (unreferenced env.toTxEnv node'.db txs) hash
      = getTransaction env.toTxEnv
          (unreferenced env.toTxEnv (storedDb env iface node.db block pindex) txs) hash := by
    refine getTransaction_congr ?_ h.blocks_eq
    rw [unreferenced, unreferenced, h.txs_eq]
  rw [lookupTx, lookupTx, hget, h.pool_eq]

section

variable (h : BlockAccepted env iface node block pindex node')
  (hagree : OutputsAgree env.toTxEnv node block) (hout : o.hash ∉ block.vtx.map env.getHash)
include h hagree hout

theorem BlockAccepted.releasedIn_iff :
    ReleasedIn env.toTxEnv node'.pool node'.db block.vtx o ↔
      Released env.toTxEnv node.pool (storedDb env iface node.db block pindex) block.vtx o := by
  have hres : ∀ post vin, resolved env.toTxEnv (walkedBack env.toTxEnv node'.pool node'.db post)
      node'.pool vin = resolved env.toTxEnv
        (unreferenced env.toTxEnv (storedDb env iface node.db block pindex) post) node.pool
        vin := by
    intro post vin
    rw [resolved_walkedBack]
    unfold resolved
    simp only [h.lookupTx_eq]
  rw [Server.releasedIn_iff]
  constructor
  · rintro ⟨pre, tx, post, hvtx, hcb, hin, hmem, -⟩
    rw [hres] at hmem
    exact ⟨pre, tx, post, hvtx, hcb, hin, hmem⟩
  · rintro ⟨pre, tx, post, hvtx, hcb, hin, hmem⟩
    obtain ⟨prevTx, hlook⟩ := lookup_of_mem_resolved hmem
    refine ⟨pre, tx, post, hvtx, hcb, hin, by rwa [hres], prevTx, ?_, ?_⟩
    · rw [lookupTx_walkedBack, h.lookupTx_eq, hlook]
    -- the previous transaction of the connect has the same hash, and so as many outputs
    have hspend : (tx, o) ∈ spends block.vtx :=
      mem_spends.mpr ⟨by rw [hvtx]; exact mem_append_right _ mem_cons_self, hcb, hin⟩
    obtain ⟨found, hashBlock, hfind, hn, hroom⟩ := h.found _ hspend
    have hlen : found.vout.length = prevTx.vout.length :=
      hagree found prevTx (findPrevTx_known hfind) (lookupTx_known hlook)
        ((findPrevTx_hash hfind).trans (lookupTx_hash hlook).symm)
    have hback : WalkedBack env.toTxEnv node'.pool node'.db post _ := walkedBack_spec post
    have hpost : o.hash ∉ post.map env.getHash := fun hmem => hout (by
      rw [hvtx, map_append, map_cons]
      exact mem_append_right _ (mem_cons_of_mem _ hmem))
    rw [hlen] at hn hroom
    exact ⟨hn, (hasRoom_congr (hback.lengths o.hash hpost)).mpr hroom⟩

theorem BlockAccepted.marker_released
    (hrel : Released env.toTxEnv node.pool (storedDb env iface node.db block pindex) block.vtx o) :
    (disconnectBlock env.toTxEnv node'.pool node'.db block).marker o = 0 :=
  (walkedBack_spec block.vtx).zero o hout ((h.releasedIn_iff hagree hout).mpr hrel)

theorem BlockAccepted.marker_kept
    (hrel : ¬ Released env.toTxEnv node.pool (storedDb env iface node.db block pindex) block.vtx
      o) :
    (disconnectBlock env.toTxEnv node'.pool node'.db block).marker o
      = markAll env.getHash node.db.marker (spends block.vtx) o := by
  rw [← h.marker_eq]
  exact (walkedBack_spec block.vtx).same o hout fun hin =>
    hrel ((h.releasedIn_iff hagree hout).mp hin)

end

theorem BlockAccepted.txs_back (h : BlockAccepted env iface node block pindex node')
    (hash : Uint256) :
    (disconnectBlock env.toTxEnv node'.pool node'.db block).txs hash
      = ((storedDb env iface node.db block pindex).txs hash).drop
          ((block.vtx.map env.getHash).count hash) := by
  rw [← h.txs_eq]
  exact (walkedBack_spec block.vtx).txs_eq hash

theorem coins_back (tx : CTransaction) (htx : tx ∈ block.vtx) :
    (disconnectBlock env.toTxEnv node'.pool node'.db block).coins (env.getHash tx) = none :=
  (walkedBack_spec block.vtx).gone _ (List.mem_map_of_mem htx)

end ThereAndBack

/-! ## New blocks with parents first -/

section ParentsFirst

variable {env : ConnectEnv} {iface : CIface} {node node' : Node} {block : CBlock}
  {pindex : CBlockIndex} {pool : CPool} {db : ChainDb}

/-- Every transaction of the chain has one reference, and every marker names a transaction of the
    chain that spends the output. -/
def Consistent (env : TxEnv) (db : ChainDb) : Prop :=
  (∀ height b, db.blocks height = some b → ∀ tx ∈ b.vtx, db.txs (env.getHash tx) = [height]) ∧
    ∀ o : COutPoint, db.marker o ≠ 0 → ∃ tx hashBlock,
      getTransaction env db (db.marker o) = some (tx, hashBlock) ∧ ∃ txin ∈ tx.vin, txin.prevout = o

/-- Every input refers to a transaction that is found in the stores, or to one that stands before
    it: in `seen`, or in the list. -/
def ParentsFirst (env : TxEnv) (pool : CPool) (db : ChainDb) :
    List Uint256 → List CTransaction → Prop
  | _, [] => True
  | seen, tx :: txs =>
    (tx.isCoinBase = false → ∀ txin ∈ tx.vin,
      (lookupTx env db pool txin.prevout.hash).isSome = true ∨ txin.prevout.hash ∈ seen) ∧
    ParentsFirst env pool db (env.getHash tx :: seen) txs

instance ParentsFirst.instDecidable (env : TxEnv) (pool : CPool) (db : ChainDb) :
    (seen : List Uint256) → (txs : List CTransaction) →
      Decidable (ParentsFirst env pool db seen txs)
  | _, [] => inferInstanceAs (Decidable True)
  | seen, tx :: txs =>
    have := ParentsFirst.instDecidable env pool db (env.getHash tx :: seen) txs
    inferInstanceAs (Decidable (_ ∧ _))

theorem ParentsFirst.split {env : TxEnv} {seen : List Uint256} {tx : CTransaction}
    (h : ParentsFirst env pool db seen (pre ++ tx :: post)) (hcb : tx.isCoinBase = false) :
    ∀ txin ∈ tx.vin,
      (lookupTx env db pool txin.prevout.hash).isSome = true ∨ txin.prevout.hash ∈ seen ∨
        txin.prevout.hash ∈ pre.map env.getHash := by
  induction pre generalizing seen with
  | nil =>
    intro txin htxin
    exact (h.1 hcb txin htxin).imp_right .inl
  | cons t pre ih =>
    intro txin htxin
    rcases ih h.2 txin htxin with hfound | hseen | hpre
    · exact .inl hfound
    · rcases mem_cons.mp hseen with heq | hseen
      · exact .inr (.inr (by rw [heq]; exact mem_cons_self))
      · exact .inr (.inl hseen)
    · exact .inr (.inr (mem_cons_of_mem _ hpre))

/-- A block that is not the first one, at a height that is free, of transactions that are not in the
    tx chain. -/
structure FreshBlock (env : ConnectEnv) (iface : CIface) (db : ChainDb) (block : CBlock)
    (pindex : CBlockIndex) : Prop where
  later : pindex.pprev.isSome = true
  free : db.blocks (commitHeight env iface pindex) = none
  fresh : ∀ tx ∈ block.vtx, db.txs (env.getHash tx) = []
  nodup : (block.vtx.map env.getHash).Nodup

namespace FreshBlock

section

variable (h : FreshBlock env iface db block pindex)
include h

theorem txs_eq_nil (hmem : hash ∈ block.vtx.map env.getHash) : db.txs hash = [] := by
  obtain ⟨tx, htx, rfl⟩ := List.mem_map.mp hmem
  exact h.fresh tx htx

theorem storedDb_eq :
    storedDb env iface db block pindex =
      { db with
        txs := fun hash =>
          if hash ∈ block.vtx.map env.getHash then [commitHeight env iface pindex]
          else db.txs hash
        blocks := update db.blocks (commitHeight env iface pindex) (some block) } := by
  obtain ⟨p, hp⟩ := isSome_iff_exists.mp h.later
  rw [storedDb, hp]
  dsimp only
  rw [withBlock, h.free, if_neg (by simp)]
  congr 1
  funext hash
  by_cases hmem : hash ∈ block.vtx.map env.getHash
  · rw [if_pos hmem, h.txs_eq_nil hmem]
    simp [hmem]
  · rw [if_neg hmem, if_neg fun hand => hmem hand.1]

theorem lookup_old {post : List CTransaction} (hpost : ∀ tx ∈ post, tx ∈ block.vtx)
    (hfound : (lookupTx env.toTxEnv db pool hash).isSome = true) :
    (lookupTx env.toTxEnv (unreferenced env.toTxEnv (storedDb env iface db block pindex) post) pool
      hash).isSome = true := by
  unfold lookupTx at hfound ⊢
  rw [isSome_or, isSome_map, Bool.or_eq_true] at hfound ⊢
  refine hfound.imp_left ?_
  intro hget
  unfold getTransaction at hget ⊢
  cases hrefs : db.txs hash with
  | nil =>
    rw [hrefs] at hget
    cases hget
  | cons height rest =>
    rw [hrefs] at hget
    have hnew : hash ∉ block.vtx.map env.getHash := fun hmem => by
      rw [h.txs_eq_nil hmem] at hrefs
      cases hrefs
    have hnone : (post.map env.getHash).count hash = 0 :=
      count_eq_zero.mpr fun hmem => by
        obtain ⟨tx, htx, heq⟩ := List.mem_map.mp hmem
        exact hnew (heq ▸ List.mem_map_of_mem (hpost tx htx))
    have hne : height ≠ commitHeight env iface pindex := fun heq => by
      rw [heq] at hget
      dsimp only at hget
      rw [h.free] at hget
      cases hget
    rw [unreferenced, h.storedDb_eq]
    dsimp only
    rw [hnone, if_neg hnew, hrefs, drop_zero]
    dsimp only
    rw [update_of_ne hne]
    exact hget

theorem lookup_before {tx : CTransaction} (hvtx : block.vtx = pre ++ tx :: post)
    (hpre : hash ∈ pre.map env.getHash) :
    (lookupTx env.toTxEnv (unreferenced env.toTxEnv (storedDb env iface db block pindex) post) pool
      hash).isSome = true := by
  have hmem : hash ∈ block.vtx.map env.getHash := by
    rw [hvtx, map_append]
    exact mem_append_left _ hpre
  have hnone : (post.map env.getHash).count hash = 0 := by
    have hnodup := h.nodup
    rw [hvtx, map_append, map_cons] at hnodup
    refine count_eq_zero.mpr ?_
    intro hin
    exact (nodup_append.mp hnodup).2.2 hash hpre hash (mem_cons_of_mem _ hin) rfl
  have hblock : (block.getTx env.toTxEnv hash).isSome = true := by
    obtain ⟨t, ht, heq⟩ := List.mem_map.mp hmem
    exact find?_isSome.mpr ⟨t, ht, by simp [heq]⟩
  obtain ⟨t, ht⟩ := isSome_iff_exists.mp hblock
  rw [lookupTx, isSome_or, isSome_map, Bool.or_eq_true]
  refine .inl ?_
  rw [getTransaction, unreferenced, h.storedDb_eq]
  dsimp only
  rw [hnone, if_pos hmem, drop_zero]
  dsimp only
  rw [update_self, bind_eq_bind, bind_some, ht]
  rfl

theorem released (hfirst : ParentsFirst env.toTxEnv pool db [] block.vtx)
    {e : CTransaction × COutPoint} (he : e ∈ spends block.vtx) :
    Released env.toTxEnv pool (storedDb env iface db block pindex) block.vtx e.2 := by
  obtain ⟨hmem, hcb, txin, htxin, heq⟩ := mem_spends.mp he
  obtain ⟨pre, post, hvtx⟩ := append_of_mem hmem
  refine ⟨pre, e.1, post, hvtx, hcb, ⟨txin, htxin, heq⟩, ?_⟩
  have hall : ∀ hash ∈ e.1.vin.map fun txin => txin.prevout.hash,
      (lookupTx env.toTxEnv (unreferenced env.toTxEnv (storedDb env iface db block pindex) post)
        pool hash).isSome = true := by
    intro hash hhash
    obtain ⟨t, ht, rfl⟩ := List.mem_map.mp hhash
    rcases (hvtx ▸ hfirst : ParentsFirst _ _ _ _ (pre ++ e.1 :: post)).split hcb t ht
      with hfound | hseen | hpre
    · refine h.lookup_old ?_ hfound
      intro tx htx
      rw [hvtx]
      exact mem_append_right _ (mem_cons_of_mem _ htx)
    · cases hseen
    · exact h.lookup_before hvtx hpre
  rw [resolved, takeWhile_eq_self_iff.mpr hall, ← heq]
  exact List.mem_map_of_mem htxin

end

section

variable (h : FreshBlock env iface node.db block pindex) (hcons : Consistent env.toTxEnv node.db)
include h hcons

theorem unspent (hacc : BlockAccepted env iface node block pindex node') {o : COutPoint}
    (ho : o ∈ (spends block.vtx).map Prod.snd) : node.db.marker o = 0 := by
  by_contra hspent
  obtain ⟨tx, hmem, hfree⟩ := hacc.passes.first ho
  obtain ⟨spender, hashBlock, hget, -⟩ := hcons.2 o hspent
  refine hfree ?_
  -- the marker names a transaction of the chain, so none of the block
  have hne : node.db.marker o ≠ env.getHash tx := fun heq => by
    have hfresh := h.fresh tx (mem_spends.mp hmem).1
    rw [heq, getTransaction, hfresh] at hget
    cases hget
  exact busy_iff.mpr ⟨hspent, hne, by rw [verifyTxHash, hget]; rfl⟩

/-- **A new block whose parents stand before their children** is restored by a disconnect. -/
theorem disconnect_restores {disk : Disk} (hagree : OutputsAgree env.toTxEnv node block)
    (hfirst : ParentsFirst env.toTxEnv node.pool node.db [] block.vtx)
    (hconnect : coreConnectBlock env disk iface node block pindex = some (true, node')) :
    Restores env.toTxEnv block node.db
      (disconnectBlock env.toTxEnv node'.pool node'.db block) := by
  have hacc := coreConnectBlock_accepted hconnect
  refine ⟨fun o ho => ?_, fun tx htx => ⟨coins_back tx htx, ?_⟩⟩
  · by_cases hmem : o ∈ (spends block.vtx).map Prod.snd
    · obtain ⟨e, he, rfl⟩ := List.mem_map.mp hmem
      rw [hacc.marker_released hagree ho (h.released hfirst he), h.unspent hcons hacc hmem]
    · rw [hacc.marker_kept hagree ho fun hrel => hmem hrel.spent, markAll_of_notMem hmem]
  · have hmem : env.getHash tx ∈ block.vtx.map env.getHash := List.mem_map_of_mem htx
    rw [hacc.txs_back, h.storedDb_eq]
    dsimp only
    rw [if_pos hmem]
    exact drop_eq_nil_iff.mpr (count_pos_iff.mpr hmem)

end

end FreshBlock

end ParentsFirst

/-- **Connecting a block and disconnecting it again restores the stores** exactly when no
    transaction of the block has more references than there are copies of it in the block, and every
    output that is spent from outside was unspent and is released again. An output that is not
    released again keeps the hash of its last spender, which must then have been there before. -/
theorem reconnect_restores_iff (env : ConnectEnv) (disk : Disk) (iface : CIface) (node : Node)
    (block : CBlock) (pindex : CBlockIndex) (node' : Node)
    (h : coreConnectBlock env disk iface node block pindex = some (true, node'))
    (hagree : OutputsAgree env.toTxEnv node block) :
    Restores env.toTxEnv block node.db (disconnectBlock env.toTxEnv node'.pool node'.db block) ↔
      (∀ tx ∈ block.vtx, ((storedDb env iface node.db block pindex).txs (env.getHash tx)).length ≤
        (block.vtx.map env.getHash).count (env.getHash tx)) ∧
      ∀ e ∈ spends block.vtx, e.2.hash ∉ block.vtx.map env.getHash →
        (Released env.toTxEnv node.pool (storedDb env iface node.db block pindex) block.vtx e.2 →
          node.db.marker e.2 = 0) ∧
        (¬ Released env.toTxEnv node.pool (storedDb env iface node.db block pindex) block.vtx e.2 →
          node.db.marker e.2 = markAll env.getHash node.db.marker (spends block.vtx) e.2) := by
  have hacc := coreConnectBlock_accepted h
  constructor
  · rintro ⟨hmarkers, hgone⟩
    refine ⟨fun tx htx => ?_, fun e he ho => ⟨fun hrel => ?_, fun hrel => ?_⟩⟩
    · have hdrop := (hgone tx htx).2
      rw [hacc.txs_back] at hdrop
      exact drop_eq_nil_iff.mp hdrop
    · rw [← hmarkers e.2 ho, hacc.marker_released hagree ho hrel]
    · rw [← hmarkers e.2 ho, hacc.marker_kept hagree ho hrel]
  · rintro ⟨hrefs, hspent⟩
    refine ⟨fun o ho => ?_, fun tx htx => ⟨coins_back tx htx, ?_⟩⟩
    · by_cases hmem : o ∈ (spends block.vtx).map Prod.snd
      · obtain ⟨e, he, rfl⟩ := List.mem_map.mp hmem
        by_cases hrel : Released env.toTxEnv node.pool
            (storedDb env iface node.db block pindex) block.vtx e.2
        · rw [hacc.marker_released hagree ho hrel, (hspent e he ho).1 hrel]
        · rw [hacc.marker_kept hagree ho hrel, ← (hspent e he ho).2 hrel]
      · rw [hacc.marker_kept hagree ho fun hrel => hmem hrel.spent, markAll_of_notMem hmem]
    · rw [hacc.txs_back]
      exact drop_eq_nil_iff.mpr (hrefs tx htx)

theorem nodeSample_consistent : Consistent connectEnvSample.toTxEnv nodeSample.db := by
  refine ⟨fun height b hb tx htx => ?_, fun o ho => absurd rfl ho⟩
  obtain ⟨rfl, hb⟩ := ite_none_right_eq_some.mp hb
  cases hb
  rw [mem_singleton.mp htx]
  decide

/-- **A child before its parent keeps its other output spent.** Transaction 4 spends an output of
    transaction 5, which stands behind it in the block, and then the first output of transaction 1.
    The walk back has taken transaction 5 out before transaction 4 looks for it. -/
theorem reconnect_keeps_spend : let block : CBlock :=
      { hash := 101
        vtx := [coinbaseTx 2 [1000], spendTx 4 [(5, 0), (1, 0)] [40], spendTx 5 [(1, 1)] [50]] }
    let o : COutPoint := { hash := 1, n := 0 }
    Consistent connectEnvSample.toTxEnv nodeSample.db ∧ nodeSample.db.marker o = 0 ∧
      (coreConnectBlock connectEnvSample diskSample shcIface nodeSample block (chainSample 1)).map
          (fun r =>
            (r.1, (disconnectBlock connectEnvSample.toTxEnv r.2.pool r.2.db block).marker o))
        = some (true, 4) :=
  ⟨nodeSample_consistent, rfl, rfl⟩

theorem blockOne_outputsAgree : OutputsAgree connectEnvSample.toTxEnv nodeSample blockOne := by
  have hknown : ∀ t, Known nodeSample blockOne t → t ∈ blockZero.vtx ++ blockOne.vtx := by
    rintro t (⟨height, b, hb, ht⟩ | hpool | ht)
    · obtain ⟨-, hb⟩ := ite_none_right_eq_some.mp hb
      cases hb
      exact mem_append_left _ ht
    · simp [nodeSample] at hpool
    · exact mem_append_right _ ht
  have hall : ∀ t ∈ blockZero.vtx ++ blockOne.vtx, ∀ t' ∈ blockZero.vtx ++ blockOne.vtx,
      connectEnvSample.getHash t = connectEnvSample.getHash t' →
        t.vout.length = t'.vout.length := by decide
  exact fun t t' ht ht' => hall t (hknown t ht) t' (hknown t' ht')

/-- A parent before its child: everything is restored. -/
theorem reconnect_restores_chained :
    ∃ node', coreConnectBlock connectEnvSample diskSample shcIface nodeSample blockOne
        (chainSample 1) = some (true, node') ∧
      Restores connectEnvSample.toTxEnv blockOne nodeSample.db
        (disconnectBlock connectEnvSample.toTxEnv node'.pool node'.db blockOne) := by
  have hsome : (coreConnectBlock connectEnvSample diskSample shcIface nodeSample blockOne
      (chainSample 1)).map Prod.fst = some true := rfl
  obtain ⟨⟨_, node'⟩, hrun, rfl⟩ := map_eq_some_iff.mp hsome
  refine ⟨node', hrun, (reconnect_restores_iff connectEnvSample diskSample shcIface nodeSample
    blockOne (chainSample 1) node' hrun blockOne_outputsAgree).mpr ⟨by decide, ?_⟩⟩
  have hfresh : FreshBlock connectEnvSample shcIface nodeSample.db blockOne (chainSample 1) :=
    ⟨rfl, rfl, by decide, by decide⟩
  have hfirst : ParentsFirst connectEnvSample.toTxEnv nodeSample.pool nodeSample.db []
      blockOne.vtx := by decide
  exact fun e he _ => ⟨fun _ => rfl, fun hno => absurd (hfresh.released hfirst he) hno⟩

theorem blockOne_restored :
    ∃ node' : Node, Restores connectEnvSample.toTxEnv blockOne nodeSample.db
      (disconnectBlock connectEnvSample.toTxEnv node'.pool node'.db blockOne) := by
  have hsome : (coreConnectBlock connectEnvSample diskSample shcIface nodeSample blockOne
      (chainSample 1)).map Prod.fst = some true := rfl
  obtain ⟨⟨_, node'⟩, hrun, rfl⟩ := map_eq_some_iff.mp hsome
  have hfresh : FreshBlock connectEnvSample shcIface nodeSample.db blockOne (chainSample 1) :=
    ⟨rfl, rfl, by decide, by decide⟩
  exact ⟨node', hfresh.disconnect_restores nodeSample_consistent blockOne_outputsAgree
    (by decide) hrun⟩

end ShareCoin.Server
