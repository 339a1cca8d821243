import ShareCoin.Server.Disconnect
import ShareCoin.Proof.Server.Connect

/-!
# What disconnecting a transaction does

`core_DisconnectInputs` resets markers in two ways. It resets the marker of an output that an input
refers to, if `FillInputs` has found the previous transaction (`Releases`), and it drops all markers
of the transaction's own outputs with its coin record. Everything else stays as it is.

`FillInputs` stops at the first previous transaction that it does not find, so an input may fail to
release its output because of another one.
-/

namespace ShareCoin.Server

open List Option Function

variable {env : TxEnv} {db db' : ChainDb} {pool : CPool} {tx : CTransaction} {vin : List CTxIn}
  {prevTx : CTransaction} {o : COutPoint} {F G : COutPoint → Prop}

/-! ## Filling the cache -/

theorem lookupTx_hash {hash : Uint256} (h : lookupTx env db pool hash = some tx) :
    env.getHash tx = hash := by
  unfold lookupTx at h
  rw [or_eq_some_iff] at h
  rcases h with h | ⟨-, h⟩
  · obtain ⟨⟨tx', hashBlock⟩, hget, heq⟩ := map_eq_some_iff.mp h
    rw [← heq]
    exact getTransaction_hash hget
  · exact findTx_hash h

/-- The hashes of the inputs up to the first one whose previous transaction is unknown. -/
def resolved (env : TxEnv) (db : ChainDb) (pool : CPool) (vin : List CTxIn) : List Uint256 :=
  (vin.map fun txin => txin.prevout.hash).takeWhile fun hash =>
    (lookupTx env db pool hash).isSome

theorem resolved_cons_some {txin : CTxIn}
    (h : lookupTx env db pool txin.prevout.hash = some prevTx) :
    resolved env db pool (txin :: vin) = txin.prevout.hash :: resolved env db pool vin := by
  rw [resolved, map_cons, takeWhile_cons_of_pos (by simp [h])]
  rfl

theorem resolved_cons_none {txin : CTxIn} (h : lookupTx env db pool txin.prevout.hash = none) :
    resolved env db pool (txin :: vin) = [] := by
  rw [resolved, map_cons, takeWhile_cons_of_neg (by simp [h])]

theorem fillInputs_cache {inputs : TxCache}
    (hin : ∀ hash t, inputs hash = some t → lookupTx env db pool hash = some t) (hash : Uint256)
    (t : CTransaction) :
    (fillInputs env db pool true vin inputs).2 hash = some t ↔
      lookupTx env db pool hash = some t ∧
        (inputs hash = some t ∨ hash ∈ resolved env db pool vin) := by
  induction vin generalizing inputs with
  | nil =>
    refine ⟨fun h => ⟨hin hash t h, .inl h⟩, fun h => ?_⟩
    exact h.2.resolve_right (by simp [resolved])
  | cons txin vin ih =>
    unfold fillInputs
    cases hc : inputs txin.prevout.hash with
    | some prevTx =>
      -- cached by an earlier input: the lookup would give the same transaction
      rw [ih hin, resolved_cons_some (hin _ _ hc), mem_cons]
      refine and_congr_right fun hlook => ⟨fun h => h.imp_right .inr, fun h => ?_⟩
      rcases h with h | h | h
      · exact .inl h
      · rw [h] at hlook ⊢
        rw [hin _ _ hc] at hlook
        cases hlook
        exact .inl hc
      · exact .inr h
    | none =>
      cases hlook : lookupTx env db pool txin.prevout.hash with
      | none =>
        -- unknown: the loop stops here, and the inputs behind are not looked up
        rw [resolved_cons_none hlook]
        exact ⟨fun h => ⟨hin _ _ h, .inl h⟩, fun h => h.2.resolve_right not_mem_nil⟩
      | some prevTx =>
        dsimp only
        have hstep : (!true && !isUnspent env db prevTx txin.prevout.n.toNat) = false := rfl
        rw [hstep, if_neg Bool.false_ne_true, ih]
        · rw [resolved_cons_some hlook, mem_cons]
          refine and_congr_right ?_
          intro hlook'
          by_cases heq : hash = txin.prevout.hash
          · rw [heq, hlook] at hlook'
            cases hlook'
            simp [heq]
          · simp [heq]
        · intro h t' ht'
          by_cases heq : h = txin.prevout.hash
          · rw [heq, update_self] at ht'
            cases ht'
            rw [heq]
            exact hlook
          · rw [update_of_ne heq] at ht'
            exact hin h t' ht'

/-! ## Resetting markers -/

/-- The markers of some outputs are reset, and nothing else changes. -/
structure Frees (F : COutPoint → Prop) (db db' : ChainDb) : Prop where
  txs_eq : db'.txs = db.txs
  blocks_eq : db'.blocks = db.blocks
  lengths : ∀ hash, (db'.coins hash).map List.length = (db.coins hash).map List.length
  zero : ∀ o, F o → db'.marker o = 0
  same : ∀ o, ¬ F o → db'.marker o = db.marker o

theorem frees_refl {F : COutPoint → Prop} (h : ∀ o, F o → db.marker o = 0) : Frees F db db :=
  ⟨rfl, rfl, fun _ => rfl, h, fun _ _ => rfl⟩

theorem Frees.trans {db₁ : ChainDb} (h : Frees F db db₁) (h' : Frees G db₁ db') :
    Frees (fun o => F o ∨ G o) db db' where
  txs_eq := h'.txs_eq.trans h.txs_eq
  blocks_eq := h'.blocks_eq.trans h.blocks_eq
  lengths := fun hash => (h'.lengths hash).trans (h.lengths hash)
  zero := fun o ho => by
    by_cases hG : G o
    · exact h'.zero o hG
    · rw [h'.same o hG, h.zero o (ho.resolve_right hG)]
  same := fun o ho => by
    rw [not_or] at ho
    rw [h'.same o ho.2, h.same o ho.1]

theorem Frees.congr (h : Frees F db db') (hFG : ∀ o, F o ↔ G o) : Frees G db db' :=
  ⟨h.txs_eq, h.blocks_eq, h.lengths, fun o ho => h.zero o ((hFG o).mpr ho),
    fun o ho => h.same o fun hF => ho ((hFG o).mp hF)⟩

theorem hasRoom_congr {hash : Uint256} {k : Nat}
    (h : (db'.coins hash).map List.length = (db.coins hash).map List.length) :
    db'.HasRoom hash k ↔ db.HasRoom hash k := by
  unfold ChainDb.HasRoom
  cases hc : db.coins hash <;> cases hc' : db'.coins hash <;> simp [hc, hc'] at h ⊢
  rw [h]

/-- The output exists, and its record can be read. -/
def Releasable (db : ChainDb) (prevTx : CTransaction) (o : COutPoint) : Prop :=
  o.n.toNat < prevTx.vout.length ∧ db.HasRoom o.hash prevTx.vout.length

theorem writeCoins_frees {vOuts : List Uint256} (hhash : env.getHash prevTx = o.hash)
    (hr : readCoins env db prevTx = some vOuts) (hn : o.n.toNat < vOuts.length)
    (hspent : db.marker o ≠ 0)
    (hw : writeCoins env true db prevTx (vOuts.set o.n.toNat 0) = some db') :
    Frees (fun o' => o' = o) db db' := by
  obtain ⟨-, hmarker⟩ := readCoins_marker hr
  obtain ⟨-, hwritten⟩ := writeCoins_spec hw
  rw [hhash] at hwritten
  -- the marker is not null, so there is a record and it keeps its length
  obtain ⟨data, hdata⟩ : ∃ data, db.coins o.hash = some data := by
    cases hc : db.coins o.hash with
    | none => exact absurd (by simp [ChainDb.marker, hc]) hspent
    | some data => exact ⟨data, rfl⟩
  refine ⟨hwritten.txs_eq, hwritten.blocks_eq, ?_, ?_, ?_⟩
  · intro hash
    by_cases heq : hash = o.hash
    · obtain ⟨data', hdata', hlen'⟩ := hwritten.record.length data hdata
      rw [heq, hdata, hdata', map_some, map_some, hlen']
    · rw [hwritten.coins_ne hash heq]
  · intro o' ho'
    rw [ho', hwritten.record.marker_eq o rfl]
    simp [hn]
  · intro o' hne
    by_cases heq : o'.hash = o.hash
    · have hidx : o.n.toNat ≠ o'.n.toNat :=
        fun hidx => hne (COutPoint.ext_toNat heq hidx.symm)
      rw [hwritten.record.marker_eq o' heq, getElem?_set_ne hidx]
      by_cases hn' : o'.n.toNat < vOuts.length
      · rw [hmarker o' (by rw [heq, hhash]) hn']
        rfl
      · rw [getElem?_eq_none (Nat.le_of_not_lt hn')]
        rfl
    · exact marker_congr (hwritten.coins_ne _ heq)

theorem disconnectCoinInputs_frees (hhash : env.getHash prevTx = o.hash) :
    Frees (fun o' => o' = o ∧ Releasable db prevTx o) db
      (disconnectCoinInputs env db prevTx o) := by
  unfold disconnectCoinInputs
  cases hr : readCoins env db prevTx with
  | none =>
    refine frees_refl ?_
    intro o' ho'
    have hroom := ho'.2.2
    rw [← hhash, ← readCoins_isSome_iff, hr] at hroom
    cases hroom
  | some vOuts =>
    obtain ⟨hlen, hmarker⟩ := readCoins_marker hr
    dsimp only
    by_cases hn : o.n.toNat < vOuts.length
    · rw [hmarker o hhash.symm hn]
      dsimp only
      split_ifs with hzero
      · refine frees_refl ?_
        intro o' ho'
        rw [ho'.1, hzero]
      · have hroom : db.HasRoom (env.getHash prevTx) prevTx.vout.length := by
          rw [← readCoins_isSome_iff, hr]
          rfl
        have hset : (vOuts.set o.n.toNat 0).length = prevTx.vout.length := by
          rw [length_set, hlen]
        obtain ⟨db₁, hw⟩ := isSome_iff_exists.mp (writeCoins_isSome hset hroom)
        rw [hw, getD_some]
        rw [hhash] at hroom
        refine (writeCoins_frees hhash hr hn hzero hw).congr ?_
        intro o'
        exact (and_iff_left ⟨by omega, hroom⟩).symm
    · rw [getElem?_eq_none (Nat.le_of_not_lt hn)]
      refine frees_refl ?_
      intro o' ho'
      have hlt := ho'.2.1
      omega

/-- An output that one of the inputs refers to, and whose transaction is in the cache. -/
def Freed (db : ChainDb) (inputs : TxCache) (vin : List CTxIn) (o : COutPoint) : Prop :=
  (∃ txin ∈ vin, txin.prevout = o) ∧ ∃ prevTx, inputs o.hash = some prevTx ∧ Releasable db prevTx o

theorem releaseInputs_frees {inputs : TxCache}
    (hin : ∀ hash t, inputs hash = some t → env.getHash t = hash) :
    Frees (Freed db inputs vin) db (releaseInputs env inputs vin db) := by
  induction vin generalizing db with
  | nil =>
    refine frees_refl ?_
    intro o ho
    obtain ⟨txin, htxin, -⟩ := ho.1
    cases htxin
  | cons txin vin ih =>
    unfold releaseInputs
    rw [foldl_cons]
    cases hc : inputs txin.prevout.hash with
    | none =>
      -- an input whose transaction is not in the cache is passed over
      have hrest : Frees _ db (releaseInputs env inputs vin db) := ih
      refine hrest.congr fun o => ⟨fun ho => ?_, fun ho => ?_⟩
      · obtain ⟨⟨t, ht, heq⟩, hrest⟩ := ho
        exact ⟨⟨t, mem_cons_of_mem _ ht, heq⟩, hrest⟩
      · obtain ⟨⟨t, ht, heq⟩, prevTx, hp, hrel⟩ := ho
        rcases mem_cons.mp ht with rfl | ht
        · rw [← heq, hc] at hp
          cases hp
        · exact ⟨⟨t, ht, heq⟩, prevTx, hp, hrel⟩
    | some prevTx =>
      have hfirst : Frees _ db (disconnectCoinInputs env db prevTx txin.prevout) :=
        disconnectCoinInputs_frees (hin _ _ hc)
      refine (hfirst.trans ih).congr ?_
      intro o
      have hroom : ∀ t, Releasable (disconnectCoinInputs env db prevTx txin.prevout) t o ↔
          Releasable db t o :=
        fun t => and_congr_right fun _ => hasRoom_congr (hfirst.lengths o.hash)
      constructor
      · rintro (⟨rfl, hrel⟩ | ⟨⟨t, ht, heq⟩, t', hp, hrel⟩)
        · exact ⟨⟨txin, mem_cons_self, rfl⟩, prevTx, hc, hrel⟩
        · exact ⟨⟨t, mem_cons_of_mem _ ht, heq⟩, t', hp, (hroom t').mp hrel⟩
      · rintro ⟨⟨t, ht, heq⟩, t', hp, hrel⟩
        rcases mem_cons.mp ht with rfl | ht
        · rw [← heq, hc] at hp
          cases hp
          rw [← heq] at hrel
          exact .inl ⟨heq.symm, hrel⟩
        · exact .inr ⟨⟨t, ht, heq⟩, t', hp, (hroom t').mpr hrel⟩

/-! ## One transaction -/

/-- The outputs whose markers a disconnect resets through the inputs of the transaction. -/
def Releases (env : TxEnv) (db : ChainDb) (pool : CPool) (tx : CTransaction) (o : COutPoint) :
    Prop :=
  tx.isCoinBase = false ∧ (∃ txin ∈ tx.vin, txin.prevout = o) ∧
    o.hash ∈ resolved env db pool tx.vin ∧
    ∃ prevTx, lookupTx env db pool o.hash = some prevTx ∧ Releasable db prevTx o

theorem released_frees (hcb : tx.isCoinBase = false) :
    Frees (Releases env db pool tx) db
      (releaseInputs env (fillInputs env db pool true tx.vin fun _ => none).2 tx.vin db) := by
  have hcache : ∀ hash t, (fillInputs env db pool true tx.vin fun _ => none).2 hash = some t ↔ _ :=
    fillInputs_cache (by simp)
  refine (releaseInputs_frees ?_).congr ?_
  · intro hash t h
    exact lookupTx_hash ((hcache hash t).mp h).1
  · intro o
    unfold Freed Releases
    simp only [hcache, hcb, true_and, reduceCtorEq, false_or]
    constructor
    · rintro ⟨hin, t, ⟨hlook, hres⟩, hrel⟩
      exact ⟨hin, hres, t, hlook, hrel⟩
    · rintro ⟨hin, hres, t, hlook, hrel⟩
      exact ⟨hin, t, ⟨hlook, hres⟩, hrel⟩

/-- Everything a disconnect leaves. -/
structure Disconnected (env : TxEnv) (db : ChainDb) (pool : CPool) (tx : CTransaction)
    (db' : ChainDb) : Prop where
  blocks_eq : db'.blocks = db.blocks
  txs_self : db'.txs (env.getHash tx) = (db.txs (env.getHash tx)).tail
  txs_ne : ∀ hash, hash ≠ env.getHash tx → db'.txs hash = db.txs hash
  coins_self : db'.coins (env.getHash tx) = none
  lengths : ∀ hash, hash ≠ env.getHash tx →
    (db'.coins hash).map List.length = (db.coins hash).map List.length
  zero : ∀ o : COutPoint, o.hash = env.getHash tx ∨ Releases env db pool tx o → db'.marker o = 0
  same : ∀ o : COutPoint, o.hash ≠ env.getHash tx → ¬ Releases env db pool tx o →
    db'.marker o = db.marker o

theorem erase_marker_ne (hne : o.hash ≠ env.getHash tx) :
    (eraseTx env (eraseCoins env db tx) tx).marker o = db.marker o :=
  marker_congr (by rw [eraseTx_coins, eraseCoins_coins_ne hne])

theorem Frees.erase {db₁ : ChainDb} (h : Frees (Releases env db pool tx) db db₁) :
    Disconnected env db pool tx (eraseTx env (eraseCoins env db₁ tx) tx) where
  blocks_eq := by rw [eraseTx_blocks, eraseCoins_blocks, h.blocks_eq]
  txs_self := by rw [eraseTx_txs_self, eraseCoins_txs, h.txs_eq]
  txs_ne := fun hash hne => by rw [eraseTx_txs_ne hne, eraseCoins_txs, h.txs_eq]
  coins_self := by rw [eraseTx_coins, eraseCoins_coins_self]
  lengths := fun hash hne => by rw [eraseTx_coins, eraseCoins_coins_ne hne, h.lengths]
  zero := fun o ho => by
    by_cases hself : o.hash = env.getHash tx
    · rw [ChainDb.marker, eraseTx_coins, hself, eraseCoins_coins_self]
      rfl
    · rw [erase_marker_ne hself]
      exact h.zero o (ho.resolve_left hself)
  same := fun o hne hrel => by
    rw [erase_marker_ne hne]
    exact h.same o hrel

theorem disconnectInputs_spec : Disconnected env db pool tx (disconnectInputs env pool db tx) := by
  unfold disconnectInputs
  cases hcb : tx.isCoinBase with
  | true =>
    refine Frees.erase (frees_refl ?_)
    intro o ho
    rw [ho.1] at hcb
    cases hcb
  | false =>
    exact (released_frees hcb).erase

end ShareCoin.Server
