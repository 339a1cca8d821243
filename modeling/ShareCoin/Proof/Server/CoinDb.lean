import ShareCoin.Server.CoinDb

/-!
# What the stores keep

Each function of the stores, described by the markers and records it leaves. A marker is what the
later developments speak about; the records behind it differ in length and in whether they exist at
all.
-/

namespace ShareCoin.Server

open List Option Function

variable {env : TxEnv} {db db' : ChainDb} {tx : CTransaction}

/-! ## Transactions -/

variable {block : CBlock} {hash : Uint256}

theorem CBlock.getTx_hash (h : block.getTx env hash = some tx) : env.getHash tx = hash := by
  simpa using find?_some h

theorem getTransaction_hash {hashBlock : Uint256}
    (h : getTransaction env db hash = some (tx, hashBlock)) : env.getHash tx = hash := by
  unfold getTransaction at h
  split at h
  · cases h
  · obtain ⟨block, -, h⟩ := bind_eq_some_iff.mp h
    obtain ⟨tx', htx, h⟩ := bind_eq_some_iff.mp h
    cases h
    exact CBlock.getTx_hash htx

theorem getTransaction_congr (htxs : (db'.txs hash).head? = (db.txs hash).head?)
    (hblocks : db'.blocks = db.blocks) :
    getTransaction env db' hash = getTransaction env db hash := by
  unfold getTransaction
  rw [hblocks]
  cases hd : db.txs hash with
  | nil =>
    rw [hd, head?_nil, head?_eq_none_iff] at htxs
    rw [htxs]
  | cons k ks =>
    rw [hd, head?_cons, head?_eq_some_iff] at htxs
    obtain ⟨ks', hks'⟩ := htxs
    rw [hks']

/-! ## Markers -/

theorem COutPoint.ext_toNat {o o' : COutPoint} (hhash : o.hash = o'.hash)
    (hn : o.n.toNat = o'.n.toNat) : o = o' := by
  cases o
  cases o'
  simp only [COutPoint.mk.injEq]
  exact ⟨hhash, UInt32.toNat_inj.mp hn⟩

theorem marker_congr {o : COutPoint} (h : db'.coins o.hash = db.coins o.hash) :
    db'.marker o = db.marker o := by
  unfold ChainDb.marker
  rw [h]

variable {vOuts : List Uint256} {height : Nat} {fWrite : Bool} {vtx : List CTransaction}

theorem readCoins_marker (h : readCoins env db tx = some vOuts) :
    vOuts.length = tx.vout.length ∧
      ∀ o : COutPoint, o.hash = env.getHash tx → o.n.toNat < vOuts.length →
        vOuts[o.n.toNat]? = some (db.marker o) := by
  unfold readCoins at h
  cases hc : db.coins (env.getHash tx) with
  | none =>
    rw [hc] at h
    cases h
    refine ⟨length_replicate, ?_⟩
    intro o ho hn
    rw [length_replicate] at hn
    simp [ChainDb.marker, ho, hc, hn]
  | some data =>
    rw [hc] at h
    dsimp only at h
    split_ifs at h with hlen
    cases h
    have htake : (data.take tx.vout.length).length = tx.vout.length := by
      rw [length_take]
      omega
    refine ⟨htake, ?_⟩
    intro o ho hn
    rw [htake] at hn
    have hget : o.n.toNat < data.length := by omega
    simp [ChainDb.marker, ho, hc, hn, hget]

def ChainDb.HasRoom (db : ChainDb) (hash : Uint256) (k : Nat) : Prop :=
  ∀ data, db.coins hash = some data → k ≤ data.length

theorem readCoins_isSome_iff :
    (readCoins env db tx).isSome = true ↔ db.HasRoom (env.getHash tx) tx.vout.length := by
  unfold readCoins ChainDb.HasRoom
  cases db.coins (env.getHash tx) with
  | none => simp
  | some data =>
    dsimp only
    split_ifs with hlen
    · simpa using hlen
    · simpa using hlen

structure RecordWritten (db : ChainDb) (hash : Uint256) (vOuts : List Uint256) (db' : ChainDb) :
    Prop where
  marker_eq : ∀ o : COutPoint, o.hash = hash →
    db'.marker o = (vOuts[o.n.toNat]?).getD (db.marker o)
  room : ∀ k, k ≤ vOuts.length → db.HasRoom hash k → db'.HasRoom hash k
  length : ∀ data, db.coins hash = some data →
    ∃ data', db'.coins hash = some data' ∧ data'.length = data.length

theorem RecordWritten.congr {db₁ db₂ : ChainDb}
    (h : RecordWritten db₁ hash vOuts db₂) (hbefore : db₁.coins hash = db.coins hash)
    (hafter : db'.coins hash = db₂.coins hash) : RecordWritten db hash vOuts db' where
  marker_eq := fun o ho => by
    rw [← ho] at hbefore hafter
    rw [marker_congr hafter, h.marker_eq o ho, marker_congr hbefore]
  room := fun k hk hroom data hdata => by
    refine h.room k hk (fun data hdata => hroom data ?_) data ?_
    · rw [← hbefore, hdata]
    · rw [← hafter, hdata]
  length := fun data hdata => by
    rw [hafter]
    exact h.length data (hbefore.trans hdata)

theorem recordWritten_refl
    (h : ∀ o : COutPoint, o.hash = hash → ∀ m, vOuts[o.n.toNat]? = some m → db.marker o = m) :
    RecordWritten db hash vOuts db where
  marker_eq := fun o ho => by
    cases hm : vOuts[o.n.toNat]? with
    | none => rfl
    | some m => exact h o ho m hm
  room := fun _ _ h => h
  length := fun data hdata => ⟨data, hdata, rfl⟩

theorem recordWritten_setCoins {rest : List Uint256} (hrest : ∀ i, rest[i]?.getD 0 =
      ((db.coins hash).bind fun data => data[vOuts.length + i]?).getD 0)
    (hlen : ∀ data, db.coins hash = some data → vOuts.length + rest.length = data.length) :
    RecordWritten db hash vOuts (db.setCoins hash (vOuts ++ rest)) := by
  have hself : (db.setCoins hash (vOuts ++ rest)).coins hash = some (vOuts ++ rest) :=
    update_self _ _ _
  refine ⟨?_, ?_, ?_⟩
  · intro o ho
    unfold ChainDb.marker
    rw [ho, hself, bind_some]
    by_cases hn : o.n.toNat < vOuts.length
    · rw [getElem?_append_left hn]
      simp [hn]
    · have hidx := hrest (o.n.toNat - vOuts.length)
      rw [Nat.add_sub_cancel' (Nat.le_of_not_lt hn)] at hidx
      rw [getElem?_append_right (Nat.le_of_not_lt hn), hidx, getElem?_eq_none (Nat.le_of_not_lt hn)]
      rfl
  · intro k hk _ data hdata
    rw [hself, some.injEq] at hdata
    rw [← hdata, length_append]
    omega
  · intro data hdata
    exact ⟨_, hself, by rw [length_append, hlen data hdata]⟩

/-- Everything a write to the coin chain leaves. -/
structure CoinsWritten (db : ChainDb) (hash : Uint256) (vOuts : List Uint256) (db' : ChainDb) :
    Prop where
  txs_eq : db'.txs = db.txs
  blocks_eq : db'.blocks = db.blocks
  coins_ne : ∀ h, h ≠ hash → db'.coins h = db.coins h
  record : RecordWritten db hash vOuts db'

theorem writeTxCoins_spec (h : writeTxCoins fWrite db hash vOuts = some db') :
    CoinsWritten db hash vOuts db' := by
  unfold writeTxCoins at h
  cases hc : db.coins hash with
  | none =>
    rw [hc] at h
    dsimp only at h
    split_ifs at h with hblank hok
    · -- markers that are all null need no record
      cases h
      refine ⟨rfl, rfl, fun _ _ => rfl, recordWritten_refl fun o ho m hm => ?_⟩
      rw [List.all_eq_true] at hblank
      have hm0 := beq_iff_eq.mp (hblank m (mem_of_getElem? hm))
      simp [ChainDb.marker, ho, hc, hm0]
    · cases h
      have hrecord : RecordWritten db hash vOuts (db.setCoins hash (vOuts ++ [])) :=
        recordWritten_setCoins (by simp [hc]) (by simp [hc])
      rw [append_nil] at hrecord
      exact ⟨rfl, rfl, fun h hne => update_of_ne hne _ _, hrecord⟩
  | some data =>
    rw [hc] at h
    dsimp only at h
    split_ifs at h with hlen hsame hok
    · -- the record starts with these markers already
      cases h
      refine ⟨rfl, rfl, fun _ _ => rfl, recordWritten_refl fun o ho m hm => ?_⟩
      rw [← hsame, getElem?_take] at hm
      split_ifs at hm with hn
      simp [ChainDb.marker, ho, hc, hm]
    · cases h
      exact ⟨rfl, rfl, fun h hne => update_of_ne hne _ _,
        recordWritten_setCoins (by simp [hc]) fun data' hdata' => by
          rw [hc, some.injEq] at hdata'
          rw [← hdata', length_drop]
          omega⟩

theorem writeCoins_spec (h : writeCoins env fWrite db tx vOuts = some db') :
    vOuts.length = tx.vout.length ∧ CoinsWritten db (env.getHash tx) vOuts db' := by
  unfold writeCoins at h
  split_ifs at h with hlen
  exact ⟨not_not.mp hlen, writeTxCoins_spec h⟩

theorem writeCoins_same (h : readCoins env db tx = some vOuts) :
    writeCoins env fWrite db tx vOuts = some db := by
  have hlen := (readCoins_marker h).1
  rw [writeCoins, if_neg (not_not.mpr hlen)]
  unfold readCoins at h
  unfold writeTxCoins
  cases hc : db.coins (env.getHash tx) with
  | none =>
    rw [hc] at h
    cases h
    simp
  | some data =>
    rw [hc] at h
    dsimp only at h ⊢
    split_ifs at h with hshort
    cases h
    rw [if_neg (by rw [hlen]; exact hshort), hlen, if_pos rfl]

theorem writeCoins_of_ne {stored : List Uint256} (h : readCoins env db tx = some stored)
    (hlen : vOuts.length = tx.vout.length) (hne : vOuts ≠ stored) :
    writeCoins env fWrite db tx vOuts = if fWrite then
      some (db.setCoins (env.getHash tx)
        (vOuts ++ ((db.coins (env.getHash tx)).getD []).drop vOuts.length)) else none := by
  rw [writeCoins, if_neg (not_not.mpr hlen)]
  unfold readCoins at h
  unfold writeTxCoins
  cases hc : db.coins (env.getHash tx) with
  | none =>
    rw [hc, some.injEq, ← hlen] at h
    have hblank : ¬ vOuts.all (· == 0) = true := by
      intro hall
      apply hne
      rw [← h]
      exact eq_replicate_of_mem fun m hm => beq_iff_eq.mp (List.all_eq_true.mp hall m hm)
    rw [if_neg hblank, getD_none, drop_nil, append_nil]
  | some data =>
    rw [hc] at h
    dsimp only at h ⊢
    split_ifs at h with hshort
    rw [some.injEq, ← hlen] at h
    have hroom : ¬ data.length < vOuts.length := by omega
    have hdiff : ¬ data.take vOuts.length = vOuts := by
      rw [h]
      exact Ne.symm hne
    simp [hroom, hdiff]

theorem setCoins_ne {stored rest : List Uint256} (h : readCoins env db tx = some stored)
    (hlen : vOuts.length = tx.vout.length) (hne : vOuts ≠ stored) :
    (db.setCoins (env.getHash tx) (vOuts ++ rest)).coins ≠ db.coins := by
  intro heq
  have hself : db.coins (env.getHash tx) = some (vOuts ++ rest) := by
    rw [← heq]
    exact update_self _ _ _
  have hlong : ¬ (vOuts ++ rest).length < tx.vout.length := by
    rw [length_append]
    omega
  rw [readCoins, hself] at h
  dsimp only at h
  rw [if_neg hlong, ← hlen, take_left, some.injEq] at h
  exact hne h

theorem writeCoins_isSome (hlen : vOuts.length = tx.vout.length)
    (hroom : db.HasRoom (env.getHash tx) tx.vout.length) :
    (writeCoins env true db tx vOuts).isSome = true := by
  rw [writeCoins, if_neg (not_not.mpr hlen)]
  unfold writeTxCoins
  cases hc : db.coins (env.getHash tx) with
  | none =>
    rw [if_pos (rfl : true = true)]
    split_ifs <;> rfl
  | some data =>
    have hdata := hroom data hc
    dsimp only
    rw [if_neg (by omega), if_pos (rfl : true = true)]
    split_ifs <;> rfl

/-! ## Erasing -/

@[simp] theorem eraseCoins_txs : (eraseCoins env db tx).txs = db.txs := rfl

@[simp] theorem eraseCoins_blocks : (eraseCoins env db tx).blocks = db.blocks := rfl

@[simp] theorem eraseTx_coins : (eraseTx env db tx).coins = db.coins := rfl

@[simp] theorem eraseTx_blocks : (eraseTx env db tx).blocks = db.blocks := rfl

theorem eraseCoins_coins_self : (eraseCoins env db tx).coins (env.getHash tx) = none :=
  update_self _ _ _

theorem eraseCoins_coins_ne (hne : hash ≠ env.getHash tx) :
    (eraseCoins env db tx).coins hash = db.coins hash :=
  update_of_ne hne _ _

theorem eraseTx_txs_self :
    (eraseTx env db tx).txs (env.getHash tx) = (db.txs (env.getHash tx)).tail :=
  update_self _ _ _

theorem eraseTx_txs_ne (hne : hash ≠ env.getHash tx) : (eraseTx env db tx).txs hash = db.txs hash :=
  update_of_ne hne _ _

/-! ## Blocks -/

theorem writeTx_coins : (writeTx env height db tx).coins = db.coins := by
  unfold writeTx
  dsimp only
  split_ifs <;> rfl

theorem foldl_writeTx_coins : (vtx.foldl (writeTx env height) db).coins = db.coins := by
  induction vtx generalizing db with
  | nil => rfl
  | cons tx vtx ih => rw [foldl_cons, ih, writeTx_coins]

theorem writeTx_blocks : (writeTx env height db tx).blocks = db.blocks := by
  unfold writeTx
  dsimp only
  split_ifs <;> rfl

theorem foldl_writeTx_blocks : (vtx.foldl (writeTx env height) db).blocks = db.blocks := by
  induction vtx generalizing db with
  | nil => rfl
  | cons tx vtx ih => rw [foldl_cons, ih, writeTx_blocks]

theorem writeTx_txs (hash : Uint256) :
    (writeTx env height db tx).txs hash
      = if hash = env.getHash tx ∧ (db.txs hash).head? ≠ some height then height :: db.txs hash
        else db.txs hash := by
  unfold writeTx
  by_cases hhead : (db.txs (env.getHash tx)).head? = some height <;>
    by_cases heq : hash = env.getHash tx <;> simp [hhead, heq]

theorem foldl_writeTx_txs (hash : Uint256) :
    (vtx.foldl (writeTx env height) db).txs hash
      = if hash ∈ vtx.map env.getHash ∧ (db.txs hash).head? ≠ some height
        then height :: db.txs hash else db.txs hash := by
  induction vtx generalizing db with
  | nil => simp
  | cons tx vtx ih =>
    rw [foldl_cons, ih, writeTx_txs]
    by_cases heq : hash = env.getHash tx
    · -- the reference is there after the first step, so no later step adds it again
      subst heq
      by_cases hhead : (db.txs (env.getHash tx)).head? = some height <;> simp [hhead]
    · simp [heq]

/-- The stores with what a block adds to the tx and block chains: itself, and a reference for each
    of its transactions. A block that is stored already adds nothing. -/
def withBlock (env : TxEnv) (db : ChainDb) (height : Nat) (block : CBlock) : ChainDb :=
  if (db.blocks height).map CBlock.hash = some block.hash then db
  else
    { db with
      txs := fun hash =>
        if hash ∈ block.vtx.map env.getHash ∧ (db.txs hash).head? ≠ some height
        then height :: db.txs hash else db.txs hash
      blocks := update db.blocks height (some block) }

theorem withBlock_congr (htxs : db'.txs = db.txs) (hblocks : db'.blocks = db.blocks) :
    (withBlock env db' height block).txs = (withBlock env db height block).txs ∧
      (withBlock env db' height block).blocks = (withBlock env db height block).blocks := by
  unfold withBlock
  rw [htxs, hblocks]
  split_ifs
  · exact ⟨htxs, hblocks⟩
  · exact ⟨rfl, rfl⟩

theorem writeBlock_stores (h : writeBlock env fWrite db height block = (true, db')) :
    db'.txs = (withBlock env db height block).txs ∧
      db'.blocks = (withBlock env db height block).blocks := by
  unfold writeBlock at h
  unfold withBlock
  split_ifs at h ⊢ <;> cases h
  · exact ⟨rfl, rfl⟩
  · exact ⟨funext foldl_writeTx_txs, foldl_writeTx_blocks⟩

theorem writeBlock_coins {fWrite ok : Bool}
    (h : writeBlock env fWrite db height block = (ok, db')) : db'.coins = db.coins := by
  unfold writeBlock at h
  split_ifs at h <;> cases h
  · rfl
  · exact foldl_writeTx_coins
  · rfl

end ShareCoin.Server
