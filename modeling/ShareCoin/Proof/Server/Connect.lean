import ShareCoin.Server.Connect
import ShareCoin.Proof.Server.CoinDb
import ShareCoin.Proof.Server.Matrix
import ShareCoin.Lib.Archive
import ShareCoin.Lib.Marks

/-!
# What connecting a block does

The walk over a block is described through one function of the queued markers, `TxMap.view`: the
marker of an output as the walk sees it, from the queue or else from the coin chain. An input that
passes found a free marker there and leaves the hash of its transaction; a transaction does so for
its inputs, and a block for all its transactions, in order (`connectTxs_passes`). Writing the queue
makes the view the marker of the coin chain (`commitCoins_marker`).
-/

namespace ShareCoin.Server

open Lib List Option

variable {env : ConnectEnv} {iface : CIface} {node : Node} {fl : ConnectFlags}
  {pindex : CBlockIndex} {pBlock : Option CBlock} {tx : CTransaction}

/-! ## Previous transactions -/

variable {hash : Uint256}

theorem findTx_hash {env : TxEnv} {queue : List CPoolTx}
    (h : findTx env queue hash = some tx) : env.getHash tx = hash := by
  obtain ⟨ptx, hptx, rfl⟩ := map_eq_some_iff.mp h
  simpa using find?_some hptx

theorem CPool.getTx_hash {env : TxEnv} {pool : CPool}
    (h : pool.getTx env hash = some tx) : env.getHash tx = hash := by
  unfold CPool.getTx at h
  rw [or_eq_some_iff, or_eq_some_iff, or_eq_some_iff] at h
  rcases h with (h | ⟨-, h⟩) | ⟨-, h | ⟨-, h⟩⟩ <;> exact findTx_hash h

theorem findPrevTx_hash {hashBlock : Uint256}
    (h : findPrevTx env node pBlock hash = some (tx, hashBlock)) : env.getHash tx = hash := by
  unfold findPrevTx at h
  split at h
  · rename_i found hfound
    cases h
    exact getTransaction_hash hfound
  · split at h
    · rename_i tx' htx'
      cases h
      exact CPool.getTx_hash htx'
    · obtain ⟨tx', htx', heq⟩ := map_eq_some_iff.mp h
      cases heq
      obtain ⟨block, -, hblock⟩ := bind_eq_some_iff.mp htx'
      exact CBlock.getTx_hash hblock

/-! ## The queue -/

/-- The marker of an output, from the queue or else from the coin chain. -/
def TxMap.view (m : TxMap) (db : ChainDb) (o : COutPoint) : Uint256 :=
  ((m[o.hash]?).bind fun e => e.2[o.n.toNat]?).getD (db.marker o)

/-- The entries of a queue: a transaction with the hash of its key, a marker for each of its
    outputs, and a record in the coin chain that has room for them. -/
def TxMap.Sound (m : TxMap) (env : TxEnv) (db : ChainDb) : Prop :=
  ∀ (hash : Uint256) (e : CTransaction × List Uint256), m[hash]? = some e →
    env.getHash e.1 = hash ∧ e.2.length = e.1.vout.length ∧ db.HasRoom hash e.1.vout.length

variable {db db' : ChainDb}

theorem sound_empty {env : TxEnv} : TxMap.Sound ∅ env db := by
  intro hash e h
  simp at h

variable {m : TxMap} {e : CTransaction × List Uint256}

theorem getElem?_insert_self : (m.insert hash e)[hash]? = some e := by
  simp

theorem getElem?_insert_ne {hash' : Uint256} (hne : hash' ≠ hash) :
    (m.insert hash e)[hash']? = m[hash']? := by
  rw [Std.TreeMap.getElem?_insert, if_neg]
  rw [Std.LawfulEqOrd.compare_eq_iff_eq]
  exact fun h => hne h.symm

/-! ## One input -/

/-- The output that an input refers to, by the search of the source. -/
def prevOut (env : ConnectEnv) (node : Node) (pBlock : Option CBlock) (o : COutPoint) :
    Option CTxOut :=
  (findPrevTx env node pBlock o.hash).bind fun found => found.1.vout[o.n.toNat]?

structure InputPassed (env : ConnectEnv) (iface : CIface) (node : Node) (pBlock : Option CBlock)
    (tx : CTransaction) (s : InputState) (o : COutPoint) (prevtx : CTransaction) (out : CTxOut)
    (outs : List Uint256) (s' : InputState) : Prop where
  found : ∃ hashBlock, findPrevTx env node pBlock o.hash = some (prevtx, hashBlock)
  out_eq : prevtx.vout[o.n.toNat]? = some out
  range : moneyRange iface out.nValue = true
  outs_eq : queuedOuts env.toTxEnv node.db s.mapOutput o.hash prevtx = some outs
  length_eq : outs.length = prevtx.vout.length
  free : ∃ marker, outs[o.n.toNat]? = some marker ∧
    alreadySpent env.toTxEnv node.db tx marker = false
  map_eq : s'.mapOutput
    = s.mapOutput.insert o.hash (prevtx, outs.set o.n.toNat (env.getHash tx))
  value_eq : s'.nValueIn = s.nValueIn + out.nValue + out.nValue

variable {s s' : InputState}

theorem connectInput_spec {input : CTxIn × Nat}
    (h : connectInput env iface node fl pindex pBlock tx s input = some s') :
    ∃ prevtx out outs,
      InputPassed env iface node pBlock tx s input.1.prevout prevtx out outs s' := by
  obtain ⟨txin, i⟩ := input
  obtain ⟨⟨prevtx, hashBlock⟩, hfind, h⟩ := bind_eq_some_iff.mp h
  obtain ⟨out, hout, h⟩ := bind_eq_some_iff.mp h
  obtain ⟨hrange, h⟩ := ite_none_left_eq_some.mp h
  obtain ⟨-, h⟩ := ite_none_left_eq_some.mp h
  obtain ⟨outs, houts, h⟩ := bind_eq_some_iff.mp h
  obtain ⟨hlen, h⟩ := ite_none_left_eq_some.mp h
  obtain ⟨marker, hmarker, h⟩ := bind_eq_some_iff.mp h
  obtain ⟨hspent, h⟩ := ite_none_left_eq_some.mp h
  obtain ⟨-, h⟩ := ite_none_left_eq_some.mp h
  obtain ⟨-, h⟩ := ite_none_left_eq_some.mp h
  cases h
  exact ⟨prevtx, out, outs, ⟨hashBlock, hfind⟩, hout, by simpa using hrange, houts,
    not_not.mp hlen, ⟨marker, hmarker, by simpa using hspent⟩, rfl, rfl⟩

variable {o : COutPoint} {prevtx : CTransaction} {outs : List Uint256} {out : CTxOut}
  {inputs : List (CTxIn × Nat)}

theorem InputPassed.prevOut_eq (h : InputPassed env iface node pBlock tx s o prevtx out outs s') :
    prevOut env node pBlock o = some out := by
  obtain ⟨hashBlock, hfind⟩ := h.found
  rw [prevOut, hfind]
  exact h.out_eq

theorem queuedOuts_spec (hm : m.Sound env.toTxEnv node.db)
    (hhash : env.getHash prevtx = o.hash)
    (h : queuedOuts env.toTxEnv node.db m o.hash prevtx = some outs)
    (hlen : outs.length = prevtx.vout.length) :
    node.db.HasRoom o.hash prevtx.vout.length ∧
      ∀ o' : COutPoint, o'.hash = o.hash →
        (outs[o'.n.toNat]?).getD (node.db.marker o') = m.view node.db o' := by
  unfold queuedOuts at h
  split at h
  · rename_i t outs' hmap
    cases h
    obtain ⟨-, hlen', hroom⟩ := hm _ _ hmap
    constructor
    · intro data hdata
      rw [← hlen, hlen']
      exact hroom data hdata
    · intro o' ho'
      rw [TxMap.view, ho', hmap]
      rfl
  · rename_i hmap
    obtain ⟨-, hmarker⟩ := readCoins_marker h
    have hroom : (readCoins env.toTxEnv node.db prevtx).isSome = true := by rw [h]; rfl
    rw [readCoins_isSome_iff, hhash] at hroom
    refine ⟨hroom, ?_⟩
    intro o' ho'
    rw [TxMap.view, ho', hmap]
    by_cases hn : o'.n.toNat < outs.length
    · rw [hmarker o' (by rw [ho', hhash]) hn]
      rfl
    · rw [getElem?_eq_none (Nat.le_of_not_lt hn)]
      rfl

theorem view_insert (houts : ∀ o' : COutPoint, o'.hash = o.hash →
      (outs[o'.n.toNat]?).getD (db.marker o') = m.view db o')
    (hn : o.n.toNat < outs.length) :
    TxMap.view (m.insert o.hash (prevtx, outs.set o.n.toNat hash)) db
      = Function.update (m.view db) o hash := by
  funext o'
  by_cases ho : o' = o
  · subst ho
    rw [Function.update_self, TxMap.view, getElem?_insert_self]
    simp [hn]
  rw [Function.update_of_ne ho]
  by_cases hhash : o'.hash = o.hash
  · have hidx : o'.n.toNat ≠ o.n.toNat := fun hidx => ho (COutPoint.ext_toNat hhash hidx)
    rw [← houts o' hhash, TxMap.view, hhash, getElem?_insert_self]
    simp only [bind_some]
    rw [getElem?_set_ne hidx.symm]
  · rw [TxMap.view, TxMap.view, getElem?_insert_ne hhash]

theorem InputPassed.view_spec (h : InputPassed env iface node pBlock tx s o prevtx out outs s')
    (hm : s.mapOutput.Sound env.toTxEnv node.db) :
    alreadySpent env.toTxEnv node.db tx (s.mapOutput.view node.db o) = false ∧
      s'.mapOutput.view node.db
        = Function.update (s.mapOutput.view node.db) o (env.getHash tx) ∧
      s'.mapOutput.Sound env.toTxEnv node.db := by
  obtain ⟨hashBlock, hfind⟩ := h.found
  have hhash := findPrevTx_hash hfind
  obtain ⟨hroom, hview⟩ := queuedOuts_spec hm hhash h.outs_eq h.length_eq
  obtain ⟨marker, hmarker, hfree⟩ := h.free
  have hn : o.n.toNat < outs.length := (List.getElem?_eq_some_iff.mp hmarker).1
  rw [h.map_eq]
  refine ⟨?_, view_insert hview hn, ?_⟩
  · rw [← hview _ rfl, hmarker]
    exact hfree
  · intro hash e he
    rcases getElem?_insert_eq_some_iff.mp he with ⟨rfl, rfl⟩ | ⟨-, he⟩
    · exact ⟨hhash, by simpa using h.length_eq, hroom⟩
    · exact hm hash e he

/-! ## Transactions -/

def txSpends (tx : CTransaction) : List (CTransaction × COutPoint) :=
  if tx.isCoinBase then [] else tx.vin.map fun txin => (tx, txin.prevout)

def spends (vtx : List CTransaction) : List (CTransaction × COutPoint) := vtx.flatMap txSpends

theorem spends_cons (tx : CTransaction) (vtx : List CTransaction) :
    spends (tx :: vtx) = txSpends tx ++ spends vtx :=
  flatMap_cons

theorem mem_spends {vtx : List CTransaction} {e : CTransaction × COutPoint} :
    e ∈ spends vtx ↔
      e.1 ∈ vtx ∧ e.1.isCoinBase = false ∧ ∃ txin ∈ e.1.vin, txin.prevout = e.2 := by
  obtain ⟨tx, o⟩ := e
  unfold spends txSpends
  rw [mem_flatMap]
  constructor
  · rintro ⟨t, ht, he⟩
    split_ifs at he with hcb
    · cases he
    · obtain ⟨txin, htxin, heq⟩ := List.mem_map.mp he
      cases heq
      exact ⟨ht, by simpa using hcb, txin, htxin, rfl⟩
  · rintro ⟨ht, hcb, txin, htxin, rfl⟩
    refine ⟨tx, ht, ?_⟩
    rw [hcb, if_neg Bool.false_ne_true]
    exact List.mem_map.mpr ⟨txin, htxin, rfl⟩

/-- The test of the source as a predicate. -/
def Busy (env : TxEnv) (db : ChainDb) (tx : CTransaction) (marker : Uint256) : Prop :=
  alreadySpent env db tx marker = true

theorem busy_iff {env : TxEnv} {tx : CTransaction} {marker : Uint256} :
    Busy env db tx marker ↔
      marker ≠ 0 ∧ marker ≠ env.getHash tx ∧ verifyTxHash env db marker = true := by
  simp [Busy, alreadySpent, and_assoc]

/-- Spends that all find a free marker. -/
abbrev SpendsPass (env : TxEnv) (db : ChainDb) (v : COutPoint → Uint256)
    (es : List (CTransaction × COutPoint)) : Prop :=
  Passes env.getHash (Busy env db) v es

theorem connectInputs_passes (hm : s.mapOutput.Sound env.toTxEnv node.db)
    (h : exec (connectInput env iface node fl pindex pBlock tx) s inputs = some s') :
    SpendsPass env.toTxEnv node.db (s.mapOutput.view node.db)
        (inputs.map fun input => (tx, input.1.prevout)) ∧
      s'.mapOutput.view node.db = markAll env.getHash (s.mapOutput.view node.db)
        (inputs.map fun input => (tx, input.1.prevout)) ∧
      s'.mapOutput.Sound env.toTxEnv node.db := by
  induction inputs generalizing s with
  | nil =>
    cases h
    exact ⟨trivial, rfl, hm⟩
  | cons input inputs ih =>
    obtain ⟨s₁, h₁, h₂⟩ := exec_cons_eq_some.mp h
    obtain ⟨prevtx, out, outs, hp⟩ := connectInput_spec h₁
    obtain ⟨hfree, hupd, hsound₁⟩ := hp.view_spec hm
    -- the rest of the inputs starts from the view that this one leaves
    obtain ⟨hpass, hview, hsound⟩ := ih hsound₁ h₂
    rw [hupd] at hpass hview
    refine ⟨⟨?_, hpass⟩, hview, hsound⟩
    rw [Busy, hfree]
    exact Bool.false_ne_true

/-- A transaction that is no coinbase: its inputs have passed, and the value of the inputs as the
    source adds it up covers the outputs. -/
structure SpendsConnected (env : ConnectEnv) (iface : CIface) (node : Node) (fl : ConnectFlags)
    (pindex : CBlockIndex) (pBlock : Option CBlock) (tx : CTransaction) (s s' : ConnectState)
    (start r : InputState) : Prop where
  start_eq : start.mapOutput = s.mapOutput ∧ start.nValueIn = 0
  run : exec (connectInput env iface node fl pindex pBlock tx) start tx.vin.zipIdx = some r
  fee : moneyRange iface (r.nValueIn - tx.getValueOut) = true
  range : moneyRange iface r.nValueIn = true
  covers : tx.getValueOut ≤ r.nValueIn
  map_eq : s'.mapOutput = r.mapOutput
  fees_eq : s'.nFees = s.nFees + (r.nValueIn - tx.getValueOut)

theorem connectSpends_spec {s s' : ConnectState}
    (h : connectSpends env iface node fl pindex pBlock tx s = some s') :
    ∃ start r, SpendsConnected env iface node fl pindex pBlock tx s s' start r := by
  obtain ⟨r, hrun, h⟩ := bind_eq_some_iff.mp h
  obtain ⟨hfee, h⟩ := ite_none_left_eq_some.mp h
  obtain ⟨hrange, h⟩ := ite_none_left_eq_some.mp h
  obtain ⟨hcov, h⟩ := ite_none_left_eq_some.mp h
  cases h
  exact ⟨_, r, ⟨rfl, rfl⟩, hrun, by simpa using hfee, by simpa using hrange,
    Int64.not_lt.mp hcov, rfl, rfl⟩

theorem map_zipIdx_prevout (hcb : tx.isCoinBase = false) :
    (tx.vin.zipIdx.map fun input => (tx, input.1.prevout)) = txSpends tx := by
  have hfst : tx.vin.zipIdx.map Prod.fst = tx.vin := zipIdx_map_fst 0 tx.vin
  rw [txSpends, hcb, if_neg Bool.false_ne_true]
  conv_rhs => rw [← hfst, List.map_map]
  rfl

theorem connectSpends_passes {s s' : ConnectState} (hcb : tx.isCoinBase = false)
    (hm : s.mapOutput.Sound env.toTxEnv node.db)
    (h : connectSpends env iface node fl pindex pBlock tx s = some s') :
    SpendsPass env.toTxEnv node.db (s.mapOutput.view node.db) (txSpends tx) ∧
      s'.mapOutput.view node.db
        = markAll env.getHash (s.mapOutput.view node.db) (txSpends tx) ∧
      s'.mapOutput.Sound env.toTxEnv node.db := by
  obtain ⟨start, r, hc⟩ := connectSpends_spec h
  have hpass := connectInputs_passes (by rw [hc.start_eq.1]; exact hm) hc.run
  rwa [map_zipIdx_prevout hcb, hc.start_eq.1, ← hc.map_eq] at hpass

/-! ## The walk -/

variable {block : CBlock} {txs : List CTransaction} {v v' : ValidateState}

theorem connectTxs_cons {s s' : ConnectState}
    (h : connectTxs env iface node pindex block (tx :: txs) s v = some (some s', v')) :
    ∃ s₁ v₁, connectTxs env iface node pindex block txs s₁ v₁ = some (some s', v') ∧
      (tx.isCoinBase = true ∧ s₁ = s ∨ tx.isCoinBase = false ∧
        connectSpends env iface node blockFlags pindex (some block) tx s = some s₁) := by
  obtain ⟨⟨r, v₁⟩, hc, h⟩ := bind_eq_some_iff.mp h
  cases r with
  | none => cases h
  | some s₁ =>
    refine ⟨s₁, v₁, h, ?_⟩
    unfold connectCoinInputs at hc
    cases hcb : tx.isCoinBase with
    | true =>
      rw [hcb, if_pos rfl] at hc
      obtain ⟨⟨ok, v₂⟩, -, hc⟩ := bind_eq_some_iff.mp hc
      rw [some.injEq, Prod.mk.injEq, ite_none_right_eq_some] at hc
      obtain ⟨⟨-, hs⟩, -⟩ := hc
      cases hs
      exact .inl ⟨rfl, rfl⟩
    | false =>
      rw [hcb, if_neg Bool.false_ne_true, some.injEq, Prod.mk.injEq] at hc
      exact .inr ⟨rfl, hc.1⟩

theorem txSpends_coinbase (hcb : tx.isCoinBase = true) : txSpends tx = [] := by
  rw [txSpends, hcb, if_pos rfl]

theorem connectTxs_passes {s s' : ConnectState} (hm : s.mapOutput.Sound env.toTxEnv node.db)
    (h : connectTxs env iface node pindex block txs s v = some (some s', v')) :
    SpendsPass env.toTxEnv node.db (s.mapOutput.view node.db) (spends txs) ∧
      s'.mapOutput.view node.db = markAll env.getHash (s.mapOutput.view node.db) (spends txs) ∧
      s'.mapOutput.Sound env.toTxEnv node.db := by
  induction txs generalizing s v with
  | nil =>
    cases h
    exact ⟨trivial, rfl, hm⟩
  | cons tx txs ih =>
    obtain ⟨s₁, v₁, h, hstep⟩ := connectTxs_cons h
    have htx : SpendsPass env.toTxEnv node.db (s.mapOutput.view node.db) (txSpends tx) ∧
        s₁.mapOutput.view node.db
          = markAll env.getHash (s.mapOutput.view node.db) (txSpends tx) ∧
        s₁.mapOutput.Sound env.toTxEnv node.db := by
      rcases hstep with ⟨hcb, rfl⟩ | ⟨hcb, hc⟩
      · rw [txSpends_coinbase hcb]
        exact ⟨trivial, rfl, hm⟩
      · exact connectSpends_passes hcb hm hc
    obtain ⟨hpass, hview, hsound⟩ := ih htx.2.2 h
    rw [htx.2.1, ← markAll_append] at hview
    rw [htx.2.1] at hpass
    exact ⟨passes_append.mpr ⟨htx.1, hpass⟩, hview, hsound⟩

/-! ## What the queue holds -/

/-- The queue holds transactions as the search finds them, those of the given spends among them,
    with their stored markers except where one of the spends is. -/
structure TxMap.Holds (m : TxMap) (env : ConnectEnv) (node : Node) (pBlock : Option CBlock)
    (es : List (CTransaction × COutPoint)) : Prop where
  found : ∀ hash e, m[hash]? = some e →
    ∃ hashBlock, findPrevTx env node pBlock hash = some (e.1, hashBlock)
  mem : ∀ e ∈ es, ∃ q, m[e.2.hash]? = some q ∧ e.2.n.toNat < q.1.vout.length
  outs : ∀ hash e, m[hash]? = some e → ∃ stored, readCoins env.toTxEnv node.db e.1 = some stored ∧
    ∀ i, (∀ s ∈ es, s.2.hash = hash → s.2.n.toNat ≠ i) → e.2[i]? = stored[i]?

theorem holds_empty : TxMap.Holds ∅ env node pBlock [] :=
  ⟨fun hash e h => by simp at h, fun _ he => absurd he not_mem_nil,
    fun hash e h => by simp at h⟩

variable {es : List (CTransaction × COutPoint)}

theorem TxMap.Holds.queuedOuts_stored (hm : m.Holds env node pBlock es) {hashBlock : Uint256}
    (hfind : findPrevTx env node pBlock hash = some (prevtx, hashBlock))
    (h : queuedOuts env.toTxEnv node.db m hash prevtx = some outs) :
    ∃ stored, readCoins env.toTxEnv node.db prevtx = some stored ∧
      ∀ i, (∀ s ∈ es, s.2.hash = hash → s.2.n.toNat ≠ i) → outs[i]? = stored[i]? := by
  unfold queuedOuts at h
  split at h
  · rename_i t outs' hmap
    cases h
    obtain ⟨hashBlock', hfind'⟩ := hm.found _ _ hmap
    rw [hfind] at hfind'
    cases hfind'
    exact hm.outs _ _ hmap
  · exact ⟨outs, h, fun _ _ => rfl⟩

theorem InputPassed.holds (h : InputPassed env iface node pBlock tx s o prevtx out outs s')
    (hm : s.mapOutput.Holds env node pBlock es) :
    s'.mapOutput.Holds env node pBlock (es ++ [(tx, o)]) := by
  obtain ⟨hashBlock, hfind⟩ := h.found
  have hn : o.n.toNat < prevtx.vout.length := (List.getElem?_eq_some_iff.mp h.out_eq).1
  rw [h.map_eq]
  refine ⟨?_, ?_, ?_⟩
  · intro hash e he
    rcases getElem?_insert_eq_some_iff.mp he with ⟨rfl, rfl⟩ | ⟨-, he⟩
    · exact ⟨hashBlock, hfind⟩
    · exact hm.found hash e he
  · intro e he
    rcases mem_append.mp he with he | he
    · obtain ⟨q, hq, hlt⟩ := hm.mem e he
      by_cases heq : e.2.hash = o.hash
      · -- the entry is replaced, by one for the same transaction
        obtain ⟨hashBlock', hfind'⟩ := hm.found _ _ hq
        rw [heq, hfind] at hfind'
        cases hfind'
        rw [heq]
        exact ⟨_, getElem?_insert_self, hlt⟩
      · rw [getElem?_insert_ne heq]
        exact ⟨q, hq, hlt⟩
    · rw [mem_singleton] at he
      subst he
      exact ⟨_, getElem?_insert_self, hn⟩
  · intro hash e he
    rcases getElem?_insert_eq_some_iff.mp he with ⟨rfl, rfl⟩ | ⟨-, he⟩
    · obtain ⟨stored, hstored, hsame⟩ := hm.queuedOuts_stored hfind h.outs_eq
      refine ⟨stored, hstored, ?_⟩
      intro i hi
      have hne : o.n.toNat ≠ i := hi (tx, o) (mem_append_right _ mem_cons_self) rfl
      rw [getElem?_set_ne hne]
      exact hsame i fun s hs => hi s (mem_append_left _ hs)
    · obtain ⟨stored, hstored, hsame⟩ := hm.outs hash e he
      exact ⟨stored, hstored, fun i hi => hsame i fun s hs => hi s (mem_append_left _ hs)⟩

theorem connectInputs_holds (hm : s.mapOutput.Holds env node pBlock es)
    (h : exec (connectInput env iface node fl pindex pBlock tx) s inputs = some s') :
    s'.mapOutput.Holds env node pBlock
      (es ++ inputs.map fun input => (tx, input.1.prevout)) := by
  induction inputs generalizing s es with
  | nil =>
    cases h
    rwa [map_nil, append_nil]
  | cons input inputs ih =>
    obtain ⟨s₁, h₁, h₂⟩ := exec_cons_eq_some.mp h
    obtain ⟨prevtx, out, outs, hp⟩ := connectInput_spec h₁
    have hrest := ih (hp.holds hm) h₂
    rwa [append_assoc] at hrest

theorem connectTxs_holds {s s' : ConnectState}
    (hm : s.mapOutput.Holds env node (some block) es)
    (h : connectTxs env iface node pindex block txs s v = some (some s', v')) :
    s'.mapOutput.Holds env node (some block) (es ++ spends txs) := by
  induction txs generalizing s v es with
  | nil =>
    cases h
    rwa [spends, flatMap_nil, append_nil]
  | cons tx txs ih =>
    obtain ⟨s₁, v₁, h, hstep⟩ := connectTxs_cons h
    have htx : s₁.mapOutput.Holds env node (some block) (es ++ txSpends tx) := by
      rcases hstep with ⟨hcb, rfl⟩ | ⟨hcb, hc⟩
      · rwa [txSpends_coinbase hcb, append_nil]
      · obtain ⟨start, r, hc⟩ := connectSpends_spec hc
        have hr := connectInputs_holds (by rw [hc.start_eq.1]; exact hm) hc.run
        rwa [map_zipIdx_prevout hcb, ← hc.map_eq] at hr
    rw [spends_cons, ← append_assoc]
    exact ih htx h

/-- A queue that the walk has filled from the given spends. -/
structure TxMap.Filled (m : TxMap) (env : ConnectEnv) (node : Node) (pBlock : Option CBlock)
    (es : List (CTransaction × COutPoint)) : Prop where
  sound : m.Sound env.toTxEnv node.db
  holds : m.Holds env node pBlock es
  view_eq : m.view node.db = markAll env.getHash node.db.marker es

def connectStart : ConnectState := { mapOutput := ∅, nSigOps := 0, nFees := 0 }

theorem connectTxs_filled {s : ConnectState}
    (h : connectTxs env iface node pindex block txs connectStart v = some (some s, v')) :
    SpendsPass env.toTxEnv node.db node.db.marker (spends txs) ∧
      s.mapOutput.Filled env node (some block) (spends txs) := by
  obtain ⟨hpass, hview, hsound⟩ := connectTxs_passes sound_empty h
  exact ⟨hpass, hsound, connectTxs_holds holds_empty h, hview⟩

/-! ## Writing the queue -/

variable {disk : Disk} {l : List (Uint256 × CTransaction × List Uint256)}

theorem commitCoins_cons {e : Uint256 × CTransaction × List Uint256} {ok : Bool}
    (hhash : env.getHash e.2.1 = e.1) (h : commitCoins env disk (e :: l) db = (ok, db')) :
    ok = false ∧ db' = db ∨
      ∃ db₁, CoinsWritten db e.1 e.2.2 db₁ ∧ commitCoins env disk l db₁ = (ok, db') := by
  unfold commitCoins at h
  cases hw : writeCoins env.toTxEnv (disk.coins e.1) db e.2.1 e.2.2 with
  | none =>
    rw [hw] at h
    cases h
    exact .inl ⟨rfl, rfl⟩
  | some db₁ =>
    rw [hw] at h
    exact .inr ⟨db₁, hhash ▸ (writeCoins_spec hw).2, h⟩

theorem commitCoins_frame {ok : Bool} (hhash : ∀ e ∈ l, env.getHash e.2.1 = e.1)
    (h : commitCoins env disk l db = (ok, db')) (hne : ∀ e ∈ l, e.1 ≠ hash) :
    db'.coins hash = db.coins hash := by
  induction l generalizing db with
  | nil =>
    cases h
    rfl
  | cons e l ih =>
    obtain ⟨-, rfl⟩ | ⟨db₁, hwritten, h⟩ := commitCoins_cons (hhash _ mem_cons_self) h
    · rfl
    · rw [ih (forall_mem_cons.mp hhash).2 h
          (forall_mem_cons.mp hne).2,
        hwritten.coins_ne hash (hne _ mem_cons_self).symm]

theorem commitCoins_spec (hkeys : l.Pairwise fun a b => a.1 ≠ b.1)
    (hhash : ∀ e ∈ l, env.getHash e.2.1 = e.1) (h : commitCoins env disk l db = (true, db')) :
    db'.txs = db.txs ∧ db'.blocks = db.blocks ∧ ∀ e ∈ l, RecordWritten db e.1 e.2.2 db' := by
  induction l generalizing db with
  | nil =>
    cases h
    exact ⟨rfl, rfl, fun _ he => absurd he not_mem_nil⟩
  | cons e l ih =>
    obtain ⟨hno, -⟩ | ⟨db₁, hwritten, hcommit⟩ := commitCoins_cons (hhash _ mem_cons_self) h
    · cases hno
    · rw [pairwise_cons] at hkeys
      have hrest := (forall_mem_cons.mp hhash).2
      obtain ⟨htxs, hblocks, hrec⟩ := ih hkeys.2 hrest hcommit
      refine ⟨htxs.trans hwritten.txs_eq, hblocks.trans hwritten.blocks_eq, ?_⟩
      intro e he
      -- the keys differ, so no record is written twice
      rcases mem_cons.mp he with rfl | he
      · exact hwritten.record.congr rfl
          (commitCoins_frame hrest hcommit fun e he => (hkeys.1 e he).symm)
      · exact (hrec e he).congr (hwritten.coins_ne _ (hkeys.1 e he).symm) rfl

theorem mem_toList_iff : (hash, e) ∈ m.toList ↔ m[hash]? = some e :=
  Std.TreeMap.mem_toList_iff_getElem?_eq_some

theorem pairwise_toList (m : TxMap) : m.toList.Pairwise fun a b => a.1 ≠ b.1 := by
  refine List.Pairwise.imp ?_ (Std.TreeMap.distinct_keys_toList (t := m))
  intro a b hne
  rwa [Std.LawfulEqOrd.compare_eq_iff_eq] at hne

theorem TxMap.Sound.hash_toList {env : TxEnv} (hm : m.Sound env db) :
    ∀ e ∈ m.toList, env.getHash e.2.1 = e.1 :=
  fun _ he => (hm _ _ (mem_toList_iff.mp he)).1

/-- **The queue becomes the coin chain**: every marker is then what the walk saw at its end. -/
theorem commitCoins_marker
    (hm : m.Sound env.toTxEnv db) (h : commitCoins env disk m.toList db = (true, db')) :
    db'.txs = db.txs ∧ db'.blocks = db.blocks ∧ (∀ o, db'.marker o = m.view db o) ∧
      ∀ hash e, m[hash]? = some e → db'.HasRoom hash e.1.vout.length := by
  obtain ⟨htxs, hblocks, hrec⟩ := commitCoins_spec (pairwise_toList m) hm.hash_toList h
  refine ⟨htxs, hblocks, ?_, ?_⟩
  · intro o
    cases he : m[o.hash]? with
    | none =>
      -- nothing is queued for this hash, so nothing is written
      rw [TxMap.view, he]
      refine marker_congr (commitCoins_frame hm.hash_toList h ?_)
      intro e hmem heq
      rw [← heq, mem_toList_iff.mp hmem] at he
      cases he
    | some e =>
      rw [TxMap.view, he]
      exact (hrec _ (mem_toList_iff.mpr he)).marker_eq o rfl
  · intro hash e he
    obtain ⟨-, hlen, hroom⟩ := hm _ _ he
    exact (hrec _ (mem_toList_iff.mpr he)).room _ (Nat.le_of_eq hlen.symm) hroom

/-! ## The block -/

/-- How a call of `core_ConnectBlock` can end, and what it leaves. -/
inductive BlockOutcome (env : ConnectEnv) (disk : Disk) (iface : CIface) (node : Node)
    (block : CBlock) (pindex : CBlockIndex) : Bool → Node → Prop where
  | refused : checkContext env iface node block pindex = false →
      BlockOutcome env disk iface node block pindex false node
  | failed {v : ValidateState} : checkContext env iface node block pindex = true →
      connectTxs env iface node pindex block block.vtx connectStart node.validate
        = some (none, v) →
      BlockOutcome env disk iface node block pindex false { node with validate := v }
  | excessive {s : ConnectState} {v : ValidateState} :
      checkContext env iface node block pindex = true →
      connectTxs env iface node pindex block block.vtx connectStart node.validate
        = some (some s, v) →
      checkTotals env iface block pindex s = some false →
      BlockOutcome env disk iface node block pindex false { node with validate := v }
  | committed {s : ConnectState} {v : ValidateState} {ok : Bool} {db : ChainDb} :
      checkContext env iface node block pindex = true →
      connectTxs env iface node pindex block block.vtx connectStart node.validate
        = some (some s, v) →
      checkTotals env iface block pindex s = some true →
      commitBlock env disk iface node.db s.mapOutput block pindex = (ok, db) →
      BlockOutcome env disk iface node block pindex ok { node with db := db, validate := v }

theorem coreConnectBlock_outcome {ok : Bool} {node' : Node}
    (h : coreConnectBlock env disk iface node block pindex = some (ok, node')) :
    BlockOutcome env disk iface node block pindex ok node' := by
  unfold coreConnectBlock at h
  cases hctx : checkContext env iface node block pindex with
  | false =>
    rw [hctx] at h
    cases h
    exact .refused hctx
  | true =>
    rw [hctx, if_neg (by simp)] at h
    obtain ⟨⟨r, v⟩, hwalk, h⟩ := bind_eq_some_iff.mp h
    cases r with
    | none =>
      cases h
      exact .failed hctx hwalk
    | some s =>
      obtain ⟨ok', htot, h⟩ := bind_eq_some_iff.mp h
      cases ok' with
      | false =>
        cases h
        exact .excessive hctx hwalk htot
      | true =>
        cases h
        exact .committed hctx hwalk htot rfl

/-- The stores with what an accepted block adds to the tx and block chains; the first block adds
    nothing. -/
def storedDb (env : ConnectEnv) (iface : CIface) (db : ChainDb) (block : CBlock)
    (pindex : CBlockIndex) : ChainDb :=
  match pindex.pprev with
  | none => db
  | some _ => withBlock env.toTxEnv db (commitHeight env iface pindex) block

theorem storedDb_congr (htxs : db'.txs = db.txs) (hblocks : db'.blocks = db.blocks) :
    (storedDb env iface db' block pindex).txs = (storedDb env iface db block pindex).txs ∧
      (storedDb env iface db' block pindex).blocks
        = (storedDb env iface db block pindex).blocks := by
  unfold storedDb
  cases pindex.pprev with
  | none => exact ⟨htxs, hblocks⟩
  | some p => exact withBlock_congr htxs hblocks

structure BlockAccepted (env : ConnectEnv) (iface : CIface) (node : Node) (block : CBlock)
    (pindex : CBlockIndex) (node' : Node) : Prop where
  passes : SpendsPass env.toTxEnv node.db node.db.marker (spends block.vtx)
  marker_eq : node'.db.marker = markAll env.getHash node.db.marker (spends block.vtx)
  txs_eq : node'.db.txs = (storedDb env iface node.db block pindex).txs
  blocks_eq : node'.db.blocks = (storedDb env iface node.db block pindex).blocks
  pool_eq : node'.pool = node.pool
  found : ∀ e ∈ spends block.vtx, ∃ prevtx hashBlock,
    findPrevTx env node (some block) e.2.hash = some (prevtx, hashBlock) ∧
      e.2.n.toNat < prevtx.vout.length ∧ node'.db.HasRoom e.2.hash prevtx.vout.length

theorem commitBlock_spec (h : commitBlock env disk iface db m block pindex = (true, db')) :
    ∃ db₁, commitCoins env disk m.toList db = (true, db₁) ∧ db'.coins = db₁.coins ∧
      db'.txs = (storedDb env iface db₁ block pindex).txs ∧
      db'.blocks = (storedDb env iface db₁ block pindex).blocks := by
  unfold commitBlock at h
  cases hcoins : commitCoins env disk m.toList db with
  | mk ok db₁ =>
    rw [hcoins] at h
    cases ok with
    | false => cases h
    | true =>
      refine ⟨db₁, rfl, ?_⟩
      unfold storedDb
      cases hprev : pindex.pprev with
      | none =>
        rw [hprev] at h
        cases h
        exact ⟨rfl, rfl, rfl⟩
      | some p =>
        rw [hprev] at h
        exact ⟨writeBlock_coins h, writeBlock_stores h⟩

theorem coreConnectBlock_accepted {node' : Node}
    (h : coreConnectBlock env disk iface node block pindex = some (true, node')) :
    BlockAccepted env iface node block pindex node' := by
  cases coreConnectBlock_outcome h with
  | committed hctx hwalk htot hcommit =>
    rename_i s v db
    obtain ⟨hpass, hfilled⟩ := connectTxs_filled hwalk
    obtain ⟨db₁, hcoins, hdb, htxs', hblocks'⟩ := commitBlock_spec hcommit
    obtain ⟨htxs, hblocks, hmarker, hroom⟩ := commitCoins_marker hfilled.sound hcoins
    refine ⟨hpass, ?_, htxs'.trans (storedDb_congr htxs hblocks).1,
      hblocks'.trans (storedDb_congr htxs hblocks).2, rfl, ?_⟩
    · funext o
      rw [← hfilled.view_eq, ← hmarker o]
      exact marker_congr (congrFun hdb _)
    · intro e he
      obtain ⟨q, hq, hn⟩ := hfilled.holds.mem e he
      obtain ⟨hashBlock, hfind⟩ := hfilled.holds.found _ _ hq
      refine ⟨q.1, hashBlock, hfind, hn, fun data hdata => hroom _ _ hq data ?_⟩
      rw [← hdb]
      exact hdata

/-! ## A chain to try it on -/

/-- Scripts that always pass, and transactions known by their lock time. -/
def connectEnvSample : ConnectEnv where
  getHash := fun tx => BitVec.ofNat 256 tx.nLockTime.toNat
  getSerializeSize := fun _ => 100
  matrixHash := fun _ => 0
  hash160 := fun _ => 0
  solverPubKey := fun script => some (script.take 33)
  generateMTRandom := fun _ => 1
  colorBase := fun _ => 0
  getBlockScriptFlags := fun _ => 0
  sequenceLocks := fun _ _ _ _ => true
  verifySignature := fun _ _ _ _ => true
  verifyCoinInputs := fun _ _ _ => true
  getLegacySigOpCount := fun _ => 0
  getSigOpCount := fun _ _ => 0
  colorMaturity := 0
  colorTotalBlocks := 0

def spendTx (id : UInt32) (ins : List (Uint256 × UInt32)) (outs : List Int64) : CTransaction where
  nFlag := 1
  vin := ins.map fun (hash, n) =>
    { prevout := { hash := hash, n := n }, scriptSig := [], nSequence := 0 }
  vout := outs.map fun nValue => { nValue := nValue, scriptPubKey := [2, 3, 4] }
  nLockTime := id
  matrix := CTxMatrix.null
  ext := []

def coinbaseTx (id : UInt32) (outs : List Int64) : CTransaction :=
  spendTx id [(0, 0xFFFFFFFF)] outs

/-- The block of height zero: one transaction, with hash 1, that has two outputs of fifty and one
    of nothing. -/
def blockZero : CBlock := { hash := 100, vtx := [spendTx 1 [(9, 0)] [50, 50, 0]] }

def nodeSample : Node where
  db :=
    { coins := fun _ => none
      txs := fun hash => if hash = 1 then [0] else []
      blocks := fun height => if height = 0 then some blockZero else none }
  pool := {}
  validate := ValidateState.null
  blockIndex := fun hash => if hash = 100 then some 0 else none
  best := some (chainSample 0)

/-- A block whose transactions spend different outputs, one of them of the other. -/
def blockOne : CBlock :=
  { hash := 101
    vtx := [coinbaseTx 2 [1000], spendTx 3 [(1, 0)] [50], spendTx 4 [(1, 1), (3, 0)] [40]] }

def diskSample : Disk := { coins := fun _ => true, block := true }

end ShareCoin.Server
