import ShareCoin.Proof.Server.Connect

/-!
# What a rejected block leaves behind

`core_ConnectBlock` applies the validate matrix of a coinbase during its walk, and writes the queued
markers one record after the other before it writes the block. Neither is taken back when a later
step fails. A rejected block leaves the wallet and the coin chain as they were exactly when it fails
before a matrix is accepted and before a record changes. The records are written in the order of
their hashes, so it is the least hash with a marker that changes that decides.
-/

namespace ShareCoin.Server

open Lib List Option

variable {env : ConnectEnv} {disk : Disk} {iface : CIface} {node : Node} {pindex : CBlockIndex}
  {block : CBlock} {tx : CTransaction} {s : ConnectState} {v v' : ValidateState}
  {r : Option ConnectState} {txs : List CTransaction}

/-! ## The validate matrix -/

/-- The coinbase carries a matrix that the wallet accepts. -/
def Applies (env : ConnectEnv) (iface : CIface) (node : Node) (pindex : CBlockIndex)
    (v : ValidateState) (tx : CTransaction) : Prop :=
  tx.isCoinBase = true ∧ hasValidateMatrix iface.ifaceIndex = true ∧
    (blockAcceptValidateMatrix env.toMatrixEnv iface.ifaceIndex v tx
      (pindex.pprev.or node.best)).map Prod.fst = some (some true)

/-- One transaction: it appends to the list of matrix transactions, or leaves the wallet alone. -/
theorem connectCoinInputs_validate
    (h : connectCoinInputs env iface node blockFlags pindex (some block) tx s v = some (r, v')) :
    (Applies env iface node pindex v tx ∧
        v'.mapValidateTx.length = v.mapValidateTx.length + 1) ∨
      (¬ Applies env iface node pindex v tx ∧ v' = v) := by
  unfold connectCoinInputs at h
  cases hcb : tx.isCoinBase with
  | false =>
    rw [hcb, if_neg Bool.false_ne_true] at h
    cases h
    refine .inr ⟨?_, rfl⟩
    intro ha
    rw [ha.1] at hcb
    cases hcb
  | true =>
    rw [hcb, if_pos rfl] at h
    obtain ⟨⟨ok, v₁⟩, hbase, h⟩ := bind_eq_some_iff.mp h
    cases h
    unfold connectCoinBase at hbase
    split_ifs at hbase with hcoin
    · obtain ⟨⟨fCheck, v₂⟩, hb, hbase⟩ := bind_eq_some_iff.mp hbase
      cases hbase
      rcases blockAcceptValidateMatrix_cases hb with ⟨hne, hsame⟩ | ⟨heq, hA⟩
      · refine .inr ⟨fun ha => hne ?_, hsame⟩
        have hfst := ha.2.2
        rw [hb, map_some, some.injEq] at hfst
        exact hfst
      · refine .inl ⟨⟨hcb, hcoin, by rw [hb, heq]; rfl⟩, ?_⟩
        rw [hA.txs_eq, length_append, length_singleton]
    · cases hbase
      exact .inr ⟨fun ha => hcoin ha.2.1, rfl⟩

theorem connectTxs_length (h : connectTxs env iface node pindex block txs s v = some (r, v')) :
    v.mapValidateTx.length ≤ v'.mapValidateTx.length := by
  induction txs generalizing s v with
  | nil =>
    cases h
    exact Nat.le_refl _
  | cons tx txs ih =>
    obtain ⟨⟨r₁, v₁⟩, hc, h⟩ := bind_eq_some_iff.mp h
    have hstep : v.mapValidateTx.length ≤ v₁.mapValidateTx.length := by
      rcases connectCoinInputs_validate hc with ⟨-, hlen⟩ | ⟨-, hsame⟩
      · omega
      · exact Nat.le_of_eq (by rw [hsame])
    cases r₁ with
    | none =>
      cases h
      exact hstep
    | some s₁ => exact Nat.le_trans hstep (ih h)

/-- A coinbase whose matrix is accepted is reached: the transactions before it are connected, and
    leave the wallet alone. -/
def ReachesMatrix (env : ConnectEnv) (iface : CIface) (node : Node) (pindex : CBlockIndex)
    (block : CBlock) (s : ConnectState) (v : ValidateState) (txs : List CTransaction) : Prop :=
  ∃ pre tx post s₁, txs = pre ++ tx :: post ∧
    connectTxs env iface node pindex block pre s v = some (some s₁, v) ∧
    Applies env iface node pindex v tx

theorem reachesMatrix_nil : ¬ ReachesMatrix env iface node pindex block s v [] := by
  simp [ReachesMatrix]

theorem reachesMatrix_cons (hno : ¬ Applies env iface node pindex v tx) :
    ReachesMatrix env iface node pindex block s v (tx :: txs) ↔
      ∃ pre t post s₁, txs = pre ++ t :: post ∧
        connectTxs env iface node pindex block (tx :: pre) s v = some (some s₁, v) ∧
        Applies env iface node pindex v t := by
  unfold ReachesMatrix
  simp only [exists_and_left, exists_split_cons]
  refine or_iff_right ?_
  rintro ⟨-, -, ha⟩
  exact hno ha

/-- **The walk leaves the wallet alone exactly when it reaches no matrix.** -/
theorem connectTxs_validate_iff
    (h : connectTxs env iface node pindex block txs s v = some (r, v')) :
    v' = v ↔ ¬ ReachesMatrix env iface node pindex block s v txs := by
  induction txs generalizing s with
  | nil =>
    cases h
    exact iff_of_true rfl reachesMatrix_nil
  | cons tx txs ih =>
    obtain ⟨⟨r₁, v₁⟩, hc, h⟩ := bind_eq_some_iff.mp h
    rcases connectCoinInputs_validate hc with ⟨ha, hlen⟩ | ⟨hno, hsame⟩
    · refine iff_of_false ?_ (not_not.mpr ⟨[], tx, txs, s, rfl, rfl, ha⟩)
      intro heq
      have hle : v₁.mapValidateTx.length ≤ v'.mapValidateTx.length := by
        cases r₁ with
        | none =>
          cases h
          exact Nat.le_refl _
        | some s₁ => exact connectTxs_length h
      rw [heq] at hle
      omega
    · rw [hsame] at hc h
      cases r₁ with
      | none =>
        cases h
        refine iff_of_true rfl ?_
        rw [reachesMatrix_cons hno]
        rintro ⟨pre, t, post, s₂, -, hpre, -⟩
        rw [connectTxs, hc] at hpre
        cases hpre
      | some s₁ =>
        have hstep : ∀ pre, connectTxs env iface node pindex block (tx :: pre) s v
            = connectTxs env iface node pindex block pre s₁ v := by
          intro pre
          rw [connectTxs, hc]
          rfl
        rw [ih h, reachesMatrix_cons hno]
        simp only [hstep]
        rfl

/-! ## The coin chain -/

/-- The write of one queued record, as the commit makes it. -/
def writeQueued (env : ConnectEnv) (disk : Disk) (db : ChainDb)
    (e : Uint256 × CTransaction × List Uint256) : Option ChainDb :=
  writeCoins env.toTxEnv (disk.coins e.1) db e.2.1 e.2.2

/-- The first queued record that differs from the stored one is written. -/
def WritesRecord (env : ConnectEnv) (disk : Disk) (db : ChainDb)
    (l : List (Uint256 × CTransaction × List Uint256)) : Prop :=
  ∃ pre e post db₁, l = pre ++ e :: post ∧ (∀ e' ∈ pre, writeQueued env disk db e' = some db) ∧
    writeQueued env disk db e = some db₁ ∧ db₁.coins ≠ db.coins

variable {db : ChainDb}

theorem writesRecord_nil : ¬ WritesRecord env disk db [] := by
  simp [WritesRecord]

variable {l : List (Uint256 × CTransaction × List Uint256)}
variable {e : Uint256 × CTransaction × List Uint256} {ok : Bool}

theorem writesRecord_cons :
    WritesRecord env disk db (e :: l) ↔
      (∃ db₁, writeQueued env disk db e = some db₁ ∧ db₁.coins ≠ db.coins) ∨
        writeQueued env disk db e = some db ∧ WritesRecord env disk db l := by
  unfold WritesRecord
  simp only [exists_and_left, exists_split_cons, forall_mem_cons]
  refine or_congr (and_iff_right (by simp)) ?_
  constructor
  · rintro ⟨pre, x, post, heq, ⟨he, hpre⟩, hx⟩
    exact ⟨he, pre, x, post, heq, hpre, hx⟩
  · rintro ⟨he, pre, x, post, heq, hpre, hx⟩
    exact ⟨pre, x, post, heq, ⟨he, hpre⟩, hx⟩

theorem writeQueued_eq_self {db₁ : ChainDb} (h : writeQueued env disk db e = some db₁)
    (hcoins : db₁.coins = db.coins) : db₁ = db := by
  obtain ⟨-, hw⟩ := writeCoins_spec h
  cases db
  cases db₁
  simp only [ChainDb.mk.injEq]
  exact ⟨hcoins, hw.txs_eq, hw.blocks_eq⟩

theorem commitCoins_cons_none (h : writeQueued env disk db e = none) :
    commitCoins env disk (e :: l) db = (false, db) := by
  unfold writeQueued at h
  rw [commitCoins, h]

theorem commitCoins_cons_some {db₁ : ChainDb} (h : writeQueued env disk db e = some db₁) :
    commitCoins env disk (e :: l) db = commitCoins env disk l db₁ := by
  unfold writeQueued at h
  rw [commitCoins, h]

theorem commitCoins_coins_ne {db₁ db' : ChainDb} (hkeys : ∀ e' ∈ l, e.1 ≠ e'.1)
    (hhash : ∀ e' ∈ e :: l, env.getHash e'.2.1 = e'.1) (hw : writeQueued env disk db e = some db₁)
    (hne : db₁.coins ≠ db.coins) (h : commitCoins env disk l db₁ = (ok, db')) :
    db'.coins ≠ db.coins := by
  intro heq
  apply hne
  obtain ⟨-, hwritten⟩ := writeCoins_spec hw
  rw [hhash e mem_cons_self] at hwritten
  funext hash
  by_cases hkey : hash = e.1
  · rw [hkey, ← congrFun heq e.1]
    exact (commitCoins_frame (fun e' he' => hhash e' (mem_cons_of_mem _ he')) h
      fun e' he' => (hkeys e' he').symm).symm
  · exact hwritten.coins_ne hash hkey

/-- **A commit leaves the coin chain alone exactly when it writes no record that differs.** -/
theorem commitCoins_coins_iff {db' : ChainDb} (hkeys : l.Pairwise fun a b => a.1 ≠ b.1)
    (hhash : ∀ e ∈ l, env.getHash e.2.1 = e.1) (h : commitCoins env disk l db = (ok, db')) :
    db'.coins = db.coins ↔ ¬ WritesRecord env disk db l := by
  induction l with
  | nil =>
    cases h
    exact iff_of_true rfl writesRecord_nil
  | cons e l ih =>
    rw [pairwise_cons] at hkeys
    have hrest := fun e' he' => hhash e' (mem_cons_of_mem _ he')
    rw [writesRecord_cons]
    cases hw : writeQueued env disk db e with
    | none =>
      rw [commitCoins_cons_none hw] at h
      cases h
      simp
    | some db₁ =>
      rw [commitCoins_cons_some hw] at h
      by_cases hcoins : db₁.coins = db.coins
      · -- nothing was written, and the commit goes on from the same stores
        have hsame := writeQueued_eq_self hw hcoins
        rw [hsame] at h
        rw [ih hkeys.2 hrest h, hsame]
        simp
      · refine iff_of_false (commitCoins_coins_ne hkeys.1 hhash hw hcoins h) ?_
        exact not_not.mpr (.inl ⟨db₁, rfl, hcoins⟩)

/-! ## The first record that changes -/

/-- The spends leave another marker at an output of the hash. -/
def Changes (env : TxEnv) (db : ChainDb) (es : List (CTransaction × COutPoint))
    (hash : Uint256) : Prop :=
  ∃ e ∈ es, e.2.hash = hash ∧ markAll env.getHash db.marker es e.2 ≠ db.marker e.2

/-- The device takes the record of the least hash that changes, which is the first one written. -/
def WritesFirst (env : TxEnv) (disk : Disk) (db : ChainDb)
    (es : List (CTransaction × COutPoint)) : Prop :=
  ∃ hash, Changes env db es hash ∧ (∀ hash', Changes env db es hash' → hash ≤ hash') ∧
    disk.coins hash = true

section Filled

variable {pBlock : Option CBlock} {m : TxMap} {es : List (CTransaction × COutPoint)}
  {hash : Uint256} {e : CTransaction × List Uint256}

section

variable (h : m.Filled env node pBlock es) (he : m[hash]? = some e)
include h he

theorem TxMap.Filled.getElem?_eq {o : COutPoint} (ho : o.hash = hash)
    (hn : o.n.toNat < e.2.length) :
    e.2[o.n.toNat]? = some (markAll env.getHash node.db.marker es o) := by
  rw [← h.view_eq, TxMap.view, ho, he]
  simp [hn]

theorem TxMap.Filled.changes_iff {stored : List Uint256}
    (hstored : readCoins env.toTxEnv node.db e.1 = some stored) :
    Changes env.toTxEnv node.db es hash ↔ e.2 ≠ stored := by
  obtain ⟨hhash, hlen, -⟩ := h.sound _ _ he
  obtain ⟨hslen, hmarker⟩ := readCoins_marker hstored
  -- a spend of the hash has its place in the queued and in the stored markers
  have hplace : ∀ s ∈ es, s.2.hash = hash →
      e.2[s.2.n.toNat]? = some (markAll env.getHash node.db.marker es s.2) ∧
        stored[s.2.n.toNat]? = some (node.db.marker s.2) := by
    intro s hs hsh
    obtain ⟨q, hq, hn⟩ := h.holds.mem s hs
    rw [hsh, he] at hq
    cases hq
    exact ⟨h.getElem?_eq he hsh (by omega), hmarker s.2 (by rw [hsh, hhash]) (by omega)⟩
  constructor
  · rintro ⟨s, hs, hsh, hne⟩ heq
    obtain ⟨hqueued, hold⟩ := hplace s hs hsh
    rw [heq, hold] at hqueued
    exact hne (some.inj hqueued).symm
  · intro hne
    by_contra hno
    apply hne
    apply ext_getElem?
    intro i
    obtain ⟨stored', hstored', hsame⟩ := h.holds.outs hash e he
    rw [hstored] at hstored'
    cases hstored'
    by_cases hhit : ∃ s ∈ es, s.2.hash = hash ∧ s.2.n.toNat = i
    · obtain ⟨s, hs, hsh, rfl⟩ := hhit
      obtain ⟨hqueued, hold⟩ := hplace s hs hsh
      have heq : markAll env.getHash node.db.marker es s.2 = node.db.marker s.2 := by
        by_contra hc
        exact hno ⟨s, hs, hsh, hc⟩
      rw [hqueued, hold, heq]
    · exact hsame i fun s hs hsh hi => hhit ⟨s, hs, hsh, hi⟩

theorem TxMap.Filled.writeQueued_cases :
    (¬ Changes env.toTxEnv node.db es hash ∧
        writeQueued env disk node.db (hash, e) = some node.db) ∨
      Changes env.toTxEnv node.db es hash ∧
        (disk.coins hash = false ∧ writeQueued env disk node.db (hash, e) = none ∨
          disk.coins hash = true ∧ ∃ db₁, writeQueued env disk node.db (hash, e) = some db₁ ∧
            db₁.coins ≠ node.db.coins) := by
  obtain ⟨-, hlen, -⟩ := h.sound _ _ he
  obtain ⟨stored, hstored, -⟩ := h.holds.outs _ _ he
  rw [h.changes_iff he hstored]
  unfold writeQueued
  by_cases hsame : e.2 = stored
  · refine .inl ⟨not_not.mpr hsame, ?_⟩
    rw [hsame]
    exact writeCoins_same hstored
  · refine .inr ⟨hsame, ?_⟩
    rw [writeCoins_of_ne hstored hlen hsame]
    cases disk.coins hash with
    | false => exact .inl ⟨rfl, rfl⟩
    | true => exact .inr ⟨rfl, _, rfl, setCoins_ne hstored hlen hsame⟩

end

theorem toList_lt (m : TxMap) : m.toList.Pairwise fun a b => a.1 < b.1 := by
  refine List.Pairwise.imp ?_ (Std.TreeMap.ordered_keys_toList (t := m))
  intro a b hlt
  exact compareOfLessAndEq_eq_lt.mp hlt

section

variable (h : m.Filled env node pBlock es)
include h

theorem TxMap.Filled.not_changes (he : m[hash]? = some e)
    (hw : writeQueued env disk node.db (hash, e) = some node.db) :
    ¬ Changes env.toTxEnv node.db es hash := by
  intro hch
  rcases h.writeQueued_cases he with ⟨hno, -⟩ | ⟨-, ⟨-, hnone⟩ | ⟨-, db₁, hw₁, hne⟩⟩
  · exact hno hch
  · rw [hw] at hnone
    cases hnone
  · rw [hw] at hw₁
    cases hw₁
    exact hne rfl

theorem TxMap.Filled.queued (hch : Changes env.toTxEnv node.db es hash) :
    ∃ e, m[hash]? = some e := by
  obtain ⟨s, hs, hsh, -⟩ := hch
  obtain ⟨e, he, -⟩ := h.holds.mem s hs
  rw [hsh] at he
  exact ⟨e, he⟩

/-- **The commit writes a record that differs exactly when the device takes the first one.** -/
theorem TxMap.Filled.writesRecord_iff :
    WritesRecord env disk node.db m.toList ↔ WritesFirst env.toTxEnv disk node.db es := by
  constructor
  · rintro ⟨pre, ⟨key, e⟩, post, db₁, hl, hpre, hw, hne⟩
    have hlt := toList_lt m
    rw [hl, pairwise_append, pairwise_cons] at hlt
    have he : m[key]? = some e := by
      rw [← mem_toList_iff, hl]
      exact mem_append_right _ mem_cons_self
    rcases h.writeQueued_cases he with ⟨-, hsame⟩ | ⟨hch, ⟨-, hnone⟩ | ⟨hdisk, -⟩⟩
    · rw [hw] at hsame
      cases hsame
      exact absurd rfl hne
    · rw [hw] at hnone
      cases hnone
    · refine ⟨key, hch, ?_, hdisk⟩
      intro hash' hch'
      obtain ⟨e', he'⟩ := h.queued hch'
      have hmem := mem_toList_iff.mpr he'
      rw [hl, mem_append, mem_cons] at hmem
      rcases hmem with hmem | heq | hmem
      · exact absurd hch' (h.not_changes he' (hpre _ hmem))
      · cases heq
        exact BitVec.le_refl _
      · exact BitVec.le_of_lt (hlt.2.1.1 _ hmem)
  · rintro ⟨hash, hch, hleast, hdisk⟩
    obtain ⟨e, he⟩ := h.queued hch
    obtain ⟨pre, post, hl⟩ := append_of_mem (mem_toList_iff.mpr he)
    have hlt := toList_lt m
    rw [hl, pairwise_append] at hlt
    rcases h.writeQueued_cases he with ⟨hno, -⟩ | ⟨-, ⟨hrefused, -⟩ | ⟨-, db₁, hw, hne⟩⟩
    · exact absurd hch hno
    · rw [hdisk] at hrefused
      cases hrefused
    · refine ⟨pre, (hash, e), post, db₁, hl, ?_, hw, hne⟩
      -- a record before the least one that changes is left as it is
      rintro ⟨key, e'⟩ hmem
      have he' : m[key]? = some e' := by
        rw [← mem_toList_iff, hl]
        exact mem_append_left _ hmem
      rcases h.writeQueued_cases he' with ⟨-, hsame⟩ | ⟨hch', -⟩
      · exact hsame
      · exact absurd (hleast key hch') (BitVec.not_le.mpr (hlt.2.2 _ hmem _ mem_cons_self))

end

end Filled

/-! ## Rejected blocks -/

/-- The walk reaches a matrix that is accepted, or passes with a first record that is written. -/
def Touches (env : ConnectEnv) (disk : Disk) (iface : CIface) (node : Node) (block : CBlock)
    (pindex : CBlockIndex) : Prop :=
  checkContext env iface node block pindex = true ∧
    (ReachesMatrix env iface node pindex block connectStart node.validate block.vtx ∨
      (∃ s v, connectTxs env iface node pindex block block.vtx connectStart node.validate
          = some (some s, v) ∧ checkTotals env iface block pindex s = some true) ∧
        WritesFirst env.toTxEnv disk node.db (spends block.vtx))

theorem commitBlock_coins_iff {m : TxMap} {db' : ChainDb} (hm : m.Sound env.toTxEnv db)
    (h : commitBlock env disk iface db m block pindex = (ok, db')) :
    db'.coins = db.coins ↔ ¬ WritesRecord env disk db m.toList := by
  unfold commitBlock at h
  cases hc : commitCoins env disk m.toList db with
  | mk ok₁ db₁ =>
    rw [← commitCoins_coins_iff (pairwise_toList m) hm.hash_toList hc]
    have hsame : db'.coins = db₁.coins := by
      rw [hc] at h
      cases ok₁ with
      | false =>
        cases h
        rfl
      | true =>
        cases hprev : pindex.pprev with
        | none =>
          rw [hprev] at h
          cases h
          rfl
        | some p =>
          rw [hprev] at h
          exact writeBlock_coins h
    rw [hsame]

/-- **A rejected block leaves the matrix, its transactions and notaries, and the coin chain as they
    were exactly when it fails before it touches them.** -/
theorem rejected_block_intact_iff (env : ConnectEnv) (disk : Disk) (iface : CIface) (node : Node)
    (block : CBlock) (pindex : CBlockIndex) (node' : Node)
    (h : coreConnectBlock env disk iface node block pindex = some (false, node')) :
    (node'.validate = node.validate ∧ node'.db.coins = node.db.coins) ↔
      ¬ Touches env disk iface node block pindex := by
  cases coreConnectBlock_outcome h with
  | refused hctx => exact iff_of_true ⟨rfl, rfl⟩ fun ht => by rw [ht.1] at hctx; cases hctx
  | failed hctx hwalk =>
    have hv := connectTxs_validate_iff hwalk
    constructor
    · rintro ⟨hsame, -⟩ ⟨-, hr | ⟨⟨s, v, hwalk', -⟩, -⟩⟩
      · exact hv.mp hsame hr
      · rw [hwalk] at hwalk'
        cases hwalk'
    · intro ht
      exact ⟨hv.mpr fun hr => ht ⟨hctx, .inl hr⟩, rfl⟩
  | excessive hctx hwalk htot =>
    have hv := connectTxs_validate_iff hwalk
    constructor
    · rintro ⟨hsame, -⟩ ⟨-, hr | ⟨⟨s, v, hwalk', htot'⟩, -⟩⟩
      · exact hv.mp hsame hr
      · rw [hwalk] at hwalk'
        cases hwalk'
        rw [htot] at htot'
        cases htot'
    · intro ht
      exact ⟨hv.mpr fun hr => ht ⟨hctx, .inl hr⟩, rfl⟩
  | committed hctx hwalk htot hcommit =>
    have hv := connectTxs_validate_iff hwalk
    obtain ⟨-, hfilled⟩ := connectTxs_filled hwalk
    have hcoins := commitBlock_coins_iff hfilled.sound hcommit
    rw [hfilled.writesRecord_iff] at hcoins
    constructor
    · rintro ⟨hsame, hcsame⟩ ⟨-, hr | ⟨-, hw⟩⟩
      · exact hv.mp hsame hr
      · exact hcoins.mp hcsame hw
    · intro ht
      exact ⟨hv.mpr fun hr => ht ⟨hctx, .inl hr⟩,
        hcoins.mpr fun hw => ht ⟨hctx, .inr ⟨⟨_, _, hwalk, htot⟩, hw⟩⟩⟩

/-- **A rejected block changes the matrix of the wallet.** Its coinbase carries an acceptable matrix
    of height 27, and the transaction after it spends an output that does not exist. -/
theorem rejected_block_applies_matrix : let block : CBlock :=
      { hash := 101
        vtx := [matrixCoinbase noDestination (some (matrixAfter CTxMatrix.null 27)),
          spendTx 3 [(77, 0)] [1]] }
    (coreConnectBlock connectEnvSample diskSample shcIface nodeSample block (chainSample 55)).map
        (fun r => (r.1, r.2.validate.matrixValidate.nHeight, r.2.validate.mapValidateTx))
      = some (false, 27, [0]) ∧
    nodeSample.validate.matrixValidate.nHeight = 0 ∧ nodeSample.validate.mapValidateTx = [] := by
  decide

/-- A block that repeats a transaction of the chain is refused before anything happens. -/
theorem rejected_block_intact_repeated :
    ∃ node', coreConnectBlock connectEnvSample diskSample shcIface nodeSample
        { hash := 101, vtx := [coinbaseTx 2 [1], spendTx 1 [(9, 0)] [50]] } (chainSample 1)
        = some (false, node') ∧
      node'.validate = nodeSample.validate ∧ node'.db.coins = nodeSample.db.coins := by
  have hrejected : (coreConnectBlock connectEnvSample diskSample shcIface nodeSample
      { hash := 101, vtx := [coinbaseTx 2 [1], spendTx 1 [(9, 0)] [50]] } (chainSample 1)).map
      Prod.fst = some false := rfl
  obtain ⟨⟨_, node'⟩, hrun, rfl⟩ := map_eq_some_iff.mp hrejected
  refine ⟨node', hrun, (rejected_block_intact_iff _ _ _ _ _ _ _ hrun).mpr ?_⟩
  intro ht
  exact absurd ht.1 (by decide)

end ShareCoin.Server
