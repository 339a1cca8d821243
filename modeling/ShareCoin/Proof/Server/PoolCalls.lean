import ShareCoin.Proof.Server.Pool
import ShareCoin.Server.PoolCalls
import Mathlib.Algebra.Order.BigOperators.Group.List

/-!
# What the calls of the pool preserve

One invariant for all calls: every entry has the weight of its transaction, and its `mapNextTx` has
outputs that it spends; those of an active entry are all that it spends, and no other active entry
spends one of them; the entries of the overflow queue have been looked up; and the active queue is
not too heavy. Because of the third of these `AddActiveTx` never has to look anything up, so nothing
happens between its check of the weight and its insertion.

Under the condition `tight` every hash is in one queue. What can go wrong is an orphan that is taken
up and refused: it gets a second place and keeps its first. `away` are hashes that are in no queue
during a call, and `quiet` such that are not pending.
-/

namespace ShareCoin.Server

open List Option

/-! ## Queues and hashes -/

inductive PoolQueue where
  | active | pending | overflow | stale | inval
  deriving DecidableEq

def CPool.entries (pool : CPool) : PoolQueue → List CPoolTx
  | .active => pool.active
  | .pending => pool.pending
  | .overflow => pool.overflow
  | .stale => pool.stale
  | .inval => []

def CPool.hashes (getHash : CTransaction → Uint256) (pool : CPool) (q : PoolQueue) :
    List Uint256 :=
  if q = .inval then pool.inval else (pool.entries q).map fun ptx => getHash ptx.tx

def OneQueue (getHash : CTransaction → Uint256) (pool : CPool) : Prop :=
  ∀ h q q', h ∈ pool.hashes getHash q → h ∈ pool.hashes getHash q' → q = q'

def CTransaction.prevouts (tx : CTransaction) : List COutPoint := tx.vin.map CTxIn.prevout

/-- What does not change from one call to the next. -/
structure PoolConst where
  getHash : CTransaction → Uint256
  getTransactionWeight : CTransaction → Nat
  maxWeight : Int

def PoolCallEnv.const (env : PoolCallEnv) : PoolConst :=
  ⟨env.getHash, env.getTransactionWeight, env.maxWeight⟩

/-! ## The invariant -/

structure EntryOk (k : PoolConst) (q : PoolQueue) (ptx : CPoolTx) : Prop where
  weight_eq : ptx.nWeight = k.getTransactionWeight ptx.tx
  next_sub : ptx.mapNextTx ⊆ ptx.tx.prevouts
  filled : q = .overflow → ptx.HasInputs
  active : q = .active → ptx.tx.prevouts ⊆ ptx.mapNextTx

structure PoolInv (k : PoolConst) (tight : Prop) (away quiet : Uint256 → Prop)
    (pool : CPool) : Prop where
  entries : ∀ q, ∀ ptx ∈ pool.entries q, EntryOk k q ptx
  apart : pool.active.Pairwise fun a b => ∀ o ∈ a.tx.prevouts, o ∉ b.tx.prevouts
  weight : 0 ≤ k.maxWeight → (pool.active.map CPoolTx.nWeight).sum ≤ k.maxWeight
  single : tight → OneQueue k.getHash pool
  away : tight → ∀ h, away h → ∀ q, h ∉ pool.hashes k.getHash q
  quiet : tight → ∀ h, quiet h → h ∉ pool.hashes k.getHash .pending

variable {k : PoolConst} {tight : Prop} {away quiet : Uint256 → Prop}
  {pool pool' : CPool} {env : PoolCallEnv} {fuel : Nat} {s s' : PoolState} {ptx : CPoolTx}
  {q : PoolQueue} {hash : Uint256}
variable {queue : List CPoolTx}

theorem poolInv_empty : PoolInv k tight away quiet {} where
  entries := by rintro (_ | _) ptx h <;> cases h
  apart := .nil
  weight := fun h => h
  single := fun _ h q _ hq => by cases q <;> cases hq
  away := fun _ h _ q hq => by cases q <;> cases hq
  quiet := fun _ h _ hq => by cases hq

theorem PoolInv.aside {away' quiet' : Uint256 → Prop} (h : PoolInv k tight away quiet pool)
    (haway : tight → ∀ h, away' h → ∀ q, h ∉ pool.hashes k.getHash q)
    (hquiet : tight → ∀ h, quiet' h → h ∉ pool.hashes k.getHash .pending) :
    PoolInv k tight away' quiet' pool :=
  ⟨h.entries, h.apart, h.weight, h.single, haway, hquiet⟩

/-! ## Taking out -/

/-- Entries are taken out, and nothing else. -/
structure Shrinks (pool pool' : CPool) : Prop where
  active : pool'.active.Sublist pool.active
  entries : ∀ q, pool'.entries q ⊆ pool.entries q
  inval : pool'.inval ⊆ pool.inval

theorem Shrinks.of_sublists (hactive : pool'.active.Sublist pool.active)
    (hpending : pool'.pending ⊆ pool.pending) (hoverflow : pool'.overflow ⊆ pool.overflow)
    (hstale : pool'.stale ⊆ pool.stale) (hinval : pool'.inval ⊆ pool.inval) :
    Shrinks pool pool' := by
  refine ⟨hactive, ?_, hinval⟩
  rintro (_ | _)
  exacts [hactive.subset, hpending, hoverflow, hstale, List.Subset.refl _]

theorem Shrinks.refl (pool : CPool) : Shrinks pool pool :=
  ⟨.refl _, fun _ => List.Subset.refl _, List.Subset.refl _⟩

theorem Shrinks.trans {pool'' : CPool} (h : Shrinks pool pool') (h' : Shrinks pool' pool'') :
    Shrinks pool pool'' :=
  ⟨h'.active.trans h.active, fun q _ hx => h.entries q (h'.entries q hx),
    fun _ hx => h.inval (h'.inval hx)⟩

theorem Shrinks.hashes (h : Shrinks pool pool') (getHash : CTransaction → Uint256) (q : PoolQueue) :
    pool'.hashes getHash q ⊆ pool.hashes getHash q := by
  unfold CPool.hashes
  split_ifs
  · exact h.inval
  · exact map_subset _ (h.entries q)

theorem PoolInv.weights_nonneg (h : PoolInv k tight away quiet pool) :
    ∀ w ∈ pool.active.map CPoolTx.nWeight, 0 ≤ w := by
  intro w hw
  obtain ⟨ptx, hptx, rfl⟩ := List.mem_map.mp hw
  rw [(h.entries .active ptx hptx).weight_eq]
  exact Int.natCast_nonneg _

theorem PoolInv.shrink (h : PoolInv k tight away quiet pool) (hs : Shrinks pool pool') :
    PoolInv k tight away quiet pool' where
  entries := fun q ptx hptx => h.entries q ptx (hs.entries q hptx)
  apart := h.apart.sublist hs.active
  weight := fun h0 =>
    ((hs.active.map _).sum_le_sum h.weights_nonneg).trans (h.weight h0)
  single := fun ht x q q' hq hq' => h.single ht x q q' (hs.hashes _ q hq) (hs.hashes _ q' hq')
  away := fun ht x hx q hq => h.away ht x hx q (hs.hashes _ q hq)
  quiet := fun ht x hx hq => h.quiet ht x hx (hs.hashes _ .pending hq)

theorem eraseEntry_sublist (env : TxEnv) (queue : List CPoolTx) :
    (eraseEntry env hash queue).Sublist queue := filter_sublist

theorem removeTx_shrinks (env : TxEnv) (s : PoolState) (hash : Uint256) :
    Shrinks s.pool (removeTx env s hash).pool := by
  have herase : ∀ queue, (eraseEntry env hash queue).Sublist queue := eraseEntry_sublist env
  unfold removeTx
  split
  · exact .of_sublists (herase _) (fun _ h => h) (fun _ h => h) (fun _ h => h) (fun _ h => h)
  · split_ifs
    · exact .of_sublists (.refl _) (herase _).subset (fun _ h => h) (fun _ h => h) (fun _ h => h)
    · exact .of_sublists (.refl _) (fun _ h => h) (herase _).subset (fun _ h => h) (fun _ h => h)
    · exact .of_sublists (.refl _) (fun _ h => h) (fun _ h => h) (herase _).subset (fun _ h => h)
    · exact .of_sublists (.refl _) (fun _ h => h) (fun _ h => h) (fun _ h => h)
        filter_sublist.subset

theorem findEntry_isSome (env : TxEnv) :
    (findEntry env queue hash).isSome = true ↔ hash ∈ queue.map fun ptx => env.getHash ptx.tx := by
  simp [findEntry]

theorem not_mem_eraseEntry (env : TxEnv) (queue : List CPoolTx) :
    hash ∉ (eraseEntry env hash queue).map fun ptx => env.getHash ptx.tx := by
  simp [eraseEntry]

theorem removeTx_absent (hs : OneQueue env.getHash s.pool) (hash : Uint256) (q : PoolQueue) :
    hash ∉ (removeTx env.toTxEnv s hash).pool.hashes env.getHash q := by
  intro hq
  have hold := (removeTx_shrinks env.toTxEnv s hash).hashes env.getHash q hq
  -- it was in one queue only, and that is the one it is taken out of
  have hwhere : ∀ q', hash ∈ s.pool.hashes env.getHash q' → q = q' := fun q' => hs hash q q' hold
  unfold removeTx at hq
  split at hq
  · next ptx hptx =>
    have hsome : (findEntry env.toTxEnv s.pool.active hash).isSome = true := by rw [hptx]; rfl
    obtain rfl := hwhere .active ((findEntry_isSome _).mp hsome)
    exact not_mem_eraseEntry _ _ hq
  · next hactive =>
    split_ifs at hq with hpending hoverflow hstale
    · obtain rfl := hwhere .pending ((findEntry_isSome _).mp hpending)
      exact not_mem_eraseEntry _ _ hq
    · obtain rfl := hwhere .overflow ((findEntry_isSome _).mp hoverflow)
      exact not_mem_eraseEntry _ _ hq
    · obtain rfl := hwhere .stale ((findEntry_isSome _).mp hstale)
      exact not_mem_eraseEntry _ _ hq
    · cases q with
      | active =>
        have hsome := (findEntry_isSome env.toTxEnv).mpr hold
        simp only [CPool.entries, hactive, isSome_none, Bool.false_eq_true] at hsome
      | pending => exact hpending ((findEntry_isSome _).mpr hold)
      | overflow => exact hoverflow ((findEntry_isSome _).mpr hold)
      | stale => exact hstale ((findEntry_isSome _).mpr hold)
      | inval => simp [CPool.hashes] at hq

/-! ## Putting in -/

theorem mem_insertEntry (env : PoolEnv) {x : CPoolTx} (h : x ∈ insertEntry env ptx queue) :
    x ∈ queue ∨ x = ptx := by
  induction queue with
  | nil => exact .inr (mem_singleton.mp h)
  | cons y ys ih =>
    rw [insertEntry] at h
    split_ifs at h
    · exact (mem_cons.mp h).symm
    · rcases mem_cons.mp h with h | h
      · exact .inr h
      · exact .inl (mem_cons_of_mem _ h)
    · rcases mem_cons.mp h with h | h
      · exact .inl (h ▸ mem_cons_self)
      · exact (ih h).imp_left (mem_cons_of_mem _)

theorem insertEntry_perm (env : PoolEnv)
    (h : env.getHash ptx.tx ∉ queue.map fun x => env.getHash x.tx) :
    (insertEntry env ptx queue).Perm (ptx :: queue) := by
  induction queue with
  | nil => exact .refl _
  | cons y ys ih =>
    simp only [map_cons, mem_cons, not_or] at h
    rw [insertEntry, if_neg h.1]
    split_ifs
    · exact .refl _
    · exact ((ih h.2).cons y).trans (.swap ptx y ys)

/-- An entry comes to a queue, or its hash to the invalid ones. -/
structure Puts (getHash : CTransaction → Uint256) (q : PoolQueue) (ptx : CPoolTx)
    (pool pool' : CPool) : Prop where
  entries : ∀ q', ∀ x ∈ pool'.entries q', x ∈ pool.entries q' ∨ q' = q ∧ x = ptx
  inval : ∀ h ∈ pool'.inval, h ∈ pool.inval ∨ q = .inval ∧ h = getHash ptx.tx

theorem Puts.hashes {getHash : CTransaction → Uint256} (h : Puts getHash q ptx pool pool')
    {q' : PoolQueue} {x : Uint256} (hx : x ∈ pool'.hashes getHash q') :
    x ∈ pool.hashes getHash q' ∨ q' = q ∧ x = getHash ptx.tx := by
  unfold CPool.hashes at hx ⊢
  split_ifs at hx ⊢ with hq
  · exact (h.inval x hx).imp_right fun ⟨hq', hx⟩ => ⟨hq.trans hq'.symm, hx⟩
  · obtain ⟨e, he, rfl⟩ := List.mem_map.mp hx
    rcases h.entries q' e he with he | ⟨hq', rfl⟩
    · exact .inl (List.mem_map_of_mem he)
    · exact .inr ⟨hq', rfl⟩

/-- The entry is in no other queue, where that matters. -/
def FreeFor (k : PoolConst) (tight : Prop) (away : Uint256 → Prop) (q : PoolQueue)
    (pool : CPool) (ptx : CPoolTx) : Prop :=
  tight → (∀ q', q' ≠ q → k.getHash ptx.tx ∉ pool.hashes k.getHash q') ∧ ¬ away (k.getHash ptx.tx)

theorem FreeFor.shrink (h : FreeFor k tight away q pool ptx) (hs : Shrinks pool pool') :
    FreeFor k tight away q pool' ptx :=
  fun ht => ⟨fun q' hq' hmem => (h ht).1 q' hq' (hs.hashes _ q' hmem), (h ht).2⟩

theorem PoolInv.put (h : PoolInv k tight away quiet pool)
    (hput : Puts k.getHash q ptx pool pool') (hok : q ≠ .inval → EntryOk k q ptx)
    (hfree : FreeFor k tight away q pool ptx)
    (hquiet : q = .pending → ∀ x, ¬ quiet x)
    (hactive : pool'.active = pool.active ∨
      pool'.active.Perm (ptx :: pool.active) ∧
        (∀ x ∈ pool.active, ∀ o ∈ ptx.tx.prevouts, o ∉ x.tx.prevouts) ∧
        ptx.nWeight + (pool.active.map CPoolTx.nWeight).sum ≤ k.maxWeight) :
    PoolInv k tight away quiet pool' where
  entries := by
    intro q' x hx
    rcases hput.entries q' x hx with hx' | ⟨rfl, rfl⟩
    · exact h.entries q' x hx'
    · refine hok ?_
      rintro rfl
      cases hx
  apart := by
    rcases hactive with heq | ⟨hperm, hapart, -⟩
    · rw [heq]
      exact h.apart
    · refine hperm.symm.pairwise (pairwise_cons.mpr ⟨hapart, h.apart⟩) ?_
      exact fun hab o ho ho' => hab o ho' ho
  weight := by
    intro h0
    rcases hactive with heq | ⟨hperm, -, hweight⟩
    · rw [heq]
      exact h.weight h0
    · rw [(hperm.map CPoolTx.nWeight).sum_eq, map_cons, sum_cons]
      exact hweight
  single := by
    intro ht x q₁ q₂ h₁ h₂
    rcases hput.hashes h₁ with h₁ | ⟨rfl, hx⟩ <;> rcases hput.hashes h₂ with h₂ | ⟨rfl, hx'⟩
    · exact h.single ht x q₁ q₂ h₁ h₂
    · by_contra hne
      exact (hfree ht).1 q₁ hne (hx' ▸ h₁)
    · by_contra hne
      exact (hfree ht).1 q₂ (Ne.symm hne) (hx ▸ h₂)
    · rfl
  away := by
    intro ht x hx q' hq'
    rcases hput.hashes hq' with hq' | ⟨-, rfl⟩
    · exact h.away ht x hx q' hq'
    · exact (hfree ht).2 hx
  quiet := by
    intro ht x hx hq'
    rcases hput.hashes hq' with hq' | ⟨hq, -⟩
    · exact h.quiet ht x hx hq'
    · exact hquiet hq.symm x hx

theorem puts_insertEntry (env : PoolEnv)
    (hentries : ∀ q', pool'.entries q' = pool.entries q' ∨
      q' = q ∧ pool'.entries q' = insertEntry env ptx (pool.entries q'))
    (hinval : pool'.inval = pool.inval) : Puts env.getHash q ptx pool pool' := by
  refine ⟨?_, fun h hh => .inl (hinval ▸ hh)⟩
  intro q' x hx
  rcases hentries q' with heq | ⟨hq, heq⟩
  · exact .inl (heq ▸ hx)
  · rw [heq] at hx
    exact (mem_insertEntry env hx).imp_right fun hx => ⟨hq, hx⟩

theorem addOverflowTx_inv {ok : Bool} (h : PoolInv env.const tight away quiet s.pool)
    (hok : EntryOk env.const .overflow ptx)
    (hfree : FreeFor env.const tight away .overflow s.pool ptx)
    (hs : addOverflowTx env.toPoolEnv s ptx = (ok, s')) :
    PoolInv env.const tight away quiet s'.pool := by
  unfold addOverflowTx at hs
  split_ifs at hs <;> cases hs
  · exact h
  · exact h
  · refine h.put (puts_insertEntry env.toPoolEnv ?_ rfl) (fun _ => hok) hfree nofun (.inl rfl)
    rintro (_ | _) <;> simp [CPool.entries]

theorem addStaleTx_inv (h : PoolInv env.const tight away quiet s.pool)
    (hok : EntryOk env.const .stale ptx)
    (hfree : FreeFor env.const tight away .stale s.pool ptx) :
    PoolInv env.const tight away quiet (addStaleTx env s ptx).pool := by
  unfold addStaleTx
  split_ifs
  · exact h
  · exact h
  · refine h.put (puts_insertEntry env.toPoolEnv ?_ rfl) (fun _ => hok) hfree nofun (.inl rfl)
    rintro (_ | _) <;> simp [CPool.entries]

theorem purgePendingTx_shrinks (env : PoolCallEnv) (s : PoolState) :
    Shrinks s.pool (purgePendingTx env s).pool :=
  .of_sublists (.refl _) filter_sublist.subset (fun _ h => h) (fun _ h => h) (fun _ h => h)

theorem addPendingTx_inv (h : PoolInv env.const tight away quiet s.pool)
    (hok : EntryOk env.const .pending ptx)
    (hfree : FreeFor env.const tight away .pending s.pool ptx) (hquiet : ∀ x, ¬ quiet x) :
    PoolInv env.const tight away quiet (addPendingTx env.toPoolEnv s ptx).pool := by
  unfold addPendingTx
  split_ifs
  · exact h
  · have hshrink := purgePendingTx_shrinks env s
    refine (h.shrink hshrink).put (puts_insertEntry env.toPoolEnv ?_ rfl) (fun _ => hok)
      (hfree.shrink hshrink) (fun _ => hquiet) (.inl rfl)
    rintro (_ | _) <;> simp [CPool.entries, purgePendingTx]

theorem addInvalTx_inv (h : PoolInv env.const tight away quiet s.pool)
    (hfree : FreeFor env.const tight away .inval s.pool ptx) :
    PoolInv env.const tight away quiet (addInvalTx env.toPoolEnv s ptx).pool := by
  obtain ⟨inval, heq, hinval⟩ : ∃ inval,
      addInvalTx env.toPoolEnv s ptx = { s with pool := { s.pool with inval } } ∧
        ∀ x ∈ inval, x ∈ s.pool.inval ∨ x = env.getHash ptx.tx := by
    refine ⟨_, by unfold addInvalTx; rfl, ?_⟩
    intro x hx
    have hx := mem_of_mem_drop hx
    split_ifs at hx
    · exact .inl hx
    · rcases mem_append.mp hx with hx | hx
      · exact .inl (mem_of_mem_filter hx)
      · exact (mem_cons.mp hx).symm.imp_left mem_of_mem_filter
  rw [heq]
  refine h.put (q := .inval) ⟨?_, ?_⟩ (absurd rfl) hfree nofun (.inl rfl)
  · rintro (_ | _) x hx <;> exact .inl hx
  · exact fun x hx => (hinval x hx).imp_right fun hx => ⟨rfl, hx⟩

/-! ## `AddActiveTx` -/

theorem removeEntries_active (env : TxEnv) (s : PoolState) (vRemove : List CPoolTx) :
    Shrinks s.pool (vRemove.foldl (fun s ptx => removeTx env s (env.getHash ptx.tx)) s).pool ∧
      ∀ x ∈ (vRemove.foldl (fun s ptx => removeTx env s (env.getHash ptx.tx)) s).pool.active,
        x ∉ vRemove := by
  induction vRemove generalizing s with
  | nil => exact ⟨.refl _, fun _ _ => not_mem_nil⟩
  | cons ptx vRemove ih =>
    obtain ⟨hshrink, hgone⟩ := ih (removeTx env s (env.getHash ptx.tx))
    refine ⟨(removeTx_shrinks env s _).trans hshrink, ?_⟩
    intro x hx hmem
    rcases mem_cons.mp hmem with rfl | hmem
    · -- the entry is active no more once it has been removed
      have hx := hshrink.active.subset hx
      have hkeep := (removeTx_shrinks env s (env.getHash x.tx)).active.subset hx
      have hsome := (findEntry_isSome env).mpr (List.mem_map_of_mem (f := fun ptx =>
        env.getHash ptx.tx) hkeep)
      obtain ⟨y, hy⟩ := isSome_iff_exists.mp hsome
      rw [removeTx, hy] at hx
      exact not_mem_eraseEntry env _ (List.mem_map_of_mem (f := fun ptx => env.getHash ptx.tx) hx)
    · exact hgone x hx hmem

theorem resolveConflicts_apart (h : PoolInv env.const tight away quiet s.pool)
    {tx : CTransaction} (hres : resolveConflicts env.toPoolEnv s tx = some s') :
    Shrinks s.pool s'.pool ∧ ∀ x ∈ s'.pool.active, ∀ o ∈ tx.prevouts, o ∉ x.tx.prevouts := by
  unfold resolveConflicts at hres
  dsimp only at hres
  split_ifs at hres
  cases hres
  obtain ⟨hshrink, hgone⟩ := removeEntries_active env.toTxEnv s
    (s.pool.active.filter fun ptx => spendsMapped ptx tx)
  refine ⟨hshrink, ?_⟩
  intro x hx o ho hshared
  have hold := hshrink.active.subset hx
  refine hgone x hx (mem_filter.mpr ⟨hold, ?_⟩)
  -- the map of an active entry has everything that it spends
  obtain ⟨txin, htxin, rfl⟩ := List.mem_map.mp ho
  refine List.any_eq_true.mpr ⟨txin, htxin, contains_iff_mem.mpr ?_⟩
  exact (h.entries .active x hold).active rfl hshared

/-- The queues without the entry that is on its way to the active one. -/
def CPool.unqueued (pool : CPool) (env : PoolEnv) (ptx : CPoolTx) : CPool :=
  { pool with
    overflow := eraseEntry env.toTxEnv (env.getHash ptx.tx) pool.overflow
    stale := eraseEntry env.toTxEnv (env.getHash ptx.tx) pool.stale }

theorem unqueued_shrinks (env : PoolEnv) : Shrinks pool (pool.unqueued env ptx) :=
  .of_sublists (.refl _) (fun _ h => h) (eraseEntry_sublist _ _).subset
    (eraseEntry_sublist _ _).subset (fun _ h => h)

theorem FreeFor.unqueued (h : FreeFor env.const tight away .overflow pool ptx) (q : PoolQueue) :
    FreeFor env.const tight away q (pool.unqueued env.toPoolEnv ptx) ptx := by
  intro ht
  obtain ⟨habsent, haway⟩ := h.shrink (unqueued_shrinks env.toPoolEnv) ht
  refine ⟨fun q' _ => ?_, haway⟩
  by_cases hq' : q' = .overflow
  · subst hq'
    exact not_mem_eraseEntry _ _
  · exact habsent q' hq'

/-- **`AddActiveTx`** of an entry that has been looked up. -/
theorem addActiveTx_inv {ok : Bool} (h : PoolInv env.const tight away quiet s.pool)
    (hok : EntryOk env.const .overflow ptx)
    (hfree : FreeFor env.const tight away .overflow s.pool ptx)
    (hadd : addActiveTx env.toPoolEnv fuel s ptx = some (ok, s')) :
    PoolInv env.const tight away quiet s'.pool := by
  have hfilled := hok.filled rfl
  unfold addActiveTx addActiveWith at hadd
  dsimp only at hadd
  split_ifs at hadd with hactive hweight
  · cases hadd
    exact h
  · exact addOverflowTx_inv h hok hfree (some.inj hadd)
  obtain ⟨⟨_, mapInputs, s₁⟩, hfill, hadd⟩ := map_eq_some_iff.mp hadd
  cases fuel with
  | zero => cases hfill
  | succ fuel =>
    rw [poolFillInputs, fillLoop_of_known hfilled] at hfill
    cases hfill
    have h₁ : PoolInv env.const tight away quiet (s.pool.unqueued env.toPoolEnv ptx) :=
      h.shrink (unqueued_shrinks env.toPoolEnv)
    have hinval := addInvalTx_inv (s := ⟨s.db, _⟩) h₁ (hfree.unqueued .inval)
    simp only [Bool.not_true, Bool.false_eq_true, if_false] at hadd
    split_ifs at hadd
    · cases hadd
      exact hinval
    cases hscripts : resolveScripts env.toPoolEnv ptx.tx ptx.mapInputs
        (ptx.tx.vin.zipIdx.drop 1) with
    | invalid =>
      rw [hscripts] at hadd
      cases hadd
      exact hinval
    | immature =>
      rw [hscripts] at hadd
      cases hadd
      exact addOverflowTx_inv (s := ⟨s.db, _⟩) h₁ hok (hfree.unqueued .overflow) rfl
    | pass =>
      rw [hscripts] at hadd
      dsimp only at hadd
      split at hadd
      · cases hadd
        exact hinval
      · next s₂ hres =>
        cases hadd
        obtain ⟨hshrink₂, hapart⟩ := resolveConflicts_apart (s := ⟨s.db, _⟩) h₁ hres
        have hnot : env.getHash ptx.tx ∉ s₂.pool.active.map fun x => env.getHash x.tx := by
          intro hmem
          have hmem := hshrink₂.hashes env.getHash .active hmem
          exact hactive ((findEntry_isSome env.toTxEnv).mpr hmem)
        have hfree₂ : FreeFor env.const tight away .active s₂.pool
            { ptx with mapNextTx := ptx.mapNextTx ++ ptx.tx.vin.map CTxIn.prevout } :=
          (hfree.unqueued .active).shrink hshrink₂
        refine (h₁.shrink hshrink₂).put (puts_insertEntry env.toPoolEnv ?_ rfl) (fun _ => ?_)
          hfree₂ (fun hq => by cases hq) (.inr ⟨insertEntry_perm env.toPoolEnv hnot, hapart, ?_⟩)
        · rintro (_ | _) <;> simp [CPool.entries]
        · refine ⟨hok.weight_eq, ?_, (fun hq => by cases hq), fun _ => subset_append_right _ _⟩
          exact append_subset.mpr ⟨hok.next_sub, List.Subset.refl _⟩
        · have hle := (hshrink₂.active.map CPoolTx.nWeight).sum_le_sum h₁.weights_nonneg
          unfold activeWeight at hweight
          show ptx.nWeight + _ ≤ env.maxWeight
          dsimp only at hle
          omega

/-! ## `FillInputs` -/

theorem mem_of_findEntry (env : TxEnv) (h : findEntry env queue hash = some ptx) :
    ptx ∈ queue ∧ env.getHash ptx.tx = hash :=
  ⟨mem_of_find?_eq_some h, by simpa using find?_some h⟩

theorem mem_hashes (getHash : CTransaction → Uint256) (hmem : ptx ∈ pool.entries q) :
    getHash ptx.tx ∈ pool.hashes getHash q := by
  unfold CPool.hashes
  rw [if_neg (by rintro rfl; cases hmem)]
  exact List.mem_map_of_mem hmem

theorem PoolInv.taken (h : PoolInv env.const tight away quiet s.pool)
    (hmem : ptx ∈ s.pool.entries q) (q' : PoolQueue) :
    FreeFor env.const tight away q' (removeTx env.toTxEnv s (env.getHash ptx.tx)).pool ptx :=
  fun ht => ⟨fun q'' _ => removeTx_absent (h.single ht) _ q'',
    fun haway => h.away ht _ haway q (mem_hashes env.getHash hmem)⟩

/-- What `FillInputs` preserves, where none of the inputs is an orphan if that matters. -/
def FillKeeps (env : PoolCallEnv) (tight : Prop)
    (away quiet : Uint256 → Prop) (fuel : Nat) : Prop :=
  ∀ {s s' : PoolState} {tx : CTransaction} {m m' : TxCache} {ok : Bool},
    PoolInv env.const tight away quiet s.pool →
    (tight → ∀ txin ∈ tx.vin, quiet txin.prevout.hash) →
    poolFillInputs env.toPoolEnv fuel s tx m = some (ok, m', s') →
    PoolInv env.const tight away quiet s'.pool

theorem recoverTx_inv {found : Option CTransaction} (hfill : FillKeeps env tight away quiet fuel)
    (h : PoolInv env.const tight away quiet s.pool) (hquiet : tight → quiet hash)
    (hrec : recoverTx env.toPoolEnv (poolFillInputs env.toPoolEnv fuel) s hash
      = some (found, s')) : PoolInv env.const tight away quiet s'.pool := by
  unfold recoverTx at hrec
  split at hrec
  · next ptx hptx =>
    obtain ⟨hmem, rfl⟩ := mem_of_findEntry _ hptx
    split_ifs at hrec
    · obtain ⟨⟨ok, s₁⟩, hadd, heq⟩ := map_eq_some_iff.mp hrec
      cases heq
      exact addActiveTx_inv (h.shrink (removeTx_shrinks _ _ _))
        (h.entries .overflow ptx hmem) (h.taken (q := .overflow) hmem .overflow) hadd
    · cases hrec
      exact h
  · split at hrec
    · cases hrec
      exact h
    · next orphan horphan =>
      obtain ⟨hmem, rfl⟩ := mem_of_findEntry _ horphan
      have hloose : ¬ tight := fun ht =>
        h.quiet ht _ (hquiet ht) (mem_hashes (q := .pending) env.getHash hmem)
      obtain ⟨⟨ok, mapInputs, s₁⟩, hfilled, hrec⟩ := bind_eq_some_iff.mp hrec
      have h₁ := hfill h (fun ht => absurd ht hloose) hfilled
      dsimp only at hrec
      split_ifs at hrec with hrefused
      · cases hrec
        exact h₁
      obtain ⟨⟨ok₂, s₂⟩, hadd, hrec⟩ := bind_eq_some_iff.mp hrec
      have hok := h.entries .pending orphan hmem
      have h₂ : PoolInv env.const tight away quiet s₂.pool := by
        have hentry : EntryOk env.const .overflow { orphan with mapInputs } := by
          refine ⟨hok.weight_eq, hok.next_sub, fun _ => ?_, nofun⟩
          cases ok with
          | false => simp at hrefused
          | true => exact poolFillInputs_fills hfilled
        exact addActiveTx_inv h₁ hentry (fun ht => absurd ht hloose) hadd
      split_ifs at hrec
      · cases hrec
        exact h₂.shrink (.of_sublists (.refl _) (eraseEntry_sublist _ _).subset (fun _ h => h)
          (fun _ h => h) (fun _ h => h))
      · cases hrec
        exact h₂

theorem fillLoop_keeps {env : PoolEnv} {P : PoolState → Prop} {Q : Uint256 → Prop}
    {recover : PoolState → Uint256 → Option (Option CTransaction × PoolState)}
    (hrecover : ∀ {s s' hash found}, Q hash → P s → recover s hash = some (found, s') → P s')
    {vin : List CTxIn} {s s' : PoolState} {m m' : TxCache} {ok : Bool} (h : P s)
    (hvin : ∀ txin ∈ vin, Q txin.prevout.hash)
    (hloop : fillLoop env recover vin m s = some (ok, m', s')) : P s' := by
  induction vin generalizing s m with
  | nil =>
    cases hloop
    exact h
  | cons txin vin ih =>
    have hrest : ∀ t ∈ vin, Q t.prevout.hash := (forall_mem_cons.mp hvin).2
    rw [fillLoop] at hloop
    split_ifs at hloop
    · exact ih h hrest hloop
    split at hloop
    · exact ih h hrest hloop
    · obtain ⟨⟨found, s₁⟩, hrec, hloop⟩ := bind_eq_some_iff.mp hloop
      have h₁ := hrecover (hvin txin mem_cons_self) h hrec
      cases found with
      | none =>
        cases hloop
        exact h₁
      | some prevTx => exact ih h₁ hrest hloop

theorem poolFillInputs_inv (fuel : Nat) : FillKeeps env tight away quiet fuel := by
  induction fuel with
  | zero => exact fun _ _ hfill => nomatch hfill
  | succ fuel ih =>
    intro s s' tx m m' ok h hquiet hfill
    exact fillLoop_keeps (P := fun s => PoolInv env.const tight away quiet s.pool)
      (Q := fun hash => tight → quiet hash) (fun hq h hrec => recoverTx_inv ih h hq hrec) h
      (fun txin hmem ht => hquiet ht txin hmem) hfill

/-! ## The calls -/

theorem purgeActiveTx_inv (h : PoolInv env.const tight away quiet s.pool)
    (hs : purgeActiveTx env fuel s = some s') :
    PoolInv env.const tight away quiet s'.pool := by
  obtain ⟨s₁, h₁, rfl⟩ := map_eq_some_iff.mp hs
  have h₁ : PoolInv env.const tight away quiet s₁.pool := by
    split at h₁
    · cases h₁
      exact h
    · next ptx hptx =>
      have hmem : ptx ∈ s.pool.overflow :=
        (env.sort_perm _).mem_iff.mp (mem_of_find?_eq_some hptx)
      obtain ⟨⟨ok, _⟩, hadd, rfl⟩ := map_eq_some_iff.mp h₁
      exact addActiveTx_inv (h.shrink (removeTx_shrinks _ _ _))
        (h.entries .overflow ptx hmem) (h.taken (q := .overflow) hmem .overflow) hadd
  split
  · exact h₁
  · next ptx hptx =>
    have hmem : ptx ∈ s₁.pool.active := mem_of_find?_eq_some hptx
    have hok := h₁.entries .active ptx hmem
    exact addStaleTx_inv (h₁.shrink (removeTx_shrinks _ _ _))
      ⟨hok.weight_eq, hok.next_sub, nofun, nofun⟩ (h₁.taken (q := .active) hmem .stale)

theorem overflowLoop_inv {vPoolTx : List CPoolTx} :
    ∀ {s : PoolState} {nWeight : Int}, PoolInv env.const tight away quiet s.pool →
      overflowLoop env fuel vPoolTx nWeight s = some s' →
      PoolInv env.const tight away quiet s'.pool := by
  induction vPoolTx with
  | nil =>
    intro s nWeight h hs
    cases hs
    exact h
  | cons x vPoolTx ih =>
    intro s nWeight h hs
    rw [overflowLoop] at hs
    split at hs
    · exact ih h hs
    · next ptx hptx =>
      obtain ⟨hmem, -⟩ := mem_of_findEntry _ hptx
      split_ifs at hs
      · exact ih h hs
      · obtain ⟨⟨ok, s₁⟩, hadd, hs⟩ := bind_eq_some_iff.mp hs
        refine ih (addActiveTx_inv h (h.entries .overflow ptx hmem) ?_ hadd) hs
        -- an entry of the overflow queue is in no other
        have hin := mem_hashes (q := .overflow) env.getHash hmem
        exact fun ht => ⟨fun q' hq' hmem' => hq' (h.single ht _ _ _ hmem' hin),
          fun haway => h.away ht _ haway _ hin⟩

theorem overflowFilter_shrinks (env : PoolCallEnv) (pool : CPool) :
    Shrinks pool { pool with
      overflow := pool.overflow.filter fun ptx => !env.overflowExpired ptx.tx } :=
  .of_sublists (.refl _) (fun _ h => h) filter_sublist.subset (fun _ h => h) (fun _ h => h)

theorem purgeOverflowTx_inv (h : PoolInv env.const tight away quiet s.pool)
    (hs : purgeOverflowTx env fuel s = some s') :
    PoolInv env.const tight away quiet s'.pool :=
  overflowLoop_inv (h.shrink (overflowFilter_shrinks env s.pool)) hs

/-- The transaction that is added spends no output of an orphan. -/
def PoolCall.NoOrphan (c : PoolCall) (pool : CPool) : Prop :=
  ∀ tx isLocal, c.op = .addTx tx isLocal → ∀ txin ∈ (c.env.enforceCoinStandards tx).vin,
    txin.prevout.hash ∉ pool.hashes c.env.getHash .pending

theorem not_mem_hashes (hnot : s.pool.inval.contains hash = false)
    (hhave : (s.pool.getTx env.toTxEnv hash).isSome = false) (q : PoolQueue) :
    hash ∉ s.pool.hashes env.getHash q := by
  have hqueue : ∀ {queue : List CPoolTx}, (findEntry env.toTxEnv queue hash).isSome = false →
      hash ∉ queue.map fun ptx => env.getHash ptx.tx := by
    intro queue h hmem
    rw [(findEntry_isSome _).mpr hmem] at h
    cases h
  simp only [CPool.getTx, findTx, isSome_or, isSome_map, Bool.or_eq_false_iff] at hhave
  obtain ⟨⟨hactive, hpending⟩, hoverflow, hstale⟩ := hhave
  cases q with
  | active => exact hqueue hactive
  | pending => exact hqueue hpending
  | overflow => exact hqueue hoverflow
  | stale => exact hqueue hstale
  | inval => simpa [CPool.hashes] using hnot

/-- **`AddTx`.** Until its entry goes to a queue the transaction is in none. -/
theorem addTx_inv {tx : CTransaction} {isLocal ok : Bool}
    (h : PoolInv env.const tight (fun _ => False) (fun _ => False) s.pool)
    (hcond : tight → ∀ txin ∈ (env.enforceCoinStandards tx).vin,
      txin.prevout.hash ∉ s.pool.hashes env.getHash .pending)
    (hs : addTx env fuel s tx isLocal = some (ok, s')) :
    PoolInv env.const tight (fun _ => False) (fun _ => False) s'.pool := by
  unfold addTx at hs
  dsimp only at hs
  generalize env.enforceCoinStandards tx = tx at hs hcond
  split_ifs at hs with hknown
  · cases hs
    exact h
  simp only [Bool.or_eq_true, not_or, Bool.not_eq_true] at hknown
  obtain ⟨⟨⟨hinval, hhave⟩, -⟩, -⟩ := hknown
  have h₀ : PoolInv env.const tight (fun x => x = env.getHash tx)
      (fun x => ∃ txin ∈ tx.vin, txin.prevout.hash = x) s.pool := by
    refine h.aside (fun _ x hx => hx ▸ not_mem_hashes hinval hhave) ?_
    rintro ht x ⟨txin, htxin, rfl⟩
    exact hcond ht txin htxin
  obtain ⟨⟨hasInputs, mapInputs, s₁⟩, hfill, hs⟩ := bind_eq_some_iff.mp hs
  have h₁ := poolFillInputs_inv fuel h₀ (fun _ txin htxin => ⟨txin, htxin, rfl⟩) hfill
  have hpast : ∀ {past quiet} {s₂ : PoolState}, PoolInv env.const tight past quiet s₂.pool →
      PoolInv env.const tight (fun _ => False) (fun _ => False) s₂.pool :=
    fun h => h.aside (fun _ _ => False.elim) (fun _ _ => False.elim)
  have hfree : ∀ {quiet} {s₂ : PoolState} {ptx : CPoolTx} q, ptx.tx = tx →
      PoolInv env.const tight (· = env.getHash tx) quiet s₂.pool →
      FreeFor env.const tight (fun _ => False) q s₂.pool ptx :=
    fun q heq h ht => ⟨fun q' _ => heq ▸ h.away ht _ rfl q', id⟩
  split_ifs at hs with hlimits hinputs hstandards hfee hfree' hsoft hlow
  · cases hs
    exact addInvalTx_inv (hpast h₁) (hfree .inval rfl h₁)
  · cases hs
    exact addPendingTx_inv (hpast h₁) ⟨rfl, nil_subset _, nofun, nofun⟩
      (hfree .pending rfl h₁) (fun _ => id)
  all_goals
    have hhas : hasInputs = true := by simpa using hinputs
    subst hhas
    have hentry : EntryOk env.const .overflow
        { tx, mapInputs, nWeight := env.getTransactionWeight tx,
          nTxSize := ((env.getTransactionWeight tx : Int) + 3) / 4 } :=
      ⟨rfl, nil_subset _, fun _ => poolFillInputs_fills hfill, nofun⟩
  · cases hs
    exact addInvalTx_inv (hpast h₁) (hfree .inval rfl h₁)
  · cases hs
    exact addInvalTx_inv (hpast h₁) (hfree .inval rfl h₁)
  · exact addOverflowTx_inv (hpast h₁) hentry (hfree .overflow rfl h₁) (some.inj hs)
  · exact addOverflowTx_inv (hpast h₁) hentry (hfree .overflow rfl h₁) (some.inj hs)
  · exact addOverflowTx_inv (hpast h₁) hentry (hfree .overflow rfl h₁) (some.inj hs)
  · obtain ⟨s₂, hpurge, hadd⟩ := bind_eq_some_iff.mp hs
    have h₂ := purgeActiveTx_inv h₁ hpurge
    exact addActiveTx_inv (hpast h₂) hentry (hfree .overflow rfl h₂) hadd

theorem popTx_shrinks (env : TxEnv) (s : PoolState) (tx : CTransaction) :
    Shrinks s.pool (popTx env s tx).pool := by
  unfold popTx
  dsimp only
  split_ifs
  · exact .refl _
  · exact .of_sublists (eraseEntry_sublist _ _) (eraseEntry_sublist _ _).subset
      (eraseEntry_sublist _ _).subset (fun _ h => h) filter_sublist.subset

theorem foldl_shrinks {ι : Type} {f : PoolState → ι → PoolState}
    (hf : ∀ s i, Shrinks s.pool (f s i).pool) (is : List ι) :
    ∀ s : PoolState, Shrinks s.pool (is.foldl f s).pool := by
  induction is with
  | nil => exact fun s => .refl _
  | cons i is ih => exact fun s => (hf s i).trans (ih (f s i))

/-- What a commit takes out before it looks at the overflow queue. -/
theorem commitPool_shrinks (env : TxEnv) (s : PoolState) (vtx : List CTransaction) :
    Shrinks s.pool (commitPool env s vtx).pool := by
  refine .trans (foldl_shrinks (popTx_shrinks env) vtx s) (foldl_shrinks (fun s txin => ?_) _ _)
  exact foldl_shrinks (removeTx_shrinks env) _ s

/-- **One call** preserves the invariant, and that every hash has one place unless an orphan is
    taken up. -/
theorem step_inv {c : PoolCall}
    (h : PoolInv c.env.const tight (fun _ => False) (fun _ => False) pool)
    (hcond : tight → c.NoOrphan pool) (hs : c.step pool = some s') :
    PoolInv c.env.const tight (fun _ => False) (fun _ => False) s'.pool := by
  unfold PoolCall.step at hs
  split at hs
  · next tx isLocal hop =>
    obtain ⟨⟨ok, _⟩, hadd, rfl⟩ := map_eq_some_iff.mp hs
    exact addTx_inv h (fun ht => hcond ht tx isLocal hop) hadd
  · cases hs
    exact h.shrink (removeTx_shrinks _ ⟨c.db, pool⟩ _)
  · next vtx hop =>
    exact purgeOverflowTx_inv (h.shrink (commitPool_shrinks _ ⟨c.db, pool⟩ vtx)) hs
  · exact purgeActiveTx_inv (s := ⟨c.db, pool⟩) h hs
  · exact purgeOverflowTx_inv (s := ⟨c.db, pool⟩) h hs
  · cases hs
    exact h.shrink (purgePendingTx_shrinks c.env ⟨c.db, pool⟩)

end ShareCoin.Server
