import ShareCoin.Ext.Execs
import ShareCoin.Proof.Ext.Records

/-!
# Which calls of a class are kept

A call that was inserted is to be in one of the two lists of its class, once. Where each routine
keeps the calls is decided by the state before it. A call that is inserted as one that waits is in
no list afterwards, unless it waited before. A processed call that is inserted again is in the list
twice. `CallExecChain` drops the calls that it passes over, and `ExecRestoreCheckpoint` those that
wait and that it does not find at or below the checkpoint.

The transactions that the routines see are taken from a collection in which two transactions with
one hash hold the same call.
-/

namespace ShareCoin.Ext

open Lib Wire List Option Function
open Server (Uint160 Uint256)

/-! ## Runs -/

/-- A collection of transactions without two calls under one hash. -/
structure KnownTxs where
  env : RecordEnv
  known : CTransaction → Prop
  sameExec : ∀ tx tx', known tx → known tx' → tx.getHash env.hash = tx'.getHash env.hash →
    tx.exec = tx'.exec

def ExecRoutine.tx : ExecRoutine → Option CTransaction
  | .insertCall _ tx | .insertPending _ tx => some tx
  | _ => none

/-- A call of a routine in surroundings of the collection. -/
structure ExecOp (txs : KnownTxs) where
  env : ExecEnv
  sameHash : SameHash txs.env env.toRecordEnv
  stored : ∀ h tx, env.getTransaction h = some tx → txs.known tx
  routine : ExecRoutine
  inserts : ∀ tx, routine.tx = some tx → txs.known tx

variable {txs : KnownTxs}

def execStep (t : ExecTables) (op : ExecOp txs) : Option ExecTables :=
  execRoutine op.env t op.routine

def ExecOp.inserted (op : ExecOp txs) : List (Uint160 × Uint160) :=
  match op.routine with
  | .insertCall hExec tx | .insertPending hExec tx =>
    [(hExec, execHash op.env.toRecordEnv tx.exec)]
  | _ => []

def ExecTables.calls (t : ExecTables) (hExec : Uint160) : List Uint160 :=
  t.active hExec ++ t.pending hExec

def EachOnce (ins : List (Uint160 × Uint160)) (t : ExecTables) : Prop :=
  ∀ p ∈ ins, (t.calls p.1).count p.2 = 1

def ExecOp.Waits (op : ExecOp txs) (t' : ExecTables) : Prop :=
  match op.routine with
  | .insertPending hExec tx =>
    execHash op.env.toRecordEnv tx.exec ∈ t'.pending hExec ∧
      execHash op.env.toRecordEnv tx.exec ∉ t'.active hExec
  | _ => True

/-- Along the run every routine returns, and no call is lost or duplicated. -/
def CallsKept : List (Uint160 × Uint160) → ExecTables → List (ExecOp txs) → Prop
  | ins, t, [] => EachOnce ins t
  | ins, t, op :: ops => EachOnce ins t ∧
    ∃ t', execStep t op = some t' ∧ op.Waits t' ∧ CallsKept (ins ++ op.inserted) t' ops

/-- The call is found, above the height that the class has come to. -/
def isAhead (env : ExecEnv) (t : ExecTables) (exec : CExecCore) (hCall : Uint160) : Bool :=
  (getTxOfExec env t hCall).any fun tx => decide (env.getStackHeight exec < tx.exec.nHeight)

/-- `CallExecChain` ends at the call: it is ahead, and has no parameter. -/
def isStop (env : ExecEnv) (t : ExecTables) (exec : CExecCore) (hCall : Uint160) : Bool :=
  (getTxOfExec env t hCall).any fun tx =>
    decide (env.getStackHeight exec < tx.exec.nHeight) && ! env.execCallParam exec tx.exec

/-- The call is found, at or below the height of the checkpoint. -/
def isRestored (env : ExecEnv) (t : ExecTables) (nHeight : Int32) (hCall : Uint160) : Bool :=
  (getCallByHash env t hCall).any fun call => decide (call.nHeight ≤ nHeight.toInt64)

def ExecOp.Keeps (t : ExecTables) (op : ExecOp txs) : Prop :=
  match op.routine with
  | .insertCall hExec tx => hasFlag tx.nFlag txfExec = true ∧
      execHash op.env.toRecordEnv tx.exec ∉ t.active hExec
  | .insertPending hExec tx => hasFlag tx.nFlag txfExec = true ∧
      execHash op.env.toRecordEnv tx.exec ∈ t.pending hExec
  | .callChain exec =>
      let waiting := t.pending (execHash op.env.toRecordEnv exec)
      (∀ hCall ∈ waiting, isAhead op.env t exec hCall = true) ∨
        ∃ hCall ∈ waiting, isStop op.env t exec hCall = true
  | .resetChain _ => True
  | .restoreCheckpoint exec =>
      ∀ nHeight, op.env.restoreUserData exec = some nHeight →
        ∀ hCall ∈ t.pending (execHash op.env.toRecordEnv exec),
          isRestored op.env t nHeight hCall = true

/-! ## Lookups -/

def NamesCalls (txs : KnownTxs) (t : ExecTables) : Prop :=
  ∀ hCall hTx, t.mapExec hCall = some hTx →
    ∃ tx, txs.known tx ∧ tx.getHash txs.env.hash = hTx ∧ execHash txs.env tx.exec = hCall

variable {t' t : ExecTables} {hExec : Uint160} {env : ExecEnv}

theorem getTxOfExec_congr (h : t'.mapExec = t.mapExec) :
    getTxOfExec env t' = getTxOfExec env t := by
  funext hCall
  rw [getTxOfExec, getTxOfExec, h]

variable {tx : CTransaction}

theorem isExecTx_flag {mode : UInt8} (h : isExecTx tx = some mode) :
    hasFlag tx.nFlag txfExec = true := by
  rw [← isFlag_eq_hasFlag (k := 13) rfl (by decide)]
  cases hflag : isFlag tx txfExec with
  | true => rfl
  | false => simp [isExecTx, hflag] at h

/-- What a lookup of a call finds. -/
structure Looked (env : ExecEnv) (t : ExecTables) (hCall : Uint160) (tx : CTransaction) : Prop where
  call : getExecCall tx = some tx.exec
  hash : execHash env.toRecordEnv tx.exec = hCall
  entry : t.mapExec hCall = some (tx.getHash env.hash)

theorem Looked.congr {hCall : Uint160} (h : Looked env t hCall tx) (hmap : t'.mapExec = t.mapExec) :
    Looked env t' hCall tx :=
  ⟨h.call, h.hash, by rw [hmap, h.entry]⟩

theorem NamesCalls.looked (hnames : NamesCalls txs t) (op : ExecOp txs) (hCall : Uint160)
    (tx : CTransaction) (h : getTxOfExec op.env t hCall = some tx) : Looked op.env t hCall tx := by
  obtain ⟨hTx, hentry, h⟩ := bind_eq_some_iff.mp h
  obtain ⟨txIn, hstored, h⟩ := bind_eq_some_iff.mp h
  obtain ⟨mode, hmode, h⟩ := bind_eq_some_iff.mp h
  split_ifs at h
  cases h
  have hflag := isExecTx_flag hmode
  have hexec : txIn.copy.exec = txIn.exec := if_pos hflag
  have hhash := op.env.getTransaction_hash _ _ hstored
  obtain ⟨named, hknown, hnamed, hcall⟩ := hnames _ _ hentry
  have hsame : txIn.exec = named.exec := by
    refine txs.sameExec _ _ (op.stored _ _ hstored) hknown ?_
    rw [hnamed, ← op.sameHash.1, hhash]
  refine ⟨if_pos hflag, ?_, ?_⟩
  · rw [hexec, hsame, execHash, op.sameHash.recordHash]
    exact hcall
  · rw [copy_getHash, hhash]
    exact hentry

/-! ## The lists after a routine -/

structure ListsAt (t t' : ExecTables) (hExec : Uint160) (active pending : List Uint160) :
    Prop where
  active : t'.active = update t.active hExec active
  pending : t'.pending = update t.pending hExec pending

theorem active_update {m : Uint160 → Option (List Uint160)} {entry : Option (List Uint160)} :
    (fun h => (update m hExec entry h).getD []) =
      update (fun h => (m h).getD []) hExec (entry.getD []) := by
  funext h
  by_cases hh : h = hExec
  · rw [hh, update_self, update_self]
  · rw [update_of_ne hh, update_of_ne hh]

variable {active pending : List Uint160}

theorem ListsAt.calls_self (h : ListsAt t t' hExec active pending) :
    t'.calls hExec = active ++ pending := by
  rw [ExecTables.calls, h.active, h.pending, update_self, update_self]

theorem ListsAt.calls_of_ne {other : Uint160} (h : ListsAt t t' hExec active pending)
    (hne : other ≠ hExec) : t'.calls other = t.calls other := by
  rw [ExecTables.calls, h.active, h.pending, update_of_ne hne, update_of_ne hne]
  rfl

variable {ins : List (Uint160 × Uint160)} {hCall : Uint160}

theorem ListsAt.eachOnce_iff (h : ListsAt t t' hExec active pending) (honce : EachOnce ins t) :
    EachOnce ins t' ↔ ∀ hCall, (hExec, hCall) ∈ ins → (active ++ pending).count hCall = 1 := by
  constructor
  · intro h' hCall hmem
    rw [← h.calls_self]
    exact h' _ hmem
  · rintro h' ⟨other, hCall⟩ hmem
    by_cases hother : other = hExec
    · subst hother
      rw [h.calls_self]
      exact h' hCall hmem
    · rw [h.calls_of_ne hother]
      exact honce _ hmem

/-- The lists of a class hold only what was inserted for it. -/
def OnlyInserted (ins : List (Uint160 × Uint160)) (t : ExecTables) : Prop :=
  ∀ hExec, ∀ hCall ∈ t.calls hExec, (hExec, hCall) ∈ ins

theorem ListsAt.onlyInserted {ins' : List (Uint160 × Uint160)}
    (h : ListsAt t t' hExec active pending) (honly : OnlyInserted ins t) (hsub : ins ⊆ ins')
    (hnew : ∀ hCall ∈ active ++ pending, (hExec, hCall) ∈ ins') : OnlyInserted ins' t' := by
  intro other hCall hmem
  by_cases hother : other = hExec
  · subst hother
    rw [h.calls_self] at hmem
    exact hnew hCall hmem
  · rw [h.calls_of_ne hother] at hmem
    exact hsub (honly other hCall hmem)

/-- The run so far: what was inserted is there once, nothing else is there, and the calls are found
    under their hashes. -/
structure Inserted (txs : KnownTxs) (ins : List (Uint160 × Uint160)) (t : ExecTables) : Prop where
  once : EachOnce ins t
  only : OnlyInserted ins t
  names : NamesCalls txs t

theorem Inserted.count_le (h : Inserted txs ins t) (hExec hCall : Uint160) :
    (t.active hExec).count hCall + (t.pending hExec).count hCall ≤ 1 := by
  rw [← count_append]
  by_cases hmem : hCall ∈ t.calls hExec
  · exact (h.once _ (h.only _ _ hmem)).le
  · exact (count_eq_zero.mpr hmem).trans_le (Nat.zero_le _)

theorem Inserted.not_active (h : Inserted txs ins t) (hmem : hCall ∈ t.pending hExec) :
    hCall ∉ t.active hExec := by
  have hle := h.count_le hExec hCall
  have hpos := count_pos_iff.mpr hmem
  exact count_eq_zero.mp (by omega)

theorem Inserted.filter_iff (h : Inserted txs ins t) {selects : Uint160 → Bool}
    {calls : List Uint160}
    (hperm : calls.Perm (t.active hExec ++ (t.pending hExec).filter selects)) :
    (∀ hCall, (hExec, hCall) ∈ ins → calls.count hCall = 1) ↔
      ∀ hCall ∈ t.pending hExec, selects hCall = true := by
  simp only [hperm.count_eq]
  constructor
  · intro honce hCall hmem
    have hone := honce hCall (h.only _ _ (mem_append_right _ hmem))
    rcases mem_append.mp (count_pos_iff.mp (hone ▸ Nat.one_pos)) with hact | hfilter
    · exact absurd hact (h.not_active hmem)
    · exact (mem_filter.mp hfilter).2
  · intro hall hCall hmem
    rw [filter_eq_self.mpr hall]
    exact h.once _ hmem

/-! ## Inserting a call -/

theorem insertExecCallTable_lists (env : ExecEnv) (t : ExecTables) (hExec : Uint160)
    (hcall : getExecCall tx = some tx.exec) :
    ∃ t', insertExecCallTable env t hExec tx = some t' ∧
      ListsAt t t' hExec (t.active hExec ++ [execHash env.toRecordEnv tx.exec])
        ((t.pending hExec).erase (execHash env.toRecordEnv tx.exec)) ∧
      t'.mapExec = update t.mapExec (execHash env.toRecordEnv tx.exec)
        (some (tx.getHash env.hash)) := by
  rw [insertExecCallTable, hcall, map_some]
  refine ⟨_, rfl, ⟨active_update, ?_⟩, rfl⟩
  unfold ExecTables.pending
  cases hpending : t.mapExecCallPending hExec with
  | none =>
    simp only [getD_none, erase_nil]
    rw [update_eq_self_iff.mpr (by rw [hpending, getD_none])]
  | some l => exact active_update

theorem insertExecCallPendingTable_lists (env : ExecEnv) (t : ExecTables) (hExec : Uint160)
    (hcall : getExecCall tx = some tx.exec) :
    ∃ t', insertExecCallPendingTable env t hExec tx = some t' ∧
      ListsAt t t' hExec ((t.active hExec ++ [execHash env.toRecordEnv tx.exec]).erase
        (execHash env.toRecordEnv tx.exec)) (t.pending hExec) ∧
      t'.mapExec = update t.mapExec (execHash env.toRecordEnv tx.exec)
        (some (tx.getHash env.hash)) := by
  rw [insertExecCallPendingTable, hcall, map_some]
  exact ⟨_, rfl, ⟨active_update, (update_eq_self _ _).symm⟩, rfl⟩

theorem NamesCalls.insert (hnames : NamesCalls txs t) (op : ExecOp txs)
    (htx : op.routine.tx = some tx)
    (h : t'.mapExec = update t.mapExec (execHash op.env.toRecordEnv tx.exec)
      (some (tx.getHash op.env.hash))) : NamesCalls txs t' := by
  intro hCall hTx hentry
  rw [h] at hentry
  by_cases hsame : hCall = execHash op.env.toRecordEnv tx.exec
  · rw [hsame, update_self, some.injEq] at hentry
    refine ⟨tx, op.inserts tx htx, ?_, ?_⟩
    · rw [← op.sameHash.1, hentry]
    · rw [hsame, execHash, execHash, op.sameHash.recordHash]
  · rw [update_of_ne hsame] at hentry
    exact hnames _ _ hentry

theorem count_processed (active : List Uint160) {hCall : Uint160}
    (hle : pending.count hCall ≤ 1) (other : Uint160) :
    (active ++ [hCall] ++ pending.erase hCall).count other =
      if other = hCall then active.count hCall + 1
      else (active ++ pending).count other := by
  split_ifs with hother
  · subst hother
    rw [count_append, count_append, count_erase_self, count_singleton_self]
    omega
  · rw [count_append, count_append, count_append,
      count_erase_of_ne hother, count_singleton, if_neg (by simpa using Ne.symm hother),
      Nat.add_zero]

theorem insertCall_iff (h : Inserted txs ins t)
    (hlists : ListsAt t t' hExec (t.active hExec ++ [hCall]) ((t.pending hExec).erase hCall)) :
    EachOnce (ins ++ [(hExec, hCall)]) t' ↔ hCall ∉ t.active hExec := by
  have hle := h.count_le hExec hCall
  have hcount := count_processed (t.active hExec) ((Nat.le_add_left _ _).trans hle)
  constructor
  · intro honce
    have hone := honce (hExec, hCall) (mem_append_right _ mem_cons_self)
    rw [hlists.calls_self, hcount, if_pos rfl] at hone
    exact count_eq_zero.mp (by omega)
  · intro hnot p hmem
    rcases mem_append.mp hmem with hold | hnew
    · refine (hlists.eachOnce_iff h.once).mpr (fun other hother => ?_) p hold
      rw [hcount]
      split_ifs with heq
      · rw [count_eq_zero.mpr hnot]
      · exact h.once _ hother
    · rw [mem_singleton] at hnew
      subst hnew
      rw [hlists.calls_self, hcount, if_pos rfl, count_eq_zero.mpr hnot]

/-- The call that is put to the processed ones and erased from them leaves no trace. -/
theorem insertPending_iff (h : Inserted txs ins t)
    (hlists : ListsAt t t' hExec ((t.active hExec ++ [hCall]).erase hCall) (t.pending hExec)) :
    ((hCall ∈ t'.pending hExec ∧ hCall ∉ t'.active hExec) ∧
      EachOnce (ins ++ [(hExec, hCall)]) t') ↔ hCall ∈ t.pending hExec := by
  have hpending : t'.pending hExec = t.pending hExec := by
    rw [hlists.pending, update_self]
  constructor
  · rintro ⟨⟨hmem, -⟩, -⟩
    rwa [hpending] at hmem
  · intro hmem
    have hnot := h.not_active hmem
    have herase : (t.active hExec ++ [hCall]).erase hCall = t.active hExec := by
      rw [erase_append_right _ hnot, erase_cons_head, append_nil]
    rw [herase] at hlists
    refine ⟨⟨hpending ▸ hmem, ?_⟩, ?_⟩
    · rwa [hlists.active, update_self]
    · have hinserted : (hExec, hCall) ∈ ins := h.only _ _ (mem_append_right _ hmem)
      have honce := (hlists.eachOnce_iff h.once).mpr fun other hother => h.once _ hother
      intro p hp
      rcases mem_append.mp hp with hold | hnew
      · exact honce p hold
      · rw [mem_singleton.mp hnew]
        exact honce _ hinserted

/-! ## `CallExecChain` -/

/-- `t'` is `t` with the calls moved from those that wait to the processed ones. -/
structure Moved (t t' : ExecTables) (hExec : Uint160) (moved : List Uint160) : Prop where
  lists : ListsAt t t' hExec (t.active hExec ++ moved) ((t.pending hExec).diff moved)
  mapExec : t'.mapExec = t.mapExec

theorem Moved.refl (t : ExecTables) (hExec : Uint160) : Moved t t hExec [] where
  lists := by
    rw [append_nil, diff_nil]
    exact ⟨(update_eq_self _ _).symm, (update_eq_self _ _).symm⟩
  mapExec := rfl

theorem Moved.cons {t t₁ : ExecTables} {moved : List Uint160}
    (h : ListsAt t t₁ hExec (t.active hExec ++ [hCall]) ((t.pending hExec).erase hCall))
    (hmap : t₁.mapExec = t.mapExec) (h' : Moved t₁ t' hExec moved) :
    Moved t t' hExec (hCall :: moved) where
  lists := by
    refine ⟨?_, ?_⟩
    · rw [h'.lists.active, h.active, update_idem, update_self, append_assoc, singleton_append]
    · rw [h'.lists.pending, h.pending, update_idem, update_self, diff_cons]
  mapExec := h'.mapExec.trans hmap

def LoopMoves (env : ExecEnv) (exec : CExecCore) (hExec : Uint160) (t : ExecTables)
    (vCall : List Uint160) (r : Bool × Int32 × ExecTables) : Prop :=
  ∃ moved, Moved t r.2.2 hExec moved ∧ moved.Sublist vCall ∧
    if r.1 = true then
      moved = vCall.filter (isAhead env t exec) ∧ ∀ hCall ∈ vCall, isStop env t exec hCall = false
    else ∃ hCall ∈ vCall, isStop env t exec hCall = true

section

variable {exec : CExecCore} {vCall : List Uint160} {r : Bool × Int32 × ExecTables}

theorem isStop_of_not_ahead (h : isAhead env t exec hCall = false) :
    isStop env t exec hCall = false := by
  unfold isAhead at h
  unfold isStop
  cases htx : getTxOfExec env t hCall with
  | none => rfl
  | some tx =>
    rw [htx, any_some] at h
    rw [any_some, h, Bool.false_and]

theorem LoopMoves.skip (hahead : isAhead env t exec hCall = false)
    (h : LoopMoves env exec hExec t vCall r) : LoopMoves env exec hExec t (hCall :: vCall) r := by
  obtain ⟨moved, hmoved, hsub, hr⟩ := h
  refine ⟨moved, hmoved, hsub.cons hCall, ?_⟩
  split_ifs at hr ⊢
  · rw [filter_cons_of_neg (by rw [hahead]; exact Bool.false_ne_true), forall_mem_cons]
    exact ⟨hr.1, isStop_of_not_ahead hahead, hr.2⟩
  · obtain ⟨stop, hmem, hstop⟩ := hr
    exact ⟨stop, mem_cons_of_mem _ hmem, hstop⟩

theorem LoopMoves.move {t₁ : ExecTables} (hahead : isAhead env t exec hCall = true)
    (hstop : isStop env t exec hCall = false)
    (hlists : ListsAt t t₁ hExec (t.active hExec ++ [hCall]) ((t.pending hExec).erase hCall))
    (hmap : t₁.mapExec = t.mapExec) (h : LoopMoves env exec hExec t₁ vCall r) :
    LoopMoves env exec hExec t (hCall :: vCall) r := by
  obtain ⟨moved, hmoved, hsub, hr⟩ := h
  have hlookup : getTxOfExec env t₁ = getTxOfExec env t := getTxOfExec_congr hmap
  have hahead₁ : isAhead env t₁ exec = isAhead env t exec := by
    funext
    rw [isAhead, isAhead, hlookup]
  have hstop₁ : isStop env t₁ exec = isStop env t exec := by
    funext
    rw [isStop, isStop, hlookup]
  rw [hahead₁, hstop₁] at hr
  refine ⟨hCall :: moved, hmoved.cons hlists hmap, hsub.cons_cons hCall, ?_⟩
  split_ifs at hr ⊢
  · rw [filter_cons_of_pos hahead, hr.1, forall_mem_cons]
    exact ⟨rfl, hstop, hr.2⟩
  · obtain ⟨stop, hmem, hstop⟩ := hr
    exact ⟨stop, mem_cons_of_mem _ hmem, hstop⟩

variable (hExec exec vCall) in
theorem callExecLoop_moves (nCheckpoint : Int32)
    (hlooked : ∀ hCall tx, getTxOfExec env t hCall = some tx → Looked env t hCall tx) :
    ∃ r, callExecLoop env exec hExec (env.getStackHeight exec) vCall nCheckpoint t = some r ∧
      LoopMoves env exec hExec t vCall r := by
  -- over the calls that are left; each round leaves `mapExec`, and with it the lookups
  induction vCall generalizing nCheckpoint t with
  | nil => exact ⟨_, rfl, [], .refl t hExec, .slnil, by simp⟩
  | cons hCall vCall ih =>
    rw [callExecLoop]
    cases htx : getTxOfExec env t hCall with
    | none =>
      obtain ⟨r, hr, hmoves⟩ := ih nCheckpoint hlooked
      exact ⟨r, hr, hmoves.skip (by rw [isAhead, htx]; rfl)⟩
    | some tx =>
      have hfound := hlooked hCall tx htx
      have hahead : isAhead env t exec hCall =
          decide (env.getStackHeight exec < tx.exec.nHeight) := by
        rw [isAhead, htx, any_some]
      have hstop : isStop env t exec hCall = (decide (env.getStackHeight exec < tx.exec.nHeight) &&
          ! env.execCallParam exec tx.exec) := by
        rw [isStop, htx, any_some]
      simp only [hfound.call, bind_eq_bind, bind_some]
      by_cases hheight : tx.exec.nHeight ≤ env.getStackHeight exec
      · obtain ⟨r, hr, hmoves⟩ := ih nCheckpoint hlooked
        rw [if_pos hheight]
        exact ⟨r, hr, hmoves.skip (by rw [hahead, decide_eq_false (Int64.not_lt.mpr hheight)])⟩
      rw [if_neg hheight]
      rw [decide_eq_true (Int64.not_le.mp hheight)] at hahead hstop
      cases hparam : env.execCallParam exec tx.exec with
      | false =>
        rw [hparam] at hstop
        refine ⟨_, rfl, [], .refl t hExec, nil_sublist _, ?_⟩
        exact ⟨hCall, mem_cons_self, hstop⟩
      | true =>
        rw [hparam] at hstop
        obtain ⟨t₁, hinsert, hlists, hmap⟩ :=
          insertExecCallTable_lists env t hExec hfound.call
        rw [hfound.hash] at hlists hmap
        rw [update_eq_self_iff.mpr hfound.entry.symm] at hmap
        rw [if_neg (by decide), hinsert, bind_some]
        obtain ⟨r, hr, hmoves⟩ := ih (t := t₁) _ fun other tx' htx' =>
          (hlooked other tx' (getTxOfExec_congr hmap ▸ htx')).congr hmap
        exact ⟨r, hr, hmoves.move hahead hstop hlists hmap⟩

end

/-- What `CallExecChain` leaves: the calls that were ahead are processed and none waits, or the loop
    stopped and what it did not move waits. -/
def ChainCalled (env : ExecEnv) (t : ExecTables) (exec : CExecCore) (hExec : Uint160)
    (t' : ExecTables) : Prop :=
  ListsAt t t' hExec (t.active hExec ++ (t.pending hExec).filter (isAhead env t exec)) [] ∧
      (∀ hCall ∈ t.pending hExec, isStop env t exec hCall = false) ∨
    (∃ hCall ∈ t.pending hExec, isStop env t exec hCall = true) ∧
      ∃ moved, moved.Sublist (t.pending hExec) ∧
        ListsAt t t' hExec (t.active hExec ++ moved) ((t.pending hExec).diff moved)

theorem callExecChain_called (exec : CExecCore) (hclass : execHash env.toRecordEnv exec = hExec)
    (hlooked : ∀ hCall tx, getTxOfExec env t hCall = some tx → Looked env t hCall tx) :
    ∃ ok n t', callExecChain env t exec = some (ok, n, t') ∧ t'.mapExec = t.mapExec ∧
      ChainCalled env t exec hExec t' := by
  simp only [callExecChain, hclass]
  unfold ChainCalled
  cases hpending : t.mapExecCallPending hExec with
  | none =>
    have hnil : t.pending hExec = [] := by rw [ExecTables.pending, hpending, getD_none]
    refine ⟨true, 0, t, rfl, rfl, .inl ⟨⟨?_, ?_⟩, ?_⟩⟩
    · rw [hnil, filter_nil, append_nil, update_eq_self]
    · rw [← hnil, update_eq_self]
    · rw [hnil]
      exact forall_mem_nil _
  | some vCall =>
    have hcalls : t.pending hExec = vCall := by rw [ExecTables.pending, hpending, getD_some]
    obtain ⟨⟨ok, n, t'⟩, hr, moved, hmoved, hsub, hcase⟩ :=
      callExecLoop_moves hExec exec vCall 0 hlooked
    simp only [hr, map_some, hcalls]
    cases ok with
    | true =>
      refine ⟨_, _, _, rfl, hmoved.mapExec, .inl ⟨⟨?_, ?_⟩, hcase.2⟩⟩
      · rw [← hcase.1]
        exact hmoved.lists.active
      · refine active_update.trans ?_
        change update t'.pending hExec [] = _
        rw [hmoved.lists.pending, update_idem]
    | false =>
      exact ⟨_, _, _, rfl, hmoved.mapExec, .inr ⟨hcase, moved, hsub, hcalls ▸ hmoved.lists⟩⟩

theorem callChain_iff (h : Inserted txs ins t) {exec : CExecCore}
    (hcalled : ChainCalled env t exec hExec t') :
    EachOnce ins t' ↔ (∀ hCall ∈ t.pending hExec, isAhead env t exec hCall = true) ∨
      ∃ hCall ∈ t.pending hExec, isStop env t exec hCall = true := by
  rcases hcalled with ⟨hlists, hstop⟩ | ⟨hstop, moved, hsub, hlists⟩
  · have hnone : ¬ ∃ hCall ∈ t.pending hExec, isStop env t exec hCall = true := by
      rintro ⟨hCall, hmem, hstopped⟩
      rw [hstop hCall hmem] at hstopped
      cases hstopped
    rw [hlists.eachOnce_iff h.once, append_nil, h.filter_iff (.refl _), or_iff_left hnone]
  · refine iff_of_true ((hlists.eachOnce_iff h.once).mpr fun hCall hmem => ?_) (.inr hstop)
    have hperm : (moved ++ (t.pending hExec).diff moved).Perm (t.pending hExec) :=
      subperm_append_diff_self_of_count_le fun other _ => hsub.count_le other
    rw [append_assoc, (hperm.append_left _).count_eq]
    exact h.once _ hmem

/-! ## Going back -/

theorem resetExecChain_lists (env : ExecEnv) (t : ExecTables) (hExec : Uint160) :
    resetExecChain env t hExec = t ∨
      ListsAt t (resetExecChain env t hExec) hExec [] (t.active hExec ++ t.pending hExec) := by
  unfold resetExecChain
  cases getExecByHash env t hExec with
  | none => exact .inl rfl
  | some exec => exact .inr ⟨active_update, active_update⟩

theorem resetExecChain_mapExec (env : ExecEnv) (t : ExecTables) (hExec : Uint160) :
    (resetExecChain env t hExec).mapExec = t.mapExec := by
  unfold resetExecChain
  cases getExecByHash env t hExec with
  | none | some exec => rfl

variable {nHeight : Int32}

theorem restoreLoop_eq {vIsPend : List Uint160} (vCall : List Uint160)
    (calls : List Uint160 × List Uint160) :
    restoreLoop env t nHeight vIsPend vCall calls = none ∧
        (∃ hCall ∈ vCall, hCall ∉ vIsPend ∧ isRestored env t nHeight hCall = false) ∨
      restoreLoop env t nHeight vIsPend vCall calls =
        some (calls.1 ++ (vCall.filter (· ∉ vIsPend)).filter (isRestored env t nHeight),
          calls.2 ++ vCall.filter (· ∈ vIsPend)) := by
  induction vCall generalizing calls with
  | nil => exact .inr (by simp [restoreLoop])
  | cons hCall vCall ih =>
    have hlater {calls'} : restoreLoop env t nHeight vIsPend vCall calls' = none ∧
          (∃ other ∈ vCall, other ∉ vIsPend ∧ isRestored env t nHeight other = false) →
        restoreLoop env t nHeight vIsPend vCall calls' = none ∧
          ∃ other ∈ hCall :: vCall, other ∉ vIsPend ∧ isRestored env t nHeight other = false :=
      fun ⟨hnone, other, hmem, hother⟩ => ⟨hnone, other, mem_cons_of_mem _ hmem, hother⟩
    by_cases hmem : hCall ∈ vIsPend
    · rw [restoreLoop, if_pos hmem]
      exact (ih _).imp hlater fun h => by simp [h, hmem]
    · cases hget : getCallByHash env t hCall with
      | none =>
        have hnot : isRestored env t nHeight hCall = false := by simp [isRestored, hget]
        simp only [restoreLoop, if_neg hmem, hget]
        exact (ih _).imp hlater fun h => by simp [h, hmem, hnot]
      | some call =>
        have hat : isRestored env t nHeight hCall = decide (call.nHeight ≤ nHeight.toInt64) := by
          rw [isRestored, hget, any_some]
        by_cases hheight : call.nHeight ≤ nHeight.toInt64
        · simp only [restoreLoop, if_neg hmem, hget, if_pos hheight]
          exact (ih _).imp hlater fun h => by simp [h, hmem, hat, hheight]
        · simp only [restoreLoop, if_neg hmem, hget, if_neg hheight]
          exact .inl ⟨trivial, hCall, mem_cons_self, hmem, by simp [hat, hheight]⟩

/-- `ExecRestoreCheckpoint` turns the lists around: the processed calls wait, and of those that
    waited the ones at or below the checkpoint are processed. -/
theorem execRestoreCheckpoint_eq {exec : CExecCore}
    (hclass : execHash env.toRecordEnv exec = hExec)
    (hdata : env.restoreUserData exec = some nHeight) :
    execRestoreCheckpoint env t exec = none ∧
        (∃ hCall ∈ t.pending hExec, isRestored env t nHeight hCall = false) ∨
      ∃ t', execRestoreCheckpoint env t exec = some (true, t') ∧ t'.mapExec = t.mapExec ∧
        ListsAt t t' hExec
          (((t.pending hExec).filter (· ∉ t.active hExec)).filter (isRestored env t nHeight))
          (t.active hExec ++ (t.pending hExec).filter (· ∈ t.active hExec)) := by
  have hactive : (t.active hExec).filter (· ∉ t.active hExec) = [] := by
    simp [filter_eq_nil_iff]
  have hself : (t.active hExec).filter (· ∈ t.active hExec) = t.active hExec := by
    simp [filter_eq_self]
  simp only [execRestoreCheckpoint, hdata, hclass]
  rcases restoreLoop_eq (t.active hExec ++ t.pending hExec) ([], []) with
    ⟨hnone, hCall, hmem, hnot, hlost⟩ | heq
  · refine .inl ⟨by rw [hnone]; rfl, hCall, ?_, hlost⟩
    exact (mem_append.mp hmem).resolve_left hnot
  · simp only [filter_append, hactive, hself, nil_append] at heq
    rw [heq]
    exact .inr ⟨_, rfl, rfl, active_update, active_update⟩

/-- No call that waits is processed, so the lists are exchanged. -/
theorem Inserted.restored (h : Inserted txs ins t)
    (hlists : ListsAt t t' hExec
      (((t.pending hExec).filter (· ∉ t.active hExec)).filter (isRestored env t nHeight))
      (t.active hExec ++ (t.pending hExec).filter (· ∈ t.active hExec))) :
    ListsAt t t' hExec ((t.pending hExec).filter (isRestored env t nHeight)) (t.active hExec) := by
  have hnew : (t.pending hExec).filter (· ∉ t.active hExec) = t.pending hExec :=
    filter_eq_self.mpr fun hCall hmem => decide_eq_true (h.not_active hmem)
  have hold : (t.pending hExec).filter (· ∈ t.active hExec) = [] :=
    filter_eq_nil_iff.mpr fun hCall hmem => by simpa using h.not_active hmem
  rwa [hnew, hold, append_nil] at hlists

theorem restoreCheckpoint_iff (h : Inserted txs ins t)
    (hlists : ListsAt t t' hExec ((t.pending hExec).filter (isRestored env t nHeight))
      (t.active hExec)) :
    EachOnce ins t' ↔ ∀ hCall ∈ t.pending hExec, isRestored env t nHeight hCall = true := by
  rw [hlists.eachOnce_iff h.once, h.filter_iff perm_append_comm]

/-! ## Steps and runs -/

theorem NamesCalls.congr (h : NamesCalls txs t) (hmap : t'.mapExec = t.mapExec) :
    NamesCalls txs t' := by
  intro hCall hTx hentry
  rw [hmap] at hentry
  exact h hCall hTx hentry

theorem Inserted.only_of_subset (h : Inserted txs ins t)
    (hlists : ListsAt t t' hExec active pending) (hactive : active ⊆ t.calls hExec)
    (hpending : pending ⊆ t.calls hExec) : OnlyInserted (ins ++ []) t' := by
  rw [append_nil]
  refine hlists.onlyInserted h.only (List.Subset.refl _) fun hCall hmem => h.only _ _ ?_
  exact append_subset.mpr ⟨hactive, hpending⟩ hmem

theorem Inserted.only_of_insert (h : Inserted txs ins t) {hExec new : Uint160}
    (hlists : ListsAt t t' hExec active pending) (hactive : active ⊆ t.active hExec ++ [new])
    (hpending : pending ⊆ t.pending hExec) : OnlyInserted (ins ++ [(hExec, new)]) t' := by
  refine hlists.onlyInserted h.only (subset_append_left _ _) fun hCall hmem => ?_
  rcases mem_append.mp hmem with hmem | hmem
  · rcases mem_append.mp (hactive hmem) with hold | hnew
    · exact mem_append_left _ (h.only _ _ (mem_append_left _ hold))
    · rw [mem_singleton.mp hnew]
      exact mem_append_right _ mem_cons_self
  · exact mem_append_left _ (h.only _ _ (mem_append_right _ (hpending hmem)))

/-- **One routine keeps the calls exactly when the tables allow it**, and leaves only what was
    inserted. -/
theorem execStep_spec (h : Inserted txs ins t) (op : ExecOp txs) :
    execStep t op = none ∧ ¬ op.Keeps t ∨
      ∃ t', execStep t op = some t' ∧ OnlyInserted (ins ++ op.inserted) t' ∧ NamesCalls txs t' ∧
        (op.Waits t' ∧ EachOnce (ins ++ op.inserted) t' ↔ op.Keeps t) := by
  have hleft (hExec) : t.active hExec ⊆ t.calls hExec := subset_append_left _ _
  have hright (hExec) : t.pending hExec ⊆ t.calls hExec := subset_append_right _ _
  have hstays : OnlyInserted (ins ++ []) t := by
    rw [append_nil]
    exact h.only
  have honce {t' p} (h : EachOnce ins t' ↔ p) : True ∧ EachOnce (ins ++ []) t' ↔ p := by
    rwa [append_nil, true_and]
  have hlooked := h.names.looked op
  obtain ⟨env, hsame, hstored, routine, hins⟩ := op
  cases routine with
  | insertCall hExec tx =>
    by_cases hflag : hasFlag tx.nFlag txfExec = true
    · obtain ⟨t', hinsert, hlists, hmap⟩ := insertExecCallTable_lists env t hExec (if_pos hflag)
      refine .inr ⟨t', hinsert, h.only_of_insert hlists (List.Subset.refl _) erase_subset,
        h.names.insert ⟨env, hsame, hstored, _, hins⟩ rfl hmap, (and_iff_right trivial).trans ?_⟩
      exact (insertCall_iff h hlists).trans (and_iff_right hflag).symm
    · refine .inl ⟨?_, fun hkeeps => hflag hkeeps.1⟩
      rw [execStep, execRoutine, insertExecCallTable, getExecCall, if_neg hflag, map_none]
  | insertPending hExec tx =>
    by_cases hflag : hasFlag tx.nFlag txfExec = true
    · obtain ⟨t', hinsert, hlists, hmap⟩ :=
        insertExecCallPendingTable_lists env t hExec (if_pos hflag)
      refine .inr ⟨t', hinsert, h.only_of_insert hlists erase_subset (List.Subset.refl _),
        h.names.insert ⟨env, hsame, hstored, _, hins⟩ rfl hmap, ?_⟩
      exact (insertPending_iff h hlists).trans (and_iff_right hflag).symm
    · refine .inl ⟨?_, fun hkeeps => hflag hkeeps.1⟩
      rw [execStep, execRoutine, insertExecCallPendingTable, getExecCall, if_neg hflag, map_none]
  | callChain exec =>
    obtain ⟨ok, n, t', hr, hmap, hcalled⟩ := callExecChain_called exec rfl hlooked
    refine .inr ⟨t', ?_, ?_, h.names.congr hmap, honce (callChain_iff h hcalled)⟩
    · simp only [execStep, execRoutine, hr, map_some]
    rcases hcalled with ⟨hlists, -⟩ | ⟨-, moved, hsub, hlists⟩
    · refine h.only_of_subset hlists (append_subset.mpr ⟨hleft _, ?_⟩) (nil_subset _)
      exact List.Subset.trans filter_sublist.subset (hright _)
    · refine h.only_of_subset hlists (append_subset.mpr ⟨hleft _, ?_⟩) ?_
      · exact List.Subset.trans hsub.subset (hright _)
      · exact List.Subset.trans (diff_subset _ _) (hright _)
  | resetChain hExec =>
    rcases resetExecChain_lists env t hExec with hsame | hlists
    · exact .inr ⟨t, congrArg some hsame, hstays, h.names, honce (iff_of_true h.once trivial)⟩
    · refine .inr ⟨_, rfl, h.only_of_subset hlists (nil_subset _) (List.Subset.refl _),
        h.names.congr (resetExecChain_mapExec _ _ _), honce (iff_of_true ?_ trivial)⟩
      exact (hlists.eachOnce_iff h.once).mpr fun hCall hmem => h.once _ hmem
  | restoreCheckpoint exec =>
    cases hdata : env.restoreUserData exec with
    | none =>
      refine .inr ⟨t, ?_, hstays, h.names, honce (iff_of_true h.once ?_)⟩
      · simp only [execStep, execRoutine, execRestoreCheckpoint, hdata, map_some]
      · simp [ExecOp.Keeps, hdata]
    | some nHeight =>
      rcases execRestoreCheckpoint_eq (t := t) rfl hdata with
        ⟨hnone, hCall, hmem, hnot⟩ | ⟨t', hr, hmap, hlists⟩
      · refine .inl ⟨?_, fun hkeeps => ?_⟩
        · simp only [execStep, execRoutine, hnone, map_none]
        · cases hnot.symm.trans (hkeeps nHeight hdata hCall hmem)
      · have hlists := h.restored hlists
        refine .inr ⟨t', ?_, h.only_of_subset hlists ?_ (hleft _), h.names.congr hmap,
          honce ((restoreCheckpoint_iff h hlists).trans ?_)⟩
        · simp only [execStep, execRoutine, hr, map_some]
        · exact List.Subset.trans filter_sublist.subset (hright _)
        · simp [ExecOp.Keeps, hdata]

theorem CallsKept.once {ops : List (ExecOp txs)} (h : CallsKept ins t ops) : EachOnce ins t := by
  cases ops with
  | nil => exact h
  | cons op ops => exact h.1

/-- **The run.** From tables that hold what was inserted, once, a run keeps the calls if and only if
    each of its steps does. -/
theorem exec_calls_kept_iff (txs : KnownTxs) (ins : List (Uint160 × Uint160)) (t : ExecTables)
    (ops : List (ExecOp txs)) (h : Inserted txs ins t) :
    CallsKept ins t ops ↔ StepsOk execStep ExecOp.Keeps t ops := by
  induction ops generalizing ins t with
  | nil => exact iff_of_true h.once trivial
  | cons op ops ih =>
    obtain ⟨hnone, hnot⟩ | ⟨t', hstep, honly, hnames, hiff⟩ := execStep_spec h op
    · refine iff_of_false (fun hkept => ?_) fun hok => hnot hok.1
      obtain ⟨-, t', hstep, -⟩ := hkept
      cases hnone.symm.trans hstep
    constructor
    · rintro ⟨-, t₁, hstep₁, hwaits, hrest⟩
      obtain rfl : t' = t₁ := some.inj (hstep.symm.trans hstep₁)
      refine ⟨hiff.mp ⟨hwaits, hrest.once⟩, ?_⟩
      rw [hstep]
      exact (ih _ t' ⟨hrest.once, honly, hnames⟩).mp hrest
    · intro hok
      obtain ⟨hwaits, honce⟩ := hiff.mpr hok.1
      exact ⟨h.once, t', hstep, hwaits, (ih _ t' ⟨honce, honly, hnames⟩).mpr (hok.tail hstep)⟩

def sampleCall : CTransaction where
  nFlag := 0x2001
  vin := []
  vout := [{ nValue := 1, scriptPubKey :=
    [opExtGenerate, 0x56, 0xa9, 0x14, 7] ++ List.replicate 19 0 ++ [0x6d, 0x51] }]
  vtxinwit := []
  nLockTime := 0
  exec := { nHeight := 5 }

def emptyChain : ExecEnv :=
  { oneActivation with
    getTransaction := fun _ => none
    getTransaction_hash := fun _ _ h => nomatch h
    after := fun _ => false
    getStackHeight := fun _ => 0
    execCallParam := fun _ _ => true
    processExecGenerateTx := fun _ _ => 0
    restoreUserData := fun _ => none }

def sampleTxs : KnownTxs where
  env := emptyChain.toRecordEnv
  known tx := tx = sampleCall
  sameExec := by
    rintro _ _ rfl rfl -
    rfl

def sampleOp (routine : ExecRoutine) (h : ∀ tx, routine.tx = some tx → tx = sampleCall) :
    ExecOp sampleTxs where
  env := emptyChain
  sameHash := ⟨rfl, rfl⟩
  stored := fun _ _ h => nomatch h
  routine := routine
  inserts := h

/-- The tables of a class 1 that was just published: `ProcessExecTx` gives it an empty list of calls
    that wait. -/
def publishedClass : ExecTables :=
  { ExecTables.empty with
    mapExecCallPending := update ExecTables.empty.mapExecCallPending 1 (some []) }

theorem publishedClass_calls (hExec : Uint160) : publishedClass.calls hExec = [] := by
  have hpending : publishedClass.pending = update ExecTables.empty.pending 1 [] :=
    active_update
  rw [ExecTables.calls, hpending]
  by_cases h : hExec = 1
  · rw [h, update_self]
    rfl
  · rw [update_of_ne h]
    rfl

theorem publishedClass_inserted : Inserted sampleTxs [] publishedClass where
  once := forall_mem_nil _
  only hExec hCall hmem := by
    rw [publishedClass_calls] at hmem
    cases hmem
  names := fun _ _ h => nomatch h

/-- A call that is inserted as processed is kept, and a reset of another class leaves it. -/
theorem processed_call_kept :
    CallsKept [] publishedClass
      [sampleOp (.insertCall 1 sampleCall) (fun _ h => (some.inj h).symm),
        sampleOp (.resetChain 2) (fun _ h => nomatch h)] :=
  (exec_calls_kept_iff sampleTxs [] publishedClass _ publishedClass_inserted).mpr
    ⟨⟨by decide, not_mem_nil⟩, trivial, by
      split
      · trivial
      · trivial⟩

/-- The first call of a class that was just published is in no list after it was inserted as one
    that waits. -/
theorem first_pending_call_lost :
    ∃ t', insertExecCallPendingTable emptyChain publishedClass 1 sampleCall = some t' ∧
      t'.active 1 = [] ∧ t'.pending 1 = [] ∧
      ¬ EachOnce [(1, execHash emptyChain.toRecordEnv sampleCall.exec)] t' := by
  have hcall : getExecCall sampleCall = some sampleCall.exec := if_pos (by decide)
  obtain ⟨t', hinsert, hlists, -⟩ :=
    insertExecCallPendingTable_lists emptyChain publishedClass 1 hcall
  have hcalls := publishedClass_calls 1
  rw [ExecTables.calls, append_eq_nil_iff] at hcalls
  have hnil : t'.calls 1 = [] := by
    rw [hlists.calls_self, hcalls.1, hcalls.2, nil_append, erase_cons_head]
    rfl
  obtain ⟨hactive, hpending⟩ := append_eq_nil_iff.mp hnil
  refine ⟨t', hinsert, hactive, hpending, fun honce => ?_⟩
  have hone := honce _ mem_cons_self
  rw [hnil] at hone
  cases hone

/-! ## What a checkpoint leaves -/

def isAbove (env : ExecEnv) (t : ExecTables) (nHeight : Int32) (hCall : Uint160) : Bool :=
  (getCallByHash env t hCall).any fun call => decide (nHeight.toInt64 < call.nHeight)

theorem isRestored_eq_false_of_isAbove {hCall : Uint160} (h : isAbove env t nHeight hCall = true) :
    isRestored env t nHeight hCall = false := by
  rw [isRestored]
  rw [isAbove] at h
  cases hget : getCallByHash env t hCall with
  | none => rfl
  | some call => simpa [hget] using h

/-- **A restored checkpoint divides the calls by their height only where that moves all of them**:
    every processed call is above it, and no other call waits. -/
theorem restore_divides_iff (env : ExecEnv) (t t' : ExecTables) (exec : CExecCore) (nHeight : Int32)
    (hdata : env.restoreUserData exec = some nHeight)
    (hr : execRestoreCheckpoint env t exec = some (true, t')) :
    let hExec := execHash env.toRecordEnv exec
    (t'.active hExec = (t.active hExec).filter (isRestored env t nHeight) ∧
      t'.pending hExec =
        (t.active hExec).filter (isAbove env t nHeight) ++ t.pending hExec) ↔
    (∀ hCall ∈ t.active hExec, isAbove env t nHeight hCall = true) ∧
      t.pending hExec ⊆ t.active hExec := by
  intro hExec
  have hclass : execHash env.toRecordEnv exec = hExec := rfl
  clear_value hExec
  rcases execRestoreCheckpoint_eq (t := t) hclass hdata with ⟨hnone, -⟩ | ⟨t₁, heq, -, hlists⟩
  · rw [hr] at hnone
    cases hnone
  · rw [hr] at heq
    cases heq
    rw [hlists.active, hlists.pending, update_self, update_self]
    constructor
    · rintro ⟨-, hpending⟩
      -- what waits now was processed, so what waited was as well
      have hsub : t.pending hExec ⊆ t.active hExec := by
        intro hCall hmem
        have hmem' := hpending ▸ mem_append_right _ hmem
        rcases mem_append.mp hmem' with hmem' | hmem'
        · exact hmem'
        · exact of_decide_eq_true (mem_filter.mp hmem').2
      rw [filter_eq_self.mpr fun hCall hmem => decide_eq_true (hsub hmem)] at hpending
      exact ⟨filter_eq_self.mp (append_cancel_right hpending).symm, hsub⟩
    · rintro ⟨habove, hsub⟩
      have hnone : (t.pending hExec).filter (· ∉ t.active hExec) = [] :=
        filter_eq_nil_iff.mpr fun hCall hmem => by simpa using hsub hmem
      have hall : (t.pending hExec).filter (· ∈ t.active hExec) = t.pending hExec :=
        filter_eq_self.mpr fun hCall hmem => decide_eq_true (hsub hmem)
      have hrestored : (t.active hExec).filter (isRestored env t nHeight) = [] :=
        filter_eq_nil_iff.mpr fun hCall hmem => by
          simp [isRestored_eq_false_of_isAbove (habove hCall hmem)]
      rw [hnone, hall, hrestored, filter_eq_self.mpr habove]
      exact ⟨rfl, rfl⟩

def checkpointEnv (nHeight : Int32) : ExecEnv :=
  { emptyChain with
    getTransaction := fun h =>
      if h = sampleCall.getHash emptyChain.hash then some sampleCall else none
    getTransaction_hash := fun _ _ => getHash_of_stored
    restoreUserData := fun _ => some nHeight }

def processedCall : ExecTables where
  mapExec := fun _ => some (sampleCall.getHash emptyChain.hash)
  mapExecCall := fun _ => some [1]
  mapExecCallPending := fun _ => none

/-- The call of height 5 waits again after a restore to height 4. -/
theorem restore_divides_below :
    ∃ t', execRestoreCheckpoint (checkpointEnv 4) processedCall {} = some (true, t') ∧
      t'.active 7 = (processedCall.active 7).filter (isRestored (checkpointEnv 4) processedCall 4) ∧
      t'.pending 7 = (processedCall.active 7).filter (isAbove (checkpointEnv 4) processedCall 4) ++
        processedCall.pending 7 := by
  have habove : isAbove (checkpointEnv 4) processedCall 4 1 = true := rfl
  exact ⟨_, rfl, (restore_divides_iff (checkpointEnv 4) processedCall _ {} 4 rfl rfl).mpr
    ⟨forall_mem_singleton.mpr habove, nil_subset _⟩⟩

/-- After a restore to height 9 it waits as well, though it is below the checkpoint. -/
theorem restored_call_not_kept :
    ∃ t', execRestoreCheckpoint (checkpointEnv 9) processedCall {} = some (true, t') ∧
      isRestored (checkpointEnv 9) processedCall 9 1 = true ∧
      processedCall.active 7 = [1] ∧ t'.active 7 = [] ∧ t'.pending 7 = [1] := by
  exact ⟨_, rfl, rfl, rfl, rfl, rfl⟩

end ShareCoin.Ext
