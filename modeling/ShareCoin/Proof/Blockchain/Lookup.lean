import ShareCoin.Proof.Blockchain.Entries
import ShareCoin.Lib.BucketCache

/-!
# The hash table of the record store is transparent

`bc_find` starts its scan where the table says and leaves a note for the next one. The table's
promise about a residue class is `Slot.Sound`, and `LookupInv` says that every slot keeps it.
The clears take entries away and leave the slots alone; `_bc_idx_set` adds one and resets its
slot; a rewrite keeps the hash of the entry. So each call can do one of a few things to the
index, all of them instances of `LookupInv.put`.

None of this survives a growth of the index that wraps: the `ftruncate` that follows drops
entries, and it cuts one in two, which leaves a live entry under a hash that no slot was told
about. `LookupOk` therefore carries the alternative "the index has wrapped" along, and the
theorem is about the runs in which it has not.
-/

namespace ShareCoin.Blockchain

open Lib Option

/-! ## The index as a table of keys -/

def BcIdx.key (e : BcIdx) : Option BcHash := if e.size = 0 then none else some e.hash

theorem BcIdx.key_blank : BcIdx.blank.key = none := rfl

def BcMap.keys (m : BcMap BcIdx) (i : Nat) : Option BcHash := (m.raw i).key

/-- What a table value stands for. -/
def slotOf (v : Nat) : Slot :=
  if v = bcTableSearchPos then .search else if v = bcTableNullPos then .null else .upTo v

/-- **The lookup invariant**: nothing lives behind the end of the index, and every slot of the
    table keeps its promise about the positions before it. -/
structure LookupInv (m : BcMap BcIdx) (tab : Nat → Nat) : Prop where
  wf : m.Wf
  tail : ∀ i, m.total ≤ i → m.keys i = none
  slots : ∀ b, (slotOf (tab b)).Sound bcTableHash m.keys m.total b

/-- The invariant, or a growth of the index has wrapped. -/
def LookupOk (m : BcMap BcIdx) (tab : Nat → Nat) : Prop := m.wrapped = true ∨ LookupInv m tab

theorem lookupInv_empty : LookupInv Bc.empty.idx Bc.empty.tab where
  wf := BcMap.fresh_wf
  tail := fun _ _ => rfl
  slots := fun _ => trivial

/-! ## One entry written -/

variable {m m' : BcMap BcIdx} {e : BcIdx}

theorem BcMap.Put.keys_self {j : Nat} (h : m.Put j e m') : m'.keys j = e.key := by
  simp [BcMap.keys, h.raw_eq]

theorem BcMap.Put.keys_of_ne {i j : Nat} (h : m.Put j e m') (hi : i ≠ j) :
    m'.keys i = m.keys i := by
  simp [BcMap.keys, h.raw_eq, hi]

variable {tab : Nat → Nat}

/-- **Writing one entry keeps the invariant**, provided that each slot is reset or is not
    concerned: the entry is no live entry of its class, or it was there before. -/
theorem LookupInv.put {tab' : Nat → Nat} {j : Nat} (h : LookupInv m tab) (hput : m.Put j e m')
    (htab : ∀ b, tab' b = bcTableSearchPos ∨
      tab' b = tab b ∧ ∀ k, e.key = some k → bcTableHash k = b → m.keys j = some k) :
    LookupInv m' tab' where
  wf := hput.wf
  tail := by
    intro i hi
    rw [hput.total_eq] at hi
    rw [hput.keys_of_ne (by omega)]
    exact h.tail i (by omega)
  slots := by
    intro b
    rcases htab b with hs | ⟨heq, hold⟩
    · simp [hs, slotOf, Slot.Sound]
    · rw [heq]
      refine (h.slots b).mono (by rw [hput.total_eq]; exact Nat.le_max_left _ _) ?_
      intro i _ k hk hb
      have hkeys : m.keys i = some k := by
        by_cases hij : i = j
        · subst hij
          rw [hput.keys_self] at hk
          exact hold k hk hb
        · rwa [hput.keys_of_ne hij] at hk
      refine ⟨?_, hkeys⟩
      -- past the end of the index there is no live entry
      by_contra hlt
      rw [h.tail i (by omega)] at hkeys
      simp at hkeys

theorem LookupInv.reset {tab' : Nat → Nat} (h : LookupInv m tab)
    (htab : ∀ b, tab' b = bcTableSearchPos ∨ tab' b = tab b) : LookupInv m tab' where
  wf := h.wf
  tail := h.tail
  slots := by
    intro b
    rcases htab b with hs | heq
    · simp [hs, slotOf, Slot.Sound]
    · rw [heq]; exact h.slots b

/-! ## The calls on the index -/

theorem LookupOk.alloc (h : LookupOk m tab) (len : Nat) : LookupOk (bcMapAlloc m len).2 tab := by
  cases hw : (bcMapAlloc m len).2.wrapped with
  | true => exact .inl hw
  | false =>
    rcases h with h | h
    · rw [bcMapAlloc_wrapped hw] at h
      exact absurd h (by simp)
    · obtain ⟨-, hraw, hof, -, -, hwf⟩ := bcMapAlloc_spec h.wf hw
      have hkeys : (bcMapAlloc m len).2.keys = m.keys := by
        funext i
        simp [BcMap.keys, hraw]
      have htot : (bcMapAlloc m len).2.total = m.total := by simp [BcMap.total, hof]
      exact .inr ⟨hwf, by rw [hkeys, htot]; exact h.tail, by rw [hkeys, htot]; exact h.slots⟩

variable {err : BcErr} {pos : Nat}

/-- The write of one entry, read forwards: it wraps the index, or it did what `Put` says. -/
theorem LookupOk.write (h : LookupOk m tab)
    (hw : bcMapWrite m (pos * 64 % 2 ^ 32) [e] = some (err, m')) :
    m'.wrapped = true ∨ err = .ok ∧ LookupInv m tab ∧ m.Put (entryAt pos) e m' := by
  cases hwr : m'.wrapped with
  | true => exact .inl rfl
  | false =>
    rcases h with h | h
    · rw [bcMapAlloc_wrapped (bcMapWrite_wrapped hw hwr)] at h
      exact absurd h (by simp)
    · obtain ⟨herr, -, hwrote⟩ := bcMapWrite_spec h.wf hw hwr
      exact .inr ⟨herr, h, hwrote.put⟩

variable {bc bc' : Bc} {hash : BcHash}

theorem bcIdxSet_lookup (h : LookupOk bc.idx bc.tab) (hs : bcIdxSet bc pos e = some (err, bc')) :
    LookupOk bc'.idx bc'.tab := by
  unfold bcIdxSet at hs
  simp only [bind_eq_bind, bind_eq_some_iff] at hs
  obtain ⟨⟨err₀, m⟩, hset, hs⟩ := hs
  rcases bcMapSet_cases hset with ⟨rfl, rfl, -, -⟩ | ⟨len, hal, hne⟩ | ⟨m₁, hm₁, -, hwr⟩
  · cases hs
    exact h
  · rw [if_pos hne] at hs
    cases hs
    have := h.alloc len
    rwa [hal] at this
  · have h₁ : LookupOk m₁ bc.tab := by
      rcases hm₁ with rfl | ⟨len, rfl⟩
      · exact h
      · exact h.alloc len
    rcases h₁.write hwr with hw | ⟨rfl, hinv, hput⟩
    · split_ifs at hs <;> cases hs <;> exact .inl hw
    · cases hs
      refine .inr (hinv.put hput ?_)
      intro b
      -- the slot of the new entry is reset, and the entry is in no other class
      dsimp only [bcTableReset, setSlot]
      split_ifs with hb
      · exact .inl rfl
      · refine .inr ⟨rfl, ?_⟩
        intro k hk hkb
        unfold BcIdx.key at hk
        split_ifs at hk
        cases hk
        exact absurd hkb.symm hb

theorem bcIdxClear_lookup (h : LookupOk bc.idx bc.tab) (hs : bcIdxClear bc pos = some (err, bc')) :
    LookupOk bc'.idx bc'.tab := by
  unfold bcIdxClear at hs
  dsimp only at hs
  split_ifs at hs
  · cases hs
    exact h
  · simp only [bind_eq_bind, bind_eq_some_iff] at hs
    obtain ⟨⟨err₀, m⟩, hwr, hs⟩ := hs
    cases hs
    rcases h.write hwr with hw | ⟨-, hinv, hput⟩
    · exact .inl hw
    · exact .inr (hinv.put hput fun b => .inr ⟨rfl, by simp [BcIdx.key_blank]⟩)

theorem bcIdxReset_lookup (h : LookupOk bc.idx bc.tab)
    (hs : bcIdxReset bc pos e = some (err, bc')) (hhash : e.hash = (bc.idx.raw pos).hash) :
    LookupOk bc'.idx bc'.tab := by
  unfold bcIdxReset at hs
  simp only [bind_eq_bind, bind_eq_some_iff] at hs
  obtain ⟨⟨err₀, e₀⟩, hget, hs⟩ := hs
  rcases bcMapGet_cases hget with ⟨rfl, hlt, rfl, hsz, -⟩ | ⟨rfl, -, -⟩
  · rw [if_neg (by simp)] at hs
    split_ifs at hs
    · cases hs
      exact h
    · obtain ⟨⟨err₁, m⟩, hwr, hs⟩ := bind_eq_some_iff.mp hs
      cases hs
      rcases h.write hwr with hw | ⟨-, hinv, hput⟩
      · exact .inl hw
      · rw [entryAt_of_lt_total hinv.wf hlt] at hput
        refine .inr (hinv.put hput fun b => .inr ⟨rfl, fun k hk _ => ?_⟩)
        unfold BcIdx.key at hk
        split_ifs at hk
        cases hk
        simp [BcMap.keys, BcIdx.key, hsz, hhash]
  · cases hs
    exact h

/-! ## The lookup -/

theorem idxFindLoop_eq (hm : m.Wf) (hash : BcHash) :
    ∀ (k : Nat) (high : Option Nat), k ≤ m.total →
      idxFindLoop m hash k high = some (scanHigh bcTableHash m.keys hash k high) := by
  intro k
  induction k with
  | zero => intro high _; rfl
  | succ i ih =>
    intro high hk
    unfold idxFindLoop scanHigh
    rw [hm.read? (by omega)]
    simp only [bind_eq_bind, bind_some, BcMap.keys, BcIdx.key]
    by_cases hsz : (m.raw i).size = 0
    · simp only [hsz, if_true]
      exact ih high (by omega)
    · simp only [hsz, if_false]
      by_cases hh : (m.raw i).hash = hash
      · simp only [hh, if_true]
      · simp only [hh, if_false]
        exact ih _ (by omega)

theorem LookupInv.setSlot {v : Nat}
    (h : LookupInv m tab) (hv : (slotOf v).Sound bcTableHash m.keys m.total (bcTableHash hash)) :
    LookupInv m (setSlot tab hash v) := by
  refine ⟨h.wf, h.tail, ?_⟩
  intro b
  unfold Blockchain.setSlot
  split_ifs with hb
  · rw [hb]; exact hv
  · exact h.slots b

theorem LookupInv.update
    (h : LookupInv m tab) (hs : tab (bcTableHash hash) = bcTableSearchPos) :
    LookupInv m (idxFindUpdate tab hash bcTableNullPos
      (scanHigh bcTableHash m.keys hash m.total none).1
      (scanHigh bcTableHash m.keys hash m.total none).2) := by
  obtain ⟨hsome, hnone⟩ := scanHigh_snd_sound bcTableHash m.keys hash m.total
  unfold idxFindUpdate
  cases hhigh : (scanHigh bcTableHash m.keys hash m.total none).2 with
  | none =>
    obtain ⟨hfound, hnull⟩ := hnone hhigh
    simp only [hfound, isNone_none, if_true, bcTableUnset]
    exact h.setSlot (by simpa [slotOf, bcTableNullPos, bcTableSearchPos] using hnull)
  | some p =>
    have hup := hsome p hhigh
    -- positions are far below the two sentinels
    have hp : p < 2 ^ 26 := by
      have h1 := h.wf.of_le
      have h2 := h.wf.size_lt
      have h3 := hup.1
      unfold BcMap.total at h3
      omega
    have hne : bcTableNullPos ≠ p := by unfold bcTableNullPos; omega
    have hmask : ¬ bcTablePosMask ≤ p := by unfold bcTablePosMask; omega
    simp only [ne_eq, hne, not_false_eq_true, if_true, bcTableSet, hmask, if_false, hs]
    by_cases hp0 : p = 0
    · -- position zero coincides with "search": the slot keeps asking for a scan
      have hno : ¬ (bcTableSearchPos < p ∨ bcTablePosMask ≤ bcTableSearchPos) := by
        unfold bcTableSearchPos bcTablePosMask
        omega
      rw [if_neg hno]
      exact h
    · have hyes : bcTableSearchPos < p ∨ bcTablePosMask ≤ bcTableSearchPos := by
        unfold bcTableSearchPos
        omega
      rw [if_pos hyes]
      refine h.setSlot ?_
      rw [slotOf, if_neg (by unfold bcTableSearchPos; omega), if_neg (Ne.symm hne)]
      exact hup

/-- **One lookup**: it comes back with the answer of the plain scan, and the note it leaves in
    the table is sound. -/
theorem bcIdxFind_spec (hash : BcHash) (h : LookupInv bc.idx bc.tab) :
    ∃ tab', LookupInv bc.idx tab' ∧
      bcIdxFind bc hash = some (match scan bc.idx.keys hash bc.idx.total with
        | some i => (.ok, some i, { bc with tab := tab' })
        | none => (.noent, none, { bc with tab := tab' })) := by
  have hslot := h.slots (bcTableHash hash)
  have hsize : ¬ bc.idx.size = 0 := h.wf.size_ne
  by_cases hs : bc.tab (bcTableHash hash) = bcTableSearchPos
  · -- "search": the whole index is scanned and the highest position noted
    refine ⟨_, h.update hs, ?_⟩
    have hget : bcTableGet bc.tab hash = (.srch, bcTableNullPos) := by simp [bcTableGet, hs]
    have hfst : (scanHigh bcTableHash bc.idx.keys hash bc.idx.total none).1
        = scan bc.idx.keys hash bc.idx.total := scanHigh_fst
    unfold bcIdxFind
    rw [hget]
    simp only [reduceCtorEq, if_false, hsize, false_and]
    rw [idxFindLoop_eq h.wf hash _ none (Nat.le_refl _)]
    simp only [bind_eq_bind, bind_some, hfst]
    cases scan bc.idx.keys hash bc.idx.total <;> rfl
  by_cases hn : bc.tab (bcTableHash hash) = bcTableNullPos
  · -- "no record exists"
    have hget : bcTableGet bc.tab hash = (.noent, bcTableNullPos) := by
      simp [bcTableGet, hn, bcTableNullPos, bcTableSearchPos]
    rw [hn, slotOf, if_neg (by decide), if_pos rfl] at hslot
    refine ⟨bc.tab, h, ?_⟩
    rw [scan_eq_of_null hslot]
    unfold bcIdxFind
    rw [hget]
    simp
  · -- an upper bound: the scan starts there
    have hget : bcTableGet bc.tab hash = (.ok, bc.tab (bcTableHash hash)) := by
      simp [bcTableGet, hs, hn]
    rw [slotOf, if_neg hs, if_neg hn] at hslot
    generalize bc.tab (bcTableHash hash) = p at *
    have hp := hslot.1
    have hsnd : (scanHigh bcTableHash bc.idx.keys hash (p + 1) (some p)).2 = some p :=
      scanHigh_snd_of_bound (Nat.le_refl _)
    have hfst : (scanHigh bcTableHash bc.idx.keys hash (p + 1) (some p)).1
        = scan bc.idx.keys hash bc.idx.total := by
      rw [scanHigh_fst, scan_eq_of_upTo hslot]
    refine ⟨bc.tab, h, ?_⟩
    unfold bcIdxFind
    rw [hget]
    have hcond : True ∧ ¬ (0 < bc.idx.total ∧ bc.idx.total ≤ p) := ⟨trivial, by omega⟩
    simp only [reduceCtorEq, if_false, hsize, if_pos hcond]
    rw [idxFindLoop_eq h.wf hash (p + 1) (some p) hp]
    simp only [bind_eq_bind, bind_some, hfst, hsnd, idxFindUpdate, ne_eq,
      not_true_eq_false, if_false]
    cases scan bc.idx.keys hash bc.idx.total <;> rfl

/-! ## Runs -/

/-- The journals and the archive play no part, and a lookup never touches the index. -/
theorem Move.lookup (hmove : Move bc bc') (h : LookupOk bc.idx bc.tab) :
    LookupOk bc'.idx bc'.tab := by
  cases hmove with
  | jrnl => exact h
  | idxSet hs => exact bcIdxSet_lookup h hs
  | idxReset hs hhash => exact bcIdxReset_lookup h hs hhash
  | idxClear hs => exact bcIdxClear_lookup h hs
  | archAdd hs =>
    obtain ⟨hi, ht, -⟩ := bcArchAdd_frame hs
    rw [hi, ht]
    exact h
  | tab htab => exact h.imp_right fun hi => hi.reset htab
  | find hfind =>
    rcases h with hw | hinv
    · refine .inl ?_
      rw [(bcIdxFind_frame hfind).1]
      exact hw
    · obtain ⟨tab', hinv', hspec⟩ := bcIdxFind_spec _ hinv
      rw [hspec, Option.some.injEq] at hfind
      cases hscan : scan bc.idx.keys _ bc.idx.total <;> rw [hscan] at hfind <;> cases hfind <;>
        exact .inr hinv'

theorem Moves.lookup (hmoves : Moves bc bc') (h : LookupOk bc.idx bc.tab) :
    LookupOk bc'.idx bc'.tab := by
  induction hmoves with
  | refl => exact h
  | tail _ hmove ih => exact hmove.lookup ih

theorem run_lookup {ops : List BcOp} (h : Bc.empty.run ops = some bc) : LookupOk bc.idx bc.tab := by
  refine exec_invariant (P := fun bc : Bc => LookupOk bc.idx bc.tab) (A := fun _ => True) ?_
    (fun _ _ => trivial) (.inr lookupInv_empty) h
  intro s op s' _ hs hstep
  obtain ⟨⟨err, bc'⟩, hcall, rfl⟩ := map_eq_some_iff.mp hstep
  exact (step_moves hcall).lookup hs

/-! ## The scan without the table -/

/-- The positions of the live entries with a given hash. -/
def BcMap.liveAt (m : BcMap BcIdx) (hash : BcHash) : Set Nat :=
  { i | i < m.total ∧ (m.raw i).size ≠ 0 ∧ (m.raw i).hash = hash }

/-- What `bc_find` would answer if there were no table: a plain scan of the index from its end
    down. -/
def plainFind (m : BcMap BcIdx) (hash : BcHash) : BcErr × Option Nat :=
  match scan m.keys hash m.total with
  | some i => (.ok, some i)
  | none => (.noent, none)

theorem mem_liveAt {i : Nat} : i ∈ m.liveAt hash ↔ i < m.total ∧ m.keys i = some hash := by
  change (i < m.total ∧ (m.raw i).size ≠ 0 ∧ (m.raw i).hash = hash) ↔ _
  unfold BcMap.keys BcIdx.key
  by_cases h : (m.raw i).size = 0 <;> simp [h]

theorem plainFind_eq_ok_iff {i : Nat} :
    plainFind m hash = (.ok, some i) ↔ IsGreatest (m.liveAt hash) i := by
  have hset : m.liveAt hash = { j | j < m.total ∧ m.keys j = some hash } :=
    Set.ext fun j => mem_liveAt
  rw [hset, ← scan_eq_some_iff]
  unfold plainFind
  cases scan m.keys hash m.total <;> simp

theorem plainFind_eq_noent_iff : plainFind m hash = (.noent, none) ↔ m.liveAt hash = ∅ := by
  have hscan : plainFind m hash = (.noent, none) ↔ scan m.keys hash m.total = none := by
    unfold plainFind
    cases scan m.keys hash m.total <;> simp
  rw [hscan, scan_eq_none_iff, Set.eq_empty_iff_forall_notMem]
  exact forall_congr' fun i => by rw [mem_liveAt, not_and]

/-- **The table is transparent.** In every state that calls on the empty store lead to without a
    wrapping growth of the index, `bc_find` comes back with the answer of the plain scan: the
    greatest position of a live entry with the hash, and `ERR_NOENT` exactly when there is
    none. -/
theorem bcFind_transparent {ops : List BcOp} {bc : Bc} (hrun : Bc.empty.run ops = some bc)
    (hfit : bc.idx.wrapped = false) (hash : BcHash) :
    (bcIdxFind bc hash).map (fun r => (r.1, r.2.1)) = some (plainFind bc.idx hash) ∧
      (∀ i, plainFind bc.idx hash = (.ok, some i) ↔ IsGreatest (bc.idx.liveAt hash) i) ∧
      (plainFind bc.idx hash = (.noent, none) ↔ bc.idx.liveAt hash = ∅) := by
  refine ⟨?_, fun i => plainFind_eq_ok_iff, plainFind_eq_noent_iff⟩
  rcases run_lookup hrun with hw | hinv
  · rw [hfit] at hw
    exact absurd hw (by decide)
  · obtain ⟨tab', -, hspec⟩ := bcIdxFind_spec hash hinv
    rw [hspec]
    unfold plainFind
    cases scan bc.idx.keys hash bc.idx.total <;> rfl

theorem bcFind_transparent_append :
    ∃ bc, Bc.empty.run [.append hashSample bufSample, .tableClear] = some bc ∧
      bc.idx.wrapped = false ∧
      (bcIdxFind bc hashSample).map (fun r => (r.1, r.2.1)) = some (plainFind bc.idx hashSample) :=
  have hrun : Bc.empty.run [.append hashSample bufSample, .tableClear]
      = some ((Bc.empty.run [.append hashSample bufSample, .tableClear]).getD Bc.empty) := rfl
  ⟨_, hrun, rfl, (bcFind_transparent hrun rfl hashSample).1⟩

/-- `hashSample` without its second half. -/
def hashCut : BcHash := #v[1, 2, 3, 4, 0, 0, 0, 0]

/-- Three records far apart, and a map with no room left for the entry that `bc_idx_clear` writes:
    the first of the two clears asks for more than `2^32` bytes, and the `ftruncate` to what is
    left of that ends in the middle of the entry at 6701567. -/
def cutRun : List BcOp :=
  [.find hashCut, .write 6701567 hashSample bufSample, .write 61000000 hashSample bufSample,
    .write 67100158 hashSample bufSample, .idxClear 0, .idxClear 0]

/-- **A growth that wraps hides an entry**: what is left of the entry at 6701567 is live, its hash
    is now `hashCut`, and the table still says that there is no such record. -/
theorem bcFind_misses_cut_entry :
    ∃ bc, Bc.empty.run cutRun = some bc ∧ 6701567 ∈ bc.idx.liveAt hashCut ∧
      (bcIdxFind bc hashCut).map (fun r => (r.1, r.2.1)) = some (.noent, none) := by
  have hrun : Bc.empty.run cutRun = some ((Bc.empty.run cutRun).getD Bc.empty) := by
    have hsome : (Bc.empty.run cutRun).isSome = true := rfl
    obtain ⟨bc, hbc⟩ := isSome_iff_exists.mp hsome
    rw [hbc]
    rfl
  exact ⟨_, hrun, ⟨by decide, by decide, by decide +kernel⟩, by decide +kernel⟩

end ShareCoin.Blockchain
