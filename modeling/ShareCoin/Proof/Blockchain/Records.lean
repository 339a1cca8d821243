import ShareCoin.Proof.Blockchain.Entries
import ShareCoin.Lib.Extent

/-!
# The record store reads back what was written

What the store is for is `Records`: a record for each position, and a list of the records that
were put away. `Records.step` moves it along with the return codes of the calls alone. The store
keeps each of these values in an extent of a journal, so `RecordInv` is the library's `Holds`,
with the index positions and the archive positions as owners, together with the few facts that
`bc_get` checks on the way.

A position of `2^26` or more does not fit the index: `bc_write` reports success and the entry
lands somewhere else. So this is about calls that write below it, and about maps that have not
wrapped.
-/

namespace ShareCoin.Blockchain

open Lib List Option Function

/-! ## What the store is for -/

/-- The records a user of the store believes in: the next position, the records by position, and
    the archived ones in order. -/
structure Records where
  next : Nat
  held : Nat → Option (List UInt8)
  archived : List (List UInt8)

def Records.empty : Records := { next := 0, held := fun _ => none, archived := [] }

def Records.put (r : Records) (pos : Nat) (data : List UInt8) : Records :=
  { r with next := max r.next (pos + 1), held := Function.update r.held pos (some data) }

def Records.putAway (r : Records) (pos : Nat) : Records :=
  match r.held pos with
  | some data =>
    { r with held := Function.update r.held pos none, archived := r.archived ++ [data] }
  | none => r

/-- What a call that returned `err` has done. -/
def Records.step (r : Records) : BcOp → BcErr → Records
  | .append _ data, .ok => r.put r.next data.val
  | .write pos _ data, .ok => r.put pos.toNat data.val
  | .rewrite pos _ data, .ok => r.put pos.toNat data.val
  | .clear pos, .ok => r.putAway pos.toNat
  | .archWrite _ data, .ok => { r with archived := r.archived ++ [data.val] }
  | _, _ => r

/-- The store and what its user believes in, side by side. -/
def recordStep (s : Bc × Records) (op : BcOp) : Option (Bc × Records) :=
  (s.1.step op).map fun (err, bc) => (bc, s.2.step op err)

/-- The calls that read and write records: they write something, below position `2^26`. A
    lookup is one of them, `bc_purge` and `bc_idx_clear` are not. -/
def BcOp.OnRecords : BcOp → Prop
  | .append _ data => data.val ≠ []
  | .write pos _ data => pos.toNat < 2 ^ 26 ∧ data.val ≠ []
  | .rewrite _ _ data => data.val ≠ []
  | .archWrite _ data => data.val ≠ []
  | .clear _ | .tableReset _ | .tableClear | .find _ => True
  | .purge _ | .idxClear _ => False

/-- No growth of a file of the store has wrapped. -/
structure Bc.Fits (bc : Bc) : Prop where
  idx : bc.idx.wrapped = false
  arch : bc.arch.wrapped = false
  jrnl : ∀ j, (bc.jrnl j).wrapped = false

/-! ## The store as extents -/

def BcMap.liveEntry (m : BcMap BcIdx) (i : Nat) : Option BcIdx :=
  if i < m.total ∧ (m.raw i).size ≠ 0 then some (m.raw i) else none

/-- The entries of the store: `inl` for the index, `inr` for the archive. -/
def Bc.liveEntry (bc : Bc) : Nat ⊕ Nat → Option BcIdx
  | .inl i => bc.idx.liveEntry i
  | .inr i => bc.arch.liveEntry i

/-- The byte range that an entry describes. -/
def BcIdx.extent (e : BcIdx) : Extent Nat := ⟨e.jrnl, e.of, e.size⟩

/-- The value of each owner of an extent. -/
def Records.val (r : Records) : Nat ⊕ Nat → Option (List UInt8)
  | .inl i => r.held i
  | .inr i => r.archived[i]?

/-- What `_bc_read` checks of an entry: its checksum is that of the value, and its journal is one
    that can be opened. -/
def Stamped (ent : Nat ⊕ Nat → Option BcIdx) (val : Nat ⊕ Nat → Option (List UInt8)) : Prop :=
  ∀ o e, ent o = some e → (val o).map shcrc32 = some e.crc ∧ e.jrnl < 2 ^ 32 - 1

/-- **The record invariant.** -/
structure RecordInv (bc : Bc) (r : Records) : Prop where
  idx_wf : bc.idx.Wf
  idx_tail : ∀ i, bc.idx.total ≤ i → (bc.idx.raw i).size = 0
  idx_total : bc.idx.total = r.next
  arch_wf : bc.arch.Wf
  arch_tail : ∀ i, bc.arch.total ≤ i → (bc.arch.raw i).size = 0
  arch_total : bc.arch.total = r.archived.length
  jrnl_room : ∀ j, bcHdrSize + (bc.jrnl j).of < (bc.jrnl j).size ∧ (bc.jrnl j).size < 2 ^ 32
  jrnl_eq : ∀ i e, bc.idx.liveEntry i = some e → e.jrnl = bcJournal i
  stamped : Stamped bc.liveEntry r.val
  holds : Holds (fun j => (bc.jrnl j).raw) (fun j => (bc.jrnl j).of)
    (fun o => (bc.liveEntry o).map BcIdx.extent) r.val

theorem liveEntry_fresh (i : Nat) : (BcMap.fresh : BcMap BcIdx).liveEntry i = none := by
  simp [BcMap.liveEntry, BcMap.total, BcMap.fresh]

theorem recordInv_empty : RecordInv Bc.empty Records.empty := by
  have hnone : ∀ o, Bc.empty.liveEntry o = none := by
    rintro (i | i) <;> exact liveEntry_fresh i
  refine ⟨BcMap.fresh_wf, fun _ _ => rfl, rfl, BcMap.fresh_wf, fun _ _ => rfl, rfl, ?_, ?_, ?_, ?_⟩
  · intro j
    simp [Bc.empty, BcMap.fresh, bcHdrSize, bcMapBlockSize]
  · intro i e h
    rw [show Bc.empty.idx.liveEntry i = none from liveEntry_fresh i] at h
    exact absurd h (by simp)
  · intro o e h
    rw [hnone] at h
    exact absurd h (by simp)
  · refine ⟨?_, ?_, ?_⟩
    · simp [hnone]
    · simp [hnone]
    · rintro (i | i) <;> simp [hnone, Records.val, Records.empty]

variable {e : BcIdx} {m : BcMap BcIdx} {j : Nat}

/-! ## One entry written -/

theorem BcMap.liveEntry_eq_some {i : Nat} :
    m.liveEntry i = some e ↔ i < m.total ∧ e.size ≠ 0 ∧ m.raw i = e := by
  unfold BcMap.liveEntry
  split_ifs with h
  · constructor
    · rintro ⟨rfl⟩
      exact ⟨h.1, h.2, rfl⟩
    · rintro ⟨-, -, rfl⟩
      rfl
  · simp only [false_iff]
    rintro ⟨hi, hs, rfl⟩
    exact h ⟨hi, hs⟩

theorem BcMap.Put.liveEntry_eq {m m' : BcMap BcIdx} (h : m.Put j e m')
    (htail : ∀ i, m.total ≤ i → (m.raw i).size = 0) :
    m'.liveEntry = update m.liveEntry j (if e.size = 0 then none else some e) := by
  funext i
  by_cases hij : i = j
  · subst hij
    rw [update_self, BcMap.liveEntry, h.raw_eq, update_self, h.total_eq]
    by_cases hs : e.size = 0
    · simp [hs]
    · rw [if_pos ⟨by omega, hs⟩, if_neg hs]
  · rw [update_of_ne hij, BcMap.liveEntry, BcMap.liveEntry, h.raw_eq, update_of_ne hij, h.total_eq]
    by_cases hi : i < m.total
    · simp [hi, Nat.lt_of_lt_of_le hi (Nat.le_max_left _ (j + 1))]
    · simp [hi, htail i (by omega)]

theorem BcMap.Put.tail {m m' : BcMap BcIdx} (h : m.Put j e m')
    (htail : ∀ i, m.total ≤ i → (m.raw i).size = 0) : ∀ i, m'.total ≤ i → (m'.raw i).size = 0 := by
  intro i hi
  rw [h.total_eq] at hi
  rw [h.raw_eq, update_of_ne (by omega)]
  exact htail i (by omega)

theorem Bc.liveEntry_eq (bc : Bc) :
    bc.liveEntry = Sum.elim bc.idx.liveEntry bc.arch.liveEntry := by
  funext o
  rcases o with i | i <;> rfl

theorem Bc.liveEntry_idx {bc bc' : Bc} (h : bc.idx.Put j e bc'.idx)
    (harch : bc'.arch = bc.arch) (htail : ∀ i, bc.idx.total ≤ i → (bc.idx.raw i).size = 0) :
    bc'.liveEntry = update bc.liveEntry (.inl j) (if e.size = 0 then none else some e) := by
  rw [liveEntry_eq, liveEntry_eq, harch, h.liveEntry_eq htail, Sum.update_elim_inl]

theorem Bc.liveEntry_arch {bc bc' : Bc} (h : bc.arch.Put j e bc'.arch)
    (hidx : bc'.idx = bc.idx) (htail : ∀ i, bc.arch.total ≤ i → (bc.arch.raw i).size = 0) :
    bc'.liveEntry = update bc.liveEntry (.inr j) (if e.size = 0 then none else some e) := by
  rw [liveEntry_eq, liveEntry_eq, hidx, h.liveEntry_eq htail, Sum.update_elim_inr]

theorem Stamped.update {ent : Nat ⊕ Nat → Option BcIdx} {val : Nat ⊕ Nat → Option (List UInt8)}
    (h : Stamped ent val) (o : Nat ⊕ Nat) {x : Option BcIdx} {y : Option (List UInt8)}
    (hx : ∀ e, x = some e → y.map shcrc32 = some e.crc ∧ e.jrnl < 2 ^ 32 - 1) :
    Stamped (update ent o x) (update val o y) := by
  intro o' e he
  by_cases ho : o' = o
  · subst ho
    rw [update_self] at he ⊢
    exact hx e he
  · rw [update_of_ne ho] at he ⊢
    exact h o' e he

/-! ## One range of a journal written -/

variable {data : List UInt8} {m : BcMap UInt8} {bc : Bc} {of : Nat}

theorem BcMap.Wrote.overwrites (h : (bc.jrnl j).Wrote of data m) :
    Overwrites (fun k => (bc.jrnl k).raw) (fun k => ((bc.setJrnl j m).jrnl k).raw) j of data where
  inside := by
    intro k hk
    simp only [Bc.setJrnl, if_true, h.raw_eq, BcMap.store, width_uint8, Nat.div_one]
    rw [if_pos (by omega), Nat.add_sub_cancel_left, getD_eq_getElem?_getD,
      getElem?_eq_getElem hk, getD_some]
  outside := by
    intro f n hn
    by_cases hf : f = j
    · subst hf
      simp only [Bc.setJrnl, if_true, h.raw_eq, BcMap.store, width_uint8, Nat.div_one]
      rw [if_neg (by omega)]
    · simp [Bc.setJrnl, hf]

theorem BcMap.Wrote.top_append (h : (bc.jrnl j).Wrote (bc.jrnl j).of data m) :
    (fun k => ((bc.setJrnl j m).jrnl k).of)
      = update (fun k => (bc.jrnl k).of) j ((bc.jrnl j).of + data.length) := by
  funext k
  by_cases hk : k = j
  · subst hk
    simp [Bc.setJrnl, h.of_eq]
  · simp [Bc.setJrnl, hk]

theorem BcMap.Wrote.top_below (h : (bc.jrnl j).Wrote of data m)
    (hle : of + data.length ≤ (bc.jrnl j).of) :
    (fun k => ((bc.setJrnl j m).jrnl k).of) = fun k => (bc.jrnl k).of := by
  funext k
  by_cases hk : k = j
  · subst hk
    simp [Bc.setJrnl, h.of_eq, hle]
  · simp [Bc.setJrnl, hk]

theorem BcMap.Wrote.room_all (h : (bc.jrnl j).Wrote of data m) (hle : of ≤ (bc.jrnl j).of)
    (hall : ∀ k, bcHdrSize + (bc.jrnl k).of < (bc.jrnl k).size ∧ (bc.jrnl k).size < 2 ^ 32) :
    ∀ k, bcHdrSize + ((bc.setJrnl j m).jrnl k).of < ((bc.setJrnl j m).jrnl k).size ∧
      ((bc.setJrnl j m).jrnl k).size < 2 ^ 32 := by
  intro k
  by_cases hk : k = j
  · subst hk
    have hroom := h.room
    have hof := h.of_eq
    simp only [Bc.setJrnl, if_true]
    exact ⟨by omega, h.wf.size_lt⟩
  · simpa [Bc.setJrnl, hk] using hall k

/-! ## What a call does to the records -/

theorem Records.val_eq (r : Records) : r.val = Sum.elim r.held fun i => r.archived[i]? := by
  funext o
  rcases o with i | i <;> rfl

theorem Records.put_val (r : Records) (pos : Nat) (data : List UInt8) :
    (r.put pos data).val = update r.val (.inl pos) (some data) := by
  rw [val_eq, val_eq, Sum.update_elim_inl]
  rfl

theorem Records.archived_val (r : Records) (data : List UInt8) :
    ({ r with archived := r.archived ++ [data] } : Records).val
      = update r.val (.inr r.archived.length) (some data) := by
  rw [val_eq, val_eq, Sum.update_elim_inr]
  congr 1
  funext i
  rcases Nat.lt_trichotomy i r.archived.length with hi | rfl | hi
  · rw [update_of_ne (by omega), getElem?_append_left hi]
  · simp
  · rw [update_of_ne (by omega), getElem?_eq_none (by simp; omega), getElem?_eq_none (by omega)]

theorem extent_update (ent : Nat ⊕ Nat → Option BcIdx) (o : Nat ⊕ Nat) (x : Option BcIdx) :
    (fun o' => (update ent o x o').map BcIdx.extent)
      = update (fun o' => (ent o').map BcIdx.extent) o (x.map BcIdx.extent) :=
  comp_update (Option.map BcIdx.extent) ent o x

section Calls

variable {bc' : Bc} {r : Records} {pos : Nat}

/-- The entry `_bc_write` and `_bc_arch_write` make for bytes appended to journal `j`. -/
structure BcIdx.Appended (e : BcIdx) (bc : Bc) (j : Nat) (data : List UInt8) : Prop where
  jrnl_eq : e.jrnl = j
  of_eq : e.of = (bc.jrnl j).of
  size_eq : e.size = data.length
  crc_eq : e.crc = shcrc32 data

theorem BcIdx.Appended.size_ne (he : e.Appended bc j data) (hne : data ≠ []) : ¬ e.size = 0 := by
  rw [he.size_eq]
  exact fun h0 => hne (length_eq_zero_iff.mp h0)

theorem BcIdx.Appended.extent_eq (he : e.Appended bc j data) :
    e.extent = ⟨j, (bc.jrnl j).of, data.length⟩ := by
  rw [BcIdx.extent, he.jrnl_eq, he.of_eq, he.size_eq]

/-- A record entered in the index, whichever way its bytes came into the journal. -/
theorem RecordInv.jrnl_put {m : BcMap BcIdx} (h : RecordInv bc r) (hput : bc.idx.Put pos e m)
    (he : e.size = 0 ∨ e.jrnl = bcJournal pos) :
    ∀ i e', m.liveEntry i = some e' → e'.jrnl = bcJournal i := by
  intro i e' hi
  rw [hput.liveEntry_eq h.idx_tail] at hi
  by_cases hip : i = pos
  · subst hip
    rw [update_self] at hi
    split_ifs at hi with hsz
    cases hi
    exact he.resolve_left hsz
  · rw [update_of_ne hip] at hi
    exact h.jrnl_eq i e' hi

theorem RecordInv.enter (h : RecordInv bc r) (hsz : ¬ e.size = 0)
    (hput : bc.idx.Put pos e bc'.idx) (harch : bc'.arch = bc.arch)
    (hej : e.jrnl = bcJournal pos) (hcrc : e.crc = shcrc32 data) (hj : e.jrnl < 2 ^ 32 - 1)
    (hroom : ∀ j, bcHdrSize + (bc'.jrnl j).of < (bc'.jrnl j).size ∧ (bc'.jrnl j).size < 2 ^ 32)
    (hholds : Holds (fun j => (bc'.jrnl j).raw) (fun j => (bc'.jrnl j).of)
      (update (fun o => (bc.liveEntry o).map BcIdx.extent) (.inl pos) (some e.extent))
      (update r.val (.inl pos) (some data))) :
    RecordInv bc' (r.put pos data) := by
  have hent := Bc.liveEntry_idx hput harch h.idx_tail
  rw [if_neg hsz] at hent
  refine ⟨hput.wf, hput.tail h.idx_tail, ?_, harch ▸ h.arch_wf, harch ▸ h.arch_tail,
    harch ▸ h.arch_total, hroom, h.jrnl_put hput (.inr hej), ?_, ?_⟩
  · rw [hput.total_eq, h.idx_total]
    rfl
  · rw [hent, Records.put_val]
    refine h.stamped.update _ ?_
    intro e' he'
    cases he'
    exact ⟨by rw [hcrc]; rfl, hj⟩
  · rw [hent, Records.put_val, extent_update, map_some]
    exact hholds

theorem RecordInv.append (h : RecordInv bc r) (he : e.Appended bc (bcJournal pos) data)
    (hne : data ≠ []) (hj : bcJournal pos < 2 ^ 32 - 1) (hput : bc.idx.Put pos e bc'.idx)
    (harch : bc'.arch = bc.arch) (hjrnl : bc'.jrnl = (bc.setJrnl (bcJournal pos) m).jrnl)
    (hwr : (bc.jrnl (bcJournal pos)).Wrote (bc.jrnl (bcJournal pos)).of data m) :
    RecordInv bc' (r.put pos data) := by
  refine h.enter (he.size_ne hne) hput harch he.jrnl_eq he.crc_eq (he.jrnl_eq ▸ hj) ?_ ?_
  · rw [hjrnl]
    exact hwr.room_all (Nat.le_refl _) h.jrnl_room
  · rw [hjrnl, hwr.top_append, he.extent_eq]
    exact h.holds.append hwr.overwrites

theorem RecordInv.appendArch (h : RecordInv bc r) (he : e.Appended bc j data) (hne : data ≠ [])
    (hj : j < 2 ^ 32 - 1) (hput : bc.arch.Put r.archived.length e bc'.arch)
    (hidx : bc'.idx = bc.idx) (hjrnl : bc'.jrnl = (bc.setJrnl j m).jrnl)
    (hwr : (bc.jrnl j).Wrote (bc.jrnl j).of data m) :
    RecordInv bc' { r with archived := r.archived ++ [data] } := by
  have hent := Bc.liveEntry_arch hput hidx h.arch_tail
  rw [if_neg (he.size_ne hne)] at hent
  refine ⟨hidx ▸ h.idx_wf, hidx ▸ h.idx_tail, hidx ▸ h.idx_total, hput.wf,
    hput.tail h.arch_tail, ?_, ?_, hidx ▸ h.jrnl_eq, ?_, ?_⟩
  · rw [hput.total_eq, h.arch_total]
    simp
  · rw [hjrnl]
    exact hwr.room_all (Nat.le_refl _) h.jrnl_room
  · rw [hent, Records.archived_val]
    refine h.stamped.update _ ?_
    intro e' he'
    cases he'
    exact ⟨by rw [he.crc_eq]; rfl, by rw [he.jrnl_eq]; exact hj⟩
  · rw [hent, Records.archived_val, hjrnl, extent_update, hwr.top_append, map_some, he.extent_eq]
    exact h.holds.append hwr.overwrites

theorem RecordInv.rewrite (h : RecordInv bc r) (hget : bc.idx.liveEntry pos = some e)
    (hle : data.length ≤ e.size) (hne : data ≠ [])
    (hput : bc.idx.Put pos { e with size := data.length, crc := shcrc32 data } bc'.idx)
    (harch : bc'.arch = bc.arch) (hjrnl : bc'.jrnl = (bc.setJrnl (bcJournal pos) m).jrnl)
    (hwr : (bc.jrnl (bcJournal pos)).Wrote e.of data m) : RecordInv bc' (r.put pos data) := by
  have hown : (fun o => (bc.liveEntry o).map BcIdx.extent) (.inl pos) = some e.extent := by
    simp [Bc.liveEntry, hget]
  have hej := h.jrnl_eq pos e hget
  have hbelow : e.of + e.size ≤ (bc.jrnl (bcJournal pos)).of := by
    have := h.holds.below _ _ hown
    simpa [BcIdx.extent, hej] using this
  refine h.enter (fun h0 => hne (length_eq_zero_iff.mp h0)) hput harch hej rfl
    (h.stamped (.inl pos) e hget).2 ?_ ?_
  · rw [hjrnl]
    exact hwr.room_all (by omega) h.jrnl_room
  · rw [hjrnl, hwr.top_below (by omega)]
    refine h.holds.rewrite hown hle ?_
    rw [show e.extent.file = bcJournal pos from hej]
    exact hwr.overwrites

theorem Records.putAway_val (hd : r.held pos = some data) :
    (r.putAway pos).val = update (update r.val (.inr r.archived.length) (r.val (.inl pos)))
      (.inl pos) none := by
  have hval : r.val (.inl pos) = some data := hd
  rw [hval, ← archived_val, val_eq, val_eq, Sum.update_elim_inl, putAway, hd]

theorem RecordInv.clear (h : RecordInv bc r) (hget : bc.idx.liveEntry pos = some e)
    (harch : bc.arch.Put r.archived.length e bc'.arch)
    (hidx : bc.idx.Put pos BcIdx.blank bc'.idx) (hjrnl : bc'.jrnl = bc.jrnl) :
    RecordInv bc' (r.putAway pos) := by
  obtain ⟨hlt, hsz, -⟩ := BcMap.liveEntry_eq_some.mp hget
  have hown : bc.liveEntry (.inl pos) = some e := hget
  obtain ⟨data, hd⟩ : ∃ data, r.held pos = some data :=
    ⟨_, h.holds.bytes_eq (i := .inl pos) (a := e.extent) (by simp [hown])⟩
  have hval := Records.putAway_val hd
  have hent : bc'.liveEntry = update (update bc.liveEntry (.inr r.archived.length)
      (bc.liveEntry (.inl pos))) (.inl pos) none := by
    rw [hown, Bc.liveEntry_eq, Bc.liveEntry_eq, hidx.liveEntry_eq h.idx_tail,
      harch.liveEntry_eq h.arch_tail, Sum.update_elim_inr, Sum.update_elim_inl, if_neg hsz]
    rfl
  have haway : (r.putAway pos).next = r.next ∧
      (r.putAway pos).archived.length = r.archived.length + 1 := by
    simp [Records.putAway, hd]
  refine ⟨hidx.wf, hidx.tail h.idx_tail, ?_, harch.wf, harch.tail h.arch_tail, ?_,
    hjrnl ▸ h.jrnl_room, h.jrnl_put hidx (.inl rfl), ?_, ?_⟩
  · rw [hidx.total_eq, haway.1, ← h.idx_total]
    omega
  · rw [harch.total_eq, haway.2, h.arch_total]
    omega
  · rw [hent, hval]
    exact (h.stamped.update _ fun e' he' => h.stamped _ e' he').update _ fun e' he' =>
      absurd he' (by simp)
  · rw [hent, hval, hjrnl, extent_update, extent_update]
    exact h.holds.move

end Calls

end ShareCoin.Blockchain
