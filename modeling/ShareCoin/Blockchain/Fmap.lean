import Mathlib.Data.UInt

/-!
# `bc_fmap.c` — the growing file map

Every file of the record store is one `bc_map_t`: a sixteen byte header, whose `of` field says
how many bytes the user has written, and after it the data. `_bc_map_alloc` enlarges the file
when a write might not fit, `_bc_map_write` copies the data in and moves `hdr->of` up.

Two things are kept that a list would lose. The sizes are computed as the source computes them,
in a 32 bit variable, so a growth near `2^32` wraps and the `ftruncate` that follows *shrinks*
the file. And the copy is only defined inside the mapping: a write or a read outside it has no
result here (`none`), because the process has none either.

The header's time stamp, the descriptor and the mapped address are left out; a map that is
closed and opened again reads the same header and the same bytes, so the model does not tell the
two apart. System calls succeed, apart from an `mmap` of nothing.
-/

namespace ShareCoin.Blockchain

/-- The error codes the store returns; `ok` is `0`. -/
inductive BcErr where
  | ok | inval | noent | srch | io | ilseq | exist | overflow | nomem
  deriving DecidableEq, Repr

/-- What a map holds in one of its slots: its width in bytes, the slot of a file that was never
    written, and what is read back of a slot of which only the first `k` bytes survived a
    truncation. -/
class Cell (α : Type) where
  width : Nat
  blank : α
  cut : Nat → α → α

def bcMapBlockSize : Nat := 16384

def maxBcMapSize : Nat := 0xFFFFFFF0

def bcHdrSize : Nat := 16

/-- A file map: the size of the file and of its mapping, the header's `of`, and the slots after
    the header. `wrapped` is no field of the source: it records that some growth of this map
    computed a size of `2^32` bytes or more, which the `bcsize_t` it is assigned to cannot hold. -/
structure BcMap (α : Type) where
  size : Nat
  of : Nat
  raw : Nat → α
  wrapped : Bool

variable {α : Type} [Cell α] {m : BcMap α} {len : Nat} {m' : BcMap α} {data : List α} {err : BcErr}

/-- The map of a file that `_bc_map_open` has just created. -/
def BcMap.fresh : BcMap α :=
  { size := bcMapBlockSize, of := 0, raw := fun _ => Cell.blank, wrapped := false }

/-- The size a growth by `len` asks for, before it is squeezed into a `bcsize_t`: ten percent
    more than needed, rounded up to the next block. -/
def growWanted (stSize len : Nat) : Nat :=
  ((stSize + len + (stSize + len) / 10) / bcMapBlockSize + 1) * bcMapBlockSize

/-- The size `_bc_map_alloc` hands to `ftruncate`: every assignment to `size` drops what does
    not fit 32 bits. -/
def growSize (stSize len : Nat) : Nat :=
  let size := (stSize + len) % 2 ^ 32
  let size := (size + size / 10) % 2 ^ 32
  (size / bcMapBlockSize + 1) * bcMapBlockSize % 2 ^ 32

/-- `ftruncate`: bytes past the new end are gone, bytes past the old end read as zero. Only a
    truncation to nothing takes the header along. -/
def BcMap.ftruncate (m : BcMap α) (size : Nat) : BcMap α :=
  { m with
    size := size
    of := if size = 0 then 0 else m.of
    raw := if size < m.size then
        fun i => Cell.cut (size - bcHdrSize - i * Cell.width α) (m.raw i)
      else m.raw }

def BcMap.grow (m : BcMap α) (len : Nat) : BcMap α :=
  { m.ftruncate (growSize m.size len) with
    wrapped := m.wrapped || decide (2 ^ 32 ≤ growWanted m.size len) }

def bcMapAlloc (m : BcMap α) (len : Nat) : BcErr × BcMap α :=
  if maxBcMapSize ≤ m.size / bcMapBlockSize * bcMapBlockSize % 2 ^ 32 then (.overflow, m)
  else if bcHdrSize + m.of + len < m.size then (.ok, m)
  -- `mmap` refuses an empty mapping
  else if growSize m.size len = 0 then (.nomem, m.grow len)
  else (.ok, m.grow len)

/-- The two sizes of a map: of its file, which may have any length, and of the mapping if there is
    one. -/
structure MapSizes where
  stSize : Nat
  mapped : Option Nat

/-- `_bc_map_alloc` on the sizes. A file that is large enough, and not mapped yet, is mapped up to
    its last whole block. -/
def bcMapAllocSizes (s : MapSizes) (mapOf len : Nat) : BcErr × MapSizes :=
  let size := s.stSize / bcMapBlockSize * bcMapBlockSize % 2 ^ 32
  if maxBcMapSize ≤ size then (.overflow, s)
  else if s.mapped.isSome ∧ bcHdrSize + mapOf + len < s.stSize then (.ok, s)
  else if size < bcMapBlockSize ∨ s.stSize ≤ bcHdrSize + mapOf + len then
    let size := growSize s.stSize len
    if size = 0 then (.nomem, ⟨0, none⟩) else (.ok, ⟨size, some size⟩)
  else (.ok, ⟨s.stSize, some size⟩)

section

variable (m : BcMap α) (of : Nat) (data : List α)

/-- `memcpy(map->raw + of, data, data_len)` and the header update of `_bc_map_write`. -/
def BcMap.store : BcMap α :=
  let i₀ := of / Cell.width α
  { m with
    raw := fun i => if i₀ ≤ i ∧ i < i₀ + data.length then data.getD (i - i₀) Cell.blank
      else m.raw i
    of := max m.of ((of + data.length * Cell.width α) % 2 ^ 32) }

def bcMapWrite : Option (BcErr × BcMap α) :=
  match bcMapAlloc m (data.length * Cell.width α) with
  | (.ok, m') =>
      if bcHdrSize + of + data.length * Cell.width α ≤ m'.size then
        some (.ok, m'.store of data)
      else none
  | (err, m') => some (err, m')

def bcMapAppend : Option (BcErr × BcMap α) :=
  match bcMapAlloc m (data.length * Cell.width α) with
  | (.ok, m') => bcMapWrite m' m'.of data
  | (err, m') => some (err, m')

/-- One slot read through the mapping. -/
def BcMap.read? (i : Nat) : Option α :=
  if bcHdrSize + (i + 1) * Cell.width α ≤ m.size then some (m.raw i) else none

/-- `n` slots from slot `i` on, read through the mapping. -/
def BcMap.slice (i n : Nat) : List α := (List.range n).map fun k => m.raw (i + k)

def BcMap.slice? (i n : Nat) : Option (List α) :=
  if bcHdrSize + (i + n) * Cell.width α ≤ m.size then some (m.slice i n) else none

/-! ## What a growth can do -/

/-- A map that has never lost anything: the header's offset lies in the file, and the size is
    one a `bcsize_t` holds. -/
structure BcMap.Wf : Prop where
  of_le : bcHdrSize + m.of ≤ m.size
  size_lt : m.size < 2 ^ 32

end

theorem BcMap.fresh_wf : (BcMap.fresh : BcMap α).Wf :=
  ⟨by simp [BcMap.fresh, bcHdrSize, bcMapBlockSize], by simp [BcMap.fresh, bcMapBlockSize]⟩

omit [Cell α] in
theorem BcMap.Wf.size_ne (h : m.Wf) : ¬ m.size = 0 := by
  have := h.of_le
  unfold bcHdrSize at this
  omega

theorem growSize_eq_growWanted {stSize len : Nat} (h : growWanted stSize len < 2 ^ 32) :
    growSize stSize len = growWanted stSize len := by
  unfold growWanted at h
  have h1 : stSize + len < 2 ^ 32 := by unfold bcMapBlockSize at h; omega
  have h2 : stSize + len + (stSize + len) / 10 < 2 ^ 32 := by unfold bcMapBlockSize at h; omega
  simp only [growSize, growWanted, Nat.mod_eq_of_lt h1, Nat.mod_eq_of_lt h2, Nat.mod_eq_of_lt h]

theorem le_growWanted (stSize len : Nat) : stSize + len < growWanted stSize len := by
  unfold growWanted bcMapBlockSize
  omega

theorem BcMap.grow_wrapped (h : (m.grow len).wrapped = false) :
    m.wrapped = false ∧ growWanted m.size len < 2 ^ 32 := by
  simpa [BcMap.grow] using h

/-- `wrapped` is sticky, so a map that ends with it clear had it clear before every growth. -/
theorem bcMapAlloc_wrapped (h : (bcMapAlloc m len).2.wrapped = false) : m.wrapped = false := by
  unfold bcMapAlloc at h
  split_ifs at h
  · exact h
  · exact h
  · exact (BcMap.grow_wrapped h).1
  · exact (BcMap.grow_wrapped h).1

/-- A `bcsize_t` rounded down to a block never reaches the limit the source checks. -/
theorem not_maxBcMapSize_le (size : Nat) :
    ¬ maxBcMapSize ≤ size / bcMapBlockSize * bcMapBlockSize % 2 ^ 32 := by
  unfold maxBcMapSize bcMapBlockSize
  omega

theorem bcMapAlloc_of_fits (h : bcHdrSize + m.of + len < m.size) : bcMapAlloc m len = (.ok, m) := by
  rw [bcMapAlloc, if_neg (not_maxBcMapSize_le _), if_pos h]

theorem bcMapAlloc_of_grows (h : m.size ≤ bcHdrSize + m.of + len)
    (hw : growWanted m.size len < 2 ^ 32) :
    bcMapAlloc m len = (.ok, { m with size := growWanted m.size len }) := by
  have hgt := le_growWanted m.size len
  have hsz := growSize_eq_growWanted hw
  have hwrap : ¬ 2 ^ 32 ≤ growWanted m.size len := by omega
  have hcut : ¬ growWanted m.size len < m.size := by omega
  have hne : ¬ growWanted m.size len = 0 := by omega
  rw [bcMapAlloc, if_neg (not_maxBcMapSize_le _), if_neg (by omega), hsz, if_neg hne]
  simp only [BcMap.grow, BcMap.ftruncate, hsz, if_neg hne, if_neg hcut, decide_eq_false hwrap,
    Bool.or_false]

/-- **A growth that does not wrap loses nothing**: the slots and the header are as they were,
    the file is no smaller, and the requested bytes fit behind the header's offset. -/
theorem bcMapAlloc_spec (hm : m.Wf) (hw : (bcMapAlloc m len).2.wrapped = false) :
    (bcMapAlloc m len).1 = .ok ∧ (bcMapAlloc m len).2.raw = m.raw ∧
      (bcMapAlloc m len).2.of = m.of ∧ m.size ≤ (bcMapAlloc m len).2.size ∧
      bcHdrSize + m.of + len < (bcMapAlloc m len).2.size ∧ (bcMapAlloc m len).2.Wf := by
  have hof := hm.of_le
  by_cases hfit : bcHdrSize + m.of + len < m.size
  · rw [bcMapAlloc_of_fits hfit]
    exact ⟨rfl, rfl, rfl, Nat.le_refl _, hfit, hm⟩
  · have hwant : growWanted m.size len < 2 ^ 32 := by
      rw [bcMapAlloc, if_neg (not_maxBcMapSize_le _), if_neg hfit] at hw
      split_ifs at hw
      · exact (BcMap.grow_wrapped hw).2
      · exact (BcMap.grow_wrapped hw).2
    have hgt := le_growWanted m.size len
    rw [bcMapAlloc_of_grows (by omega) hwant]
    exact ⟨rfl, rfl, rfl, by dsimp only; omega, by dsimp only; omega,
      ⟨by dsimp only; omega, hwant⟩⟩

/-! ## What a write can do -/

@[simp] theorem BcMap.store_size (m : BcMap α) (of : Nat) (data : List α) :
    (m.store of data).size = m.size := rfl

@[simp] theorem BcMap.store_wrapped (m : BcMap α) (of : Nat) (data : List α) :
    (m.store of data).wrapped = m.wrapped := rfl

/-- Everything a write does to the map it returns, given that no growth wrapped. -/
structure BcMap.Wrote (m : BcMap α) (of : Nat) (data : List α) (m' : BcMap α) : Prop where
  raw_eq : m'.raw = (m.store of data).raw
  of_eq : m'.of = max m.of (of + data.length * Cell.width α)
  inside : bcHdrSize + of + data.length * Cell.width α ≤ m'.size
  room : bcHdrSize + m.of + data.length * Cell.width α < m'.size
  size_le : m.size ≤ m'.size
  wf : m'.Wf

theorem bcMapWrite_wrapped {of : Nat} (h : bcMapWrite m of data = some (err, m'))
    (hw : m'.wrapped = false) : (bcMapAlloc m (data.length * Cell.width α)).2.wrapped = false := by
  unfold bcMapWrite at h
  split at h
  · next m₁ heq =>
    split_ifs at h
    cases h
    rw [heq]
    simpa using hw
  · next err₁ m₁ _ heq =>
    cases h
    rw [heq]
    exact hw

theorem bcMapWrite_spec {of : Nat} (hm : m.Wf) (h : bcMapWrite m of data = some (err, m'))
    (hw : m'.wrapped = false) : err = .ok ∧ m.wrapped = false ∧ m.Wrote of data m' := by
  have hwa := bcMapWrite_wrapped h hw
  obtain ⟨hok, hraw, hof, hle, hroom, hwf⟩ := bcMapAlloc_spec hm hwa
  unfold bcMapWrite at h
  rw [show bcMapAlloc m (data.length * Cell.width α)
    = (.ok, (bcMapAlloc m (data.length * Cell.width α)).2) from Prod.ext hok rfl] at h
  dsimp only at h
  split_ifs at h with hin
  cases h
  have hlt := hwf.size_lt
  have hmod : (of + data.length * Cell.width α) % 2 ^ 32 = of + data.length * Cell.width α :=
    Nat.mod_eq_of_lt (by omega)
  refine ⟨rfl, bcMapAlloc_wrapped hwa, ?_, ?_, ?_, hroom, hle, ?_, hlt⟩
  · simp only [BcMap.store, hraw]
  · simp only [BcMap.store, hof, hmod]
  · exact hin
  · simp only [BcMap.store, hof, hmod]
    omega

theorem bcMapAppend_spec (hm : m.Wf) (h : bcMapAppend m data = some (err, m'))
    (hw : m'.wrapped = false) : err = .ok ∧ m.wrapped = false ∧ m.Wrote m.of data m' := by
  unfold bcMapAppend at h
  split at h
  · next m₁ heq =>
    have hwa : (bcMapAlloc m (data.length * Cell.width α)).2.wrapped = false := by
      rw [heq]
      exact bcMapAlloc_wrapped (bcMapWrite_wrapped h hw)
    obtain ⟨-, hraw, hof, hle, -, hwf⟩ := bcMapAlloc_spec hm hwa
    rw [heq] at hraw hof hle hwf
    dsimp only at hraw hof hle hwf
    obtain ⟨herr, -, hwr⟩ := bcMapWrite_spec hwf h hw
    rw [hof] at hwr
    have hroom := hwr.room
    rw [hof] at hroom
    refine ⟨herr, bcMapAlloc_wrapped hwa, ?_, ?_, hwr.inside, hroom, Nat.le_trans hle hwr.size_le,
      hwr.wf⟩
    · rw [hwr.raw_eq]
      simp only [BcMap.store, hraw]
    · rw [hwr.of_eq, hof]
  · next err₁ m₁ hne heq =>
    cases h
    have hwa : (bcMapAlloc m (data.length * Cell.width α)).2.wrapped = false := by
      rw [heq]
      exact hw
    have hok := (bcMapAlloc_spec hm hwa).1
    rw [heq] at hok
    exact absurd hok hne

end ShareCoin.Blockchain
