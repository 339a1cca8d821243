import ShareCoin.Blockchain.Fmap

/-!
# `bc_index.c` and `bc_table.c` — the index and its lookup cache

The index is a file map of 64 byte entries, one per record position; an entry of size zero is a
hole. `_bc_idx_find` looks a hash up by scanning the entries downwards, and the table file
shortens the scan: each of its `BC_TABLE_SIZE` slots serves every hash of one residue class and
holds the highest position known for that class, or `0` ("search"), or
`BC_TABLE_NULL_POS` ("no record exists").

An entry is written at the byte offset `pos * 64` *as a `bcsize_t`*, so a position of `2^26` or
more lands on an earlier entry. `entryAt` is that position.
-/

namespace ShareCoin.Blockchain

abbrev BcHash := Vector UInt32 8

/-- `bc_idx_t`, without its two reserved words. -/
structure BcIdx where
  jrnl : Nat
  of : Nat
  size : Nat
  crc : UInt32
  hash : BcHash
  deriving DecidableEq, Repr

/-- The entry `memset` to zero. -/
def BcIdx.blank : BcIdx := { jrnl := 0, of := 0, size := 0, crc := 0, hash := Vector.replicate 8 0 }

/-- Sixteen words: `jrnl`, `of`, `size`, `crc`, two reserved pairs, and the hash. -/
instance : Cell BcIdx where
  width := 64
  blank := BcIdx.blank
  cut k e :=
    { jrnl := if 4 ≤ k then e.jrnl else 0
      of := if 8 ≤ k then e.of else 0
      size := if 12 ≤ k then e.size else 0
      crc := if 16 ≤ k then e.crc else 0
      hash := Vector.ofFn fun i => if 32 + 4 * (i.val + 1) ≤ k then e.hash[i] else 0 }

instance : Cell UInt8 where
  width := 1
  blank := 0
  cut k b := if 1 ≤ k then b else 0

@[simp] theorem width_bcIdx : Cell.width BcIdx = 64 := rfl

@[simp] theorem width_uint8 : Cell.width UInt8 = 1 := rfl

/-- `bc_t`: the index, the table, the archive index, and one journal per `jrnl` number. -/
structure Bc where
  idx : BcMap BcIdx
  tab : Nat → Nat
  arch : BcMap BcIdx
  jrnl : Nat → BcMap UInt8

/-- The store over files that do not exist yet. -/
def Bc.empty : Bc :=
  { idx := BcMap.fresh, tab := fun _ => 0, arch := BcMap.fresh, jrnl := fun _ => BcMap.fresh }

/-! ## The table -/

def bcTableSize : Nat := 1048576

def bcTablePosMask : Nat := 0xFFFFFFF0

def bcTableNullPos : Nat := 0xFFFFFFF1

def bcTableSearchPos : Nat := 0

/-- `bc_table_hash`: the eight words added as `uint32_t`. -/
def bcTableHash (hash : BcHash) : Nat := (hash.foldl (· + ·) 0).toNat % bcTableSize

section

variable (tab : Nat → Nat) (hash : BcHash)
include tab

def setSlot (v : Nat) : Nat → Nat :=
  fun b => if b = bcTableHash hash then v else tab b

def bcTableGet : BcErr × Nat :=
  let p := tab (bcTableHash hash)
  if p = bcTableSearchPos then (.srch, bcTableNullPos)
  else if p = bcTableNullPos then (.noent, bcTableNullPos)
  else (.ok, p)

def bcTableSet (pos : Nat) : Nat → Nat :=
  let p := tab (bcTableHash hash)
  if bcTablePosMask ≤ pos then tab
  else if p < pos ∨ bcTablePosMask ≤ p then setSlot tab hash pos
  else tab

def bcTableUnset : Nat → Nat := setSlot tab hash bcTableNullPos

def bcTableReset : Nat → Nat := setSlot tab hash bcTableSearchPos

end

/-! ## The index -/

/-- `hdr->of / sizeof(bc_idx_t)`, of the index or of the archive. -/
def BcMap.total (m : BcMap BcIdx) : Nat := m.of / 64

/-- The entry that the byte offset `pos * sizeof(bc_idx_t)`, taken as a `bcsize_t`, points at. -/
def entryAt (pos : Nat) : Nat := pos * 64 % 2 ^ 32 / 64

/-- `_bc_idx_get`, and `_bc_arch_get` on the archive. An unmapped file has no header to read. -/
def bcMapGet (m : BcMap BcIdx) (pos : Nat) : Option (BcErr × BcIdx) :=
  if m.size = 0 then none
  else if m.total ≤ pos then some (.noent, BcIdx.blank)
  else do
    let e ← m.read? pos
    if e.size = 0 then some (.noent, BcIdx.blank) else some (.ok, e)

/-- The common part of `_bc_idx_set` and `_bc_arch_set`: refuse a live position, enlarge the map
    when the entry lies behind its end, write the entry. The two sizes in the growth request
    are compared without the header, as in the source. -/
def bcMapSet (m : BcMap BcIdx) (pos : Nat) (e : BcIdx) : Option (BcErr × BcMap BcIdx) := do
  let (err, _) ← bcMapGet m pos
  if err ≠ .noent then some (.exist, m)
  else
    let of := pos * 64 % 2 ^ 32
    let (err, m) :=
      if m.total ≤ pos ∧ m.size < of + 64 then bcMapAlloc m ((of + 64 - m.size) % 2 ^ 32)
      else (.ok, m)
    if err ≠ .ok then some (err, m) else bcMapWrite m of [e]

section

variable (bc : Bc) (pos : Nat) (e : BcIdx)

def bcIdxSet : Option (BcErr × Bc) := do
  let (err, m) ← bcMapSet bc.idx pos e
  let bc := { bc with idx := m }
  if err ≠ .ok then some (err, bc)
  else some (.ok, { bc with tab := bcTableReset bc.tab e.hash })

def bcIdxReset : Option (BcErr × Bc) := do
  let (err, _) ← bcMapGet bc.idx pos
  if err ≠ .ok then some (.noent, bc)
  else
    let of := pos * 64 % 2 ^ 32
    if bc.idx.total ≤ pos ∨ bc.idx.size < of + 64 then some (.io, bc)
    else
      let (err, m) ← bcMapWrite bc.idx of [e]
      some (err, { bc with idx := m })

def bcIdxClear : Option (BcErr × Bc) :=
  if bc.idx.size = 0 then none
  else
    let of := pos * 64 % 2 ^ 32
    if bc.idx.total ≤ pos ∧ bc.idx.size < of + 64 then some (.ok, bc)
    else do
      let (err, m) ← bcMapWrite bc.idx of [BcIdx.blank]
      some (err, { bc with idx := m })

def bcIdxNext : Option Nat := if bc.idx.size = 0 then none else some bc.idx.total

end

/-- The loop of `_bc_idx_find`, at `i = k - 1`: the position the hash was found at, and
    `pos_high` (`none` for `-1`). -/
def idxFindLoop (m : BcMap BcIdx) (hash : BcHash) : Nat → Option Nat →
    Option (Option Nat × Option Nat)
  | 0, posHigh => some (none, posHigh)
  | i + 1, posHigh => do
      let e ← m.read? i
      if e.size = 0 then idxFindLoop m hash i posHigh
      else
        let posHigh :=
          if posHigh.all (· < i) && bcTableHash e.hash == bcTableHash hash then some i else posHigh
        if e.hash = hash then some (some i, posHigh) else idxFindLoop m hash i posHigh

/-- The table update that follows the loop: `pos` is what the table answered. -/
def idxFindUpdate (tab : Nat → Nat) (hash : BcHash) (pos : Nat) (found posHigh : Option Nat) :
    Nat → Nat :=
  match posHigh with
  | some p => if pos ≠ p then bcTableSet tab hash p else tab
  | none => if found.isNone then bcTableUnset tab hash else tab

def bcIdxFind (bc : Bc) (hash : BcHash) : Option (BcErr × Option Nat × Bc) :=
  let (err, pos) := bcTableGet bc.tab hash
  if err = .noent then some (.noent, none, bc)
  else if bc.idx.size = 0 then none
  else do
    let total := bc.idx.total
    -- `pos_high`, dropped when it lies past `len = total - 1` (which wraps for an empty index)
    let posHigh : Option Nat := if err = .ok ∧ ¬ (0 < total ∧ total ≤ pos) then some pos else none
    let (found, posHigh) ← idxFindLoop bc.idx hash
      (match posHigh with | some p => p + 1 | none => total) posHigh
    let bc := { bc with tab := idxFindUpdate bc.tab hash pos found posHigh }
    match found with
    | none => some (.noent, none, bc)
    | some i => some (.ok, some i, bc)

end ShareCoin.Blockchain
