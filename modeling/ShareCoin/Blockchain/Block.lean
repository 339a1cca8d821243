import ShareCoin.Blockchain.Index
import ShareCoin.Blockchain.Shcrc
import ShareCoin.Lib.Run

/-!
# `bc_block.c` and `bc_arch.c` — the record store

A record is an index entry and the byte range of a journal that it names. `bc_write` on a free
position appends the bytes to the position's journal; on a live one it falls through to
`_bc_rewrite`, which reuses the range and never lets it grow. `bc_clear` moves the entry to the
archive index and blanks it, so the bytes stay where they are; `bc_arch_write` appends bytes that
only ever had an archive entry.

`Option` is for the calls that do not come back: an access outside a mapping, or a loop that does
not end. `BcOp` and `Bc.step` collect the calls into one transition function, and `Bc.run` is a
sequence of them.
-/

namespace ShareCoin.Blockchain

open Lib

/-- The buffer of a write: `data_len` is an `int`. -/
abbrev BcBuf := { data : List UInt8 // data.length < 2 ^ 31 }

def bcBlocksPerJournal : Nat := 65536

/-- `bc_journal`: `pos` arrives as an `int`, the division truncates, the result is a
    `uint32_t`. -/
def bcJournal (pos : Nat) : Nat :=
  ((((pos : Int).bmod (2 ^ 32)).tdiv bcBlocksPerJournal + 1) % 2 ^ 32).toNat

def Bc.setJrnl (bc : Bc) (jrnl : Nat) (m : BcMap UInt8) : Bc :=
  { bc with jrnl := fun j => if j = jrnl then m else bc.jrnl j }

/-- `bc_alloc`. The journal list is reallocated to `jrnl + 1` entries, a sum that is `0` for the
    last `uint32_t`. -/
def bcAlloc (bc : Bc) (jrnl : Nat) : Option (BcErr × Bc) :=
  if jrnl = 2 ^ 32 - 1 then none
  else
    let (err, m) := bcMapAlloc (bc.jrnl jrnl) 0
    some (err, bc.setJrnl jrnl m)

section

variable (bc : Bc) (pos : Nat) (hash : BcHash) (data : BcBuf)

/-- `_bc_rewrite`. The entry keeps its hash; `hash` only serves the failure path. -/
def bcRewrite : Option (BcErr × Bc) := do
  let jrnl := bcJournal pos
  let (err, bc) ← bcAlloc bc jrnl
  if err ≠ .ok then some (err, bc)
  else
    let (err, e) ← bcMapGet bc.idx pos
    if err ≠ .ok then some (err, bc)
    else if e.size < data.val.length then some (.exist, bc)
    else
      let (err, bc) ← bcIdxReset bc pos
        { e with size := data.val.length, crc := shcrc32 data.val }
      if err ≠ .ok then some (err, bc)
      else
        let (err, m) ← bcMapWrite (bc.jrnl jrnl) e.of data.val
        let bc := bc.setJrnl jrnl m
        if err ≠ .ok then
          let (_, bc) ← bcIdxClear bc pos
          some (err, { bc with tab := bcTableReset bc.tab hash })
        else some (.ok, bc)

def bcWrite : Option (BcErr × Bc) := do
  let jrnl := bcJournal pos
  let (err, bc) ← bcAlloc bc jrnl
  if err ≠ .ok then some (err, bc)
  else
    let e : BcIdx :=
      { jrnl := jrnl, of := (bc.jrnl jrnl).of, size := data.val.length, crc := shcrc32 data.val,
        hash := hash }
    let (err, bc) ← bcIdxSet bc pos e
    if err = .exist then bcRewrite bc pos hash data
    else if err ≠ .ok then some (err, bc)
    else
      let (err, m) ← bcMapAppend (bc.jrnl jrnl) data.val
      let bc := bc.setJrnl jrnl m
      if err ≠ .ok then
        let (_, bc) ← bcIdxClear bc pos
        some (err, { bc with tab := bcTableReset bc.tab hash })
      else some (.ok, bc)

end

section

variable (bc : Bc) (hash : BcHash)

def bcAppend (data : BcBuf) : Option (BcErr × Bc) := do
  let pos ← bcIdxNext bc
  bcWrite bc pos hash data

def bcArchAdd (e : BcIdx) : Option (BcErr × Bc) :=
  if bc.arch.size = 0 then none
  else do
    let (err, m) ← bcMapSet bc.arch bc.arch.total e
    some (err, { bc with arch := m })

def bcClear (pos : Nat) : Option (BcErr × Bc) := do
  let (err, e) ← bcMapGet bc.idx pos
  if err ≠ .ok then some (err, bc)
  else
    let (err, bc) ← bcArchAdd bc e
    if err ≠ .ok then some (err, bc) else bcIdxClear bc pos

/-- `_bc_arch_write`: the bytes go to the journal of the next index position. -/
def bcArchWrite (data : BcBuf) : Option (BcErr × Bc) := do
  let pos ← bcIdxNext bc
  let jrnl := bcJournal pos
  let (err, bc) ← bcAlloc bc jrnl
  if err ≠ .ok then some (err, bc)
  else
    let e : BcIdx :=
      { jrnl := jrnl, of := (bc.jrnl jrnl).of, size := data.val.length, crc := shcrc32 data.val,
        hash := hash }
    let (err, m) ← bcMapAppend (bc.jrnl jrnl) data.val
    let bc := bc.setJrnl jrnl m
    if err ≠ .ok then some (err, bc) else bcArchAdd bc e

/-! ## Reading -/

/-- The check that `_bc_read`, `_bc_arch` and `_bc_purge` share: the bytes of the entry's range,
    provided that their checksum is the entry's. -/
def bcVerify (e : BcIdx) : Option (BcErr × List UInt8) := do
  let data ← (bc.jrnl e.jrnl).slice? e.of e.size
  if shcrc32 data ≠ e.crc then some (.ilseq, []) else some (.ok, data)

def bcGet (pos : Nat) : Option (BcErr × List UInt8 × Bc) := do
  let (err, e) ← bcMapGet bc.idx pos
  if err ≠ .ok then some (err, [], bc)
  else
    let (err, bc) ← bcAlloc bc e.jrnl
    if err ≠ .ok then some (err, [], bc)
    else if (bc.jrnl e.jrnl).size ≤ e.of then some (.io, [], bc)
    else
      let (err, data) ← bcVerify bc e
      some (err, data, bc)

def bcGetHash (pos : Nat) : Option (BcErr × Option BcHash) := do
  let (err, e) ← bcMapGet bc.idx pos
  if err ≠ .ok then some (err, none) else some (.ok, some e.hash)

def bcArch (pos : Nat) : Option (BcErr × List UInt8 × Bc) :=
  if bc.arch.size = 0 then none
  else do
    let (err, e) ← bcMapGet bc.arch pos
    if err ≠ .ok then some (err, [], bc)
    else
      let (err, bc) ← bcAlloc bc e.jrnl
      if err ≠ .ok then some (err, [], bc)
      else
        let (err, data) ← bcVerify bc e
        some (err, data, bc)

end

/-- The scan of `bc_arch_find`, over the first `k` entries from the last one down. -/
def archFindLoop (m : BcMap BcIdx) (hash : BcHash) : Nat → Option (Option (Nat × BcIdx))
  | 0 => some none
  | i + 1 => do
      let e ← m.read? i
      if e.size = 0 then archFindLoop m hash i
      else if e.hash = hash then some (some (i, e))
      else archFindLoop m hash i

def bcArchFind (bc : Bc) (hash : BcHash) : Option (BcErr × Option (Nat × BcIdx)) :=
  if bc.arch.size = 0 then none
  else do
    match ← archFindLoop bc.arch hash bc.arch.total with
    | some found => some (.ok, some found)
    | none => some (.noent, none)

/-! ## `bc_purge` -/

/-- The clearing loop of `_bc_purge`, on an unsigned `t_pos`, for at most `fuel` rounds. The result
    of `bc_clear` is ignored; an entry that is still there gets its slot reset. -/
def purgeDown (bc : Bc) (pos tPos : UInt32) : Nat → Option Bc
  | 0 => none
  | fuel + 1 =>
      if tPos < pos then some bc
      else do
        let (_, bc) ← bcClear bc tPos.toNat
        let (err, e) ← bcMapGet bc.idx tPos.toNat
        purgeDown (if err = .ok then { bc with tab := bcTableReset bc.tab e.hash } else bc) pos
          (tPos - 1) fuel

/-- `_bc_purge`. A round for each position and one more are all the rounds of a loop that ends. -/
def bcPurge (bc : Bc) (pos : UInt32) : Option (BcErr × Bc) := do
  let (err, e) ← bcMapGet bc.idx pos.toNat
  if err ≠ .ok then some (err, bc)
  else
    let (err, bc) ← bcAlloc bc e.jrnl
    if err ≠ .ok then some (err, bc)
    else
      let (err, _) ← bcVerify bc e
      if err ≠ .ok then some (err, bc)
      else
        let maxRec ← bcIdxNext bc
        if maxRec = 0 then some (.ok, bc)
        else
          let bc ← purgeDown bc pos (.ofNat (maxRec - 1)) (maxRec + 1)
          some (.ok, bc)

/-! ## Calls and runs -/

/-- A call on the store; `pos` is a `bcsize_t`. -/
inductive BcOp where
  | append (hash : BcHash) (data : BcBuf)
  | write (pos : UInt32) (hash : BcHash) (data : BcBuf)
  | rewrite (pos : UInt32) (hash : BcHash) (data : BcBuf)
  | clear (pos : UInt32)
  | idxClear (pos : UInt32)
  | archWrite (hash : BcHash) (data : BcBuf)
  | tableReset (hash : BcHash)
  | tableClear
  | purge (pos : UInt32)
  | find (hash : BcHash)

def Bc.step (bc : Bc) : BcOp → Option (BcErr × Bc)
  | .append hash data => bcAppend bc hash data
  | .write pos hash data => bcWrite bc pos.toNat hash data
  | .rewrite pos hash data => bcRewrite bc pos.toNat hash data
  | .clear pos => bcClear bc pos.toNat
  | .idxClear pos => bcIdxClear bc pos.toNat
  | .archWrite hash data => bcArchWrite bc hash data
  | .tableReset hash => some (.ok, { bc with tab := bcTableReset bc.tab hash })
  | .tableClear => some (.ok, { bc with tab := fun _ => 0 })
  | .purge pos => bcPurge bc pos
  | .find hash => (bcIdxFind bc hash).map fun (err, _, bc) => (err, bc)

/-- The state after a sequence of calls that all come back. -/
def Bc.run (bc : Bc) (ops : List BcOp) : Option Bc :=
  exec (fun bc op => (bc.step op).map Prod.snd) bc ops

end ShareCoin.Blockchain
