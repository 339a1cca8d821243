import ShareCoin.Proof.Blockchain.Entries

/-!
# What a growth of a file map is good for

`_bc_map_alloc` computes the new size of a file in a `bcsize_t`, so that a file of more than
3.9 gigabytes is truncated when it should grow. And it compares the request with what is *used* of
the file, while `_bc_idx_set` asks for what is missing to its *size*: an entry far behind the end of
the index is written outside the mapping, unless the index happens to be full.
-/

namespace ShareCoin.Blockchain

open Option

/-! ## The size after a growth -/

/-- What the caller of `_bc_map_alloc` relies on: no block of the file is lost, and the bytes that
    were asked for are mapped. -/
def KeepsAndHolds (stSize mapOf len size : Nat) : Prop :=
  stSize / bcMapBlockSize * bcMapBlockSize ≤ size ∧ bcHdrSize + mapOf + len ≤ size

/-- The sizes that a growth can be made at. The size it wants fits a `bcsize_t`; or the sum alone
    does not, and what is wanted for the rest of it does, and is enough. -/
def Growable (stSize mapOf len : Nat) : Prop :=
  growWanted stSize len < 2 ^ 32 ∨
    2 ^ 32 ≤ stSize + len ∧ growWanted (stSize + len - 2 ^ 32) 0 < 2 ^ 32 ∧
      bcHdrSize + mapOf + len ≤ growWanted (stSize + len - 2 ^ 32) 0

theorem growSize_eq_mod (stSize len : Nat) :
    growSize stSize len = growWanted ((stSize + len) % 2 ^ 32) 0 % 2 ^ 32 := by
  unfold growSize growWanted bcMapBlockSize
  generalize hx : (stSize + len) % 2 ^ 32 = x
  have hlt : x < 2 ^ 32 := by omega
  by_cases hy : x + x / 10 < 2 ^ 32
  · simp only [Nat.mod_eq_of_lt hy, Nat.add_zero]
  · have hmod : (x + x / 10) % 2 ^ 32 = x + x / 10 - 2 ^ 32 := by omega
    simp only [hmod, Nat.add_zero]
    omega

theorem growWanted_bounds (x : Nat) :
    11 * x < 10 * growWanted x 0 ∧ 10 * growWanted x 0 ≤ 11 * x + 163840 := by
  unfold growWanted bcMapBlockSize
  omega

/-- What is wanted, in terms of the sum as a `bcsize_t`: it is kept, or `2^32` less is. -/
theorem growSize_cases {stSize len x : Nat} (hx : (stSize + len) % 2 ^ 32 = x) :
    growWanted x 0 < 2 ^ 32 ∧ growSize stSize len = growWanted x 0 ∨
      2 ^ 32 ≤ growWanted x 0 ∧ growSize stSize len = growWanted x 0 - 2 ^ 32 := by
  have hbounds := growWanted_bounds x
  rw [growSize_eq_mod, hx]
  omega

/-- Where the tenth or the rounding wraps, the size is too small. -/
theorem growSize_holds_iff {stSize mapOf len : Nat} (hst : stSize < 2 ^ 32) (hlen : len < 2 ^ 32)
    (hof : bcHdrSize + mapOf ≤ stSize)
    (hgrows : stSize < bcMapBlockSize ∨ stSize ≤ bcHdrSize + mapOf + len)
    (hne : growSize stSize len ≠ 0) :
    bcHdrSize + mapOf + len ≤ growSize stSize len ↔ Growable stSize mapOf len := by
  unfold Growable bcMapBlockSize at *
  have hsame : growWanted stSize len = growWanted (stSize + len) 0 := rfl
  have hall := le_growWanted stSize len
  by_cases hsum : stSize + len < 2 ^ 32
  · have hbounds := growWanted_bounds (stSize + len)
    rcases growSize_cases (Nat.mod_eq_of_lt hsum) with hsize | hsize
    all_goals omega
  · have hbounds := growWanted_bounds (stSize + len - 2 ^ 32)
    have hmod : (stSize + len) % 2 ^ 32 = stSize + len - 2 ^ 32 := by omega
    rcases growSize_cases hmod with hsize | hsize
    all_goals omega

/-- What the sizes have to be like: a file that is too small is `Growable`, and in one that is large
    enough the whole blocks are. -/
def Allocatable (stSize mapOf len : Nat) : Prop :=
  if stSize < bcMapBlockSize ∨ stSize ≤ bcHdrSize + mapOf + len then Growable stSize mapOf len
  else bcHdrSize + mapOf + len ≤ stSize / bcMapBlockSize * bcMapBlockSize

theorem bcMapAllocSizes_keeps_iff {s s' : MapSizes} {mapOf len : Nat} (hlen : len < 2 ^ 32)
    (hadm : s.stSize / bcMapBlockSize * bcMapBlockSize < maxBcMapSize)
    (hof : bcHdrSize + mapOf ≤ s.stSize)
    (hmapped : ∀ n ∈ s.mapped, n = s.stSize / bcMapBlockSize * bcMapBlockSize ∧ 0 < n)
    (hok : bcMapAllocSizes s mapOf len = (.ok, s')) :
    (∃ size ∈ s'.mapped, KeepsAndHolds s.stSize mapOf len size) ↔
      Allocatable s.stSize mapOf len := by
  unfold Allocatable
  have hst : s.stSize < 2 ^ 32 := by
    unfold maxBcMapSize bcMapBlockSize at hadm
    omega
  have hdown := Nat.div_mul_le_self s.stSize bcMapBlockSize
  have hmod : s.stSize / bcMapBlockSize * bcMapBlockSize % 2 ^ 32 =
      s.stSize / bcMapBlockSize * bcMapBlockSize := Nat.mod_eq_of_lt (by omega)
  have hblock : s.stSize / bcMapBlockSize * bcMapBlockSize < bcMapBlockSize ↔
      s.stSize < bcMapBlockSize := by
    unfold bcMapBlockSize
    omega
  unfold bcMapAllocSizes at hok
  simp only [hmod, hblock] at hok
  rw [if_neg (by omega)] at hok
  split_ifs at hok with hearly hgrows hzero
  · cases hok
    obtain ⟨n, hn⟩ := isSome_iff_exists.mp hearly.1
    obtain ⟨rfl, hpos⟩ := hmapped n hn
    -- there is a mapping, so that the file has a block
    have hwhole : ¬ (s.stSize < bcMapBlockSize ∨ s.stSize ≤ bcHdrSize + mapOf + len) := by
      rintro (hsmall | hfull)
      · rw [Nat.div_eq_of_lt hsmall, Nat.zero_mul] at hpos
        omega
      · omega
    rw [if_neg hwhole, hn]
    simp [KeepsAndHolds]
  · cases hok
  · cases hok
    rw [if_pos hgrows, ← growSize_holds_iff hst hlen hof hgrows hzero]
    simp only [mem_def, some.injEq, exists_eq_left', KeepsAndHolds, and_iff_right_iff_imp]
    intro hholds
    rcases hgrows with hsmall | hfull
    · rw [Nat.div_eq_of_lt hsmall]
      omega
    · omega
  · cases hok
    rw [if_neg hgrows]
    simp [KeepsAndHolds]

theorem bcMapAlloc_of_full {α : Type} [Cell α] {m : BcMap α} {len : Nat}
    (h : m.size ≤ bcHdrSize + m.of + len) :
    bcMapAlloc m len = (if growSize m.size len = 0 then .nomem else .ok, m.grow len) := by
  rw [bcMapAlloc, if_neg (not_maxBcMapSize_le _), if_neg (by omega)]
  split_ifs <;> rfl

/-- The two models of `_bc_map_alloc` agree where a file is whole blocks, all of them mapped. -/
theorem bcMapAllocSizes_eq {α : Type} [Cell α] {m m' : BcMap α} {len : Nat}
    (hok : bcMapAlloc m len = (.ok, m')) :
    bcMapAllocSizes ⟨m.size, some m.size⟩ m.of len = (.ok, ⟨m'.size, some m'.size⟩) := by
  have hadm := not_maxBcMapSize_le m.size
  rw [bcMapAllocSizes]
  rw [if_neg hadm]
  by_cases hfit : bcHdrSize + m.of + len < m.size
  · rw [bcMapAlloc_of_fits hfit] at hok
    cases hok
    rw [if_pos ⟨rfl, hfit⟩]
  · rw [bcMapAlloc_of_full (Nat.not_lt.mp hfit)] at hok
    rw [if_neg (fun h => hfit h.2), if_pos (.inr (Nat.not_lt.mp hfit))]
    by_cases hzero : growSize m.size len = 0
    · simp [hzero] at hok
    · rw [if_neg hzero] at hok ⊢
      cases hok
      rfl

/-- **A growth keeps the file** exactly if the sizes are `Allocatable`: for a file of any length,
    with or without a mapping, and so for a map of the store. -/
theorem bcMapAlloc_keeps_iff {len : Nat} (hlen : len < 2 ^ 32) :
    (∀ s s' mapOf, s.stSize / bcMapBlockSize * bcMapBlockSize < maxBcMapSize →
      bcHdrSize + mapOf ≤ s.stSize →
      (∀ n ∈ s.mapped, n = s.stSize / bcMapBlockSize * bcMapBlockSize ∧ 0 < n) →
      bcMapAllocSizes s mapOf len = (.ok, s') →
      ((∃ size ∈ s'.mapped, KeepsAndHolds s.stSize mapOf len size) ↔
        Allocatable s.stSize mapOf len)) ∧
    ∀ m m' : BcMap BcIdx, m.Wf → m.size % bcMapBlockSize = 0 → bcMapAlloc m len = (.ok, m') →
      (KeepsAndHolds m.size m.of len m'.size ↔ Allocatable m.size m.of len) := by
  refine ⟨fun s s' mapOf hadm hof hmapped hok => ?_, fun m m' hm hblocks hok => ?_⟩
  · exact bcMapAllocSizes_keeps_iff hlen hadm hof hmapped hok
  · have hwhole : m.size / bcMapBlockSize * bcMapBlockSize = m.size :=
      Nat.div_mul_cancel (Nat.dvd_of_mod_eq_zero hblocks)
    have hsize := hm.size_lt
    have hne := hm.size_ne
    have hadm : m.size / bcMapBlockSize * bcMapBlockSize < maxBcMapSize := by
      unfold maxBcMapSize bcMapBlockSize at *
      omega
    have hmapped : ∀ n ∈ some m.size, n = m.size / bcMapBlockSize * bcMapBlockSize ∧ 0 < n := by
      rintro n ⟨⟩
      exact ⟨hwhole.symm, Nat.pos_of_ne_zero hne⟩
    have hiff := bcMapAllocSizes_keeps_iff (s := ⟨m.size, some m.size⟩) hlen hadm hm.of_le hmapped
      (bcMapAllocSizes_eq hok)
    simpa using hiff

theorem bcMapAllocSizes_keeps_fresh : ∃ size ∈ some 32768, KeepsAndHolds 16384 16000 500 size := by
  have hok : bcMapAllocSizes ⟨16384, some 16384⟩ 16000 500 = (.ok, ⟨32768, some 32768⟩) := rfl
  have hlen : 500 < 2 ^ 32 := by decide
  refine ((bcMapAlloc_keeps_iff hlen).1 ⟨16384, some 16384⟩ _ 16000 (by decide) (by decide)
    (by simp [bcMapBlockSize]) hok).mpr ?_
  rw [Allocatable, if_pos (.inr (by decide))]
  exact .inl (by decide)

/-- **A file of 3.9 gigabytes shrinks to one block** when one byte more is asked for. -/
theorem grown_file_truncated :
    bcMapAllocSizes ⟨3904520192, some 3904520192⟩ 3904520176 1 = (.ok, ⟨16384, some 16384⟩) ∧
      ¬ KeepsAndHolds 3904520192 3904520176 1 16384 := by
  refine ⟨rfl, ?_⟩
  unfold KeepsAndHolds bcMapBlockSize
  omega

/-! ## Where an entry is written -/

/-- How much a write at a position may enlarge the map: by what is missing to its size, where
    `_bc_map_alloc` sees that this is not free, or else by one entry. -/
def growBy (m : BcMap BcIdx) (pos : Nat) : Nat :=
  if m.size < (pos + 1) * 64 ∧ m.size ≤ bcHdrSize + m.of + ((pos + 1) * 64 - m.size) then
    (pos + 1) * 64 - m.size
  else 64

/-- Whether a call that writes an entry comes back, and has written it inside the map. -/
def Inside (pos : Nat) (result : Option (BcErr × BcMap BcIdx)) : Prop :=
  ∃ err m', result = some (err, m') ∧ (err = .ok → bcHdrSize + pos * 64 + 64 ≤ m'.size)

theorem inside_refused {pos : Nat} {err : BcErr} {m : BcMap BcIdx} (h : err ≠ .ok) :
    Inside pos (some (err, m)) := ⟨err, m, rfl, fun hok => absurd hok h⟩

theorem growWanted_margin (stSize len : Nat) : stSize + len + 80 ≤ growWanted stSize len := by
  unfold growWanted bcMapBlockSize
  by_cases h : stSize + len < 800
  · omega
  · omega

theorem bcMapWrite_inside_iff {m : BcMap BcIdx} {pos : Nat} {e : BcIdx} :
    Inside pos (bcMapWrite m (pos * 64) [e]) ↔
      if m.size ≤ bcHdrSize + m.of + 64 then
        growSize m.size 64 = 0 ∨ bcHdrSize + (pos + 1) * 64 ≤ growSize m.size 64
      else bcHdrSize + (pos + 1) * 64 ≤ m.size := by
  have hwrite : ∀ m₁, bcMapAlloc m 64 = (.ok, m₁) →
      (Inside pos (bcMapWrite m (pos * 64) [e]) ↔ bcHdrSize + (pos + 1) * 64 ≤ m₁.size) := by
    intro m₁ hal
    rw [bcMapWrite, List.length_singleton, width_bcIdx, Nat.one_mul, hal, Nat.add_one_mul,
      ← Nat.add_assoc]
    dsimp only
    split_ifs with hin
    · exact iff_of_true ⟨_, _, rfl, fun _ => hin⟩ hin
    · exact iff_of_false (by simp [Inside]) hin
  split_ifs with hfull
  · have hal := bcMapAlloc_of_full hfull
    by_cases hzero : growSize m.size 64 = 0
    · rw [if_pos hzero] at hal
      rw [bcMapWrite, List.length_singleton, width_bcIdx, Nat.one_mul, hal]
      exact iff_of_true (inside_refused (by simp)) (.inl hzero)
    · rw [if_neg hzero] at hal
      rw [hwrite _ hal, or_iff_right hzero]
      rfl
  · exact hwrite m (bcMapAlloc_of_fits (by omega))

/-- A growth by one entry holds whatever lies less than an entry behind the end, unless it wraps. -/
theorem growSize_entry_iff {stSize last : Nat} (hst : stSize < 2 ^ 32)
    (hlast : last < stSize + 64) :
    growSize stSize 64 = 0 ∨ bcHdrSize + last ≤ growSize stSize 64 ↔
      growWanted stSize 64 ≤ 2 ^ 32 ∨ bcHdrSize + last ≤ growSize stSize 64 := by
  have hmargin := growWanted_margin stSize 64
  have hsame : growWanted stSize 64 = growWanted (stSize + 64) 0 := rfl
  unfold bcHdrSize
  by_cases hsum : stSize + 64 < 2 ^ 32
  · rcases growSize_cases (Nat.mod_eq_of_lt hsum) with hsize | hsize
    all_goals omega
  · have hbounds := growWanted_bounds (stSize + 64 - 2 ^ 32)
    have hmod : (stSize + 64) % 2 ^ 32 = stSize + 64 - 2 ^ 32 := by omega
    rcases growSize_cases hmod with hsize | hsize
    all_goals omega

/-- A growth that wraps leaves a map without room for an entry so far behind, and so does the one
    that the write makes after it. -/
theorem wrapped_growth_outside {m : BcMap BcIdx} {pos : Nat} {e : BcIdx}
    (hpos : (pos + 1) * 64 < 2 ^ 32) (hwrap : 2 ^ 32 ≤ growWanted ((pos + 1) * 64) 0)
    (hsize : m.size = growWanted ((pos + 1) * 64) 0 - 2 ^ 32) :
    ¬ Inside pos (bcMapWrite m (pos * 64) [e]) := by
  have hwant := growWanted_bounds ((pos + 1) * 64)
  have hsum : m.size + 64 < 2 ^ 32 := by omega
  have hbounds := growWanted_bounds (m.size + 64)
  have hnext := growSize_cases (Nat.mod_eq_of_lt hsum)
  rw [bcMapWrite_inside_iff]
  unfold bcHdrSize
  split_ifs
  · omega
  · omega

/-- An entry behind the end of a map that grows for it. -/
theorem grown_entry_inside_iff {m : BcMap BcIdx} {pos len : Nat} {e : BcIdx} (hm : m.Wf)
    (hpos : (pos + 1) * 64 < 2 ^ 32) (hlen : m.size + len = (pos + 1) * 64)
    (hfull : m.size ≤ bcHdrSize + m.of + len) :
    Inside pos (match bcMapAlloc m len with
      | (err, m₁) => if err ≠ .ok then some (err, m₁) else bcMapWrite m₁ (pos * 64) [e]) ↔
      growWanted m.size len ≤ 2 ^ 32 ∨ bcHdrSize + (pos + 1) * 64 ≤ growSize m.size len := by
  have hof := hm.of_le
  have hwant : growWanted m.size len = growWanted ((pos + 1) * 64) 0 := by
    rw [growWanted, hlen]
    rfl
  have hmargin := growWanted_margin ((pos + 1) * 64) 0
  have hbounds := growWanted_bounds ((pos + 1) * 64)
  have hmod : (m.size + len) % 2 ^ 32 = (pos + 1) * 64 := by
    rw [hlen]
    exact Nat.mod_eq_of_lt hpos
  obtain ⟨hfits, hnew⟩ | ⟨hwrap, hnew⟩ := growSize_cases hmod
  · -- the growth makes room for the entry, and more
    rw [bcMapAlloc_of_grows hfull (by omega)]
    dsimp only
    rw [if_neg (by simp), bcMapWrite_inside_iff,
      if_neg (by unfold bcHdrSize at *; dsimp only; omega)]
    exact iff_of_true (by unfold bcHdrSize; dsimp only; omega) (.inl (by omega))
  · rw [bcMapAlloc_of_full hfull]
    dsimp only
    by_cases hzero : growSize m.size len = 0
    · rw [if_pos hzero, if_pos (by simp)]
      exact iff_of_true (inside_refused (by simp)) (.inl (by omega))
    · rw [if_neg hzero, if_neg (by simp)]
      have hsize : (m.grow len).size = growWanted ((pos + 1) * 64) 0 - 2 ^ 32 := hnew
      refine iff_of_false (wrapped_growth_outside hpos hwrap hsize) ?_
      omega

/-- **Where an entry is inside the map**: at a free position of a map that has lost nothing, the
    entry of `_bc_idx_set` and of `_bc_arch_set` is written inside the mapping exactly if there is
    room for it and the map does not grow, or the map grows and the size does not wrap. (One that
    wraps to zero is refused; one that wraps may still hold a free position near the front.) The
    map does not grow while the bytes in use leave as much free as is missing. -/
theorem bcMapSet_inside_iff {m : BcMap BcIdx} {pos : Nat} {e : BcIdx} (hm : m.Wf)
    (hpos : (pos + 1) * 64 + bcHdrSize < 2 ^ 32)
    (hfree : bcMapGet m pos = some (.noent, BcIdx.blank)) :
    Inside pos (bcMapSet m pos e) ↔
      if m.size ≤ bcHdrSize + m.of + growBy m pos then
        growWanted m.size (growBy m pos) ≤ 2 ^ 32 ∨
          bcHdrSize + (pos + 1) * 64 ≤ growSize m.size (growBy m pos)
      else bcHdrSize + (pos + 1) * 64 ≤ m.size := by
  have hof := hm.of_le
  have hsize := hm.size_lt
  have hmod : pos * 64 % 2 ^ 32 = pos * 64 := Nat.mod_eq_of_lt (by omega)
  -- what is left once the first growth has returned
  have hset : bcMapSet m pos e = match (if m.total ≤ pos ∧ m.size < pos * 64 + 64 then
      bcMapAlloc m ((pos * 64 + 64 - m.size) % 2 ^ 32) else (.ok, m)) with
      | (err, m₁) => if err ≠ .ok then some (err, m₁) else bcMapWrite m₁ (pos * 64) [e] := by
    simp only [bcMapSet, hfree, bind_eq_bind, bind_some, hmod]
    rfl
  by_cases hbehind : m.size < (pos + 1) * 64
  swap
  · have hby : growBy m pos = 64 := if_neg (fun h => hbehind h.1)
    rw [if_neg (fun h => hbehind (by omega))] at hset
    dsimp only at hset
    rw [if_neg (by simp)] at hset
    rw [hset, hby, bcMapWrite_inside_iff, growSize_entry_iff hsize (by omega)]
  have htotal : m.total ≤ pos := by
    unfold BcMap.total bcHdrSize at *
    omega
  have hlen : (pos * 64 + 64 - m.size) % 2 ^ 32 = (pos + 1) * 64 - m.size := by omega
  rw [if_pos ⟨htotal, by omega⟩, hlen] at hset
  by_cases hseen : m.size ≤ bcHdrSize + m.of + ((pos + 1) * 64 - m.size)
  swap
  · -- the map seems large enough
    have hby : growBy m pos = 64 := if_neg (fun h => hseen h.2)
    rw [bcMapAlloc_of_fits (Nat.not_le.mp hseen)] at hset
    dsimp only at hset
    rw [if_neg (by simp)] at hset
    rw [hset, hby, bcMapWrite_inside_iff]
    split_ifs with hfull
    · exact growSize_entry_iff hsize (by omega)
    · rfl
  have hby : growBy m pos = (pos + 1) * 64 - m.size := if_pos ⟨hbehind, hseen⟩
  rw [hset, hby, if_pos hseen]
  exact grown_entry_inside_iff hm (by omega) (by omega) hseen

theorem bcMapSet_inside_fresh :
    Inside 7 (bcMapSet BcMap.fresh 7 BcIdx.blank) := by
  have hfree : bcMapGet BcMap.fresh 7 = some (.noent, BcIdx.blank) := by
    simp [bcMapGet, BcMap.fresh, BcMap.total, bcMapBlockSize]
  refine (bcMapSet_inside_iff BcMap.fresh_wf ?_ hfree).mpr ?_
  · simp [bcHdrSize]
  · simp [growBy, BcMap.fresh, bcHdrSize, bcMapBlockSize]

/-- **An entry behind an empty index is written outside the map**: position 300 of a new file, of
    which one block is mapped. -/
theorem far_entry_outside :
    (BcMap.fresh : BcMap BcIdx).Wf ∧ bcMapSet BcMap.fresh 300 BcIdx.blank = none :=
  ⟨BcMap.fresh_wf, isNone_iff_eq_none.mp rfl⟩

end ShareCoin.Blockchain
