import ShareCoin.Blockchain.Block

/-!
# What the calls on one entry can do

The index and the archive are read with `bcMapGet` and written with `bcMapSet` or one
`_bc_map_write` of a single entry. Their outcomes are listed here once; the lookups and the
records are both argued from these lists.

A call on the store is a sequence of such changes, with early returns in between. `Moves` says so
once for each call, and what every change keeps is then kept by every call.
-/

namespace ShareCoin.Blockchain

open Option

/-! ## Reading an entry -/

variable {m m' : BcMap BcIdx} {pos : Nat}

theorem BcMap.Wf.read? (hm : m.Wf) {i : Nat} (hi : i < m.total) : m.read? i = some (m.raw i) := by
  have h1 := hm.of_le
  unfold BcMap.total at hi
  rw [BcMap.read?, if_pos (by rw [width_bcIdx]; omega)]

theorem entryAt_of_lt_total (hm : m.Wf) (h : pos < m.total) : entryAt pos = pos := by
  have h1 := hm.of_le
  have h2 := hm.size_lt
  unfold BcMap.total at h
  unfold entryAt
  omega

variable {err : BcErr} {e : BcIdx}

theorem bcMapGet_cases (h : bcMapGet m pos = some (err, e)) :
    err = .ok ∧ pos < m.total ∧ e = m.raw pos ∧ e.size ≠ 0 ∧ bcHdrSize + (pos + 1) * 64 ≤ m.size ∨
      err = .noent ∧ e = BcIdx.blank ∧ (m.total ≤ pos ∨ (m.raw pos).size = 0) := by
  unfold bcMapGet at h
  split_ifs at h with h0 h1
  · cases h
    exact .inr ⟨rfl, rfl, .inl h1⟩
  · simp only [BcMap.read?, width_bcIdx] at h
    split_ifs at h with h2
    · simp only [bind_eq_bind, bind_some] at h
      split_ifs at h with h3
      · cases h
        exact .inr ⟨rfl, rfl, .inr h3⟩
      · cases h
        exact .inl ⟨rfl, by omega, rfl, h3, h2⟩
    · simp at h

/-! ## Writing an entry -/

/-- `e` has been written at position `j` of a map that did not wrap. -/
structure BcMap.Put (m : BcMap BcIdx) (j : Nat) (e : BcIdx) (m' : BcMap BcIdx) : Prop where
  raw_eq : m'.raw = Function.update m.raw j e
  total_eq : m'.total = max m.total (j + 1)
  wf : m'.Wf

theorem BcMap.Wrote.put (h : m.Wrote (pos * 64 % 2 ^ 32) [e] m') : m.Put (entryAt pos) e m' where
  raw_eq := by
    rw [h.raw_eq]
    funext i
    simp only [BcMap.store, entryAt, width_bcIdx, List.length_singleton]
    by_cases hi : i = pos * 64 % 2 ^ 32 / 64
    · subst hi
      simp
    · rw [Function.update_of_ne hi, if_neg (by omega)]
  total_eq := by
    have hof := h.of_eq
    simp only [width_bcIdx, List.length_singleton] at hof
    unfold BcMap.total entryAt
    omega
  wf := h.wf

/-- The three outcomes of `bcMapSet`: the position is taken, a growth failed, or the entry was
    written, into the map or into its enlargement. -/
theorem bcMapSet_cases (h : bcMapSet m pos e = some (err, m')) :
    err = .exist ∧ m' = m ∧ (m.raw pos).size ≠ 0 ∧ pos < m.total ∨
      (∃ len, (bcMapAlloc m len) = (err, m') ∧ err ≠ .ok) ∨
      (∃ m₁, (m₁ = m ∨ ∃ len, m₁ = (bcMapAlloc m len).2) ∧
        (m.total ≤ pos ∨ (m.raw pos).size = 0) ∧
        bcMapWrite m₁ (pos * 64 % 2 ^ 32) [e] = some (err, m')) := by
  unfold bcMapSet at h
  simp only [bind_eq_bind, bind_eq_some_iff] at h
  obtain ⟨⟨err₀, e₀⟩, hget, h⟩ := h
  rcases bcMapGet_cases hget with ⟨rfl, hlt, rfl, hsz, -⟩ | ⟨rfl, -, hfree⟩
  · cases h
    exact .inl ⟨rfl, rfl, hsz, hlt⟩
  · rw [if_neg (by simp)] at h
    by_cases hgrow : m.total ≤ pos ∧ m.size < pos * 64 % 2 ^ 32 + 64
    · split_ifs at h with hok
      · cases h
        exact .inr (.inl ⟨_, rfl, hok⟩)
      · exact .inr (.inr ⟨_, .inr ⟨_, rfl⟩, hfree, h⟩)
    · rw [if_neg hgrow, if_neg (by simp)] at h
      exact .inr (.inr ⟨m, .inl rfl, hfree, h⟩)

theorem bcMapSet_wrapped (h : bcMapSet m pos e = some (err, m')) (hw : m'.wrapped = false) :
    m.wrapped = false := by
  rcases bcMapSet_cases h with ⟨-, rfl, -, -⟩ | ⟨len, hal, -⟩ | ⟨m₁, hm₁, -, hwr⟩
  · exact hw
  · have hw₁ : (bcMapAlloc m len).2.wrapped = false := by rw [hal]; exact hw
    exact bcMapAlloc_wrapped hw₁
  · have hw₁ := bcMapAlloc_wrapped (bcMapWrite_wrapped hwr hw)
    rcases hm₁ with rfl | ⟨len, rfl⟩
    · exact hw₁
    · exact bcMapAlloc_wrapped hw₁

theorem bcMapSet_spec (hm : m.Wf) (h : bcMapSet m pos e = some (err, m'))
    (hw : m'.wrapped = false) :
    err = .exist ∧ m' = m ∧ (m.raw pos).size ≠ 0 ∧ pos < m.total ∨
      err = .ok ∧ (m.total ≤ pos ∨ (m.raw pos).size = 0) ∧ m.Put (entryAt pos) e m' := by
  rcases bcMapSet_cases h with hex | ⟨len, hal, hne⟩ | ⟨m₁, hm₁, hfree, hwr⟩
  · exact .inl hex
  · have hw₁ : (bcMapAlloc m len).2.wrapped = false := by rw [hal]; exact hw
    have hok := (bcMapAlloc_spec hm hw₁).1
    rw [hal] at hok
    exact absurd hok hne
  · right
    rcases hm₁ with rfl | ⟨len, rfl⟩
    · obtain ⟨herr, -, hwrote⟩ := bcMapWrite_spec hm hwr hw
      exact ⟨herr, hfree, hwrote.put⟩
    · -- the enlargement keeps entries and end, so the entry is put into the old map
      obtain ⟨-, hraw, hof, -, -, hwf⟩ :=
        bcMapAlloc_spec hm (bcMapAlloc_wrapped (bcMapWrite_wrapped hwr hw))
      obtain ⟨herr, -, hwrote⟩ := bcMapWrite_spec hwf hwr hw
      have hput := hwrote.put
      refine ⟨herr, hfree, ⟨?_, ?_, hput.wf⟩⟩
      · rw [hput.raw_eq, hraw]
      · rw [hput.total_eq, BcMap.total, hof, BcMap.total]

/-! ## What a call leaves alone -/

theorem bcArchAdd_frame {bc bc' : Bc} (h : bcArchAdd bc e = some (err, bc')) :
    bc'.idx = bc.idx ∧ bc'.tab = bc.tab ∧ bc'.jrnl = bc.jrnl := by
  unfold bcArchAdd at h
  split_ifs at h
  obtain ⟨⟨err₀, m⟩, -, h⟩ := bind_eq_some_iff.mp h
  cases h
  exact ⟨rfl, rfl, rfl⟩

theorem bcIdxFind_frame {bc bc' : Bc} {hash : BcHash} {pos : Option Nat}
    (h : bcIdxFind bc hash = some (err, pos, bc')) :
    bc'.idx = bc.idx ∧ bc'.arch = bc.arch ∧ bc'.jrnl = bc.jrnl := by
  unfold bcIdxFind at h
  dsimp only at h
  split_ifs at h
  · cases h
    exact ⟨rfl, rfl, rfl⟩
  all_goals
    obtain ⟨⟨found, high⟩, -, h⟩ := bind_eq_some_iff.mp h
    cases found <;> cases h <;> exact ⟨rfl, rfl, rfl⟩

/-! ## Calls as changes -/

theorem bcMapAppend_wrapped {m m' : BcMap UInt8} {bytes : List UInt8}
    (h : bcMapAppend m bytes = some (err, m')) (hw : m'.wrapped = false) : m.wrapped = false := by
  have hal : (bcMapAlloc m (bytes.length * Cell.width UInt8)).2.wrapped = false := by
    unfold bcMapAppend at h
    split at h
    · next m₁ heq =>
      rw [heq]
      exact bcMapAlloc_wrapped (bcMapWrite_wrapped h hw)
    · next err₁ m₁ _ heq =>
      cases h
      rw [heq]
      exact hw
  exact bcMapAlloc_wrapped hal

/-- One change that a call makes to the store. -/
inductive Move : Bc → Bc → Prop
  | jrnl {bc : Bc} {j : Nat} {m : BcMap UInt8}
      (h : m.wrapped = false → (bc.jrnl j).wrapped = false) : Move bc (bc.setJrnl j m)
  | idxSet {bc bc' : Bc} {pos : Nat} {e : BcIdx} {err : BcErr}
      (h : bcIdxSet bc pos e = some (err, bc')) : Move bc bc'
  | idxReset {bc bc' : Bc} {pos : Nat} {e : BcIdx} {err : BcErr}
      (h : bcIdxReset bc pos e = some (err, bc')) (hhash : e.hash = (bc.idx.raw pos).hash) :
      Move bc bc'
  | idxClear {bc bc' : Bc} {pos : Nat} {err : BcErr} (h : bcIdxClear bc pos = some (err, bc')) :
      Move bc bc'
  | archAdd {bc bc' : Bc} {e : BcIdx} {err : BcErr} (h : bcArchAdd bc e = some (err, bc')) :
      Move bc bc'
  | tab {bc : Bc} {tab : Nat → Nat} (h : ∀ b, tab b = bcTableSearchPos ∨ tab b = bc.tab b) :
      Move bc { bc with tab := tab }
  | find {bc bc' : Bc} {hash : BcHash} {err : BcErr} {pos : Option Nat}
      (h : bcIdxFind bc hash = some (err, pos, bc')) : Move bc bc'

/-- Any number of changes. -/
abbrev Moves : Bc → Bc → Prop := Relation.ReflTransGen Move

theorem Move.reset (bc : Bc) (hash : BcHash) :
    Move bc { bc with tab := bcTableReset bc.tab hash } := by
  refine .tab fun b => ?_
  unfold bcTableReset setSlot
  split_ifs
  · exact .inl rfl
  · exact .inr rfl

variable {bc bc' : Bc} {hash : BcHash} {data : BcBuf}

theorem bcAlloc_move {j : Nat} (h : bcAlloc bc j = some (err, bc')) : Move bc bc' := by
  unfold bcAlloc at h
  split_ifs at h
  cases h
  exact .jrnl bcMapAlloc_wrapped

/-- A failed call ends the function. -/
theorem moves_of_guard {err' : BcErr} {k : Option (BcErr × Bc)}
    (h : (if err ≠ .ok then some (err, bc) else k) = some (err', bc'))
    (hk : k = some (err', bc') → Moves bc bc') : Moves bc bc' := by
  split_ifs at h
  · cases h
    exact .refl
  · exact hk h

/-- The end of `_bc_rewrite` and `_bc_write`: a failed journal write takes the entry back. -/
theorem journalTail_moves {m : BcMap UInt8} {j : Nat} {err' : BcErr}
    (h : (if err ≠ .ok then do
        let (_, bc) ← bcIdxClear (bc.setJrnl j m) pos
        some (err, { bc with tab := bcTableReset bc.tab hash })
      else some (.ok, bc.setJrnl j m)) = some (err', bc')) : Moves (bc.setJrnl j m) bc' := by
  split_ifs at h
  · obtain ⟨⟨err₁, bc₁⟩, hclear, h⟩ := bind_eq_some_iff.mp h
    cases h
    exact .tail (.single (.idxClear hclear)) (.reset _ _)
  · cases h
    exact .refl

theorem bcRewrite_moves (h : bcRewrite bc pos hash data = some (err, bc')) : Moves bc bc' := by
  unfold bcRewrite at h
  obtain ⟨⟨err₁, bc₁⟩, hal, h⟩ := bind_eq_some_iff.mp h
  refine .head (bcAlloc_move hal) (moves_of_guard h fun h => ?_)
  obtain ⟨⟨err₂, e⟩, hget, h⟩ := bind_eq_some_iff.mp h
  dsimp only at h
  split_ifs at h with hne
  · cases h
    exact .refl
  · cases h
    exact .refl
  obtain ⟨⟨err₃, bc₃⟩, hreset, h⟩ := bind_eq_some_iff.mp h
  have he : e = bc₁.idx.raw pos := by
    rcases bcMapGet_cases hget with ⟨-, -, he, -⟩ | ⟨rfl, -⟩
    · exact he
    · exact absurd (by simp) hne
  refine .head (.idxReset hreset (by rw [he])) (moves_of_guard h fun h => ?_)
  obtain ⟨⟨err₄, m⟩, hwr, h⟩ := bind_eq_some_iff.mp h
  exact .head (.jrnl fun hm => bcMapAlloc_wrapped (bcMapWrite_wrapped hwr hm))
    (journalTail_moves h)

theorem bcWrite_moves (h : bcWrite bc pos hash data = some (err, bc')) : Moves bc bc' := by
  unfold bcWrite at h
  obtain ⟨⟨err₁, bc₁⟩, hal, h⟩ := bind_eq_some_iff.mp h
  refine .head (bcAlloc_move hal) (moves_of_guard h fun h => ?_)
  obtain ⟨⟨err₂, bc₂⟩, hset, h⟩ := bind_eq_some_iff.mp h
  refine .head (.idxSet hset) ?_
  dsimp only at h
  split_ifs at h
  · exact bcRewrite_moves h
  · cases h
    exact .refl
  obtain ⟨⟨err₃, m⟩, happ, h⟩ := bind_eq_some_iff.mp h
  exact .head (.jrnl (bcMapAppend_wrapped happ)) (journalTail_moves h)

theorem bcClear_moves (h : bcClear bc pos = some (err, bc')) : Moves bc bc' := by
  obtain ⟨⟨err₁, e⟩, -, h⟩ := bind_eq_some_iff.mp h
  refine moves_of_guard h fun h => ?_
  obtain ⟨⟨err₂, bc₂⟩, hadd, h⟩ := bind_eq_some_iff.mp h
  exact .head (.archAdd hadd) (moves_of_guard h fun h => .single (.idxClear h))

theorem bcArchWrite_moves (h : bcArchWrite bc hash data = some (err, bc')) : Moves bc bc' := by
  obtain ⟨next, -, h⟩ := bind_eq_some_iff.mp h
  obtain ⟨⟨err₁, bc₁⟩, hal, h⟩ := bind_eq_some_iff.mp h
  refine .head (bcAlloc_move hal) (moves_of_guard h fun h => ?_)
  obtain ⟨⟨err₂, m⟩, happ, h⟩ := bind_eq_some_iff.mp h
  exact .head (.jrnl (bcMapAppend_wrapped happ)) (moves_of_guard h fun h => .single (.archAdd h))

theorem purgeDown_moves {pos : UInt32} {fuel : Nat} : ∀ {bc : Bc} {tPos : UInt32},
    purgeDown bc pos tPos fuel = some bc' → Moves bc bc' := by
  induction fuel with
  | zero =>
    intro bc tPos h
    cases h
  | succ fuel ih =>
    intro bc tPos h
    rw [purgeDown] at h
    split_ifs at h
    · cases h
      exact .refl
    · obtain ⟨⟨err₁, bc₁⟩, hclear, h⟩ := bind_eq_some_iff.mp h
      obtain ⟨⟨err₂, e⟩, -, h⟩ := bind_eq_some_iff.mp h
      refine (bcClear_moves hclear).trans ?_
      dsimp only at h
      split_ifs at h
      · exact .head (.reset _ _) (ih h)
      · exact ih h

theorem bcPurge_moves {pos : UInt32} (h : bcPurge bc pos = some (err, bc')) : Moves bc bc' := by
  obtain ⟨⟨err₁, e⟩, -, h⟩ := bind_eq_some_iff.mp h
  refine moves_of_guard h fun h => ?_
  obtain ⟨⟨err₂, bc₂⟩, hal, h⟩ := bind_eq_some_iff.mp h
  refine .head (bcAlloc_move hal) (moves_of_guard h fun h => ?_)
  obtain ⟨⟨err₃, d⟩, -, h⟩ := bind_eq_some_iff.mp h
  refine moves_of_guard h fun h => ?_
  obtain ⟨maxRec, -, h⟩ := bind_eq_some_iff.mp h
  split_ifs at h
  · cases h
    exact .refl
  · obtain ⟨bc₄, hloop, h⟩ := bind_eq_some_iff.mp h
    cases h
    exact purgeDown_moves hloop

/-- **Every call is a sequence of changes.** -/
theorem step_moves {op : BcOp} (h : bc.step op = some (err, bc')) : Moves bc bc' := by
  cases op with
  | append hash data =>
    obtain ⟨next, -, h⟩ := bind_eq_some_iff.mp h
    exact bcWrite_moves h
  | write pos hash data => exact bcWrite_moves h
  | rewrite pos hash data => exact bcRewrite_moves h
  | clear pos => exact bcClear_moves h
  | idxClear pos => exact .single (.idxClear h)
  | archWrite hash data => exact bcArchWrite_moves h
  | tableReset hash =>
    cases h
    exact .single (.reset _ _)
  | tableClear =>
    cases h
    exact .single (.tab fun _ => .inl rfl)
  | purge pos => exact bcPurge_moves h
  | find hash =>
    obtain ⟨⟨err₁, found, bc₁⟩, hfind, heq⟩ := map_eq_some_iff.mp h
    cases heq
    exact .single (.find hfind)

/-! ## A sample record -/

/-- A hash and a record of one byte, for runs on fixed calls. -/
def hashSample : BcHash := #v[1, 2, 3, 4, 5, 6, 7, 8]

def bufSample : BcBuf := ⟨[7], by decide⟩

end ShareCoin.Blockchain
