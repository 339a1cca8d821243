import ShareCoin.Proof.Blockchain.Records

/-!
# The calls on records, and read-your-writes

Each call of the store, on a state that satisfies the record invariant, comes down to one of the
four transitions of `RecordInv`. The journals always have room behind their end, so `bc_alloc`
does nothing (`bcAlloc_eq`); what is left is a write to the index or to the archive and one to a
journal, and the error paths behind them are not taken as long as no map wraps.
-/

namespace ShareCoin.Blockchain

open Lib Option

variable {bc bc' : Bc} {r : Records} {pos j : Nat} {hash : BcHash} {e : BcIdx} {err err' : BcErr}
  {data : BcBuf} {m : BcMap BcIdx}

/-! ## Wrapping is for good -/

theorem Bc.Fits.of_setJrnl {m : BcMap UInt8} (h : (bc.setJrnl j m).Fits)
    (hm : m.wrapped = false → (bc.jrnl j).wrapped = false) : bc.Fits := by
  refine ⟨h.idx, h.arch, ?_⟩
  intro k
  have hk := h.jrnl k
  by_cases hkj : k = j
  · subst hkj
    exact hm (by simpa [Bc.setJrnl] using hk)
  · simpa [Bc.setJrnl, hkj] using hk

theorem Bc.Fits.setJrnl_self {m : BcMap UInt8} (h : (bc.setJrnl j m).Fits) : m.wrapped = false := by
  simpa [Bc.setJrnl] using h.jrnl j

theorem Move.fits (h : Move bc bc') (hf : bc'.Fits) : bc.Fits := by
  cases h with
  | jrnl hm => exact hf.of_setJrnl hm
  | idxSet h =>
    obtain ⟨⟨err₁, m⟩, hset, h⟩ := bind_eq_some_iff.mp h
    dsimp only at h
    split_ifs at h
    all_goals
      cases h
      exact ⟨bcMapSet_wrapped hset hf.idx, hf.arch, hf.jrnl⟩
  | idxReset h =>
    obtain ⟨⟨err₁, e₁⟩, -, h⟩ := bind_eq_some_iff.mp h
    dsimp only at h
    split_ifs at h
    · cases h
      exact hf
    · cases h
      exact hf
    · obtain ⟨⟨err₂, m⟩, hwr, h⟩ := bind_eq_some_iff.mp h
      cases h
      exact ⟨bcMapAlloc_wrapped (bcMapWrite_wrapped hwr hf.idx), hf.arch, hf.jrnl⟩
  | idxClear h =>
    unfold bcIdxClear at h
    dsimp only at h
    split_ifs at h
    · cases h
      exact hf
    · obtain ⟨⟨err₂, m⟩, hwr, h⟩ := bind_eq_some_iff.mp h
      cases h
      exact ⟨bcMapAlloc_wrapped (bcMapWrite_wrapped hwr hf.idx), hf.arch, hf.jrnl⟩
  | archAdd h =>
    unfold bcArchAdd at h
    split_ifs at h
    obtain ⟨⟨err₁, m⟩, hset, h⟩ := bind_eq_some_iff.mp h
    cases h
    exact ⟨hf.idx, bcMapSet_wrapped hset hf.arch, hf.jrnl⟩
  | tab => exact ⟨hf.idx, hf.arch, hf.jrnl⟩
  | find h =>
    obtain ⟨hi, ha, hj⟩ := bcIdxFind_frame h
    exact ⟨hi ▸ hf.idx, ha ▸ hf.arch, hj ▸ hf.jrnl⟩

theorem Moves.fits (h : Moves bc bc') (hf : bc'.Fits) : bc.Fits := by
  induction h with
  | refl => exact hf
  | tail _ hmove ih => exact ih (hmove.fits hf)

/-! ## The calls, without a wrap -/

theorem bcAlloc_eq (hj : j < 2 ^ 32 - 1)
    (hroom : bcHdrSize + (bc.jrnl j).of < (bc.jrnl j).size ∧ (bc.jrnl j).size < 2 ^ 32) :
    bcAlloc bc j = some (.ok, bc) := by
  have hself : bc.setJrnl j (bc.jrnl j) = bc := by
    unfold Bc.setJrnl
    congr
    funext k
    split_ifs with hk
    · rw [hk]
    · rfl
  rw [bcAlloc, if_neg (by omega), bcMapAlloc_of_fits hroom.1]
  dsimp only
  rw [hself]

theorem bcJournal_lt {pos : Nat} (h : pos < 2 ^ 26) : bcJournal pos < 2 ^ 32 - 1 := by
  have hb : ((pos : Int).bmod (2 ^ 32)) = pos := Int.bmod_eq_of_le (by omega) (by omega)
  unfold bcJournal bcBlocksPerJournal
  rw [hb, ← Int.ofNat_tdiv]
  omega

theorem entryAt_of_lt {pos : Nat} (h : pos < 2 ^ 26) : entryAt pos = pos := by
  unfold entryAt
  omega

theorem BcMap.Wf.total_lt (h : m.Wf) : m.total < 2 ^ 26 := by
  have h1 := h.of_le
  have h2 := h.size_lt
  unfold BcMap.total
  omega

theorem BcMap.liveEntry_eq_none (h : m.total ≤ pos ∨ (m.raw pos).size = 0) :
    m.liveEntry pos = none := by
  refine if_neg fun hc => ?_
  rcases h with hle | hsz
  · exact absurd hc.1 (by omega)
  · exact hc.2 hsz

theorem bcMapGet_entry (h : bcMapGet m pos = some (err, e)) :
    err = .ok ∧ m.liveEntry pos = some e ∨ err = .noent ∧ m.liveEntry pos = none := by
  rcases bcMapGet_cases h with ⟨rfl, hlt, rfl, hsz, -⟩ | ⟨rfl, -, hfree⟩
  · exact .inl ⟨rfl, BcMap.liveEntry_eq_some.mpr ⟨hlt, hsz, rfl⟩⟩
  · exact .inr ⟨rfl, BcMap.liveEntry_eq_none hfree⟩

theorem bcIdxSet_spec (hm : bc.idx.Wf) (h : bcIdxSet bc pos e = some (err, bc'))
    (hw : bc'.idx.wrapped = false) :
    bc'.arch = bc.arch ∧ bc'.jrnl = bc.jrnl ∧
      (err = .exist ∧ bc' = bc ∧ (∃ e₀, bc.idx.liveEntry pos = some e₀) ∨
        err = .ok ∧ bc.idx.liveEntry pos = none ∧ bc.idx.Put (entryAt pos) e bc'.idx) := by
  obtain ⟨⟨err₁, m⟩, hset, h⟩ := bind_eq_some_iff.mp h
  dsimp only at h
  have hm' : m.wrapped = false := by
    split_ifs at h <;> cases h <;> exact hw
  rcases bcMapSet_spec hm hset hm' with ⟨rfl, rfl, hsz, hlt⟩ | ⟨rfl, hfree, hput⟩
  · cases h
    exact ⟨rfl, rfl, .inl ⟨rfl, rfl, _, BcMap.liveEntry_eq_some.mpr ⟨hlt, hsz, rfl⟩⟩⟩
  · cases h
    exact ⟨rfl, rfl, .inr ⟨rfl, BcMap.liveEntry_eq_none hfree, hput⟩⟩

theorem bcIdxReset_spec {e₀ : BcIdx} (hm : bc.idx.Wf) (hget : bc.idx.liveEntry pos = some e₀)
    (h : bcIdxReset bc pos e = some (err, bc')) (hw : bc'.idx.wrapped = false) :
    err = .ok ∧ bc.idx.Put pos e bc'.idx ∧ bc'.arch = bc.arch ∧ bc'.jrnl = bc.jrnl ∧
      bc'.tab = bc.tab := by
  have hlt := (BcMap.liveEntry_eq_some.mp hget).1
  have hof := hm.of_le
  obtain ⟨⟨err₁, e₁⟩, hget₁, h⟩ := bind_eq_some_iff.mp h
  rcases bcMapGet_entry hget₁ with ⟨rfl, -⟩ | ⟨-, hnone⟩
  · -- the position lies inside the mapping, so the two range checks pass
    have hin : ¬ (bc.idx.total ≤ pos ∨ bc.idx.size < pos * 64 % 2 ^ 32 + 64) := by
      unfold BcMap.total at hlt ⊢
      omega
    dsimp only at h
    rw [if_neg (by simp), if_neg hin] at h
    obtain ⟨⟨err₂, m⟩, hwr, h⟩ := bind_eq_some_iff.mp h
    cases h
    obtain ⟨rfl, -, hwrote⟩ := bcMapWrite_spec hm hwr hw
    refine ⟨rfl, ?_, rfl, rfl, rfl⟩
    have hput := hwrote.put
    rwa [entryAt_of_lt_total hm hlt] at hput
  · rw [hget] at hnone
    exact absurd hnone (by simp)

theorem bcIdxClear_spec (hm : bc.idx.Wf) (hlt : pos < bc.idx.total)
    (h : bcIdxClear bc pos = some (err, bc')) (hw : bc'.idx.wrapped = false) :
    err = .ok ∧ bc.idx.Put pos BcIdx.blank bc'.idx ∧ bc'.arch = bc.arch ∧ bc'.jrnl = bc.jrnl := by
  unfold bcIdxClear at h
  dsimp only at h
  split_ifs at h with h0 h1
  · exact absurd h1.1 (by omega)
  · obtain ⟨⟨err₁, m⟩, hwr, h⟩ := bind_eq_some_iff.mp h
    cases h
    obtain ⟨rfl, -, hwrote⟩ := bcMapWrite_spec hm hwr hw
    have hput := hwrote.put
    rw [entryAt_of_lt_total hm hlt] at hput
    exact ⟨rfl, hput, rfl, rfl⟩

theorem bcArchAdd_spec (hm : bc.arch.Wf) (h : bcArchAdd bc e = some (err, bc'))
    (hw : bc'.arch.wrapped = false) :
    err = .ok ∧ bc.arch.Put bc.arch.total e bc'.arch ∧ bc'.idx = bc.idx ∧ bc'.jrnl = bc.jrnl := by
  unfold bcArchAdd at h
  split_ifs at h
  obtain ⟨⟨err₁, m⟩, hset, h⟩ := bind_eq_some_iff.mp h
  cases h
  rcases bcMapSet_spec hm hset hw with ⟨-, -, -, hlt⟩ | ⟨rfl, -, hput⟩
  · exact absurd hlt (by omega)
  · rw [entryAt_of_lt hm.total_lt] at hput
    exact ⟨rfl, hput, rfl, rfl⟩

theorem RecordInv.jrnl_wf (h : RecordInv bc r) (j : Nat) : (bc.jrnl j).Wf :=
  ⟨Nat.le_of_lt (h.jrnl_room j).1, (h.jrnl_room j).2⟩

theorem RecordInv.alloc_journal (h : RecordInv bc r)
    (hal : bcAlloc bc (bcJournal pos) = some (err, bc')) : (err, bc') = (.ok, bc) := by
  have hlt : bcJournal pos < 2 ^ 32 := by
    unfold bcJournal
    omega
  by_cases hlast : bcJournal pos = 2 ^ 32 - 1
  · rw [bcAlloc, if_pos hlast] at hal
    cases hal
  · rw [bcAlloc_eq (by omega) (h.jrnl_room _)] at hal
    exact (some.inj hal).symm

/-- `_bc_rewrite` writes over the bytes of a record that are enough, and keeps its hash; or it does
    nothing. -/
theorem bcRewrite_spec (h : RecordInv bc r) (hs : bcRewrite bc pos hash data = some (err, bc'))
    (hf : bc'.Fits) :
    err ≠ .ok ∧ bc' = bc ∧ (∀ e, bc.idx.liveEntry pos = some e → e.size < data.val.length) ∨
      err = .ok ∧ ∃ e m, bc.idx.liveEntry pos = some e ∧ data.val.length ≤ e.size ∧
        bc.idx.Put pos { e with size := data.val.length, crc := shcrc32 data.val } bc'.idx ∧
        bc'.arch = bc.arch ∧ bc'.jrnl = (bc.setJrnl (bcJournal pos) m).jrnl ∧
        (bc.jrnl (bcJournal pos)).Wrote e.of data.val m := by
  unfold bcRewrite at hs
  obtain ⟨⟨err₁, bc₁⟩, hal, hs⟩ := bind_eq_some_iff.mp hs
  cases h.alloc_journal hal
  obtain ⟨⟨err₂, e⟩, hget, hs⟩ := bind_eq_some_iff.mp hs
  dsimp only at hs
  rcases bcMapGet_entry hget with ⟨rfl, hent⟩ | ⟨rfl, hfree⟩
  · rw [if_neg (by simp)] at hs
    split_ifs at hs with hlen
    · -- data that is longer than the record is refused before anything is written
      cases hs
      refine .inl ⟨by simp, rfl, fun e' he' => ?_⟩
      rw [hent] at he'
      cases he'
      exact hlen
    obtain ⟨⟨err₃, bc₃⟩, hreset, hs⟩ := bind_eq_some_iff.mp hs
    by_cases hok : err₃ ≠ .ok
    · rw [if_pos hok] at hs
      cases hs
      exact absurd (bcIdxReset_spec h.idx_wf hent hreset hf.idx).1 hok
    rw [if_neg hok] at hs
    obtain ⟨⟨err₄, m⟩, hwr, hs⟩ := bind_eq_some_iff.mp hs
    have hfm := (journalTail_moves hs).fits hf
    have hf₃ : bc₃.Fits :=
      hfm.of_setJrnl fun hm => bcMapAlloc_wrapped (bcMapWrite_wrapped hwr hm)
    obtain ⟨-, hput, harch, hjrnl, -⟩ := bcIdxReset_spec h.idx_wf hent hreset hf₃.idx
    have hwf : (bc₃.jrnl (bcJournal pos)).Wf := by
      rw [hjrnl]
      exact h.jrnl_wf _
    obtain ⟨rfl, -, hwrote⟩ := bcMapWrite_spec hwf hwr hfm.setJrnl_self
    cases hs
    rw [hjrnl] at hwrote
    refine .inr ⟨rfl, e, m, hent, by omega, hput, harch, ?_, hwrote⟩
    simp only [Bc.setJrnl, hjrnl]
  · cases hs
    refine .inl ⟨by simp, rfl, fun e' he' => ?_⟩
    rw [hfree] at he'
    exact absurd he' (by simp)

theorem bcRewrite_records (h : RecordInv bc r) (hne : data.val ≠ [])
    (hs : bcRewrite bc pos hash data = some (err, bc')) (hf : bc'.Fits) :
    RecordInv bc' (if err = .ok then r.put pos data.val else r) := by
  rcases bcRewrite_spec h hs hf with
    ⟨herr, rfl, -⟩ | ⟨rfl, e, m, hent, hle, hput, harch, hj, hwr⟩
  · rwa [if_neg herr]
  · exact h.rewrite hent hle hne hput harch hj hwr

def freshEntry (bc : Bc) (pos : Nat) (hash : BcHash) (data : BcBuf) : BcIdx where
  jrnl := bcJournal pos
  of := (bc.jrnl (bcJournal pos)).of
  size := data.val.length
  crc := shcrc32 data.val
  hash := hash

section

variable (h : RecordInv bc r)
include h

/-- `_bc_write` enters a record at a free position, and falls through to a rewrite at a live
    one. -/
theorem bcWrite_spec (hs : bcWrite bc pos hash data = some (err, bc')) (hf : bc'.Fits) :
    (∃ e, bc.idx.liveEntry pos = some e) ∧ bcRewrite bc pos hash data = some (err, bc') ∨
      err = .ok ∧ bc.idx.liveEntry pos = none ∧ ∃ m,
        bc.idx.Put (entryAt pos) (freshEntry bc pos hash data) bc'.idx ∧ bc'.arch = bc.arch ∧
        bc'.jrnl = (bc.setJrnl (bcJournal pos) m).jrnl ∧
        (bc.jrnl (bcJournal pos)).Wrote (bc.jrnl (bcJournal pos)).of data.val m := by
  unfold bcWrite at hs
  obtain ⟨⟨err₁, bc₁⟩, hal, hs⟩ := bind_eq_some_iff.mp hs
  cases h.alloc_journal hal
  obtain ⟨⟨err₂, bc₂⟩, hset, hs⟩ := bind_eq_some_iff.mp hs
  dsimp only at hs
  by_cases hex : err₂ = .exist
  · -- a live entry: the index is as it was, and the record is rewritten in place
    rw [if_pos hex] at hs
    have hf₂ := (bcRewrite_moves hs).fits hf
    obtain ⟨-, -, ⟨-, hsame, hlive⟩ | ⟨hok, -⟩⟩ := bcIdxSet_spec h.idx_wf hset hf₂.idx
    · rw [hsame] at hs
      exact .inl ⟨hlive, hs⟩
    · rw [hex] at hok
      exact absurd hok (by simp)
  rw [if_neg hex] at hs
  by_cases hok : err₂ ≠ .ok
  · rw [if_pos hok] at hs
    cases hs
    obtain ⟨-, -, ⟨hex', -⟩ | ⟨hok', -⟩⟩ := bcIdxSet_spec h.idx_wf hset hf.idx
    · exact absurd hex' hex
    · exact absurd hok' hok
  rw [if_neg hok] at hs
  obtain ⟨⟨err₃, m⟩, happ, hs⟩ := bind_eq_some_iff.mp hs
  have hfm := (journalTail_moves hs).fits hf
  have hf₂ : bc₂.Fits := hfm.of_setJrnl (bcMapAppend_wrapped happ)
  obtain ⟨harch, hjrnl, ⟨hex', -⟩ | ⟨-, hfree, hput⟩⟩ := bcIdxSet_spec h.idx_wf hset hf₂.idx
  · exact absurd hex' hex
  have hwf : (bc₂.jrnl (bcJournal pos)).Wf := by
    rw [hjrnl]
    exact h.jrnl_wf _
  obtain ⟨rfl, -, hwrote⟩ := bcMapAppend_spec hwf happ hfm.setJrnl_self
  cases hs
  rw [hjrnl] at hwrote
  refine .inr ⟨rfl, hfree, m, hput, harch, ?_, hwrote⟩
  simp only [Bc.setJrnl, hjrnl]

theorem bcWrite_records (hpos : pos < 2 ^ 26) (hne : data.val ≠ [])
    (hs : bcWrite bc pos hash data = some (err, bc')) (hf : bc'.Fits) :
    RecordInv bc' (if err = .ok then r.put pos data.val else r) := by
  rcases bcWrite_spec h hs hf with ⟨-, hs⟩ | ⟨rfl, -, m, hput, harch, hj, hwr⟩
  · exact bcRewrite_records h hne hs hf
  · rw [entryAt_of_lt hpos] at hput
    have he : (freshEntry bc pos hash data).Appended bc (bcJournal pos) data.val := by
      constructor <;> dsimp only [freshEntry]
    exact h.append he hne (bcJournal_lt hpos) hput harch hj hwr

/-- `bc_clear` moves an entry to the end of the archive, or there is none. -/
theorem bcClear_spec (hs : bcClear bc pos = some (err, bc')) (hf : bc'.Fits) :
    err = .noent ∧ bc' = bc ∧ bc.idx.liveEntry pos = none ∨
      err = .ok ∧ ∃ e, bc.idx.liveEntry pos = some e ∧ bc.arch.Put bc.arch.total e bc'.arch ∧
        bc.idx.Put pos BcIdx.blank bc'.idx ∧ bc'.jrnl = bc.jrnl := by
  obtain ⟨⟨err₁, e⟩, hget, hs⟩ := bind_eq_some_iff.mp hs
  dsimp only at hs
  rcases bcMapGet_entry hget with ⟨rfl, hent⟩ | ⟨rfl, hnone⟩
  · obtain ⟨⟨err₂, bc₂⟩, hadd, hs⟩ := bind_eq_some_iff.mp hs
    by_cases hok : err₂ ≠ .ok
    · rw [if_pos hok] at hs
      cases hs
      exact absurd (bcArchAdd_spec h.arch_wf hadd hf.arch).1 hok
    rw [if_neg hok] at hs
    have hf₂ := (Move.idxClear hs).fits hf
    obtain ⟨-, harch, hidx, hjrnl⟩ := bcArchAdd_spec h.arch_wf hadd hf₂.arch
    have hlt := (BcMap.liveEntry_eq_some.mp hent).1
    rw [← hidx] at hlt
    obtain ⟨rfl, hput, harch', hjrnl'⟩ :=
      bcIdxClear_spec (by rw [hidx]; exact h.idx_wf) hlt hs hf.idx
    rw [← harch'] at harch
    rw [hidx] at hput
    exact .inr ⟨rfl, e, hent, harch, hput, hjrnl'.trans hjrnl⟩
  · cases hs
    exact .inl ⟨rfl, rfl, hnone⟩

theorem bcClear_records (hs : bcClear bc pos = some (err, bc')) (hf : bc'.Fits) :
    RecordInv bc' (if err = .ok then r.putAway pos else r) := by
  rcases bcClear_spec h hs hf with ⟨rfl, rfl, -⟩ | ⟨rfl, e, hent, harch, hput, hjrnl⟩
  · rwa [if_neg (by simp)]
  · rw [h.arch_total] at harch
    exact h.clear hent harch hput hjrnl

theorem bcArchWrite_records (hne : data.val ≠ [])
    (hs : bcArchWrite bc hash data = some (err, bc')) (hf : bc'.Fits) :
    RecordInv bc' (if err = .ok then { r with archived := r.archived ++ [data.val] } else r) := by
  obtain ⟨next, hnext, hs⟩ := bind_eq_some_iff.mp hs
  have hpos : next < 2 ^ 26 := by
    unfold bcIdxNext at hnext
    split_ifs at hnext
    cases hnext
    exact h.idx_wf.total_lt
  obtain ⟨⟨err₁, bc₁⟩, hal, hs⟩ := bind_eq_some_iff.mp hs
  rw [bcAlloc_eq (bcJournal_lt hpos) (h.jrnl_room _)] at hal
  cases hal
  obtain ⟨⟨err₂, m⟩, happ, hs⟩ := bind_eq_some_iff.mp hs
  dsimp only at hs
  have hwf : (bc.jrnl (bcJournal next)).Wf := h.jrnl_wf _
  by_cases hok : err₂ ≠ .ok
  · rw [if_pos hok] at hs
    cases hs
    exact absurd (bcMapAppend_spec hwf happ hf.setJrnl_self).1 hok
  rw [if_neg hok] at hs
  have hf₂ := (Move.archAdd hs).fits hf
  obtain ⟨-, -, hwrote⟩ := bcMapAppend_spec hwf happ hf₂.setJrnl_self
  have harchwf : (bc.setJrnl (bcJournal next) m).arch.Wf := h.arch_wf
  obtain ⟨rfl, hput, hidx, hjrnl⟩ := bcArchAdd_spec harchwf hs hf.arch
  have htot : (bc.setJrnl (bcJournal next) m).arch.total = r.archived.length := h.arch_total
  rw [htot] at hput
  refine h.appendArch ?_ hne (bcJournal_lt hpos) hput hidx hjrnl hwrote
  constructor <;> dsimp only

/-! ## Reading back -/

theorem bcVerify_eq {o : Nat ⊕ Nat} (hent : bc.liveEntry o = some e) :
    ∃ bytes, r.val o = some bytes ∧ bcVerify bc e = some (.ok, bytes) := by
  have hown : (bc.liveEntry o).map BcIdx.extent = some e.extent := by rw [hent, map_some]
  have hval := h.holds.bytes_eq (i := o) hown
  have hbelow : e.of + e.size ≤ (bc.jrnl e.jrnl).of := h.holds.below o _ hown
  have hroom := (h.jrnl_room e.jrnl).1
  have hslice : (bc.jrnl e.jrnl).slice e.of e.size
      = e.extent.bytes fun j => (bc.jrnl j).raw := rfl
  have hcrc := (h.stamped o e hent).1
  rw [hval, map_some, some.injEq] at hcrc
  refine ⟨_, hval, ?_⟩
  unfold bcVerify BcMap.slice?
  rw [width_uint8, if_pos (by omega), hslice]
  simp only [bind_eq_bind, bind_some]
  rw [if_neg (by simpa using hcrc)]

end

theorem bcMapGet_eq (hm : m.Wf) (pos : Nat) :
    bcMapGet m pos = some (match m.liveEntry pos with
      | some e => (.ok, e)
      | none => (.noent, BcIdx.blank)) := by
  unfold bcMapGet BcMap.liveEntry
  rw [if_neg hm.size_ne]
  by_cases hlt : pos < m.total
  · rw [if_neg (by omega), hm.read? hlt]
    simp only [bind_eq_bind, bind_some, hlt, true_and]
    by_cases h0 : (m.raw pos).size = 0 <;> simp [h0]
  · rw [if_pos (by omega), if_neg (fun hc => hlt hc.1)]

/-- **`bc_get` reads what was written**, and nothing changes. -/
theorem bcGet_eq (h : RecordInv bc r) (pos : Nat) :
    bcGet bc pos = some (match r.held pos with
      | some bytes => (.ok, bytes, bc)
      | none => (.noent, [], bc)) := by
  unfold bcGet
  rw [bcMapGet_eq h.idx_wf]
  cases hent : bc.idx.liveEntry pos with
  | none =>
    have hval : r.held pos = none := by
      have := h.holds.reads (.inl pos)
      simpa [Bc.liveEntry, hent, Records.val] using this.symm
    simp [hval]
  | some e =>
    have hown : bc.liveEntry (.inl pos) = some e := hent
    obtain ⟨bytes, hval, hver⟩ := bcVerify_eq h hown
    have hheld : r.held pos = some bytes := hval
    have hin : ¬ (bc.jrnl e.jrnl).size ≤ e.of := by
      have hbelow := h.holds.below (.inl pos) e.extent (by rw [hown, map_some])
      have hroom := (h.jrnl_room e.jrnl).1
      simp only [BcIdx.extent] at hbelow
      omega
    simp [bcAlloc_eq (h.stamped _ _ hown).2 (h.jrnl_room _), hver, hheld, hin]

/-- **`bc_arch` reads what was put away.** -/
theorem bcArch_eq (h : RecordInv bc r) (pos : Nat) :
    bcArch bc pos = some (match r.archived[pos]? with
      | some bytes => (.ok, bytes, bc)
      | none => (.noent, [], bc)) := by
  unfold bcArch
  rw [if_neg h.arch_wf.size_ne, bcMapGet_eq h.arch_wf]
  cases hent : bc.arch.liveEntry pos with
  | none =>
    have hval : r.archived[pos]? = none := by
      have := h.holds.reads (.inr pos)
      simpa [Bc.liveEntry, hent, Records.val] using this.symm
    simp only [hval]
    rfl
  | some e =>
    have hown : bc.liveEntry (.inr pos) = some e := hent
    obtain ⟨bytes, hval, hver⟩ := bcVerify_eq h hown
    have harch : r.archived[pos]? = some bytes := hval
    simp [bcAlloc_eq (h.stamped _ _ hown).2 (h.jrnl_room _), hver, harch]

/-! ## Runs -/

/-- The table plays no part in the invariant. -/
theorem RecordInv.frame (h : RecordInv bc r)
    (hframe : bc'.idx = bc.idx ∧ bc'.arch = bc.arch ∧ bc'.jrnl = bc.jrnl) : RecordInv bc' r := by
  obtain ⟨idx', tab', arch', jrnl'⟩ := bc'
  obtain ⟨rfl, rfl, rfl⟩ := hframe
  exact ⟨h.idx_wf, h.idx_tail, h.idx_total, h.arch_wf, h.arch_tail, h.arch_total, h.jrnl_room,
    h.jrnl_eq, h.stamped, h.holds⟩

/-- **One call**: the store after it holds what its user believes in after it. -/
theorem step_records {op : BcOp} (hop : op.OnRecords) (h : RecordInv bc r)
    (hs : bc.step op = some (err, bc')) (hf : bc'.Fits) : RecordInv bc' (r.step op err) := by
  cases op with
  | append hash data =>
    obtain ⟨next, hnext, hs⟩ := bind_eq_some_iff.mp hs
    obtain rfl : r.next = next := by
      unfold bcIdxNext at hnext
      split_ifs at hnext
      cases hnext
      exact h.idx_total.symm
    have hlt : r.next < 2 ^ 26 := h.idx_total ▸ h.idx_wf.total_lt
    have := bcWrite_records h hlt hop hs hf
    cases err <;> simpa [Records.step] using this
  | write pos hash data =>
    have := bcWrite_records h hop.1 hop.2 hs hf
    cases err <;> simpa [Records.step] using this
  | rewrite pos hash data =>
    have := bcRewrite_records h hop hs hf
    cases err <;> simpa [Records.step] using this
  | clear pos =>
    have := bcClear_records h hs hf
    cases err <;> simpa [Records.step] using this
  | archWrite hash data =>
    have := bcArchWrite_records h hop hs hf
    cases err <;> simpa [Records.step] using this
  | tableReset hash | tableClear =>
    cases hs
    exact h.frame ⟨rfl, rfl, rfl⟩
  | idxClear pos | purge pos => exact absurd hop id
  | find hash =>
    obtain ⟨⟨err₁, found, bc₁⟩, hfind, heq⟩ := map_eq_some_iff.mp hs
    cases heq
    exact h.frame (bcIdxFind_frame hfind)

theorem run_records {ops : List BcOp} (hops : ∀ op ∈ ops, op.OnRecords)
    (hrun : exec recordStep (Bc.empty, Records.empty) ops = some (bc, r)) (hf : bc.Fits) :
    RecordInv bc r := by
  have hor : ¬ bc.Fits ∨ RecordInv bc r := by
    refine exec_invariant (P := fun s : Bc × Records => ¬ s.1.Fits ∨ RecordInv s.1 s.2)
      ?_ hops (.inr recordInv_empty) hrun
    rintro ⟨bc₁, r₁⟩ op ⟨bc₂, r₂⟩ hop h hstep
    obtain ⟨⟨err, bc₃⟩, hs, heq⟩ := map_eq_some_iff.mp hstep
    cases heq
    by_cases hf₂ : bc₂.Fits
    · rcases h with h | h
      · exact absurd ((step_moves hs).fits hf₂) h
      · exact .inr (step_records hop h hs hf₂)
    · exact .inl hf₂
  exact hor.resolve_left (not_not_intro hf)

/-- **Read-your-writes.** After any sequence of calls on records that no map wraps in: the live
    and the archived entries describe byte ranges that lie below the ends of their journals and
    are pairwise disjoint, `bc_get` returns the bytes last written at a position, and `bc_arch`
    the bytes that a record held when it was put away. -/
theorem read_your_writes {ops : List BcOp} (hops : ∀ op ∈ ops, op.OnRecords)
    (hrun : exec recordStep (Bc.empty, Records.empty) ops = some (bc, r)) (hf : bc.Fits) :
    (∀ o e, bc.liveEntry o = some e → e.of + e.size ≤ (bc.jrnl e.jrnl).of) ∧
      (∀ o o' e e', o ≠ o' → bc.liveEntry o = some e → bc.liveEntry o' = some e' →
        e.jrnl = e'.jrnl → e.of + e.size ≤ e'.of ∨ e'.of + e'.size ≤ e.of) ∧
      (∀ pos, bcGet bc pos = some (match r.held pos with
        | some bytes => (.ok, bytes, bc)
        | none => (.noent, [], bc))) ∧
      ∀ pos, bcArch bc pos = some (match r.archived[pos]? with
        | some bytes => (.ok, bytes, bc)
        | none => (.noent, [], bc)) := by
  have h := run_records hops hrun hf
  refine ⟨?_, ?_, bcGet_eq h, bcArch_eq h⟩
  · intro o e he
    exact h.holds.below o e.extent (by rw [he, map_some])
  · intro o o' e e' hne he he'
    exact h.holds.apart o o' e.extent e'.extent hne (by rw [he, map_some]) (by rw [he', map_some])

def oneRecord : Bc × Records :=
  (exec recordStep (Bc.empty, Records.empty) [.append hashSample bufSample]).getD
    (Bc.empty, Records.empty)

theorem oneRecord_fits : oneRecord.1.Fits := by
  refine ⟨rfl, rfl, ?_⟩
  intro j
  have hj : bcJournal 0 = 1 := rfl
  simp [oneRecord, exec, recordStep, Bc.step, bcAppend, bcIdxNext, bcWrite, bcAlloc, bcMapAlloc,
    bcIdxSet, bcMapSet, bcMapGet, bcMapWrite, bcMapAppend, Bc.empty, BcMap.fresh, BcMap.total,
    Bc.setJrnl, bcHdrSize, bcMapBlockSize, maxBcMapSize, hj, BcMap.store, bufSample]
  split_ifs <;> rfl

theorem read_your_writes_append :
    (bcGet oneRecord.1 0).map (fun x => (x.1, x.2.1)) = some (.ok, [7]) := by
  have hrun : exec recordStep (Bc.empty, Records.empty) [.append hashSample bufSample]
      = some oneRecord := rfl
  have hops : ∀ op ∈ ([.append hashSample bufSample] : List BcOp), op.OnRecords := by
    simp [BcOp.OnRecords, bufSample]
  have hget : bcGet oneRecord.1 0 = _ := (read_your_writes hops hrun oneRecord_fits).2.2.1 0
  rw [hget]
  rfl

/-- The store after a `bc_write` to position `2^26`. -/
def lostRecord : Bc × Records :=
  (exec recordStep (Bc.empty, Records.empty) [.write 67108864 hashSample bufSample]).getD
    (Bc.empty, Records.empty)

/-- **A position of `2^26` is lost**: `bc_write` reports success, and `bc_get` finds no record
    there. The entry has been written to position zero. -/
theorem write_lost_past_index :
    exec recordStep (Bc.empty, Records.empty) [.write 67108864 hashSample bufSample]
        = some lostRecord ∧ lostRecord.2.held 67108864 = some [7] ∧
      (bcGet lostRecord.1 67108864).map (fun x => (x.1, x.2.1)) = some (.noent, []) ∧
      lostRecord.2.held 0 = none ∧
      (bcGet lostRecord.1 0).map (fun x => (x.1, x.2.1)) = some (.ok, [7]) := by
  refine ⟨?_, rfl, by decide, rfl, by decide⟩
  exact (getD_of_ne_none (by decide) _).symm

end ShareCoin.Blockchain
