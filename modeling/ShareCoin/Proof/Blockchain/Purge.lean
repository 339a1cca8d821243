import ShareCoin.Proof.Blockchain.WritePost

/-!
# What `bc_purge` leaves behind

The clearing loop of `_bc_purge` takes the records from the end of the index down to a position
and moves their entries to the archive. Its counter is unsigned: for position zero the condition
`t_pos >= pos` never fails and the loop does not end (`purgeDown_zero`). For every other position
it comes back, and nothing is lost: the bytes stay in the journals.

The loop asks for the hash of an entry after it has cleared it, so that it never resets a slot of
the table. The lookups are right all the same: a slot only bounds where a record may be.
-/

namespace ShareCoin.Blockchain

open Lib Option Function

variable {bc bc' : Bc} {r : Records} {pos : Nat} {e : BcIdx} {m : BcMap BcIdx}

/-! ## The loop that is written -/

/-- **Position zero**: no number of rounds ends the loop. -/
theorem purgeDown_zero (fuel : Nat) : ∀ (bc : Bc) (tPos : UInt32),
    purgeDown bc 0 tPos fuel = none := by
  induction fuel with
  | zero => intro bc tPos; rfl
  | succ fuel ih =>
    intro bc tPos
    simp [purgeDown, ih]

/-! ## Every round comes back -/

/-- A map with so few entries never wraps when one is added. -/
def maxEntries : Nat := 60000000

/-- `n` entries can be added, in the file as it is or in one that grows. -/
def BcMap.Room (m : BcMap BcIdx) (n : Nat) : Prop :=
  bcHdrSize + m.of + n * 64 < m.size ∨ m.total + n ≤ maxEntries

theorem bcMapAlloc_small (hm : m.Wf) (hroom : m.Room 1) (len : Nat) (hlen : len ≤ 64) :
    ∃ size, bcMapAlloc m len = (.ok, { m with size := size }) ∧ m.size ≤ size ∧
      bcHdrSize + m.of + len < size ∧ ({ m with size := size } : BcMap BcIdx).Wf := by
  have hle := hm.of_le
  by_cases hfit : bcHdrSize + m.of + len < m.size
  · exact ⟨m.size, bcMapAlloc_of_fits hfit, Nat.le_refl _, hfit, hm⟩
  · have hgt := le_growWanted m.size len
    have hwant : growWanted m.size len < 2 ^ 32 := by
      have hfew := hroom.resolve_left (by omega)
      unfold BcMap.total maxEntries at hfew
      unfold bcHdrSize at hfit
      unfold growWanted bcMapBlockSize
      omega
    exact ⟨_, bcMapAlloc_of_grows (by omega) hwant, by omega, by omega, by dsimp only; omega, hwant⟩

/-- An entry written up to the end of what is in use. -/
theorem bcMapWrite_small (hm : m.Wf) (hroom : m.Room 1) (of : Nat) (hin : of ≤ m.of) :
    ∃ m', bcMapWrite m of [e] = some (.ok, m') ∧ m'.wrapped = m.wrapped ∧
      m'.of ≤ max m.of (of + 64) ∧ m.size ≤ m'.size := by
  obtain ⟨size, hal, hsize, hin', -⟩ := bcMapAlloc_small hm hroom 64 (Nat.le_refl _)
  refine ⟨({ m with size := size } : BcMap BcIdx).store of [e], ?_, rfl, ?_, hsize⟩
  · rw [bcMapWrite, List.length_singleton, width_bcIdx, Nat.one_mul, hal]
    exact if_pos (by dsimp only; omega)
  · have hmod := Nat.mod_le (of + 64) (2 ^ 32)
    simp only [BcMap.store, List.length_singleton, width_bcIdx, Nat.one_mul]
    omega

theorem bcMapSet_small (hm : m.Wf) (hroom : m.Room 1) :
    ∃ m', bcMapSet m m.total e = some (.ok, m') ∧ m'.wrapped = m.wrapped ∧
      m'.of ≤ m.of + 64 ∧ m.size ≤ m'.size := by
  have hget : bcMapGet m m.total = some (.noent, BcIdx.blank) := by
    rw [bcMapGet_eq hm, BcMap.liveEntry_eq_none (.inl (Nat.le_refl _))]
  have htotal := hm.total_lt
  have hmod : m.total * 64 % 2 ^ 32 = m.total * 64 := Nat.mod_eq_of_lt (by omega)
  have hle := hm.of_le
  have hin : m.total * 64 ≤ m.of := Nat.div_mul_le_self _ _
  unfold bcMapSet
  simp only [hget, bind_eq_bind, bind_some, hmod]
  by_cases hgrow : m.total ≤ m.total ∧ m.size < m.total * 64 + 64
  · obtain ⟨size, hal, hsize, -, hwf⟩ := bcMapAlloc_small hm hroom
      ((m.total * 64 + 64 - m.size) % 2 ^ 32) (by omega)
    have hroom' : ({ m with size := size } : BcMap BcIdx).Room 1 := by
      unfold BcMap.Room BcMap.total at *
      dsimp only
      omega
    rw [if_pos hgrow, hal]
    obtain ⟨m', hwr, hw, hof, hsz⟩ := bcMapWrite_small (e := e) hwf hroom' _ hin
    dsimp only at hof hsz
    exact ⟨m', hwr, hw, by omega, by omega⟩
  · rw [if_neg hgrow]
    obtain ⟨m', hwr, hw, hof, hsz⟩ := bcMapWrite_small (e := e) hm hroom _ hin
    exact ⟨m', hwr, hw, by omega, hsz⟩

theorem BcMap.Room.of_le {m' : BcMap BcIdx} {n d : Nat} (h : m.Room (n + d))
    (hof : m'.of ≤ m.of + d * 64) (hsize : m.size ≤ m'.size) : m'.Room n := by
  unfold BcMap.Room BcMap.total at *
  omega

theorem bcClear_returns (h : RecordInv bc r) (hf : bc.Fits) {n : Nat}
    (harch : bc.arch.Room (n + if (bc.idx.liveEntry pos).isSome then 1 else 0))
    (hidx : bc.idx.Room 1) :
    ∃ err bc', bcClear bc pos = some (err, bc') ∧ bc'.Fits ∧ bc'.arch.Room n ∧
      bc'.idx.Room 1 := by
  unfold bcClear
  rw [bcMapGet_eq h.idx_wf]
  cases hent : bc.idx.liveEntry pos with
  | none =>
    rw [hent] at harch
    exact ⟨.noent, bc, rfl, hf, harch, hidx⟩
  | some e =>
    rw [hent, isSome_some, if_pos rfl] at harch
    have hlt := (BcMap.liveEntry_eq_some.mp hent).1
    have hlast : pos * 64 % 2 ^ 32 + 64 ≤ bc.idx.of := by
      unfold BcMap.total at hlt
      omega
    have hone : bc.arch.Room 1 := by
      unfold BcMap.Room at *
      omega
    obtain ⟨ma, hset, hwa, hofa, hsza⟩ := bcMapSet_small (e := e) h.arch_wf hone
    obtain ⟨mi, hwr, hwi, hofi, hszi⟩ := bcMapWrite_small (e := BcIdx.blank) h.idx_wf hidx
      (pos * 64 % 2 ^ 32) (by omega)
    rw [max_eq_left hlast] at hofi
    refine ⟨.ok, { bc with arch := ma, idx := mi }, ?_,
      ⟨hwi.trans hf.idx, hwa.trans hf.arch, hf.jrnl⟩, harch.of_le (by omega) hsza,
      BcMap.Room.of_le (d := 0) hidx hofi hszi⟩
    have hclear : bcIdxClear { bc with arch := ma } pos =
        some (.ok, { bc with arch := ma, idx := mi }) := by
      unfold bcIdxClear
      dsimp only
      rw [if_neg h.idx_wf.size_ne, if_neg (by omega), hwr]
      rfl
    simp [bcArchAdd, h.arch_wf.size_ne, hset, hclear]

/-! ## Entries moved -/

/-- The entries of `bc` from `lo` up have been moved to the archive, behind those it had. -/
structure MovedFrom (bc : Bc) (lo : Nat) (bc' : Bc) : Prop where
  jrnl_eq : bc'.jrnl = bc.jrnl
  idx_eq : ∀ i, bc'.idx.liveEntry i = if lo ≤ i then none else bc.idx.liveEntry i
  arch_le : bc.arch.total ≤ bc'.arch.total
  moved : ∀ i e, lo ≤ i → bc.idx.liveEntry i = some e →
    ∃ p, bc.arch.total ≤ p ∧ bc'.arch.liveEntry p = some e
  origin : ∀ p e, bc.arch.total ≤ p → bc'.arch.liveEntry p = some e →
    ∃ i, bc.idx.liveEntry i = some e

theorem MovedFrom.start (bc : Bc) : MovedFrom bc bc.idx.total bc where
  jrnl_eq := rfl
  idx_eq i := by
    split_ifs with hi
    · exact BcMap.liveEntry_eq_none (.inl hi)
    · rfl
  arch_le := Nat.le_refl _
  moved i e hi he := absurd (BcMap.liveEntry_eq_some.mp he).1 (by omega)
  origin p e hp he := absurd (BcMap.liveEntry_eq_some.mp he).1 (by omega)

theorem MovedFrom.skip {lo : Nat} (h : MovedFrom bc (lo + 1) bc')
    (hnone : bc'.idx.liveEntry lo = none) : MovedFrom bc lo bc' := by
  have hlo : bc.idx.liveEntry lo = none := by
    rw [← hnone, h.idx_eq, if_neg (by omega)]
  refine ⟨h.jrnl_eq, fun i => ?_, h.arch_le, fun i e hi he => ?_, h.origin⟩
  · by_cases hi : i = lo
    · rw [hi, hnone, if_pos (Nat.le_refl _)]
    · rw [h.idx_eq]
      exact if_congr (by omega) rfl rfl
  · have hne : i ≠ lo := fun hi => by rw [hi, hlo] at he; cases he
    exact h.moved i e (by omega) he

theorem MovedFrom.clear {lo : Nat} {bc₁ : Bc} (h : MovedFrom bc (lo + 1) bc₁)
    (h₁ : RecordInv bc₁ r) (hent : bc₁.idx.liveEntry lo = some e)
    (harch : bc₁.arch.Put bc₁.arch.total e bc'.arch) (hidx : bc₁.idx.Put lo BcIdx.blank bc'.idx)
    (hjrnl : bc'.jrnl = bc₁.jrnl) : MovedFrom bc lo bc' := by
  have hsz := (BcMap.liveEntry_eq_some.mp hent).2.1
  have ha := harch.liveEntry_eq h₁.arch_tail
  have hi := hidx.liveEntry_eq h₁.idx_tail
  rw [if_neg hsz] at ha
  have hlo : bc.idx.liveEntry lo = some e := by
    rw [← hent, h.idx_eq, if_neg (by omega)]
  refine ⟨hjrnl.trans h.jrnl_eq, fun i => ?_, ?_, fun i e' hle he => ?_, fun p e' hp he => ?_⟩
  · rw [hi]
    by_cases hil : i = lo
    · rw [hil, update_self, if_pos (Nat.le_refl _)]
      rfl
    · rw [update_of_ne hil, h.idx_eq]
      exact if_congr (by omega) rfl rfl
  · rw [harch.total_eq]
    have := h.arch_le
    omega
  · by_cases hil : i = lo
    · rw [hil, hlo] at he
      exact ⟨bc₁.arch.total, h.arch_le, by rw [ha, update_self, he]⟩
    · obtain ⟨p, hp, hpe⟩ := h.moved i e' (by omega) he
      have hlt := (BcMap.liveEntry_eq_some.mp hpe).1
      exact ⟨p, hp, by rw [ha, update_of_ne (by omega), hpe]⟩
  · rw [ha] at he
    by_cases hpt : p = bc₁.arch.total
    · rw [hpt, update_self] at he
      exact ⟨lo, hlo.trans he⟩
    · rw [update_of_ne hpt] at he
      exact h.origin p e' hp he

/-- The number of records at the `k` positions from `pos` on. -/
def BcMap.liveFrom (m : BcMap BcIdx) (pos : Nat) : Nat → Nat
  | 0 => 0
  | k + 1 => m.liveFrom pos k + if (m.liveEntry (pos + k)).isSome then 1 else 0

/-- **The loop**, above zero: it comes back and has moved every entry from `pos` up. -/
theorem purgeDown_moved {pos : UInt32} (hpos : 0 < pos.toNat) {k : Nat} :
    ∀ {bc₁ : Bc} {r : Records} (tPos : UInt32) (fuel : Nat), RecordInv bc₁ r → bc₁.Fits →
    bc₁.arch.Room (bc.idx.liveFrom pos.toNat k) → bc₁.idx.Room 1 →
    MovedFrom bc (pos.toNat + k) bc₁ → tPos.toNat + 1 = pos.toNat + k → k < fuel →
    ∃ bc' r', purgeDown bc₁ pos tPos fuel = some bc' ∧ RecordInv bc' r' ∧ bc'.Fits ∧
      MovedFrom bc pos.toNat bc' := by
  induction k with
  | zero =>
    intro bc₁ r tPos fuel h hf _ _ hmoved htPos hfuel
    obtain ⟨fuel, rfl⟩ := Nat.exists_eq_succ_of_ne_zero (Nat.ne_of_gt hfuel)
    refine ⟨bc₁, r, ?_, h, hf, hmoved⟩
    rw [purgeDown, if_pos (UInt32.lt_iff_toNat_lt.mpr (by omega))]
  | succ k ih =>
    intro bc₁ r tPos fuel h hf harch hidx hmoved htPos hfuel
    obtain ⟨fuel, rfl⟩ := Nat.exists_eq_succ_of_ne_zero (Nat.ne_of_gt (by omega : 0 < fuel))
    have hhere : tPos.toNat = pos.toNat + k := by omega
    have hprev : (tPos - 1).toNat = tPos.toNat - 1 :=
      UInt32.toNat_sub_of_le _ _ (UInt32.le_iff_toNat_le.mpr (by simp; omega))
    have hsame : bc₁.idx.liveEntry (pos.toNat + k) = bc.idx.liveEntry (pos.toNat + k) := by
      rw [hmoved.idx_eq, if_neg (by omega)]
    rw [BcMap.liveFrom, ← hsame] at harch
    obtain ⟨err, bc₂, hclear, hf₂, harch₂, hidx₂⟩ := bcClear_returns h hf harch hidx
    have h₂ := bcClear_records h hclear hf₂
    have hnext : MovedFrom bc (pos.toNat + k) bc₂ := by
      rcases bcClear_spec h hclear hf₂ with ⟨-, rfl, hnone⟩ | ⟨-, e, hent, hput, hblank, hjrnl⟩
      · exact hmoved.skip hnone
      · exact hmoved.clear h hent hput hblank hjrnl
    -- the entry is gone when its hash is asked for
    have hget : bcMapGet bc₂.idx (pos.toNat + k) = some (.noent, BcIdx.blank) := by
      rw [bcMapGet_eq h₂.idx_wf, hnext.idx_eq, if_pos (Nat.le_refl _)]
    obtain ⟨bc', r', hloop, hrest⟩ := ih (tPos - 1) fuel h₂ hf₂ harch₂ hidx₂ hnext (by omega)
      (by omega)
    refine ⟨bc', r', ?_, hrest⟩
    rw [purgeDown, if_neg (by rw [UInt32.lt_iff_toNat_lt]; omega), hhere]
    simp [hclear, hget, hloop]

/-! ## The postcondition -/

theorem archFindLoop_eq (hm : m.Wf) (hash : BcHash) {k : Nat} (hk : k ≤ m.total) :
    archFindLoop m hash k = some ((scan m.keys hash k).map fun i => (i, m.raw i)) := by
  induction k with
  | zero => rfl
  | succ i ih =>
    unfold archFindLoop scan
    rw [hm.read? (by omega)]
    simp only [bind_eq_bind, bind_some, BcMap.keys, BcIdx.key]
    by_cases hsz : (m.raw i).size = 0
    · simpa [hsz] using ih (by omega)
    · by_cases hh : (m.raw i).hash = hash
      · simp [hsz, hh]
      · simpa [hsz, hh] using ih (by omega)

theorem RecordInv.val_eq {r' : Records} {o q : Nat ⊕ Nat} (h : RecordInv bc r)
    (h' : RecordInv bc' r') (hj : bc'.jrnl = bc.jrnl) (ho : bc'.liveEntry q = bc.liveEntry o) :
    r'.val q = r.val o := by
  rw [← h.holds.reads o, ← h'.holds.reads q, ho, hj]

/-- What `bc_purge` promises. A record is asked for in the archive under a hash that no other
    record of the index has. -/
structure Purged (bc : Bc) (pos : Nat) (bc' : Bc) : Prop where
  below : ∀ i < pos, bcGetHash bc' i = bcGetHash bc i ∧
    (bcGet bc' i).map (fun x => (x.1, x.2.1)) = (bcGet bc i).map (fun x => (x.1, x.2.1))
  gone : ∀ i, pos ≤ i → bcMapGet bc'.idx i = some (.noent, BcIdx.blank)
  find : ∀ hash, ∃ err found bc₁, bcIdxFind bc' hash = some (err, found, bc₁) ∧ ∀ i ∈ found, i < pos
  kept : ∀ i e, pos ≤ i → bc.idx.liveEntry i = some e →
    (∀ i' e', bc.idx.liveEntry i' = some e' → e'.hash = e.hash → i' = i) →
    ∃ p data, bcArchFind bc' e.hash = some (.ok, some (p, e)) ∧
      bcArch bc' p = some (.ok, data, bc') ∧ bcGet bc i = some (.ok, data, bc)

theorem MovedFrom.purged {r' : Records} (h : MovedFrom bc pos bc') (hr : RecordInv bc r)
    (hr' : RecordInv bc' r') (hlook : LookupInv bc'.idx bc'.tab) : Purged bc pos bc' where
  below i hi := by
    have hent : bc'.idx.liveEntry i = bc.idx.liveEntry i := by
      rw [h.idx_eq, if_neg (by omega)]
    have hval : r'.held i = r.held i := hr.val_eq (o := .inl i) (q := .inl i) hr' h.jrnl_eq hent
    unfold bcGetHash
    rw [bcMapGet_eq hr.idx_wf, bcMapGet_eq hr'.idx_wf, hent, bcGet_eq hr, bcGet_eq hr', hval]
    cases r.held i <;> exact ⟨rfl, rfl⟩
  gone i hi := by
    rw [bcMapGet_eq hr'.idx_wf, h.idx_eq, if_pos hi]
  find hash := by
    obtain ⟨tab', -, hfind⟩ := bcIdxFind_spec hash hlook
    rw [hfind]
    cases hscan : scan bc'.idx.keys hash bc'.idx.total with
    | none => exact ⟨_, _, _, rfl, by simp⟩
    | some i =>
      refine ⟨_, _, _, rfl, fun j hj => ?_⟩
      cases hj
      obtain ⟨hlt, hkey⟩ := (scan_eq_some_iff.mp hscan).1
      by_contra hle
      have hnone := h.idx_eq i
      rw [if_pos (by omega)] at hnone
      unfold BcMap.keys BcIdx.key at hkey
      split_ifs at hkey with hsz
      exact absurd hnone (by simp [BcMap.liveEntry, hlt, hsz])
  kept i e hi he hone := by
    obtain ⟨p₀, hp₀, hpe₀⟩ := h.moved i e hi he
    obtain ⟨hlt₀, hsz₀, hraw₀⟩ := BcMap.liveEntry_eq_some.mp hpe₀
    have hkey₀ : bc'.arch.keys p₀ = some e.hash := by
      rw [BcMap.keys, hraw₀, BcIdx.key, if_neg hsz₀]
    cases hscan : scan bc'.arch.keys e.hash bc'.arch.total with
    | none => exact absurd hkey₀ (scan_eq_none_iff.mp hscan p₀ hlt₀)
    | some p =>
      -- the last one with the hash has been moved here as well, so it is the same
      obtain ⟨⟨hlt, hkey⟩, htop⟩ := scan_eq_some_iff.mp hscan
      have hle : p₀ ≤ p := htop ⟨hlt₀, hkey₀⟩
      unfold BcMap.keys BcIdx.key at hkey
      split_ifs at hkey with hsz
      have hpe := BcMap.liveEntry_eq_some.mpr ⟨hlt, hsz, rfl⟩
      obtain ⟨i', hi'⟩ := h.origin p _ (by omega) hpe
      obtain rfl := hone i' _ hi' (some.inj hkey)
      have heq : bc'.arch.raw p = e := some.inj (hi'.symm.trans he)
      have hval : r'.archived[p]? = r.held i' :=
        hr.val_eq (o := .inl i') (q := .inr p) hr' h.jrnl_eq (hpe.trans hi'.symm)
      obtain ⟨data, hdata, -⟩ := bcVerify_eq (o := .inl i') hr he
      have hheld : r.held i' = some data := hdata
      refine ⟨p, data, ?_, ?_, ?_⟩
      · rw [bcArchFind, if_neg hr'.arch_wf.size_ne, archFindLoop_eq hr'.arch_wf _ (Nat.le_refl _),
          hscan, map_some, heq]
        rfl
      · rw [bcArch_eq hr', hval, hheld]
      · rw [bcGet_eq hr, hheld]

/-- **The postcondition of `bc_purge`.** On a store that calls below position `2^26` lead to,
    with no growth that wraps and with room for the records in the archive, a purge from a live
    position comes back with its promises kept exactly if the position is not zero. -/
theorem bcPurge_post_iff {pos : UInt32} {ops : List BcOp} (hops : ∀ op ∈ ops, op.BelowIndex)
    (hrun : Bc.empty.run ops = some bc) (hf : bc.Fits) (hidx : bc.idx.Room 1)
    (harch : bc.arch.Room (bc.idx.liveFrom pos.toNat (bc.idx.total - pos.toNat)))
    (hlive : bc.idx.liveEntry pos.toNat = some e) :
    (∃ bc', bcPurge bc pos = some (.ok, bc') ∧ Purged bc pos.toNat bc') ↔ pos ≠ 0 := by
  obtain ⟨r, h⟩ := run_reached hops hrun hf
  have hown : bc.liveEntry (.inl pos.toNat) = some e := hlive
  have hlt := (BcMap.liveEntry_eq_some.mp hlive).1
  obtain ⟨data, -, hver⟩ := bcVerify_eq h hown
  -- the checks in front of the loop pass
  have hpurge : bcPurge bc pos = (purgeDown bc pos (.ofNat (bc.idx.total - 1))
      (bc.idx.total + 1)).bind fun bc' => some (.ok, bc') := by
    have hsome : bc.idx.total ≠ 0 := by omega
    simp [bcPurge, bcMapGet_eq h.idx_wf, hlive, bcAlloc_eq (h.stamped _ _ hown).2 (h.jrnl_room _),
      hver, bcIdxNext, h.idx_wf.size_ne, hsome]
  constructor
  · rintro ⟨bc', hs, -⟩ rfl
    rw [hpurge, purgeDown_zero] at hs
    cases hs
  · intro hpos
    have hpos : 0 < pos.toNat :=
      Nat.pos_of_ne_zero fun h0 => hpos (UInt32.toNat_inj.mp h0)
    have htotal := h.idx_wf.total_lt
    have hend : pos.toNat + (bc.idx.total - pos.toNat) = bc.idx.total := by omega
    have htop : (UInt32.ofNat (bc.idx.total - 1)).toNat = bc.idx.total - 1 :=
      UInt32.toNat_ofNat_of_lt (Nat.lt_trans (by omega : _ < 2 ^ 26) (by decide))
    have hstart : MovedFrom bc (pos.toNat + (bc.idx.total - pos.toNat)) bc := by
      rw [hend]
      exact .start bc
    obtain ⟨bc', r', hloop, hr', hf', hmoved⟩ :=
      purgeDown_moved hpos (.ofNat (bc.idx.total - 1)) (bc.idx.total + 1) h hf harch hidx hstart
        (by omega) (by omega)
    have hs : bcPurge bc pos = some (.ok, bc') := by
      rw [hpurge, hloop, bind_some]
    have hlook := (bcPurge_moves hs).lookup (run_lookup hrun)
    exact ⟨bc', hs, hmoved.purged h hr' (hlook.resolve_left (by simp [hf'.idx]))⟩

def recordAtOne : Bc := (Bc.empty.run [.write 1 hashSample bufSample]).getD Bc.empty

theorem bcPurge_post_one :
    ∃ bc', bcPurge recordAtOne 1 = some (.ok, bc') ∧ Purged recordAtOne 1 bc' := by
  have hops : ∀ op ∈ ([.write 1 hashSample bufSample] : List BcOp), op.BelowIndex := by
    simp [BcOp.BelowIndex, BcOp.OnRecords, bufSample]
  have hrun : Bc.empty.run [.write 1 hashSample bufSample] = some recordAtOne :=
    (getD_of_ne_none (by decide) _).symm
  have hf : recordAtOne.Fits := by
    refine ⟨rfl, rfl, fun j => ?_⟩
    have hj : bcJournal 1 = 1 := rfl
    simp [recordAtOne, Bc.run, exec, Bc.step, bcWrite, bcAlloc, bcMapAlloc, bcIdxSet, bcMapSet,
      bcMapGet, bcMapWrite, bcMapAppend, Bc.empty, BcMap.fresh, BcMap.total, Bc.setJrnl, bcHdrSize,
      bcMapBlockSize, maxBcMapSize, hj, BcMap.store, bufSample]
    split_ifs <;> rfl
  have hlive : (recordAtOne.idx.liveEntry 1).isSome := rfl
  obtain ⟨e, he⟩ := isSome_iff_exists.mp hlive
  have hidx : recordAtOne.idx.Room 1 := .inr (by decide)
  have harch : recordAtOne.arch.Room (recordAtOne.idx.liveFrom (1 : UInt32).toNat
      (recordAtOne.idx.total - (1 : UInt32).toNat)) := .inr (by decide)
  exact (bcPurge_post_iff hops hrun hf hidx harch he).mpr (by decide)

/-- **A purge from position zero runs on**: the store with one record is never handed back. -/
theorem purge_zero_runs_on :
    Bc.empty.run [.append hashSample bufSample] = some oneRecord.1 ∧
      (oneRecord.1.idx.liveEntry 0).isSome ∧ bcPurge oneRecord.1 0 = none ∧
      ∀ fuel, purgeDown oneRecord.1 0 0 fuel = none :=
  ⟨rfl, rfl, isNone_iff_eq_none.mp rfl,
    fun fuel => purgeDown_zero fuel _ _⟩

end ShareCoin.Blockchain
