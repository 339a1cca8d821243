import ShareCoin.Proof.Blockchain.Lookup
import ShareCoin.Proof.Blockchain.ReadBack

/-!
# What `bc_write` leaves behind

`_bc_write` has two ways to a record. At a free position it makes an entry of its own, with the
hash it was given; at a live one it falls through to `_bc_rewrite`, which writes the size and the
checksum of the entry anew and never its hash. The two agree exactly when the live entry carries
the hash already, or when the data does not fit and nothing is written at all.

The invariant of `ReadBack` is about the calls on records. Here the store is one that any calls
below position `2^26` lead to, `bc_purge` and `bc_idx_clear` among them: both only take records
away.
-/

namespace ShareCoin.Blockchain

open Lib Option Function

variable {bc bc' : Bc} {r : Records} {pos : Nat} {hash : BcHash} {e : BcIdx} {err : BcErr}
  {data : BcBuf}

/-! ## Calls that take records away -/

theorem RecordInv.idxClear (h : RecordInv bc r) (hput : bc.idx.Put pos BcIdx.blank bc'.idx)
    (harch : bc'.arch = bc.arch) (hjrnl : bc'.jrnl = bc.jrnl) : ∃ r', RecordInv bc' r' := by
  have hent : bc'.liveEntry = update bc.liveEntry (.inl pos) none :=
    Bc.liveEntry_idx hput harch h.idx_tail
  refine ⟨{ r with next := max r.next (pos + 1), held := update r.held pos none },
    hput.wf, hput.tail h.idx_tail, ?_, harch ▸ h.arch_wf, harch ▸ h.arch_tail,
    harch ▸ h.arch_total, hjrnl ▸ h.jrnl_room, h.jrnl_put hput (.inl rfl), ?_, ?_⟩
  · rw [hput.total_eq, h.idx_total]
  all_goals
    have hval : ({ r with next := max r.next (pos + 1), held := update r.held pos none } :
        Records).val = update r.val (.inl pos) none := by
      rw [Records.val_eq, Records.val_eq, Sum.update_elim_inl]
  · rw [hent, hval]
    exact h.stamped.update _ fun e' he' => absurd he' (by simp)
  · rw [hent, hval, hjrnl, extent_update]
    exact h.holds.erase

theorem bcIdxClear_records (h : RecordInv bc r) (hs : bcIdxClear bc pos = some (err, bc'))
    (hf : bc'.Fits) : ∃ r', RecordInv bc' r' := by
  unfold bcIdxClear at hs
  dsimp only at hs
  split_ifs at hs
  · cases hs
    exact ⟨r, h⟩
  · obtain ⟨⟨err₁, m⟩, hwr, hs⟩ := bind_eq_some_iff.mp hs
    cases hs
    obtain ⟨-, -, hwrote⟩ := bcMapWrite_spec h.idx_wf hwr hf.idx
    exact h.idxClear hwrote.put rfl rfl

theorem purgeDown_records {pos : UInt32} {fuel : Nat} : ∀ {bc : Bc} {r : Records} {tPos : UInt32},
    RecordInv bc r → purgeDown bc pos tPos fuel = some bc' → bc'.Fits → ∃ r', RecordInv bc' r' := by
  induction fuel with
  | zero =>
    intro bc r tPos h hs _
    cases hs
  | succ fuel ih =>
    intro bc r tPos h hs hf
    rw [purgeDown] at hs
    split_ifs at hs
    · cases hs
      exact ⟨r, h⟩
    obtain ⟨⟨err₁, bc₁⟩, hclear, hs⟩ := bind_eq_some_iff.mp hs
    obtain ⟨⟨err₂, e⟩, -, hs⟩ := bind_eq_some_iff.mp hs
    have hf₂ := (purgeDown_moves hs).fits hf
    -- the reset of a slot changes neither the files nor the records
    have hf₁ : bc₁.Fits := by
      split_ifs at hf₂
      · exact (Move.reset _ _).fits hf₂
      · exact hf₂
    refine ih ((bcClear_records h hclear hf₁).frame ?_) hs hf
    split_ifs <;> exact ⟨rfl, rfl, rfl⟩

theorem bcPurge_records {pos : UInt32} (h : RecordInv bc r) (hs : bcPurge bc pos = some (err, bc'))
    (hf : bc'.Fits) : ∃ r', RecordInv bc' r' := by
  obtain ⟨⟨err₁, e⟩, hget, hs⟩ := bind_eq_some_iff.mp hs
  dsimp only at hs
  rcases bcMapGet_entry hget with ⟨rfl, hent⟩ | ⟨rfl, -⟩
  · obtain ⟨⟨err₂, bc₂⟩, hal, hs⟩ := bind_eq_some_iff.mp hs
    -- the journal of a record has been allocated
    rw [bcAlloc_eq (h.stamped (.inl pos.toNat) e hent).2 (h.jrnl_room _)] at hal
    cases hal
    obtain ⟨⟨err₃, d⟩, -, hs⟩ := bind_eq_some_iff.mp hs
    split_ifs at hs
    · cases hs
      exact ⟨r, h⟩
    · obtain ⟨maxRec, -, hs⟩ := bind_eq_some_iff.mp hs
      split_ifs at hs
      · cases hs
        exact ⟨r, h⟩
      · obtain ⟨bc₄, hloop, hs⟩ := bind_eq_some_iff.mp hs
        cases hs
        exact purgeDown_records h hloop hf
  · cases hs
    exact ⟨r, h⟩

/-! ## Reached stores -/

/-- The calls whose writes are of something, and stay below position `2^26`. -/
def BcOp.BelowIndex : BcOp → Prop
  | .purge _ | .idxClear _ => True
  | op => op.OnRecords

theorem step_reached {op : BcOp} (hop : op.BelowIndex) (h : RecordInv bc r)
    (hs : bc.step op = some (err, bc')) (hf : bc'.Fits) : ∃ r', RecordInv bc' r' := by
  cases op with
  | purge pos => exact bcPurge_records h hs hf
  | idxClear pos => exact bcIdxClear_records h hs hf
  | _ =>
    refine ⟨_, step_records ?_ h hs hf⟩
    exact hop

theorem run_reached {ops : List BcOp} (hops : ∀ op ∈ ops, op.BelowIndex)
    (hrun : Bc.empty.run ops = some bc) (hf : bc.Fits) : ∃ r, RecordInv bc r := by
  have hor : ¬ bc.Fits ∨ ∃ r, RecordInv bc r := by
    refine exec_invariant (P := fun s : Bc => ¬ s.Fits ∨ ∃ r, RecordInv s r) ?_ hops
      (.inr ⟨_, recordInv_empty⟩) hrun
    intro bc₁ op _ hop h hstep
    obtain ⟨⟨err, bc₂⟩, hs, rfl⟩ := map_eq_some_iff.mp hstep
    by_cases hf₂ : bc₂.Fits
    · obtain ⟨r, h⟩ := h.resolve_left (not_not_intro ((step_moves hs).fits hf₂))
      exact .inr (step_reached hop h hs hf₂)
    · exact .inl hf₂
  exact hor.resolve_left (not_not_intro hf)

/-! ## The postcondition -/

/-- What a `bc_write` that returns zero promises. -/
structure Written (bc : Bc) (pos : Nat) (hash : BcHash) (data : BcBuf) : Prop where
  hash_eq : bcGetHash bc pos = some (.ok, some hash)
  data_eq : bcGet bc pos = some (.ok, data.val, bc)
  found : ∃ i, (bcIdxFind bc hash).map (fun x => (x.1, x.2.1)) = some (.ok, some i)

/-- What one that returns an error promises: every position answers as it did. -/
def Unchanged (bc bc' : Bc) : Prop :=
  ∀ p, bcGetHash bc' p = bcGetHash bc p ∧
    (bcGet bc' p).map (fun x => (x.1, x.2.1)) = (bcGet bc p).map (fun x => (x.1, x.2.1))

theorem bcGetHash_eq (hm : bc.idx.Wf) (hent : bc.idx.liveEntry pos = some e) :
    bcGetHash bc pos = some (.ok, some e.hash) := by
  unfold bcGetHash
  rw [bcMapGet_eq hm, hent]
  rfl

theorem bcIdxFind_live (h : LookupOk bc.idx bc.tab) (hf : bc.Fits)
    (hent : bc.idx.liveEntry pos = some e) :
    ∃ i, (bcIdxFind bc e.hash).map (fun x => (x.1, x.2.1)) = some (.ok, some i) := by
  have hinv : LookupInv bc.idx bc.tab := h.resolve_left (by simp [hf.idx])
  obtain ⟨hlt, hsz, hraw⟩ := BcMap.liveEntry_eq_some.mp hent
  have hkey : bc.idx.keys pos = some e.hash := by
    rw [BcMap.keys, hraw, BcIdx.key, if_neg hsz]
  obtain ⟨tab', -, hfind⟩ := bcIdxFind_spec e.hash hinv
  rw [hfind]
  cases hscan : scan bc.idx.keys e.hash bc.idx.total with
  | none => exact absurd hkey (scan_eq_none_iff.mp hscan pos hlt)
  | some i => exact ⟨i, rfl⟩

theorem BcMap.Put.liveEntry_self {m m' : BcMap BcIdx} {j : Nat} (h : m.Put j e m')
    (htail : ∀ i, m.total ≤ i → (m.raw i).size = 0) (hsz : e.size ≠ 0) :
    m'.liveEntry j = some e := by
  rw [h.liveEntry_eq htail, update_self, if_neg hsz]

/-- The entry that an acknowledged write leaves at its position: it has the old hash, where there
    was one. -/
theorem bcWrite_entry (h : RecordInv bc r) (hpos : pos < 2 ^ 26) (hne : data.val ≠ [])
    (hs : bcWrite bc pos hash data = some (.ok, bc')) (hf : bc'.Fits) :
    ∃ e, bc'.idx.liveEntry pos = some e ∧
      e.hash = ((bc.idx.liveEntry pos).map BcIdx.hash).getD hash := by
  have hlen : data.val.length ≠ 0 := fun h0 => hne (List.length_eq_zero_iff.mp h0)
  rcases bcWrite_spec h hs hf with ⟨-, hre⟩ | ⟨-, hfree, m, hput, -⟩
  · rcases bcRewrite_spec h hre hf with ⟨hok, -⟩ | ⟨-, e, m, hent, -, hput, -⟩
    · exact absurd rfl hok
    · refine ⟨_, hput.liveEntry_self h.idx_tail hlen, ?_⟩
      rw [hent]
      rfl
  · rw [entryAt_of_lt hpos] at hput
    refine ⟨_, hput.liveEntry_self h.idx_tail hlen, ?_⟩
    rw [hfree]
    rfl

/-- A position from `2^26` on is lost: the entry goes to another one, and there is none to read. -/
theorem bcWrite_lost (h : RecordInv bc r) (hpos : 2 ^ 26 ≤ pos)
    (hs : bcWrite bc pos hash data = some (err, bc')) (hf : bc'.Fits) :
    err = .ok ∧ ¬ Written bc' pos hash data := by
  have hbehind : ∀ {m : BcMap BcIdx}, m.Wf → m.liveEntry pos = none := by
    intro m hm
    have hlt := hm.total_lt
    exact BcMap.liveEntry_eq_none (.inl (by omega))
  rcases bcWrite_spec h hs hf with ⟨⟨e, hent⟩, -⟩ | ⟨rfl, -, m, hput, -⟩
  · rw [hbehind h.idx_wf] at hent
    cases hent
  · refine ⟨rfl, fun hw => ?_⟩
    have hgot := hw.hash_eq
    rw [bcGetHash, bcMapGet_eq hput.wf, hbehind hput.wf] at hgot
    cases hgot

/-- **The postcondition of `bc_write`.** On a store that calls below position `2^26` lead to, with
    no growth that wraps, a write keeps both promises exactly if its position is below `2^26` as
    well and the record that is overwritten had the hash already: `_bc_rewrite` never changes it.
    Data that is longer than the record at its position is refused, and nothing happens. -/
theorem bcWrite_post_iff {ops : List BcOp} (hops : ∀ op ∈ ops, op.BelowIndex)
    (hrun : Bc.empty.run ops = some bc) (hne : data.val ≠ [])
    (hs : bcWrite bc pos hash data = some (err, bc')) (hf : bc'.Fits) :
    ((err = .ok → Written bc' pos hash data) ∧ (err ≠ .ok → Unchanged bc bc')) ↔
      pos < 2 ^ 26 ∧
        ∀ e, bc.idx.liveEntry pos = some e → data.val.length ≤ e.size → e.hash = hash := by
  obtain ⟨r, h⟩ := run_reached hops hrun ((bcWrite_moves hs).fits hf)
  by_cases hpos : pos < 2 ^ 26
  swap
  · obtain ⟨herr, hlost⟩ := bcWrite_lost h (Nat.not_lt.mp hpos) hs hf
    exact iff_of_false (fun hok => hlost (hok.1 herr)) (fun hcond => hpos hcond.1)
  rw [and_iff_right hpos]
  have hrec := bcWrite_records h hpos hne hs hf
  have hlook : LookupOk bc'.idx bc'.tab := (bcWrite_moves hs).lookup (run_lookup hrun)
  constructor
  · rintro ⟨hok, -⟩ e hent hle
    have herr : err = .ok := by
      rcases bcWrite_spec h hs hf with ⟨-, hre⟩ | ⟨herr, -⟩
      · rcases bcRewrite_spec h hre hf with ⟨-, -, hlong⟩ | ⟨herr, -⟩
        · exact absurd (hlong e hent) (by omega)
        · exact herr
      · exact herr
    subst herr
    obtain ⟨e', hent', hhash⟩ := bcWrite_entry h hpos hne hs hf
    have hgot := (hok rfl).hash_eq
    rw [bcGetHash_eq hrec.idx_wf hent', hhash, hent] at hgot
    simpa using hgot
  · intro hcond
    refine ⟨?_, ?_⟩
    · rintro rfl
      obtain ⟨e', hent', hhash⟩ := bcWrite_entry h hpos hne hs hf
      have heq : e'.hash = hash := by
        rcases bcWrite_spec h hs hf with ⟨⟨e, hent⟩, hre⟩ | ⟨-, hfree, -⟩
        · rcases bcRewrite_spec h hre hf with ⟨hbad, -⟩ | ⟨-, e₁, -, hent₁, hle, -⟩
          · exact absurd rfl hbad
          · rw [hhash, hent₁]
            exact hcond e₁ hent₁ hle
        · rw [hhash, hfree]
          rfl
      refine ⟨?_, ?_, ?_⟩
      · rw [bcGetHash_eq hrec.idx_wf hent', heq]
      · rw [bcGet_eq hrec]
        simp [Records.put]
      · exact heq ▸ bcIdxFind_live hlook hf hent'
    · intro herr p
      rcases bcWrite_spec h hs hf with ⟨-, hre⟩ | ⟨hok, -⟩
      · rcases bcRewrite_spec h hre hf with ⟨-, rfl, -⟩ | ⟨hok, -⟩
        · exact ⟨rfl, rfl⟩
        · exact absurd hok herr
      · exact absurd hok herr

theorem bcWrite_post_fresh : Written oneRecord.1 0 hashSample bufSample := by
  have hs : bcWrite Bc.empty 0 hashSample bufSample = some (.ok, oneRecord.1) := by
    have hok : (bcWrite Bc.empty 0 hashSample bufSample).map Prod.fst = some .ok := by
      decide
    obtain ⟨⟨err, bc⟩, hs, rfl⟩ := map_eq_some_iff.mp hok
    have hnext : bcIdxNext Bc.empty = some 0 := rfl
    rw [hs]
    simp [oneRecord, exec, recordStep, Bc.step, bcAppend, hnext, hs]
  have hnone : ∀ op ∈ ([] : List BcOp), op.BelowIndex := by simp
  have hpost := (bcWrite_post_iff hnone rfl (by decide) hs oneRecord_fits).mpr
    ⟨by decide, fun e he => absurd he (by simp [Bc.empty, liveEntry_fresh])⟩
  exact hpost.1 rfl

/-- The store with one record, after a write of the same data under another hash. -/
def rehashed : Bc := ((bcWrite oneRecord.1 0 hashCut bufSample).map Prod.snd).getD Bc.empty

/-- **A rewrite keeps the hash**: the write of `hashCut` over the one record returns zero, the
    record has its old hash, and `bc_find` knows none with the new one. -/
theorem rewrite_keeps_hash :
    Bc.empty.run [.append hashSample bufSample] = some oneRecord.1 ∧
      bcWrite oneRecord.1 0 hashCut bufSample = some (.ok, rehashed) ∧
      bcGetHash rehashed 0 = some (.ok, some hashSample) ∧
      (bcIdxFind rehashed hashCut).map (fun x => (x.1, x.2.1)) = some (.noent, none) := by
  refine ⟨rfl, ?_, by decide, by decide⟩
  have hok : (bcWrite oneRecord.1 0 hashCut bufSample).map Prod.fst = some .ok := by
    decide
  obtain ⟨⟨err, bc⟩, hs, rfl⟩ := map_eq_some_iff.mp hok
  rw [rehashed, hs]
  rfl

end ShareCoin.Blockchain
