import ShareCoin.Wire.Bech32

/-!
# A text with a checksum of polynomials reads back

`PolyMod` adds the symbol and multiplies by `x`, and both are linear in the 30 bits of the remainder
(`lin_xor`). So what the last six symbols contribute does not depend on what stands before them
(`foldl_polyStep`), and as they have five bits each they contribute themselves
(`foldl_checksum`): the symbols that `CreateChecksum` appends are the difference that was missing.
-/

namespace ShareCoin.Wire.Bech32

open List Function

/-! ## `PolyMod` is linear -/

/-- A constant that is added where a bit is set. -/
def select (b : Bool) (k : BitVec 32) : BitVec 32 := if b then k else 0#32

theorem select_xor (a b : Bool) (k : BitVec 32) :
    select (a ^^ b) k = select a k ^^^ select b k := by
  cases a <;> cases b <;> simp [select]

theorem xor_select (b : Bool) (c k : BitVec 32) :
    (if b then c ^^^ k else c) = c ^^^ select b k := by
  cases b <;> simp [select]

def lin (c : BitVec 32) : BitVec 32 :=
  ((c &&& 0x1ffffff#32) <<< 5) ^^^ (select (c.getLsbD 25) 0x3b6a57b2#32 ^^^
    (select (c.getLsbD 26) 0x26508e6d#32 ^^^ (select (c.getLsbD 27) 0x1ea119fa#32 ^^^
      (select (c.getLsbD 28) 0x3d4233dd#32 ^^^ select (c.getLsbD 29) 0x2a1462b3#32))))

theorem xor_and (a b m : BitVec 32) : (a ^^^ b) &&& m = (a &&& m) ^^^ (b &&& m) := by
  apply BitVec.eq_of_getLsbD_eq
  intro k _
  simp only [BitVec.getLsbD_and, BitVec.getLsbD_xor]
  exact Bool.and_xor_distrib_right _ _ _

theorem lin_xor (a b : BitVec 32) : lin (a ^^^ b) = lin a ^^^ lin b := by
  simp only [lin, BitVec.getLsbD_xor, select_xor, xor_and, BitVec.shiftLeft_xor_distrib]
  ac_rfl

theorem lin_zero : lin 0#32 = 0#32 := by decide

theorem polyStep_eq (c : BitVec 32) (v : UInt8) :
    polyStep c v = lin c ^^^ v.toBitVec.setWidth 32 := by
  have hbit : ∀ k < 7, ((c >>> 25).setWidth 8).getLsbD k = c.getLsbD (25 + k) := by
    intro k hk
    simp [Nat.lt_succ_of_lt hk]
  simp only [polyStep, xor_select, hbit 0 (by decide), hbit 1 (by decide), hbit 2 (by decide),
    hbit 3 (by decide), hbit 4 (by decide), lin]
  ac_rfl

theorem iterate_lin_xor (n : Nat) (a b : BitVec 32) :
    lin^[n] (a ^^^ b) = lin^[n] a ^^^ lin^[n] b := by
  induction n generalizing a b with
  | zero => rfl
  | succ n ih => rw [iterate_succ_apply, lin_xor, ih]; rfl

/-- **What some symbols contribute does not depend on what stands before them.** -/
theorem foldl_polyStep (vs : List UInt8) (c : BitVec 32) :
    vs.foldl polyStep c = lin^[vs.length] c ^^^ vs.foldl polyStep 0#32 := by
  induction vs generalizing c with
  | nil => simp
  | cons v vs ih =>
    rw [foldl_cons, foldl_cons, ih (polyStep c v), ih (polyStep 0#32 v),
      polyStep_eq c, polyStep_eq 0#32, lin_zero, BitVec.zero_xor, iterate_lin_xor, length_cons,
      iterate_succ_apply, BitVec.xor_assoc]

theorem foldl_replicate_zero (n : Nat) : (List.replicate n 0).foldl polyStep 0#32 = 0#32 := by
  induction n with
  | zero => rfl
  | succ n ih =>
    exact ih

/-! ## Small remainders -/

def Below (n : Nat) (c : BitVec 32) : Prop := ∀ k, n ≤ k → c.getLsbD k = false

theorem Below.xor {n : Nat} {a b : BitVec 32} (ha : Below n a) (hb : Below n b) :
    Below n (a ^^^ b) := by
  intro k hk
  rw [BitVec.getLsbD_xor, ha k hk, hb k hk]
  rfl

theorem Below.select {n : Nat} {k : BitVec 32} (hk : Below n k) (b : Bool) :
    Below n (select b k) := by
  cases b with
  | true => exact hk
  | false => exact fun _ _ => by simp [Bech32.select]

theorem below_thirty {c : BitVec 32} (h : c.getLsbD 30 = false ∧ c.getLsbD 31 = false) :
    Below 30 c := by
  intro k hk
  rcases Nat.lt_or_ge k 32 with hlt | hge
  · obtain rfl | rfl : k = 30 ∨ k = 31 := by omega
    · exact h.1
    · exact h.2
  · exact BitVec.getLsbD_of_ge c k hge

theorem below_polyStep (c : BitVec 32) (v : UInt8) : Below 30 (polyStep c v) := by
  rw [polyStep_eq]
  refine Below.xor (Below.xor ?_ ?_) ?_
  · apply below_thirty
    simp
  · exact (Below.select (below_thirty (by decide)) _).xor
      ((Below.select (below_thirty (by decide)) _).xor
        ((Below.select (below_thirty (by decide)) _).xor
          ((Below.select (below_thirty (by decide)) _).xor
            (Below.select (below_thirty (by decide)) _))))
  · intro k hk
    rw [BitVec.getLsbD_setWidth, BitVec.getLsbD_of_ge v.toBitVec k (by omega)]
    exact Bool.and_false _

theorem lin_below {c : BitVec 32} (h : Below 25 c) : lin c = c <<< 5 := by
  have hmask : c &&& 0x1ffffff#32 = c := by
    apply BitVec.eq_of_getLsbD_eq
    intro k hk
    rw [BitVec.getLsbD_and]
    rcases Nat.lt_or_ge k 25 with hlt | hge
    · have : ∀ k < 25, (0x1ffffff#32).getLsbD k = true := by decide
      rw [this k hlt, Bool.and_true]
    · rw [h k hge, Bool.false_and]
  simp only [lin, hmask, h 25 (by decide), h 26 (by decide), h 27 (by decide), h 28 (by decide),
    h 29 (by decide), select, Bool.false_eq_true, if_false, BitVec.xor_zero]

/-! ## The checksum -/

theorem polyStep_shift {x : BitVec 32} (h : Below 30 x) :
    polyStep (x >>> 5) (UInt8.ofNat (x &&& 31).toNat) = x := by
  have hshift : Below 25 (x >>> 5) := by
    intro k hk
    rw [BitVec.getLsbD_ushiftRight]
    exact h (5 + k) (by omega)
  have hsymbol : (UInt8.ofNat (x &&& 31).toNat).toBitVec.setWidth 32 = x &&& 31 := by
    apply BitVec.eq_of_toNat_eq
    have hlt : (x &&& 31).toNat < 256 := by
      exact Nat.lt_of_le_of_lt Nat.and_le_right (by decide)
    simp only [BitVec.toNat_setWidth, UInt8.toNat_toBitVec, UInt8.toNat_ofNat']
    rw [Nat.mod_eq_of_lt hlt, Nat.mod_eq_of_lt (Nat.lt_of_lt_of_le hlt (by decide))]
  rw [polyStep_eq, lin_below hshift, hsymbol]
  apply BitVec.eq_of_getLsbD_eq
  intro k hk
  simp only [BitVec.getLsbD_xor, BitVec.getLsbD_shiftLeft, BitVec.getLsbD_ushiftRight,
    BitVec.getLsbD_and]
  -- the low five bits come from the symbol, the others from the shift
  rcases Nat.lt_or_ge k 5 with hlt | hge
  · have hones : ∀ k < 5, (31 : BitVec 32).getLsbD k = true := by decide
    simp only [hlt, decide_true, Bool.not_true, Bool.and_false, Bool.false_and, hones k hlt,
      Bool.and_true, Bool.false_xor]
  · have hzeros : ∀ k < 32, 5 ≤ k → (31 : BitVec 32).getLsbD k = false := by decide
    simp only [hk, Nat.not_lt.mpr hge, decide_true, decide_false, Bool.not_false, Bool.true_and,
      hzeros k hk hge, Bool.and_false, Bool.xor_false, Nat.add_sub_cancel' hge]

theorem below_ushiftRight {n : Nat} {x : BitVec 32} (h : Below n x) (k : Nat) :
    Below n (x >>> k) := by
  intro i hi
  rw [BitVec.getLsbD_ushiftRight]
  exact h (k + i) (by omega)

/-- **Six symbols contribute the number that they are the digits of.** -/
theorem foldl_checksum {mod : BitVec 32} (h : Below 30 mod) :
    ((List.range 6).map (checksumSymbol mod)).foldl polyStep 0#32 = mod := by
  have hstep : ∀ k, polyStep (mod >>> (k + 5)) (UInt8.ofNat ((mod >>> k) &&& 31).toNat) =
      mod >>> k := by
    intro k
    rw [BitVec.shiftRight_add]
    exact polyStep_shift (below_ushiftRight h k)
  have hzero : mod >>> 30 = 0#32 := by
    apply BitVec.eq_of_getLsbD_eq
    intro k _
    rw [BitVec.getLsbD_ushiftRight, h (30 + k) (by omega), BitVec.getLsbD_zero]
  have h0 : polyStep (mod >>> 30) (checksumSymbol mod 0) = mod >>> 25 := hstep 25
  have h1 : polyStep (mod >>> 25) (checksumSymbol mod 1) = mod >>> 20 := hstep 20
  have h2 : polyStep (mod >>> 20) (checksumSymbol mod 2) = mod >>> 15 := hstep 15
  have h3 : polyStep (mod >>> 15) (checksumSymbol mod 3) = mod >>> 10 := hstep 10
  have h4 : polyStep (mod >>> 10) (checksumSymbol mod 4) = mod >>> 5 := hstep 5
  have h5 : polyStep (mod >>> 5) (checksumSymbol mod 5) = mod :=
    (hstep 0).trans (BitVec.ushiftRight_zero mod)
  show polyStep (polyStep (polyStep (polyStep (polyStep (polyStep 0#32
    (checksumSymbol mod 0)) (checksumSymbol mod 1)) (checksumSymbol mod 2))
    (checksumSymbol mod 3)) (checksumSymbol mod 4)) (checksumSymbol mod 5) = mod
  rw [← hzero, h0, h1, h2, h3, h4, h5]

/-- **The symbols that are appended verify.** -/
theorem verifyChecksum_createChecksum (hrp values : List UInt8) :
    verifyChecksum hrp (values ++ createChecksum hrp values) = true := by
  generalize hc : polyMod (expandHRP hrp ++ values) = c
  have hzeros : polyMod (expandHRP hrp ++ values ++ List.replicate 6 0) = lin^[6] c := by
    rw [polyMod, foldl_append, ← polyMod, hc, foldl_polyStep, foldl_replicate_zero,
      BitVec.xor_zero, length_replicate]
  have hbelow : Below 30 (lin^[6] c) := by
    have hlast : lin^[6] c = polyStep (lin^[5] c) 0 := by
      rw [iterate_succ_apply', polyStep_eq]
      exact BitVec.xor_zero.symm
    rw [hlast]
    exact below_polyStep _ _
  have hmod : Below 30 (lin^[6] c ^^^ 1) := hbelow.xor (below_thirty (by decide))
  have hlen : (createChecksum hrp values).length = 6 := by simp [createChecksum]
  have hfold : (createChecksum hrp values).foldl polyStep 0#32 = lin^[6] c ^^^ 1 := by
    rw [createChecksum, hzeros]
    exact foldl_checksum hmod
  rw [verifyChecksum, ← append_assoc, polyMod, foldl_append, ← polyMod, hc,
    foldl_polyStep, hlen, hfold, ← BitVec.xor_assoc, BitVec.xor_self, BitVec.zero_xor]
  rfl

/-! ## Texts -/

/-- A character that can be printed and is no capital letter. -/
def Plain (c : UInt8) : Prop := ¬ c < 33 ∧ ¬ 126 < c ∧ ¬ (65 ≤ c ∧ c ≤ 90)

instance (c : UInt8) : Decidable (Plain c) := inferInstanceAs (Decidable (_ ∧ _))

theorem charset_spec : ∀ d < 32, Plain (charset.getD d 0) ∧ charset.getD d 0 ≠ separator ∧
    symbol (charset.getD d 0) = some (UInt8.ofNat d) := by
  decide

theorem idxOf_append {α : Type} [BEq α] [LawfulBEq α] {x : α} {l : List α} (h : x ∉ l)
    (l' : List α) : (l ++ x :: l').idxOf? x = some l.length := by
  have hnone : l.findIdx? (· == x) = none :=
    findIdx?_eq_none_iff.mpr fun y hy => beq_false_of_ne (ne_of_mem_of_not_mem hy h)
  rw [List.idxOf?, findIdx?_append, hnone]
  simp [findIdx?_cons]

theorem rfind_append {hrp data : List UInt8} (h : separator ∉ data) :
    rfind (hrp ++ [separator] ++ data) = some hrp.length := by
  have hrev : (hrp ++ [separator] ++ data).reverse =
      data.reverse ++ separator :: hrp.reverse := by simp
  rw [rfind, hrev, idxOf_append (by simpa using h), Option.map_some]
  simp

theorem mapM_symbol {values : List UInt8} (h : ∀ v ∈ values, v < 32) :
    (values.map fun c => charset.getD c.toNat 0).mapM symbol = some values := by
  induction values with
  | nil => rfl
  | cons v values ih =>
    have hv := (charset_spec v.toNat (h v mem_cons_self)).2.2
    rw [UInt8.ofNat_toNat] at hv
    rw [map_cons, mapM_cons, hv, ih (forall_mem_cons.mp h).2]
    rfl

theorem createChecksum_lt (hrp values : List UInt8) : ∀ v ∈ createChecksum hrp values, v < 32 := by
  intro v hv
  obtain ⟨i, -, rfl⟩ := mem_map.mp hv
  refine Nat.lt_of_le_of_lt (Nat.mod_le _ _) (Nat.lt_of_le_of_lt Nat.and_le_right (by decide))

theorem lowerCase_plain {c : UInt8} (h : Plain c) : lowerCase c = c := if_neg h.2.2

theorem encode_plain {hrp values : List UInt8} (hhrp : ∀ c ∈ hrp, Plain c)
    (hvalues : ∀ v ∈ values, v < 32) : ∀ c ∈ encode hrp values, Plain c := by
  intro c hc
  rw [encode, mem_append, mem_append, mem_singleton] at hc
  rcases hc with (hc | rfl) | hc
  · exact hhrp c hc
  · decide
  · obtain ⟨v, hv, rfl⟩ := mem_map.mp hc
    rcases mem_append.mp hv with hv | hv
    · exact (charset_spec v.toNat (hvalues v hv)).1
    · exact (charset_spec v.toNat (createChecksum_lt hrp values v hv)).1

/-- **A text reads back.** -/
theorem decode_encode {hrp values : List UInt8} (hne : hrp ≠ []) (hhrp : ∀ c ∈ hrp, Plain c)
    (hvalues : ∀ v ∈ values, v < 32) (hlen : hrp.length + values.length + 7 ≤ 90) :
    decode (encode hrp values) = (hrp, values) := by
  have hplain := encode_plain hhrp hvalues
  have hrange : (encode hrp values).any (fun c => decide (c < 33) || decide (126 < c)) = false := by
    rw [any_eq_false]
    intro c hc
    simp [(hplain c hc).1, (hplain c hc).2.1]
  have hupper : (encode hrp values).any (fun c => decide (65 ≤ c) && decide (c ≤ 90)) = false := by
    rw [any_eq_false]
    intro c hc
    simpa using (hplain c hc).2.2
  have hsymbols : ∀ v ∈ values ++ createChecksum hrp values, v < 32 := by
    intro v hv
    rcases mem_append.mp hv with hv | hv
    · exact hvalues v hv
    · exact createChecksum_lt hrp values v hv
  have hsep : separator ∉
      (values ++ createChecksum hrp values).map (fun c => charset.getD c.toNat 0) := by
    intro hmem
    obtain ⟨v, hv, heq⟩ := mem_map.mp hmem
    exact (charset_spec v.toNat (hsymbols v hv)).2.1 heq
  have hrfind : rfind (encode hrp values) = some hrp.length := rfind_append hsep
  have hcs : (createChecksum hrp values).length = 6 := by simp [createChecksum]
  have hsize : (encode hrp values).length = hrp.length + values.length + 7 := by
    simp only [encode, length_append, length_map, length_singleton, hcs]
    omega
  have hbounds : ¬ (90 < (encode hrp values).length ∨ hrp.length = 0 ∨
      (encode hrp values).length < hrp.length + 7) := by
    have := length_pos_of_ne_nil hne
    omega
  have hdrop : (encode hrp values).drop (hrp.length + 1) =
      (values ++ createChecksum hrp values).map (fun c => charset.getD c.toNat 0) := by
    exact drop_left' (by simp)
  have htake : (encode hrp values).take hrp.length = hrp := by
    rw [encode, append_assoc]
    exact take_left' rfl
  have hlower : hrp.map lowerCase = hrp :=
    (map_congr_left fun c hc => lowerCase_plain (hhrp c hc)).trans (map_id _)
  rw [decode, hrange, hupper, Bool.and_false, hrfind]
  simp only [Bool.false_eq_true, if_false, hbounds, hdrop, mapM_symbol hsymbols, htake, hlower,
    verifyChecksum_createChecksum, if_true]
  rw [length_append, hcs, Nat.add_sub_cancel, take_left]

end ShareCoin.Wire.Bech32
