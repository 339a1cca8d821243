import ShareCoin.Proof.Wire.Merkle
import ShareCoin.Wire.Base58
import Mathlib.Data.List.TakeWhile

/-!
# A text in base 58 reads back

Both directions of the conversion go through one number, and Mathlib knows the digits of a number:
they are unique once the highest is not zero. So a byte string is its zeros in front and the rest,
and the text is as many `1`s and the digits of the number of the rest.
-/

namespace ShareCoin.Wire

open Lib Server List Option

/-! ## Bytes as digits -/

theorem leValue_eq (bytes : List UInt8) :
    Codec.leValue bytes = Nat.ofDigits 256 (bytes.map UInt8.toNat) := by
  induction bytes with
  | nil => rfl
  | cons b bytes ih => rw [Codec.leValue, ih, map_cons, Nat.ofDigits_cons]

theorem leValue_reverse (vch : List UInt8) :
    Codec.leValue vch.reverse = Radix.value 256 (vch.map UInt8.toNat) := by
  rw [leValue_eq, map_reverse, Radix.value]

theorem bytes_lt (vch : List UInt8) : ∀ x ∈ vch.map UInt8.toNat, x < 256 := by
  intro x hx
  obtain ⟨b, -, rfl⟩ := List.mem_map.mp hx
  exact b.toNat_lt

theorem map_ofNat_toNat (vch : List UInt8) : (vch.map UInt8.toNat).map UInt8.ofNat = vch := by
  rw [List.map_map]
  exact map_id'' (fun b => UInt8.ofNat_toNat) vch

theorem magnitude_eq (fuel n : Nat) :
    magnitude fuel n = (Radix.toDigits 256 fuel n).map UInt8.ofNat := by
  induction fuel generalizing n with
  | zero => rfl
  | succ fuel ih =>
    rw [magnitude, Radix.toDigits]
    split_ifs with hn
    · rfl
    · have hbyte : UInt8.ofNat n = UInt8.ofNat (n % 256) := by
        apply UInt8.toNat_inj.mp
        simp
      rw [map_cons, ← ih, hbyte]

theorem magnitude_getLast {n : Nat} {b : UInt8} (h : (magnitude n n).getLast? = some b) :
    b ≠ 0 := by
  rintro rfl
  rw [magnitude_eq, Radix.toDigits_eq (by decide) (Nat.le_refl n), getLast?_map] at h
  obtain ⟨d, hd, hzero⟩ := map_eq_some_iff.mp h
  have hlt : d < 256 := Nat.digits_lt_base (by decide) (mem_of_getLast? hd)
  have hd0 : d = 0 := by
    have := congrArg UInt8.toNat hzero
    rw [UInt8.toNat_ofNat', Nat.mod_eq_of_lt hlt] at this
    exact this
  rw [hd0] at hd
  exact Radix.getLast?_digits 256 n hd

theorem trimSign_vchOfNum (n : Nat) : trimSign (vchOfNum n) = magnitude n n := by
  have hnat : ((n : Int)).natAbs = n := Int.natAbs_natCast n
  have hsign : ¬ ((n : Int) < 0) := Int.not_lt.mpr (Int.natCast_nonneg n)
  simp only [vchOfNum, hnat]
  cases hlast : (magnitude n n).getLast? with
  | none =>
    rw [getLast?_eq_none_iff.mp hlast]
    rfl
  | some b =>
    obtain ⟨front, hfront⟩ := getLast?_eq_some_iff.mp hlast
    have hb := magnitude_getLast hlast
    dsimp only
    rw [hfront, if_neg hsign, if_neg hsign]
    split_ifs with hhigh
    · simp [trimSign, hhigh]
    · -- the last byte is not zero, so there is no sign byte
      unfold trimSign
      rw [reverse_append, reverse_singleton, singleton_append]
      split
      · rename_i heq
        exact absurd (List.cons.inj heq).1 hb
      · rfl

/-! ## The alphabet -/

theorem idxOf_pszBase58 : ∀ d < 58, pszBase58.idxOf? (pszBase58.getD d 0) = some d := by
  decide +kernel

theorem pszBase58_ne_zero : ∀ d < 58, pszBase58.getD d 0 ≠ 0 := by
  decide

theorem isspace_pszBase58 : ∀ d < 58, isspace (pszBase58.getD d 0) = false := by
  decide

/-- The text of some digits, the highest first. -/
def digitText (l : List Nat) : List UInt8 := l.map fun c => pszBase58.getD c 0

theorem digitText_eq_first {d : Nat} (hd : d < 58)
    (h : pszBase58.getD d 0 = pszBase58.getD 0 0) : d = 0 := by
  have := idxOf_pszBase58 d hd
  rw [h, idxOf_pszBase58 0 (by decide)] at this
  exact (some.inj this).symm

variable {l : List Nat}

theorem readBase58_digitText (hl : ∀ d ∈ l, d < 58) (bn : Nat) :
    readBase58 (digitText l) bn = some (bn * 58 ^ l.length + Radix.value 58 l) := by
  induction l generalizing bn with
  | nil => simp [digitText, readBase58]
  | cons d l ih =>
    rw [digitText, map_cons, readBase58, idxOf_pszBase58 d (hl d mem_cons_self)]
    show readBase58 (digitText l) (bn * 58 + d) = _
    rw [ih (forall_mem_cons.mp hl).2, Radix.value_cons, length_cons, Nat.pow_succ']
    congr 1
    ring

theorem dropWhile_digitText (hl : ∀ d ∈ l, d < 58) :
    (digitText l).dropWhile isspace = digitText l := by
  cases l with
  | nil => rfl
  | cons d l =>
    have hd := isspace_pszBase58 d (hl d mem_cons_self)
    rw [digitText, map_cons, dropWhile_cons, hd]
    rfl

/-- **What is read is the text of some digits**, if there is no space in it. -/
theorem readBase58_eq_some {s : List UInt8} (hspace : ∀ c ∈ s, isspace c = false) {bn n : Nat}
    (h : readBase58 s bn = some n) : ∃ l, s = digitText l ∧ ∀ d ∈ l, d < 58 := by
  induction s generalizing bn with
  | nil => exact ⟨[], rfl, by simp⟩
  | cons c s ih =>
    rw [readBase58] at h
    cases hd : pszBase58.idxOf? c with
    | none =>
      rw [hd, dropWhile_cons, hspace c mem_cons_self] at h
      cases h
    | some d =>
      rw [hd] at h
      obtain ⟨l, rfl, hl⟩ := ih (forall_mem_cons.mp hspace).2 h
      obtain ⟨hlt, hc, -⟩ := findIdx?_eq_some_iff_getElem.mp hd
      refine ⟨d :: l, ?_, forall_mem_cons.mpr ⟨hlt, hl⟩⟩
      rw [digitText, digitText, map_cons, getD_eq_getElem _ _ hlt, beq_iff_eq.mp hc]

/-! ## Zeros in front -/

section

variable {β : Type} [DecidableEq β] {x : β}

theorem takeWhile_zeros (z : Nat) {rest : List β} (hhead : rest.head? ≠ some x) :
    (List.replicate z x ++ rest).takeWhile (· == x) = List.replicate z x := by
  cases rest with
  | nil => simp
  | cons y rest =>
    have hy : y ≠ x := by simpa using hhead
    simp [hy]

theorem split_zeros (x : β) (l : List β) :
    ∃ z rest, l = List.replicate z x ++ rest ∧ rest.head? ≠ some x := by
  induction l with
  | nil => exact ⟨0, [], rfl, by simp⟩
  | cons y l ih =>
    by_cases hy : y = x
    · obtain ⟨z, rest, rfl, hhead⟩ := ih
      exact ⟨z + 1, rest, by rw [hy, replicate_succ, cons_append], hhead⟩
    · exact ⟨0, y :: l, rfl, by simpa using hy⟩

end

theorem takeWhile_digitText {z : Nat} (hl : ∀ d ∈ l, d < 58) (hhead : l.head? ≠ some 0) :
    ((digitText (List.replicate z 0 ++ l)).takeWhile (· == pszBase58.getD 0 0)).length = z := by
  rw [digitText, map_append, map_replicate, takeWhile_zeros, length_replicate]
  intro h
  rw [head?_map] at h
  obtain ⟨d, hd, hfirst⟩ := map_eq_some_iff.mp h
  rw [digitText_eq_first (hl d (mem_of_head? hd)) hfirst] at hd
  exact hhead hd

/-! ## Reading back -/

theorem encodeBase58_eq {z : Nat} {rest : List UInt8} (hhead : rest.head? ≠ some 0) :
    encodeBase58 (List.replicate z 0 ++ rest) = digitText (List.replicate z 0 ++
      (Nat.digits 58 (Radix.value 256 (rest.map UInt8.toNat))).reverse) := by
  have hvalue : Codec.leValue (List.replicate z 0 ++ rest).reverse =
      Radix.value 256 (rest.map UInt8.toNat) := by
    rw [leValue_reverse, map_append, map_replicate]
    exact Radix.value_replicate_zero 256 z _
  rw [encodeBase58, hvalue, takeWhile_zeros z hhead, Radix.toDigits_eq (by decide) (Nat.le_refl _)]
  simp [digitText]

theorem digitText_digits (z n : Nat) :
    ∀ d ∈ List.replicate z 0 ++ (Nat.digits 58 n).reverse, d < 58 := by
  intro d hd
  rcases mem_append.mp hd with hd | hd
  · rw [eq_of_mem_replicate hd]
    decide
  · exact Nat.digits_lt_base (by decide) (mem_reverse.mp hd)

/-- **A text in base 58 reads back.** -/
theorem decodeBase58_encodeBase58 (vch : List UInt8) :
    decodeBase58 (encodeBase58 vch) = some vch := by
  obtain ⟨z, rest, rfl, hhead⟩ := split_zeros 0 vch
  rw [encodeBase58_eq hhead]
  generalize hn : Radix.value 256 (rest.map UInt8.toNat) = n
  have hdigits : ∀ d ∈ (Nat.digits 58 n).reverse, d < 58 :=
    fun d hd => Nat.digits_lt_base (by decide) (mem_reverse.mp hd)
  have hall := digitText_digits z n
  have hfirst : (Nat.digits 58 n).reverse.head? ≠ some 0 := by
    rw [head?_reverse]
    exact Radix.getLast?_digits 58 n
  rw [decodeBase58, dropWhile_digitText hall, readBase58_digitText hall,
    Radix.value_replicate_zero, Radix.value_digits, Nat.zero_mul, Nat.zero_add, map_some,
    takeWhile_digitText hdigits hfirst, trimSign_vchOfNum, magnitude_eq,
    Radix.toDigits_eq (by decide) (Nat.le_refl n), ← map_reverse, ← hn,
    Radix.digits_value (by decide) (bytes_lt rest), map_ofNat_toNat]
  intro h
  rw [head?_map] at h
  obtain ⟨b, hb, hzero⟩ := map_eq_some_iff.mp h
  have hb0 : b = 0 := UInt8.toNat_inj.mp hzero
  rw [hb0] at hb
  exact hhead hb

theorem leValue_magnitude {k n : Nat} (h : n ≤ k) : Codec.leValue (magnitude k n) = n := by
  induction k generalizing n with
  | zero => rw [Nat.le_zero.mp h, magnitude, Codec.leValue]
  | succ k ih =>
    rw [magnitude]
    split_ifs with hn
    · rw [hn, Codec.leValue]
    · rw [Codec.leValue, ih (by omega), UInt8.toNat_ofNat']
      omega

/-- A number has one text with no `1` in front, and as many `1`s as zeros are put there. -/
theorem encodeBase58_magnitude (z : Nat) (hl : ∀ d ∈ l, d < 58) (hhead : l.head? ≠ some 0) :
    ∃ v, encodeBase58 v = digitText (List.replicate z 0 ++ l) := by
  refine ⟨List.replicate z 0 ++ (magnitude (Radix.value 58 l) (Radix.value 58 l)).reverse, ?_⟩
  rw [encodeBase58_eq, ← leValue_reverse, reverse_reverse, leValue_magnitude (Nat.le_refl _),
    Radix.digits_value (by decide) hl hhead]
  rw [head?_reverse]
  exact fun h => magnitude_getLast h rfl

/-- **Base 58 is a bijection**, apart from the white space that the reader passes over. -/
theorem base58_bijective (v s : List UInt8) : decodeBase58 (encodeBase58 v) = some v ∧
    ((∀ c ∈ s, isspace c = false) → decodeBase58 s = some v → encodeBase58 v = s) := by
  refine ⟨decodeBase58_encodeBase58 v, fun hspace h => ?_⟩
  have hread := h
  rw [decodeBase58, dropWhile_eq_self_iff.mpr (by simpa using fun hl => hspace _ (getElem_mem hl))]
    at hread
  obtain ⟨n, hn, -⟩ := map_eq_some_iff.mp hread
  obtain ⟨l, rfl, hl⟩ := readBase58_eq_some hspace hn
  obtain ⟨z, rest, rfl, hhead⟩ := split_zeros 0 l
  obtain ⟨w, hw⟩ := encodeBase58_magnitude z (fun d hd => hl d (mem_append_right _ hd)) hhead
  rw [← hw, decodeBase58_encodeBase58] at h
  rw [← some.inj h, hw]

theorem base58_bijective_of_one_zero :
    decodeBase58 (ascii "12g") = some [0, 0x61] ∧ encodeBase58 [0, 0x61] = ascii "12g" := by
  have h : decodeBase58 (ascii "12g") = some [0, 0x61] := rfl
  exact ⟨h, (base58_bijective [0, 0x61] (ascii "12g")).2 (by decide +kernel) h⟩

/-- **A text with its check reads back.** -/
theorem decodeBase58Check_encodeBase58Check (sha256 : List UInt8 → Uint256) (vch : List UInt8) :
    decodeBase58Check sha256 (encodeBase58Check sha256 vch) = some vch := by
  have hlen : ((rawBytes (sha256d sha256 vch)).take 4).length = 4 := by
    rfl
  rw [decodeBase58Check, encodeBase58Check, decodeBase58_encodeBase58, bind_some]
  have hlong : ¬ (vch ++ (rawBytes (sha256d sha256 vch)).take 4).length < 4 := by
    rw [length_append, hlen]
    omega
  have hsub : (vch ++ (rawBytes (sha256d sha256 vch)).take 4).length - 4 = vch.length := by
    rw [length_append, hlen, Nat.add_sub_cancel]
  simp only [hlong, hsub, take_left, drop_left, if_true, if_false]

theorem cstr_digitText (hl : ∀ d ∈ l, d < 58) : cstr (digitText l) = digitText l := by
  rw [cstr, takeWhile_eq_self_iff]
  intro c hc
  obtain ⟨d, hd, rfl⟩ := List.mem_map.mp hc
  exact bne_iff_ne.mpr (pszBase58_ne_zero d (hl d hd))

theorem cstr_encodeBase58 (vch : List UInt8) : cstr (encodeBase58 vch) = encodeBase58 vch := by
  obtain ⟨z, rest, rfl, hhead⟩ := split_zeros 0 vch
  rw [encodeBase58_eq hhead]
  exact cstr_digitText (digitText_digits z _)

end ShareCoin.Wire
