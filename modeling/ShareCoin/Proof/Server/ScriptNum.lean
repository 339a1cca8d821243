import ShareCoin.Proof.Wire.Base58
import ShareCoin.Server.Interpreter

/-!
# `CScriptNum` — numbers on the stack

A string that is not empty is a magnitude and, in the highest bit, a sign (`signed`). Twice the
magnitude of a minimal one needs all of its bytes, so its length is that of the number.
-/

namespace ShareCoin.Server

open Lib Wire List

/-- The highest byte with the sign. -/
def signed (s : Bool) (b : UInt8) : UInt8 := if s then b ||| 0x80 else b

theorem forall_byte {P : UInt8 → Prop} (h : ∀ x : BitVec 8, P ⟨x⟩) (b : UInt8) : P b :=
  h b.toBitVec

theorem signed_spec : ∀ b : UInt8, b < 0x80 → ∀ s, (signed s b < 0x80 ↔ s = false) ∧
    signed s b &&& 0x7f = b ∧ (signed s b).toNat = b.toNat + if s then 0x80 else 0 :=
  forall_byte (by decide)

theorem exists_signed : ∀ c : UInt8, c &&& 0x7f < 0x80 ∧ c = signed (0x80 ≤ c) (c &&& 0x7f) :=
  forall_byte (by decide)

theorem eq_nil_or_signed (vch : List UInt8) :
    vch = [] ∨ ∃ front b s, b < 0x80 ∧ vch = front ++ [signed s b] := by
  rcases eq_nil_or_concat' vch with rfl | ⟨front, c, rfl⟩
  · exact .inl rfl
  · obtain ⟨hlow, hc⟩ := exists_signed c
    exact .inr ⟨front, _, _, hlow, by rw [← hc]⟩

theorem leValue_lt (bytes : List UInt8) : Codec.leValue bytes < 256 ^ bytes.length := by
  have hlt := Nat.ofDigits_lt_base_pow_length (by decide) (bytes_lt bytes)
  rwa [← leValue_eq, length_map] at hlt

theorem leValue_concat (front : List UInt8) (b : UInt8) :
    Codec.leValue (front ++ [b]) = Codec.leValue front + 256 ^ front.length * b.toNat := by
  rw [leValue_eq, map_append, Nat.ofDigits_append, ← leValue_eq, length_map]
  simp

section

variable {front : List UInt8} {b : UInt8} (hb : b < 0x80) (s : Bool)
include hb

theorem numOfVch_signed : numOfVch (front ++ [signed s b]) =
    if s then -(Codec.leValue (front ++ [b]) : Int) else Codec.leValue (front ++ [b]) := by
  obtain ⟨hlow, -, hval⟩ := signed_spec b hb s
  rw [numOfVch, getLast?_concat]
  cases s with
  | false => simp [signed, hb]
  | true =>
    have hlen : (front ++ [signed true b]).length - 1 = front.length := by simp
    dsimp only
    rw [if_neg (by simpa using hlow), if_pos rfl, leValue_concat, leValue_concat, hval, hlen,
      if_pos rfl, Nat.mul_add, ← Nat.add_assoc, Nat.mul_comm 0x80, Nat.add_sub_cancel]

theorem natAbs_signed :
    (numOfVch (front ++ [signed s b])).natAbs = Codec.leValue (front ++ [b]) := by
  rw [numOfVch_signed hb]
  cases s <;> simp

theorem isMinimal_signed : isMinimal (front ++ [signed s b]) = true ↔
    b ≠ 0 ∨ ∃ f c, front = f ++ [c] ∧ 0x80 ≤ c := by
  have hlow := (signed_spec b hb s).2.1
  have hhigh : ∀ c : UInt8, c &&& 0x80 ≠ 0 ↔ 0x80 ≤ c := forall_byte (by decide)
  rw [isMinimal, reverse_append, reverse_singleton, singleton_append]
  rcases eq_nil_or_concat' front with rfl | ⟨f, c, rfl⟩
  · simp [hlow]
  · simp [hlow, ← hhigh]

theorem le_of_isMinimal (h : isMinimal (front ++ [signed s b]) = true) :
    256 ^ front.length ≤ 2 * Codec.leValue (front ++ [b]) := by
  rw [leValue_concat]
  rcases (isMinimal_signed hb s).mp h with hb | ⟨f, c, rfl, hc⟩
  · have hpos : 0 < b.toNat := Nat.pos_of_ne_zero fun h => hb (UInt8.toNat_inj.mp h)
    have := Nat.le_mul_of_pos_right (256 ^ front.length) hpos
    omega
  · have hc : 128 ≤ c.toNat := UInt8.le_iff_toNat_le.mp hc
    have := Nat.mul_le_mul_left (256 ^ f.length) hc
    rw [leValue_concat, length_append, length_singleton, Nat.pow_succ]
    omega

end

theorem numOfVch_lt (vch : List UInt8) : 2 * (numOfVch vch).natAbs < 256 ^ vch.length := by
  rcases eq_nil_or_signed vch with rfl | ⟨front, b, s, hb, rfl⟩
  · decide
  · have hfront := leValue_lt front
    have hle : b.toNat ≤ 127 := Nat.le_of_lt_succ (UInt8.lt_iff_toNat_lt.mp hb)
    have := Nat.mul_le_mul_left (256 ^ front.length) hle
    rw [natAbs_signed hb, leValue_concat, length_append, length_singleton, Nat.pow_succ]
    omega

/-- **An element of the stack is false where the number it stands for is zero**, also with a sign
    or with bytes it does not need. -/
theorem castToBool_iff_numOfVch_ne_zero (vch : List UInt8) :
    castToBool vch = true ↔ numOfVch vch ≠ 0 := by
  rcases eq_nil_or_signed vch with rfl | ⟨front, b, s, hb, rfl⟩
  · decide
  · rw [← Int.natAbs_ne_zero, natAbs_signed hb]
    induction front with
    | nil =>
      have hlt : b.toNat < 128 := UInt8.lt_iff_toNat_lt.mp hb
      simp only [nil_append, castToBool, Codec.leValue, Bool.and_eq_true, bne_iff_ne,
        ← UInt8.toNat_inj.ne, (signed_spec b hb s).2.2]
      cases s <;> simp
      omega
    | cons c front ih =>
      have hcast : castToBool (c :: front ++ [signed s b]) =
          (c != 0 || castToBool (front ++ [signed s b])) := by
        cases front <;> rfl
      rw [hcast, Bool.or_eq_true, ih, bne_iff_ne, ← UInt8.toNat_inj.ne, cons_append, Codec.leValue]
      simp
      omega

variable {vch vch' : List UInt8}

theorem minimal_length_le {k : Nat} (h : isMinimal vch = true)
    (hk : 2 * (numOfVch vch).natAbs < 256 ^ k) : vch.length ≤ k := by
  rcases eq_nil_or_signed vch with rfl | ⟨front, b, s, hb, rfl⟩
  · exact Nat.zero_le k
  · rw [natAbs_signed hb] at hk
    rw [length_append]
    exact (Nat.pow_lt_pow_iff_right (by decide)).mp ((le_of_isMinimal hb s h).trans_lt hk)

/-- **A number has one minimal string.** -/
theorem eq_of_numOfVch_eq (h : isMinimal vch = true) (h' : isMinimal vch' = true)
    (heq : numOfVch vch = numOfVch vch') : vch = vch' := by
  have hlen : vch.length = vch'.length := Nat.le_antisymm
    (minimal_length_le h (heq ▸ numOfVch_lt vch')) (minimal_length_le h' (heq ▸ numOfVch_lt vch))
  rcases eq_nil_or_signed vch with rfl | ⟨front, b, s, hb, rfl⟩
  · exact (length_eq_zero_iff.mp hlen.symm).symm
  rcases eq_nil_or_signed vch' with rfl | ⟨front', b', s', hb', rfl⟩
  · simp at hlen
  have hbytes : front ++ [b] = front' ++ [b'] := by
    have hvalue := congrArg Int.natAbs heq
    rw [natAbs_signed hb, natAbs_signed hb', leValue_eq, leValue_eq] at hvalue
    have hdigits := Nat.ofDigits_inj_of_len_eq (by decide) (by simpa using hlen) (bytes_lt _)
      (bytes_lt _) hvalue
    exact map_injective_iff.mpr (fun _ _ => UInt8.toNat_inj.mp) hdigits
  obtain ⟨rfl, hlast⟩ := append_inj' hbytes rfl
  obtain rfl := singleton_inj.mp hlast
  have hpos := le_of_isMinimal hb s h
  have := Nat.pow_pos (n := front.length) (by decide : 0 < 256)
  rw [numOfVch_signed hb, numOfVch_signed hb] at heq
  have hs : s = s' := by
    cases s <;> cases s' <;> simp at heq ⊢ <;> omega
  rw [hs]

theorem numOfVch_vchOfNum (n : Int) :
    numOfVch (vchOfNum n) = n ∧ isMinimal (vchOfNum n) = true := by
  have hvalue := leValue_magnitude (Nat.le_refl n.natAbs)
  have hsigned {front : List UInt8} {b : UInt8} (hb : b < 0x80)
      (hcanon : b ≠ 0 ∨ ∃ f c, front = f ++ [c] ∧ 0x80 ≤ c)
      (h : Codec.leValue (front ++ [b]) = n.natAbs) :
      numOfVch (front ++ [signed (n < 0) b]) = n ∧
        isMinimal (front ++ [signed (n < 0) b]) = true := by
    refine ⟨?_, (isMinimal_signed hb _).mpr hcanon⟩
    rw [numOfVch_signed hb, h]
    simp only [decide_eq_true_eq]
    split_ifs <;> omega
  rcases eq_nil_or_concat' (magnitude n.natAbs n.natAbs) with hnil | ⟨f, c, hc⟩
  · rw [hnil] at hvalue
    rw [Int.natAbs_eq_zero.mp hvalue.symm]
    exact ⟨rfl, rfl⟩
  · have hne : c ≠ 0 := magnitude_getLast (n := n.natAbs) (by rw [hc, getLast?_concat])
    rw [hc] at hvalue
    simp only [vchOfNum, hc, getLast?_concat, dropLast_concat]
    by_cases hhigh : 0x80 ≤ c
    · have hvalue' : Codec.leValue (f ++ [c] ++ [0]) = n.natAbs := by
        rw [leValue_concat, hvalue, UInt8.toNat_zero, Nat.mul_zero, Nat.add_zero]
      simpa [hhigh, signed] using hsigned (by decide) (.inr ⟨f, c, rfl, hhigh⟩) hvalue'
    · have h := hsigned (UInt8.not_le.mp hhigh) (.inl hne) hvalue
      split_ifs with hneg
      · simpa [signed, hneg] using h
      · simpa [signed, hneg] using h

/-- **Script numbers.** A number is read from what is written for it, which no shorter string stands
    for; and what is read from a minimal string is written as that string. -/
theorem script_numbers (n : Int) (vch : List UInt8) :
    (n.natAbs < 2 ^ 31 →
      (∀ fRequireMinimal, scriptNum (vchOfNum n) fRequireMinimal 4 = .ok n) ∧
      (numOfVch vch = n → (vchOfNum n).length ≤ vch.length)) ∧
    (scriptNum vch true 4 = .ok n → vchOfNum n = vch) := by
  obtain ⟨hread, hmin⟩ := numOfVch_vchOfNum n
  refine ⟨fun hn => ⟨fun fRequireMinimal => ?_, fun h => ?_⟩, fun h => ?_⟩
  · have hlen : (vchOfNum n).length ≤ 4 := minimal_length_le hmin (by rw [hread]; omega)
    simp [scriptNum, Nat.not_lt.mpr hlen, hmin, hread]
  · exact minimal_length_le hmin (by rw [hread, ← h]; exact numOfVch_lt vch)
  · unfold scriptNum at h
    split_ifs at h with hlen hminimal
    cases h
    exact eq_of_numOfVch_eq hmin (by simpa using hminimal) hread

theorem script_numbers_of_minus_one :
    scriptNum [0x81] true 4 = .ok (-1) ∧ vchOfNum (-1) = [0x81] :=
  have h : scriptNum [0x81] true 4 = .ok (-1) := rfl
  ⟨h, (script_numbers (-1) [0x81]).2 h⟩

end ShareCoin.Server
