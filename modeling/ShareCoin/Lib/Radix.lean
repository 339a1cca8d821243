import Mathlib.Data.Nat.Digits.Lemmas

/-!
# Numbers as lists of digits

`value b l` is the number with the digits `l` in base `b`, the highest first. `toDigits` is the loop
that divides, and gives the digits the lowest first; it is `Nat.digits` with a bound on its steps.

`convert` regroups digits of `f` bits into digits of `t` bits, as a machine does it: the bits wait
in an accumulator that holds a few more of them than are needed. What waits is the accumulator
modulo a power of two, and the value is what the loops keep (`drain_spec`, `convertLoop_spec`). A
regrouping that was padded reads back (`convert_convert`), because what was added is less than a
digit of the target.
-/

namespace ShareCoin.Lib.Radix

open List

/-! ## Value -/

/-- The number with the digits, the highest first. -/
def value (b : Nat) (l : List Nat) : Nat := Nat.ofDigits b l.reverse

@[simp] theorem value_nil (b : Nat) : value b [] = 0 := rfl

theorem value_append (b : Nat) (l l' : List Nat) :
    value b (l ++ l') = value b l * b ^ l'.length + value b l' := by
  rw [value, reverse_append, Nat.ofDigits_append, length_reverse, Nat.add_comm, Nat.mul_comm]
  rfl

theorem value_singleton (b x : Nat) : value b [x] = x := by
  simp [value]

theorem value_cons (b x : Nat) (l : List Nat) :
    value b (x :: l) = x * b ^ l.length + value b l := by
  rw [← singleton_append, value_append, value_singleton]

theorem value_inj {b : Nat} (hb : 1 < b) {l l' : List Nat} (hlen : l.length = l'.length)
    (hl : ∀ x ∈ l, x < b) (hl' : ∀ x ∈ l', x < b) (h : value b l = value b l') : l = l' := by
  apply reverse_injective
  apply Nat.ofDigits_inj_of_len_eq hb
  · rwa [length_reverse, length_reverse]
  · exact fun x hx => hl x (mem_reverse.mp hx)
  · exact fun x hx => hl' x (mem_reverse.mp hx)
  · exact h

theorem value_replicate_zero (b n : Nat) (l : List Nat) :
    value b (List.replicate n 0 ++ l) = value b l := by
  induction n with
  | zero => rfl
  | succ n ih =>
    rw [replicate_succ, cons_append, value_cons, Nat.zero_mul, ih, Nat.zero_add]

/-! ## Digits -/

def toDigits (b : Nat) : Nat → Nat → List Nat
  | 0, _ => []
  | fuel + 1, n => if n = 0 then [] else n % b :: toDigits b fuel (n / b)

theorem toDigits_eq {b : Nat} (hb : 1 < b) {fuel n : Nat} (h : n ≤ fuel) :
    toDigits b fuel n = Nat.digits b n := by
  induction fuel generalizing n with
  | zero =>
    cases Nat.le_zero.mp h
    simp [toDigits]
  | succ fuel ih =>
    rw [toDigits]
    split_ifs with hn
    · simp [hn]
    · have hpos := Nat.pos_of_ne_zero hn
      have hlt := Nat.div_lt_self hpos hb
      rw [Nat.digits_def' hb hpos, ih (by omega)]

theorem digits_value {b : Nat} (hb : 1 < b) {l : List Nat} (hl : ∀ x ∈ l, x < b)
    (hhead : l.head? ≠ some 0) : (Nat.digits b (value b l)).reverse = l := by
  rw [value, Nat.digits_ofDigits b hb, reverse_reverse]
  · exact fun x hx => hl x (mem_reverse.mp hx)
  · intro hne hzero
    rw [getLast_reverse] at hzero
    apply hhead
    rw [head?_eq_some_head (by simpa using hne), hzero]

theorem getLast?_digits (b n : Nat) : (Nat.digits b n).getLast? ≠ some 0 := by
  intro h
  have hn : n ≠ 0 := by
    rintro rfl
    simp at h
  rw [getLast?_eq_some_getLast (Nat.digits_ne_nil_iff_ne_zero.mpr hn)] at h
  exact Nat.getLast_digit_ne_zero b hn (Option.some.inj h)

theorem value_digits (b n : Nat) : value b (Nat.digits b n).reverse = n := by
  rw [value, reverse_reverse, Nat.ofDigits_digits]

/-! ## Regrouping -/

/-- Takes digits of `t` bits out of an accumulator that holds `bits` bits: the digits and what is
    left; at most `fuel` of them. -/
def drain (t : Nat) : Nat → Nat → Nat → List Nat × Nat
  | 0, _, bits => ([], bits)
  | fuel + 1, acc, bits =>
    if t ≤ bits then
      let (out, bits') := drain t fuel acc (bits - t)
      (((acc >>> (bits - t)) &&& (2 ^ t - 1)) :: out, bits')
    else ([], bits)

/-- The loop over the digits: what was taken out, the accumulator and the number of bits in it. -/
def convertLoop (f t : Nat) : List Nat → Nat → Nat → List Nat × Nat × Nat
  | [], acc, bits => ([], acc, bits)
  | v :: l, acc, bits =>
    let acc := ((acc <<< f) ||| v) &&& (2 ^ (f + t - 1) - 1)
    let (out, bits) := drain t (bits + f) acc (bits + f)
    let (out', acc, bits) := convertLoop f t l acc bits
    (out ++ out', acc, bits)

/-- Digits of `f` bits as digits of `t` bits. The last one is padded, or there must be nothing in
    it. -/
def convert (f t : Nat) (pad : Bool) (l : List Nat) : Option (List Nat) :=
  let (out, acc, bits) := convertLoop f t l 0 0
  if pad then
    some (if bits = 0 then out else out ++ [(acc <<< (t - bits)) &&& (2 ^ t - 1)])
  else if f ≤ bits || (acc <<< (t - bits)) &&& (2 ^ t - 1) != 0 then none
  else some out

theorem mod_split (x n k : Nat) : x % 2 ^ (n + k) = x / 2 ^ n % 2 ^ k * 2 ^ n + x % 2 ^ n := by
  rw [Nat.pow_add, Nat.mod_mul, Nat.add_comm, Nat.mul_comm]

theorem drain_spec {t : Nat} (ht : 0 < t) :
    ∀ (fuel acc bits : Nat), bits ≤ fuel →
      (drain t fuel acc bits).2 < t ∧
      bits = t * (drain t fuel acc bits).1.length + (drain t fuel acc bits).2 ∧
      acc % 2 ^ bits = value (2 ^ t) (drain t fuel acc bits).1 * 2 ^ (drain t fuel acc bits).2 +
        acc % 2 ^ (drain t fuel acc bits).2 ∧
      ∀ x ∈ (drain t fuel acc bits).1, x < 2 ^ t := by
  intro fuel
  induction fuel with
  | zero =>
    intro acc bits hbits
    cases Nat.le_zero.mp hbits
    simp [drain, ht]
  | succ fuel ih =>
    intro acc bits hbits
    rw [drain]
    split_ifs with hle
    · obtain ⟨hlt, hlen, hvalue, hdigits⟩ := ih acc (bits - t) (by omega)
      dsimp only
      have hdigit : (acc >>> (bits - t)) &&& (2 ^ t - 1) = acc / 2 ^ (bits - t) % 2 ^ t := by
        rw [Nat.and_two_pow_sub_one_eq_mod, Nat.shiftRight_eq_div_pow]
      refine ⟨hlt, ?_, ?_, ?_⟩
      · rw [length_cons, Nat.mul_succ]
        omega
      · have hsplit := mod_split acc (bits - t) t
        rw [Nat.sub_add_cancel hle] at hsplit
        rw [hsplit, hvalue, value_cons, hdigit, ← Nat.pow_mul, Nat.add_mul, Nat.mul_assoc,
          ← Nat.pow_add, ← hlen, Nat.add_assoc]
      · intro x hx
        rcases mem_cons.mp hx with rfl | hx
        · rw [hdigit]
          exact Nat.mod_lt _ (Nat.two_pow_pos t)
        · exact hdigits x hx
    · simp only [length_nil, value_nil, not_mem_nil, false_implies, implies_true, and_true]
      omega

theorem accumulate_mod {f t acc bits v : Nat} (hv : v < 2 ^ f) (hbits : bits < t) :
    (((acc <<< f) ||| v) &&& (2 ^ (f + t - 1) - 1)) % 2 ^ (bits + f) =
      acc % 2 ^ bits * 2 ^ f + v := by
  have hdiv : (acc * 2 ^ f + v) / 2 ^ f = acc := by
    rw [Nat.add_comm, Nat.add_mul_div_right _ _ (Nat.two_pow_pos f), Nat.div_eq_of_lt hv,
      Nat.zero_add]
  have hmod : (acc * 2 ^ f + v) % 2 ^ f = v := by
    rw [Nat.add_comm, Nat.add_mul_mod_self_right, Nat.mod_eq_of_lt hv]
  rw [Nat.and_two_pow_sub_one_eq_mod,
    Nat.mod_mod_of_dvd _ (Nat.pow_dvd_pow 2 (by omega : bits + f ≤ f + t - 1)),
    ← Nat.shiftLeft_add_eq_or_of_lt hv, Nat.shiftLeft_eq, Nat.add_comm bits f, mod_split, hdiv,
    hmod]

/-- **What the loop keeps**: the number of bits, and the value of what waits and what is still to
    come. -/
theorem convertLoop_spec {f t : Nat} (ht : 0 < t) :
    ∀ (l : List Nat) (acc bits : Nat) (out : List Nat) (acc' bits' : Nat), bits < t →
      (∀ v ∈ l, v < 2 ^ f) → convertLoop f t l acc bits = (out, acc', bits') →
      bits' < t ∧ bits + f * l.length = t * out.length + bits' ∧
      acc % 2 ^ bits * 2 ^ (f * l.length) + value (2 ^ f) l =
        value (2 ^ t) out * 2 ^ bits' + acc' % 2 ^ bits' ∧
      ∀ x ∈ out, x < 2 ^ t := by
  intro l
  induction l with
  | nil =>
    intro acc bits out acc' bits' hbits _ h
    cases h
    simp [hbits]
  | cons v l ih =>
    intro acc bits out acc' bits' hbits hdigits h
    have hv := hdigits v mem_cons_self
    simp only [convertLoop] at h
    obtain ⟨hbits₁, hlen₁, hvalue₁, hout₁⟩ := drain_spec ht (bits + f)
      (((acc <<< f) ||| v) &&& (2 ^ (f + t - 1) - 1)) (bits + f) (Nat.le_refl _)
    rw [accumulate_mod hv hbits] at hvalue₁
    generalize hacc : ((acc <<< f) ||| v) &&& (2 ^ (f + t - 1) - 1) = acc₁ at *
    generalize drain t (bits + f) acc₁ (bits + f) = drained at *
    obtain ⟨out₁, bits₁⟩ := drained
    dsimp only at *
    generalize hrest : convertLoop f t l acc₁ bits₁ = rest at h
    obtain ⟨out₂, acc₂, bits₂⟩ := rest
    obtain ⟨rfl, rfl, rfl⟩ : out₁ ++ out₂ = out ∧ acc₂ = acc' ∧ bits₂ = bits' := by
      simpa using h
    obtain ⟨hbits₂, hlen₂, hvalue₂, hout₂⟩ := ih acc₁ bits₁ out₂ acc₂ bits₂ hbits₁
      (forall_mem_cons.mp hdigits).2 hrest
    refine ⟨hbits₂, ?_, ?_, ?_⟩
    · rw [length_cons, length_append, Nat.mul_succ, Nat.mul_add]
      omega
    · have hpow : t * out₂.length + bits₂ = bits₁ + f * l.length := hlen₂.symm
      calc acc % 2 ^ bits * 2 ^ (f * (l.length + 1)) + value (2 ^ f) (v :: l)
          = (acc % 2 ^ bits * 2 ^ f + v) * 2 ^ (f * l.length) + value (2 ^ f) l := by
            rw [value_cons, ← Nat.pow_mul, Nat.mul_succ, Nat.pow_add]
            ring
        _ = value (2 ^ t) out₁ * 2 ^ (bits₁ + f * l.length) +
              (acc₁ % 2 ^ bits₁ * 2 ^ (f * l.length) + value (2 ^ f) l) := by
            rw [hvalue₁, Nat.pow_add]
            ring
        _ = value (2 ^ t) (out₁ ++ out₂) * 2 ^ bits₂ + acc₂ % 2 ^ bits₂ := by
            rw [hvalue₂, value_append, ← hpow, Nat.pow_add, ← Nat.pow_mul]
            ring
    · intro x hx
      rcases mem_append.mp hx with hx | hx
      · exact hout₁ x hx
      · exact hout₂ x hx

theorem two_pow_split {bits t : Nat} (h : bits ≤ t) : 2 ^ t = 2 ^ bits * 2 ^ (t - bits) := by
  rw [← Nat.pow_add, Nat.add_sub_cancel' h]

theorem last_digit {bits t : Nat} (h : bits ≤ t) (acc : Nat) :
    (acc <<< (t - bits)) &&& (2 ^ t - 1) = acc % 2 ^ bits * 2 ^ (t - bits) := by
  rw [Nat.and_two_pow_sub_one_eq_mod, Nat.shiftLeft_eq, two_pow_split h, Nat.mul_mod_mul_right]

theorem convert_pad {f t : Nat} (ht : 0 < t) {l : List Nat} (hl : ∀ v ∈ l, v < 2 ^ f) :
    ∃ m p, convert f t true l = some m ∧ p < t ∧ t * m.length = f * l.length + p ∧
      value (2 ^ t) m = value (2 ^ f) l * 2 ^ p ∧ ∀ x ∈ m, x < 2 ^ t := by
  generalize hloop : convertLoop f t l 0 0 = result
  obtain ⟨out, acc, bits⟩ := result
  obtain ⟨hbits, hlen, hvalue, hout⟩ := convertLoop_spec ht l 0 0 out acc bits ht hl hloop
  simp only [convert, hloop, if_true]
  by_cases hzero : bits = 0
  · subst hzero
    refine ⟨out, 0, by simp, ht, by omega, ?_, hout⟩
    simpa [Nat.mod_one] using hvalue.symm
  · rw [if_neg hzero]
    refine ⟨_, t - bits, rfl, by omega, ?_, ?_, ?_⟩
    · rw [length_append, length_singleton, Nat.mul_succ]
      omega
    · have hvalue' : value (2 ^ f) l = value (2 ^ t) out * 2 ^ bits + acc % 2 ^ bits := by
        simpa using hvalue
      rw [value_append, value_singleton, length_singleton, pow_one,
        last_digit (Nat.le_of_lt hbits), hvalue', Nat.add_mul, Nat.mul_assoc,
        ← two_pow_split (Nat.le_of_lt hbits)]
    · intro x hx
      rcases mem_append.mp hx with hx | hx
      · exact hout x hx
      · rw [mem_singleton.mp hx, Nat.and_two_pow_sub_one_eq_mod]
        exact Nat.mod_lt _ (Nat.two_pow_pos t)

/-- **A padded regrouping into smaller digits reads back.** -/
theorem convert_convert {f t : Nat} (ht : 0 < t) (htf : t ≤ f) {l : List Nat}
    (hl : ∀ v ∈ l, v < 2 ^ f) : (convert f t true l).bind (convert t f false) = some l := by
  obtain ⟨m, p, hm, hp, hlen, hvalue, hdigits⟩ := convert_pad ht hl
  rw [hm, Option.bind_some]
  generalize hloop : convertLoop t f m 0 0 = result
  obtain ⟨out, acc, bits⟩ := result
  obtain ⟨hbits, hlen', hvalue', hout⟩ :=
    convertLoop_spec (by omega) m 0 0 out acc bits (by omega) hdigits hloop
  have hf : 0 < f := by omega
  -- both lists hold the same number of whole digits
  have hwhole : f * out.length + bits = f * l.length + p := by omega
  have hcount : out.length = l.length := by
    have hout' : (f * out.length + bits) / f = out.length := by
      rw [Nat.mul_add_div hf, Nat.div_eq_of_lt hbits, Nat.add_zero]
    rw [← hout', hwhole, Nat.mul_add_div hf, Nat.div_eq_of_lt (by omega), Nat.add_zero]
  have hrest : bits = p := by
    rw [hcount] at hwhole
    omega
  subst hrest
  have hsum : value (2 ^ f) l * 2 ^ bits = value (2 ^ f) out * 2 ^ bits + acc % 2 ^ bits := by
    rw [← hvalue]
    simpa using hvalue'
  have hpos := Nat.two_pow_pos bits
  have hacc : acc % 2 ^ bits = 0 := by
    have := congrArg (· % 2 ^ bits) hsum
    simpa using this.symm
  have hlist : out = l := by
    apply value_inj (Nat.one_lt_two_pow (by omega)) hcount hout hl
    rw [hacc, Nat.add_zero] at hsum
    exact (Nat.eq_of_mul_eq_mul_right hpos hsum).symm
  have hnothing : (acc <<< (f - bits)) &&& (2 ^ f - 1) = 0 := by
    rw [last_digit (Nat.le_of_lt hbits), hacc, Nat.zero_mul]
  simp [convert, hloop, hnothing, hlist, Nat.not_le.mpr hp]

end ShareCoin.Lib.Radix
