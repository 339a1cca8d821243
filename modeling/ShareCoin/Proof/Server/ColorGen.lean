import ShareCoin.Lib.EditDistance
import ShareCoin.Proof.Server.Color
import ShareCoin.Server.ColorGen

/-!
# The color of a name

`levenshtein` is the edit distance. Its table is filled cell by cell, and `CellsFilled` says for
which cells that is done; each loop makes the set larger, and no cell is read before it is in it.

For the choice, two bounds are enough. An entry with another label than the name has a score from
one to the product of the lengths, so that there always are three entries to choose. An entry with
the label itself has the score that the machine makes of an infinity: **where that is above all
others the choice is right, and where it is negative, as on x86-64, an equal label is not chosen.**
-/

namespace ShareCoin.Server

open Lib List

variable {target : Target} {s1 s2 : List Char} {S T : Nat → Nat → Prop} {matrix : Cells}
  {x y v : Nat}

/-! ## The table -/

/-- The distance of the first `y` letters of `s1` and the first `x` of `s2`. -/
def prefixDist (s1 s2 : List Char) (x y : Nat) : Nat := editDist (s1.take y) (s2.take x)

theorem prefixDist_column (hx : x ≤ s2.length) : prefixDist s1 s2 x 0 = x := by
  simp [prefixDist, hx]

theorem prefixDist_row (hy : y ≤ s1.length) : prefixDist s1 s2 0 y = y := by
  simp [prefixDist, hy]

theorem prefixDist_succ (hx : x < s2.length) (hy : y < s1.length) :
    prefixDist s1 s2 (x + 1) (y + 1) =
      min3 (prefixDist s1 s2 x (y + 1) + 1) (prefixDist s1 s2 (x + 1) y + 1)
        (prefixDist s1 s2 x y + if s1[y]? = s2[x]? then 0 else 1) := by
  have hmin (a b c : Nat) : min3 a b c = min (min b a) c := by
    unfold min3
    split_ifs <;> omega
  simp only [hmin, prefixDist, take_succ_eq_append_getElem hx,
    take_succ_eq_append_getElem hy, editDist_concat, getElem?_eq_getElem hx,
    getElem?_eq_getElem hy, Option.some.injEq]

theorem prefixDist_lt (h1 : s1.length < 2 ^ 31) (h2 : s2.length < 2 ^ 31) (x y : Nat) :
    prefixDist s1 s2 x y < 2 ^ 31 := by
  have hle := editDist_le_max (s1.take y) (s2.take x)
  have hy := s1.length_take_le' y
  have hx := s2.length_take_le' x
  unfold prefixDist
  omega

/-- The cells of `S` hold their distances. -/
def CellsFilled (s1 s2 : List Char) (S : Nat → Nat → Prop) (matrix : Cells) : Prop :=
  ∀ x y, S x y → matrix x y = prefixDist s1 s2 x y

theorem CellsFilled.setCell (h : CellsFilled s1 s2 S matrix) (hv : v = prefixDist s1 s2 x y)
    (hlt : v < 2 ^ 32) (hT : ∀ x' y', T x' y' → S x' y' ∨ x' = x ∧ y' = y) :
    CellsFilled s1 s2 T (setCell matrix x y v) := by
  intro x' y' hmem
  unfold Server.setCell
  split_ifs with heq
  · rw [heq.1, heq.2, Nat.mod_eq_of_lt hlt, hv]
  · exact h x' y' ((hT x' y' hmem).resolve_right heq)

section

variable (h1 : s1.length < 2 ^ 31) (h2 : s2.length < 2 ^ 31)
include h1 h2

theorem filled_border (stack : Cells) :
    CellsFilled s1 s2 (fun x y => x ≤ s2.length ∧ y = 0 ∨ x = 0 ∧ y ≤ s1.length)
      (forRange (fun y m => setCell m 0 (y + 1) (m 0 y + 1)) s1.length
        (forRange (fun x m => setCell m (x + 1) 0 (m x 0 + 1)) s2.length
          (setCell stack 0 0 0))) := by
  refine forRange_inv
    (P := fun k => CellsFilled s1 s2 fun x y => x ≤ s2.length ∧ y = 0 ∨ x = 0 ∧ y ≤ k) ?_ ?_
  · refine forRange_inv (P := fun k => CellsFilled s1 s2 fun x y => x ≤ k ∧ y = 0 ∨ x = 0 ∧ y ≤ 0)
      ?_ ?_
    · refine CellsFilled.setCell (S := fun _ _ => False) (fun _ _ h => h.elim) ?_ (by decide) ?_
      · exact (prefixDist_column (Nat.zero_le _)).symm
      · intro x y h
        omega
    · intro x hx m hm
      have hcell : m x 0 = x := (hm x 0 (by omega)).trans (prefixDist_column (by omega))
      refine hm.setCell ?_ (by omega) ?_
      · rw [hcell, prefixDist_column hx]
      · intro x' y' h
        omega
  · intro y hy m hm
    have hcell : m 0 y = y := (hm 0 y (by omega)).trans (prefixDist_row (by omega))
    refine hm.setCell ?_ (by omega) ?_
    · rw [hcell, prefixDist_row hy]
    · intro x' y' h
      omega

theorem CellsFilled.fillCell (h : CellsFilled s1 s2 S matrix) (hx : x < s2.length)
    (hy : y < s1.length) (hup : S x (y + 1)) (hleft : S (x + 1) y) (hdiag : S x y)
    (hT : ∀ x' y', T x' y' → S x' y' ∨ x' = x + 1 ∧ y' = y + 1) :
    CellsFilled s1 s2 T (fillCell s1 s2 x y matrix) := by
  have hlt := prefixDist_lt h1 h2
  have hup' := hlt x (y + 1)
  have hleft' := hlt (x + 1) y
  have hdiag' := hlt x y
  have hle : (if s1[y]? = s2[x]? then 0 else 1) ≤ 1 := by split <;> omega
  unfold Server.fillCell
  rw [h _ _ hup, h _ _ hleft, h _ _ hdiag, Nat.mod_eq_of_lt (by omega),
    Nat.mod_eq_of_lt (by omega), Nat.mod_eq_of_lt (by omega), ← prefixDist_succ hx hy]
  exact h.setCell rfl (lt_trans (hlt _ _) (by decide)) hT

theorem filled_rows
    (hm : CellsFilled s1 s2 (fun x y => x ≤ s2.length ∧ y = 0 ∨ x = 0 ∧ y ≤ s1.length) matrix) :
    CellsFilled s1 s2 (fun x y => x ≤ s2.length ∧ y ≤ s1.length)
      (forRange (fun x m => forRange (fillCell s1 s2 x) s1.length m) s2.length matrix) := by
  have hrows := forRange_inv (b := fun x m => forRange (fillCell s1 s2 x) s1.length m)
    (P := fun k => CellsFilled s1 s2 fun x y => (x ≤ s2.length ∧ y = 0) ∨ x ≤ k ∧ y ≤ s1.length)
    (n := s2.length) (s := matrix) ?_ ?_
  · exact fun x y h => hrows x y (.inr h)
  · exact fun x y h => hm x y (by omega)
  · intro x hx m hm
    have hrow := forRange_inv (b := fillCell s1 s2 x)
      (P := fun k => CellsFilled s1 s2 fun x' y' =>
        (x' ≤ s2.length ∧ y' = 0) ∨ x' ≤ x ∧ y' ≤ s1.length ∨ x' = x + 1 ∧ y' ≤ k)
      (n := s1.length) (s := m) ?_ ?_
    · exact fun x' y' h => hrow x' y' (by omega)
    · exact fun x' y' h => hm x' y' (by omega)
    · intro y hy m hm
      refine hm.fillCell h1 h2 hx hy (by omega) (by omega) (by omega) ?_
      intro x' y' h
      omega

/-- **`levenshtein` is the edit distance.** -/
theorem levenshtein_eq_editDist (target : Target) : levenshtein target s1 s2 = editDist s1 s2 := by
  have hlen1 : s1.length % 2 ^ 32 = s1.length := Nat.mod_eq_of_lt (by omega)
  have hlen2 : s2.length % 2 ^ 32 = s2.length := Nat.mod_eq_of_lt (by omega)
  have hlast := filled_rows h1 h2 (filled_border h1 h2 target.stack)
    s2.length s1.length ⟨le_rfl, le_rfl⟩
  have hlt := prefixDist_lt h1 h2 s2.length s1.length
  unfold levenshtein
  simp only [hlen1, hlen2]
  rw [hlast, Int.bmod_eq_of_le (by omega) (by omega), prefixDist, take_length, take_length]

end

/-! ## The palette -/

variable {name str1 str2 : List Char} {i : Nat} {score : Nat → Int} {skip : Nat → Bool}

theorem rgbTable_length : rgbTable.length = rgbTableMax := by decide +kernel

theorem label_length : ∀ l ∈ rgbTable, 0 < l.toList.length ∧ l.toList.length ≤ 20 := by
  decide +kernel

theorem rgbLabel_mem (hi : i < rgbTableMax) : rgbLabel i ∈ rgbTable := by
  rw [rgbLabel, getD_eq_getElem _ _ (rgbTable_length ▸ hi)]
  exact getElem_mem _

theorem exists_rgbLabel {l : String} (h : l ∈ rgbTable) : ∃ i < rgbTableMax, rgbLabel i = l := by
  obtain ⟨i, hi, rfl⟩ := getElem_of_mem h
  exact ⟨i, rgbTable_length ▸ hi, getD_eq_getElem _ _ hi⟩

theorem exists_other_label (a b c : String) :
    ∃ i < rgbTableMax, rgbLabel i ≠ a ∧ rgbLabel i ≠ b ∧ rgbLabel i ≠ c := by
  -- the first four labels are different
  have hnodup : ((List.range 4).map rgbLabel).Nodup := by decide
  by_contra! hall
  have hsub : (List.range 4).map rgbLabel ⊆ [a, b, c] := by
    intro l hl
    obtain ⟨i, hi, rfl⟩ := mem_map.mp hl
    have hcases := hall i (lt_trans (mem_range.mp hi) (by decide))
    simp only [mem_cons, not_mem_nil, or_false]
    tauto
  exact absurd (hnodup.subperm hsub).length_le (by simp)

/-! ## The scores -/

theorem strSpan_self (h : str1.length < 2 ^ 31) : strSpan target str1 str1 = target.infToInt := by
  unfold strSpan
  rw [levenshtein_eq_editDist h h, editDist_self]
  rfl

theorem strSpan_bounds (hne : str1 ≠ str2) (h1 : 0 < str1.length) (h2 : 0 < str2.length)
    (hle1 : str1.length ≤ 127) (hle2 : str2.length ≤ 20) :
    0 < strSpan target str1 str2 ∧ strSpan target str1 str2 ≤ 2540 := by
  have hdist : 0 < editDist str1 str2 := Nat.pos_of_ne_zero (mt editDist_eq_zero_iff.mp hne)
  have hmax : editDist str1 str2 ≤ str1.length * str2.length :=
    (editDist_le_max str1 str2).trans
      (max_le (Nat.le_mul_of_pos_right _ h2) (Nat.le_mul_of_pos_left _ h1))
  have hprod : str1.length * str2.length ≤ 2540 := Nat.mul_le_mul hle1 hle2
  have hspan : strSpan target str1 str2 =
      ⌊target.double.rnd ((str1.length * str2.length : Nat) / (editDist str1 str2 : Rat))⌋ := by
    have hrnd := target.double.rnd_int (str1.length * str2.length : Nat)
      (by rw [Int.natAbs_natCast]; omega)
    rw [Int.cast_natCast] at hrnd
    unfold strSpan
    rw [levenshtein_eq_editDist (by omega) (by omega), if_neg (by omega), hrnd, Int.cast_natCast]
  have hpos : (0 : Rat) < editDist str1 str2 := by exact_mod_cast hdist
  rw [hspan, Int.floor_pos, Int.floor_le_iff]
  constructor
  · rw [← target.double.rnd_one]
    exact target.double.mono ((one_le_div hpos).mpr (by exact_mod_cast hmax))
  · have htop : target.double.rnd (2540 : Int) = (2540 : Int) :=
      target.double.rnd_int 2540 (by decide)
    refine lt_of_le_of_lt (le_trans (target.double.mono ?_) htop.le) (lt_add_one _)
    refine (div_le_self (by positivity) (by exact_mod_cast hdist)).trans ?_
    exact_mod_cast hprod

def colorScore (target : Target) (name : List Char) (i : Nat) : Int :=
  strSpan target (nameBuf name) (rgbLabel i).toList

theorem colorScore_bounds (target : Target) (hname : name ≠ []) (hi : i < rgbTableMax)
    (hne : nameBuf name ≠ (rgbLabel i).toList) :
    0 < colorScore target name i ∧ colorScore target name i ≤ 2540 := by
  obtain ⟨hpos, hle⟩ := label_length _ (rgbLabel_mem hi)
  have hlen := length_pos_iff.mpr hname
  exact strSpan_bounds hne (by simp [nameBuf, hlen]) hpos (by simp [nameBuf]) hle

theorem colorScore_self (heq : nameBuf name = (rgbLabel i).toList) :
    colorScore target name i = target.infToInt := by
  have hlen : (nameBuf name).length ≤ 127 := by simp [nameBuf]
  rw [colorScore, ← heq]
  exact strSpan_self (by omega)

theorem exists_scored (target : Target) (hname : name ≠ []) (a b : String) :
    ∃ i < rgbTableMax, rgbLabel i ≠ a ∧ rgbLabel i ≠ b ∧ 0 < colorScore target name i := by
  obtain ⟨i, hi, ha, hb, hne⟩ := exists_other_label a b (String.ofList (nameBuf name))
  refine ⟨i, hi, ha, hb, (colorScore_bounds target hname hi ?_).1⟩
  rintro heq
  exact hne (by rw [heq, String.ofList_toList])

/-! ## The choice -/

/-- What a loop over the first `k` entries has found. -/
structure Best (score : Nat → Int) (skip : Nat → Bool) (k : Nat) (best : Int × Option Nat) :
    Prop where
  upper : ∀ i < k, skip i = false → score i ≤ best.1
  zero : best.2 = none → best.1 = 0
  found : ∀ p, best.2 = some p → p < k ∧ skip p = false ∧ score p = best.1
  nonneg : 0 ≤ best.1

theorem Best.step {k : Nat} {best : Int × Option Nat} (h : Best score skip k best) :
    Best score skip (k + 1)
      (if skip k then best else if best.1 < score k then (score k, some k) else best) := by
  have hnonneg := h.nonneg
  split_ifs with hskip hlt
  · refine ⟨fun i hi hs => h.upper i ?_ hs, h.zero, fun p hp => ?_, h.nonneg⟩
    · refine lt_of_le_of_ne (Nat.le_of_lt_succ hi) ?_
      rintro rfl
      simp [hskip] at hs
    · obtain ⟨hlt, hrest⟩ := h.found p hp
      exact ⟨Nat.lt_succ_of_lt hlt, hrest⟩
  · refine ⟨fun i hi hs => ?_, by simp, fun p hp => ?_, by simp; omega⟩
    · rcases Nat.lt_succ_iff_lt_or_eq.mp hi with hi | rfl
      · exact (h.upper i hi hs).trans hlt.le
      · exact le_rfl
    · obtain rfl := Option.some.inj hp
      exact ⟨Nat.lt_succ_self _, by simpa using hskip, rfl⟩
  · refine ⟨fun i hi hs => ?_, h.zero, fun p hp => ?_, h.nonneg⟩
    · rcases Nat.lt_succ_iff_lt_or_eq.mp hi with hi | rfl
      · exact h.upper i hi hs
      · exact not_lt.mp hlt
    · obtain ⟨hlt, hrest⟩ := h.found p hp
      exact ⟨Nat.lt_succ_of_lt hlt, hrest⟩

theorem bestColor_spec (skip : Nat → Bool) (hex : ∃ i < rgbTableMax, skip i = false ∧ 0 < score i) :
    ∃ p < rgbTableMax, bestColor score skip = some p ∧ skip p = false ∧ 0 < score p ∧
      ∀ i < rgbTableMax, skip i = false → score i ≤ score p := by
  have hbest : Best score skip rgbTableMax _ :=
    forRange_inv (P := Best score skip) (s := ((0 : Int), none))
      ⟨by simp, fun _ => rfl, by simp, le_rfl⟩ fun _ _ _ h => h.step
  obtain ⟨i, hi, hskip, hpos⟩ := hex
  have hle := hbest.upper i hi hskip
  obtain ⟨p, hp⟩ : ∃ p, bestColor score skip = some p := by
    apply Option.ne_none_iff_exists'.mp
    intro hnone
    rw [hbest.zero hnone] at hle
    omega
  obtain ⟨hlt, hskip', hscore⟩ := hbest.found p hp
  refine ⟨p, hlt, hp, hskip', by omega, fun j hj hs => ?_⟩
  rw [hscore]
  exact hbest.upper j hj hs

/-- Equal literals have one address. -/
def Target.MergesLabels (target : Target) : Prop :=
  ∀ i < rgbTableMax, ∀ j < rgbTableMax,
    rgbLabel i = rgbLabel j → target.labelAddr i = target.labelAddr j

/-- The entries that are chosen: their labels are different, and the first has the best score of
    all. -/
theorem colorGen_spec (hmerge : target.MergesLabels) (hname : name ≠ []) :
    ∃ p : ColorPick, colorGen target name = some (some p) ∧
      [rgbLabel p.pri, rgbLabel p.sec, rgbLabel p.tri].Nodup ∧ p.pri < rgbTableMax ∧
      0 < colorScore target name p.pri ∧
      ∀ i < rgbTableMax, colorScore target name i ≤ colorScore target name p.pri := by
  have hdiff {i j : Nat} (hi : i < rgbTableMax) (hj : j < rgbTableMax)
      (h : rgbLabel i ≠ rgbLabel j) : (target.labelAddr i == target.labelAddr j) = false :=
    beq_false_of_ne fun heq => h (target.label_of_addr i hi j hj heq)
  have hsame {i j : Nat} (hi : i < rgbTableMax) (hj : j < rgbTableMax)
      (h : (target.labelAddr i == target.labelAddr j) = false) : rgbLabel i ≠ rgbLabel j :=
    fun heq => ne_of_beq_false h (hmerge i hi j hj heq)
  obtain ⟨i, hi, -, -, hscore⟩ := exists_scored target hname "" ""
  obtain ⟨pri, hpri, heq₁, -, hpos, hbest⟩ :=
    bestColor_spec (fun _ => false) ⟨i, hi, rfl, hscore⟩
  obtain ⟨i, hi, hne, -, hscore⟩ := exists_scored target hname (rgbLabel pri) ""
  obtain ⟨sec, hsec, heq₂, hskip₂, -, -⟩ :=
    bestColor_spec (fun i => target.labelAddr i == target.labelAddr pri)
      ⟨i, hi, hdiff hi hpri hne, hscore⟩
  obtain ⟨i, hi, hne, hne', hscore⟩ :=
    exists_scored target hname (rgbLabel pri) (rgbLabel sec)
  obtain ⟨tri, htri, heq₃, hskip₃, -, -⟩ :=
    bestColor_spec (fun i => target.labelAddr i == target.labelAddr pri ||
        target.labelAddr i == target.labelAddr sec)
      ⟨i, hi, by simp only [hdiff hi hpri hne, hdiff hi hsec hne', Bool.or_self], hscore⟩
  obtain ⟨hskip₃, hskip₃'⟩ := Bool.or_eq_false_iff.mp hskip₃
  refine ⟨⟨pri, sec, tri⟩, ?_, ?_, hpri, hpos, fun i hi => hbest i hi rfl⟩
  · have hempty : name.isEmpty = false := by simpa using hname
    simp only [colorGen, hempty]
    unfold colorScore at heq₁ heq₂ heq₃
    simp [heq₁, heq₂, heq₃]
  · have h₂ := hsame hsec hpri hskip₂
    have h₃ := hsame htri hpri hskip₃
    have h₃' := hsame htri hsec hskip₃'
    simp [h₂.symm, h₃.symm, h₃'.symm]

theorem nameBuf_eq_label {l : String} (hl : l ∈ rgbTable) (h : name.map Char.toLower = l.toList) :
    nameBuf name = l.toList := by
  have hlen : name.length ≤ 20 := by
    rw [← length_map (f := Char.toLower), h]
    exact (label_length l hl).2
  rw [nameBuf, take_of_length_le (by omega), h]

theorem label_ne_of_score_pos {l : String} {i : Nat} (hneg : target.infToInt ≤ 0)
    (hl : l ∈ rgbTable) (h : name.map Char.toLower = l.toList)
    (hpos : 0 < colorScore target name i) : rgbLabel i ≠ l := by
  rintro rfl
  rw [colorScore_self (nameBuf_eq_label hl h)] at hpos
  omega

/-- **`levenshtein` is the edit distance, and `color_gen` finds three entries with different labels
    for every name. Where the machine makes more than 2540 of an infinity, it finds the label that
    is the name; where it makes nothing positive of it, it finds any label but that one.** -/
theorem levenshtein_colorGen (target : Target) (hmerge : target.MergesLabels) :
    (∀ s1 s2 : List Char, s1.length < 2 ^ 31 → s2.length < 2 ^ 31 →
      ∃ n : Nat, levenshtein target s1 s2 = n ∧ IsLeast {k | Edits k s1 s2} n ∧
        levenshtein target s2 s1 = n ∧ (n = 0 ↔ s1 = s2)) ∧
    ∀ name : List Char, name ≠ [] →
      ∃ p : ColorPick, colorGen target name = some (some p) ∧
        [rgbLabel p.pri, rgbLabel p.sec, rgbLabel p.tri].Nodup ∧
        ∀ l ∈ rgbTable, name.map Char.toLower = l.toList →
          (2540 < target.infToInt → rgbLabel p.pri = l) ∧
          (target.infToInt ≤ 0 → rgbLabel p.pri ≠ l) := by
  constructor
  · intro s1 s2 h1 h2
    refine ⟨editDist s1 s2, levenshtein_eq_editDist h1 h2 target, isLeast_editDist s1 s2, ?_,
      editDist_eq_zero_iff⟩
    rw [levenshtein_eq_editDist h2 h1, editDist_comm]
  · intro name hname
    obtain ⟨p, hgen, hnodup, hlt, hpos, hbest⟩ := colorGen_spec hmerge hname
    refine ⟨p, hgen, hnodup, fun l hl hlower => ⟨fun hinf => ?_, fun hneg =>
      label_ne_of_score_pos hneg hl hlower hpos⟩⟩
    have hbuf := nameBuf_eq_label hl hlower
    obtain ⟨i, hi, rfl⟩ := exists_rgbLabel hl
    by_contra hne
    -- another label has a finite score, which is below that of the name
    have hfinite := (colorScore_bounds target hname hlt
      (fun heq => hne (String.toList_injective (heq.symm.trans hbuf)))).2
    have hle := hbest i hi
    rw [colorScore_self hbuf] at hle
    omega

/-- A machine with one address for equal labels. -/
def mergingTarget (double : Double) (infToInt : Int) : Target where
  double := double
  stack := fun _ _ => 0
  infToInt := infToInt
  labelAddr i := rgbTable.idxOf (rgbLabel i)
  label_of_addr _ hi _ _ h := (idxOf_inj (rgbLabel_mem hi)).mp h

theorem mergingTarget_merges (double : Double) (infToInt : Int) :
    (mergingTarget double infToInt).MergesLabels :=
  fun _ _ _ _ h => congrArg (rgbTable.idxOf ·) h

/-- A conversion that saturates. -/
theorem levenshtein_colorGen_gold :
    let target := mergingTarget exactDouble (2 ^ 31 - 1)
    ∃ p, colorGen target "Gold".toList = some (some p) ∧ rgbLabel p.pri = "gold" := by
  intro target
  obtain ⟨p, hgen, -, hlabel⟩ := (levenshtein_colorGen target (mergingTarget_merges _ _)).2
    "Gold".toList (by decide)
  exact ⟨p, hgen, (hlabel "gold" (by decide) (by decide)).1 (by decide)⟩

/-- On x86-64 it becomes `INT_MIN`. -/
theorem equal_label_not_chosen :
    ∃ p, colorGen (mergingTarget exactDouble (-2 ^ 31)) "snow".toList = some (some p) ∧
      rgbLabel p.pri ≠ "snow" := by
  have hname : "snow".toList ≠ [] := by decide
  obtain ⟨p, hgen, -, -, hpos, -⟩ :=
    colorGen_spec (mergingTarget_merges exactDouble (-2 ^ 31)) hname
  exact ⟨p, hgen, label_ne_of_score_pos (by decide) (by decide) (by decide) hpos⟩

end ShareCoin.Server
