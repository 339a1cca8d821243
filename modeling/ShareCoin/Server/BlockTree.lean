import ShareCoin.Lib.Forest
import Mathlib.Data.UInt

/-!
# `block.h`, `block.cpp` — the tree of block indexes

A `CBlockIndex` is allocated once and never moves, so an index is a value of any type `ι` and its
links are functions on `ι`. `CreateBlockIndex` links a new index to its parent, sets its height and
builds its skip pointer; the fields of `BlockTree` say what these three steps leave behind.

`GetAncestor` walks to a given height along `pprev` and `pskip`. The skip pointer of an index
without a parent is not initialised; the walk does not read it, because such an index has height
zero.
-/

namespace ShareCoin.Server

open Lib

variable {ι : Type}

/-- The links of the indexes, and the part of a header that is read through them. -/
structure BlockLinks (ι : Type) extends Forest ι where
  pskip : ι → Option ι
  bnChainWork : ι → Nat
  nVersion : ι → UInt32
  nTime : ι → UInt32

/-! ## `GetAncestor` -/

def invertLowestOne (n : Nat) : Nat := n &&& (n - 1)

def getSkipHeight (height : Nat) : Nat :=
  if height < 2 then 0
  else if height % 2 = 1 then invertLowestOne (invertLowestOne (height - 1)) + 1
  else invertLowestOne height

/-- Whether `pskip` is followed: unless the skip pointer of the parent is better than the parent of
    the skip pointer. -/
def followSkip (heightWalk height : Nat) : Bool :=
  let heightSkip := getSkipHeight heightWalk
  let heightSkipPrev := getSkipHeight (heightWalk - 1)
  decide (heightSkip = height) || (decide (height < heightSkip) &&
    !(decide ((heightSkipPrev : Int) < heightSkip - 2) && decide (height ≤ heightSkipPrev)))

/-- The loop of `GetAncestor`; a walk takes at most as many steps as the height it starts at. The
    value is `none` where the source asserts a parent. -/
def getAncestorLoop (t : BlockLinks ι) (height : Nat) : Nat → ι → Nat → Option ι
  | fuel, pindexWalk, heightWalk =>
    if heightWalk ≤ height then some pindexWalk
    else
      match fuel with
      | 0 => none
      | fuel + 1 =>
        match t.pskip pindexWalk, followSkip heightWalk height with
        | some pskip, true => getAncestorLoop t height fuel pskip (getSkipHeight heightWalk)
        | _, _ =>
          match t.parent pindexWalk with
          | some pprev => getAncestorLoop t height fuel pprev (heightWalk - 1)
          | none => none

def getAncestor (t : BlockLinks ι) (pindex : ι) (height : Int) : Option ι :=
  if (t.height pindex : Int) < height || height < 0 then none
  else getAncestorLoop t height.toNat (t.height pindex) pindex (t.height pindex)

/-- The tree as `CreateBlockIndex` makes it: every index with a parent went through
    `BuildSkip`. -/
structure BlockTree (ι : Type) extends BlockLinks ι where
  buildSkip : ∀ {i j}, parent i = some j →
    pskip i = getAncestor toBlockLinks j (getSkipHeight (height i))

/-! ## `GetMedianTimePast` -/

def blockTimes (t : BlockLinks ι) : Nat → Option ι → List Nat
  | 0, _ => []
  | _, none => []
  | n + 1, some pindex => (t.nTime pindex).toNat :: blockTimes t n (t.parent pindex)

def getMedianTimePast (t : BlockLinks ι) (pindex : ι) : Int :=
  let pmedian := (blockTimes t 11 (some pindex)).mergeSort
  (pmedian.getD (pmedian.length / 2) 0 : Nat)

/-! ## The skip pointers do not matter -/

theorem invertLowestOne_lt {n : Nat} (h : 0 < n) : invertLowestOne n < n := by
  have hle : invertLowestOne n ≤ n - 1 := Nat.and_le_right
  omega

theorem getSkipHeight_lt {height : Nat} (h : 0 < height) : getSkipHeight height < height := by
  unfold getSkipHeight
  split_ifs with h₁ h₂
  · exact h
  · have hin : invertLowestOne (height - 1) < height - 1 := invertLowestOne_lt (by omega)
    have hout : invertLowestOne (invertLowestOne (height - 1)) ≤ invertLowestOne (height - 1) :=
      Nat.and_le_left
    omega
  · exact invertLowestOne_lt h

theorem le_of_followSkip {heightWalk height : Nat} (h : followSkip heightWalk height = true) :
    height ≤ getSkipHeight heightWalk := by
  simp only [followSkip, Bool.or_eq_true, Bool.and_eq_true, decide_eq_true_eq] at h
  rcases h with h | ⟨h, _⟩
  · exact Nat.le_of_eq h.symm
  · exact Nat.le_of_lt h

/-- The loop, from any index that lies below the ones whose skip pointers are known. -/
theorem getAncestorLoop_eq {t : BlockTree ι} {n height : Nat}
    (hskip : ∀ i, t.height i ≤ n → ∀ j, t.pskip i = some j → 0 < t.height i →
      t.Anc j i ∧ t.height j = getSkipHeight (t.height i)) :
    ∀ fuel i, t.height i ≤ n → t.height i ≤ fuel → height ≤ t.height i →
      getAncestorLoop t.toBlockLinks height fuel i (t.height i) =
        t.up (t.height i - height) i := by
  intro fuel
  induction fuel with
  | zero =>
    intro i _ hf hh
    have h0 : t.height i ≤ height := by omega
    rw [getAncestorLoop, if_pos h0, Nat.sub_eq_zero_of_le h0]
    rfl
  | succ fuel ih =>
    intro i hn hf hh
    rw [getAncestorLoop]
    by_cases h0 : t.height i ≤ height
    · rw [if_pos h0, Nat.sub_eq_zero_of_le h0]
      rfl
    · rw [if_neg h0]
      split
      · -- `pskip` is followed
        rename_i pskip hs hfollow
        obtain ⟨hanc, heq⟩ := hskip i hn pskip hs (by omega)
        have hlt : getSkipHeight (t.height i) < t.height i := getSkipHeight_lt (by omega)
        have hle := le_of_followSkip hfollow
        rw [← heq] at hlt hle ⊢
        rw [ih pskip (by omega) (by omega) hle]
        obtain ⟨k, hk⟩ := hanc
        have hheight := Forest.height_up hk
        have hsplit : t.height i - height = k + (t.height pskip - height) := by omega
        rw [hsplit, Forest.up_add hk]
      · cases hp : t.parent i with
        | none =>
          have hroot := t.height_root hp
          omega
        | some pprev =>
          have hheight := t.height_parent hp
          have hpred : t.height i - 1 = t.height pprev := by omega
          dsimp only
          rw [hpred, ih pprev (by omega) (by omega) (by omega)]
          have hsplit : t.height i - height = (t.height pprev - height) + 1 := by omega
          rw [hsplit, Forest.up_succ hp]

/-- The skip pointers lead to where `BuildSkip` meant them to, by induction on the height: the
    skip pointer of an index is found by a walk from its parent. -/
theorem pskip_spec (t : BlockTree ι) (n : Nat) : ∀ i, t.height i ≤ n → ∀ j, t.pskip i = some j →
    0 < t.height i → t.Anc j i ∧ t.height j = getSkipHeight (t.height i) := by
  induction n with
  | zero =>
    intro i hn j _ hpos
    omega
  | succ n ih =>
    intro i hn j hs hpos
    cases hp : t.parent i with
    | none =>
      have hroot := t.height_root hp
      omega
    | some p =>
      have hheight := t.height_parent hp
      have hlt := getSkipHeight_lt hpos
      rw [t.buildSkip hp, getAncestor, if_neg (by simp; omega), Int.toNat_natCast,
        getAncestorLoop_eq ih _ p (by omega) (Nat.le_refl _) (by omega)] at hs
      have hup := Forest.height_up hs
      exact ⟨Forest.Anc.trans ⟨_, hs⟩ (Forest.Anc.parent hp), by omega⟩

/-- **`GetAncestor` is the walk along `pprev`** to the height asked for, whatever the skip pointers
    are. -/
theorem getAncestor_eq (t : BlockTree ι) (pindex : ι) {height : Nat}
    (h : height ≤ t.height pindex) :
    getAncestor t.toBlockLinks pindex height = t.up (t.height pindex - height) pindex := by
  rw [getAncestor, if_neg (by simp; omega), Int.toNat_natCast]
  exact getAncestorLoop_eq (pskip_spec t (t.height pindex)) _ pindex (Nat.le_refl _)
    (Nat.le_refl _) h

theorem getAncestor_of_neg (t : BlockLinks ι) (pindex : ι) {height : Int} (h : height < 0) :
    getAncestor t pindex height = none := by
  rw [getAncestor, if_pos (by simp [h])]

theorem getAncestor_sub (t : BlockTree ι) (pindex : ι) (k : Nat) :
    getAncestor t.toBlockLinks pindex (t.height pindex - k) = t.up k pindex := by
  by_cases h : k ≤ t.height pindex
  · have hcast : (t.height pindex - k : Int) = (t.height pindex - k : Nat) := by omega
    rw [hcast, getAncestor_eq t pindex (Nat.sub_le _ _)]
    congr 1
    omega
  · rw [getAncestor_of_neg _ _ (by omega), Forest.up_eq_none (Nat.not_le.mp h)]

/-- **`GetAncestor` finds the index of the chain that has the height asked for**: the one where
    following `pprev` gets to that height. There is none, and the result is null, exactly for a
    height below zero or above the height of the index. -/
theorem getAncestor_eq_some_iff (t : BlockTree ι) (pindex : ι) (height : Int) :
    (∀ j, getAncestor t.toBlockLinks pindex height = some j ↔
      t.Anc j pindex ∧ (t.height j : Int) = height) ∧
      (getAncestor t.toBlockLinks pindex height = none ↔
        height < 0 ∨ (t.height pindex : Int) < height) := by
  by_cases hout : height < 0 ∨ (t.height pindex : Int) < height
  · have hnone : getAncestor t.toBlockLinks pindex height = none := by
      rw [getAncestor, if_pos (by simpa [or_comm] using hout)]
    refine ⟨fun j => ?_, iff_of_true hnone hout⟩
    rw [hnone]
    refine ⟨fun h => absurd h (by simp), ?_⟩
    rintro ⟨hanc, hheight⟩
    have hle := hanc.height_le
    omega
  · obtain ⟨k, hk⟩ : ∃ k : Nat, height = t.height pindex - k :=
      ⟨(t.height pindex - height).toNat, by omega⟩
    obtain ⟨a, ha⟩ := Forest.exists_up (t := t.toForest) (i := pindex) (k := k) (by omega)
    have hup := Forest.height_up ha
    rw [hk, getAncestor_sub, ha]
    refine ⟨fun j => ?_, by simp; omega⟩
    rw [Option.some.injEq]
    constructor
    · rintro rfl
      exact ⟨⟨k, ha⟩, by omega⟩
    · rintro ⟨hanc, hheight⟩
      exact Forest.Anc.eq_of_height ⟨k, ha⟩ hanc (by omega)

end ShareCoin.Server
