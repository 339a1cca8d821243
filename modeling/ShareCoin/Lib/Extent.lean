import Mathlib.Data.List.Basic

/-!
# Values kept in extents of files

A store that keeps each value in a byte range of some file hands out ranges from the end of the
file, reuses a range for a value that is no longer, and hands a range over from one owner to
another. Read-your-writes for such a store is one invariant: the ranges are *packed*, pairwise
apart and below the end, and each of them reads back its owner's value. `Holds` is that
invariant, for any type of owners and of files, and `Holds.append`, `Holds.rewrite` and
`Holds.move` are the three things that can happen to it.
-/

namespace ShareCoin.Lib

open Function

variable {F : Type}

/-- A range of `size` bytes of a file, from the offset `of` on. -/
structure Extent (F : Type) where
  file : F
  of : Nat
  size : Nat
  deriving DecidableEq, Repr

/-- Two extents share no byte. -/
def Extent.Apart (a b : Extent F) : Prop :=
  a.file = b.file → a.of + a.size ≤ b.of ∨ b.of + b.size ≤ a.of

theorem Extent.Apart.symm {a b : Extent F} (h : a.Apart b) : b.Apart a :=
  fun hf => (h hf.symm).symm

theorem Extent.Apart.shrink {a b : Extent F} (h : a.Apart b) {size : Nat} (hs : size ≤ a.size) :
    ({ a with size := size } : Extent F).Apart b := by
  intro hf
  have := h hf
  dsimp only
  omega

variable {β : Type} {disk disk' : F → Nat → β} {data : List β} {a : Extent F} {file : F}

def Extent.bytes (disk : F → Nat → β) (a : Extent F) : List β :=
  (List.range a.size).map fun k => disk a.file (a.of + k)

structure Overwrites (disk disk' : F → Nat → β) (file : F) (of : Nat) (data : List β) : Prop where
  inside : ∀ k (h : k < data.length), disk' file (of + k) = data[k]
  outside : ∀ f n, (f = file → n < of ∨ of + data.length ≤ n) → disk' f n = disk f n

theorem Overwrites.bytes_self {of : Nat} (h : Overwrites disk disk' file of data) :
    Extent.bytes disk' ⟨file, of, data.length⟩ = data := by
  refine List.ext_getElem (by simp [Extent.bytes]) ?_
  intro k h₁ h₂
  simp [Extent.bytes, h.inside k h₂]

theorem Overwrites.bytes_of_apart {of : Nat} (h : Overwrites disk disk' file of data)
    (ha : a.Apart ⟨file, of, data.length⟩) : a.bytes disk' = a.bytes disk := by
  refine List.map_congr_left fun k hk => h.outside _ _ fun hf => ?_
  have hk' := List.mem_range.mp hk
  have := ha hf
  dsimp only at this
  omega

/-! ## The invariant -/

variable {ι : Type} {top : F → Nat} {ext : ι → Option (Extent F)} {val : ι → Option (List β)}
  {i : ι}

/-- **Every owner's value is in its extent**: the extents lie below the ends of their files and
    pairwise apart, and what they read is the value. -/
structure Holds (disk : F → Nat → β) (top : F → Nat) (ext : ι → Option (Extent F))
    (val : ι → Option (List β)) : Prop where
  below : ∀ i a, ext i = some a → a.of + a.size ≤ top a.file
  apart : ∀ i j a b, i ≠ j → ext i = some a → ext j = some b → a.Apart b
  reads : ∀ i, (ext i).map (Extent.bytes disk) = val i

theorem Holds.bytes_eq (h : Holds disk top ext val) {i : ι} {a : Extent F} (hi : ext i = some a) :
    val i = some (a.bytes disk) := by
  rw [← h.reads i, hi, Option.map_some]

variable [DecidableEq ι]

section

variable (h : Holds disk top ext val)
include h

theorem Holds.put {of : Nat} {top' : F → Nat} (hw : Overwrites disk disk' file of data)
    (htop : ∀ f, top f ≤ top' f) (hbelow : of + data.length ≤ top' file)
    (hapart : ∀ j a, j ≠ i → ext j = some a → a.Apart ⟨file, of, data.length⟩) :
    Holds disk' top' (update ext i (some ⟨file, of, data.length⟩))
      (update val i (some data)) := by
  refine ⟨?_, ?_, ?_⟩
  · intro j a hj
    by_cases hji : j = i
    · subst hji
      simp only [update_self, Option.some.injEq] at hj
      subst hj
      exact hbelow
    · rw [update_of_ne hji] at hj
      exact Nat.le_trans (h.below j a hj) (htop a.file)
  · intro j k a b hjk hj hk
    by_cases hji : j = i
    · subst hji
      simp only [update_self, Option.some.injEq] at hj
      rw [update_of_ne (Ne.symm hjk)] at hk
      exact hj ▸ (hapart k b (Ne.symm hjk) hk).symm
    · rw [update_of_ne hji] at hj
      by_cases hki : k = i
      · subst hki
        simp only [update_self, Option.some.injEq] at hk
        exact hk ▸ hapart j a hjk hj
      · rw [update_of_ne hki] at hk
        exact h.apart j k a b hjk hj hk
  · intro j
    by_cases hji : j = i
    · subst hji
      simp [hw.bytes_self]
    · -- another owner's extent is apart from the write, and reads what it read
      rw [update_of_ne hji, update_of_ne hji, ← h.reads j]
      cases hj : ext j with
      | none => rfl
      | some a => simp [hw.bytes_of_apart (hapart j a hji hj)]

theorem Holds.append [DecidableEq F] (hw : Overwrites disk disk' file (top file) data) :
    Holds disk' (update top file (top file + data.length))
      (update ext i (some ⟨file, top file, data.length⟩))
      (update val i (some data)) := by
  refine h.put hw ?_ (Nat.le_of_eq (update_self file _ top).symm) ?_
  · intro f
    by_cases hf : f = file
    · rw [hf, update_self]
      omega
    · exact Nat.le_of_eq (update_of_ne hf _ top).symm
  · intro j a _ hj hf
    have hbelow := h.below j a hj
    rw [hf] at hbelow
    exact .inl hbelow

theorem Holds.rewrite (hi : ext i = some a) (hle : data.length ≤ a.size)
    (hw : Overwrites disk disk' a.file a.of data) :
    Holds disk' top (update ext i (some { a with size := data.length }))
      (update val i (some data)) := by
  have hbelow := h.below i a hi
  refine h.put hw (fun f => Nat.le_refl _) (by omega) ?_
  intro j b hji hj
  exact ((h.apart i j a b (Ne.symm hji) hi hj).shrink hle).symm

theorem Holds.move {i j : ι} :
    Holds disk top (update (update ext j (ext i)) i none)
      (update (update val j (val i)) i none) := by
  -- whoever has an extent now had it before, under the old name
  have hback : ∀ k a, update (update ext j (ext i)) i none k = some a →
      k ≠ i ∧ ext (if k = j then i else k) = some a := by
    intro k a hk
    have hki : k ≠ i := by
      rintro rfl
      simp at hk
    rw [update_of_ne hki] at hk
    by_cases hkj : k = j
    · subst hkj
      simpa [hki] using hk
    · simpa [hki, hkj] using hk
  refine ⟨?_, ?_, ?_⟩
  · intro k a hk
    exact h.below _ a (hback k a hk).2
  · intro k l a b hkl hk hl
    obtain ⟨hki, hk⟩ := hback k a hk
    obtain ⟨hli, hl⟩ := hback l b hl
    refine h.apart _ _ a b ?_ hk hl
    by_cases hkj : k = j
    · simp [hkj, Ne.symm (hkj ▸ hkl), Ne.symm hli]
    · by_cases hlj : l = j
      · simp [hkj, hlj, hki]
      · simpa [hkj, hlj] using hkl
  · intro k
    by_cases hki : k = i
    · subst hki
      simp
    · rw [update_of_ne hki, update_of_ne hki]
      by_cases hkj : k = j
      · subst hkj
        simp [h.reads i]
      · rw [update_of_ne hkj, update_of_ne hkj, h.reads k]

theorem Holds.erase : Holds disk top (update ext i none) (update val i none) := by
  simpa using h.move (i := i) (j := i)

end

end ShareCoin.Lib
