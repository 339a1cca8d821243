import Mathlib.Order.Bounds.Basic
import Mathlib.Order.MinMax

/-!
# The edit distance

`Edit` is one insertion, deletion or substitution, at any place of a list. `Edits n` is a chain of
`n` of them, and the edit distance is the least such `n`.

`editDist` is the recursion at the heads of the two lists. **It is the edit distance**
(`isLeast_editDist`): the recursion shows a chain of that length, and one edit changes it by at most
one. What holds of chains then holds of `editDist`: it is symmetric, it is zero for equal lists
only, and the recursion may be at the last letters as well (`editDist_concat`).
-/

namespace ShareCoin.Lib

variable {α : Type} {s t u : List α} {n m : Nat}

inductive Edit : List α → List α → Prop
  | insert (p q : List α) (c : α) : Edit (p ++ q) (p ++ c :: q)
  | delete (p q : List α) (c : α) : Edit (p ++ c :: q) (p ++ q)
  | substitute (p q : List α) (c d : α) : Edit (p ++ c :: q) (p ++ d :: q)

inductive Edits : Nat → List α → List α → Prop
  | refl (s : List α) : Edits 0 s s
  | head {n : Nat} {s t u : List α} : Edit s t → Edits n t u → Edits (n + 1) s u

theorem Edit.symm (h : Edit s t) : Edit t s := by
  cases h with
  | insert p q c => exact .delete p q c
  | delete p q c => exact .insert p q c
  | substitute p q c d => exact .substitute p q d c

theorem Edit.cons (a : α) (h : Edit s t) : Edit (a :: s) (a :: t) := by
  cases h with
  | insert p q c => exact .insert (a :: p) q c
  | delete p q c => exact .delete (a :: p) q c
  | substitute p q c d => exact .substitute (a :: p) q c d

theorem Edit.reverse (h : Edit s t) : Edit s.reverse t.reverse := by
  cases h with
  | insert p q c => simpa using Edit.insert q.reverse p.reverse c
  | delete p q c => simpa using Edit.delete q.reverse p.reverse c
  | substitute p q c d => simpa using Edit.substitute q.reverse p.reverse c d

theorem Edits.map {f : List α → List α} (hf : ∀ {s t}, Edit s t → Edit (f s) (f t))
    (h : Edits n s t) : Edits n (f s) (f t) := by
  induction h with
  | refl s => exact .refl _
  | head hst _ ih => exact .head (hf hst) ih

theorem Edits.cons (a : α) (h : Edits n s t) : Edits n (a :: s) (a :: t) :=
  h.map (f := List.cons a) (Edit.cons a)

theorem Edits.snoc (h : Edits n s t) (htu : Edit t u) : Edits (n + 1) s u := by
  induction h with
  | refl s => exact .head htu (.refl u)
  | head hst _ ih => exact .head hst (ih htu)

theorem Edits.symm (h : Edits n s t) : Edits n t s := by
  induction h with
  | refl s => exact .refl s
  | head hst _ ih => exact ih.snoc hst.symm

theorem edits_zero_iff : Edits 0 s t ↔ s = t :=
  ⟨fun h => by cases h; rfl, fun h => h ▸ .refl s⟩

/-! ## The recursion -/

section

variable [DecidableEq α]

def editDist : List α → List α → Nat
  | [], t => t.length
  | s, [] => s.length
  | a :: s, b :: t =>
    min (min (editDist s (b :: t) + 1) (editDist (a :: s) t + 1))
      (editDist s t + if a = b then 0 else 1)
termination_by s t => s.length + t.length

@[simp] theorem editDist_nil_left (t : List α) : editDist [] t = t.length := by rw [editDist]

@[simp] theorem editDist_nil_right (s : List α) : editDist s [] = s.length := by
  cases s <;> simp [editDist]

theorem editDist_cons_cons (a b : α) (s t : List α) :
    editDist (a :: s) (b :: t) =
      min (min (editDist s (b :: t) + 1) (editDist (a :: s) t + 1))
        (editDist s t + if a = b then 0 else 1) := by
  rw [editDist]

theorem editDist_cons_left_le (a : α) (s t : List α) : editDist (a :: s) t ≤ editDist s t + 1 := by
  cases t with
  | nil => simp
  | cons b t => rw [editDist_cons_cons]; omega

theorem editDist_cons_right_le (b : α) (s t : List α) : editDist s (b :: t) ≤ editDist s t + 1 := by
  cases s with
  | nil => simp
  | cons a s => rw [editDist_cons_cons]; omega

theorem editDist_le_max (s t : List α) : editDist s t ≤ max s.length t.length := by
  induction s generalizing t with
  | nil => simp
  | cons a s ih =>
    cases t with
    | nil => simp
    | cons b t =>
      have hst := ih t
      have hle : (if a = b then 0 else 1) ≤ 1 := by split <;> omega
      rw [editDist_cons_cons, List.length_cons, List.length_cons]
      omega

/-! ## A chain of that length -/

theorem edits_editDist (s t : List α) : Edits (editDist s t) s t := by
  fun_induction editDist s t with
  | case1 t =>
    induction t with
    | nil => exact .refl []
    | cons b t ih => exact ih.snoc (.insert [] t b)
  | case2 s hs =>
    clear hs
    induction s with
    | nil => exact .refl []
    | cons a s ih => exact .head (.delete [] s a) ih
  | case3 a s b t ihdel ihins ihsub =>
    rcases min_choice (min (editDist s (b :: t) + 1) (editDist (a :: s) t + 1))
      (editDist s t + if a = b then 0 else 1) with heq | heq
    · rw [heq]
      rcases min_choice (editDist s (b :: t) + 1) (editDist (a :: s) t + 1) with heq | heq
      · rw [heq]
        exact .head (.delete [] s a) ihdel
      · rw [heq]
        exact ihins.snoc (.insert [] t b)
    · rw [heq]
      split
      · subst b
        exact ihsub.cons a
      · exact .head (.substitute [] s a b) (ihsub.cons b)

/-! ## No shorter one -/

/-- One edit below a common head. -/
theorem editDist_cons_le_of (a : α) (h : ∀ t, editDist s t ≤ editDist u t + 1) (t : List α)
    (hlen : s.length ≤ u.length + 1) : editDist (a :: s) t ≤ editDist (a :: u) t + 1 := by
  induction t with
  | nil => simpa using hlen
  | cons b t ih =>
    have h1 := h (b :: t)
    have h2 := h t
    rw [editDist_cons_cons, editDist_cons_cons]
    omega

theorem editDist_le_cons (c : α) (s t : List α) : editDist s t ≤ editDist (c :: s) t + 1 := by
  induction t with
  | nil => simp; omega
  | cons b t ih =>
    have hs := editDist_cons_right_le b s t
    rw [editDist_cons_cons]
    omega

theorem editDist_substitute (c d : α) (s t : List α) :
    editDist (c :: s) t ≤ editDist (d :: s) t + 1 := by
  induction t with
  | nil => simp
  | cons b t ih =>
    have hle : (if c = b then 0 else 1) ≤ 1 := by split <;> omega
    rw [editDist_cons_cons, editDist_cons_cons]
    omega

theorem Edit.dist_le (h : Edit s u) (t : List α) : editDist s t ≤ editDist u t + 1 := by
  -- by induction on the part before the place of the edit
  cases h with
  | insert p q c =>
    induction p generalizing t with
    | nil => exact editDist_le_cons c q t
    | cons a p ih => exact editDist_cons_le_of a ih t (by simp; omega)
  | delete p q c =>
    induction p generalizing t with
    | nil => exact editDist_cons_left_le c q t
    | cons a p ih => exact editDist_cons_le_of a ih t (by simp; omega)
  | substitute p q c d =>
    induction p generalizing t with
    | nil => exact editDist_substitute c d q t
    | cons a p ih => exact editDist_cons_le_of a ih t (by simp)

theorem editDist_self (s : List α) : editDist s s = 0 := by
  induction s with
  | nil => simp
  | cons a s ih => simp [editDist_cons_cons, ih]

theorem Edits.dist_le (h : Edits n s t) : editDist s t ≤ n := by
  induction h with
  | refl s => exact (editDist_self s).le
  | @head n s t u hst _ ih =>
    have hone := hst.dist_le u
    omega

/-- **`editDist` is the least number of edits.** -/
theorem isLeast_editDist (s t : List α) : IsLeast {n | Edits n s t} (editDist s t) :=
  ⟨edits_editDist s t, fun _ h => Edits.dist_le h⟩

theorem editDist_eq_zero_iff : editDist s t = 0 ↔ s = t := by
  constructor
  · intro h
    exact edits_zero_iff.mp (h ▸ edits_editDist s t)
  · rintro rfl
    exact editDist_self s

theorem editDist_comm (s t : List α) : editDist s t = editDist t s :=
  le_antisymm (edits_editDist t s).symm.dist_le (edits_editDist s t).symm.dist_le

theorem editDist_reverse (s t : List α) : editDist s.reverse t.reverse = editDist s t := by
  apply le_antisymm
  · exact ((edits_editDist s t).map Edit.reverse).dist_le
  · simpa using ((edits_editDist s.reverse t.reverse).map Edit.reverse).dist_le

/-- The recursion at the last letters. -/
theorem editDist_concat (s t : List α) (a b : α) :
    editDist (s ++ [a]) (t ++ [b]) =
      min (min (editDist s (t ++ [b]) + 1) (editDist (s ++ [a]) t + 1))
        (editDist s t + if a = b then 0 else 1) := by
  have h := editDist_cons_cons a b s.reverse t.reverse
  simpa only [← List.reverse_concat, editDist_reverse] using h

end

end ShareCoin.Lib
