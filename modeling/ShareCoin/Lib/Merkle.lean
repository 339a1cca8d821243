import Mathlib.Algebra.Group.Nat.Defs
import Mathlib.Data.List.GetD
import Mathlib.Data.List.Nodup
import Mathlib.Data.List.Induction
import Mathlib.Logic.Function.Iterate

/-!
# Merkle trees over a pair function

`parents pair` is one level of a tree of hashes: neighbours are hashed together, and a last one that
is left alone with itself. `merkleRoot` goes up to a single hash. `chainRoot` hashes the list from
the left instead.

A pair function on hashes cannot be injective. What is asked of it is only that it tells apart the
pairs that the trees at hand hash, and that none of these hashes is a leaf. Then a root determines
the leaves. In a tree this needs leaves without duplicates, as a last leaf hashes like two equal
ones: the levels of two trees are compared from the root down, and trees of different heights would
have a leaf of one among the hashes of the other.
-/

namespace ShareCoin.Lib

open List Function

variable {α : Type}

/-! ## Levels -/

def levelPairs : List α → List (α × α)
  | [] => []
  | [a] => [(a, a)]
  | a :: b :: l => (a, b) :: levelPairs l

variable (pair : α → α → α)

def parents (l : List α) : List α := (levelPairs l).map fun p => pair p.1 p.2

theorem length_levelPairs (l : List α) : (levelPairs l).length = (l.length + 1) / 2 := by
  induction l using levelPairs.induct with
  | case1 | case2 a => simp [levelPairs]
  | case3 a b l ih =>
    rw [levelPairs, length_cons, length_cons, length_cons, ih]
    omega

theorem length_parents (l : List α) : (parents pair l).length = (l.length + 1) / 2 := by
  rw [parents, length_map, length_levelPairs]

variable {l m : List α} {n : Nat}

theorem getD_levelPairs (d : α) {k : Nat} (hk : 2 * k < l.length) :
    (levelPairs l).getD k (d, d) =
      (l.getD (2 * k) d, l.getD (min (2 * k + 1) (l.length - 1)) d) := by
  induction l using levelPairs.induct generalizing k with
  | case1 => exact absurd hk (Nat.not_lt_zero _)
  | case2 a =>
    obtain rfl : k = 0 := by
      rw [length_singleton] at hk
      omega
    rfl
  | case3 a b l ih =>
    cases k with
    | zero => simp [levelPairs]
    | succ k =>
      rw [length_cons, length_cons] at hk
      have hmin : min (2 * (k + 1) + 1) (l.length + 1 + 1 - 1) =
          min (2 * k + 1) (l.length - 1) + 2 := by omega
      rw [levelPairs, getD_cons_succ, ih (by omega), length_cons, length_cons, hmin,
        Nat.mul_succ, getD_cons_succ, getD_cons_succ, getD_cons_succ,
        getD_cons_succ]

theorem getD_parents (d : α) {k : Nat} (hk : 2 * k < l.length) : (parents pair l).getD k d =
      pair (l.getD (2 * k) d) (l.getD (min (2 * k + 1) (l.length - 1)) d) := by
  have hlt : k < (levelPairs l).length := by
    rw [length_levelPairs]
    omega
  have hpair := getD_levelPairs d hk
  rw [getD_eq_getElem _ _ hlt] at hpair
  rw [getD_eq_getElem _ _ (by rwa [parents, length_map])]
  simp only [parents, getElem_map, hpair]

theorem parents_eq_map_range (d : α) (l : List α) :
    parents pair l = (List.range ((l.length + 1) / 2)).map fun k =>
      pair (l.getD (2 * k) d) (l.getD (min (2 * k + 1) (l.length - 1)) d) := by
  refine ext_getElem (by rw [length_parents, length_map, length_range]) ?_
  intro k hk _
  have hlt : 2 * k < l.length := by
    rw [length_parents] at hk
    omega
  rw [getElem_map, getElem_range, ← getD_parents pair d hlt, getD_eq_getElem]

/-- The root of the tree over a list of leaves. -/
def merkleRoot : List α → Option α
  | [] => none
  | [a] => some a
  | a :: b :: l => merkleRoot (parents pair (a :: b :: l))
termination_by l => l.length
decreasing_by
  rw [length_parents, length_cons, length_cons]
  omega

theorem merkleRoot_parents (h : 1 < l.length) :
    merkleRoot pair l = merkleRoot pair (parents pair l) := by
  match l, h with
  | a :: b :: l, _ => rw [merkleRoot]

theorem merkleRoot_iterate (h : ∀ k < n, 1 < ((parents pair)^[k] l).length) :
    merkleRoot pair l = merkleRoot pair ((parents pair)^[n] l) := by
  induction n with
  | zero => rfl
  | succ n ih =>
    rw [ih fun k hk => h k (Nat.lt_succ_of_lt hk), iterate_succ_apply',
      ← merkleRoot_parents pair (h n n.lt_succ_self)]

theorem ceil_pow_succ (m n : Nat) :
    (m + 2 ^ (n + 1) - 1) / 2 ^ (n + 1) = ((m + 2 ^ n - 1) / 2 ^ n + 1) / 2 := by
  have hpos : 0 < 2 ^ n := Nat.two_pow_pos n
  have hadd : m + 2 ^ n - 1 + 2 ^ n = m + 2 ^ (n + 1) - 1 := by
    omega
  rw [← Nat.add_div_right _ hpos, Nat.div_div_eq_div_mul, ← Nat.pow_succ, hadd]

theorem length_iterate_parents (l : List α) (n : Nat) :
    ((parents pair)^[n] l).length = (l.length + 2 ^ n - 1) / 2 ^ n := by
  induction n with
  | zero => simp
  | succ n ih => rw [iterate_succ_apply', length_parents, ih, ceil_pow_succ]

theorem merkleRoot_level (d : α) (h : ∀ k < n, 1 < ((parents pair)^[k] l).length)
    (htop : ((parents pair)^[n] l).length = 1) :
    merkleRoot pair l = some (((parents pair)^[n] l).getD 0 d) := by
  obtain ⟨root, hroot⟩ := length_eq_one_iff.mp htop
  rw [merkleRoot_iterate pair h, hroot, merkleRoot]
  rfl

/-- The pairs that the tree hashes. -/
def merklePairs : List α → List (α × α)
  | [] => []
  | [_] => []
  | a :: b :: l => levelPairs (a :: b :: l) ++ merklePairs (parents pair (a :: b :: l))
termination_by l => l.length
decreasing_by
  rw [length_parents, length_cons, length_cons]
  omega

/-- The root is reached in a number of levels. -/
inductive Climbs : List α → Nat → α → Prop
  | top (a : α) : Climbs [a] 0 a
  | up {l : List α} {n : Nat} {r : α} (more : 1 < l.length) (rest : Climbs (parents pair l) n r) :
      Climbs l (n + 1) r

variable {r : α}

theorem merkleRoot_climbs (h : merkleRoot pair l = some r) : ∃ n, Climbs pair l n r := by
  induction l using merkleRoot.induct pair with
  | case1 =>
    rw [merkleRoot] at h
    cases h
  | case2 a =>
    rw [merkleRoot] at h
    cases h
    exact ⟨0, .top r⟩
  | case3 a b l ih =>
    rw [merkleRoot] at h
    obtain ⟨n, hn⟩ := ih h
    exact ⟨n + 1, .up (by simp) hn⟩

theorem merkleRoot_isSome (hne : l ≠ []) : (merkleRoot pair l).isSome = true := by
  induction l using merkleRoot.induct pair with
  | case1 => exact absurd rfl hne
  | case2 a => rw [merkleRoot, Option.isSome_some]
  | case3 a b l ih =>
    rw [merkleRoot]
    exact ih (cons_ne_nil _ _)

/-! ## Trees that tell their pairs apart -/

def PairsApart (ps : List (α × α)) : Prop :=
  ∀ p ∈ ps, ∀ q ∈ ps, pair p.1 p.2 = pair q.1 q.2 → p = q

variable {pair}

variable {ps qs : List (α × α)}

theorem PairsApart.mono (h : PairsApart pair qs) (hsub : ps ⊆ qs) : PairsApart pair ps :=
  fun p hp q hq => h p (hsub hp) q (hsub hq)

theorem levelPairs_map_fst_sublist (l : List α) : ((levelPairs l).map Prod.fst).Sublist l := by
  induction l using levelPairs.induct with
  | case1 => exact .slnil
  | case2 => exact List.Sublist.refl _
  | case3 a b l ih => exact (ih.cons b).cons_cons a

theorem levelPairs_nodup (h : l.Nodup) : (levelPairs l).Nodup :=
  .of_map Prod.fst (h.sublist (levelPairs_map_fst_sublist l))

theorem parents_nodup (h : l.Nodup) (hapart : PairsApart pair (levelPairs l)) :
    (parents pair l).Nodup :=
  List.Nodup.map_on hapart (levelPairs_nodup h)

theorem PairsApart.map_inj (h : PairsApart pair (ps ++ qs))
    (heq : (ps.map fun p => pair p.1 p.2) = qs.map fun p => pair p.1 p.2) : ps = qs := by
  induction ps generalizing qs with
  | nil =>
    cases qs with
    | nil => rfl
    | cons q qs => cases heq
  | cons p ps ih =>
    cases qs with
    | nil => cases heq
    | cons q qs =>
      obtain ⟨hhead, htail⟩ := List.cons.inj heq
      have hpq : p = q := h p mem_cons_self q (mem_append_right _ mem_cons_self) hhead
      rw [hpq, ih (h.mono ?_) htail]
      exact append_subset.mpr ⟨fun x hx => mem_cons_of_mem _ (mem_append_left _ hx),
        fun x hx => mem_append_right _ (mem_cons_of_mem _ hx)⟩

/-- Leaves without duplicates are determined by their pairs: only a last leaf that is left alone is
    paired with itself. -/
theorem levelPairs_inj (hl : l.Nodup) (hm : m.Nodup) (h : levelPairs l = levelPairs m) : l = m := by
  induction l using levelPairs.induct generalizing m with
  | case1 =>
    rcases m with _ | ⟨x, _ | ⟨y, m⟩⟩
    · rfl
    · cases h
    · cases h
  | case2 a =>
    rcases m with _ | ⟨x, _ | ⟨y, m⟩⟩
    · cases h
    · cases h
      rfl
    · obtain ⟨rfl, rfl⟩ := Prod.mk.inj (List.cons.inj h).1
      exact absurd hm (by simp)
  | case3 a b l ih =>
    rcases m with _ | ⟨x, _ | ⟨y, m⟩⟩
    · cases h
    · obtain ⟨rfl, rfl⟩ := Prod.mk.inj (List.cons.inj h).1
      exact absurd hl (by simp)
    · obtain ⟨hhead, htail⟩ := List.cons.inj h
      obtain ⟨rfl, rfl⟩ := Prod.mk.inj hhead
      rw [ih hl.of_cons.of_cons hm.of_cons.of_cons htail]

theorem parents_inj (hl : l.Nodup) (hm : m.Nodup)
    (hapart : PairsApart pair (levelPairs l ++ levelPairs m))
    (h : parents pair l = parents pair m) : l = m :=
  levelPairs_inj hl hm (hapart.map_inj h)

/-! ## Roots -/

theorem merklePairs_eq (h : 1 < l.length) :
    merklePairs pair l = levelPairs l ++ merklePairs pair (parents pair l) := by
  match l, h with
  | a :: b :: l, _ => rw [merklePairs]

theorem levelPairs_subset (h : 1 < l.length) : levelPairs l ⊆ merklePairs pair l := by
  rw [merklePairs_eq h]
  exact subset_append_left _ _

theorem merklePairs_parents_subset (h : 1 < l.length) :
    merklePairs pair (parents pair l) ⊆ merklePairs pair l := by
  rw [merklePairs_eq h]
  exact subset_append_right _ _

theorem Climbs.leaves_eq (hapart : PairsApart pair ps) (hl : Climbs pair l n r)
    (hm : Climbs pair m n r) (hlnodup : l.Nodup) (hmnodup : m.Nodup)
    (hlps : merklePairs pair l ⊆ ps) (hmps : merklePairs pair m ⊆ ps) : l = m := by
  induction hl generalizing m with
  | top a =>
    cases hm
    rfl
  | @up l n r more rest ih =>
    cases hm with
    | up more' rest' =>
      have hlevel := List.Subset.trans (levelPairs_subset more) hlps
      have hlevel' := List.Subset.trans (levelPairs_subset more') hmps
      refine parents_inj hlnodup hmnodup (hapart.mono (append_subset.mpr ⟨hlevel, hlevel'⟩)) ?_
      exact ih rest' (parents_nodup hlnodup (hapart.mono hlevel))
        (parents_nodup hmnodup (hapart.mono hlevel'))
        (List.Subset.trans (merklePairs_parents_subset more) hlps)
        (List.Subset.trans (merklePairs_parents_subset more') hmps)

theorem Climbs.lift {n d : Nat}
    (hapart : PairsApart pair ps) (h : Climbs pair l (n + d + 1) r) (hnodup : l.Nodup)
    (hps : merklePairs pair l ⊆ ps) :
    ∃ m, Climbs pair m n r ∧ m.Nodup ∧ merklePairs pair m ⊆ ps ∧
      ∀ a ∈ m, ∃ p ∈ ps, pair p.1 p.2 = a := by
  induction d generalizing l with
  | zero =>
    cases h with
    | up more rest =>
      have hlevel := List.Subset.trans (levelPairs_subset more) hps
      refine ⟨parents pair l, rest, parents_nodup hnodup (hapart.mono hlevel),
        List.Subset.trans (merklePairs_parents_subset more) hps, fun a ha => ?_⟩
      obtain ⟨p, hp, rfl⟩ := mem_map.mp ha
      exact ⟨p, hlevel hp, rfl⟩
  | succ d ih =>
    cases h with
    | up more rest =>
      have hlevel := List.Subset.trans (levelPairs_subset more) hps
      exact ih rest (parents_nodup hnodup (hapart.mono hlevel))
        (List.Subset.trans (merklePairs_parents_subset more) hps)

theorem Climbs.ne_nil (h : Climbs pair l n r) : l ≠ [] := by
  rintro rfl
  cases h with
  | up more _ => exact absurd more (by simp)

/-- A tree is not higher than another with its root: a leaf would be a hash of a pair. -/
theorem Climbs.height_le {n k : Nat}
    (hapart : PairsApart pair ps) (hl : Climbs pair l n r) (hm : Climbs pair m k r)
    (hlnodup : l.Nodup) (hmnodup : m.Nodup) (hlps : merklePairs pair l ⊆ ps)
    (hmps : merklePairs pair m ⊆ ps) (hleaf : ∀ a ∈ l, ∀ p ∈ ps, a ≠ pair p.1 p.2) : k ≤ n := by
  by_contra hlt
  obtain ⟨d, rfl⟩ := Nat.exists_eq_add_of_lt (Nat.lt_of_not_le hlt)
  obtain ⟨m', hm', hnodup', hps', hhashes⟩ := hm.lift hapart hmnodup hmps
  obtain rfl := Climbs.leaves_eq hapart hl hm' hlnodup hnodup' hlps hps'
  obtain ⟨a, l, rfl⟩ := exists_cons_of_ne_nil hl.ne_nil
  obtain ⟨p, hp, hpair⟩ := hhashes a mem_cons_self
  exact hleaf a mem_cons_self p hp hpair.symm

/-- **A root determines the leaves.** -/
theorem merkleRoot_inj (hlne : l ≠ []) (hlnodup : l.Nodup) (hmnodup : m.Nodup)
    (hapart : PairsApart pair (merklePairs pair l ++ merklePairs pair m))
    (hleaf : ∀ a ∈ l ++ m, ∀ p ∈ merklePairs pair l ++ merklePairs pair m, a ≠ pair p.1 p.2)
    (h : merkleRoot pair l = merkleRoot pair m) : l = m := by
  obtain ⟨r, hr⟩ := Option.isSome_iff_exists.mp (merkleRoot_isSome pair hlne)
  obtain ⟨n, hn⟩ := merkleRoot_climbs pair hr
  obtain ⟨k, hk⟩ := merkleRoot_climbs pair (h.symm.trans hr)
  have hlps := subset_append_left (merklePairs pair l) (merklePairs pair m)
  have hmps := subset_append_right (merklePairs pair l) (merklePairs pair m)
  have hle := Climbs.height_le hapart hn hk hlnodup hmnodup hlps hmps
    fun a ha => hleaf a (mem_append_left _ ha)
  have hge := Climbs.height_le hapart hk hn hmnodup hlnodup hmps hlps
    fun a ha => hleaf a (mem_append_right _ ha)
  obtain rfl := Nat.le_antisymm hle hge
  exact Climbs.leaves_eq hapart hn hk hlnodup hmnodup hlps hmps

/-- The root of more than two leaves is the hash of a pair whose second part is such a hash. -/
theorem merkleRoot_top (h : 2 < l.length) (hr : merkleRoot pair l = some r) :
    ∃ p ∈ merklePairs pair l, r = pair p.1 p.2 ∧
      ∃ q ∈ merklePairs pair l, p.2 = pair q.1 q.2 := by
  induction hn : l.length using Nat.strongRecOn generalizing l with
  | ind n ih =>
    have hlen := length_parents pair l
    have hsub : merklePairs pair (parents pair l) ⊆ merklePairs pair l :=
      merklePairs_parents_subset (Nat.lt_of_succ_lt h)
    rw [merkleRoot_parents pair (Nat.lt_of_succ_lt h)] at hr
    by_cases htwo : (parents pair l).length = 2
    · obtain ⟨a, b, hab⟩ := length_eq_two.mp htwo
      rw [hab] at hr hsub
      obtain ⟨q, hq, hqb⟩ := mem_map.mp
        (show b ∈ parents pair l by rw [hab]; exact mem_cons_of_mem _ mem_cons_self)
      have hroot : merkleRoot pair [a, b] = some (pair a b) := by
        rw [merkleRoot_parents pair (by simp)]
        exact merkleRoot.eq_2 pair (pair a b)
      refine ⟨(a, b), hsub (levelPairs_subset (by simp) mem_cons_self), ?_, q,
        levelPairs_subset (Nat.lt_of_succ_lt h) hq, hqb.symm⟩
      exact Option.some.inj (hr.symm.trans hroot)
    · obtain ⟨p, hp, hrp, q, hq, hpq⟩ := ih _ (by omega) (by omega) hr rfl
      exact ⟨p, hsub hp, hrp, q, hsub hq, hpq⟩

/-! ## Chains -/

def chainPairs (pair : α → α → α) : α → List α → List (α × α)
  | _, [] => []
  | a, b :: l => (a, b) :: chainPairs pair (pair a b) l

/-- The hash of a list from the left. -/
def chainRoot (pair : α → α → α) : List α → Option α
  | [] => none
  | a :: l => some (l.foldl pair a)

theorem chainPairs_concat (a b : α) (l : List α) :
    chainPairs pair a (l ++ [b]) = chainPairs pair a l ++ [(l.foldl pair a, b)] := by
  induction l generalizing a with
  | nil => rfl
  | cons c l ih => rw [cons_append, chainPairs, ih, chainPairs, cons_append, foldl_cons]

/-- **A chain determines its elements**, if its first one is no hash of a pair. -/
theorem foldl_pair_inj {a b : α}
    (hapart : PairsApart pair ps) (hl : chainPairs pair a l ⊆ ps) (hm : chainPairs pair b m ⊆ ps)
    (ha : ∀ p ∈ ps, a ≠ pair p.1 p.2) (hb : ∀ p ∈ ps, b ≠ pair p.1 p.2)
    (h : l.foldl pair a = m.foldl pair b) : a = b ∧ l = m := by
  -- from the end: the last pairs are the same, or one list is empty and its first element a hash
  induction l using List.reverseRecOn generalizing m with
  | nil =>
    rcases eq_nil_or_concat' m with rfl | ⟨m, y, rfl⟩
    · exact ⟨h, rfl⟩
    · rw [chainPairs_concat] at hm
      rw [foldl_concat] at h
      exact absurd h (ha _ (hm (mem_append_right _ mem_cons_self)))
  | append_singleton l x ih =>
    rw [chainPairs_concat] at hl
    rw [foldl_concat] at h
    have hx := hl (mem_append_right _ mem_cons_self)
    rcases eq_nil_or_concat' m with rfl | ⟨m, y, rfl⟩
    · exact absurd h.symm (hb _ hx)
    · rw [chainPairs_concat] at hm
      rw [foldl_concat] at h
      have hy := hm (mem_append_right _ mem_cons_self)
      obtain ⟨hfold, rfl⟩ := Prod.mk.inj (hapart _ hx _ hy h)
      obtain ⟨hab, rfl⟩ := ih (append_subset.mp hl).1 (append_subset.mp hm).1 hfold
      exact ⟨hab, rfl⟩

/-! ## A binary counter -/

variable (join : α → α → α)

/-- A hash is carried up past the hashes to its left. -/
def carry : List (Option α) → α → List (Option α)
  | [], h => [some h]
  | none :: stack, h => some h :: stack
  | some x :: stack, h => none :: carry stack (join x h)

/-- The root over a stack and a hash that comes from below. A hash that is alone is joined with
    itself, unless it is the last. -/
def collapse : Option α → List (Option α) → Option α
  | h, [] => h
  | none, none :: stack => collapse none stack
  | some h, some x :: stack => collapse (some (join x h)) stack
  | none, some h :: stack | some h, none :: stack =>
    if stack.isEmpty then some h else collapse (some (join h h)) stack

theorem collapse_carry (stack : List (Option α)) :
    ∀ h, collapse join (some h) stack = collapse join none (carry join stack h) := by
  induction stack with
  | nil => exact fun _ => rfl
  | cons x stack ih =>
    intro h
    cases x with
    | none => rfl
    | some x => exact ih (join x h)

theorem carry_ne_nil (stack : List (Option α)) (h : α) : carry join stack h ≠ [] := by
  cases stack with
  | nil => exact cons_ne_nil _ _
  | cons x stack => cases x <;> exact cons_ne_nil _ _

theorem collapse_foldl : ∀ {stack : List (Option α)}, stack ≠ [] →
    collapse join none (l.foldl (carry join) (none :: stack)) =
      collapse join none ((parents join l).foldl (carry join) stack) := by
  induction l using levelPairs.induct with
  | case1 => exact fun _ => rfl
  | case2 a =>
    intro stack hne
    refine Eq.trans ?_ (collapse_carry join stack (join a a))
    exact if_neg (by simpa using hne)
  | case3 a b l ih => exact fun _ => ih (carry_ne_nil join _ _)

/-- **The counter finds the root.** -/
theorem collapse_eq_merkleRoot (l : List α) :
    collapse join none (l.foldl (carry join) []) = merkleRoot join l := by
  induction l using merkleRoot.induct join with
  | case1 => rw [merkleRoot, foldl_nil, collapse]
  | case2 a => rw [merkleRoot]; rfl
  | case3 a b l ih =>
    rw [merkleRoot, ← ih]
    exact collapse_foldl join (carry_ne_nil join _ _)

variable (f : Nat → α)

/-- The entries for the bits of a number, from a level on. -/
def stackOf (n level : Nat) : List (Option α) :=
  if n = 0 then [] else (if n % 2 = 1 then some (f level) else none) :: stackOf (n / 2) (level + 1)
termination_by n
decreasing_by omega

theorem stackOf_odd (n level : Nat) :
    stackOf f (2 * n + 1) level = some (f level) :: stackOf f n (level + 1) := by
  rw [stackOf, if_neg (by omega), if_pos (by omega), show (2 * n + 1) / 2 = n by omega]

theorem stackOf_even {n : Nat} (hn : 0 < n) (level : Nat) :
    stackOf f (2 * n) level = none :: stackOf f n (level + 1) := by
  rw [stackOf, if_neg (by omega), if_neg (by omega), show 2 * n / 2 = n by omega]

theorem stackOf_congr {g : Nat → α} : ∀ {level : Nat}, (∀ l, level ≤ l → f l = g l) →
    stackOf f n level = stackOf g n level := by
  induction n using Nat.strongRecOn with
  | ind n ih =>
    intro level h
    unfold stackOf
    split_ifs with hn
    · rfl
    all_goals rw [ih (n / 2) (by omega) fun l hl => h l (by omega)]
    rw [h level (Nat.le_refl _)]

/-- What stands below the lowest bit is passed over. -/
theorem collapse_stackOf (n : Nat) : ∀ d level,
    collapse join none (stackOf f (2 ^ d * (2 * n + 1)) level) =
      collapse join none (some (f (level + d)) :: stackOf f n (level + d + 1)) := by
  intro d
  induction d with
  | zero => exact fun level => by rw [Nat.pow_zero, Nat.one_mul, stackOf_odd]; rfl
  | succ d ih =>
    intro level
    have hpos := Nat.mul_pos (Nat.two_pow_pos d) (Nat.succ_pos (2 * n))
    rw [Nat.pow_succ', Nat.mul_assoc, stackOf_even _ hpos, collapse, ih, Nat.add_right_comm]
    rfl

theorem carry_stackOf_even (n level : Nat) (x : α) :
    carry join (stackOf f (2 * n) level) x = some x :: stackOf f n (level + 1) := by
  cases n with
  | zero => simp [stackOf, carry]
  | succ n => rw [stackOf_even f (Nat.succ_pos n), carry]

end ShareCoin.Lib
