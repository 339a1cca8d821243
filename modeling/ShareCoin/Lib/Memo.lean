import Mathlib.Logic.Function.Basic

/-!
# Memoised recursion along a chain of keys

The value at a key is given at once (`base`), or is computed by `next` from the value at the key
before it. `lookup` finds a value with a cache: it walks back to a key that is cached or has a base
value, keeping the keys on the way on a stack, and then computes forwards through the stack, caching
every value it passes.

A cache is *sound* when all it holds are values of the recursion. `lookup_spec` is the whole of what
a caller needs: from a sound cache the answer is the value, and the cache is sound afterwards.
-/

namespace ShareCoin.Lib

/-- A recursion in which each key has one key before it. -/
structure Recursion (κ α : Type) where
  base : κ → Option α
  prev : κ → κ
  next : α → κ → α

namespace Recursion

variable {κ α : Type} {r : Recursion κ α}

/-- The value at a key, without a cache. -/
inductive HasValue (r : Recursion κ α) : κ → α → Prop where
  | base {k : κ} {a : α} (h : r.base k = some a) : HasValue r k a
  | step {k : κ} {a : α} (h : r.base k = none) (hprev : HasValue r (r.prev k) a) :
      HasValue r k (r.next a k)

theorem HasValue.unique {k : κ} {a b : α} (ha : r.HasValue k a) (hb : r.HasValue k b) : a = b := by
  induction ha generalizing b with
  | base h =>
    cases hb with
    | base h' => exact Option.some.inj (h.symm.trans h')
    | step h' _ => exact absurd (h.symm.trans h') (by simp)
  | step h _ ih =>
    cases hb with
    | base h' => exact absurd (h.symm.trans h') (by simp)
    | step _ hprev' => rw [ih hprev']

variable [DecidableEq κ]
variable {cache : κ → Option α}

/-! ## The cache -/

/-- Back to a key whose value is at hand. The stack holds the keys passed, the last one first; the
    walk has no value when it takes more than `fuel` steps. -/
def walkBack (r : Recursion κ α) (cache : κ → Option α) : Nat → κ → List κ →
    Option (α × (κ → Option α) × List κ)
  | fuel, k, stack =>
    match cache k, r.base k with
    | some a, _ => some (a, cache, stack)
    | none, some a => some (a, Function.update cache k (some a), stack)
    | none, none =>
      match fuel with
      | 0 => none
      | fuel + 1 => walkBack r cache fuel (r.prev k) (k :: stack)

def walkForward (r : Recursion κ α) : List κ → α → (κ → Option α) → α × (κ → Option α)
  | [], a, cache => (a, cache)
  | k :: stack, a, cache =>
    walkForward r stack (r.next a k) (Function.update cache k (some (r.next a k)))

def lookup (r : Recursion κ α) (cache : κ → Option α) (fuel : Nat) (k : κ) :
    Option (α × (κ → Option α)) :=
  (walkBack r cache fuel k []).map fun (a, cache, stack) => walkForward r stack a cache

/-- All that is cached are values. -/
def Sound (r : Recursion κ α) (cache : κ → Option α) : Prop :=
  ∀ k a, cache k = some a → r.HasValue k a

omit [DecidableEq κ] in
theorem Sound.empty : r.Sound fun _ => none := by
  intro k a h
  cases h

theorem Sound.update (h : r.Sound cache) {k : κ} {a : α} (ha : r.HasValue k a) :
    r.Sound (Function.update cache k (some a)) := by
  intro k' a' h'
  by_cases hk : k' = k
  · subst hk
    rw [Function.update_self] at h'
    cases h'
    exact ha
  · rw [Function.update_of_ne hk] at h'
    exact h k' a' h'

/-- The keys of the stack follow one another, from the key after `k` up to `k'`. -/
inductive Linked (r : Recursion κ α) : κ → List κ → κ → Prop where
  | nil {k : κ} : Linked r k [] k
  | cons {k k' : κ} {stack : List κ} (h : r.base k = none) (hs : Linked r k stack k') :
      Linked r (r.prev k) (k :: stack) k'

theorem walkForward_spec {k k' : κ} {stack : List κ} (hs : r.Linked k stack k') {a : α}
    (ha : r.HasValue k a) (hcache : r.Sound cache) :
    r.HasValue k' (r.walkForward stack a cache).1 ∧
      r.Sound (r.walkForward stack a cache).2 := by
  induction hs generalizing a cache with
  | nil => exact ⟨ha, hcache⟩
  | cons h _ ih =>
    have hnext := HasValue.step h ha
    exact ih hnext (hcache.update hnext)

/-- The walk back ends, since each step goes down in rank. -/
theorem walkBack_spec {rank : κ → Nat} (hrank : ∀ k, r.base k = none → rank (r.prev k) < rank k)
    (hcache : r.Sound cache) {k k' : κ} {fuel : Nat} {stack : List κ} (hk : rank k ≤ fuel)
    (hs : r.Linked k stack k') :
    ∃ a cache' stack' k₀, r.walkBack cache fuel k stack = some (a, cache', stack') ∧
      r.HasValue k₀ a ∧ r.Sound cache' ∧ r.Linked k₀ stack' k' := by
  fun_induction walkBack r cache fuel k stack with
  | case1 fuel k stack a h => exact ⟨a, cache, stack, k, rfl, hcache k a h, hcache, hs⟩
  | case2 fuel k stack a hbase _ =>
    exact ⟨a, _, stack, k, rfl, .base hbase, hcache.update (.base hbase), hs⟩
  | case3 k stack hbase _ =>
    have := hrank k hbase
    omega
  | case4 k stack hbase _ fuel ih =>
    have := hrank k hbase
    exact ih (by omega) (.cons hbase hs)

/-- **A lookup gives the value, and leaves the cache sound.** -/
theorem lookup_spec {rank : κ → Nat} (hrank : ∀ k, r.base k = none → rank (r.prev k) < rank k)
    (hcache : r.Sound cache) {fuel : Nat} {k : κ} (hk : rank k ≤ fuel) :
    ∃ a cache', r.lookup cache fuel k = some (a, cache') ∧ r.HasValue k a ∧ r.Sound cache' := by
  obtain ⟨a, cache', stack, k₀, hwalk, ha, hsound, hs⟩ :=
    walkBack_spec hrank hcache hk .nil
  obtain ⟨hvalue, hsound'⟩ := walkForward_spec hs ha hsound
  exact ⟨_, _, by rw [lookup, hwalk]; rfl, hvalue, hsound'⟩

end Recursion

end ShareCoin.Lib
