import Mathlib.Data.Finset.Card

/-!
# `mruset.h` — a set of the most recent elements

`set` answers what is in, `queue` has the order in which it came.
-/

namespace ShareCoin.Server

structure MruSet (T : Type) where
  set : Finset T
  queue : List T
  nMaxSize : Nat

namespace MruSet

inductive Op (T : Type)
  | insert (x : T)
  | maxSize (s : Nat)

variable {T : Type} [DecidableEq T]

def new (nMaxSizeIn : Nat) : MruSet T := ⟨∅, [], nMaxSizeIn⟩

/-- The second part of what it returns is whether the element is new. -/
def insert (m : MruSet T) (x : T) : MruSet T × Bool :=
  if x ∈ m.set then (m, false)
  else
    let set := Insert.insert x m.set
    match m.nMaxSize != 0 && m.queue.length == m.nMaxSize, m.queue with
    | true, front :: queue => (⟨set.erase front, queue ++ [x], m.nMaxSize⟩, true)
    | _, queue => (⟨set, queue ++ [x], m.nMaxSize⟩, true)

/-- The loop of `max_size`. -/
def shrink (s : Nat) : Finset T → List T → Finset T × List T
  | set, [] => (set, [])
  | set, front :: queue =>
    if s < (front :: queue).length then shrink s (set.erase front) queue
    else (set, front :: queue)

def maxSize (m : MruSet T) (s : Nat) : MruSet T :=
  let (set, queue) := if s = 0 then (m.set, m.queue) else shrink s m.set m.queue
  ⟨set, queue, s⟩

def step (m : MruSet T) : Op T → MruSet T
  | .insert x => (m.insert x).1
  | .maxSize s => m.maxSize s

end MruSet

end ShareCoin.Server
