import Mathlib.Data.UInt

/-!
# Serializers that read back what they wrote

A `Codec` is a writer, a reader and a function for the number of bytes, as a class with
hand-written serialization has them. Not everything that is written can be read back, and what is
read back need not be what was written: a reader may refuse sizes, and a field may not be part of
the bytes. So a codec says of which values the reader gets the bytes back (`fits`) and what it makes
of them (`norm`), and carries the proof: in front of any bytes that follow, the reader returns
`norm a` and leaves what follows.

The combinators build the codec of a record from those of its fields, and their laws with it.
-/

namespace ShareCoin.Lib

structure Codec (α : Type) where
  put : α → List UInt8
  get : List UInt8 → Option (α × List UInt8)
  size : α → UInt32
  fits : α → Prop
  norm : α → α
  get_put : ∀ {a : α} (rest : List UInt8), fits a → get (put a ++ rest) = some (norm a, rest)
  put_norm : ∀ {a : α}, fits a → put (norm a) = put a
  size_eq : ∀ a, size a = UInt32.ofNat (put a).length

namespace Codec

variable {α β κ : Type} {c : Codec α} {fields : β → α} {make : α → β} {l : List α}
  {h : ∀ a, fields (make a) = a}

/-! ## Words -/

/-- The low `n` bytes, the lowest first. -/
def leBytes : Nat → Nat → List UInt8
  | 0, _ => []
  | n + 1, x => UInt8.ofNat x :: leBytes n (x / 256)

/-- The number in the bytes, the lowest first. -/
def leValue : List UInt8 → Nat
  | [] => 0
  | b :: bytes => b.toNat + 256 * leValue bytes

@[simp] theorem leBytes_length (n x : Nat) : (leBytes n x).length = n := by
  induction n generalizing x with
  | zero => rfl
  | succ n ih => rw [leBytes, List.length_cons, ih]

theorem leValue_leBytes {n x : Nat} (h : x < 256 ^ n) : leValue (leBytes n x) = x := by
  induction n generalizing x with
  | zero =>
    have h0 : x = 0 := by simpa using h
    rw [h0]
    rfl
  | succ n ih =>
    have hdiv : x / 256 < 256 ^ n := by
      rw [Nat.div_lt_iff_lt_mul (by decide)]
      rwa [Nat.pow_succ] at h
    rw [leBytes, leValue, ih hdiv]
    exact Nat.mod_add_div x 256

def word (n : Nat) (toNat : α → Nat) (ofNat : Nat → α) (hlt : ∀ a, toNat a < 256 ^ n)
    (hof : ∀ a, ofNat (toNat a) = a) : Codec α where
  put a := leBytes n (toNat a)
  get bytes := if bytes.length < n then none
    else some (ofNat (leValue (bytes.take n)), bytes.drop n)
  size _ := UInt32.ofNat n
  fits _ := True
  norm a := a
  get_put := by
    intro a rest _
    have hlen : ¬ (leBytes n (toNat a) ++ rest).length < n := by simp
    have htake : (leBytes n (toNat a) ++ rest).take n = leBytes n (toNat a) :=
      List.take_left' (leBytes_length n _)
    have hdrop : (leBytes n (toNat a) ++ rest).drop n = rest :=
      List.drop_left' (leBytes_length n _)
    rw [if_neg hlen, htake, hdrop, leValue_leBytes (hlt a), hof]
  put_norm _ := rfl
  size_eq a := by rw [leBytes_length]

/-! ## Records -/

/-- One after the other. -/
def pair (c : Codec α) (d : Codec β) : Codec (α × β) where
  put x := c.put x.1 ++ d.put x.2
  get bytes := do
    let (a, bytes) ← c.get bytes
    let (b, bytes) ← d.get bytes
    some ((a, b), bytes)
  size x := c.size x.1 + d.size x.2
  fits x := c.fits x.1 ∧ d.fits x.2
  norm x := (c.norm x.1, d.norm x.2)
  get_put := by
    intro x rest h
    rw [List.append_assoc, c.get_put _ h.1]
    show (d.get (d.put x.2 ++ rest)).bind _ = _
    rw [d.get_put _ h.2]
    rfl
  put_norm h := by rw [c.put_norm h.1, d.put_norm h.2]
  size_eq x := by rw [c.size_eq, d.size_eq, List.length_append, UInt32.ofNat_add]

/-- A record, as the tuple of what is written of it. What is not part of the tuple is lost. -/
def record (c : Codec α) (make : α → β) (fields : β → α) (h : ∀ a, fields (make a) = a) :
    Codec β where
  put b := c.put (fields b)
  get bytes := (c.get bytes).map fun (a, bytes) => (make a, bytes)
  size b := c.size (fields b)
  fits b := c.fits (fields b)
  norm b := make (c.norm (fields b))
  get_put := by
    intro b rest hb
    rw [c.get_put _ hb]
    rfl
  put_norm hb := by rw [h, c.put_norm hb]
  size_eq b := c.size_eq _

/-- How the second part is written depends on the first. -/
def dep (c : Codec α) (key : α → κ) (hkey : ∀ a, key (c.norm a) = key a) (d : κ → Codec β) :
    Codec (α × β) where
  put x := c.put x.1 ++ (d (key x.1)).put x.2
  get bytes := do
    let (a, bytes) ← c.get bytes
    let (b, bytes) ← (d (key a)).get bytes
    some ((a, b), bytes)
  size x := c.size x.1 + (d (key x.1)).size x.2
  fits x := c.fits x.1 ∧ (d (key x.1)).fits x.2
  norm x := (c.norm x.1, (d (key x.1)).norm x.2)
  get_put := by
    intro x rest h
    rw [List.append_assoc, c.get_put _ h.1]
    show ((d (key (c.norm x.1))).get ((d (key x.1)).put x.2 ++ rest)).bind _ = _
    rw [hkey, (d (key x.1)).get_put _ h.2]
    rfl
  put_norm h := by rw [c.put_norm h.1, hkey, (d _).put_norm h.2]
  size_eq x := by rw [c.size_eq, (d _).size_eq, List.length_append, UInt32.ofNat_add]

/-- Written only if `b` holds; a reader that skips it leaves `null`. -/
def opt (b : Bool) (null : α) (c : Codec α) : Codec α :=
  if b then c
  else
    { put := fun _ => []
      get := fun bytes => some (null, bytes)
      size := fun _ => 0
      fits := fun _ => True
      norm := fun _ => null
      get_put := fun _ _ => rfl
      put_norm := fun _ => rfl
      size_eq := fun _ => rfl }

/-- A value that the writer has and the reader throws away. -/
def skip (c : Codec α) (a : α) : Codec Unit where
  put _ := c.put a
  get bytes := (c.get bytes).map fun (_, bytes) => ((), bytes)
  size _ := c.size a
  fits _ := c.fits a
  norm _ := ()
  get_put := by
    intro _ rest h
    rw [c.get_put _ h]
    rfl
  put_norm _ := rfl
  size_eq _ := c.size_eq a

/-! ## Lists -/

/-- Reading `n` elements. -/
def getN (c : Codec α) : Nat → List UInt8 → Option (List α × List UInt8)
  | 0, bytes => some ([], bytes)
  | n + 1, bytes => do
    let (a, bytes) ← c.get bytes
    let (l, bytes) ← getN c n bytes
    some (a :: l, bytes)

def putAll (c : Codec α) (l : List α) : List UInt8 := l.flatMap c.put

def sizeAll (c : Codec α) (l : List α) : UInt32 := l.foldr (fun a n => c.size a + n) 0

theorem getN_putAll (h : ∀ a ∈ l, c.fits a) (rest : List UInt8) :
    c.getN l.length (c.putAll l ++ rest) = some (l.map c.norm, rest) := by
  induction l with
  | nil => rfl
  | cons a l ih =>
    have hl := ih (List.forall_mem_cons.mp h).2
    show ((c.get (c.put a ++ c.putAll l ++ rest)).bind _) = _
    rw [List.append_assoc, c.get_put _ (h a List.mem_cons_self)]
    show (c.getN l.length (c.putAll l ++ rest)).bind _ = _
    rw [hl]
    rfl

theorem putAll_norm (h : ∀ a ∈ l, c.fits a) : c.putAll (l.map c.norm) = c.putAll l := by
  induction l with
  | nil => rfl
  | cons a l ih =>
    have hl := ih (List.forall_mem_cons.mp h).2
    show c.put (c.norm a) ++ c.putAll (l.map c.norm) = c.put a ++ c.putAll l
    rw [hl, c.put_norm (h a List.mem_cons_self)]

theorem sizeAll_eq (c : Codec α) (l : List α) : c.sizeAll l = UInt32.ofNat (c.putAll l).length := by
  induction l with
  | nil => rfl
  | cons a l ih =>
    show c.size a + c.sizeAll l = UInt32.ofNat (c.put a ++ c.putAll l).length
    rw [ih, c.size_eq, List.length_append, UInt32.ofNat_add]

def list (count : Codec Nat) (hcount : ∀ n, count.norm n = n) (c : Codec α) : Codec (List α) where
  put l := count.put l.length ++ c.putAll l
  get bytes := do
    let (n, bytes) ← count.get bytes
    c.getN n bytes
  size l := count.size l.length + c.sizeAll l
  fits l := count.fits l.length ∧ ∀ a ∈ l, c.fits a
  norm l := l.map c.norm
  get_put := by
    intro l rest h
    rw [List.append_assoc, count.get_put _ h.1, hcount]
    exact getN_putAll h.2 rest
  put_norm h := by rw [List.length_map, putAll_norm h.2]
  size_eq l := by rw [count.size_eq, sizeAll_eq, List.length_append, UInt32.ofNat_add]

def vector (n : Nat) (c : Codec α) : Codec (Vector α n) where
  put v := c.putAll v.toList
  get bytes := do
    let (l, bytes) ← c.getN n bytes
    if h : l.length = n then some (⟨l.toArray, by simpa using h⟩, bytes) else none
  size v := c.sizeAll v.toList
  fits v := ∀ a ∈ v.toList, c.fits a
  norm v := v.map c.norm
  get_put := by
    intro v rest h
    have hget := getN_putAll h rest
    rw [Vector.length_toList] at hget
    rw [hget]
    show (if _ : (v.toList.map c.norm).length = n then _ else none) = _
    rw [dif_pos (by simp)]
    congr 2
    apply Vector.toList_inj.mp
    rw [Vector.toList_map]
    simp
  put_norm h := by rw [Vector.toList_map, putAll_norm h]
  size_eq v := sizeAll_eq c _

/-! ## What can be read back -/

@[simp] theorem fits_word {n : Nat} {toNat : α → Nat} {ofNat : Nat → α}
    {hlt : ∀ a, toNat a < 256 ^ n} {hof : ∀ a, ofNat (toNat a) = a} {a : α} :
    (word n toNat ofNat hlt hof).fits a :=
  trivial

@[simp] theorem fits_pair {d : Codec β} {x : α × β} : (c.pair d).fits x ↔ c.fits x.1 ∧ d.fits x.2 :=
  Iff.rfl

@[simp] theorem fits_record {b : β} : (c.record make fields h).fits b ↔ c.fits (fields b) :=
  Iff.rfl

@[simp] theorem fits_skip {a : α} {u : Unit} : (c.skip a).fits u ↔ c.fits a :=
  Iff.rfl

@[simp] theorem fits_opt {b : Bool} {null : α} {a : α} :
    (opt b null c).fits a ↔ (b = true → c.fits a) := by
  cases b <;> simp [opt]

@[simp] theorem fits_list {count : Codec Nat} {hcount : ∀ n, count.norm n = n} :
    (list count hcount c).fits l ↔ count.fits l.length ∧ ∀ a ∈ l, c.fits a :=
  Iff.rfl

/-! ## Nothing lost -/

/-- What is read back is what was written. -/
def Exact (c : Codec α) : Prop := ∀ a, c.norm a = a

theorem Exact.pair {d : Codec β} (hc : c.Exact) (hd : d.Exact) : (c.pair d).Exact :=
  fun x => Prod.ext (hc x.1) (hd x.2)

theorem Exact.norm_record (hc : c.Exact) (b : β) :
    (c.record make fields h).norm b = make (fields b) := by
  show make (c.norm (fields b)) = make (fields b)
  rw [hc]

theorem Exact.record (hc : c.Exact) (hmake : ∀ b, make (fields b) = b) :
    (c.record make fields h).Exact :=
  fun b => (hc.norm_record b).trans (hmake b)

theorem Exact.list {count : Codec Nat} {hcount : ∀ n, count.norm n = n} (hc : c.Exact) :
    (Codec.list count hcount c).Exact := by
  intro l
  show l.map c.norm = l
  rw [show c.norm = id from funext hc, List.map_id]

theorem Exact.vector {n : Nat} (hc : c.Exact) : (Codec.vector n c).Exact := by
  intro v
  show v.map c.norm = v
  rw [show c.norm = id from funext hc, Vector.map_id]

theorem norm_opt (b : Bool) (null : α) (c : Codec α) (a : α) :
    (opt b null c).norm a = if b then c.norm a else null := by
  unfold opt
  split_ifs <;> rfl

theorem put_opt_select (b : Bool) (null : α) (c : Codec α) (a : α) :
    (opt b null c).put (if b then a else null) = (opt b null c).put a := by
  cases b <;> rfl

end Codec

end ShareCoin.Lib
