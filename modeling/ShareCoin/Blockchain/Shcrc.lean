import Mathlib.Data.UInt

/-!
# `shcrc` — the checksum the record store and the validate matrix share

`share-lib`'s `shcrc` folds the data four bytes at a time into four accumulators: `a` and `b`
add the little-endian word, `c` and `d` only the first byte of it, modulo `MOD_SHCRC`. Nothing
below depends on the checksum being any good; what the store needs is that it is a function of
the bytes, and what the validate matrix needs is its value at a block hash.
-/

namespace ShareCoin.Blockchain

def modShcrc : UInt32 := 65521

/-- The four running sums of `shcrc`: `a` and `c` are `uint32_t`, `b` and `d` are `uint64_t`. -/
structure ShcrcAcc where
  a : UInt32
  b : UInt64
  c : UInt32
  d : UInt64
  deriving Repr, DecidableEq

/-- One trip of the loop: `num` is the word `*num_p`, `fst` the byte `raw_data[idx]`. -/
def ShcrcAcc.add (s : ShcrcAcc) (num : UInt32) (fst : UInt8) : ShcrcAcc :=
  let a := s.a + num
  let b := s.b + a.toUInt64
  let c := (s.c + fst.toUInt32) % modShcrc
  { a := a, b := b, c := c, d := (s.d + c.toUInt64) % modShcrc.toUInt64 }

/-- The word `memcpy` assembles from up to four bytes, least significant byte first. -/
def leWord (w x y z : UInt8) : UInt32 :=
  w.toUInt32 + x.toUInt32 * 0x100 + y.toUInt32 * 0x10000 + z.toUInt32 * 0x1000000

def shcrcLoop : ShcrcAcc → List UInt8 → ShcrcAcc
  | s, w :: x :: y :: z :: rest => shcrcLoop (s.add (leWord w x y z) w) rest
  | s, [w, x, y] => s.add (leWord w x y 0) w
  | s, [w, x] => s.add (leWord w x 0 0) w
  | s, [w] => s.add (leWord w 0 0 0) w
  | s, [] => s

/-- `htonll` on a little-endian host: the eight bytes in reverse order. -/
def htonll (v : UInt64) : UInt64 :=
  (List.range 8).foldl
    (fun (acc : UInt64) (i : Nat) => acc * 0x100 + ((v >>> (8 * UInt64.ofNat i)) &&& 0xFF)) 0

def shcrc (data : List UInt8) : UInt64 :=
  let s := shcrcLoop { a := 1, b := 0, c := 1, d := 0 } data
  htonll (((s.d <<< 16) ||| s.c.toUInt64) + ((s.b <<< 32) ||| s.a.toUInt64))

def shcrc32 (data : List UInt8) : UInt32 := (shcrc data &&& 0xFFFFFFFF).toUInt32

end ShareCoin.Blockchain
