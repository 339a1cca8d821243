import ShareCoin.Server.Accept
import ShareCoin.Wire.Block

/-!
# `validation.cpp` — the work of a chain

`CreateBlockIndex` gives a new index the work of its parent and its own, which `GetBlockWork`
computes from the target and the algorithm of the header. An index keeps it from then on, and its
parent was there before it. So the work of the chain of an index is a function of the headers below
it.
-/

namespace ShareCoin.Server

open Lib

/-- The indexes with the fields of their headers, before `CreateBlockIndex` adds the work. -/
structure HeaderTree (ι : Type) extends Forest ι where
  pskip : ι → Option ι
  nVersion : ι → UInt32
  nTime : ι → UInt32
  nBits : ι → UInt32

namespace HeaderTree

variable {ι : Type}

def blockWork (h : HeaderTree ι) (i : ι) : Nat :=
  Wire.getBlockWork (h.nVersion i).toInt32 (h.nBits i)

def chainWork (h : HeaderTree ι) : Nat → ι → Nat
  | 0, i => h.blockWork i
  | height + 1, i => ((h.parent i).map (h.chainWork height)).getD 0 + h.blockWork i

/-- The links that `CreateBlockIndex` makes of the headers. -/
def links (h : HeaderTree ι) : BlockLinks ι where
  toForest := h.toForest
  pskip := h.pskip
  bnChainWork i := h.chainWork (h.height i) i
  nVersion := h.nVersion
  nTime := h.nTime

end HeaderTree

end ShareCoin.Server
