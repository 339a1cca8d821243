import ShareCoin.Server.Accept

/-!
# `wallet.cpp` — block locators

A node that asks for headers or blocks sends the hashes of some blocks of its chain, the nearest to
its tip first: every one at first, then with steps that double. The other node starts after the
first of them that it has in its main chain. An index stands for its hash.
-/

namespace ShareCoin.Server

open Lib

variable {σ ι : Type}

/-- The loop of `GetLocator`, with `size` blocks in `vHave`. No step overflows below `2 ^ 30`. -/
def getLocatorLoop (t : Forest ι) : Nat → Nat → Nat → ι → List ι
  | 0, _, _, _ => []
  | fuel + 1, nStep, size, pindex =>
    pindex ::
      if t.height pindex = 0 then []
      else
        let nHeight := t.height pindex - nStep
        -- `while (pindex->nHeight > nHeight) pindex = pindex->pprev`: a parent is one lower
        match t.up (t.height pindex - nHeight) pindex with
        | none => []
        | some pindex =>
          getLocatorLoop t fuel (if 10 < size + 1 then nStep * 2 else nStep) (size + 1) pindex

def getLocator (t : Forest ι) (s : ChainState σ ι) (pindex : Option ι) : List ι :=
  let pindex := pindex.getD s.pindexBest
  getLocatorLoop t (t.height pindex + 1) 1 0 pindex

def getLocatorIndex (s : ChainState σ ι) (genesis : ι) (vHave : List ι) : ι :=
  (vHave.find? fun pindex => s.known pindex && isInMainChain s pindex).getD genesis

end ShareCoin.Server
