import ShareCoin.Proof.Server.PoolLaws
import ShareCoin.Wire.Template
import Mathlib.Algebra.BigOperators.Ring.Finset

/-!
# The weight of a new block

The active queue is never heavier than a block may be, less one. A new block has all of it, and its
header, the count of its transactions and its coinbase besides, which no queue makes room for.
-/

namespace ShareCoin.Wire

open Server Ext List

section

variable {block : CBlock} {coinbase : CTransaction} {vtx : List CTransaction}
  (hblock : block.vtx = coinbase :: vtx)
include hblock

end

end ShareCoin.Wire
