import ShareCoin.Server.Color
import ShareCoin.Server.Connect
import ShareCoin.Wire.Witness

/-!
# `shc_block.cpp`, `block.cpp` — a block of one's own

`shc_CreateNewBlock` starts with a coinbase for the key of the miner and adds the active
transactions whose inputs are found. The coinbase gets the reward with their fees, less what a
matrix takes for an output of its own. Then the header is filled in, the coinbase commits to the
witness, and `core_IncrementExtraNonce` puts the height into its signature.

No step looks at the weight of the block. What the chain, the pool and the wallet are asked for is
in `TemplateEnv`.
-/

namespace ShareCoin.Wire

open Server hiding CTransaction
open Ext

section

variable (env : TemplateEnv) (rkey : List UInt8) (vPriority : List CTransaction)

end

end ShareCoin.Wire
