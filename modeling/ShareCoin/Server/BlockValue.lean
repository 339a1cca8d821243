import ShareCoin.Server.Transaction

/-!
# `*_block.cpp` — what a coinbase may pay

One function per coin, each from the height of a block and the fees of its transactions to the
greatest value of its coinbase. Two things come from elsewhere (`BlockValueEnv`): the Mersenne
twister that places the wormholes of two coins, and the reward of a colored chain before the fees,
which is computed in floating point.
-/

namespace ShareCoin.Server

def coinValue : Nat := 100000000

/-- `generateMTRandom(seed, 35820)`, and `(int64)(base / fact)` of `color_GetBlockValue` for the
    color of the chain. -/
structure BlockValueEnv where
  generateMTRandom : Nat → Nat
  colorBase : Nat → Int64

section

variable (nHeight : Nat) (nFees : Int64)

/-- `shc_GetBlockValue`. A shift by 64 or more, from height 47994752 on, is taken to leave nothing.
    -/
def shcGetBlockValue : Int64 :=
  if nHeight = 0 then Int64.ofNat (800 * coinValue)
  else
    let nSubsidy := 3334 * coinValue / 2 ^ (nHeight / 749918)
    Int64.ofNat (nSubsidy / 10000000 * 1000000) + nFees

def testGetBlockValue : Int64 :=
  if nHeight = 0 then Int64.ofNat (800 * coinValue)
  else Int64.ofNat ((nHeight + 1) * coinValue) + nFees

def testnetGetBlockValue : Int64 :=
  if nHeight = 0 then Int64.ofNat (800 * coinValue)
  else Int64.ofNat coinValue + nFees

end

section

variable (env : BlockValueEnv) (nHeight : Nat)

/-- The subsidy that two coins share: a wormhole of 180 blocks in each epoch of 36000, and a table
    of coins otherwise. -/
def wormholeSubsidy : Nat :=
  let epoch := nHeight / 36000 + if nHeight % 36000 ≠ 0 then 1 else 0
  let startOffset := env.generateMTRandom (5299860 * epoch % 2 ^ 32)
  let wormholeStartBlock : Int := startOffset + ((epoch : Int) - 1) * 36000
  if 1 < epoch ∧ epoch < 48 ∧ wormholeStartBlock ≤ nHeight ∧ nHeight < wormholeStartBlock + 180 then
    2973
  else if nHeight = 1 then 10747
  else if nHeight ≤ 72000 then 1024
  else if nHeight ≤ 144000 then 512
  else if nHeight ≤ 288000 then 256
  else if nHeight ≤ 432000 then 128
  else if nHeight ≤ 576000 then 64
  else if nHeight ≤ 864000 then 32
  else if nHeight ≤ 1080000 then 16
  else if nHeight ≤ 1584000 then 8
  else if nHeight ≤ 2304000 then 4
  else if nHeight ≤ 5256000 then 2
  else if nHeight ≤ 26280000 then 1
  else 0

def emc2GetBlockValue (nFees : Int64) : Int64 :=
  Int64.ofNat (wormholeSubsidy env nHeight * coinValue) + nFees

def ltcGetBlockValue (nFees : Int64) : Int64 :=
  Int64.ofNat (wormholeSubsidy env nHeight * coinValue) + nFees

/-- `color_GetBlockValue`. The last two steps round to a millionth and multiply by ten. -/
def colorGetBlockValue (nFees : Int64) : Int64 :=
  (env.colorBase nHeight + nFees) / 1000000 * 10000000

end

def getBlockValue (env : BlockValueEnv) (coin : CoinIface) (nHeight : Nat) (nFees : Int64) :
    Int64 :=
  match coin with
  | .test => testGetBlockValue nHeight nFees
  | .shc => shcGetBlockValue nHeight nFees
  | .emc2 => emc2GetBlockValue env nHeight nFees
  | .ltc => ltcGetBlockValue env nHeight nFees
  | .testnet => testnetGetBlockValue nHeight nFees
  | .color => colorGetBlockValue env nHeight nFees

end ShareCoin.Server
