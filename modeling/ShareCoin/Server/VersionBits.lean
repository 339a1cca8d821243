import ShareCoin.Lib.Memo
import ShareCoin.Lib.Run
import ShareCoin.Server.BlockTree
import ShareCoin.Server.Transaction

/-!
# `versionbits.cpp` — the state of a deployment

The state of a deployment is the same for all blocks of a period, and is computed from the parent of
the first block of the period. `GetStateFor` keeps what it has computed in a map for each coin and
deployment, keyed by that parent; the parent of the genesis block is `NULL`, here `none`.

Its two loops are those of a memoised recursion (`Recursion.walkBack` and `Recursion.walkForward`):
`vToCompute` is the stack, the test against the start time and the one for `NULL` give the base
values, and the switch on the state is `next`.
-/

namespace ShareCoin.Server

open Lib

variable {ι : Type}

inductive ThresholdState where
  | defined | started | lockedIn | active | failed
  deriving DecidableEq, Repr

inductive DeploymentPos where
  | testdummy | csv | segwit | reserved0 | reserved1 | reserved2 | algo | param | bolo
  deriving DecidableEq, Repr

structure BIP9Deployment where
  bit : UInt32
  nStartTime : Int
  nTimeout : Int

/-- The part of the coin interface that is read here. Every coin sets a window, and it fits an
    `int`. -/
structure VersionBitsParams where
  vDeployments : DeploymentPos → BIP9Deployment
  nRuleChangeActivationThreshold : UInt32
  nMinerConfirmationWindow : UInt32
  window_pos : 0 < nMinerConfirmationWindow.toNat
  window_lt : nMinerConfirmationWindow.toNat < 2 ^ 31

/-- `VersionBitsConditionChecker`, with the interface its functions are called with. -/
structure VersionBitsConditionChecker where
  id : DeploymentPos
  ifaceIndex : CoinIface
  params : VersionBitsParams

namespace VersionBitsConditionChecker

variable (c : VersionBitsConditionChecker)

def beginTime : Int := (c.params.vDeployments c.id).nStartTime

def endTime : Int := (c.params.vDeployments c.id).nTimeout

def period : Nat := c.params.nMinerConfirmationWindow.toNat

def threshold : Int := c.params.nRuleChangeActivationThreshold.toInt32.toInt

def mask : UInt32 := 1 <<< (c.params.vDeployments c.id).bit

/-- The block signals: `VERSIONBITS_TOP_BITS` under `VERSIONBITS_TOP_MASK`, and the bit. -/
def condition (nVersion : UInt32) : Bool :=
  nVersion &&& 0xE0000000 == 0x20000000 && nVersion &&& c.mask != 0

end VersionBitsConditionChecker

/-- `IsAlgoBitsMask`: from `ALGOBITS_TOP_BITS` to below `ALGOBITS_TOP_MASK`. -/
def isAlgoBitsMask (nVersion : UInt32) : Bool :=
  decide (0xE0000000 ≤ nVersion) && decide (nVersion < 0xE000FFFF)

/-- `fAlgo`: the coins whose blocks may name an algorithm in their version. -/
def hasAlgoBits : CoinIface → Bool
  | .test | .testnet | .shc | .color => true
  | .emc2 | .ltc => false

/-! ## The next state -/

/-- The loop that counts, along the chain of the index it starts at. A block whose version names an
    algorithm does not count towards the period. -/
def countSignals (t : BlockLinks ι) (c : VersionBitsConditionChecker) : List ι → Nat → Nat → Nat
  | [], _, count => count
  | pindexCount :: chain, idx, count =>
    if idx < c.period then
      if !hasAlgoBits c.ifaceIndex || !isAlgoBitsMask (t.nVersion pindexCount) then
        countSignals t c chain (idx + 1)
          (if c.condition (t.nVersion pindexCount) then count + 1 else count)
      else countSignals t c chain idx count
    else count

section

variable (t : BlockLinks ι) (c : VersionBitsConditionChecker)

def stateNext (state : ThresholdState) (pindexPrev : ι) : ThresholdState :=
  match state with
  | .defined =>
    if c.endTime ≤ getMedianTimePast t pindexPrev then .failed
    else if c.beginTime ≤ getMedianTimePast t pindexPrev then .started
    else .defined
  | .started =>
    if c.endTime ≤ getMedianTimePast t pindexPrev then .failed
    else if c.threshold ≤ countSignals t c (t.chain pindexPrev) 0 0 then .lockedIn
    else .started
  | .lockedIn => .active
  | .failed => .failed
  | .active => .active

/-! ## `GetStateFor` -/

def periodStart : Option ι → Option ι
  | none => none
  | some pindexPrev =>
    getAncestor t pindexPrev (t.height pindexPrev - ((t.height pindexPrev + 1) % c.period : Nat))

def thresholdRecursion : Recursion (Option ι) ThresholdState where
  base
    | none => some .defined
    | some pindexPrev =>
      if getMedianTimePast t pindexPrev < c.beginTime then some .defined else none
  prev
    | none => none
    | some pindexPrev => getAncestor t pindexPrev (t.height pindexPrev - c.period)
  next
    | state, none => state
    | state, some pindexPrev => stateNext t c state pindexPrev

def nextHeight : Option ι → Nat
  | none => 0
  | some pindexPrev => t.height pindexPrev + 1

end

variable [DecidableEq ι]

/-- `GetStateFor`: the state and the cache afterwards. The walk back takes no more steps than the
    height of the block it starts at. -/
def getStateFor (t : BlockLinks ι) (c : VersionBitsConditionChecker)
    (cache : Option ι → Option ThresholdState) (pindexPrev : Option ι) :
    Option (ThresholdState × (Option ι → Option ThresholdState)) :=
  (thresholdRecursion t c).lookup cache (nextHeight t (periodStart t c pindexPrev))
    (periodStart t c pindexPrev)

def VersionBitsCaches (ι : Type) : Type :=
  CoinIface → DeploymentPos → Option ι → Option ThresholdState

/-- The arguments of `VersionBitsState`. -/
structure StateQuery (ι : Type) where
  pindexPrev : Option ι
  iface : CoinIface
  pos : DeploymentPos

def StateQuery.checker (params : CoinIface → VersionBitsParams) (q : StateQuery ι) :
    VersionBitsConditionChecker :=
  ⟨q.pos, q.iface, params q.iface⟩

def versionBitsState (t : BlockLinks ι) (params : CoinIface → VersionBitsParams)
    (caches : VersionBitsCaches ι) (q : StateQuery ι) :
    Option (ThresholdState × VersionBitsCaches ι) :=
  (getStateFor t (q.checker params) (caches q.iface q.pos) q.pindexPrev).map
    fun (state, cache) => (state, fun iface pos =>
      if iface = q.iface ∧ pos = q.pos then cache else caches iface pos)

def stateAfter (t : BlockLinks ι) (params : CoinIface → VersionBitsParams)
    (queries : List (StateQuery ι)) (q : StateQuery ι) : Option ThresholdState :=
  (exec (fun caches q => (versionBitsState t params caches q).map Prod.snd)
    (fun _ _ _ => none : VersionBitsCaches ι) queries).bind fun caches =>
      (versionBitsState t params caches q).map Prod.fst

end ShareCoin.Server
