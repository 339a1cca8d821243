import ShareCoin.Server.Connect
import ShareCoin.Server.Interpreter

/-!
# `block.cpp` — relative lock times

`CalculateSequenceLocks` is given the heights of the blocks that the inputs come from.
`CheckSequenceLocks` finds them by the block of the previous transaction; `core_ConnectBlock` looks
the hash of the transaction up in the table of blocks (`checkSequenceLocks`).
-/

namespace ShareCoin.Server

/-- `LOCKTIME_VERIFY_SEQUENCE`, which is the bit of `SCRIPT_VERIFY_P2SH`. -/
def locktimeVerifySequence : UInt32 := 1

def standardLocktimeVerifyFlags : UInt32 := 3

/-- `GetAncestor(height)->GetMedianTimePast()` for a block with these ancestors and a height below
    its own. A block without any is refused whatever this is. -/
def medianTimeAt (medianTime : CBlockIndex → Int) : List Uint256 → Nat → Int
  | [], _ => 0
  | hash :: ancestors, height =>
    if height < ancestors.length then medianTimeAt medianTime ancestors height
    else medianTime { hash, ancestors }

/-- What an input that comes from a block of the given height does to `nMinHeight` and
    `nMinTime`. -/
def lockInput (medianTime : CBlockIndex → Int) (block : CBlockIndex) (lockPair : Int × Int)
    (input : CTxIn × Nat) : Int × Int :=
  let nSequence := input.1.nSequence.toNat
  let masked := nSequence &&& sequenceLocktimeMask
  if nSequence &&& sequenceLocktimeDisableFlag ≠ 0 then lockPair
  else if nSequence &&& sequenceLocktimeTypeFlag ≠ 0 then
    let nCoinTime := medianTimeAt medianTime block.ancestors (input.2 - 1)
    (lockPair.1, max lockPair.2 (nCoinTime + (masked <<< 9 : Nat) - 1))
  else (max lockPair.1 (input.2 + masked - 1), lockPair.2)

section

variable (medianTime : CBlockIndex → Int) (tx : CTransaction) (flags : UInt32)
  (prevHeights : List Nat) (block : CBlockIndex)
include medianTime

def calculateSequenceLocks : Int × Int :=
  if prevHeights.length ≠ tx.vin.length then (-1, -1)
  else if ! (decide (2 ≤ tx.getVersion) && testFlag flags locktimeVerifySequence) then (-1, -1)
  else (tx.vin.zip prevHeights).foldl (lockInput medianTime block) (-1, -1)

def evaluateSequenceLocks (lockPair : Int × Int) : Bool :=
  match block.pprev with
  | none => false
  | some pprev => decide (lockPair.1 < block.nHeight) && decide (lockPair.2 < medianTime pprev)

def sequenceLocks : Bool :=
  evaluateSequenceLocks medianTime block
    (calculateSequenceLocks medianTime tx flags prevHeights block)

end

/-- The height that `CheckSequenceLocks` finds for a previous transaction: that of its block
    (`GetBlockIndexByTx`), or the next one if it waits in the pool. -/
def prevHeight (env : TxEnv) (node : Node) (tip : CBlockIndex) (hash : Uint256) : Option Nat :=
  match (getTransaction env node.db hash).bind fun found => node.blockIndex found.2 with
  | some nHeight => some nHeight
  | none => if (node.pool.getTx env hash).isSome then some (tip.nHeight + 1) else none

def Node.checkSequenceLocks (env : TxEnv) (medianTime : CBlockIndex → Int) (node : Node)
    (tx : CTransaction) (flags : UInt32) : Bool :=
  match node.best with
  | none => false
  | some tip =>
    let index : CBlockIndex := { hash := 0, ancestors := tip.hash :: tip.ancestors }
    let nHeight := fun txin : CTxIn => prevHeight env node tip txin.prevout.hash
    (tx.vin.all fun txin => (nHeight txin).isSome) && sequenceLocks medianTime tx flags
      (tx.vin.map fun txin => (nHeight txin).getD 0) index

end ShareCoin.Server
