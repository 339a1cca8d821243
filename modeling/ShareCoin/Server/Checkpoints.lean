import ShareCoin.Server.Transaction
import Std.Data.TreeMap

/-!
# `checkpoints.cpp`, `shc_block.cpp`, `validation.cpp` — forks and the last checkpoint

`CCheckpoints` has the hashes of known blocks by their heights: some from the start, and others that
notary transactions add while the node runs. `SHCBlock::VerifyCheckpoint` is to keep a block out
that forks off below the last of them that the node has a block for.

The two statements that reject such a block return what a comma leaves, which is the text of a hash:
a pointer that is not null, so true. The times are unsigned, and so is their difference.
-/

namespace ShareCoin.Server

/-- `CBlockIndex`, as far as it is read here. -/
structure TimedIndex where
  nHeight : Int
  nTime : UInt32
  deriving DecidableEq

abbrev BlockLookup := Uint256 → Option TimedIndex

structure CCheckpoints where
  mapCheckpoints : Std.TreeMap Int Uint256

def CCheckpoints.checkBlock (cps : CCheckpoints) (nHeight : Int) (hash : Uint256) : Bool :=
  match cps.mapCheckpoints[nHeight]? with
  | none => true
  | some known => hash == known

def CCheckpoints.getLastCheckpoint (cps : CCheckpoints) (index : BlockLookup) : Option TimedIndex :=
  cps.mapCheckpoints.toList.reverse.findSome? fun i => index i.2

/-- `SHCBlock`, as far as it is read here. -/
structure TimedBlock where
  hash : Uint256
  hashPrevBlock : Uint256
  nTime : UInt32

/-- What a node knows when it looks at a block. `checkpoints` may be missing from its wallet. -/
structure CheckpointNode where
  index : BlockLookup
  /-- The hash of the best block. -/
  best : Uint256
  checkpoints : Option CCheckpoints

def CheckpointNode.lastCheckpoint (node : CheckpointNode) : Option TimedIndex :=
  node.checkpoints.bind fun cps => cps.getLastCheckpoint node.index

def CheckpointNode.checkBlock (node : CheckpointNode) (nHeight : Int) (hash : Uint256) : Bool :=
  match node.checkpoints with
  | none => true
  | some cps => cps.checkBlock nHeight hash

def verifyCheckpoint (node : CheckpointNode) (block : TimedBlock) (nHeight : Int) : Bool :=
  if block.hashPrevBlock ≠ node.best then
    match node.lastCheckpoint with
    | some checkpoint =>
      if nHeight < checkpoint.nHeight then true
      else
        let deltaTime : Int := (block.nTime - checkpoint.nTime).toNat
        if deltaTime < 0 then true else node.checkBlock nHeight block.hash
    | none => node.checkBlock nHeight block.hash
  else node.checkBlock nHeight block.hash

/-- The verdicts of the other checks of `ContextualCheckBlock` on a block and its parent: before and
    after the checkpoints are looked at. -/
structure ContextChecks where
  before : TimedBlock → Option TimedIndex → Bool
  after : TimedBlock → Option TimedIndex → Bool

/-- The height of a block on its parent. -/
def heightOn : Option TimedIndex → Int
  | none => 0
  | some pindexPrev => pindexPrev.nHeight + 1

def contextualCheckBlock (checks : ContextChecks) (node : CheckpointNode) (block : TimedBlock)
    (pindexPrev : Option TimedIndex) : Bool :=
  if ! checks.before block pindexPrev then false
  else if ! verifyCheckpoint node block (heightOn pindexPrev) then false
  else checks.after block pindexPrev

end ShareCoin.Server
