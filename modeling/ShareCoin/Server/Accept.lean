import ShareCoin.Server.Commit

/-!
# `validation.cpp` — accepting headers and blocks

A header that is accepted gets an index; a block that is accepted gets `BLOCK_HAVE_DATA` in the
status of its index, and is committed when its chain has more work than the best one. The same bit
is what `CBlockIndex::IsInMainChain` looks at.

The checks on a block are verdicts that come with it (`BlockChecks`), as the calls of the commit do:
they may differ from one block to the next. `AcceptBlock` of a coin has checks of its own before it
calls `core_AcceptBlock`; together they are `accept`.
-/

namespace ShareCoin.Server

open Lib

variable {σ ι : Type} [DecidableEq ι]

/-- The verdicts of the checks on a block: those of `AcceptBlock`, `CheckTransactionInputs`,
    `CheckBlockHeader`, `ContextualCheckBlockHeader`, `CheckBlock` and `ContextualCheckBlock`, and
    whether the witness deployment is active. -/
structure BlockChecks where
  accept : Bool
  inputs : Bool
  header : Bool
  headerContext : Bool
  block : Bool
  blockContext : Bool
  witness : Bool
  deriving DecidableEq, Repr

/-! ## Headers -/

def BlockStatus.raiseValidity (nStatus : BlockStatus) (nUpTo : Nat) : BlockStatus :=
  if nStatus.failed then nStatus
  else if nStatus.validity < nUpTo then { nStatus with validity := nUpTo }
  else nStatus

/-- The status of a new index: `BLOCK_VALID_TREE`. -/
def BlockStatus.fresh : BlockStatus := ⟨2, false, false, false, false, false⟩

def createBlockIndex (t : BlockLinks ι) (pindex : ι) (s : ChainState σ ι) : ChainState σ ι :=
  if s.known pindex then s
  else
    { s.setStatus pindex .fresh with
      known := Function.update s.known pindex true
      pindexBestHeader :=
        match s.pindexBestHeader with
        | none => some pindex
        | some best =>
          if t.bnChainWork best < t.bnChainWork pindex then some pindex else some best }

section

variable (t : BlockLinks ι) (checks : BlockChecks) (pindex : ι) (s : ChainState σ ι)

def coreAcceptBlockHeader : Option (ChainState σ ι) :=
  match t.parent pindex with
  | none => some (createBlockIndex t pindex s)
  | some pindexPrev =>
    if s.known pindex then (if (s.nStatus pindex).failed then none else some s)
    else if ! s.known pindexPrev then none
    else if (s.nStatus pindexPrev).failed then none
    else if ! checks.header then none
    else if ! checks.headerContext then none
    else some (createBlockIndex t pindex s)

/-! ## Blocks -/

/-- "record that block could not be validated". -/
def markInvalid : ChainState σ ι :=
  { s.setStatus pindex { s.nStatus pindex with failedValid := true } with
    pindexBestHeader :=
      if s.pindexBestHeader = some pindex then none else s.pindexBestHeader }

/-- "record that whole valid block was received". -/
def markReceived : ChainState σ ι :=
  let nStatus := { s.nStatus pindex with
    haveData := true
    optWitness := (s.nStatus pindex).optWitness || checks.witness }
  s.setStatus pindex (nStatus.raiseValidity 3)

end

def setBestChain (t : BlockLinks ι) (calls : BlockCalls σ ι) (pindexNew : ι) (s : ChainState σ ι) :
    Bool × ChainState σ ι :=
  let r := coreCommitBlock t calls pindexNew s
  if r.1 then (true, { r.2.1 with bnBestChainWork := t.bnChainWork pindexNew })
  else (false, r.2.1)

def acceptBlock (t : BlockLinks ι) (checks : BlockChecks) (calls : BlockCalls σ ι) (pindex : ι)
    (s : ChainState σ ι) : Bool × ChainState σ ι :=
  match t.parent pindex with
  | none => (false, s)
  | some pindexPrev =>
    if ! s.known pindexPrev then (false, s)
    else if ! checks.accept then (false, s)
    else if ! checks.inputs then (false, s)
    else
      match coreAcceptBlockHeader t checks pindex s with
      | none => (false, s)
      | some s =>
        if (s.nStatus pindex).haveData then (true, s)
        else if ! checks.block then (false, markInvalid pindex s)
        else if ! checks.blockContext then (false, markInvalid pindex s)
        else
          let s := markReceived checks pindex s
          if t.bnChainWork pindex ≤ s.bnBestChainWork then (true, keepUndo calls pindex pindex s)
          else setBestChain t calls pindex s

/-- What arrives from the network: a header, or a block with what its calls will do. -/
inductive ChainOp (σ ι : Type) where
  | header (pindex : ι) (checks : BlockChecks)
  | block (pindex : ι) (checks : BlockChecks) (calls : BlockCalls σ ι)

section

variable (t : BlockLinks ι) (s : ChainState σ ι)

def chainStep : ChainOp σ ι → ChainState σ ι
  | .header pindex checks => (coreAcceptBlockHeader t checks pindex s).getD s
  | .block pindex checks calls => (acceptBlock t checks calls pindex s).2

/-- The chain after the genesis block was put in place: nothing else is known. -/
structure IsInitial : Prop where
  root : t.parent s.pindexBest = none
  known : ∀ i, s.known i = true ↔ i = s.pindexBest
  haveData : ∀ i, (s.nStatus i).haveData = true ↔ i = s.pindexBest

/-! ## The main chain -/

def isInMainChain (pindex : ι) : Bool := (s.nStatus pindex).haveData

end

structure CMerkleTx (ι : Type) where
  hashBlock : Option ι
  nIndex : Int

/-- `while (pindexBest && pindexBest->pnext) pindexBest = pindexBest->pnext`, for at most `fuel`
    steps. -/
def walkNext (s : ChainState σ ι) : Nat → ι → Option ι
  | 0, _ => none
  | fuel + 1, pindex =>
    match s.pnext pindex with
    | none => some pindex
    | some pnext => walkNext s fuel pnext

/-- `CMerkleTx::GetDepthInMainChain`. A color chain counts from where `pnext` leads, and has no
    value here when that takes more than `fuel` steps. -/
def getDepthInMainChain (t : BlockLinks ι) (s : ChainState σ ι) (color : Bool) (fuel : Nat)
    (tx : CMerkleTx ι) : Option Int :=
  match tx.hashBlock with
  | none => some 0
  | some pindex =>
    if tx.nIndex = -1 then some 0
    else if ! s.known pindex || ! isInMainChain s pindex then some 0
    else
      (if color then walkNext s fuel pindex else some s.pindexBest).map fun pindexBest =>
        (t.height pindexBest : Int) - t.height pindex + 1

end ShareCoin.Server
