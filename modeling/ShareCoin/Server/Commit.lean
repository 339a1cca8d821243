import ShareCoin.Server.BlockTree

/-!
# `block.cpp` — committing a block

`core_CommitBlock` makes a new block the best block. It disconnects the blocks of the current chain
down to the fork, connects those of the new one, and ends at the label `fin`, where the best block
is set: at the last block reached, or at the new block when that block is a child of the old best.

What a block does to the coins, the wallet and the pool is not looked into here. It is the state
`σ`, and `BlockCalls` has the calls that change it, each with the verdict it returns. A commit also
returns the calls it made, in their order; the source does not keep this list.
-/

namespace ShareCoin.Server

open Lib

/-- `nStatus` of an index, bit by bit; `validity` is what `BLOCK_VALID_MASK` covers. -/
structure BlockStatus where
  validity : Nat
  haveData : Bool
  haveUndo : Bool
  failedValid : Bool
  failedChild : Bool
  optWitness : Bool
  deriving DecidableEq, Repr

def BlockStatus.failed (nStatus : BlockStatus) : Bool := nStatus.failedValid || nStatus.failedChild

/-- The calls on a block that a commit makes. `readBlock` is `GetBlockByHash`, and then
    `GetArchBlockByHash`; `disconnectInputs` is what `DisconnectBlock` does besides the status. -/
structure BlockCalls (σ ι : Type) where
  enabled : Bool
  readBlock : σ → ι → Bool
  writeArchBlock : ι → σ → Bool × σ
  connectBlock : ι → σ → Bool × σ
  disconnectInputs : ι → σ → Bool × σ
  settlePool : List ι → List ι → σ → σ

/-- The chain of a coin: its table of indexes, and the fields of the wallet and the interface that
    name blocks. -/
structure ChainState (σ ι : Type) where
  store : σ
  known : ι → Bool
  nStatus : ι → BlockStatus
  pnext : ι → Option ι
  pindexBest : ι
  pindexBestHeader : Option ι
  bnBestChainWork : Nat

/-- A call made during a commit, and its verdict. -/
inductive Call (ι : Type) where
  | disconnect (pindex : ι) (ok : Bool)
  | connect (pindex : ι) (ok : Bool)
  deriving DecidableEq, Repr

variable {σ ι : Type} [DecidableEq ι]

def ChainState.setStatus (s : ChainState σ ι) (pindex : ι) (nStatus : BlockStatus) :
    ChainState σ ι :=
  { s with nStatus := Function.update s.nStatus pindex nStatus }

/-! ## `GetCommitBranches` -/

/-- `while (plonger->nHeight > pfork->nHeight) plonger = plonger->pprev`; `none` when the chain
    ends. -/
def lowerTo (t : BlockLinks ι) (height : Nat) : Nat → ι → Option ι
  | fuel, plonger =>
    if t.height plonger ≤ height then some plonger
    else
      match fuel with
      | 0 => none
      | fuel + 1 => (t.parent plonger).bind (lowerTo t height fuel)

/-- The search for the fork. An iteration lowers `pfork`, so there are at most as many as its
    height. -/
def findFork (t : BlockLinks ι) : Nat → ι → ι → Option ι
  | fuel, pfork, plonger =>
    if pfork = plonger then some pfork
    else
      match lowerTo t (t.height pfork) (t.height plonger) plonger with
      | none => none
      | some plonger =>
        if pfork = plonger then some pfork
        else
          match fuel with
          | 0 => none
          | fuel + 1 => (t.parent pfork).bind fun pprev => findFork t fuel pprev plonger

def branchTo (t : BlockLinks ι) (pfork : ι) : Nat → ι → Option (List ι)
  | fuel, pindex =>
    if pindex = pfork then some []
    else
      match fuel with
      | 0 => none
      | fuel + 1 =>
        (t.parent pindex).bind fun pprev => (branchTo t pfork fuel pprev).map (pindex :: ·)

/-- `GetCommitBranches`: the blocks to connect and the blocks to disconnect, each in the order of
    the calls. -/
def getCommitBranches (t : BlockLinks ι) (pbest pindexNew : ι) : Option (List ι × List ι) := do
  let pfork ← findFork t (t.height pbest) pbest pindexNew
  let vDisconnect ← branchTo t pfork (t.height pbest) pbest
  let vConnect ← branchTo t pfork (t.height pindexNew) pindexNew
  some (vConnect.reverse, vDisconnect)

/-! ## `core_CommitBlock` -/

def coreDisconnectBlock (calls : BlockCalls σ ι) (pindex : ι) (s : ChainState σ ι) :
    Bool × ChainState σ ι :=
  if ! calls.enabled then (false, s)
  else
    let s := s.setStatus pindex { s.nStatus pindex with haveData := false }
    let r := calls.disconnectInputs pindex s.store
    (r.1, { s with store := r.2 })

/-- `if (pblock->WriteArchBlock()) pindex->nStatus |= BLOCK_HAVE_UNDO`. The block written is the new
    one, also when the index is that of a disconnected block. -/
def keepUndo (calls : BlockCalls σ ι) (pindexNew pindex : ι) (s : ChainState σ ι) :
    ChainState σ ι :=
  let r := calls.writeArchBlock pindexNew s.store
  if r.1 then { s with store := r.2 }.setStatus pindex { s.nStatus pindex with haveUndo := true }
  else { s with store := r.2 }

/-- The variables of a commit while it walks: `fValid` is false once `pindexFail` is set. -/
structure CommitWalk (σ ι : Type) where
  state : ChainState σ ι
  pindexLast : ι
  pindexFail : Option ι
  log : List (Call ι)

def CommitWalk.start (s : ChainState σ ι) : CommitWalk σ ι :=
  { state := s, pindexLast := s.pindexBest, pindexFail := none, log := [] }

section

variable (t : BlockLinks ι) (w : CommitWalk σ ι) (pindex : ι) (s : ChainState σ ι)

def CommitWalk.disconnected : CommitWalk σ ι :=
  { state := s
    pindexLast := (t.parent pindex).getD w.pindexLast
    pindexFail := none
    log := w.log ++ [.disconnect pindex true] }

/-- A block was connected. -/
def CommitWalk.connected : CommitWalk σ ι :=
  { state := s
    pindexLast := pindex
    pindexFail := none
    log := w.log ++ [.connect pindex true] }

end

/-- "perform discon". -/
def disconnectWalk (t : BlockLinks ι) (calls : BlockCalls σ ι) (pindexNew : ι) :
    List ι → CommitWalk σ ι → CommitWalk σ ι
  | [], w => w
  | pindex :: vDisconnect, w =>
    let r := coreDisconnectBlock calls pindex w.state
    if r.1 then
      disconnectWalk t calls pindexNew vDisconnect
        (w.disconnected t pindex (keepUndo calls pindexNew pindex r.2))
    else
      { w with
        state := r.2
        pindexFail := some pindex
        log := w.log ++ [.disconnect pindex false] }

def ChainState.setHaveData (s : ChainState σ ι) (pindex : ι) : ChainState σ ι :=
  s.setStatus pindex { s.nStatus pindex with haveData := true }

def connectWalk (calls : BlockCalls σ ι) : List ι → CommitWalk σ ι → CommitWalk σ ι
  | [], w => w
  | pindex :: vConnect, w =>
    let r := calls.connectBlock pindex w.state.store
    let s := { w.state with store := r.2 }
    if r.1 then connectWalk calls vConnect (w.connected pindex (s.setHaveData pindex))
    else
      { w with state := s, pindexFail := some pindex, log := w.log ++ [.connect pindex false] }

/-- The links along the main chain: those of the blocks left are cut, then the new ones are set. -/
def relink (t : BlockLinks ι) (vConnect vDisconnect : List ι) (pnext : ι → Option ι) :
    ι → Option ι :=
  let cut := vDisconnect.foldl (fun pnext pindex =>
    match t.parent pindex with
    | some pprev => Function.update pnext pprev none
    | none => pnext) pnext
  vConnect.foldl (fun pnext pindex =>
    match t.parent pindex with
    | some pprev => Function.update pnext pprev (some pindex)
    | none => pnext) cut

def commitFin (t : BlockLinks ι) (pbest pindexNew : ι) (w : CommitWalk σ ι) : ChainState σ ι :=
  if t.parent w.pindexLast ≠ some pbest then
    let s := { w.state with
      pindexBest := w.pindexLast
      bnBestChainWork := t.bnChainWork w.pindexLast
      pindexBestHeader := some w.pindexLast }
    match w.pindexFail with
    | some pindexFail => s.setStatus pindexFail { s.nStatus pindexFail with failedValid := true }
    | none => s
  else { w.state with pindexBest := pindexNew }

section

variable (t : BlockLinks ι) (calls : BlockCalls σ ι)

/-- The two walks, and what follows when both end. -/
def commitWalk (pindexNew : ι) (vConnect vDisconnect : List ι) (s : ChainState σ ι) :
    CommitWalk σ ι :=
  let w := disconnectWalk t calls pindexNew vDisconnect (.start s)
  if w.pindexFail.isSome then w
  else
    let w := connectWalk calls vConnect w
    if w.pindexFail.isSome then w
    else
      { w with state := { w.state with
          pnext := relink t vConnect vDisconnect w.state.pnext
          store := calls.settlePool vDisconnect vConnect w.state.store } }

/-- `pblock->hashPrevBlock != pbest->GetBlockHash()`. -/
def leavesBest (s : ChainState σ ι) (pindexNew : ι) : Bool :=
  decide (t.parent pindexNew ≠ some s.pindexBest)

/-- "retain in archive db", for a block that does not extend the best one. -/
def archiveNew (pindexNew : ι) (s : ChainState σ ι) : ChainState σ ι :=
  if leavesBest t s pindexNew then keepUndo calls pindexNew pindexNew s else s

/-- "ensure new chain has no previously invalidated blocks". -/
def chainInvalid (s : ChainState σ ι) (vConnect : List ι) : Bool :=
  vConnect.any fun pindexTest => (s.nStatus pindexTest).failed

/-- "ensure we can connect chain". -/
def missingData (s : ChainState σ ι) (pindexNew : ι) (vConnect : List ι) : Bool :=
  vConnect.any fun pindexTest => decide (pindexTest ≠ pindexNew) &&
    !(s.nStatus pindexTest).haveData && !(s.nStatus pindexTest).haveUndo

/-- Every block of both branches can be read; the new one is at hand. -/
def blocksReadable (s : ChainState σ ι) (pindexNew : ι) (vConnect vDisconnect : List ι) : Bool :=
  vDisconnect.all (calls.readBlock s.store) &&
    vConnect.all fun pindex => decide (pindexNew = pindex) || calls.readBlock s.store pindex

def coreCommitBlock (pindexNew : ι) (s : ChainState σ ι) : Bool × ChainState σ ι × List (Call ι) :=
  if ! calls.enabled then (false, s, [])
  else
    match getCommitBranches t s.pindexBest pindexNew with
    | none => (false, s, [])
    | some (vConnect, vDisconnect) =>
      if leavesBest t s pindexNew && chainInvalid s vConnect then (false, s, [])
      else
        let s₁ := archiveNew t calls pindexNew s
        if missingData s₁ pindexNew vConnect then (false, s₁, [])
        else if ! blocksReadable calls s₁ pindexNew vConnect vDisconnect then
          (false, commitFin t s.pindexBest pindexNew (.start s₁), [])
        else
          let w := commitWalk t calls pindexNew vConnect vDisconnect s₁
          (w.pindexFail.isNone, commitFin t s.pindexBest pindexNew w, w.log)

end

end ShareCoin.Server
