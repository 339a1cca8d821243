import ShareCoin.Ext.AltChain
import ShareCoin.Ext.Classes
import ShareCoin.Ext.Licenses

/-!
# `coin.cpp`, `block.cpp` — extension tables of a block that connects

`core_ConnectBlock` ends with `core_ConnectExtTx`, which hands each transaction of the block to the
routines of the extensions that it carries. There are two passes: the checkpoints of the classes
first, then everything else. `core_DisconnectBlock` goes over the transactions backwards and calls
`core_DisconnectInputs` for each. Of the tables that are kept here it has a routine for those of the
classes only: `DisconnectAltChainTx` exists and is called nowhere, and there is none for an identity
or for a license.

The tables of aliases, assets, certificates, contexts, offers and parameters are written by other
routines of the same dispatchers; those write none of the tables here. What a routine returns is
only logged. Each transaction has its own surroundings, since the clock goes on and the pool, the
chain and the registered certificates change, but the hash functions are the same throughout.
-/

namespace ShareCoin.Ext

open Lib Wire
open Server hiding CTransaction

/-- The surroundings of one transaction. -/
structure ExtEnv extends LicenseEnv, ClassEnv, ColorEnv where
  /-- The certificates that are registered. -/
  wallet : CertWallet

/-- A transaction of a block, with its surroundings when the block is connected and when it is
    disconnected. The hash functions are those of `base`. -/
structure ExtTx (base : RecordEnv) where
  tx : CTransaction
  connecting : ExtEnv
  disconnecting : ExtEnv
  sameHash : connecting.hash = base.hash ∧ disconnecting.hash = base.hash
  sameHash160 : connecting.hash160 = base.hash160 ∧ disconnecting.hash160 = base.hash160

/-- The tables of `CWallet` for identities, licenses, classes and colors. -/
structure ExtTables where
  mapIdent : Uint160 → Option Uint256
  mapLicense : Uint160 → Option Uint256
  classes : ClassTables
  colors : ColorTables

/-- The tables before the first block. -/
def ExtTables.empty : ExtTables where
  mapIdent := fun _ => none
  mapLicense := fun _ => none
  classes := .empty
  colors := .empty

/-- The coins whose blocks have extension transactions. -/
def hasExtTx : CoinIface → Bool
  | .test | .testnet | .shc => true
  | _ => false

variable {base : RecordEnv}

/-! ## Connecting -/

def connectExec (pass : UInt8 → Bool) (nHeight : Int) (t : ClassTables) (x : ExtTx base) :
    Option ClassTables :=
  match isExecTx x.tx with
  | none => some t
  | some mode =>
    if pass mode then
      (processExecTx x.connecting.toClassEnv t nHeight x.tx).map Prod.snd
    else some t

def connectCheckpoint (nHeight : Int) (w : ExtTables) (x : ExtTx base) : Option ExtTables :=
  (connectExec (fun mode => mode == opExtUpdate) nHeight w.classes x).map fun classes =>
    { w with classes }

/-- The branches for identities and licenses. A transaction with one of the flags before them in the
    source does not get there. -/
def connectIdent (w : ExtTables) (x : ExtTx base) : ExtTables :=
  if isFlag x.tx txfAsset then w
  else if isFlag x.tx txfCertificate then w
  else if isFlag x.tx txfContext then w
  else if isFlag x.tx txfIdent then
    { w with mapIdent := (insertIdentTable x.connecting.toRecordEnv w.mapIdent x.tx).2 }
  else if isFlag x.tx txfLicense then
    { w with
      mapLicense :=
        (commitLicenseTx x.connecting.toLicenseEnv x.connecting.wallet w.mapLicense x.tx).2 }
  else w

/-- The branch for the blocks of a color. -/
def connectColor (fuel : Nat) (t : ColorTables) (x : ExtTx base) : Option ColorTables :=
  if isFlag x.tx txfAltChain && isAltChainTx x.tx then
    (commitAltChainTx x.connecting.toColorEnv fuel t x.tx).map Prod.snd
  else some t

def connectTables (fuel : Nat) (nHeight : Int) (w : ExtTables) (x : ExtTx base) :
    Option ExtTables := do
  let w := connectIdent w x
  let classes ← connectExec (fun mode => mode != opExtUpdate) nHeight w.classes x
  let colors ← connectColor fuel w.colors x
  some { w with classes, colors }

def connectBlockTables (iface : CoinIface) (fuel : Nat) (nHeight : Int) (w : ExtTables)
    (vtx : List (ExtTx base)) : Option ExtTables :=
  if ! hasExtTx iface then some w
  else
    (exec (connectCheckpoint nHeight) w vtx).bind fun w => exec (connectTables fuel nHeight) w vtx

/-! ## Disconnecting -/

/-- The part of `core_DisconnectInputs` that writes the tables. -/
def disconnectTables (w : ExtTables) (x : ExtTx base) : Option ExtTables :=
  match isExecTx x.tx with
  | none => some w
  | some mode =>
    (disconnectExecTx x.disconnecting.toClassEnv w.classes x.tx mode).map fun classes =>
      { w with classes }

def disconnectBlockTables (iface : CoinIface) (w : ExtTables) (vtx : List (ExtTx base)) :
    Option ExtTables :=
  if ! hasExtTx iface then some w else exec disconnectTables w vtx.reverse

end ShareCoin.Ext
