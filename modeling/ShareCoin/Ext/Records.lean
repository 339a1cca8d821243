import ShareCoin.Lib.Archive
import ShareCoin.Server.Ext
import ShareCoin.Wire.SignatureHash

/-!
# `alias.cpp`, `context.cpp`, `asset.cpp` — the tables of named records

The wallet of a coin keeps a table for each kind of record: from the label of an alias, the name of
a context or the hash of an asset to the transaction that holds the record. A transaction that
connects is handed to the commit routine of its kind, which verifies it and writes one entry. The
script of the record's output says in its mode what is to be done with the entry. A disconnected
transaction is handed to the disconnect routine of its kind, which looks in the archive of the table
for what was registered before.

What the routines take from elsewhere is in `RecordEnv`: the hash functions, the clock, the fees
(computed in floating point), the check of a signature, and the transactions of the chain.
-/

namespace ShareCoin.Ext

open Lib Wire Function
open Server hiding CTransaction

/-! ## Surroundings -/

structure RecordEnv where
  /-- The double SHA-256 of `CHashWriter`. -/
  hash : List UInt8 → Uint256
  hash160 : List UInt8 → Uint160
  now : Int
  /-- `shutime`: the seconds of a time stamp. -/
  shutime : UInt64 → Int
  getAliasOpFee : Int → Int64
  getContextOpFee : Nat → Int64
  verifyContext : CSign → List UInt8 → Bool
  getTxOfCert : Uint160 → Option CTransaction
  getTransaction : Uint256 → Option CTransaction
  getTransaction_hash : ∀ h tx, getTransaction h = some tx → tx.getHash hash = h

/-- The tables of `CWallet`. The archives are read in the order of their keys. -/
structure Wallet where
  mapAlias : List UInt8 → Option Uint256
  mapAliasArch : Std.TreeMap Uint256 (List UInt8)
  mapContext : Uint160 → Option Uint256
  mapContextArch : Std.TreeMap Uint256 Uint160
  mapAsset : Uint160 → Option Uint256

/-- The wallet before the first block. -/
def Wallet.empty : Wallet where
  mapAlias := fun _ => none
  mapAliasArch := ∅
  mapContext := fun _ => none
  mapContextArch := ∅
  mapAsset := fun _ => none

def txfCertificate : UInt32 := 0x10

def txfAsset : UInt32 := 0x200

def txfContext : UInt32 := 0x4000

/-- The transaction as the functions see it that read no record but the matrix. -/
def asServer (tx : CTransaction) : Server.CTransaction where
  nFlag := tx.nFlag
  vin := tx.vin
  vout := tx.vout
  nLockTime := tx.nLockTime
  matrix := tx.matrix
  ext := (payload serGetHash (tx.nFlag &&& ~~~Wire.txfMatrix)).put tx.records

def isFlag (tx : CTransaction) (flag : UInt32) : Bool := (asServer tx).isFlag flag

/-! ## The record's output -/

def opContext : Nat := 5

def opAlias : Nat := 10

def opExtNew : UInt8 := 0xf0

def opExtActivate : UInt8 := 0xf1

def opExtUpdate : UInt8 := 0xf2

def opExtRemove : UInt8 := 0xf3

def opExtGenerate : UInt8 := 0xf4

def opExtTransfer : UInt8 := 0xf5

def opExtPay : UInt8 := 0xf6

def decodeExtHash (op : Nat) (script : CScript) : Option (UInt8 × Uint160) := do
  let (mode, _, pc) ← getOp script
  if ! isExtMode mode then none
  else
    let (opcode, _, pc) ← getOp pc
    if opcode < 0x51 || 0x60 < opcode then none
    else if opcode.toNat - 0x50 ≠ op then none
    else
      let (opcode, _, pc) ← getOp pc
      if opcode ≠ opHash160 then none
      else
        let (_, vch, _) ← getOp pc
        some (mode, uint160OfBytes vch)

def decodeAliasHash : CScript → Option (UInt8 × Uint160) := decodeExtHash opAlias

def decodeContextHash : CScript → Option (UInt8 × Uint160) := decodeExtHash opContext

def decodeAssetHash : CScript → Option (UInt8 × Uint160) := decodeExtHash opAsset

/-- A transaction with the flag and at least one output that decodes. -/
def isRecordTx (flag : UInt32) (decode : CScript → Option (UInt8 × Uint160))
    (tx : CTransaction) : Bool :=
  isFlag tx flag && tx.vout.any fun out => (decode out.scriptPubKey).isSome

def isAliasTx : CTransaction → Bool := isRecordTx txfAlias decodeAliasHash

def isContextTx : CTransaction → Bool := isRecordTx txfContext decodeContextHash

def isAssetTx : CTransaction → Bool := isRecordTx txfAsset decodeAssetHash

def recordOutput (decode : CScript → Option (UInt8 × Uint160)) (tx : CTransaction)
    (nOut : Option Nat) : Option (CTxOut × UInt8 × Uint160) := do
  let out ← tx.vout[(← nOut)]?
  let (mode, hash) ← decode out.scriptPubKey
  some (out, mode, hash)

def recordHash (env : RecordEnv) (record : List UInt8) : Uint160 :=
  env.hash160 (rawBytes (env.hash record))

/-- Some input spends an output of the transaction `hash`. -/
def spendsTx (tx : CTransaction) (hash : Uint256) : Bool :=
  tx.vin.any fun txin => txin.prevout.hash == hash

/-! ## Aliases -/

def defaultAliasLifespan : Int := 378432000

def aliasOutput (tx : CTransaction) : Option (CTxOut × UInt8 × Uint160) :=
  recordOutput decodeAliasHash tx (indexOfExtOutput (asServer tx))

def verifyAlias (env : RecordEnv) (tx : CTransaction) : Bool :=
  isAliasTx tx &&
    match aliasOutput tx with
    | none => false
    | some (_, mode, hashAlias) =>
      [opExtActivate, opExtUpdate, opExtTransfer, opExtRemove].contains mode &&
      hashAlias == recordHash env (CAlias.codec.put tx.calias) &&
      decide (tx.calias.vchLabel.length ≤ 135) &&
      tx.calias.tExpire != 0 &&
      decide (env.shutime tx.calias.tExpire ≤ env.now + defaultAliasLifespan)

section

variable (env : RecordEnv) (wallet : Wallet) (tx : CTransaction)

def connectAliasTx : Wallet :=
  let strTitle := tx.calias.vchLabel
  { wallet with
    mapAliasArch :=
      match wallet.mapAlias strTitle with
      | some hash => wallet.mapAliasArch.insert hash strTitle
      | none => wallet.mapAliasArch
    mapAlias := update wallet.mapAlias strTitle (some (tx.getHash env.hash)) }

/-- `RemoveAliasTx`: the entry stays, with the null hash. -/
def removeAliasTx : Bool × Wallet :=
  let strTitle := tx.calias.vchLabel
  match wallet.mapAlias strTitle with
  | none => (false, wallet)
  | some curTx =>
    (true, { wallet with
      mapAliasArch := wallet.mapAliasArch.insert curTx strTitle
      mapAlias := update wallet.mapAlias strTitle (some 0) })

def verifyAliasChain : Bool :=
  match wallet.mapAlias tx.calias.vchLabel with
  | none => false
  | some prevHash => spendsTx tx prevHash

def commitAliasTx (nHeight : Int) : Bool × Wallet :=
  if ! verifyAlias env tx then (false, wallet)
  else
    match aliasOutput tx with
    | none => (false, wallet)
    | some (out, mode, _) =>
      if mode = opExtActivate then
        if out.nValue < env.getAliasOpFee nHeight then (false, wallet)
        else (true, connectAliasTx env wallet tx)
      else if mode = opExtUpdate then
        if ! verifyAliasChain wallet tx then (false, wallet)
        else (true, connectAliasTx env wallet tx)
      else if mode = opExtRemove then
        if ! verifyAliasChain wallet tx then (false, wallet) else removeAliasTx wallet tx
      else (true, wallet)

/-- The aliases and their archive. -/
def Wallet.aliases : Archived (List UInt8) Uint256 :=
  ⟨wallet.mapAlias, wallet.mapAliasArch⟩

def disconnectAliasTx : Bool × Wallet :=
  let strTitle := tx.calias.vchLabel
  let (ok, aliases) := wallet.aliases.undo strTitle (tx.getHash env.hash)
  (ok, { wallet with mapAlias := aliases.cur, mapAliasArch := aliases.arch })

/-! ## Contexts -/

def defaultContextLifespan : Int := 63072000

/-- The first bytes of the archives, images and executables that a context may not hold. -/
def suppressedMagic : List (List UInt8) :=
  [[0x1f, 0x8b],
   [0x42, 0x5a, 0x68, 0x39, 0x31, 0x41, 0x59, 0x26],
   [0x52, 0x61, 0x72, 0x21],
   [0xff, 0xd8, 0xff, 0xe1],
   [0x50, 0x4b, 0x03, 0x04],
   [0xfd, 0x37, 0x7a, 0x58, 0x5a],
   [0x5a, 0x53, 0x22, 0x22],
   [0x47, 0x49, 0x46, 0x38, 0x39, 0x61],
   [0x89, 0x50, 0x4e, 0x47, 0x0d, 0x0a, 0x1a, 0x0a],
   [0x4d, 0x5a]]

def ctxContextVerify (vchValue : List UInt8) : Bool :=
  decide (vchValue.length ≤ 8) || ! suppressedMagic.any fun magic => magic.isPrefixOf vchValue

def verifyContextSignature (ctx : CCert) : Bool :=
  decide (ctx.vContext.length ≠ 0) && env.verifyContext ctx.signature ctx.vContext

def contextOutput : Option (CTxOut × UInt8 × Uint160) :=
  recordOutput decodeContextHash tx (indexOfExtOutput (asServer tx))

def verifyContextTx : Option UInt8 :=
  if ! isContextTx tx then none
  else
    match contextOutput tx with
    | none => none
    | some (out, mode, hashContext) =>
      if [opExtNew, opExtUpdate, opExtRemove].contains mode &&
        hashContext == tx.certificate.hashIssuer &&
        ctxContextVerify tx.certificate.vContext &&
        decide (env.getContextOpFee tx.certificate.vContext.length ≤ out.nValue) &&
        decide (env.shutime tx.certificate.tExpire ≤ env.now + defaultContextLifespan) &&
        verifyContextSignature env tx.certificate then some mode
      else none

end

/-- What `CommitContextTx` returns when it does not return zero. -/
inductive CommitError where
  | inval
  /-- `SHERR_NOTUNIQ` -/
  | notUniq
  deriving DecidableEq

section

variable (env : RecordEnv) (wallet : Wallet) (tx : CTransaction)

/-- `CommitContextTx`, without the copy of the value that it hands to the share runtime. -/
def commitContextTx : Option CommitError × Wallet :=
  let hContext := tx.certificate.hashIssuer
  let assign (arch : Std.TreeMap Uint256 Uint160) : Wallet :=
    { wallet with
      mapContextArch := arch
      mapContext := update wallet.mapContext hContext (some (tx.getHash env.hash)) }
  match verifyContextTx env tx with
  | none => (some .inval, wallet)
  | some txMode =>
    match wallet.mapContext hContext with
    | some hOrig =>
      if txMode = opExtNew then (some .notUniq, wallet)
      else (none, assign (wallet.mapContextArch.insert hOrig hContext))
    | none => (none, assign wallet.mapContextArch)

/-- The contexts and their archive. -/
def Wallet.contexts : Archived Uint160 Uint256 :=
  ⟨wallet.mapContext, wallet.mapContextArch⟩

def disconnectContextTx : Bool × Wallet :=
  let hContext := tx.certificate.hashIssuer
  let (ok, contexts) := wallet.contexts.undo hContext (tx.getHash env.hash)
  (ok, { wallet with mapContext := contexts.cur, mapContextArch := contexts.arch })

end

/-! ## Assets -/

def isSpace (c : UInt8) : Bool := c == 0x20 || (0x09 ≤ c && c ≤ 0x0d)

def phexdigit (c : UInt8) : Option UInt8 :=
  if 0x30 ≤ c && c ≤ 0x39 then some (c - 0x30)
  else if 0x41 ≤ c && c ≤ 0x46 then some (c - 0x37)
  else if 0x61 ≤ c && c ≤ 0x66 then some (c - 0x57)
  else none

/-- `ParseHex`: up to the first character that is no digit. -/
def parseHex : List UInt8 → List UInt8
  | [] => []
  | [_] => []
  | c :: c' :: psz =>
    if isSpace c then parseHex (c' :: psz)
    else
      match phexdigit c, phexdigit c' with
      | some hi, some lo => (hi <<< 4 ||| lo) :: parseHex psz
      | _, _ => []

def verifyAssetSignature (env : RecordEnv) (asset : CCert) : Bool :=
  match env.getTxOfCert (uint160OfBytes asset.vAddr) with
  | none => false
  | some certTx =>
    env.verifyContext asset.signature (parseHex certTx.certificate.signature.vPubKey)

/-- The output that holds the asset; no value where the lookup does not return. -/
def assetOutput (tx : CTransaction) : Option (Option (CTxOut × UInt8 × Uint160)) :=
  (indexOfAssetOutput (asServer tx)).map (recordOutput decodeAssetHash tx)

def verifyAsset (env : RecordEnv) (tx : CTransaction) : Option Bool :=
  if ! isAssetTx tx then some false
  else
    (assetOutput tx).map fun
      | none => false
      | some (_, mode, hashAsset) =>
        [opExtNew, opExtActivate, opExtUpdate, opExtTransfer, opExtRemove].contains mode &&
        hashAsset == recordHash env (CCert.codec.put tx.certificate)

def getTxOfAsset (env : RecordEnv) (wallet : Wallet) (hashAsset : Uint160) :
    Option CTransaction := do
  let hashTx ← wallet.mapAsset hashAsset
  let txIn ← env.getTransaction hashTx
  if ! isAssetTx txIn then none else some txIn.copy

section

variable (env : RecordEnv) (wallet : Wallet) (tx : CTransaction)

def verifyAssetChainOrigin (hIssuer : Uint160) : Bool :=
  match getTxOfAsset env wallet hIssuer with
  | none => false
  | some assetTx => spendsTx tx (assetTx.getHash env.hash)

def processNewAssetTx : Bool × Wallet :=
  let hAsset := recordHash env (CCert.codec.put tx.certificate)
  if (wallet.mapAsset hAsset).isSome then (false, wallet)
  else if ! verifyAssetSignature env tx.certificate then (false, wallet)
  else (true, { wallet with
    mapAsset := update wallet.mapAsset hAsset (some (tx.getHash env.hash)) })

def assignAsset (entry : Option Uint256) : Bool × Wallet :=
  let hIssuer := tx.certificate.hashIssuer
  if ! verifyAssetChainOrigin env wallet tx hIssuer then (false, wallet)
  else (true, { wallet with mapAsset := update wallet.mapAsset hIssuer entry })

def processUpdateAssetTx : Bool × Wallet :=
  assignAsset env wallet tx (some (tx.getHash env.hash))

def processRemoveAssetTx : Bool × Wallet :=
  assignAsset env wallet tx none

def processAssetTx : Option (Bool × Wallet) := do
  if ! (← verifyAsset env tx) then some (false, wallet)
  else
    match ← assetOutput tx with
    | none => some (false, wallet)
    | some (_, mode, _) =>
      if mode = opExtNew then some (processNewAssetTx env wallet tx)
      else if mode = opExtUpdate then some (processUpdateAssetTx env wallet tx)
      else if mode = opExtRemove then some (processRemoveAssetTx env wallet tx)
      else some (true, wallet)

end

/-! ## Connecting a transaction -/

structure Connecting where
  env : RecordEnv
  tx : CTransaction
  nHeight : Int

/-- The part of `core_ConnectExtTx` that writes the three tables, for one transaction of a coin that
    has extensions. What a routine returns is only logged. -/
def connectExtTx (wallet : Wallet) (c : Connecting) : Option Wallet := do
  let wallet :=
    if isFlag c.tx txfAlias then (commitAliasTx c.env wallet c.tx c.nHeight).2 else wallet
  if isFlag c.tx txfAsset then (processAssetTx c.env wallet c.tx).map Prod.snd
  else if isFlag c.tx txfCertificate then some wallet
  else if isFlag c.tx txfContext then some (commitContextTx c.env wallet c.tx).2
  else some wallet

end ShareCoin.Ext
