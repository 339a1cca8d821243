import ShareCoin.Ext.Records

/-!
# `certificate.cpp` — the table of the certificates

A certificate is registered under its hash, and its label is taken. `InsertCertTable` verifies the
certificate and the signature of its issuer, and refuses a label that is taken already.
`DisconnectCertificate` looks in the archive for what was registered under the hash before, as the
routines of the aliases and the contexts do, and sets or frees the label as well.

`CertEnv` adds to the surroundings the fee, the check of a signature for an address, and two
constants of the share library.
-/

namespace ShareCoin.Ext

open Lib Wire
open Server hiding CTransaction

structure CertEnv extends RecordEnv where
  getCertOpFee : Int → Int64
  verifySign : CSign → List UInt8 → List UInt8 → Bool
  certChain : Int32
  defaultExpireTime : Int

/-- The tables of `Wallet`, and those of the certificates. -/
structure CertWallet extends Wallet where
  mapCert : Uint160 → Option Uint256
  mapCertArch : Std.TreeMap Uint256 Uint160
  mapCertLabel : List UInt8 → Option Uint160

/-- The wallet before the first block. -/
def CertWallet.empty : CertWallet where
  toWallet := .empty
  mapCert := fun _ => none
  mapCertArch := ∅
  mapCertLabel := fun _ => none

def opCert : Nat := 13

def decodeCertHash : CScript → Option (UInt8 × Uint160) := decodeExtHash opCert

def isCertTx : CTransaction → Bool := isRecordTx txfCertificate decodeCertHash

/-- The output that holds the certificate. -/
def certOutput (tx : CTransaction) : Option (CTxOut × UInt8 × Uint160) :=
  recordOutput decodeCertHash tx (indexOfExtOutput (asServer tx))

def certHash (env : CertEnv) (cert : CCert) : Uint160 :=
  recordHash env.toRecordEnv (CCert.codec.put cert)

def verifyCert (env : CertEnv) (tx : CTransaction) (nHeight : Int) : Bool :=
  isCertTx tx &&
    match certOutput tx with
    | none => false
    | some (out, mode, hashCert) =>
      [opExtNew, opExtActivate, opExtUpdate, opExtTransfer, opExtRemove].contains mode &&
      decide (env.getCertOpFee nHeight ≤ out.nValue) &&
      hashCert == certHash env tx.certificate &&
      ! (tx.certificate.hashIssuer == 0 && tx.certificate.nFlag &&& env.certChain != 0) &&
      decide (env.shutime tx.certificate.tExpire ≤ env.now + env.defaultExpireTime)

section

variable (env : CertEnv) (wallet : CertWallet)

def getTxOfCert (hash : Uint160) : Option CTransaction := do
  let hashTx ← wallet.mapCert hash
  let tx ← env.getTransaction hashTx
  if ! isCertTx tx then none else some tx

def verifyCertSignature (cert : CCert) : Bool :=
  if cert.hashIssuer = 0 then
    cert.nVersion == 1 || env.verifySign cert.signature cert.vAddr []
  else
    match getTxOfCert env wallet cert.hashIssuer with
    | none => false
    | some certTx =>
      env.verifySign cert.signature cert.vAddr (parseHex certTx.certificate.signature.vPubKey)

def verifyCertChain (tx : CTransaction) : Bool :=
  let issued :=
    if tx.certificate.hashIssuer = 0 then true
    else
      match getTxOfCert env wallet tx.certificate.hashIssuer with
      | none => false
      | some ptx => verifyCertSignature env wallet ptx.certificate
  issued && verifyCertSignature env wallet tx.certificate

/-- `InsertCertTable`, without the copy that it hands to the share runtime. -/
def insertCertTable (tx : CTransaction) (nHeight : Int) (fUpdate : Bool) : Bool × CertWallet :=
  let strCertLabel := tx.certificate.vchLabel
  let hCert := certHash env tx.certificate
  let hashTx := tx.getHash env.hash
  let assign (arch : Std.TreeMap Uint256 Uint160) : CertWallet :=
    { wallet with
      mapCertArch := arch
      mapCert := Function.update wallet.mapCert hCert (some hashTx)
      mapCertLabel := Function.update wallet.mapCertLabel strCertLabel (some hCert) }
  if ! verifyCert env tx nHeight then (false, wallet)
  else if ! verifyCertChain env wallet tx then (false, wallet)
  else if (wallet.mapCertLabel strCertLabel).isSome then (false, wallet)
  else
    match wallet.mapCert hCert with
    | some oTx =>
      if oTx = hashTx then (true, wallet)
      else if ! fUpdate then
        (false, { wallet with mapCertArch := wallet.mapCertArch.insert hashTx hCert })
      else (true, assign (wallet.mapCertArch.insert oTx hCert))
    | none => (true, assign wallet.mapCertArch)

/-- The certificates and their archive. -/
def CertWallet.certs : Archived Uint160 Uint256 :=
  ⟨wallet.mapCert, wallet.mapCertArch⟩

/-- `DisconnectCertificate`. The label follows the entry: it is set where an archived transaction
    takes the place of this one, and freed where there is none. -/
def disconnectCertificate (tx : CTransaction) : Bool × CertWallet :=
  let hCert := certHash env tx.certificate
  let (ok, certs) := wallet.certs.undo hCert (tx.getHash env.hash)
  (ok, { wallet with
    mapCert := certs.cur
    mapCertArch := certs.arch
    mapCertLabel :=
      if ok then
        Function.update wallet.mapCertLabel tx.certificate.vchLabel
          ((certs.cur hCert).map fun _ => hCert)
      else wallet.mapCertLabel })

end

/-! ## Commits and disconnects of the three kinds -/

/-- A transaction that is committed, and what its commit routine is called with. -/
inductive RecordCommit where
  | calias (env : RecordEnv) (tx : CTransaction) (nHeight : Int)
  | context (env : RecordEnv) (tx : CTransaction)
  | cert (env : CertEnv) (tx : CTransaction) (nHeight : Int) (fUpdate : Bool)

inductive RecordName where
  | calias (label : List UInt8)
  | context (name : Uint160)
  | cert (hash : Uint160)
  deriving DecidableEq

/-- The name that the transaction is registered under. -/
def RecordCommit.name : RecordCommit → RecordName
  | .calias _ tx _ => .calias tx.calias.vchLabel
  | .context _ tx => .context tx.certificate.hashIssuer
  | .cert env tx _ _ => .cert (certHash env tx.certificate)

def commitRecord (wallet : CertWallet) : RecordCommit → CertWallet
  | .calias env tx nHeight =>
    { wallet with toWallet := (commitAliasTx env wallet.toWallet tx nHeight).2 }
  | .context env tx => { wallet with toWallet := (commitContextTx env wallet.toWallet tx).2 }
  | .cert env tx nHeight fUpdate => (insertCertTable env wallet tx nHeight fUpdate).2

/-- The disconnect routine of the kind: `DisconnectAliasTx`, `DisconnectContextTx` or
    `DisconnectCertificate`. -/
def disconnectRecord (wallet : CertWallet) : RecordCommit → CertWallet
  | .calias env tx _ => { wallet with toWallet := (disconnectAliasTx env wallet.toWallet tx).2 }
  | .context env tx => { wallet with toWallet := (disconnectContextTx env wallet.toWallet tx).2 }
  | .cert env tx _ _ => (disconnectCertificate env wallet tx).2

end ShareCoin.Ext
