import ShareCoin.Ext.Certificates
import ShareCoin.Wire.CoinAddr

/-!
# `certificate.cpp` — stamped identities and licenses

A transaction that stamps an identity is registered under the hash of the identity, in place of what
was registered there. A license is registered under its hash, if the certificate that issues it is
known and no license has the hash yet.

`LicenseEnv` adds what the fee of a license is checked with: the interface of the coin and the
functions that write an address.
-/

namespace ShareCoin.Ext

open Wire
open Server hiding CTransaction

def txfLicense : UInt32 := 0x20

def txfIdent : UInt32 := 0x400

def opIdent : Nat := 12

def opLicense : Nat := 14

structure LicenseEnv extends CertEnv where
  ifaceIndex : CoinIface
  /-- Whether `GetCoinByIndex` finds the interface. -/
  enabled : Bool
  minTxFee : UInt64
  /-- The hash behind the check of a base 58 text. -/
  sha256 : List UInt8 → Uint256
  /-- What a proof in front of a script is decided by. -/
  altProof : List UInt8 → List UInt8 → Option Bool
  certDigital : Int32

/-! ## Identities -/

def decodeIdentHash : CScript → Option (UInt8 × Uint160) := decodeExtHash opIdent

def isIdentTx : CTransaction → Bool := isRecordTx txfIdent decodeIdentHash

/-- The hash of the certificate's identity. -/
def identHash (env : RecordEnv) (ident : CIdent) : Uint160 :=
  recordHash env (CIdent.codec.put ident)

def verifyIdent (env : RecordEnv) (tx : CTransaction) : Option UInt8 :=
  if ! isIdentTx tx then none
  else
    match recordOutput decodeIdentHash tx (indexOfExtOutput (asServer tx)) with
    | none => none
    | some (_, mode, hashIdent) =>
      if [opExtNew, opExtActivate, opExtGenerate, opExtPay].contains mode &&
        hashIdent == identHash env tx.certificate.toCIdent then some mode
      else none

def insertIdentTable (env : RecordEnv) (mapIdent : Uint160 → Option Uint256) (tx : CTransaction) :
    Bool × (Uint160 → Option Uint256) :=
  match verifyIdent env tx with
  | none => (false, mapIdent)
  | some mode =>
    if mode = opExtNew then
      (true, Function.update mapIdent (identHash env tx.certificate.toCIdent)
        (some (tx.getHash env.hash)))
    else (true, mapIdent)

/-! ## Licenses -/

def decodeLicenseHash : CScript → Option (UInt8 × Uint160) := decodeExtHash opLicense

def isLicenseTx : CTransaction → Bool := isRecordTx txfLicense decodeLicenseHash

def verifyLicense (env : CertEnv) (tx : CTransaction) : Bool :=
  isLicenseTx tx &&
    match recordOutput decodeLicenseHash tx (indexOfExtOutput (asServer tx)) with
    | none => false
    | some (_, mode, hashLicense) =>
      mode == opExtActivate && hashLicense == certHash env tx.certificate

/-- The loop of `GetOutDestination`: the first output to the address, unless one before it has no
    destination. -/
def outDestinationLoop (env : LicenseEnv) (addrStr : List UInt8) : List CTxOut → Option CTxOut
  | [] => none
  | out :: vout =>
    match extractDestination env.hash160 env.altProof out.scriptPubKey with
    | none => none
    | some dest =>
      let addr : CCoinAddr := { ifaceIndex := env.ifaceIndex }
      if (addr.set dest).toText env.sha256 ≠ addrStr then outDestinationLoop env addrStr vout
      else some out

def getOutDestination (env : LicenseEnv) (tx : CTransaction) (addr : CCoinAddr) : Option CTxOut :=
  outDestinationLoop env (addr.toText env.sha256) tx.vout

def verifyLicenseSignature (env : RecordEnv) (lic cert : CCert) : Bool :=
  env.verifyContext lic.signature (parseHex cert.signature.vPubKey)

section

variable (env : LicenseEnv) (wallet : CertWallet)

/-- `VerifyLicenseChain`. Where the output pays less than the fee, what is returned is the text of
    the error, and that is true. -/
def verifyLicenseChain (tx : CTransaction) : Bool :=
  match getTxOfCert env.toCertEnv wallet tx.certificate.hashIssuer with
  | none => false
  | some certTx =>
    let cert := certTx.certificate
    verifyCertSignature env.toCertEnv wallet cert &&
    verifyLicenseSignature env.toRecordEnv tx.certificate cert &&
      if env.minTxFee.toInt64 < cert.nFee then
        let addr : CCoinAddr := { ifaceIndex := env.ifaceIndex }
        (getOutDestination env tx (addr.setString env.sha256 env.enabled cert.vAddr).2).isSome
      else true

def issuesLicenses (tx : CTransaction) : Bool :=
  match getTxOfCert env.toCertEnv wallet tx.certificate.hashIssuer with
  | none => false
  | some certTx =>
    certTx.certificate.nFlag &&& env.certDigital != 0 &&
    certTx.certificate.nFlag &&& env.certChain != 0

/-- What `CommitLicenseTx` checks before it looks for a duplicate. -/
def licenseVerified (tx : CTransaction) : Bool :=
  verifyLicense env.toCertEnv tx && verifyLicenseChain env wallet tx &&
    issuesLicenses env wallet tx

/-- `CommitLicenseTx`, without the copy that it hands to the share runtime. `wallet` has the
    certificates that are registered. -/
def commitLicenseTx (mapLicense : Uint160 → Option Uint256) (tx : CTransaction) :
    Bool × (Uint160 → Option Uint256) :=
  let hLic := certHash env.toCertEnv tx.certificate
  if ! licenseVerified env wallet tx then (false, mapLicense)
  else if (mapLicense hLic).isSome then (false, mapLicense)
  else (true, Function.update mapLicense hLic (some (tx.getHash env.hash)))

end

end ShareCoin.Ext
