import ShareCoin.Server.Templates
import ShareCoin.Wire.Bech32

/-!
# `coinaddr.cpp`, `script.cpp` — destinations, addresses and scripts

A destination is written as a text in two encodings: a hash of a key or of a script in base 58 with
a version byte of the coin, a witness program in bech32 with the name of the coin. Both fill one
object, `CCoinAddr`, and its version byte is that of the coin or that of the witness.

A `WitnessUnknown` has room for forty bytes of program and says how many it uses; the program here
is what it uses. `GetCoinByIndex` finds an interface for the coins that are modelled, and whether it
is enabled can change while the node runs.
-/

namespace ShareCoin.Wire

open Lib Server

inductive CTxDestination where
  | none
  | keyID (id : Uint160)
  | scriptID (id : Uint160)
  | witnessV0ScriptHash (id : Uint256)
  | witnessV0KeyHash (id : Uint160)
  | witnessV14ScriptHash (id : Uint256)
  | witnessV14KeyHash (id : Uint160)
  | witnessUnknown (version : Nat) (program : List UInt8)
  deriving DecidableEq

/-! ## Interfaces -/

/-- The fields of a coin interface that are read here. -/
structure AddrParams where
  name : List UInt8
  base58PubkeyAddress : UInt8
  base58ScriptAddress : UInt8
  base58ScriptAddress2 : UInt8

def addrParams : CoinIface → AddrParams
  | .test => ⟨ascii "test", 38, 5, 25⟩
  | .shc => ⟨ascii "shc", 62, 5, 25⟩
  | .emc2 => ⟨ascii "emc2", 33, 5, 55⟩
  | .ltc => ⟨ascii "ltc", 48, 5, 50⟩
  | .testnet => ⟨ascii "testnet", 65, 5, 25⟩
  | .color => ⟨ascii "color", 29, 5, 25⟩

def getPubKeyVersion (iface : CoinIface) : UInt8 := (addrParams iface).base58PubkeyAddress

def getScriptVersion (iface : CoinIface) : UInt8 :=
  let ver := (addrParams iface).base58ScriptAddress2
  let ver := if ver = 0 then (addrParams iface).base58ScriptAddress else ver
  if ver = 0 then 5 else ver

/-! ## `CCoinAddr` -/

inductive AddrType where
  | unknown | base58 | bech32
  deriving DecidableEq

structure CCoinAddr where
  ifaceIndex : CoinIface
  nType : AddrType := .unknown
  vchVersion : List UInt8 := []
  vchData : List UInt8 := []
  deriving DecidableEq

def convertBits (frombits tobits : Nat) (pad : Bool) (bytes : List UInt8) : Option (List UInt8) :=
  (Radix.convert frombits tobits pad (bytes.map UInt8.toNat)).map (List.map UInt8.ofNat)

namespace CCoinAddr

section

variable (addr : CCoinAddr)

def setData (nType : AddrType) (nVersion : Nat) (data : List UInt8) : CCoinAddr :=
  { addr with nType, vchVersion := [UInt8.ofNat nVersion], vchData := data }

def set : CTxDestination → CCoinAddr
  | .none => addr
  | .keyID id => addr.setData .base58 (getPubKeyVersion addr.ifaceIndex).toNat (u160.put id)
  | .scriptID id => addr.setData .base58 (getScriptVersion addr.ifaceIndex).toNat (u160.put id)
  | .witnessV0KeyHash id => addr.setData .bech32 0 (u160.put id)
  | .witnessV0ScriptHash id => addr.setData .bech32 0 (u256.put id)
  | .witnessV14KeyHash id => addr.setData .bech32 14 (u160.put id)
  | .witnessV14ScriptHash id => addr.setData .bech32 14 (u256.put id)
  | .witnessUnknown version program => addr.setData .bech32 version program

/-- The versions of a hash of a key. -/
def pubkeyAddresses : List UInt8 := [38, 29, 33, 48, 62, 65]

/-- The versions of a hash of a script. -/
def scriptAddresses : List UInt8 := [5, 50, 25, 55]

def isValid : Bool :=
  match addr.vchVersion with
  | [] => false
  | nVersion :: rest =>
    if addr.nType ≠ .bech32 then
      if rest.isEmpty then
        (pubkeyAddresses.contains nVersion || scriptAddresses.contains nVersion) &&
        decide (addr.vchData.length = 20) &&
        (nVersion == (addrParams addr.ifaceIndex).base58PubkeyAddress ||
          nVersion == (addrParams addr.ifaceIndex).base58ScriptAddress ||
          nVersion == (addrParams addr.ifaceIndex).base58ScriptAddress2)
      else true
    else if 16 ≤ nVersion then false
    else if nVersion = 0 then
      decide (addr.vchData.length = 20) || decide (addr.vchData.length = 32)
    else true

/-- The switch on the version at the end of `CCoinAddr::Get`. It copies twenty bytes, whatever the
    size of the data is; there is no value where it reads behind them. -/
def getBase58 : Option CTxDestination :=
  match addr.vchVersion with
  | [nVersion] =>
    if pubkeyAddresses.contains nVersion then
      if addr.vchData.length < 20 then none
      else some (.keyID (uint160OfBytes (addr.vchData.take 20)))
    else if scriptAddresses.contains nVersion then
      if addr.vchData.length < 20 then none
      else some (.scriptID (uint160OfBytes (addr.vchData.take 20)))
    else some .none
  | _ => some .none

def getBech32 : Option CTxDestination :=
  let nVersion := addr.vchVersion.headD 0
  if nVersion = 0 then
    if addr.vchData.length = 20 then some (.witnessV0KeyHash (uint160OfBytes addr.vchData))
    else if addr.vchData.length = 32 then
      some (.witnessV0ScriptHash (BitVec.ofNat 256 (Codec.leValue addr.vchData)))
    else none
  else if nVersion = 14 then
    if addr.vchData.length = 20 then some (.witnessV14KeyHash (uint160OfBytes addr.vchData))
    else if addr.vchData.length = 32 then
      some (.witnessV14ScriptHash (BitVec.ofNat 256 (Codec.leValue addr.vchData)))
    else none
  else none

def get : Option CTxDestination :=
  match if addr.nType = .bech32 then addr.getBech32 else none with
  | some dest => some dest
  | none => if addr.isValid then addr.getBase58 else some .none

end

section

variable (sha256 : List UInt8 → Uint256)

def toText (addr : CCoinAddr) : List UInt8 :=
  if addr.nType = .bech32 then
    Bech32.encode (addrParams addr.ifaceIndex).name
      (addr.vchVersion ++ (convertBits 8 5 true addr.vchData).getD [])
  else encodeBase58Check sha256 (addr.vchVersion ++ addr.vchData)

def setBase58 (addr : CCoinAddr) (str : List UInt8) : Bool × CCoinAddr :=
  match decodeBase58Check sha256 (cstr str) with
  | some (nVersion :: vchData) => (true, { addr with vchVersion := [nVersion], vchData })
  | _ => (false, { addr with vchVersion := [], vchData := [] })

def setString (enabled : Bool) (addr : CCoinAddr) (str : List UInt8) : Bool × CCoinAddr :=
  match addr.setBase58 sha256 str with
  | (true, addr) => (true, { addr with nType := .base58 })
  | (false, addr) =>
    match Bech32.decode str with
    | (hrp, version :: symbols) =>
      if enabled && (addrParams addr.ifaceIndex).name == cstr hrp then
        match convertBits 5 8 false symbols with
        | some data =>
          let addr := { addr with vchData := addr.vchData ++ data }
          if 16 < version ∨ addr.vchData.length < 2 ∨ 40 < addr.vchData.length then (false, addr)
          else (true, { addr with vchVersion := [version], nType := .bech32 })
        | none => (false, addr)
      else (false, { addr with nType := .unknown, vchVersion := [], vchData := [] })
    | (_, []) => (false, { addr with nType := .unknown, vchVersion := [], vchData := [] })

end

end CCoinAddr

/-! ## Scripts -/

def getScriptForDestination : CTxDestination → CScript
  | .none => []
  | .keyID id => [opDup, opHash160] ++ pushData (u160.put id) ++ [opEqualverify, opChecksig]
  | .scriptID id => opHash160 :: pushData (u160.put id) ++ [opEqual]
  | .witnessV0KeyHash id => 0 :: pushData (u160.put id)
  | .witnessV0ScriptHash id => 0 :: pushData (u256.put id)
  | .witnessV14KeyHash id => encodeOpN 14 :: pushData (u160.put id)
  | .witnessV14ScriptHash id => encodeOpN 14 :: pushData (u256.put id)
  | .witnessUnknown version program => encodeOpN version :: pushData program

/-- `ExtractDestination`, if it returns true. `Solver` never gives `TX_WITNESS_UNKNOWN`. -/
def extractDestination (hash160 : List UInt8 → Uint160)
    (altProof : List UInt8 → List UInt8 → Option Bool) (scriptPubKey : CScript) :
    Option CTxDestination :=
  match solver (solverTemplates altProof) scriptPubKey with
  | some (.template .pubkey, vSolutions) => some (.keyID (hash160 (vSolutions.headD [])))
  | some (.template .pubkeyhash, vSolutions) =>
    some (.keyID (uint160OfBytes (vSolutions.headD [])))
  | some (.scripthash, vSolutions) => some (.scriptID (uint160OfBytes (vSolutions.headD [])))
  | some (.template .ret, _) => some (.keyID 0)
  | some (.witnessV0Keyhash, vSolutions) =>
    some (.witnessV0KeyHash (uint160OfBytes (vSolutions.headD [])))
  | some (.witnessV0Scripthash, vSolutions) =>
    some (.witnessV0ScriptHash (BitVec.ofNat 256 (Codec.leValue (vSolutions.headD []))))
  | some (.witnessV14Keyhash, vSolutions) =>
    some (.witnessV14KeyHash (uint160OfBytes (vSolutions.headD [])))
  | some (.witnessV14Scripthash, vSolutions) =>
    some (.witnessV14ScriptHash (BitVec.ofNat 256 (Codec.leValue (vSolutions.headD []))))
  | _ => none

end ShareCoin.Wire
