import ShareCoin.Proof.Wire.Bech32
import ShareCoin.Proof.Wire.Destination

/-!
# Addresses read back

A text is read as base 58 first, and as bech32 only where that fails. Each reader is the inverse of
its writer, so what was written comes back as the version and the data of the object; the rest is
which destination `Get` makes of them. It has no case for a witness version other than 0 and 14.

That a bech32 text does not pass the checksum of the other encoding is an assumption about two texts
here, and not about all of them.
-/

namespace ShareCoin.Wire

open Lib Server List

variable {program : List UInt8} {d : CTxDestination} {version : Nat}

def CTxDestination.witness : CTxDestination → Option (Nat × List UInt8)
  | .witnessV0KeyHash id => some (0, u160.put id)
  | .witnessV0ScriptHash id => some (0, u256.put id)
  | .witnessV14KeyHash id => some (14, u160.put id)
  | .witnessV14ScriptHash id => some (14, u256.put id)
  | .witnessUnknown version program => some (version, program)
  | _ => Option.none

def addrText (sha256 : List UInt8 → Uint256) (iface : CoinIface) (d : CTxDestination) :
    List UInt8 :=
  ((CCoinAddr.mk iface .unknown [] []).set d).toText sha256

/-- What a text gives: `SetString` on a new object, then `Get`. -/
def destinationOf (sha256 : List UInt8 → Uint256) (enabled : Bool) (iface : CoinIface)
    (str : List UInt8) : Option CTxDestination :=
  ((CCoinAddr.mk iface .unknown [] []).setString sha256 enabled str).2.get

/-! ## Regrouped programs -/

def symbols (program : List UInt8) : List UInt8 := (convertBits 8 5 true program).getD []

theorem toNat_ofNat_of_lt {l : List Nat} (h : ∀ x ∈ l, x < 256) :
    (l.map UInt8.ofNat).map UInt8.toNat = l := by
  rw [map_map]
  refine (map_congr_left fun x hx => ?_).trans (map_id l)
  show (UInt8.ofNat x).toNat = x
  rw [UInt8.toNat_ofNat', Nat.mod_eq_of_lt (h x hx)]

/-- **The symbols of a program are in range, few enough, and regroup to it.** -/
theorem symbols_spec (program : List UInt8) :
    (∀ s ∈ symbols program, s < 32) ∧ 5 * (symbols program).length ≤ 8 * program.length + 4 ∧
      convertBits 5 8 false (symbols program) = some program := by
  have hbytes : ∀ x ∈ program.map UInt8.toNat, x < 2 ^ 8 := bytes_lt program
  obtain ⟨m, p, hm, hp, hlen, -, hdigits⟩ :=
    Radix.convert_pad (show 0 < 5 by decide) hbytes
  have hback := Radix.convert_convert (show 0 < 5 by decide) (show 5 ≤ 8 by decide) hbytes
  rw [hm, Option.bind_some] at hback
  have hsymbols : symbols program = m.map UInt8.ofNat := by
    rw [symbols, convertBits, hm]
    rfl
  have hsmall : ∀ x ∈ m, x < 256 := fun x hx => Nat.lt_trans (hdigits x hx) (by decide)
  refine ⟨?_, ?_, ?_⟩
  · intro s hs
    rw [hsymbols] at hs
    obtain ⟨x, hx, rfl⟩ := mem_map.mp hs
    rw [UInt8.lt_iff_toNat_lt, UInt8.toNat_ofNat', Nat.mod_eq_of_lt (hsmall x hx)]
    exact hdigits x hx
  · rw [hsymbols, length_map]
    rw [length_map] at hlen
    omega
  · rw [hsymbols, convertBits, toNat_ofNat_of_lt hsmall, hback, Option.map_some, map_ofNat_toNat]

/-! ## Witness destinations -/

theorem set_witness (h : d.witness = some (version, program)) (addr : CCoinAddr) :
    addr.set d = addr.setData .bech32 version program := by
  cases d <;> cases h <;> rfl

theorem witness_bounds (hd : d.Writable) (h : d.witness = some (version, program)) :
    version ≤ 15 ∧ 2 ≤ program.length ∧ program.length ≤ 40 := by
  cases d <;> cases h
  case witnessUnknown => exact ⟨hd.2.1, hd.2.2.2⟩
  all_goals simp

def ofWitness (version : Nat) (program : List UInt8) : CTxDestination :=
  if version = 0 then
    if program.length = 20 then .witnessV0KeyHash (uint160OfBytes program)
    else .witnessV0ScriptHash (BitVec.ofNat 256 (Codec.leValue program))
  else if version = 14 then
    if program.length = 20 then .witnessV14KeyHash (uint160OfBytes program)
    else .witnessV14ScriptHash (BitVec.ofNat 256 (Codec.leValue program))
  else .witnessUnknown version program

theorem ofWitness_witness (hd : d.Writable) (h : d.witness = some (version, program)) :
    ofWitness version program = d := by
  cases d <;> cases h
  case witnessUnknown =>
    rw [ofWitness, if_neg (Nat.ne_of_gt hd.1), if_neg hd.2.2.1]
  all_goals simp [ofWitness]

theorem name_plain (iface : CoinIface) :
    (addrParams iface).name ≠ [] ∧ (addrParams iface).name.length ≤ 7 ∧
      (∀ c ∈ (addrParams iface).name, Bech32.Plain c) := by
  have hplain : (addrParams iface).name.all (fun c => decide (Bech32.Plain c)) = true := by
    cases iface <;> rfl
  refine ⟨by cases iface <;> decide, by cases iface <;> decide, fun c hc => ?_⟩
  exact of_decide_eq_true (all_eq_true.mp hplain c hc)

theorem cstr_of_plain {str : List UInt8} (h : ∀ c ∈ str, Bech32.Plain c) : cstr str = str := by
  rw [cstr, takeWhile_eq_self_iff]
  intro c hc
  rw [bne_iff_ne]
  rintro rfl
  exact (h 0 hc).1 (by decide)

section

variable {sha256 : List UInt8 → Uint256} {enabled : Bool} {iface : CoinIface} {d' : CTxDestination}

theorem addrText_witness (h : d.witness = some (version, program)) :
    addrText sha256 iface d =
      Bech32.encode (addrParams iface).name (UInt8.ofNat version :: symbols program) := by
  rw [addrText, set_witness h]
  rfl

theorem symbols_lt (hversion : version ≤ 15) :
    ∀ s ∈ UInt8.ofNat version :: symbols program, s < 32 := by
  intro s hs
  rcases mem_cons.mp hs with rfl | hs
  · rw [UInt8.lt_iff_toNat_lt, UInt8.toNat_ofNat', Nat.mod_eq_of_lt (by omega)]
    exact Nat.lt_of_le_of_lt hversion (by decide)
  · exact (symbols_spec program).1 s hs

section

variable (hd : d.Writable) (h : d.witness = some (version, program))
include hd h

theorem decode_addrText :
    Bech32.decode (addrText sha256 iface d) =
      ((addrParams iface).name, UInt8.ofNat version :: symbols program) := by
  obtain ⟨hversion, -, hlen⟩ := witness_bounds hd h
  obtain ⟨hne, hname, hplain⟩ := name_plain iface
  have hsymbols := (symbols_spec program).2.1
  rw [addrText_witness h]
  apply Bech32.decode_encode hne hplain (symbols_lt hversion)
  rw [length_cons]
  omega

theorem cstr_addrText : cstr (addrText sha256 iface d) = addrText sha256 iface d := by
  rw [addrText_witness h]
  exact cstr_of_plain
    (Bech32.encode_plain (name_plain iface).2.2 (symbols_lt (witness_bounds hd h).1))

/-- **The text of a witness destination fills the object as the destination did**, unless the
    interface is not enabled. -/
theorem setString_witness (hbase : decodeBase58Check sha256 (addrText sha256 iface d) = none) :
    (CCoinAddr.mk iface .unknown [] []).setString sha256 enabled (addrText sha256 iface d) =
      if enabled then (true, ⟨iface, .bech32, [UInt8.ofNat version], program⟩)
      else (false, ⟨iface, .unknown, [], []⟩) := by
  obtain ⟨hversion, hlo, hhi⟩ := witness_bounds hd h
  have hfail : (CCoinAddr.mk iface .unknown [] []).setBase58 sha256 (addrText sha256 iface d) =
      (false, ⟨iface, .unknown, [], []⟩) := by
    rw [CCoinAddr.setBase58, cstr_addrText hd h, hbase]
  have hsmall : ¬ 16 < UInt8.ofNat version := by
    rw [UInt8.lt_iff_toNat_lt, UInt8.toNat_ofNat', Nat.mod_eq_of_lt (by omega)]
    show ¬ 16 < version
    omega
  simp only [CCoinAddr.setString, hfail, decode_addrText hd h, cstr_of_plain (name_plain iface).2.2,
    beq_self_eq_true, Bool.and_true, (symbols_spec program).2.2, nil_append]
  rw [if_neg (show ¬ (16 < UInt8.ofNat version ∨ program.length < 2 ∨ 40 < program.length) by
    rintro (hbad | hbad | hbad)
    · exact hsmall hbad
    · omega
    · omega)]

end

/-! ## Hashes -/

def CTxDestination.hashed (iface : CoinIface) : CTxDestination → Option (UInt8 × Uint160)
  | .keyID id => some (getPubKeyVersion iface, id)
  | .scriptID id => some (getScriptVersion iface, id)
  | _ => Option.none

theorem hashed_or_witness (iface : CoinIface) (hd : d.Writable) :
    (∃ nVersion id, d.hashed iface = some (nVersion, id)) ∨
      ∃ version program, d.witness = some (version, program) := by
  cases d
  case none => exact absurd hd id
  case keyID id => exact .inl ⟨_, _, rfl⟩
  case scriptID id => exact .inl ⟨_, _, rfl⟩
  all_goals exact .inr ⟨_, _, rfl⟩

variable {nVersion : UInt8} {id : Uint160}

theorem addrText_hashed (h : d.hashed iface = some (nVersion, id)) :
    addrText sha256 iface d = encodeBase58Check sha256 (nVersion :: u160.put id) := by
  cases d <;> cases h <;> simp [addrText, CCoinAddr.set, CCoinAddr.setData, CCoinAddr.toText]

theorem setString_hashed (h : d.hashed iface = some (nVersion, id)) :
    (CCoinAddr.mk iface .unknown [] []).setString sha256 enabled (addrText sha256 iface d) =
      (true, ⟨iface, .base58, [nVersion], u160.put id⟩) := by
  have hcstr : cstr (encodeBase58Check sha256 (nVersion :: u160.put id)) =
      encodeBase58Check sha256 (nVersion :: u160.put id) := cstr_encodeBase58 _
  simp [CCoinAddr.setString, CCoinAddr.setBase58, addrText_hashed h, hcstr,
    decodeBase58Check_encodeBase58Check]

theorem versions_spec (iface : CoinIface) :
    getPubKeyVersion iface ≠ getScriptVersion iface ∧
    getPubKeyVersion iface ∈ CCoinAddr.pubkeyAddresses ∧
    getScriptVersion iface ∉ CCoinAddr.pubkeyAddresses ∧
    getScriptVersion iface ∈ CCoinAddr.scriptAddresses ∧
    getScriptVersion iface = (addrParams iface).base58ScriptAddress2 := by
  cases iface <;> decide

theorem isValid_hashed (h : d.hashed iface = some (nVersion, id)) :
    CCoinAddr.isValid ⟨iface, .base58, [nVersion], u160.put id⟩ = true := by
  obtain ⟨-, hpub, -, hscript, hver⟩ := versions_spec iface
  cases d <;> cases h
  case keyID =>
    have hown : getPubKeyVersion iface = (addrParams iface).base58PubkeyAddress := rfl
    simp [CCoinAddr.isValid, hpub, ← hown]
  case scriptID => simp [CCoinAddr.isValid, hscript, ← hver]

theorem get_hashed (h : d.hashed iface = some (nVersion, id)) :
    CCoinAddr.get ⟨iface, .base58, [nVersion], u160.put id⟩ = some d := by
  have hvalid := isValid_hashed h
  have htake : (u160.put id).take 20 = u160.put id := take_of_length_le (by simp)
  obtain ⟨-, hpub, hnot, hscript, -⟩ := versions_spec iface
  cases d <;> cases h
  case keyID => simp [CCoinAddr.get, hvalid, CCoinAddr.getBase58, hpub, htake]
  case scriptID => simp [CCoinAddr.get, hvalid, CCoinAddr.getBase58, hnot, hscript, htake]

/-! ## Both -/

theorem get_ne_unknown (addr : CCoinAddr) (version : Nat) (program : List UInt8) :
    addr.get ≠ some (.witnessUnknown version program) := by
  have hbech32 : addr.getBech32 ≠ some (.witnessUnknown version program) := by
    unfold CCoinAddr.getBech32
    dsimp only
    split_ifs <;> simp
  have hbase58 : addr.getBase58 ≠ some (.witnessUnknown version program) := by
    unfold CCoinAddr.getBase58
    split
    · split_ifs <;> simp
    · simp
  unfold CCoinAddr.get
  split
  case h_1 dest hdest =>
    split_ifs at hdest
    exact hdest ▸ hbech32
  case h_2 =>
    split_ifs
    · exact hbase58
    · simp

theorem get_witness (hd : d.Writable) (h : d.witness = some (version, program)) :
    CCoinAddr.get ⟨iface, .bech32, [UInt8.ofNat version], program⟩ = some d ↔ ¬ d.Unknown := by
  cases d <;> cases h
  case witnessUnknown => simp [get_ne_unknown, CTxDestination.Unknown]
  all_goals simp [CCoinAddr.get, CCoinAddr.getBech32, CTxDestination.Unknown]

/-- **What the text of a destination gives.** -/
theorem destinationOf_addrText (hd : d.Writable)
    (hbase : d.witness.isSome → decodeBase58Check sha256 (addrText sha256 iface d) = none) :
    destinationOf sha256 enabled iface (addrText sha256 iface d) = some d ↔
      ¬ d.Unknown ∧ (d.witness.isSome → enabled = true) := by
  rcases hashed_or_witness iface hd with ⟨nVersion, id, h⟩ | ⟨version, program, h⟩
  · have hkind : ¬ d.Unknown ∧ d.witness.isSome = false := by
      cases d <;> cases h <;> simp [CTxDestination.Unknown, CTxDestination.witness]
    simp [destinationOf, setString_hashed h, get_hashed h, hkind]
  · have hsome : d.witness.isSome = true := by rw [h]; rfl
    rw [destinationOf, setString_witness hd h (hbase hsome)]
    cases enabled with
    | true => simp [get_witness hd h]
    | false =>
      have hnone : CCoinAddr.get ⟨iface, .unknown, [], []⟩ = some .none := rfl
      have hne : d ≠ .none := by
        rintro rfl
        exact hd
      simpa [hnone, hsome] using hne.symm

/-- **Texts differ.** -/
theorem addrText_inj (hd : d.Writable) (hd' : d'.Writable)
    (hbase : d.witness.isSome → decodeBase58Check sha256 (addrText sha256 iface d) = none)
    (hbase' : d'.witness.isSome → decodeBase58Check sha256 (addrText sha256 iface d') = none)
    (htext : addrText sha256 iface d = addrText sha256 iface d') : d = d' := by
  rcases hashed_or_witness iface hd with ⟨nVersion, id, h⟩ | ⟨version, program, h⟩ <;>
    rcases hashed_or_witness iface hd' with ⟨nVersion', id', h'⟩ | ⟨version', program', h'⟩
  · have hread : destinationOf sha256 true iface (addrText sha256 iface d) = some d := by
      rw [destinationOf, setString_hashed h, get_hashed h]
    rw [htext, destinationOf, setString_hashed h', get_hashed h'] at hread
    exact (Option.some.inj hread).symm
  · have hpass := decodeBase58Check_encodeBase58Check sha256 (nVersion :: u160.put id)
    rw [← addrText_hashed h, htext, hbase' (by rw [h']; rfl)] at hpass
    cases hpass
  · have hpass := decodeBase58Check_encodeBase58Check sha256 (nVersion' :: u160.put id')
    rw [← addrText_hashed h', ← htext, hbase (by rw [h]; rfl)] at hpass
    cases hpass
  · have hread : Bech32.decode (addrText sha256 iface d) = _ := decode_addrText hd h
    rw [htext, decode_addrText hd' h', Prod.mk.injEq, List.cons.injEq] at hread
    obtain ⟨-, hver, hsymbols⟩ := hread
    have hprogram : program' = program := by
      apply Option.some.inj
      rw [← (symbols_spec program').2.2, hsymbols, (symbols_spec program).2.2]
    have hversion : version' = version := by
      have hlt := (witness_bounds hd h).1
      have hlt' := (witness_bounds hd' h').1
      have hnat := congrArg UInt8.toNat hver
      rw [UInt8.toNat_ofNat', UInt8.toNat_ofNat'] at hnat
      omega
    rw [← ofWitness_witness hd h, ← ofWitness_witness hd' h', hprogram, hversion]

end

/-- **An address reads back exactly if it is not of an unknown witness version**, and, for a
    witness, if the interface is enabled; texts differ in any case, and the script leads back to the
    destination exactly if its version is known. -/
theorem address_roundtrip_iff (sha256 : List UInt8 → Uint256) (hash160 : List UInt8 → Uint160)
    (altProof : List UInt8 → List UInt8 → Option Bool) (enabled : Bool) (iface : CoinIface)
    {d d' : CTxDestination} (hd : d.Writable) (hd' : d'.Writable)
    (hbase : d.witness.isSome → decodeBase58Check sha256 (addrText sha256 iface d) = none)
    (hbase' : d'.witness.isSome → decodeBase58Check sha256 (addrText sha256 iface d') = none) :
    (destinationOf sha256 enabled iface (addrText sha256 iface d) = some d ↔
      ¬ d.Unknown ∧ (d.witness.isSome → enabled = true)) ∧
    (addrText sha256 iface d = addrText sha256 iface d' → d = d') ∧
    (extractDestination hash160 altProof (getScriptForDestination d) = some d ↔ ¬ d.Unknown) :=
  ⟨destinationOf_addrText hd hbase, addrText_inj hd hd' hbase hbase',
    extractDestination_script hash160 altProof hd⟩

/-- The name of the interface has a letter that base 58 leaves out. -/
theorem decodeBase58Check_color {sha256 : List UInt8 → Uint256}
    (h : d.witness = some (version, program)) :
    decodeBase58Check sha256 (addrText sha256 .color d) = none := by
  rw [addrText_witness h, decodeBase58Check]
  rfl

/-- A witness and the hash of a key of the colored coin. -/
theorem color_addresses_read :
    destinationOf (fun _ => 0) true .color (addrText (fun _ => 0) .color (.witnessV0KeyHash 5)) =
      some (.witnessV0KeyHash 5) ∧
    addrText (fun _ => 0) .color (.witnessV0KeyHash 5) ≠ addrText (fun _ => 0) .color (.keyID 5) ∧
    extractDestination (fun _ => 0) (fun _ _ => none)
      (getScriptForDestination (.witnessV0KeyHash 5)) = some (.witnessV0KeyHash 5) := by
  obtain ⟨hread, hinj, hscript⟩ :=
    address_roundtrip_iff (fun _ => 0) (fun _ => 0) (fun _ _ => none) true .color
      (show (CTxDestination.witnessV0KeyHash 5).Writable from trivial)
      (show (CTxDestination.keyID 5).Writable from trivial)
      (fun _ => decodeBase58Check_color rfl) (by simp [CTxDestination.witness])
  refine ⟨hread.mpr ⟨id, fun _ => rfl⟩, ?_, hscript.mpr id⟩
  intro htext
  exact absurd (hinj htext) (by simp)

/-- **A program of version 1 does not come back**: neither from its text nor from its script. -/
theorem version_one_is_lost :
    (CTxDestination.witnessUnknown 1 [255, 255]).Writable ∧
    decodeBase58Check (fun _ => 0)
      (addrText (fun _ => 0) .shc (.witnessUnknown 1 [255, 255])) = none ∧
    destinationOf (fun _ => 0) true .shc
      (addrText (fun _ => 0) .shc (.witnessUnknown 1 [255, 255])) = some .none ∧
    extractDestination (fun _ => 0) (fun _ _ => none)
      (getScriptForDestination (.witnessUnknown 1 [255, 255])) = none :=
  ⟨by simp [CTxDestination.Writable], rfl, by decide +kernel, rfl⟩

end ShareCoin.Wire
