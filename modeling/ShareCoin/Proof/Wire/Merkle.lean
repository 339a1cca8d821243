import ShareCoin.Wire.Block

/-!
# What the root of a block is

The loop of `BuildMerkleTree` keeps all levels in one vector and goes over the last one by its
indices. What it ends with is the root of the tree over the leaves.

A root determines the leaves that it is built of, in each of the three forms, as long as SHA-256
tells apart the strings that are hashed for it.
-/

namespace ShareCoin.Wire

open Lib Server List Option

variable {sha256 : List UInt8 → Uint256} {x y : List UInt8}

/-! ## The loop -/

theorem merkleLevel_eq (done level : List Uint256) :
    merkleLevel sha256 (done ++ level) done.length level.length =
      parents (hashPair sha256) level := by
  have hget (i : Nat) : (done ++ level).getD (done.length + i) 0 = level.getD i 0 := by
    rw [getD_append_right _ _ _ _ (Nat.le_add_right _ _), Nat.add_sub_cancel_left]
  rw [parents_eq_map_range (hashPair sha256) 0, merkleLevel]
  simp only [hget]

theorem merkleLoop_getLast (sha256 : List UInt8 → Uint256) (done : List Uint256) {fuel : Nat}
    {level : List Uint256} (hne : level ≠ []) (hfuel : level.length ≤ fuel + 1) :
    (merkleLoop sha256 fuel (done ++ level) done.length level.length).getLast? =
      merkleRoot (hashPair sha256) level := by
  induction fuel generalizing done level with
  | zero =>
    obtain ⟨a, rfl⟩ : ∃ a, level = [a] :=
      length_eq_one_iff.mp (Nat.le_antisymm hfuel (length_pos_of_ne_nil hne))
    rw [merkleLoop, merkleRoot, getLast?_append, getLast?_singleton, some_or]
  | succ fuel ih =>
    rcases level with _ | ⟨a, _ | ⟨b, level⟩⟩
    · exact absurd rfl hne
    · rw [merkleLoop, if_neg (by simp), merkleRoot, getLast?_append, getLast?_singleton, some_or]
    · have hlen := length_parents (hashPair sha256) (a :: b :: level)
      rw [length_cons, length_cons] at hfuel
      rw [merkleLoop, if_pos (by simp), merkleLevel_eq, ← length_append, ← hlen, merkleRoot]
      refine ih _ (ne_nil_of_length_pos ?_) ?_
      · rw [hlen, length_cons, length_cons]
        omega
      · rw [hlen, length_cons, length_cons]
        omega

/-- **`BuildMerkleTree` builds the tree.** -/
theorem treeMerkleRoot_eq (sha256 : List UInt8 → Uint256) {leaves : List Uint256}
    (hne : leaves ≠ []) :
    merkleRoot (hashPair sha256) leaves = some (treeMerkleRoot sha256 leaves) := by
  obtain ⟨root, hroot⟩ := isSome_iff_exists.mp (merkleRoot_isSome (hashPair sha256) hne)
  have hlast := merkleLoop_getLast sha256 [] hne (Nat.le_succ leaves.length)
  rw [nil_append, length_nil, hroot] at hlast
  rw [treeMerkleRoot, getLastD_eq_getLast?, hlast, hroot, getD_some]

/-! ## What is hashed for a root -/

section

variable (sha256 : List UInt8 → Uint256) (form : RootForm) (vtx : List CTransaction)
include sha256

/-- The first hashes that the root is built of. -/
def rootLeaves : List Uint256 :=
  match form, vtx with
  | .groestl, coinbase :: vtx => sha256 (txBytes coinbase) :: vtx.map (txid sha256)
  | _, vtx => vtx.map (txid sha256)

def rootPairs : List (Uint256 × Uint256) :=
  match form, rootLeaves sha256 form vtx with
  | .tree, leaves => merklePairs (hashPair sha256) leaves
  | _, [] => []
  | _, leaf :: leaves => chainPairs (hashPair sha256) leaf leaves

def rootStrings : List (List UInt8) :=
  vtx.map txBytes ++ (rootPairs sha256 form vtx).map fun p => pairBytes p.1 p.2

/-- The strings that SHA-256 is applied to when `Hash` is applied to the given ones. -/
def digested (strings : List (List UInt8)) : List (List UInt8) :=
  strings.flatMap fun bytes => [bytes, rawBytes (sha256 bytes)]

end

def StringsApart (hash : List UInt8 → Uint256) (strings : List (List UInt8)) : Prop :=
  ∀ x ∈ strings, ∀ y ∈ strings, hash x = hash y → x = y

theorem leaves_of_all {sha256 : List UInt8 → Uint256} {vtx : List CTransaction}
    {pairs : List (Uint256 × Uint256)}
    (h : (vtx.all fun tx => pairs.all fun p => txid sha256 tx != hashPair sha256 p.1 p.2) = true) :
    ∀ tx ∈ vtx, ∀ p ∈ pairs, txid sha256 tx ≠ hashPair sha256 p.1 p.2 := by
  intro tx htx p hp
  exact bne_iff_ne.mp (List.all_eq_true.mp (List.all_eq_true.mp h tx htx) p hp)

/-! ## Bytes -/

theorem rawBytes_length (hash : Uint256) : (rawBytes hash).length = 32 := by
  rw [rawBytes, length_map, length_range]

theorem leBytes_eq_map_range (n x : Nat) :
    Codec.leBytes n x = (List.range n).map fun i => UInt8.ofNat (x / 256 ^ i % 256) := by
  induction n generalizing x with
  | zero => rfl
  | succ n ih =>
    have hbyte (y : Nat) : UInt8.ofNat (y % 256) = UInt8.ofNat y := UInt8.ofNat_mod_size
    rw [Codec.leBytes, ih, range_succ_eq_map, map_cons, List.map_map]
    simp only [Function.comp_def, hbyte, Nat.div_div_eq_div_mul, Nat.pow_succ', Nat.pow_zero,
      Nat.div_one]

theorem rawBytes_eq (hash : Uint256) : rawBytes hash = u256.put hash :=
  (leBytes_eq_map_range 32 hash.toNat).symm

theorem rawBytes_inj {a b : Uint256} (h : rawBytes a = rawBytes b) : a = b := by
  rw [rawBytes_eq, rawBytes_eq] at h
  have hget := u256.get_put [] (a := a) trivial
  rw [h, u256.get_put [] trivial] at hget
  cases hget
  rfl

theorem pairBytes_inj {a b c d : Uint256} (h : pairBytes a b = pairBytes c d) : a = c ∧ b = d := by
  obtain ⟨hac, hbd⟩ := append_inj h (by rw [rawBytes_length, rawBytes_length])
  exact ⟨rawBytes_inj hac, rawBytes_inj hbd⟩

/-! ## Hashes that are told apart -/

section

variable {strings : List (List UInt8)} (h : StringsApart sha256 (digested sha256 strings))

include h

section

variable (hx : x ∈ strings) (hy : y ∈ strings)
include hx hy

theorem sha256_apart (heq : sha256 x = sha256 y) : x = y :=
  h x (mem_flatMap.mpr ⟨x, hx, mem_cons_self⟩) y
    (mem_flatMap.mpr ⟨y, hy, mem_cons_self⟩) heq

theorem sha256d_apart (heq : sha256d sha256 x = sha256d sha256 y) : x = y := by
  have hdigest {z : List UInt8} (hz : z ∈ strings) :
      rawBytes (sha256 z) ∈ digested sha256 strings :=
    mem_flatMap.mpr ⟨z, hz, mem_cons_of_mem _ mem_cons_self⟩
  exact sha256_apart h hx hy (rawBytes_inj (h _ (hdigest hx) _ (hdigest hy) heq))

theorem sha256_ne_sha256d (hlong : 32 < x.length) : sha256 x ≠ sha256d sha256 y := by
  intro heq
  have hxy := h x (mem_flatMap.mpr ⟨x, hx, mem_cons_self⟩) _
    (mem_flatMap.mpr ⟨y, hy, mem_cons_of_mem _ mem_cons_self⟩) heq
  rw [hxy, rawBytes_length] at hlong
  exact absurd hlong (Nat.lt_irrefl 32)

end

theorem hashPair_apart {ps : List (Uint256 × Uint256)}
    (hps : (ps.map fun p => pairBytes p.1 p.2) ⊆ strings) : PairsApart (hashPair sha256) ps := by
  intro p hp q hq heq
  have hbytes := sha256d_apart h (hps (List.mem_map_of_mem hp)) (hps (List.mem_map_of_mem hq)) heq
  obtain ⟨hfst, hsnd⟩ := pairBytes_inj hbytes
  exact Prod.ext hfst hsnd

end

/-! ## What a root determines -/

def leavesRoot (sha256 : List UInt8 → Uint256) (form : RootForm) (leaves : List Uint256) :
    Option Uint256 :=
  match form with
  | .tree => merkleRoot (hashPair sha256) leaves
  | _ => chainRoot (hashPair sha256) leaves

theorem buildMerkleTree_eq {algoCoin : Bool} {block : CBlock} (hne : block.vtx ≠ []) :
    buildMerkleTree sha256 algoCoin block =
      leavesRoot sha256 (rootForm algoCoin block.nVersion)
        (rootLeaves sha256 (rootForm algoCoin block.nVersion) block.vtx) := by
  unfold buildMerkleTree
  cases rootForm algoCoin block.nVersion with
  | chain => rfl
  | groestl =>
    obtain ⟨coinbase, vtx, hvtx⟩ := exists_cons_of_ne_nil hne
    simp only [sha256BlockMerkleRoot, hvtx, rootLeaves, leavesRoot, sha256dComputeMerkleRoot]
  | tree => exact (treeMerkleRoot_eq sha256 (by simpa using hne)).symm

/-- **A root determines the transaction ids.** -/
theorem txids_of_leavesRoot {form : RootForm} {vtx vtx' : List CTransaction}
    (hne : vtx ≠ []) (hne' : vtx' ≠ [])
    (hnodup : (vtx.map (txid sha256)).Nodup) (hnodup' : (vtx'.map (txid sha256)).Nodup)
    (hlong : ∀ tx ∈ vtx ++ vtx', 32 < (txBytes tx).length)
    (hapart : StringsApart sha256
      (digested sha256 (rootStrings sha256 form vtx ++ rootStrings sha256 form vtx')))
    (hleaf : ∀ tx ∈ vtx ++ vtx', ∀ p ∈ rootPairs sha256 form vtx ++ rootPairs sha256 form vtx',
      txid sha256 tx ≠ hashPair sha256 p.1 p.2)
    (hroot : leavesRoot sha256 form (rootLeaves sha256 form vtx) =
      leavesRoot sha256 form (rootLeaves sha256 form vtx')) :
    vtx.map (txid sha256) = vtx'.map (txid sha256) := by
  set strings := rootStrings sha256 form vtx ++ rootStrings sha256 form vtx' with hstrings
  set ps := rootPairs sha256 form vtx ++ rootPairs sha256 form vtx' with hps
  have hpairs : (ps.map fun p => pairBytes p.1 p.2) ⊆ strings := by
    intro bytes hbytes
    simp only [hps, hstrings, rootStrings, map_append, mem_append] at hbytes ⊢
    tauto
  have htx : ∀ tx ∈ vtx ++ vtx', txBytes tx ∈ strings := by
    intro tx hmem
    simp only [hstrings, rootStrings, mem_append] at hmem ⊢
    rcases hmem with hmem | hmem
    · exact .inl (.inl (List.mem_map_of_mem hmem))
    · exact .inr (.inl (List.mem_map_of_mem hmem))
  have hps_apart := hashPair_apart hapart hpairs
  obtain ⟨coinbase, rest, rfl⟩ := exists_cons_of_ne_nil hne
  obtain ⟨coinbase', rest', rfl⟩ := exists_cons_of_ne_nil hne'
  have hcb := mem_append_left (coinbase' :: rest') (mem_cons_self (a := coinbase) (l := rest))
  have hcb' := mem_append_right (coinbase :: rest) (mem_cons_self (a := coinbase') (l := rest'))
  have hl := subset_append_left (rootPairs sha256 form (coinbase :: rest))
    (rootPairs sha256 form (coinbase' :: rest'))
  have hr := subset_append_right (rootPairs sha256 form (coinbase :: rest))
    (rootPairs sha256 form (coinbase' :: rest'))
  cases form with
  | tree =>
    refine merkleRoot_inj (by simp) hnodup hnodup' hps_apart (fun a ha => ?_) hroot
    obtain ⟨tx, hmem, rfl⟩ := List.mem_map.mp (map_append.symm ▸ ha)
    exact hleaf tx hmem
  | chain =>
    obtain ⟨hhead, htail⟩ := foldl_pair_inj hps_apart hl hr (hleaf _ hcb) (hleaf _ hcb')
      (some.inj hroot)
    rw [map_cons, map_cons, hhead, htail]
  | groestl =>
    have hne {tx : CTransaction} (hmem : tx ∈ coinbase :: rest ++ coinbase' :: rest') :
        ∀ p ∈ ps, sha256 (txBytes tx) ≠ hashPair sha256 p.1 p.2 := fun p hp =>
      sha256_ne_sha256d hapart (htx tx hmem) (hpairs (List.mem_map_of_mem hp)) (hlong tx hmem)
    obtain ⟨hhead, htail⟩ := foldl_pair_inj hps_apart hl hr (hne hcb) (hne hcb') (some.inj hroot)
    have hbytes := sha256_apart hapart (htx _ hcb) (htx _ hcb') hhead
    have hid : txid sha256 coinbase = txid sha256 coinbase' :=
      congrArg (sha256d sha256) hbytes
    rw [map_cons, map_cons, hid, htail]

end ShareCoin.Wire
