import ShareCoin.Proof.Wire.CheckBlock
import ShareCoin.Proof.Wire.Payload
import ShareCoin.Wire.Bloom

/-!
# What a Merkle block proves

The nodes of the partial tree are numbered by height and position, and the hash of a node is the one
at that position of a level of the tree over the ids. The reader goes over what the writer wrote, so
that it gets the root of that tree and the matched ids.

That is the root of the header for a block whose root is built as a tree. A chained root is the same
for one or two transactions only, and one of `ALGO_GROESTL` never is.
-/

namespace ShareCoin.Wire

open Lib Server List

variable {sha256 : List UInt8 → Uint256} {vTxid : List Uint256} {vMatch : List Bool}
variable {height pos : Nat} {block : CBlock} {s : Traversal}

/-! ## Nodes -/

theorem calcTreeWidth_eq (sha256 : List UInt8 → Uint256) (vTxid : List Uint256) (height : Nat) :
    calcTreeWidth vTxid.length height =
      ((parents (hashPair sha256))^[height] vTxid).length :=
  (length_iterate_parents (hashPair sha256) vTxid height).symm

theorem calcTreeWidth_succ (nTransactions height : Nat) :
    calcTreeWidth nTransactions (height + 1) = (calcTreeWidth nTransactions height + 1) / 2 :=
  ceil_pow_succ nTransactions height

theorem lt_calcTreeWidth_iff {nTransactions height pos : Nat} :
    pos < calcTreeWidth nTransactions height ↔ pos * 2 ^ height < nTransactions := by
  have hpos : 0 < 2 ^ height := Nat.two_pow_pos height
  rw [calcTreeWidth, ← Nat.succ_le_iff, Nat.le_div_iff_mul_le hpos, Nat.succ_mul]
  omega

theorem calcHash_eq (hpos : pos < calcTreeWidth vTxid.length height) :
    calcHash sha256 vTxid height pos =
      ((parents (hashPair sha256))^[height] vTxid).getD pos 0 := by
  induction height generalizing pos with
  | zero => rfl
  | succ height ih =>
    rw [calcTreeWidth_succ] at hpos
    have hleft : pos * 2 < calcTreeWidth vTxid.length height := by omega
    have hlevel := hleft
    rw [calcTreeWidth_eq sha256, Nat.mul_comm] at hlevel
    rw [calcHash, ih hleft, Function.iterate_succ_apply', getD_parents _ _ hlevel,
      ← calcTreeWidth_eq, Nat.mul_comm pos 2]
    split_ifs with hright
    · rw [ih (by omega), Nat.min_eq_left (by omega)]
    · rw [show min (2 * pos + 1) (calcTreeWidth vTxid.length height - 1) = 2 * pos by omega]

/-! ## The height -/

theorem heightLoop_spec {nTransactions fuel height : Nat}
    (hbelow : ∀ k < height, 1 < calcTreeWidth nTransactions k)
    (hfuel : calcTreeWidth nTransactions (height + fuel) ≤ 1) :
    calcTreeWidth nTransactions (heightLoop nTransactions fuel height) ≤ 1 ∧
      ∀ k < heightLoop nTransactions fuel height, 1 < calcTreeWidth nTransactions k := by
  induction fuel generalizing height with
  | zero => exact ⟨hfuel, hbelow⟩
  | succ fuel ih =>
    rw [heightLoop]
    split_ifs with hmore
    · refine ih (fun k hk => ?_) (by rwa [Nat.add_right_comm, Nat.add_assoc])
      rcases Nat.lt_succ_iff_lt_or_eq.mp hk with hlt | rfl
      · exact hbelow k hlt
      · exact hmore
    · exact ⟨Nat.le_of_not_lt hmore, hbelow⟩

theorem calcTreeWidth_le_one {nTransactions height : Nat} (h : nTransactions ≤ 2 ^ height) :
    calcTreeWidth nTransactions height ≤ 1 := by
  have hpos : 0 < 2 ^ height := Nat.two_pow_pos height
  rw [calcTreeWidth, ← Nat.lt_succ_iff, Nat.div_lt_iff_lt_mul hpos]
  omega

theorem treeHeight_spec {nTransactions : Nat} (h : nTransactions ≤ 16666) :
    calcTreeWidth nTransactions (treeHeight nTransactions) ≤ 1 ∧
      (∀ k < treeHeight nTransactions, 1 < calcTreeWidth nTransactions k) ∧
      treeHeight nTransactions ≤ 15 := by
  have h32 : calcTreeWidth nTransactions (0 + 32) ≤ 1 :=
    calcTreeWidth_le_one (Nat.le_trans h (by decide))
  obtain ⟨htop, hbelow⟩ := heightLoop_spec (fun k hk => absurd hk (Nat.not_lt_zero k)) h32
  refine ⟨htop, hbelow, Nat.le_of_not_lt fun hlt => ?_⟩
  have h15 : calcTreeWidth nTransactions 15 ≤ 1 :=
    calcTreeWidth_le_one (Nat.le_trans h (by decide))
  exact absurd (hbelow 15 hlt) (Nat.not_lt.mpr h15)

theorem heightLoop_eq {nTransactions fuel : Nat} (h : nTransactions ≤ 16666) (hfuel : 15 ≤ fuel) :
    heightLoop nTransactions fuel 0 = treeHeight nTransactions := by
  have hpow : nTransactions ≤ 2 ^ (0 + fuel) :=
    calc nTransactions ≤ 2 ^ 15 := Nat.le_trans h (by decide)
      _ ≤ 2 ^ (0 + fuel) := Nat.pow_le_pow_right (by decide) (by omega)
  obtain ⟨htop, hbelow, -⟩ := treeHeight_spec h
  obtain ⟨htop', hbelow'⟩ := heightLoop_spec (fun k hk => absurd hk (Nat.not_lt_zero k))
    (calcTreeWidth_le_one hpow)
  rcases Nat.lt_trichotomy (heightLoop nTransactions fuel 0) (treeHeight nTransactions) with
    hlt | heq | hgt
  · exact absurd (hbelow _ hlt) (Nat.not_lt.mpr htop')
  · exact heq
  · exact absurd (hbelow' _ hgt) (Nat.not_lt.mpr htop)

theorem calcHash_top (hne : vTxid ≠ []) (hlen : vTxid.length ≤ 16666) :
    calcHash sha256 vTxid (treeHeight vTxid.length) 0 = treeMerkleRoot sha256 vTxid := by
  obtain ⟨htop, hbelow, -⟩ := treeHeight_spec hlen
  have hpos : 0 < calcTreeWidth vTxid.length (treeHeight vTxid.length) := by
    rw [lt_calcTreeWidth_iff, Nat.zero_mul]
    exact length_pos_of_ne_nil hne
  have hroot := merkleRoot_level (hashPair sha256) 0
    (fun k hk => calcTreeWidth_eq sha256 vTxid k ▸ hbelow k hk)
    ((calcTreeWidth_eq ..).symm.trans (Nat.le_antisymm htop hpos))
  rw [treeMerkleRoot_eq sha256 hne] at hroot
  rw [calcHash_eq hpos, Option.some.inj hroot]

/-! ## What the writer writes -/

section

variable (sha256 vTxid vMatch)

def nodeBits : Nat → Nat → List Bool
  | 0, pos => [parentOfMatch vTxid.length vMatch 0 pos]
  | height + 1, pos =>
    if parentOfMatch vTxid.length vMatch (height + 1) pos then
      true :: (nodeBits height (pos * 2) ++
        if pos * 2 + 1 < calcTreeWidth vTxid.length height then nodeBits height (pos * 2 + 1)
        else [])
    else [false]

def nodeHashes : Nat → Nat → List Uint256
  | 0, pos => [calcHash sha256 vTxid 0 pos]
  | height + 1, pos =>
    if parentOfMatch vTxid.length vMatch (height + 1) pos then
      nodeHashes height (pos * 2) ++
        if pos * 2 + 1 < calcTreeWidth vTxid.length height then nodeHashes height (pos * 2 + 1)
        else []
    else [calcHash sha256 vTxid (height + 1) pos]

def nodeMatches (height pos : Nat) : List Uint256 :=
  (List.range' (pos * 2 ^ height) (2 ^ height)).filterMap fun p =>
    if decide (p < vTxid.length) && vMatch.getD p false then some (vTxid.getD p 0) else none

end

theorem traverseAndBuild_eq (height pos : Nat) (vBits : List Bool) (vHash : List Uint256) :
    traverseAndBuild sha256 vTxid vMatch height pos (vBits, vHash) =
      (vBits ++ nodeBits vTxid vMatch height pos,
        vHash ++ nodeHashes sha256 vTxid vMatch height pos) := by
  induction height generalizing pos vBits vHash with
  | zero => rfl
  | succ height ih =>
    rw [traverseAndBuild, nodeBits, nodeHashes]
    split_ifs with hmatch hright
    · rw [ih, ih]
      simp only [append_assoc, cons_append, nil_append]
    · rw [ih]
      simp only [append_assoc, cons_append, nil_append, append_nil]
    · rfl

theorem partialMerkleTree_eq (vTxid : List Uint256) (vMatch : List Bool) :
    partialMerkleTree sha256 vTxid vMatch =
      { nTransactions := UInt32.ofNat vTxid.length
        vBits := nodeBits vTxid vMatch (treeHeight vTxid.length) 0
        vHash := nodeHashes sha256 vTxid vMatch (treeHeight vTxid.length) 0
        fBad := false } := by
  rw [partialMerkleTree, traverseAndBuild_eq]
  rfl

variable (sha256 vTxid vMatch) in
theorem node_lengths (height pos : Nat) :
    (nodeHashes sha256 vTxid vMatch height pos).length ≤
        (nodeBits vTxid vMatch height pos).length ∧
      (nodeBits vTxid vMatch height pos).length < 2 ^ (height + 1) := by
  induction height generalizing pos with
  | zero => exact ⟨Nat.le_refl 1, Nat.one_lt_two⟩
  | succ height ih =>
    have hleft := ih (pos * 2)
    have hright := ih (pos * 2 + 1)
    rw [nodeBits, nodeHashes]
    split_ifs
    · simp only [length_append, length_cons]
      omega
    · simp only [length_append, length_cons, length_nil]
      omega
    · simp only [length_singleton]
      omega

theorem nodeHashes_length_le_leaves (hpos : pos * 2 ^ height < vTxid.length) :
    (nodeHashes sha256 vTxid vMatch height pos).length ≤ vTxid.length - pos * 2 ^ height ∧
      (nodeHashes sha256 vTxid vMatch height pos).length ≤ 2 ^ height := by
  induction height generalizing pos with
  | zero =>
    exact ⟨by rw [nodeHashes, length_singleton]; omega, Nat.le_refl 1⟩
  | succ height ih =>
    have hpow : 2 ^ (height + 1) = 2 ^ height * 2 := Nat.pow_succ 2 _
    have hleft : pos * 2 * 2 ^ height = pos * 2 ^ (height + 1) := by
      rw [hpow, Nat.mul_assoc, Nat.mul_comm 2]
    have hmid : (pos * 2 + 1) * 2 ^ height = pos * 2 ^ (height + 1) + 2 ^ height := by
      rw [Nat.succ_mul, hleft]
    have ihleft := ih (hleft.symm ▸ hpos)
    rw [nodeHashes]
    split_ifs with hmatch hright
    · rw [lt_calcTreeWidth_iff] at hright
      have ihright := ih hright
      rw [length_append]
      omega
    · rw [append_nil]
      omega
    · have := Nat.two_pow_pos height
      rw [length_singleton]
      omega

/-! ## Matches -/

theorem nodeMatches_zero (sha256 : List UInt8 → Uint256) (pos : Nat) :
    nodeMatches vTxid vMatch 0 pos =
      if parentOfMatch vTxid.length vMatch 0 pos then [calcHash sha256 vTxid 0 pos] else [] := by
  have hrange : List.range' (pos * 2 ^ 0) (2 ^ 0) = [pos] := by simp
  rw [nodeMatches, parentOfMatch, hrange, any_cons, any_nil, Bool.or_false,
    filterMap_cons, filterMap_nil, calcHash]
  split_ifs <;> rfl

theorem nodeMatches_eq_nil (h : parentOfMatch vTxid.length vMatch height pos = false) :
    nodeMatches vTxid vMatch height pos = [] := by
  rw [nodeMatches, filterMap_eq_nil_iff]
  intro p hp
  rw [parentOfMatch, any_eq_false] at h
  rw [if_neg (h p hp)]

theorem parentOfMatch_outside (h : ¬ pos < calcTreeWidth vTxid.length height) :
    parentOfMatch vTxid.length vMatch height pos = false := by
  rw [lt_calcTreeWidth_iff] at h
  rw [parentOfMatch, any_eq_false]
  intro p hp
  have hle := (mem_range'_1.mp hp).1
  rw [decide_eq_false (by omega), Bool.false_and]
  exact Bool.false_ne_true

theorem nodeMatches_succ (height pos : Nat) :
    nodeMatches vTxid vMatch (height + 1) pos =
      nodeMatches vTxid vMatch height (pos * 2) ++
        nodeMatches vTxid vMatch height (pos * 2 + 1) := by
  have hpow : 2 ^ (height + 1) = 2 ^ height + 2 ^ height := by
    rw [Nat.pow_succ, Nat.mul_two]
  have hleft : pos * 2 ^ (height + 1) = pos * 2 * 2 ^ height := by
    rw [Nat.pow_succ, Nat.mul_assoc, Nat.mul_comm 2]
  rw [nodeMatches, hleft, hpow, ← range'_append_1, filterMap_append, ← Nat.succ_mul]
  rfl

/-! ## What the reader reads -/

section

variable {t : CPartialMerkleTree} {bitsBefore bitsAfter : List Bool}
variable {hashesBefore hashesAfter : List Uint256}

theorem vBits_get {bit : Bool} (hbits : t.vBits = bitsBefore ++ (bit :: bitsAfter))
    (hused : s.nBitsUsed = bitsBefore.length) : t.vBits[s.nBitsUsed]? = some bit := by
  rw [hbits, hused, getElem?_append_right (Nat.le_refl _), Nat.sub_self]
  rfl

theorem takeHash_eq {hash : Uint256} (matched : Bool)
    (hhash : t.vHash = hashesBefore ++ (hash :: hashesAfter))
    (hused : s.nHashUsed = hashesBefore.length) :
    takeHash t matched s =
      (hash, { s with
        nHashUsed := s.nHashUsed + 1
        vMatch := s.vMatch ++ if matched then [hash] else [] }) := by
  have hget : t.vHash[s.nHashUsed]? = some hash := by
    rw [hhash, hused, getElem?_append_right (Nat.le_refl _), Nat.sub_self]
    rfl
  rw [takeHash, hget]
  cases matched <;> simp

/-- **The reader of a node.** It gets the hash of the node and the ids that are matched below it,
    and goes on behind what was written for the node. -/
theorem traverseAndExtract_eq (hn : t.nTransactions.toNat = vTxid.length)
    (hbits : t.vBits = bitsBefore ++ (nodeBits vTxid vMatch height pos ++ bitsAfter))
    (hhashes : t.vHash = hashesBefore ++ (nodeHashes sha256 vTxid vMatch height pos ++ hashesAfter))
    (hb : s.nBitsUsed = bitsBefore.length) (hh : s.nHashUsed = hashesBefore.length) :
    traverseAndExtract sha256 t height pos s =
      (calcHash sha256 vTxid height pos, { s with
        nBitsUsed := s.nBitsUsed + (nodeBits vTxid vMatch height pos).length
        nHashUsed := s.nHashUsed + (nodeHashes sha256 vTxid vMatch height pos).length
        vMatch := s.vMatch ++ nodeMatches vTxid vMatch height pos }) := by
  induction height generalizing pos s bitsBefore bitsAfter hashesBefore hashesAfter with
  | zero =>
    rw [traverseAndExtract, vBits_get hbits hb, nodeMatches_zero sha256]
    exact takeHash_eq _ hhashes hh
  | succ height ih =>
    cases hmatch : parentOfMatch vTxid.length vMatch (height + 1) pos with
    | false =>
      simp only [nodeBits, nodeHashes, hmatch] at hbits hhashes ⊢
      rw [traverseAndExtract, vBits_get hbits hb, nodeMatches_eq_nil hmatch]
      exact takeHash_eq false hhashes hh
    | true =>
      simp only [nodeBits, nodeHashes, hmatch, if_true, cons_append, append_assoc]
        at hbits hhashes ⊢
      have hbits' := hbits
      rw [append_cons] at hbits'
      have hleft :=
        ih (s := { s with nBitsUsed := s.nBitsUsed + 1 }) hbits' hhashes (by simp [hb]) hh
      rw [traverseAndExtract, vBits_get hbits hb, hn, nodeMatches_succ]
      simp only [hleft]
      split_ifs at hbits' hhashes ⊢ with hright
      · rw [← append_assoc] at hbits' hhashes
        rw [ih hbits' hhashes (by simp [hb]; omega) (by simp [hh])]
        simp only [calcHash, if_pos hright, length_cons, length_append,
          append_assoc, Nat.add_assoc, Nat.add_comm 1]
      · rw [nodeMatches_eq_nil (parentOfMatch_outside hright)]
        simp only [calcHash, if_neg hright, length_cons, append_nil, Nat.add_assoc, Nat.add_comm 1]

end

/-! ## What is sent -/

/-- The tree that the reader has: with the padding of the last byte of bits. -/
def sentTree (t : CPartialMerkleTree) : CPartialMerkleTree :=
  { t with
    vBits := t.vBits ++ List.replicate ((t.vBits.length + 7) / 8 * 8 - t.vBits.length) false
    fBad := false }

theorem codec_norm (t : CPartialMerkleTree) : CPartialMerkleTree.codec.norm t = sentTree t := by
  have hexact := u32_exact.pair ((vec_exact u256_exact).pair cbuff_exact)
  have hnorm := congrArg
    (fun r => CPartialMerkleTree.mk r.1 (unpackBits r.2.2) r.2.1 false)
    (hexact (t.nTransactions, t.vHash, packBits t.vBits))
  refine hnorm.trans ?_
  rw [sentTree, ← unpackBits_packBits]

variable (sha256 vMatch) in
theorem nodeHashes_top_le (hne : vTxid ≠ []) :
    (nodeHashes sha256 vTxid vMatch (treeHeight vTxid.length) 0).length ≤ vTxid.length := by
  have hpos : 0 * 2 ^ treeHeight vTxid.length < vTxid.length := by
    rw [Nat.zero_mul]
    exact length_pos_of_ne_nil hne
  exact Nat.le_trans (nodeHashes_length_le_leaves hpos).1 (Nat.sub_le _ _)

theorem partialMerkleTree_sent (hne : vTxid ≠ []) (hlen : vTxid.length ≤ 16666) :
    CPartialMerkleTree.codec.get
        (CPartialMerkleTree.codec.put (partialMerkleTree sha256 vTxid vMatch)) =
      some (sentTree (partialMerkleTree sha256 vTxid vMatch), []) := by
  have hhashes := nodeHashes_top_le sha256 vMatch hne
  have hbits := (node_lengths sha256 vTxid vMatch (treeHeight vTxid.length) 0).2
  have hpow : 2 ^ (treeHeight vTxid.length + 1) ≤ 2 ^ 16 :=
    Nat.pow_le_pow_right (by decide) (Nat.succ_le_succ (treeHeight_spec hlen).2.2)
  have hfits : CPartialMerkleTree.codec.fits (partialMerkleTree sha256 vTxid vMatch) := by
    rw [partialMerkleTree_eq]
    refine ⟨trivial, ⟨?_, fun _ _ => trivial⟩, ?_, fun _ _ => trivial⟩
    · exact Nat.le_trans hhashes (Nat.le_trans hlen (by decide))
    · change (packBits (nodeBits vTxid vMatch (treeHeight vTxid.length) 0)).length ≤ maxSize
      rw [length_packBits, maxSize]
      omega
  have hget := CPartialMerkleTree.codec.get_put [] hfits
  rwa [append_nil, codec_norm] at hget

theorem toNat_count (hlen : vTxid.length ≤ 16666) :
    (UInt32.ofNat vTxid.length).toNat = vTxid.length := by
  rw [UInt32.toNat_ofNat']
  omega

/-- What a reader gets that has the bits and the hashes of the tree, and some padding. -/
theorem extractMatches_eq {t : CPartialMerkleTree} {padding : List Bool} (hne : vTxid ≠ [])
    (hlen : vTxid.length ≤ 16666) (hn : t.nTransactions.toNat = vTxid.length)
    (hbits : t.vBits = nodeBits vTxid vMatch (treeHeight vTxid.length) 0 ++ padding)
    (hpadding : ((nodeBits vTxid vMatch (treeHeight vTxid.length) 0).length + 7) / 8 =
      (t.vBits.length + 7) / 8)
    (hhashes : t.vHash = nodeHashes sha256 vTxid vMatch (treeHeight vTxid.length) 0)
    (hbad : t.fBad = false) :
    extractMatches sha256 t =
      (treeMerkleRoot sha256 vTxid,
        nodeMatches vTxid vMatch (treeHeight vTxid.length) 0) := by
  have hn0 : t.nTransactions ≠ 0 := by
    intro h
    rw [h] at hn
    exact hne (eq_nil_of_length_eq_zero hn.symm)
  have hle := (node_lengths sha256 vTxid vMatch (treeHeight vTxid.length) 0).1
  have hbitsLen : t.vHash.length ≤ t.vBits.length := by
    rw [hbits, hhashes, length_append]
    omega
  have hbits' : t.vBits = [] ++
      (nodeBits vTxid vMatch (treeHeight vTxid.length) 0 ++ padding) := hbits
  have hhashes' : t.vHash = [] ++
      (nodeHashes sha256 vTxid vMatch (treeHeight vTxid.length) 0 ++ []) := by
    rw [append_nil, hhashes, nil_append]
  have hread := traverseAndExtract_eq (s := ⟨0, 0, [], t.fBad⟩) hn hbits' hhashes' rfl rfl
  rw [extractMatches, if_neg hn0, hn, if_neg (Nat.not_lt.mpr hlen), if_neg, if_neg
    (Nat.not_lt.mpr hbitsLen), hread]
  · simp only [Nat.zero_add, nil_append, hbad, hpadding, hhashes, calcHash_top hne hlen]
    simp
  · rw [hhashes]
    exact Nat.not_lt.mpr (nodeHashes_top_le sha256 vMatch hne)

/-- **The reader gets the root of the tree over the ids, and the ids that are matched.** -/
theorem extractMatches_sent (hne : vTxid ≠ []) (hlen : vTxid.length ≤ 16666) :
    extractMatches sha256 (sentTree (partialMerkleTree sha256 vTxid vMatch)) =
      (treeMerkleRoot sha256 vTxid,
        nodeMatches vTxid vMatch (treeHeight vTxid.length) 0) := by
  rw [partialMerkleTree_eq]
  refine extractMatches_eq hne hlen (toNat_count hlen) rfl ?_ rfl rfl
  rw [sentTree, length_append, length_replicate]
  generalize (nodeBits vTxid vMatch (treeHeight vTxid.length) 0).length = k
  omega

/-! ## The matched transactions -/

def matchedIds (vTxid : List Uint256) (vMatch : List Bool) : List Uint256 :=
  ((vTxid.zip vMatch).filter Prod.snd).map Prod.fst

theorem matchedIds_cons (id : Uint256) (matched : Bool) (vTxid : List Uint256)
    (vMatch : List Bool) :
    matchedIds (id :: vTxid) (matched :: vMatch) =
      if matched then id :: matchedIds vTxid vMatch else matchedIds vTxid vMatch := by
  cases matched <;> rfl

theorem filterMap_range_eq (h : vMatch.length = vTxid.length) :
    ((List.range vTxid.length).filterMap fun p =>
      if vMatch.getD p false then some (vTxid.getD p 0) else none) = matchedIds vTxid vMatch := by
  induction vTxid generalizing vMatch with
  | nil => rfl
  | cons id vTxid ih =>
    cases vMatch with
    | nil => cases h
    | cons matched vMatch =>
      rw [length_cons, range_succ_eq_map, filterMap_cons, filterMap_map, matchedIds_cons]
      simp only [Function.comp_def, getD_cons_zero, getD_cons_succ, Nat.succ_eq_add_one,
        ih (Nat.succ.inj h)]
      cases matched <;> rfl

theorem nodeMatches_top (h : vMatch.length = vTxid.length) (hlen : vTxid.length ≤ 16666) :
    nodeMatches vTxid vMatch (treeHeight vTxid.length) 0 = matchedIds vTxid vMatch := by
  have hle : vTxid.length ≤ 2 ^ treeHeight vTxid.length := by
    have htop := Nat.not_lt.mpr (treeHeight_spec hlen).1
    rw [lt_calcTreeWidth_iff, Nat.one_mul] at htop
    exact Nat.le_of_not_lt htop
  obtain ⟨more, hmore⟩ := Nat.exists_eq_add_of_le hle
  rw [nodeMatches, Nat.zero_mul, hmore, ← range'_append_1, filterMap_append,
    ← range_eq_range', ← filterMap_range_eq h]
  have houtside : (List.range' (0 + vTxid.length) more).filterMap (fun p =>
      if decide (p < vTxid.length) && vMatch.getD p false then some (vTxid.getD p 0)
      else none) = [] := by
    rw [filterMap_eq_nil_iff]
    intro p hp
    have hge := (mem_range'_1.mp hp).1
    rw [decide_eq_false (by omega), Bool.false_and]
    rfl
  rw [houtside, append_nil]
  refine filterMap_congr fun p hp => ?_
  rw [decide_eq_true (mem_range.mp hp), Bool.true_and]

/-! ## Any tree -/

section

variable (sha256) (t : CPartialMerkleTree)

/-- The position that `takeHash` reads. -/
def takenHash (s : Traversal) : List Nat :=
  if s.nHashUsed < t.vHash.length then [s.nHashUsed] else []

/-- The positions of the stored hashes that the reader of a node reads, one after the other. -/
def hashReads : Nat → Nat → Traversal → List Nat
  | 0, _, s => if t.vBits[s.nBitsUsed]?.isSome then takenHash t s else []
  | height + 1, pos, s =>
    match t.vBits[s.nBitsUsed]? with
    | none => []
    | some false => takenHash t s
    | some true =>
      let s := { s with nBitsUsed := s.nBitsUsed + 1 }
      hashReads height (pos * 2) s ++
        if pos * 2 + 1 < calcTreeWidth t.nTransactions.toNat height then
          hashReads height (pos * 2 + 1) (traverseAndExtract sha256 t height (pos * 2) s).2
        else []

theorem takeHash_reads (matched : Bool) (h : s.nHashUsed ≤ t.vHash.length) :
    ∃ k, (takeHash t matched s).2.nHashUsed = s.nHashUsed + k ∧ s.nHashUsed + k ≤ t.vHash.length ∧
      takenHash t s = List.range' s.nHashUsed k := by
  by_cases hlt : s.nHashUsed < t.vHash.length
  · rw [takeHash, takenHash, getElem?_eq_getElem hlt, if_pos hlt]
    exact ⟨1, rfl, hlt, rfl⟩
  · rw [takeHash, takenHash, getElem?_eq_none (Nat.le_of_not_lt hlt), if_neg hlt]
    exact ⟨0, rfl, h, rfl⟩

/-- **The reader of a node reads the stored hashes in order.** -/
theorem hashReads_eq (h : s.nHashUsed ≤ t.vHash.length) :
    ∃ k, (traverseAndExtract sha256 t height pos s).2.nHashUsed = s.nHashUsed + k ∧
      s.nHashUsed + k ≤ t.vHash.length ∧
      hashReads sha256 t height pos s = List.range' s.nHashUsed k := by
  induction height generalizing pos s with
  | zero =>
    rw [traverseAndExtract, hashReads]
    cases t.vBits[s.nBitsUsed]? with
    | none => exact ⟨0, rfl, h, rfl⟩
    | some matched => exact takeHash_reads t matched h
  | succ height ih =>
    rw [traverseAndExtract, hashReads]
    cases t.vBits[s.nBitsUsed]? with
    | none => exact ⟨0, rfl, h, rfl⟩
    | some matched =>
      cases matched with
      | false => exact takeHash_reads t false h
      | true =>
        obtain ⟨k, hleft, hk, hreads⟩ :=
          @ih (pos * 2) { s with nBitsUsed := s.nBitsUsed + 1 } h
        dsimp only at hleft hk hreads ⊢
        split_ifs with hright
        · obtain ⟨k', hright, hk', hreads'⟩ := @ih (pos * 2 + 1) _ (hleft.trans_le hk)
          rw [hleft] at hright hk' hreads'
          rw [hreads, hreads', range'_append_1]
          exact ⟨k + k', hright.trans (Nat.add_assoc ..), by omega, rfl⟩
        · exact ⟨k, hleft, hk, by rw [hreads, append_nil]⟩

end

/-- **The round trip of a partial tree**, as it is and as it is sent; and whatever tree is read, the
    loop for its height ends, and no stored hash is read twice. -/
theorem partial_tree_round_trip (sha256 : List UInt8 → Uint256) :
    (∀ (vTxid : List Uint256) (vMatch : List Bool), 1 ≤ vTxid.length → vTxid.length ≤ 16666 →
      vMatch.length = vTxid.length →
      ∃ root sent, merkleRoot (hashPair sha256) vTxid = some root ∧
        extractMatches sha256 (partialMerkleTree sha256 vTxid vMatch) =
          (root, matchedIds vTxid vMatch) ∧
        CPartialMerkleTree.codec.get
          (CPartialMerkleTree.codec.put (partialMerkleTree sha256 vTxid vMatch)) =
            some (sent, []) ∧
        extractMatches sha256 sent = (root, matchedIds vTxid vMatch)) ∧
    ∀ t : CPartialMerkleTree,
      (t.nTransactions.toNat ≤ 16666 → ∀ fuel, 15 ≤ fuel →
        heightLoop t.nTransactions.toNat fuel 0 = treeHeight t.nTransactions.toNat) ∧
      (hashReads sha256 t (treeHeight t.nTransactions.toNat) 0 ⟨0, 0, [], t.fBad⟩).Nodup ∧
      ∀ i ∈ hashReads sha256 t (treeHeight t.nTransactions.toNat) 0 ⟨0, 0, [], t.fBad⟩,
        i < t.vHash.length := by
  refine ⟨fun vTxid vMatch hpos hlen hmatch => ?_, fun t => ⟨fun hle fuel => heightLoop_eq hle, ?_⟩⟩
  · have hne : vTxid ≠ [] := ne_nil_of_length_pos hpos
    rw [← nodeMatches_top hmatch hlen]
    refine ⟨_, _, treeMerkleRoot_eq sha256 hne, ?_, partialMerkleTree_sent hne hlen,
      extractMatches_sent hne hlen⟩
    rw [partialMerkleTree_eq]
    exact extractMatches_eq hne hlen (toNat_count hlen) (append_nil _).symm rfl rfl rfl
  · obtain ⟨k, -, hk, hreads⟩ := @hashReads_eq sha256 (treeHeight t.nTransactions.toNat) 0
      ⟨0, 0, [], t.fBad⟩ t (Nat.zero_le _)
    rw [hreads]
    exact ⟨nodup_range', fun i hi => Nat.lt_of_lt_of_le (mem_range'_1.mp hi).2 hk⟩

theorem partial_tree_round_trip_two :
    ∃ root, merkleRoot (hashPair sampleSha256) [1, 2] = some root ∧
      extractMatches sampleSha256 (partialMerkleTree sampleSha256 [1, 2] [false, true]) =
        (root, [2]) :=
  have ⟨root, _, hroot, hread, _⟩ :=
    (partial_tree_round_trip sampleSha256).1 [1, 2] [false, true] (by decide) (by decide) rfl
  ⟨root, hroot, hread⟩

/-! ## The Merkle block -/

section

variable {Filter : Type} (isRelevantAndUpdate : Filter → CTransaction → Uint256 → Bool × Filter)
variable (sha256)

theorem matchLoop_spec (i : Nat) (filter : Filter) (vtx : List CTransaction) :
    (matchLoop isRelevantAndUpdate sha256 i filter vtx).1.length = vtx.length ∧
      (matchLoop isRelevantAndUpdate sha256 i filter vtx).2.1.map Prod.snd =
        matchedIds (vtx.map (txid sha256))
          (matchLoop isRelevantAndUpdate sha256 i filter vtx).1 := by
  induction vtx generalizing i filter with
  | nil => exact ⟨rfl, rfl⟩
  | cons tx vtx ih =>
    obtain ⟨hlen, hmatched⟩ := ih (i + 1) (isRelevantAndUpdate filter tx (txid sha256 tx)).2
    refine ⟨congrArg Nat.succ hlen, ?_⟩
    simp only [matchLoop, map_cons]
    rw [matchedIds_cons, ← hmatched]
    cases (isRelevantAndUpdate filter tx (txid sha256 tx)).1 <;> rfl

theorem merkleBlock_eq (filter : Filter) (hne : block.vtx ≠ []) :
    merkleBlock isRelevantAndUpdate sha256 filter block =
      some
        ({ header := block.toCBlockHeader
           txn := partialMerkleTree sha256 (block.vtx.map (txid sha256))
             (matchLoop isRelevantAndUpdate sha256 0 filter block.vtx).1
           vMatchedTxn := (matchLoop isRelevantAndUpdate sha256 0 filter block.vtx).2.1 },
          (matchLoop isRelevantAndUpdate sha256 0 filter block.vtx).2.2) := by
  rw [merkleBlock, if_neg (by simpa using hne)]

/-- **A Merkle block is read back**: a reader of its tree gets the root of the tree over all ids and
    the ids of the transactions that the filter matched. -/
theorem merkleBlock_read (filter : Filter) (hne : block.vtx ≠ [])
    (hlen : block.vtx.length ≤ 16666) :
    ∃ mb filter', merkleBlock isRelevantAndUpdate sha256 filter block = some (mb, filter') ∧
      mb.header = block.toCBlockHeader ∧
      CPartialMerkleTree.codec.get (CPartialMerkleTree.codec.put mb.txn) =
        some (sentTree mb.txn, []) ∧
      extractMatches sha256 (sentTree mb.txn) =
        (treeMerkleRoot sha256 (block.vtx.map (txid sha256)), mb.vMatchedTxn.map Prod.snd) := by
  have hids : block.vtx.map (txid sha256) ≠ [] := by simpa using hne
  have hidsLen : (block.vtx.map (txid sha256)).length ≤ 16666 := by rwa [length_map]
  obtain ⟨hmatch, hmatched⟩ := matchLoop_spec sha256 isRelevantAndUpdate 0 filter block.vtx
  refine ⟨_, _, merkleBlock_eq sha256 isRelevantAndUpdate filter hne, rfl,
    partialMerkleTree_sent hids hidsLen, ?_⟩
  rw [extractMatches_sent hids hidsLen, nodeMatches_top (by rw [length_map, hmatch]) hidsLen,
    hmatched]

/-! ## The root of the header -/

def ProvesRoot (filter : Filter) (block : CBlock) : Prop :=
  ∃ mb filter' t, merkleBlock isRelevantAndUpdate sha256 filter block = some (mb, filter') ∧
    CPartialMerkleTree.codec.get (CPartialMerkleTree.codec.put mb.txn) = some (t, []) ∧
    (extractMatches sha256 t).1 = mb.header.hashMerkleRoot

theorem provesRoot_iff (filter : Filter) (hne : block.vtx ≠ []) (hlen : block.vtx.length ≤ 16666) :
    ProvesRoot sha256 isRelevantAndUpdate filter block ↔
      treeMerkleRoot sha256 (block.vtx.map (txid sha256)) = block.hashMerkleRoot := by
  obtain ⟨mb, filter', hblock, hheader, hsent, hread⟩ :=
    merkleBlock_read sha256 isRelevantAndUpdate filter hne hlen
  constructor
  · rintro ⟨mb', filter'', t, hblock', hsent', hroot⟩
    rw [hblock] at hblock'
    cases hblock'
    rw [hsent] at hsent'
    cases hsent'
    rw [hread, hheader] at hroot
    exact hroot
  · intro hroot
    exact ⟨mb, filter', _, hblock, hsent, by rw [hread, hheader]; exact hroot⟩

end

/-- The root is built as a tree, or is a chain of at most two ids. -/
def SameAsTree (algoCoin : Bool) (block : CBlock) : Prop :=
  rootForm algoCoin block.nVersion = .tree ∨
    rootForm algoCoin block.nVersion = .chain ∧ block.vtx.length ≤ 2

instance (algoCoin : Bool) (block : CBlock) : Decidable (SameAsTree algoCoin block) :=
  inferInstanceAs (Decidable (_ ∨ _))

/-- SHA-256 has no collision among the strings that are hashed for the root of the block and for the
    tree over its ids, no id is the hash of one of their pairs, and the transactions have inputs. -/
structure RootsApart (sha256 : List UInt8 → Uint256) (form : RootForm)
    (vtx : List CTransaction) : Prop where
  strings : StringsApart sha256
    (digested sha256 (rootStrings sha256 form vtx ++ rootStrings sha256 .tree vtx))
  leaves : ∀ tx ∈ vtx, ∀ p ∈ rootPairs sha256 form vtx ++ rootPairs sha256 .tree vtx,
    txid sha256 tx ≠ hashPair sha256 p.1 p.2
  inputs : ∀ tx ∈ vtx, tx.vin ≠ []

theorem chainRoot_eq_merkleRoot {leaves : List Uint256} (h : leaves.length ≤ 2) :
    chainRoot (hashPair sha256) leaves = merkleRoot (hashPair sha256) leaves := by
  rcases leaves with _ | ⟨a, _ | ⟨b, _ | ⟨c, leaves⟩⟩⟩
  · rw [merkleRoot, chainRoot]
  · rw [merkleRoot]
    rfl
  · rw [merkleRoot, parents, levelPairs, levelPairs, map_cons, map_nil, merkleRoot]
    rfl
  · simp only [length_cons] at h
    omega

theorem buildMerkleTree_of_sameAsTree {algoCoin : Bool} (hne : block.vtx ≠ [])
    (h : SameAsTree algoCoin block) :
    buildMerkleTree sha256 algoCoin block =
      some (treeMerkleRoot sha256 (block.vtx.map (txid sha256))) := by
  rcases h with htree | ⟨hchain, hlen⟩
  · rw [buildMerkleTree, htree]
  · rw [buildMerkleTree, hchain, ← treeMerkleRoot_eq sha256 (by simpa using hne),
      ← chainRoot_eq_merkleRoot (by rwa [length_map])]
    rfl

section

variable {form : RootForm} {vtx : List CTransaction} (h : RootsApart sha256 form vtx)

include h

theorem RootsApart.pairs :
    PairsApart (hashPair sha256)
      (rootPairs sha256 form vtx ++ rootPairs sha256 .tree vtx) := by
  refine hashPair_apart h.strings fun bytes hbytes => ?_
  simp only [rootStrings, map_append, mem_append] at hbytes ⊢
  tauto

theorem RootsApart.sha256_ne_txid {tx : CTransaction} (htx : tx ∈ vtx) :
    sha256 (txBytes tx) ≠ txid sha256 tx := by
  have hmem : txBytes tx ∈ rootStrings sha256 form vtx ++ rootStrings sha256 .tree vtx :=
    mem_append_left _ (mem_append_left _ (mem_map_of_mem htx))
  exact sha256_ne_sha256d h.strings hmem hmem (txBytes_length (h.inputs tx htx))

/-- The last hash of a chain is an id, and the second one at the top of a tree of more than two
    leaves is the hash of a pair. -/
theorem RootsApart.chain_ne_tree {leaf : Uint256} {leaves : List Uint256}
    (hchain : chainPairs (hashPair sha256) leaf leaves ⊆ rootPairs sha256 form vtx)
    (hne : leaves ≠ []) (hids : ∀ id ∈ leaves, ∃ tx ∈ vtx, id = txid sha256 tx)
    (hlen : 2 < vtx.length) :
    some (leaves.foldl (hashPair sha256) leaf) ≠
      merkleRoot (hashPair sha256) (vtx.map (txid sha256)) := by
  intro heq
  obtain ⟨p, hp, hroot, q, hq, hpq⟩ := merkleRoot_top (by rwa [length_map]) heq.symm
  obtain ⟨init, last, rfl⟩ := (eq_nil_or_concat' leaves).resolve_left hne
  obtain ⟨tx, htx, rfl⟩ := hids last (mem_append_right _ mem_cons_self)
  rw [chainPairs_concat] at hchain
  rw [foldl_concat] at hroot
  have hlast := hchain (mem_append_right _ mem_cons_self)
  have hpair := h.pairs _ (mem_append_left _ hlast) p (mem_append_right _ hp) hroot
  exact h.leaves tx htx q (mem_append_right _ hq) ((congrArg Prod.snd hpair).trans hpq)

end

theorem buildMerkleTree_ne {algoCoin : Bool} (hne : block.vtx ≠ [])
    (h : RootsApart sha256 (rootForm algoCoin block.nVersion) block.vtx)
    (hform : ¬ SameAsTree algoCoin block) :
    buildMerkleTree sha256 algoCoin block ≠
      some (treeMerkleRoot sha256 (block.vtx.map (txid sha256))) := by
  intro hroot
  rw [SameAsTree, not_or] at hform
  rw [buildMerkleTree_eq hne, ← treeMerkleRoot_eq sha256 (by simpa using hne)] at hroot
  obtain ⟨coinbase, rest, hvtx⟩ := exists_cons_of_ne_nil hne
  rw [hvtx] at h hroot
  have hids : ∀ id ∈ rest.map (txid sha256), ∃ tx ∈ coinbase :: rest, id = txid sha256 tx := by
    intro id hid
    obtain ⟨tx, htx, rfl⟩ := mem_map.mp hid
    exact ⟨tx, mem_cons_of_mem _ htx, rfl⟩
  cases hcases : rootForm algoCoin block.nVersion with
  | tree => exact hform.1 hcases
  | chain =>
    have hlen : 2 < (coinbase :: rest).length := by
      rw [← hvtx]
      exact Nat.lt_of_not_le fun hle => hform.2 ⟨hcases, hle⟩
    rw [hcases] at h hroot
    refine h.chain_ne_tree (List.Subset.refl _) ?_ hids hlen hroot
    rintro hnil
    rw [map_eq_nil_iff.mp hnil] at hlen
    exact absurd hlen (by simp)
  | groestl =>
    rw [hcases] at h hroot
    have hid := h.sha256_ne_txid (mem_cons_self (a := coinbase) (l := rest))
    rcases rest with _ | ⟨tx, _ | ⟨tx', rest⟩⟩
    · rw [map_cons, map_nil, merkleRoot] at hroot
      exact hid (Option.some.inj hroot)
    · rw [← chainRoot_eq_merkleRoot (by simp)] at hroot
      have hpair := h.pairs (sha256 (txBytes coinbase), txid sha256 tx)
        (mem_append_left _ mem_cons_self) (txid sha256 coinbase, txid sha256 tx)
        (mem_append_right _ (levelPairs_subset (l := [txid sha256 coinbase, txid sha256 tx])
          (by simp) mem_cons_self))
        (Option.some.inj hroot)
      exact hid (congrArg Prod.fst hpair)
    · exact h.chain_ne_tree (List.Subset.refl _) (by simp) hids (by simp) hroot

/-- **What a Merkle block proves.** The reader of the Merkle block of a block with the root that its
    algorithm gives gets the root of its header if that root is built as a tree or is a chain of at
    most two ids; and, unless there are collisions, only then. -/
theorem merkle_block_root_iff {Filter : Type}
    (isRelevantAndUpdate : Filter → CTransaction → Uint256 → Bool × Filter)
    (sha256 : List UInt8 → Uint256) (algoCoin : Bool) (filter : Filter) (block : CBlock)
    (hpos : 1 ≤ block.vtx.length) (hlen : block.vtx.length ≤ 16666)
    (hroot : buildMerkleTree sha256 algoCoin block = some block.hashMerkleRoot) :
    (SameAsTree algoCoin block → ProvesRoot sha256 isRelevantAndUpdate filter block) ∧
      (RootsApart sha256 (rootForm algoCoin block.nVersion) block.vtx →
        (ProvesRoot sha256 isRelevantAndUpdate filter block ↔ SameAsTree algoCoin block)) := by
  have hne : block.vtx ≠ [] := ne_nil_of_length_pos hpos
  rw [provesRoot_iff sha256 isRelevantAndUpdate filter hne hlen]
  have hsuff (h : SameAsTree algoCoin block) :
      treeMerkleRoot sha256 (block.vtx.map (txid sha256)) = block.hashMerkleRoot :=
    Option.some.inj ((buildMerkleTree_of_sameAsTree hne h).symm.trans hroot)
  refine ⟨hsuff, fun hapart => ⟨fun htree => ?_, hsuff⟩⟩
  by_contra hform
  exact buildMerkleTree_ne hne hapart hform (hroot.trans (congrArg some htree.symm))

theorem sampleBlock_rootsApart : RootsApart sampleSha256 .chain (sampleBlock []).vtx where
  strings := by
    unfold StringsApart
    decide +kernel
  leaves := by
    exact leaves_of_all (by decide +kernel)
  inputs := by decide

def matchAll (filter : Unit) (_ : CTransaction) (_ : Uint256) : Bool × Unit := (true, filter)

theorem two_chained_ids_proved :
    SameAsTree true (sampleBlock []) ∧
      ProvesRoot sampleSha256 matchAll () (sampleBlock []) ∧
      (ProvesRoot sampleSha256 matchAll () (sampleBlock []) ↔ SameAsTree true (sampleBlock [])) :=
  have h := merkle_block_root_iff matchAll sampleSha256 true () (sampleBlock []) (by decide)
    (by decide) rfl
  ⟨by decide, h.1 (by decide), h.2 sampleBlock_rootsApart⟩

/-- A coinbase and two payments, mined with `ALGO_SHA256D`. -/
def chainedBlock : CBlock :=
  let vtx := [sampleTx ⟨0, 0xFFFFFFFF⟩ [], sampleTx ⟨1, 0⟩ [], sampleTx ⟨2, 0⟩ []]
  { sampleBlock [] with
    hashMerkleRoot :=
      (sha256dComputeMerkleRoot sampleSha256 (vtx.map (txid sampleSha256))).getD 0
    vtx := vtx }

theorem three_chained_ids_not_proved :
    shcCheckBlock checkEnvSample chainedBlock = true ∧ chainedBlock.vtx.length = 3 ∧
      buildMerkleTree sampleSha256 true chainedBlock = some chainedBlock.hashMerkleRoot ∧
      ¬ ProvesRoot sampleSha256 matchAll () chainedBlock := by
  refine ⟨by decide +kernel, rfl, rfl, ?_⟩
  rw [provesRoot_iff sampleSha256 matchAll () (by decide) (by decide)]
  decide +kernel

end ShareCoin.Wire
