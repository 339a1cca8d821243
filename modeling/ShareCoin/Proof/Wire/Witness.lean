import ShareCoin.Proof.Server.VersionBits
import ShareCoin.Proof.Wire.Transaction
import ShareCoin.Proof.Wire.WitnessMerkle

/-!
# What a block that passes commits to

The commitment is the last output of its form (`LastCommitment`); the loop over the outputs finds
it, and one that the node appends is the last. The check then has three ends. Without a commitment
no transaction may have a witness. With a single nonce the hash has to be the one of the output. Any
other witness of the coinbase is refused by an expression that counts its stacks, so it passes
unless there are none (`PrintsStacks`).

The root leaves out the coinbase, so it does not change when the output and the nonce are added, and
the node's own commitment is for the nonce of zeros. It keeps a witness that the coinbase has
already.
-/

namespace ShareCoin.Wire

open Lib Server List Option

/-! ## The last commitment -/

def NoCommitment (vout : List CTxOut) : Prop := ∀ out ∈ vout, isCommitment out.scriptPubKey = false

/-- The output is a commitment and none follows. -/
def LastCommitment (vout : List CTxOut) (out : CTxOut) : Prop :=
  ∃ before after, vout = before ++ out :: after ∧ isCommitment out.scriptPubKey = true ∧
    NoCommitment after

theorem exists_lastCommitment (vout : List CTxOut) :
    NoCommitment vout ∨ ∃ out, LastCommitment vout out := by
  induction vout with
  | nil =>
    refine .inl ?_
    intro out hout
    cases hout
  | cons first vout ih =>
    rcases ih with hnone | ⟨out, before, after, rfl, hout, hafter⟩
    · cases hfirst : isCommitment first.scriptPubKey with
      | false => exact .inl (forall_mem_cons.mpr ⟨hfirst, hnone⟩)
      | true => exact .inr ⟨first, [], vout, rfl, hfirst, hnone⟩
    · exact .inr ⟨out, first :: before, after, rfl, hout, hafter⟩

theorem NoCommitment.not_last {vout : List CTxOut} (h : NoCommitment vout) (out : CTxOut) :
    ¬ LastCommitment vout out := by
  intro hlast
  obtain ⟨before, after, rfl, hout, -⟩ := hlast
  rw [h out (by simp)] at hout
  cases hout

theorem commitmentLoop_append (before after : List CTxOut) (o : Nat) (commitpos : Option Nat) :
    commitmentLoop (before ++ after) o commitpos =
      commitmentLoop after (o + before.length) (commitmentLoop before o commitpos) := by
  induction before generalizing o commitpos with
  | nil => rfl
  | cons out before ih =>
    rw [cons_append, commitmentLoop, ih, commitmentLoop, length_cons]
    congr 1
    omega

theorem commitmentLoop_none {vout : List CTxOut} (h : NoCommitment vout) (o : Nat)
    (commitpos : Option Nat) : commitmentLoop vout o commitpos = commitpos := by
  induction vout generalizing o with
  | nil => rfl
  | cons out vout ih =>
    rw [commitmentLoop, h out mem_cons_self]
    exact ih (forall_mem_cons.mp h).2 (o + 1)

theorem commitmentIndex_none {coinbase : CTransaction} (h : NoCommitment coinbase.vout) :
    getWitnessCommitmentIndex coinbase = none :=
  commitmentLoop_none h 0 none

/-- **The index is that of the last commitment.** -/
theorem commitmentIndex_last {coinbase : CTransaction} {out : CTxOut}
    (h : LastCommitment coinbase.vout out) :
    ∃ commitpos, getWitnessCommitmentIndex coinbase = some commitpos ∧
      coinbase.vout.getD commitpos ⟨0, []⟩ = out := by
  obtain ⟨before, after, hvout, hout, hafter⟩ := h
  refine ⟨before.length, ?_, ?_⟩
  · rw [getWitnessCommitmentIndex, hvout, commitmentLoop_append, commitmentLoop, if_pos hout,
      commitmentLoop_none hafter, Nat.zero_add]
  · rw [hvout]
    simp

/-! ## The check -/

def SingleNonce (vtxinwit : List Stack) (nonce : List UInt8) : Prop :=
  vtxinwit = [[nonce]] ∧ nonce.length = 32

/-- The witness has stacks left after the transaction was written as text. -/
def PrintsStacks (coinbase : CTransaction) : Prop :=
  if witnessIsNull coinbase.vtxinwit then
    coinbase.vtxinwit ≠ [] ∧ coinbase.vin.length ≤ coinbase.vtxinwit.length
  else coinbase.vin ≠ []

theorem printedWitnessSize_iff (coinbase : CTransaction) :
    (printedWitnessSize coinbase).map (· != 0) = some true ↔ PrintsStacks coinbase := by
  unfold printedWitnessSize PrintsStacks
  cases hnull : witnessIsNull coinbase.vtxinwit with
  | true =>
    simp only [if_true]
    by_cases hshort : coinbase.vtxinwit.length ≠ 0 ∧
        coinbase.vtxinwit.length < coinbase.vin.length
    · rw [if_pos hshort]
      refine iff_of_false (by simp) ?_
      intro h
      omega
    · rw [if_neg hshort, map_some, some.injEq, bne_iff_ne, ne_eq, length_eq_zero_iff]
      refine ⟨fun h => ⟨h, ?_⟩, fun h => h.1⟩
      have := mt length_eq_zero_iff.mp h
      omega
  | false => simp [resize_length]

variable {root : Uint256}

section

variable (sha256 : List UInt8 → Uint256)

def Committed (block : CBlock) : Prop :=
  ∃ coinbase vtx out nonce root, block.vtx = coinbase :: vtx ∧
    LastCommitment coinbase.vout out ∧ SingleNonce coinbase.vtxinwit nonce ∧
    blockWitnessMerkleRoot sha256 block = some root ∧
    (out.scriptPubKey.drop 6).take 32 = rawBytes (commitmentHash sha256 root nonce)

def Uncommitted (block : CBlock) : Prop :=
  (∃ coinbase vtx, block.vtx = coinbase :: vtx ∧ NoCommitment coinbase.vout) ∧
    ∀ tx ∈ block.vtx, witnessIsNull tx.vtxinwit = true

def Unchecked (block : CBlock) : Prop :=
  ∃ coinbase vtx out, block.vtx = coinbase :: vtx ∧ LastCommitment coinbase.vout out ∧
    (∀ nonce, ¬ SingleNonce coinbase.vtxinwit nonce) ∧ PrintsStacks coinbase

variable {sha256} {ι : Type} {enabled : ι → Bool} {pindexPrev : ι} {block : CBlock}
  {coinbase : CTransaction} {vtx : List CTransaction} {out : CTxOut}

section

variable (hactive : enabled pindexPrev = true) (hvtx : block.vtx = coinbase :: vtx)
include hactive hvtx

theorem checkBlockWitness_none (hnone : NoCommitment coinbase.vout) :
    coreCheckBlockWitness sha256 enabled (some pindexPrev) block = some (hasNoWitness block) := by
  simp only [coreCheckBlockWitness, hactive, if_true, hvtx, commitmentIndex_none hnone]

theorem checkBlockWitness_nonce (hlast : LastCommitment coinbase.vout out) {nonce : List UInt8}
    (hnonce : SingleNonce coinbase.vtxinwit nonce)
    (hroot : blockWitnessMerkleRoot sha256 block = some root) :
    coreCheckBlockWitness sha256 enabled (some pindexPrev) block = some true ↔
      (out.scriptPubKey.drop 6).take 32 = rawBytes (commitmentHash sha256 root nonce) := by
  obtain ⟨commitpos, hpos, hout⟩ := commitmentIndex_last hlast
  obtain ⟨hwit, hlen⟩ := hnonce
  simp only [coreCheckBlockWitness, hactive, if_true, hvtx, hpos, hwit, hlen, hroot, hout,
    ne_eq, not_true_eq_false, if_false, map_some, some.injEq, beq_iff_eq]
  exact eq_comm

theorem checkBlockWitness_malformed (hlast : LastCommitment coinbase.vout out)
    (hnonce : ∀ nonce, ¬ SingleNonce coinbase.vtxinwit nonce) :
    coreCheckBlockWitness sha256 enabled (some pindexPrev) block = some true ↔
      PrintsStacks coinbase := by
  obtain ⟨commitpos, hpos, -⟩ := commitmentIndex_last hlast
  rw [← printedWitnessSize_iff]
  simp only [coreCheckBlockWitness, hactive, if_true, hvtx, hpos]
  split
  · rename_i nonce hwit
    rw [if_pos fun hlen => hnonce nonce ⟨hwit, hlen⟩]
  · rfl

end

theorem exists_witnessRoot (sha256 : List UInt8 → Uint256) (hvtx : block.vtx = coinbase :: vtx) :
    ∃ root, blockWitnessMerkleRoot sha256 block = some root := by
  rw [blockWitnessMerkleRoot, witnessLeaves, hvtx]
  exact ⟨_, rfl⟩

/-- **A block that passes has a commitment that holds, or needs none, unless its coinbase has a
    witness of another form.** -/
theorem checkBlockWitness_sound_iff (hactive : enabled pindexPrev = true) (block : CBlock) :
    (coreCheckBlockWitness sha256 enabled (some pindexPrev) block = some true →
      Committed sha256 block ∨ Uncommitted block) ↔ ¬ Unchecked block := by
  cases hvtx : block.vtx with
  | nil =>
    refine iff_of_true ?_ ?_
    · intro hcheck
      simp [coreCheckBlockWitness, hactive, hvtx] at hcheck
    · rintro ⟨coinbase, vtx, out, hcons, -⟩
      rw [hvtx] at hcons
      cases hcons
  | cons coinbase vtx =>
    rcases exists_lastCommitment coinbase.vout with hnone | ⟨out, hlast⟩
    · refine iff_of_true ?_ ?_
      · rw [checkBlockWitness_none hactive hvtx hnone]
        intro hcheck
        refine .inr ⟨⟨coinbase, vtx, hvtx, hnone⟩, ?_⟩
        simpa [hasNoWitness] using hcheck
      · rintro ⟨coinbase', vtx', out, hcons, hlast, -⟩
        cases hvtx.symm.trans hcons
        exact hnone.not_last out hlast
    · by_cases hnonce : ∃ nonce, SingleNonce coinbase.vtxinwit nonce
      · obtain ⟨nonce, hnonce⟩ := hnonce
        obtain ⟨root, hroot⟩ := exists_witnessRoot sha256 hvtx
        refine iff_of_true ?_ ?_
        · rw [checkBlockWitness_nonce hactive hvtx hlast hnonce hroot]
          intro hcheck
          exact .inl ⟨coinbase, vtx, out, nonce, root, hvtx, hlast, hnonce, hroot, hcheck⟩
        · rintro ⟨coinbase', vtx', out', hcons, -, hmalformed, -⟩
          cases hvtx.symm.trans hcons
          exact hmalformed nonce hnonce
      · have hmalformed := not_exists.mp hnonce
        rw [checkBlockWitness_malformed hactive hvtx hlast hmalformed]
        -- neither of the two right ends is possible here
        have hneither : ¬ (Committed sha256 block ∨ Uncommitted block) := by
          rintro (⟨coinbase', vtx', out', nonce, root, hcons, -, hsingle, -⟩ |
            ⟨⟨coinbase', vtx', hcons, hnone⟩, -⟩)
          · cases hvtx.symm.trans hcons
            exact hmalformed nonce hsingle
          · cases hvtx.symm.trans hcons
            exact hnone.not_last out hlast
        constructor
        · rintro himp ⟨coinbase', vtx', out', hcons, -, -, hprints⟩
          cases hvtx.symm.trans hcons
          exact hneither (himp hprints)
        · intro hchecked hprints
          exact absurd ⟨coinbase, vtx, out, hvtx, hlast, hmalformed, hprints⟩ hchecked

/-! ## The commitment that the node adds -/

def completedCoinbase (sha256 : List UInt8 → Uint256) (root : Uint256) (coinbase : CTransaction) :
    CTransaction :=
  { coinbase with
    vout := coinbase.vout ++ [commitmentOutput sha256 root]
    vtxinwit := if coinbase.vtxinwit = [] then [[zeroNonce]] else coinbase.vtxinwit }

theorem isCommitment_commitmentOutput (sha256 : List UInt8 → Uint256) (root : Uint256) :
    isCommitment (commitmentOutput sha256 root).scriptPubKey = true := by
  have hlen : (commitmentOutput sha256 root).scriptPubKey.length = 38 := by
    rw [commitmentOutput, length_append, rawBytes_length]
    rfl
  rw [isCommitment, hlen]
  rfl

theorem lastCommitment_completed (sha256 : List UInt8 → Uint256) (root : Uint256)
    (coinbase : CTransaction) :
    LastCommitment (completedCoinbase sha256 root coinbase).vout (commitmentOutput sha256 root) :=
  ⟨coinbase.vout, [], rfl, isCommitment_commitmentOutput sha256 root, by
    intro out hout
    cases hout⟩

theorem generateCoinbaseCommitment_eq {nTimeout : Int} (htimeout : nTimeout ≠ 0)
    (hvtx : block.vtx = coinbase :: vtx) (hnone : NoCommitment coinbase.vout)
    (hroot : blockWitnessMerkleRoot sha256 block = some root) :
    coreGenerateCoinbaseCommitment sha256 nTimeout true block =
      some { block with vtx := completedCoinbase sha256 root coinbase :: vtx } := by
  have hindex : getWitnessCommitmentIndex
      { coinbase with vout := coinbase.vout ++ [commitmentOutput sha256 root] } =
        some coinbase.vout.length := by
    rw [getWitnessCommitmentIndex, commitmentLoop_append, commitmentLoop_none hnone,
      commitmentLoop, if_pos (isCommitment_commitmentOutput sha256 root), Nat.zero_add]
    rfl
  simp only [coreGenerateCoinbaseCommitment, hvtx, commitmentIndex_none hnone, htimeout, hroot,
    ne_eq, not_false_eq_true, and_self, if_true, bind_some,
    coreUpdateUncommittedBlockStructures, hindex, isSome_some, Bool.true_and,
    List.isEmpty_iff, completedCoinbase]
  split_ifs with hempty
  · rfl
  · rfl

theorem committedHash (sha256 : List UInt8 → Uint256) (root : Uint256) :
    ((commitmentOutput sha256 root).scriptPubKey.drop 6).take 32 =
      rawBytes (commitmentHash sha256 root zeroNonce) := by
  show (rawBytes (commitmentHash sha256 root zeroNonce)).take 32 = _
  exact take_of_length_le (Nat.le_of_eq (rawBytes_length _))

theorem witnessRoot_completed (hvtx : block.vtx = coinbase :: vtx) (coinbase' : CTransaction) :
    blockWitnessMerkleRoot sha256 { block with vtx := coinbase' :: vtx } =
      blockWitnessMerkleRoot sha256 block := by
  simp only [blockWitnessMerkleRoot, witnessLeaves, hvtx]

/-- **A block that the node completed passes where its coinbase had no witness, the nonce of zeros,
    or a witness that is not checked.** -/
theorem generated_passes_iff (hactive : enabled pindexPrev = true)
    (hvtx : block.vtx = coinbase :: vtx) (hroot : blockWitnessMerkleRoot sha256 block = some root)
    (hapart : ∀ nonce, coinbase.vtxinwit = [[nonce]] →
      commitmentHash sha256 root nonce = commitmentHash sha256 root zeroNonce →
      nonce = zeroNonce) :
    coreCheckBlockWitness sha256 enabled (some pindexPrev)
        { block with vtx := completedCoinbase sha256 root coinbase :: vtx } = some true ↔
      coinbase.vtxinwit = [] ∨ coinbase.vtxinwit = [[zeroNonce]] ∨
        (∀ nonce, ¬ SingleNonce coinbase.vtxinwit nonce) ∧ PrintsStacks coinbase := by
  have hroot' := (witnessRoot_completed hvtx (completedCoinbase sha256 root coinbase)).trans hroot
  have hlast := lastCommitment_completed sha256 root coinbase
  by_cases hempty : coinbase.vtxinwit = []
  · have hnonce : SingleNonce (completedCoinbase sha256 root coinbase).vtxinwit zeroNonce :=
      ⟨if_pos hempty, rfl⟩
    refine iff_of_true ?_ (.inl hempty)
    rw [checkBlockWitness_nonce hactive rfl hlast hnonce hroot']
    exact committedHash sha256 root
  · have hkept : (completedCoinbase sha256 root coinbase).vtxinwit = coinbase.vtxinwit :=
      if_neg hempty
    by_cases hnonce : ∃ nonce, SingleNonce coinbase.vtxinwit nonce
    · obtain ⟨nonce, hwit, hlen⟩ := hnonce
      rw [checkBlockWitness_nonce hactive rfl hlast ⟨hkept.trans hwit, hlen⟩ hroot', committedHash]
      constructor
      · intro hhash
        rw [hapart nonce hwit (rawBytes_inj hhash).symm] at hwit
        exact .inr (.inl hwit)
      · rintro (hnil | hzero | ⟨hmalformed, -⟩)
        · exact absurd hnil hempty
        · rw [hwit] at hzero
          cases hzero
          rfl
        · exact absurd ⟨hwit, hlen⟩ (hmalformed nonce)
    · have hmalformed := not_exists.mp hnonce
      rw [checkBlockWitness_malformed hactive rfl hlast (by rwa [hkept])]
      have hprints : PrintsStacks (completedCoinbase sha256 root coinbase) ↔
          PrintsStacks coinbase := by
        rw [PrintsStacks, hkept]
        rfl
      rw [hprints]
      constructor
      · exact fun h => .inr (.inr ⟨hmalformed, h⟩)
      · rintro (hnil | hzero | ⟨-, h⟩)
        · exact absurd hnil hempty
        · exact absurd ⟨hzero, rfl⟩ (hmalformed zeroNonce)
        · exact h

end

/-! ## Blocks after an index with the witness active -/

section

variable {ι : Type} [DecidableEq ι]

section

variable (t : BlockTree ι) (params : CoinIface → VersionBitsParams) (queries : List (StateQuery ι))
include params

theorem isWitnessEnabled_iff (iface : CoinIface) (pindexPrev : ι) :
    isWitnessEnabled t.toBlockLinks params queries iface pindexPrev = true ↔
      stateAfter t.toBlockLinks params queries ⟨some pindexPrev, iface, .segwit⟩ =
        some .active := by
  rw [isWitnessEnabled, beq_iff_eq]

theorem isWitnessEnabled_queries (queries' : List (StateQuery ι)) (iface : CoinIface)
    (pindexPrev : ι) :
    isWitnessEnabled t.toBlockLinks params queries iface pindexPrev =
      isWitnessEnabled t.toBlockLinks params queries' iface pindexPrev := by
  obtain ⟨state, hstate, hvalue⟩ :=
    stateAfter_value t params queries ⟨some pindexPrev, iface, .segwit⟩
  obtain ⟨state', hstate', hvalue'⟩ :=
    stateAfter_value t params queries' ⟨some pindexPrev, iface, .segwit⟩
  rw [isWitnessEnabled, isWitnessEnabled, hstate, hstate', hvalue.unique hvalue']

end

/-- **The witness commitment.** After an index with the witness active, a block that passes has a
    last commitment that is the hash of its witness root and of the single nonce, or has neither a
    commitment nor a witness: this holds of every block but one with a commitment, no single nonce
    and a witness that counts. A block without a commitment that the node completes passes where the
    coinbase had no witness or the nonce of zeros, or one that is not checked. -/
theorem witness_commitment_iff (sha256 : List UInt8 → Uint256) (t : BlockTree ι)
    (params : CoinIface → VersionBitsParams) (queries : List (StateQuery ι)) (iface : CoinIface)
    (pindexPrev : ι) (block : CBlock)
    (hactive : isWitnessEnabled t.toBlockLinks params queries iface pindexPrev = true) :
    ((coreCheckBlockWitness sha256 (isWitnessEnabled t.toBlockLinks params queries iface)
        (some pindexPrev) block = some true → Committed sha256 block ∨ Uncommitted block) ↔
      ¬ Unchecked block) ∧
    ∀ queries' coinbase vtx root, block.vtx = coinbase :: vtx → NoCommitment coinbase.vout →
      blockWitnessMerkleRoot sha256 block = some root →
      (∀ nonce, coinbase.vtxinwit = [[nonce]] →
        commitmentHash sha256 root nonce = commitmentHash sha256 root zeroNonce →
        nonce = zeroNonce) →
      ∃ block', coreGenerateCoinbaseCommitment sha256
          ((params iface).vDeployments .segwit).nTimeout
          (isWitnessEnabled t.toBlockLinks params queries iface pindexPrev) block = some block' ∧
        (coreCheckBlockWitness sha256 (isWitnessEnabled t.toBlockLinks params queries' iface)
            (some pindexPrev) block' = some true ↔
          coinbase.vtxinwit = [] ∨ coinbase.vtxinwit = [[zeroNonce]] ∨
            (∀ nonce, ¬ SingleNonce coinbase.vtxinwit nonce) ∧ PrintsStacks coinbase) := by
  refine ⟨checkBlockWitness_sound_iff hactive block, ?_⟩
  intro queries' coinbase vtx root hvtx hnone hroot hapart
  have htimeout := timeout_of_active
    ((isWitnessEnabled_iff t params queries iface pindexPrev).mp hactive)
  have hactive' := (isWitnessEnabled_queries t params queries' queries iface pindexPrev).trans
    hactive
  rw [hactive]
  exact ⟨_, generateCoinbaseCommitment_eq htimeout hvtx hnone hroot,
    generated_passes_iff hactive' hvtx hroot hapart⟩

end

/-! ## Samples -/

inductive SampleIndex where
  | first
  | second
  | third
  deriving DecidableEq

instance : Fintype SampleIndex where
  elems := {.first, .second, .third}
  complete i := by cases i <;> decide

/-- The times are past the start and before the timeout of `shortPeriods 5 20`. -/
def threeIndexes : BlockTree SampleIndex where
  parent
    | .first => none
    | .second => some .first
    | .third => some .second
  height
    | .first => 0
    | .second => 1
    | .third => 2
  height_parent := by decide
  height_root := by decide
  pskip
    | .first => none
    | .second => some .first
    | .third => some .first
  bnChainWork _ := 1
  nVersion _ := 0x20000001
  nTime _ := 10
  buildSkip := by decide

def countOnes (bytes : List UInt8) : Uint256 := BitVec.ofNat 256 (bytes.count 1)

def coinbaseBlock (coinbase : CTransaction) : CBlock where
  nVersion := 0x20000001
  hashPrevBlock := 1
  hashMerkleRoot := 0
  nTime := 10
  nBits := 0
  nNonce := 0
  vtx := [coinbase]

def committingCoinbase (vtxinwit : List Stack) : CTransaction :=
  { vin := [⟨⟨0, 0xFFFFFFFF⟩, [], 0⟩]
    vout := [⟨0, commitmentHead ++ List.replicate 32 7⟩]
    vtxinwit := vtxinwit }

def plainCoinbase (vtxinwit : List Stack) : CTransaction :=
  { committingCoinbase vtxinwit with vout := [] }

def segwitChecker : VersionBitsConditionChecker :=
  ⟨.segwit, .shc, shortPeriods 5 20 .shc⟩

theorem threeIndexes_time (i : SampleIndex) :
    getMedianTimePast threeIndexes.toBlockLinks i = 10 := by
  have htimes : ∃ n, blockTimes threeIndexes.toBlockLinks 11 (some i) =
      List.replicate (n + 1) 10 := by
    cases i with
    | first => exact ⟨0, rfl⟩
    | second => exact ⟨1, rfl⟩
    | third => exact ⟨2, rfl⟩
  obtain ⟨n, hn⟩ := htimes
  have hsorted : (List.replicate (n + 1) 10).mergeSort = List.replicate (n + 1) 10 :=
    mergeSort_of_pairwise (by simp [pairwise_replicate])
  have hmiddle : (n + 1) / 2 < n + 1 := Nat.div_lt_self (Nat.succ_pos n) (by decide)
  simp [getMedianTimePast, hn, hsorted, hmiddle]

theorem threeIndexes_base (i : SampleIndex) :
    (thresholdRecursion threeIndexes.toBlockLinks segwitChecker).base (some i) = none := by
  show (if _ then _ else _) = none
  rw [threeIndexes_time]
  rfl

theorem threeIndexes_value :
    (thresholdRecursion threeIndexes.toBlockLinks segwitChecker).HasValue (some .third)
      .active := by
  have hfirst : stateNext threeIndexes.toBlockLinks segwitChecker .defined .first =
      .started := by
    decide +kernel
  have hsecond : stateNext threeIndexes.toBlockLinks segwitChecker .started .second =
      .lockedIn := by
    simp only [stateNext, threeIndexes_time]
    decide
  have hstarted : (thresholdRecursion threeIndexes.toBlockLinks segwitChecker).HasValue
      (some .first) .started :=
    hfirst ▸ .step (threeIndexes_base .first) (.base rfl)
  have hlocked : (thresholdRecursion threeIndexes.toBlockLinks segwitChecker).HasValue
      (some .second) .lockedIn :=
    hsecond ▸ .step (threeIndexes_base .second) hstarted
  exact .step (threeIndexes_base .third) hlocked

theorem threeIndexes_active :
    isWitnessEnabled threeIndexes.toBlockLinks (shortPeriods 5 20) [] .shc .third = true := by
  obtain ⟨state, hstate, hvalue⟩ := stateAfter_value threeIndexes
    (shortPeriods 5 20) [] ⟨some .third, .shc, .segwit⟩
  rw [isWitnessEnabled_iff, hstate]
  exact congrArg some (hvalue.unique threeIndexes_value)

theorem checkBlockWitness_active {ι : Type} {enabled : ι → Bool} {pindexPrev : ι}
    (sha256 : List UInt8 → Uint256) (hactive : enabled pindexPrev = true) (block : CBlock) :
    coreCheckBlockWitness sha256 enabled (some pindexPrev) block =
      coreCheckBlockWitness sha256 (fun _ => true) (some pindexPrev) block := by
  simp only [coreCheckBlockWitness, hactive]

/-- **Two elements where one nonce is due: the block passes, whatever its commitment says.** And a
    block that the node completes does not pass when its coinbase came with another nonce. -/
theorem two_elements_pass :
    isWitnessEnabled threeIndexes.toBlockLinks (shortPeriods 5 20) [] .shc .third = true ∧
    coreCheckBlockWitness countOnes
      (isWitnessEnabled threeIndexes.toBlockLinks (shortPeriods 5 20) [] .shc)
      (some .third) (coinbaseBlock (committingCoinbase [[[], []]])) = some true ∧
    ¬ Committed countOnes (coinbaseBlock (committingCoinbase [[[], []]])) ∧
    ¬ Uncommitted (coinbaseBlock (committingCoinbase [[[], []]])) ∧
    ((coreGenerateCoinbaseCommitment countOnes 20 true
      (coinbaseBlock (plainCoinbase [[1 :: List.replicate 31 0]]))).bind
        (coreCheckBlockWitness countOnes
          (isWitnessEnabled threeIndexes.toBlockLinks (shortPeriods 5 20) [] .shc)
          (some .third))) = some false := by
  have hpasses := fun block => checkBlockWitness_active countOnes threeIndexes_active block
  refine ⟨threeIndexes_active, ?_, ?_, ?_, ?_⟩
  · rw [hpasses]
    decide
  · rintro ⟨coinbase, vtx, out, nonce, root, hvtx, -, hnonce, -⟩
    cases hvtx
    cases hnonce.1
  · rintro ⟨-, hnull⟩
    exact absurd (hnull (committingCoinbase [[[], []]]) mem_cons_self) (by decide)
  · rw [funext hpasses]
    decide

/-- A coinbase without a witness is completed to a block that passes. -/
theorem completed_coinbase_passes :
    ∃ block', coreGenerateCoinbaseCommitment countOnes 20
        (isWitnessEnabled threeIndexes.toBlockLinks (shortPeriods 5 20) [] .shc .third)
        (coinbaseBlock (plainCoinbase [])) = some block' ∧
      coreCheckBlockWitness countOnes
        (isWitnessEnabled threeIndexes.toBlockLinks (shortPeriods 5 20) [] .shc)
        (some .third) block' = some true := by
  obtain ⟨block', hblock, hpasses⟩ := (witness_commitment_iff countOnes threeIndexes
    (shortPeriods 5 20) [] .shc .third (coinbaseBlock (plainCoinbase []))
    threeIndexes_active).2 [] (plainCoinbase []) [] 0 rfl (by intro out hout; cases hout)
    rfl (by intro nonce hnonce; cases hnonce)
  exact ⟨block', hblock, hpasses.mpr (.inl rfl)⟩

end ShareCoin.Wire
