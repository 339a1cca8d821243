import ShareCoin.Server.Matrix

/-!
# What accepting a validate matrix means

The functions of the matrix, each described once: where the walk to an ancestor ends, that taking a
hash off a cell undoes adding it, and everything an accepted matrix has passed (`Accepted`).
-/

namespace ShareCoin.Server

open List

/-! ## Ancestors -/

theorem walkBack_nHeight (height : Nat) (hash : Uint256) (ancestors : List Uint256) :
    (walkBack height hash ancestors).nHeight = min height ancestors.length := by
  induction ancestors generalizing hash with
  | nil => simp [walkBack, CBlockIndex.nHeight]
  | cons p ps ih =>
    rw [walkBack]
    split_ifs with h
    · rw [ih]
      rw [length_cons] at h ⊢
      omega
    · rw [length_cons] at h ⊢
      simp only [CBlockIndex.nHeight, length_cons]
      omega

theorem walkBack_height {tip : CBlockIndex} {height : Nat} (h : height ≤ tip.nHeight) :
    (walkBack height tip.hash tip.ancestors).nHeight = height :=
  (walkBack_nHeight _ _ _).trans (Nat.min_eq_left h)

theorem walkBack_child {tip : CBlockIndex} {height : Nat} (h : height ≤ tip.nHeight)
    (hash : Uint256) :
    walkBack height hash (tip.hash :: tip.ancestors)
      = walkBack height tip.hash tip.ancestors := by
  rw [walkBack, if_pos]
  exact Nat.lt_succ_of_le h

theorem walkBack_above {p : CBlockIndex} {height : Nat} (h : height ≤ p.nHeight)
    (hashes : List Uint256) :
    walkBack height (hashes.foldl CBlockIndex.child p).hash
      (hashes.foldl CBlockIndex.child p).ancestors = walkBack height p.hash p.ancestors := by
  induction hashes generalizing p with
  | nil => rfl
  | cons hash hashes ih =>
    have hchild : height ≤ (p.child hash).nHeight := Nat.le_succ_of_le h
    rw [foldl_cons, ih hchild]
    exact walkBack_child h hash

/-! ## Cells -/

theorem CTxMatrix.subCell_addCell (m : CTxMatrix) (cell : Fin 9) (val : UInt32) :
    (m.addCell cell val).subCell cell val = m := by
  unfold CTxMatrix.addCell CTxMatrix.subCell
  simp

theorem CTxMatrix.retract_append (m : CTxMatrix) (height : Nat) (hash : Uint256) :
    (m.append height hash).retract height hash
      = { m with nHeight := UInt32.ofNat height - 27 } := by
  have hlt : ¬ (m.append height hash).nHeight < UInt32.ofNat height := by
    simp [CTxMatrix.append, CTxMatrix.addCell]
  rw [CTxMatrix.retract, if_neg hlt]
  exact CTxMatrix.subCell_addCell { m with nHeight := UInt32.ofNat height - 27 } _ _

/-! ## Acceptance -/

section Accept

variable {env : MatrixEnv} {coin : CoinIface} {w w' : ValidateState} {tx : CTransaction}
  {pindex : Option CBlockIndex}

/-- Everything that an accepted matrix has passed, and what it leaves behind. -/
structure Accepted (env : MatrixEnv) (coin : CoinIface) (w : ValidateState) (tx : CTransaction)
    (pindex : Option CBlockIndex) (w' : ValidateState) : Prop where
  mode : verifyMatrixTx env tx = some opExtValidate
  type_eq : tx.matrix.nType = mValidate
  newer : w.matrixValidate.nHeight < tx.matrix.nHeight
  script : ∃ script, getExtMatrixOutput tx = some script ∧
    verifyValidateMatrixScript env coin w 0 script = true
  verified : verifyValidateMatrix w tx.matrix pindex = true
  matrix_eq : w'.matrixValidate = tx.matrix
  txs_eq : w'.mapValidateTx = w.mapValidateTx ++ [env.getHash tx]
  notary_eq : ∃ v, (v = w.mapValidateNotary (env.getHash tx) ∨ ∃ pubkey, v = some pubkey) ∧
    w'.mapValidateNotary = Function.update w.mapValidateNotary (env.getHash tx) v

theorem insertValidateNotary_spec (h : insertValidateNotary env w tx = some w') :
    w'.matrixValidate = w.matrixValidate ∧ w'.mapValidateTx = w.mapValidateTx ∧
      ∃ v, (v = w.mapValidateNotary (env.getHash tx) ∨ ∃ pubkey, v = some pubkey) ∧
        w'.mapValidateNotary = Function.update w.mapValidateNotary (env.getHash tx) v := by
  obtain ⟨key, -, h⟩ := Option.bind_eq_some_iff.mp h
  cases key with
  | none =>
    cases h
    exact ⟨rfl, rfl, _, .inl rfl, (Function.update_eq_self _ _).symm⟩
  | some pubkey =>
    cases h
    exact ⟨rfl, rfl, _, .inr ⟨pubkey, rfl⟩, rfl⟩

theorem blockAcceptValidateMatrix_cases {r : Option Bool}
    (h : blockAcceptValidateMatrix env coin w tx pindex = some (r, w')) :
    r ≠ some true ∧ w' = w ∨ r = some true ∧ Accepted env coin w tx pindex w' := by
  unfold blockAcceptValidateMatrix at h
  split at h
  · cases h
    exact .inl ⟨by simp, rfl⟩
  split at h
  · cases h
    exact .inl ⟨by simp, rfl⟩
  rename_i hmode hnew
  have hnewer : tx.matrix.nType = mValidate ∧ w.matrixValidate.nHeight < tx.matrix.nHeight := by
    simpa using hnew
  cases hext : getExtMatrixOutput tx with
  | none =>
    rw [hext] at h
    cases h
    exact .inl ⟨by simp, rfl⟩
  | some script =>
    rw [hext] at h
    dsimp only at h
    split_ifs at h with hscript hver
    · cases h
      exact .inl ⟨by simp, rfl⟩
    · cases h
      exact .inl ⟨by simp, rfl⟩
    obtain ⟨w₁, hins, h⟩ := Option.bind_eq_some_iff.mp h
    cases h
    obtain ⟨hmat, htxs, hnot⟩ := insertValidateNotary_spec hins
    exact .inr ⟨rfl, not_not.mp hmode, hnewer.1, hnewer.2, ⟨script, hext, by simpa using hscript⟩,
      by simpa using hver, hmat, htxs, hnot⟩

/-- The root block of a matrix: the height of the matrix is its height, a multiple of 27 not above
    the parent, and the matrix is the old one with its hash added. -/
structure Rooted (w : ValidateState) (matrix : CTxMatrix) (tip : CBlockIndex) : Prop where
  period : matrix.nHeight.toNat / 27 * 27 = matrix.nHeight.toNat
  le : matrix.nHeight.toNat ≤ tip.nHeight
  eq : matrix = { w.matrixValidate with nType := mValidate }.append matrix.nHeight.toNat
    (walkBack matrix.nHeight.toNat tip.hash tip.ancestors).hash

theorem verifyValidateMatrix_iff {tip : CBlockIndex} {matrix : CTxMatrix} :
    verifyValidateMatrix w matrix (some tip) = true ↔ Rooted w matrix tip := by
  rw [verifyValidateMatrix, beq_iff_eq]
  constructor
  · intro heq
    have hheight := congrArg UInt32.toNat (congrArg CTxMatrix.nHeight heq)
    rw [CTxMatrix.append, CTxMatrix.addCell, UInt32.toNat_ofNat', walkBack_nHeight,
      Nat.mod_eq_of_lt (by omega)] at hheight
    have hmul : matrix.nHeight.toNat / 27 * 27 = matrix.nHeight.toNat := by omega
    rw [hmul] at heq hheight
    rw [walkBack_nHeight, hheight] at heq
    exact ⟨hmul, min_eq_left_iff.mp hheight, heq.symm⟩
  · intro h
    rw [h.period, walkBack_height h.le, ← h.eq]

/-! ## Generation -/

theorem generateValidateMatrix_rooted {best : Option CBlockIndex} {p : CBlockIndex}
    {tx' : CTransaction} (hp : pindex.or best = some p) (hheight : p.nHeight < 2 ^ 31)
    (h : generateValidateMatrix w best tx pindex = some tx') : Rooted w tx'.matrix p := by
  rw [generateValidateMatrix, hp, Option.bind_some] at h
  dsimp only at h
  split_ifs at h
  cases h
  have hle : (p.nHeight - 27) / 27 * 27 ≤ p.nHeight := by omega
  have hnat : (UInt32.ofNat ((p.nHeight - 27) / 27 * 27)).toNat = (p.nHeight - 27) / 27 * 27 := by
    rw [UInt32.toNat_ofNat', Nat.mod_eq_of_lt (by omega)]
  rw [walkBack_height hle]
  constructor
  all_goals dsimp only [CTxMatrix.append, CTxMatrix.addCell]
  all_goals rw [hnat]
  · omega
  · exact hle

/-- **What is generated on top of a block verifies there and above, and not where the chain has
    another block that adds something else.** -/
theorem generated_matrix_verifies (w : ValidateState) (best pindex : Option CBlockIndex)
    (tx tx' : CTransaction) (p : CBlockIndex) (hp : pindex.or best = some p)
    (hheight : p.nHeight < 2 ^ 31) (h : generateValidateMatrix w best tx pindex = some tx') :
    (∀ hashes : List Uint256,
      verifyValidateMatrix w tx'.matrix (some (hashes.foldl CBlockIndex.child p)) = true) ∧
    ∀ q : CBlockIndex,
      let height := tx'.matrix.nHeight.toNat
      let block := (walkBack height p.hash p.ancestors).hash
      let other := (walkBack height q.hash q.ancestors).hash
      let m := { w.matrixValidate with nType := mValidate }
      (m.append height other = m.append height block → other = block) → other ≠ block →
      verifyValidateMatrix w tx'.matrix (some q) = false := by
  have hroot := generateValidateMatrix_rooted hp hheight h
  constructor
  · intro hashes
    have hself := verifyValidateMatrix_iff.mpr hroot
    rw [verifyValidateMatrix, hroot.period] at hself ⊢
    rwa [walkBack_above hroot.le]
  · intro q height block other m hinj hne
    rw [Bool.eq_false_iff]
    intro htrue
    exact hne (hinj ((verifyValidateMatrix_iff.mp htrue).eq.symm.trans hroot.eq))

end Accept

/-! ## A chain to try it on -/

/-- A wallet whose matrix hashes are zero, where a transaction is known by the height of its
    matrix. -/
def matrixEnvSample : MatrixEnv where
  getHash := fun tx => BitVec.ofNat 256 (1 + tx.matrix.nHeight.toNat)
  getSerializeSize := fun _ => 100
  matrixHash := fun _ => 0
  hash160 := fun _ => 0
  solverPubKey := fun script => some (script.take 33)

/-- The burnt output of a matrix transaction. -/
def noDestination : CScript := [opReturn, 0]

/-- A coinbase of one coin, with the given matrix if there is one and its output to `dest`. -/
def matrixCoinbase (dest : CScript) (matrix : Option CTxMatrix) : CTransaction where
  nFlag := if matrix.isSome then txfMatrix + 1 else 1
  vin := [{ prevout := { hash := 0, n := 0xFFFFFFFF }, scriptSig := [], nSequence := 0 }]
  vout := [{ nValue := 100000000, scriptPubKey := [2, 3, 4] },
    { nValue := 0, scriptPubKey := [opExtValidate, 0x59, opHash160, 20]
        ++ List.replicate 20 0 ++ op2Drop :: dest }]
  nLockTime := 0
  matrix := matrix.getD CTxMatrix.null
  ext := []

def chainSample (nHeight : Nat) : CBlockIndex :=
  { hash := 0, ancestors := List.replicate nHeight 0 }

def matrixAfter (m : CTxMatrix) (height : Nat) : CTxMatrix :=
  { m with nType := mValidate }.append height 0

/-- The matrix of height 81 on a chain of 108 blocks, and another chain of that height. -/
theorem generated_matrix_of_period :
    ∃ tx, generateValidateMatrix .null (some (chainSample 108)) (matrixCoinbase [] none) none =
        some tx ∧
      verifyValidateMatrix .null tx.matrix (some ((chainSample 108).child 5)) = true ∧
      verifyValidateMatrix .null tx.matrix (some ⟨1, List.replicate 108 1⟩) = false := by
  refine ⟨_, rfl, ?_⟩
  obtain ⟨habove, hother⟩ := generated_matrix_verifies .null (some (chainSample 108)) none
    (matrixCoinbase [] none) _ (chainSample 108) rfl (by decide) rfl
  exact ⟨habove [5], hother ⟨1, List.replicate 108 1⟩ (by decide +kernel) (by decide)⟩

end ShareCoin.Server
