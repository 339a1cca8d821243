import ShareCoin.Proof.Server.Matrix
import ShareCoin.Lib.Run

/-!
# Connecting and disconnecting validate matrices

An accepted matrix is the wallet's matrix with one block hash added, so taking the hash off again
restores the cells. The rest of `BlockRetractValidateMatrix` guesses: it expects the matrix at a
height computed from the disconnected block, puts the height 27 blocks back, leaves the type, and
erases the notary of the transaction. `Symmetric` collects what has to be true for each guess to be
right; it is exact for one block, and a run of blocks that all meet it is taken back completely.
-/

namespace ShareCoin.Server

open Lib

variable {env : MatrixEnv} {coin : CoinIface} {tip : CBlockIndex} {w w' : ValidateState}
  {b : Uint256 × CTransaction} {s s' : CBlockIndex × ValidateState}

/-! ## One block -/

structure Guessed (env : MatrixEnv) (tip : CBlockIndex) (w : ValidateState)
    (b : Uint256 × CTransaction) : Prop where
  period : (b.2.matrix.nHeight.toNat : Int) = retractHeight (tip.child b.1)
  height : w.matrixValidate.nHeight = b.2.matrix.nHeight - 27
  type : w.matrixValidate.nType = mValidate
  notary : w.mapValidateNotary (env.getHash b.2) = none

/-- What the retraction of an accepted matrix leaves, when it looks at the right height. -/
def retracted (env : MatrixEnv) (w : ValidateState) (tx : CTransaction) : ValidateState :=
  { matrixValidate :=
      { w.matrixValidate with nType := mValidate, nHeight := tx.matrix.nHeight - 27 }
    mapValidateTx := w.mapValidateTx
    mapValidateNotary := Function.update w.mapValidateNotary (env.getHash tx) none }

theorem blockRetractValidateMatrix_accepted (h : Accepted env coin w b.2 (some tip) w')
    (hp : (b.2.matrix.nHeight.toNat : Int) = retractHeight (tip.child b.1)) :
    blockRetractValidateMatrix env w' b.2 (tip.child b.1) = retracted env w b.2 := by
  obtain ⟨-, hle, hmat⟩ := verifyValidateMatrix_iff.mp h.verified
  have hlt := b.2.matrix.nHeight.toNat_lt
  obtain ⟨v, -, hnot⟩ := h.notary_eq
  -- the root block is an ancestor of the parent, so both walks end at it
  have hwalk : walkBack b.2.matrix.nHeight.toNat (tip.child b.1).hash (tip.child b.1).ancestors
      = walkBack b.2.matrix.nHeight.toNat tip.hash tip.ancestors := walkBack_child hle _
  unfold blockRetractValidateMatrix
  dsimp only
  rw [h.matrix_eq, ← hp, if_neg (by simp; omega), Int.toNat_natCast, hwalk, walkBack_height hle,
    h.txs_eq, hnot]
  have hcells : b.2.matrix.retract b.2.matrix.nHeight.toNat
      (walkBack b.2.matrix.nHeight.toNat tip.hash tip.ancestors).hash
      = { w.matrixValidate with nType := mValidate, nHeight := b.2.matrix.nHeight - 27 } := by
    conv_lhs => arg 1; rw [hmat]
    rw [CTxMatrix.retract_append]
    simp
  rw [hcells]
  simp [retracted]

theorem retracted_eq_iff :
    retracted env w b.2 = w ↔ w.matrixValidate.nHeight = b.2.matrix.nHeight - 27 ∧
      w.matrixValidate.nType = mValidate ∧ w.mapValidateNotary (env.getHash b.2) = none := by
  constructor
  · intro h
    have hm := congrArg ValidateState.matrixValidate h
    refine ⟨(congrArg CTxMatrix.nHeight hm).symm, (congrArg CTxMatrix.nType hm).symm, ?_⟩
    have hn := congrFun (congrArg ValidateState.mapValidateNotary h) (env.getHash b.2)
    simpa [retracted] using hn.symm
  · rintro ⟨hheight, htype, hnot⟩
    unfold retracted
    rw [← hheight, ← htype, ← hnot, Function.update_eq_self]

theorem retractHeight_bounds (pindex : CBlockIndex) :
    -27 ≤ retractHeight pindex ∧ retractHeight pindex ≤ pindex.nHeight := by
  unfold retractHeight
  by_cases h : 28 ≤ pindex.nHeight
  · rw [Int.tdiv_eq_ediv_of_nonneg (by omega)]
    omega
  · obtain ⟨k, hk, hk28⟩ : ∃ k : Nat, (pindex.nHeight : Int) - 1 - 27 = -k ∧ k ≤ 28 :=
      ⟨28 - pindex.nHeight, by omega, by omega⟩
    rw [hk, Int.neg_tdiv, Int.tdiv_eq_ediv_of_nonneg (by omega)]
    omega

theorem blockRetractValidateMatrix_of_ne {tx : CTransaction} {pindex : CBlockIndex}
    (h : (w.matrixValidate.nHeight.toNat : Int) ≠ retractHeight pindex % 2 ^ 32) :
    blockRetractValidateMatrix env w tx pindex = w := by
  exact if_pos h

/-- **One accepted matrix is taken back exactly when every guess about it is right.** -/
theorem blockRetractValidateMatrix_restores_iff (h : Accepted env coin w b.2 (some tip) w')
    (hheight : tip.nHeight + 1 < 2 ^ 31) :
    blockRetractValidateMatrix env w' b.2 (tip.child b.1) = w ↔ Guessed env tip w b := by
  constructor
  · intro hback
    have hp : (b.2.matrix.nHeight.toNat : Int) = retractHeight (tip.child b.1) := by
      by_contra hne
      have hmod : (w'.matrixValidate.nHeight.toNat : Int)
          ≠ retractHeight (tip.child b.1) % 2 ^ 32 := by
        rw [h.matrix_eq]
        have hle := (verifyValidateMatrix_iff.mp h.verified).le
        obtain ⟨hlow, hhigh⟩ := retractHeight_bounds (tip.child b.1)
        have hchild : (tip.child b.1).nHeight = tip.nHeight + 1 := rfl
        omega
      rw [blockRetractValidateMatrix_of_ne hmod] at hback
      have hnewer := h.newer
      rw [← h.matrix_eq, hback] at hnewer
      exact absurd hnewer (UInt32.lt_irrefl _)
    rw [blockRetractValidateMatrix_accepted h hp] at hback
    obtain ⟨hh, ht, hn⟩ := retracted_eq_iff.mp hback
    exact ⟨hp, hh, ht, hn⟩
  · intro hg
    rw [blockRetractValidateMatrix_accepted h hg.period]
    exact retracted_eq_iff.mpr ⟨hg.height, hg.type, hg.notary⟩

/-! ## A run of blocks -/

def CarriesAccepted (env : MatrixEnv) (coin : CoinIface) (s : CBlockIndex × ValidateState)
    (b : Uint256 × CTransaction) : Prop :=
  b.2.isCoinBase = true ∧ (carriesValidateMatrix b.2 = true →
    (blockAcceptValidateMatrix env coin s.2 b.2 (some s.1)).map Prod.fst = some (some true))

instance (s : CBlockIndex × ValidateState) (b : Uint256 × CTransaction) :
    Decidable (CarriesAccepted env coin s b) :=
  inferInstanceAs (Decidable (_ ∧ _))

def Symmetric (env : MatrixEnv) (s : CBlockIndex × ValidateState)
    (b : Uint256 × CTransaction) : Prop :=
  carriesValidateMatrix b.2 = true → Guessed env s.1 s.2 b

theorem verifyMatrixTx_isFlag {tx : CTransaction} {mode : UInt8}
    (h : verifyMatrixTx env tx = some mode) : tx.isFlag txfMatrix = true := by
  unfold verifyMatrixTx at h
  split_ifs at h with hflag
  simpa using hflag

theorem connectMatrix_cases (hacc : CarriesAccepted env coin s b)
    (h : connectMatrix env coin s b = some s') :
    s'.1 = s.1.child b.1 ∧ (carriesValidateMatrix b.2 = false ∧ s'.2 = s.2 ∨
      carriesValidateMatrix b.2 = true ∧ Accepted env coin s.2 b.2 (some s.1) s'.2) := by
  obtain ⟨hcb, hacc⟩ := hacc
  have hprev : (s.1.child b.1).pprev = some s.1 := rfl
  unfold connectMatrix at h
  rw [hprev] at h
  cases hcarry : carriesValidateMatrix b.2 with
  | true =>
    obtain ⟨⟨r, w'⟩, hw, hr⟩ := Option.map_eq_some_iff.mp (hacc hcarry)
    dsimp only at hr
    rw [hr] at hw
    rw [hw] at h
    cases h
    rcases blockAcceptValidateMatrix_cases hw with ⟨hne, -⟩ | ⟨-, hA⟩
    · exact absurd rfl hne
    · exact ⟨rfl, .inr ⟨rfl, hA⟩⟩
  | false =>
    cases hb : blockAcceptValidateMatrix env coin s.2 b.2 (some s.1) with
    | none => rw [hb] at h; cases h
    | some rw' =>
      obtain ⟨r, w'⟩ := rw'
      rcases blockAcceptValidateMatrix_cases hb with ⟨-, hsame⟩ | ⟨-, hA⟩
      · rw [hb] at h
        rcases r with _ | _ | _ <;> cases h <;> exact ⟨rfl, .inl ⟨rfl, hsame⟩⟩
      · -- an accepted matrix would have been carried
        have hflag := verifyMatrixTx_isFlag hA.mode
        rw [carriesValidateMatrix, hcb, hflag, hA.type_eq] at hcarry
        exact absurd hcarry (by decide)

theorem disconnectMatrix_child {s : ValidateState} :
    disconnectMatrix env (tip.child b.1, s) b = (tip,
      if carriesValidateMatrix b.2 then blockRetractValidateMatrix env s b.2 (tip.child b.1)
      else s) := rfl

theorem disconnectMatrix_connectMatrix (hacc : CarriesAccepted env coin s b)
    (hsym : Symmetric env s b) (h : connectMatrix env coin s b = some s') :
    disconnectMatrix env s' b = s := by
  obtain ⟨tip', w'⟩ := s'
  obtain ⟨htip, ⟨hno, hw⟩ | ⟨hyes, hA⟩⟩ := connectMatrix_cases hacc h
  · dsimp only at htip hw
    rw [htip, disconnectMatrix_child, hno, hw]
    rfl
  · dsimp only at htip hA
    have hg := hsym hyes
    rw [htip, disconnectMatrix_child, if_pos hyes, blockRetractValidateMatrix_accepted hA hg.period,
      retracted_eq_iff.mpr ⟨hg.height, hg.type, hg.notary⟩]

/-- **Blocks taken back in reverse order.** Blocks are connected one on top of the other, each
    with a coinbase that carries no validate matrix or an accepted one. If every guess was right
    when its block was connected, disconnecting them restores the matrix, the list of matrix
    transactions and the notaries; for one block on top of a chain of any height that `nHeight` can
    hold, the guesses are also necessary. -/
theorem matrix_reorg_symmetric (env : MatrixEnv) (coin : CoinIface) (tip : CBlockIndex)
    (w : ValidateState) (blocks : List (Uint256 × CTransaction)) (s' : CBlockIndex × ValidateState)
    (hacc : StepsOk (connectMatrix env coin) (CarriesAccepted env coin) (tip, w) blocks)
    (hrun : exec (connectMatrix env coin) (tip, w) blocks = some s') :
    (StepsOk (connectMatrix env coin) (Symmetric env) (tip, w) blocks →
      blocks.foldr (fun b s => disconnectMatrix env s b) s' = (tip, w)) ∧
    (∀ b, blocks = [b] → tip.nHeight + 1 < 2 ^ 31 →
      (disconnectMatrix env s' b = (tip, w) ↔ Symmetric env (tip, w) b)) := by
  constructor
  · intro hsym
    have hundo : ∀ s b s', CarriesAccepted env coin s b ∧ Symmetric env s b →
        connectMatrix env coin s b = some s' → disconnectMatrix env s' b = s :=
      fun s b s' hok h => disconnectMatrix_connectMatrix hok.1 hok.2 h
    exact exec_undo hundo (StepsOk.and hacc hsym) hrun
  · intro b hb hheight
    rw [hb] at hacc hrun
    obtain ⟨s₁, hstep, hend⟩ := exec_cons_eq_some.mp hrun
    cases hend
    refine ⟨fun hback hcarry => ?_, fun hsym =>
      disconnectMatrix_connectMatrix hacc.1 hsym hstep⟩
    obtain ⟨tip', w'⟩ := s'
    obtain ⟨htip, ⟨hno, -⟩ | ⟨-, hA⟩⟩ := connectMatrix_cases hacc.1 hstep
    · rw [hno] at hcarry
      cases hcarry
    · dsimp only at htip hA
      rw [htip, disconnectMatrix_child, if_pos hcarry] at hback
      exact (blockRetractValidateMatrix_restores_iff hA hheight).mp (congrArg Prod.snd hback)

/-! ## A skipped period -/

/-- The matrices of the heights 27 and 81, with that of 54 left out. -/
def matrixRun : List (Uint256 × CTransaction) :=
  let m27 := matrixAfter CTxMatrix.null 27
  (0, matrixCoinbase noDestination (some m27)) ::
    (List.replicate 53 (0, matrixCoinbase noDestination none) ++
      [(0, matrixCoinbase noDestination (some (matrixAfter m27 81)))])

/-- **A skipped period is not taken back.** From a wallet without a matrix, a matrix of height 27 is
    accepted at block 55 and one of height 81 at block 109. Disconnecting block 109 leaves the
    height at 54, block 55 then looks for 27 and finds another height, and the matrix of height 27
    with its transaction stays in the wallet. -/
theorem matrix_reorg_skips_period :
    let start := (chainSample 54, ValidateState.null)
    let run := exec (connectMatrix matrixEnvSample .shc) start matrixRun
    let back := run.map (matrixRun.foldr (fun b s => disconnectMatrix matrixEnvSample s b))
    StepsOk (connectMatrix matrixEnvSample .shc) (CarriesAccepted matrixEnvSample .shc) start
        matrixRun ∧
      back.map Prod.fst = some (chainSample 54) ∧
      back.map (fun s => s.2.matrixValidate)
        = some { matrixAfter CTxMatrix.null 27 with nHeight := 54 } ∧
      back.map (fun s => s.2.mapValidateTx) = some [28] ∧
      start.2.matrixValidate.nHeight = 0 ∧ start.2.mapValidateTx = [] := by
  decide +kernel

/-- The wallet with the matrix of height 54, and the block that carries the next one. -/
def matrixNext : ValidateState × (Uint256 × CTransaction) :=
  let m54 := matrixAfter CTxMatrix.null 54
  ({ matrixValidate := m54, mapValidateTx := [55], mapValidateNotary := fun _ => none },
    (0, matrixCoinbase noDestination (some (matrixAfter m54 81))))

/-- No period is skipped: the matrix of height 81 is taken back, with its notary. -/
theorem matrix_reorg_symmetric_next :
    ∃ s', exec (connectMatrix matrixEnvSample .shc) (chainSample 108, matrixNext.1) [matrixNext.2]
        = some s' ∧ s'.2.mapValidateTx = [55, 82] ∧
      disconnectMatrix matrixEnvSample s' matrixNext.2 = (chainSample 108, matrixNext.1) := by
  have hacc : StepsOk (connectMatrix matrixEnvSample .shc) (CarriesAccepted matrixEnvSample .shc)
      (chainSample 108, matrixNext.1) [matrixNext.2] := by decide +kernel
  have htxs : (exec (connectMatrix matrixEnvSample .shc) (chainSample 108, matrixNext.1)
      [matrixNext.2]).map (fun s => s.2.mapValidateTx) = some [55, 82] := by decide +kernel
  obtain ⟨s', hs', hseen⟩ := Option.map_eq_some_iff.mp htxs
  refine ⟨s', hs', hseen, ?_⟩
  refine ((matrix_reorg_symmetric matrixEnvSample .shc _ _ _ s' hacc hs').2 matrixNext.2 rfl
    (by decide)).mpr ?_
  exact fun _ => ⟨rfl, rfl, rfl, rfl⟩

end ShareCoin.Server
