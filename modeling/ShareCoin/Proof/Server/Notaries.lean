import ShareCoin.Proof.Server.Matrix
import ShareCoin.Lib.Run
import Mathlib.Data.Fin.VecNotation

/-!
# Agreement on the notaries of a matrix transaction

The generator of a matrix transaction counts its notaries from the tail of the list of matrix
transactions; everyone who looks at the transaction later counts from its own position in a list
that has grown. Both start at the same index. The later scan runs on past the transaction, but it
stops at the key that completed the set, which was there before.

That needs every transaction to have one position and one notary for good. A matrix is accepted
only above the height of the last one, so no transaction is accepted twice; what is assumed is that
no two transactions of the history share a hash.
-/

namespace ShareCoin.Server

open Lib List Option

variable {w w' : ValidateState}

/-! ## The scan -/

section Scan

variable {nMinConsensus : Nat} {notary notary' : Uint256 → Option CPubKey}

theorem notaryLoop_append {xs : List Uint256} (ys : List Uint256) {kSend : List CPubKey}
    (hlen : kSend.length < nMinConsensus)
    (h : (notaryLoop nMinConsensus notary xs kSend).length = nMinConsensus) :
    notaryLoop nMinConsensus notary (xs ++ ys) kSend
      = notaryLoop nMinConsensus notary xs kSend := by
  induction xs generalizing kSend with
  | nil => exact absurd h (Nat.ne_of_lt hlen)
  | cons hTx xs ih =>
    rw [cons_append]
    unfold notaryLoop at h ⊢
    cases hkey : notary hTx with
    | none =>
      rw [hkey] at h
      exact ih hlen h
    | some pubkey =>
      rw [hkey] at h
      dsimp only at h ⊢
      -- a repeated key is skipped, and the key that completes the set ends the scan
      split_ifs at h ⊢ with hdup hlast
      · exact ih hlen h
      · rfl
      · refine ih ?_ h
        rw [length_append, length_singleton]
        omega

theorem notaryLoop_congr {xs : List Uint256} (kSend : List CPubKey)
    (h : ∀ hTx ∈ xs, notary' hTx = notary hTx) :
    notaryLoop nMinConsensus notary' xs kSend = notaryLoop nMinConsensus notary xs kSend := by
  induction xs generalizing kSend with
  | nil => rfl
  | cons hTx xs ih =>
    unfold notaryLoop
    rw [h hTx mem_cons_self]
    have ih' := fun k => ih k (forall_mem_cons.mp h).2
    simp only [ih']

theorem minConsensus_pos (coin : CoinIface) : 0 < minConsensus coin := by
  cases coin <;> decide

/-- **The set found from the tail is found again from the next position**, whatever the list and the
    notaries of other transactions have become. -/
theorem getValidateNotaries_later {coin : CoinIface} {hTx : Uint256} {rest : List Uint256}
    {kSend : List CPubKey} (htxs : w'.mapValidateTx = w.mapValidateTx ++ hTx :: rest)
    (hzero : hTx ≠ 0) (hnew : hTx ∉ w.mapValidateTx)
    (hnot : ∀ h ∈ w.mapValidateTx, w'.mapValidateNotary h = w.mapValidateNotary h)
    (hk : getValidateNotaries coin w 0 = (true, kSend)) :
    getValidateNotaries coin w' hTx = (true, kSend) := by
  -- the position of `hTx` in the longer list is the length of the shorter one
  have hidx : notaryIndex w' hTx = notaryIndex w 0 := by
    have hfind : w'.mapValidateTx.findIdx? (· == hTx) = some w.mapValidateTx.length := by
      rw [htxs, findIdx?_append, findIdx?_eq_none_iff.mpr]
      · simp [findIdx?_cons]
      · intro h hh
        have hne : h ≠ hTx := fun he => hnew (he ▸ hh)
        exact beq_eq_false_iff_ne.mpr hne
    unfold notaryIndex
    rw [if_neg hzero, if_pos rfl, hfind]
    rfl
  rw [getValidateNotaries, hidx]
  rw [getValidateNotaries] at hk
  cases hs : notaryIndex w 0 with
  | none => simp [notaryIndex] at hs
  | some idx =>
    rw [hs] at hk
    dsimp only at hk ⊢
    rw [Prod.mk.injEq, beq_iff_eq] at hk
    obtain ⟨hlen, hk⟩ := hk
    have hstart : (max 0 (idx - validateNotaryDepth)).toNat ≤ w.mapValidateTx.length := by
      simp only [notaryIndex, if_true, some.injEq] at hs
      omega
    rw [htxs, drop_append_of_le_length hstart]
    have hsame : ∀ h ∈ w.mapValidateTx.drop (max 0 (idx - validateNotaryDepth)).toNat,
        w'.mapValidateNotary h = w.mapValidateNotary h :=
      fun h hh => hnot h (mem_of_mem_drop hh)
    have hcongr : notaryLoop (minConsensus coin) w'.mapValidateNotary _ [] = _ :=
      notaryLoop_congr [] hsame
    rw [notaryLoop_append _ (minConsensus_pos coin) (by rw [hcongr, hlen]), hcongr, hk]
    rw [hk] at hlen
    rw [hlen, beq_self_eq_true]

end Scan

/-! ## Histories -/

section History

variable {env : MatrixEnv} {coin : CoinIface}

def acceptStep (env : MatrixEnv) (coin : CoinIface) (w : ValidateState)
    (t : CTransaction × CBlockIndex) : Option ValidateState :=
  match blockAcceptValidateMatrix env coin w t.1 (some t.2) with
  | some (some true, w') => some w'
  | _ => none

theorem acceptStep_accepted {t : CTransaction × CBlockIndex}
    (h : acceptStep env coin w t = some w') : Accepted env coin w t.1 (some t.2) w' := by
  unfold acceptStep at h
  split at h
  · rename_i w₁ hb
    cases h
    rcases blockAcceptValidateMatrix_cases hb with ⟨hne, -⟩ | ⟨-, hA⟩
    · exact absurd rfl hne
    · exact hA
  · cases h

/-- What a history does to the wallet: the list grows by its hashes, the heights go up, and only
    their own notaries are set. -/
structure Grown (env : MatrixEnv) (w : ValidateState) (ts : List (CTransaction × CBlockIndex))
    (w' : ValidateState) : Prop where
  txs_eq : w'.mapValidateTx = w.mapValidateTx ++ ts.map fun t => env.getHash t.1
  above : ∀ t ∈ ts, w.matrixValidate.nHeight < t.1.matrix.nHeight
  upto : ∀ t ∈ ts, t.1.matrix.nHeight ≤ w'.matrixValidate.nHeight
  le : w.matrixValidate.nHeight ≤ w'.matrixValidate.nHeight
  notary : ∀ h, (∀ t ∈ ts, env.getHash t.1 ≠ h) → w'.mapValidateNotary h = w.mapValidateNotary h

theorem Accepted.notary_of_ne {tx : CTransaction} {pindex : Option CBlockIndex}
    (hA : Accepted env coin w tx pindex w') {h : Uint256} (hne : env.getHash tx ≠ h) :
    w'.mapValidateNotary h = w.mapValidateNotary h := by
  obtain ⟨v, -, hnot⟩ := hA.notary_eq
  rw [hnot, Function.update_of_ne hne.symm]

theorem exec_acceptStep_grown {ts : List (CTransaction × CBlockIndex)}
    (h : exec (acceptStep env coin) w ts = some w') : Grown env w ts w' := by
  induction ts generalizing w with
  | nil =>
    cases h
    exact ⟨by simp, by simp, by simp, UInt32.le_refl _, fun _ _ => rfl⟩
  | cons t ts ih =>
    obtain ⟨w₁, h₁, h₂⟩ := exec_cons_eq_some.mp h
    have hA := acceptStep_accepted h₁
    have hg := ih h₂
    have hmat := hA.matrix_eq
    have hnewer := hA.newer
    have habove := hg.above
    have hle := hg.le
    rw [hmat] at habove hle
    refine ⟨?_, ?_, ?_, ?_, ?_⟩
    · rw [hg.txs_eq, hA.txs_eq, map_cons, append_assoc, singleton_append]
    · intro t' ht'
      rcases mem_cons.mp ht' with rfl | ht'
      · exact hnewer
      · exact UInt32.lt_trans hnewer (habove t' ht')
    · intro t' ht'
      rcases mem_cons.mp ht' with rfl | ht'
      · exact hle
      · exact hg.upto t' ht'
    · exact UInt32.le_trans (UInt32.le_of_lt hnewer) hle
    · intro hash hne
      rw [hg.notary hash fun t' ht' => hne t' (mem_cons_of_mem _ ht'),
        hA.notary_of_ne (hne t mem_cons_self)]

end History

/-! ## Agreement -/

/-- The script id that an output pays to: `OP_HASH160 <id>` after the extension's part. -/
def scriptIdOf (scriptIn : CScript) : Option Uint160 := do
  let script ← removeExtOutputPrefix scriptIn
  let (opcode, _, pc) ← getOp script
  if opcode = opHash160 then
    let (_, vch, _) ← getOp pc
    some (uint160OfBytes vch)
  else none

theorem verifyValidateMatrixScript_scriptId {env : MatrixEnv} {coin : CoinIface}
    {w : ValidateState} {hTx : Uint256} {script : CScript} {id : Uint160}
    (h : verifyValidateMatrixScript env coin w hTx script = true)
    (hid : scriptIdOf script = some id) :
    ∃ kSend, getValidateNotaries coin w hTx = (true, kSend) ∧
      env.hash160 (generateValidateScript coin kSend).2 = id := by
  obtain ⟨body, hbody, hid⟩ := bind_eq_some_iff.mp hid
  obtain ⟨⟨opcode, item, pc⟩, hop, hid⟩ := bind_eq_some_iff.mp hid
  dsimp only at hid
  split_ifs at hid with hhash
  obtain ⟨⟨opcode', vch, pc'⟩, hop', hid⟩ := bind_eq_some_iff.mp hid
  cases hid
  have hret : opHash160 ≠ opReturn := by decide
  simp only [verifyValidateMatrixScript, hbody, hop, hhash, if_neg hret, if_true, hop'] at h
  split at h
  · cases h
  · rename_i kSend hk
    exact ⟨kSend, hk, beq_iff_eq.mp h⟩

/-- **Notary agreement.** After any history of accepted matrix transactions, let the notary set be
    complete just before `t` is accepted. After `t` and any number of further transactions, the
    notaries of `t` are that same set, the outputs that pass are the same, and a script id in the
    matrix output of `t` is that of the redeem script of this set. -/
theorem notary_agreement (env : MatrixEnv) (coin : CoinIface)
    (before after : List (CTransaction × CBlockIndex)) (t : CTransaction × CBlockIndex)
    (w w' : ValidateState) (kSend : List CPubKey)
    (hbefore : exec (acceptStep env coin) ValidateState.null before = some w)
    (hafter : exec (acceptStep env coin) w (t :: after) = some w')
    (hhash : ∀ a ∈ before, ∀ b ∈ t :: after, env.getHash a.1 = env.getHash b.1 → a.1 = b.1)
    (hzero : env.getHash t.1 ≠ 0)
    (hk : getValidateNotaries coin w 0 = (true, kSend)) :
    getValidateNotaries coin w' (env.getHash t.1) = (true, kSend) ∧
      (∀ script, verifyValidateMatrixScript env coin w' (env.getHash t.1) script
        = verifyValidateMatrixScript env coin w 0 script) ∧
      ∃ script, getExtMatrixOutput t.1 = some script ∧
        ∀ id, scriptIdOf script = some id →
          env.hash160 (generateValidateScript coin kSend).2 = id := by
  have hgb := exec_acceptStep_grown hbefore
  have hga := exec_acceptStep_grown hafter
  have htxs : w.mapValidateTx = before.map fun t => env.getHash t.1 := by
    rw [hgb.txs_eq]
    rfl
  -- a transaction of the second half has a matrix above those of the first
  have hapart : ∀ a ∈ before, ∀ b ∈ t :: after, env.getHash b.1 ≠ env.getHash a.1 := by
    intro a ha b hb heq
    have hsame := hhash a ha b hb heq.symm
    have hlt := UInt32.lt_of_le_of_lt (hgb.upto a ha) (hga.above b hb)
    rw [hsame] at hlt
    exact UInt32.lt_irrefl _ hlt
  have hagree : getValidateNotaries coin w' (env.getHash t.1) = (true, kSend) := by
    refine getValidateNotaries_later hga.txs_eq hzero ?_ ?_ hk
    · rw [htxs]
      intro hmem
      obtain ⟨a, ha, heq⟩ := List.mem_map.mp hmem
      exact hapart a ha t mem_cons_self heq.symm
    · intro h hmem
      rw [htxs] at hmem
      obtain ⟨a, ha, rfl⟩ := List.mem_map.mp hmem
      exact hga.notary _ fun b hb => hapart a ha b hb
  refine ⟨hagree, ?_, ?_⟩
  · intro script
    unfold verifyValidateMatrixScript
    rw [hagree, hk]
  · obtain ⟨w₁, hstep, -⟩ := exec_cons_eq_some.mp hafter
    obtain ⟨script, hext, hver⟩ := (acceptStep_accepted hstep).script
    refine ⟨script, hext, ?_⟩
    intro id hid
    obtain ⟨kSend', hk', hscript⟩ := verifyValidateMatrixScript_scriptId hver hid
    rw [hk] at hk'
    cases hk'
    exact hscript

/-- The matrices of the heights 27, 54 and 81 on the test coin, where one key is a full set. -/
def notaryHistory : Fin 3 → CTransaction × CBlockIndex :=
  let m27 := matrixAfter CTxMatrix.null 27
  let m54 := matrixAfter m27 54
  let dest := [opHash160, 20] ++ List.replicate 20 0 ++ [0x87]
  ![(matrixCoinbase noDestination (some m27), chainSample 60),
    (matrixCoinbase dest (some m54), chainSample 90),
    (matrixCoinbase dest (some (matrixAfter m54 81)), chainSample 120)]

/-- The notary of the first matrix is the set of the second, before and after the third. -/
theorem notary_agreement_test :
    ∃ w w', exec (acceptStep matrixEnvSample .test) ValidateState.null [notaryHistory 0]
        = some w ∧
      exec (acceptStep matrixEnvSample .test) w [notaryHistory 1, notaryHistory 2] = some w' ∧
      getValidateNotaries .test w' 55 = (true, [[2, 3, 4]]) := by
  have hk : (exec (acceptStep matrixEnvSample .test) ValidateState.null
      [notaryHistory 0]).map (getValidateNotaries .test · 0) = some (true, [[2, 3, 4]]) := by
    decide
  obtain ⟨w, hw, hk⟩ := map_eq_some_iff.mp hk
  have h₂ : ((exec (acceptStep matrixEnvSample .test) ValidateState.null
      [notaryHistory 0]).bind fun w => exec (acceptStep matrixEnvSample .test) w
        [notaryHistory 1, notaryHistory 2]).isSome = true := rfl
  rw [hw, bind_some] at h₂
  obtain ⟨w', hw'⟩ := isSome_iff_exists.mp h₂
  have hhash : ∀ a ∈ [notaryHistory 0], ∀ b ∈ [notaryHistory 1, notaryHistory 2],
      matrixEnvSample.getHash a.1 = matrixEnvSample.getHash b.1 → a.1 = b.1 := by decide
  exact ⟨w, w', hw, hw', (notary_agreement matrixEnvSample .test [notaryHistory 0]
    [notaryHistory 2] (notaryHistory 1) w w' [[2, 3, 4]] hw hw' hhash (by decide) hk).1⟩

end ShareCoin.Server
