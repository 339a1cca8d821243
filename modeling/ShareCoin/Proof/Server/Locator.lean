import ShareCoin.Server.Locator
import ShareCoin.Proof.Server.MainChain

/-!
# What a locator finds

The loop is followed by the depth `k` of its block below the tip: steps of one block at first, then
steps that are nine less than the depth (`Spaced`). So the first step that reaches the common blocks
leads to at most twice the depth of their last one (`Near`).
-/

namespace ShareCoin.Server

open Lib List

variable {σ σ' ι : Type} {t : Forest ι} {i : ι}

/-- The next step and the depth, with `size` blocks behind it. -/
def Spaced (nStep size k : Nat) : Prop :=
  size ≤ 10 ∧ nStep = 1 ∧ k = size ∨ 10 < size ∧ 0 < nStep ∧ k = nStep + 9

/-- At most twice as deep as `d`, and near the tip no deeper. -/
def Near (d k : Nat) : Prop := k ≤ 2 * d ∧ (d ≤ 11 → k ≤ d)

theorem getLocatorLoop_find {has : ι → Bool} {d : Nat} (hd : d ≤ t.height i)
    (hhas : ∀ {k b}, d ≤ k → t.up k i = some b → has b = true) (fuel : Nat) :
    ∀ {nStep size k p}, t.up k i = some p → t.height p < fuel → Near d k →
      (t.height p = 0 ∨ Spaced nStep size k) →
      ∃ k' r, (getLocatorLoop t fuel nStep size p).find? has = some r ∧ t.up k' i = some r ∧
        Near d k' := by
  induction fuel with
  | zero =>
    intro _ _ _ _ _ hlt
    exact absurd hlt (Nat.not_lt_zero _)
  | succ fuel ih =>
    intro nStep size k p hp hlt hnear hspaced
    rw [getLocatorLoop]
    cases hh : has p with
    | true => exact ⟨k, p, find?_cons_of_pos hh, hp, hnear⟩
    | false =>
      have hk : k < d := Nat.lt_of_not_le fun hle => by simp [hhas hle hp] at hh
      have hheight := Forest.height_up hp
      have hpos : t.height p ≠ 0 := by omega
      have hspaced := hspaced.resolve_left hpos
      obtain ⟨q, hq⟩ := Forest.exists_up (Nat.sub_le (t.height p) (t.height p - nStep))
      have hq' := Forest.height_up hq
      rw [find?_cons_of_neg (by simp [hh]), if_neg hpos]
      dsimp only
      rw [hq]
      unfold Spaced at hspaced
      refine ih ((Forest.up_add hp _).trans hq) (by omega) ⟨by omega, by omega⟩ ?_
      unfold Spaced
      split_ifs <;> omega

/-- **A node that asks with its locator is answered from a common block**, which is at most twice
    as far from its tip as the last common block; and it is that block where it is no more than
    eleven blocks away. -/
theorem locator_finds_common_block [DecidableEq ι] (t : BlockLinks ι) {s₀ : ChainState σ ι}
    (h₀ : IsInitial t s₀) (ops : List (ChainOp σ ι))
    (hok : StepsOk (fun s op => some (chainStep t s op)) (StepConnects t) s₀ ops)
    (s' : ChainState σ' ι) (pindex : Option ι) (genesis : ι) :
    let s := ops.foldl (chainStep t) s₀
    let tip := pindex.getD s'.pindexBest
    let found := getLocatorIndex s genesis (getLocator t.toForest s' pindex)
    ∀ a, t.Anc a tip → t.Anc a s.pindexBest →
      t.Anc found tip ∧ t.Anc found s.pindexBest ∧
      t.height tip - t.height found ≤ 2 * (t.height tip - t.height a) ∧
      (t.height tip ≤ t.height a + 11 → t.height a ≤ t.height found) := by
  have hinv : MainChainInv t (ops.foldl (chainStep t) s₀) :=
    foldl_invariant (fun s op hok hinv => chainStep_inv op hok hinv) hok h₀.inv
  rintro s tip found a ⟨d, hd⟩ hbest
  have hda := Forest.height_up hd
  have hhas : ∀ {k b}, d ≤ k → t.up k tip = some b → (s.known b && isInMainChain s b) = true := by
    intro k b hle hb
    rw [← Nat.add_sub_cancel' hle, Forest.up_add hd] at hb
    have hflag := (hinv.flag b).mpr (Forest.Anc.trans ⟨_, hb⟩ hbest)
    rw [hflag, hinv.known b hflag]
    rfl
  have hstart : Spaced 1 0 0 := .inl ⟨Nat.zero_le _, rfl, rfl⟩
  obtain ⟨k, r, hfind, hr, hk⟩ := getLocatorLoop_find (by omega) hhas (t.height tip + 1)
    (Forest.up_zero tip) (Nat.lt_succ_self _) ⟨Nat.zero_le _, fun _ => Nat.zero_le d⟩ (.inr hstart)
  have hfound : found = r := congrArg (Option.getD · genesis) hfind
  have hkr := Forest.height_up hr
  have hmain := find?_some hfind
  rw [Bool.and_eq_true] at hmain
  rw [hfound]
  unfold Near at hk
  exact ⟨⟨k, hr⟩, (hinv.flag r).mp hmain.2, by omega, by omega⟩

/-- A node with the second child finds a block of the chain with the first. -/
theorem second_child_asks :
    twoChildren.Anc
      (getLocatorIndex ([validBlock .first].foldl (chainStep twoChildren) genesisOnly) .second
        (getLocator twoChildren.toForest genesisOnly (some .second)))
      ([validBlock .first].foldl (chainStep twoChildren) genesisOnly).pindexBest :=
  (locator_finds_common_block twoChildren genesisOnly_initial [validBlock .first]
    ⟨validBlock_connects, trivial⟩ genesisOnly (some .second) .second .genesis ⟨1, rfl⟩
    ⟨1, rfl⟩).2.1

end ShareCoin.Server
