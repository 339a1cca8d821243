import ShareCoin.Proof.Wallet.TxCreator
import ShareCoin.Wallet.SelectCoins

/-!
# The selected coins are worth the target

`SelectCoins_Avg` succeeds exactly if the coins that are offered are worth the target. What its
loops keep is that the coins that are chosen and those still to come are worth it: a coin is left
out only where the others suffice.
-/

namespace ShareCoin.Wallet

open List

variable {vCoins shuffled coins : List Coin} {nTargetValue max_val avg_val nValueRet : Int}
  {o : ValueSort}

/-- A selection has found some of the coins, worth `nValueRet` and the target. -/
structure Selected (vCoins : List Coin) (nTargetValue : Int) (r : List Coin × Int) : Prop where
  coins : r.1.Subperm vCoins
  distinct : (r.1.map Coin.key).Nodup
  value : r.2 = total r.1
  target : nTargetValue ≤ r.2

/-- A selection finds coins exactly if they are worth the target. -/
def Selects (vCoins : List Coin) (nTargetValue : Int) (r : Option (List Coin × Int)) : Prop :=
  (r ≠ none ↔ nTargetValue ≤ total vCoins) ∧ ∀ found, r = some found →
    Selected vCoins nTargetValue found

theorem nodup_of_subperm (h : coins.Subperm vCoins) (hkeys : (vCoins.map Coin.key).Nodup) :
    (coins.map Coin.key).Nodup := by
  obtain ⟨keys, hperm, hsub⟩ := subperm_map Coin.key h
  exact hperm.nodup_iff.mp (hsub.nodup hkeys)

theorem Selected.of_insertAll (h : coins.Subperm vCoins) (hkeys : (vCoins.map Coin.key).Nodup)
    (htarget : nTargetValue ≤ total coins) :
    Selected vCoins nTargetValue (insertAll coins, total coins) := by
  have hnodup := nodup_of_subperm h hkeys
  have hperm : (insertAll coins).Perm coins := by
    have hset := @insertAll_perm coins [] (by rwa [nil_append])
    rwa [nil_append] at hset
  refine ⟨hperm.subperm.trans h, ?_, (total_perm hperm).symm, htarget⟩
  exact (hperm.map Coin.key).nodup_iff.mpr hnodup

theorem Selected.of_mem {coin : Coin} (h : coin ∈ vCoins) (htarget : nTargetValue ≤ coin.value) :
    Selected vCoins nTargetValue ([coin], coin.value) :=
  ⟨singleton_subperm_iff.mpr h, nodup_singleton _, (add_zero _).symm, htarget⟩

/-- A selection that is right and finds coins where they are worth the target. -/
theorem Selects.intro {r : Option (List Coin × Int)} (hpos : ∀ coin ∈ vCoins, 0 < coin.value)
    (hsome : ∀ found, r = some found → Selected vCoins nTargetValue found)
    (hnone : r = none → total vCoins < nTargetValue) : Selects vCoins nTargetValue r := by
  refine ⟨⟨fun hne => ?_, fun hworth hr => absurd (hnone hr) (not_lt.mpr hworth)⟩, hsome⟩
  obtain ⟨found, hr⟩ := Option.ne_none_iff_exists'.mp hne
  have h := hsome found hr
  calc nTargetValue ≤ total found.1 := h.value ▸ h.target
    _ ≤ total vCoins := total_le_of_subperm h.coins fun coin hcoin => (hpos coin hcoin).le

theorem Selected.perm {r : List Coin × Int} (h : Selected shuffled nTargetValue r)
    (hperm : shuffled.Perm vCoins) : Selected vCoins nTargetValue r :=
  ⟨h.coins.trans hperm.subperm, h.distinct, h.value, h.target⟩

theorem Selects.perm {r : Option (List Coin × Int)} (h : Selects shuffled nTargetValue r)
    (hperm : shuffled.Perm vCoins) : Selects vCoins nTargetValue r := by
  refine ⟨?_, fun found hr => (h.2 found hr).perm hperm⟩
  rw [← total_perm hperm]
  exact h.1

theorem foldl_lowerMaxVal (vCoins : List Coin) (m : Int) :
    vCoins.foldl (lowerMaxVal nTargetValue) m = m ∨ ∃ coin ∈ vCoins,
      coin.value = vCoins.foldl (lowerMaxVal nTargetValue) m ∧ nTargetValue ≤ coin.value := by
  induction vCoins generalizing m with
  | nil => exact .inl rfl
  | cons coin rest ih =>
    rw [foldl_cons]
    obtain h | ⟨c, hc, h⟩ := ih (lowerMaxVal nTargetValue m coin)
    · rw [h, lowerMaxVal]
      split_ifs with hgt
      · exact .inr ⟨coin, mem_cons_self, rfl, hgt.le⟩
      · obtain hm | hm := le_total m coin.value
        · exact .inl (min_eq_left hm)
        · exact .inr ⟨coin, mem_cons_self, (min_eq_right hm).symm, hgt.le⟩
      · exact .inl rfl
    · exact .inr ⟨c, mem_cons_of_mem _ hc, h⟩

theorem usefulCoins_sublist (vCoins : List Coin) (nTotalValue : Int) :
    (usefulCoins nTargetValue max_val avg_val nTotalValue vCoins).Sublist vCoins := by
  induction vCoins generalizing nTotalValue with
  | nil => exact List.Sublist.refl _
  | cons coin rest ih =>
    rw [usefulCoins]
    split_ifs
    · exact (ih _).cons coin
    · exact (ih _).cons coin
    · exact (ih _).cons_cons coin

/-- There is enough already, or all coins are needed and enough, or one to come is enough. -/
def Enough (nTargetValue max_val nTotalValue : Int) (rest : List Coin) : Prop :=
  nTargetValue ≤ nTotalValue ∨ max_val = 0 ∧ nTargetValue ≤ nTotalValue + total rest ∨
    ∃ coin ∈ rest, coin.value = max_val ∧ nTargetValue ≤ coin.value

theorem usefulCoins_worth (hpos : ∀ coin ∈ coins, 0 < coin.value) {nTotalValue : Int}
    (hnonneg : 0 ≤ nTotalValue) (h : Enough nTargetValue max_val nTotalValue coins) :
    nTargetValue ≤
      nTotalValue + total (usefulCoins nTargetValue max_val avg_val nTotalValue coins) := by
  induction coins generalizing nTotalValue with
  | nil =>
    obtain h | ⟨_, h⟩ | ⟨_, hmem, _⟩ := h
    · exact h.trans_eq (add_zero _).symm
    · exact h
    · exact absurd hmem not_mem_nil
  | cons coin rest ih =>
    obtain ⟨hcoin, hrest⟩ := forall_mem_cons.mp hpos
    rw [usefulCoins]
    split_ifs with hlarge hsmall
    · refine ih hrest hnonneg ?_
      obtain h | ⟨hzero, _⟩ | ⟨c, hmem, hc, hle⟩ := h
      · exact .inl h
      · exact absurd hzero hlarge.1
      · obtain rfl | hmem := mem_cons.mp hmem
        · exact absurd hc hlarge.2.ne'
        · exact .inr (.inr ⟨c, hmem, hc, hle⟩)
    · refine ih hrest hnonneg (.inl ?_)
      have hcent : (0 : Int) ≤ cent := by decide
      omega
    · have hworth := ih hrest (add_nonneg hnonneg hcoin.le) (?_ : Enough _ _ _ _)
      · rw [total_cons]
        omega
      · obtain h | ⟨hzero, h⟩ | ⟨c, hmem, hc, hle⟩ := h
        · exact .inl (by omega)
        · rw [total_cons] at h
          exact .inr (.inl ⟨hzero, by omega⟩)
        · obtain rfl | hmem := mem_cons.mp hmem
          · exact .inl (by omega)
          · exact .inr (.inr ⟨c, hmem, hc, hle⟩)

/-- The coins that are taken are some of those there are, and `nValueRet` is what they are worth. -/
theorem takeCoins_spec (coins : List Coin) (nTotalValue nValueRet : Int) :
    (takeCoins nTargetValue avg_val nTotalValue nValueRet coins).1.Sublist coins ∧
    (takeCoins nTargetValue avg_val nTotalValue nValueRet coins).2 =
      nValueRet + total (takeCoins nTargetValue avg_val nTotalValue nValueRet coins).1 := by
  induction coins generalizing nTotalValue nValueRet with
  | nil => exact ⟨List.Sublist.refl _, by simp [takeCoins]⟩
  | cons coin rest ih =>
    rw [takeCoins]
    dsimp only
    split_ifs with hskip hdone
    · obtain ⟨hsub, hsum⟩ := ih (nTotalValue - coin.value) nValueRet
      exact ⟨hsub.cons coin, hsum⟩
    · refine ⟨(nil_sublist rest).cons_cons coin, ?_⟩
      simp
    · obtain ⟨hsub, hsum⟩ := ih (nTotalValue - coin.value) (nValueRet + coin.value)
      refine ⟨hsub.cons_cons coin, ?_⟩
      rw [hsum, total_cons]
      omega

/-- The coins that are taken are enough if they and those to come are. -/
theorem takeCoins_worth (coins : List Coin) {nValueRet : Int}
    (h : nTargetValue ≤ nValueRet + total coins) :
    nTargetValue ≤ (takeCoins nTargetValue avg_val (total coins) nValueRet coins).2 := by
  induction coins generalizing nValueRet with
  | nil => exact h.trans_eq (add_zero _)
  | cons coin rest ih =>
    have hleft : total (coin :: rest) - coin.value = total rest := add_sub_cancel_left ..
    rw [takeCoins, hleft]
    dsimp only
    split_ifs with hskip hdone
    · exact ih (by omega)
    · exact hdone
    · exact ih (by omega)

theorem selectCoinsAvg_selects (hkeys : (vCoins.map Coin.key).Nodup)
    (hpos : ∀ coin ∈ vCoins, 0 < coin.value) :
    Selects vCoins nTargetValue (selectCoinsAvg o nTargetValue vCoins) := by
  unfold selectCoinsAvg
  split
  next coin hfind =>
    have hvalue : coin.value = nTargetValue := eq_of_beq (find?_some hfind :)
    refine .intro hpos (fun found hr => ?_) fun hr => absurd hr (Option.some_ne_none _)
    cases hr
    exact .of_mem (mem_of_find?_eq_some hfind) hvalue.ge
  next =>
    dsimp only
    generalize avgVal nTargetValue vCoins = avg_val
    generalize hvalue : usefulCoins nTargetValue (maxVal nTargetValue vCoins) avg_val 0 vCoins =
      vValue
    have hperm := o.perm vValue
    have hsubperm : vValue.Subperm vCoins := hvalue ▸ (usefulCoins_sublist vCoins 0).subperm
    have htotal : (vValue.map Coin.value).sum = total (o.sort vValue) := (total_perm hperm).symm
    rw [htotal]
    obtain ⟨hsub, hsum⟩ := @takeCoins_spec nTargetValue avg_val (o.sort vValue)
      (total (o.sort vValue)) 0
    have hworth := @takeCoins_worth nTargetValue avg_val (o.sort vValue) 0
    rw [zero_add] at hsum hworth
    generalize takeCoins nTargetValue avg_val (total (o.sort vValue)) 0 (o.sort vValue) = result
      at hsub hsum hworth ⊢
    refine .intro hpos (fun found hr => ?_) fun hr => ?_
    · split_ifs at hr with hless
      cases hr
      rw [hsum]
      exact .of_insertAll ((hsub.subperm.trans hperm.subperm).trans hsubperm) hkeys
        (hsum ▸ not_lt.mp hless)
    · split_ifs at hr with hless
      -- too little was taken, so there was too little
      by_contra! henough
      refine absurd hless (not_lt.mpr (hworth ?_))
      rw [total_perm hperm, ← hvalue, ← zero_add (total _)]
      refine usefulCoins_worth hpos le_rfl ?_
      obtain hzero | hlarger := @foldl_lowerMaxVal nTargetValue vCoins 0
      · exact .inr (.inl ⟨hzero, by rwa [zero_add]⟩)
      · exact .inr (.inr hlarger)

/-- **`SelectCoins_Avg` succeeds exactly if the coins are worth the target**, and it returns some of
    them, worth `nValueRet` and the target, in whatever order they are shuffled. -/
theorem select_avg_sound_complete (o : ValueSort) (nTargetValue : Int)
    (hshuffle : shuffled.Perm vCoins) (hkeys : (vCoins.map Coin.key).Nodup)
    (hpos : ∀ coin ∈ vCoins, 0 < coin.value) :
    Selects vCoins nTargetValue (selectCoinsAvg o nTargetValue shuffled) := by
  refine Selects.perm (selectCoinsAvg_selects ?_ fun coin hcoin => ?_) hshuffle
  · exact (hshuffle.map Coin.key).nodup_iff.mpr hkeys
  · exact hpos coin (hshuffle.subset hcoin)

/-! ## Samples -/

def stableSort : ValueSort where
  sort coins := coins.mergeSort fun a b => decide (b.value ≤ a.value)
  perm coins := mergeSort_perm coins _
  sorted coins := by
    refine (pairwise_mergeSort (fun a b c hab hbc => ?_) (fun a b => ?_) coins).imp
      of_decide_eq_true
    · exact decide_eq_true ((of_decide_eq_true hbc).trans (of_decide_eq_true hab))
    · rw [Bool.or_eq_true, decide_eq_true_iff, decide_eq_true_iff]
      exact le_total ..

/-- The output of a transaction of its own. -/
def coinWorth (nValue : Int64) (addr : Nat) : Coin := (⟨addr, { vout := [⟨nValue, [0x51]⟩] }⟩, 0)

def threeCoins : List Coin := [coinWorth 5 1, coinWorth 2 2, coinWorth 9 3]

/-- The coins are worth sixteen, so ten are selected from them in any order. -/
theorem select_avg_three :
    Selects threeCoins 10 (selectCoinsAvg stableSort 10 threeCoins.reverse) :=
  select_avg_sound_complete stableSort 10 (reverse_perm _) (by decide) (by decide)

end ShareCoin.Wallet
