import Mathlib.Algebra.Order.BigOperators.Ring.Finset
import ShareCoin.Server.BlockValue

/-!
# The supply of the coin

The reward halves every 749918 blocks and is rounded down to a hundredth of a coin. **The rewards of
all blocks together stay below `SHC_MAX_MONEY`**, by eight hundredths of a coin: the sum over the
heights is a sum over the epochs, each of them once for every block it has.
-/

namespace ShareCoin.Server

open Finset (range sum_range_succ sum_range_succ')

def epochReward (k : Nat) : Nat := 3334 * coinValue / 2 ^ k / 10000000 * 1000000

theorem epochReward_anti {j k : Nat} (h : j ≤ k) : epochReward k ≤ epochReward j := by
  have hpow : 2 ^ j ≤ 2 ^ k := Nat.pow_le_pow_right (by decide) h
  exact Nat.mul_le_mul_right _ (Nat.div_le_div_right (Nat.div_le_div_left hpow (Nat.two_pow_pos j)))

theorem epochReward_le (k : Nat) : epochReward k ≤ 33340000000 := epochReward_anti k.zero_le

def heightReward (h : Nat) : Nat := if h = 0 then 80000000000 else epochReward (h / 749918)

theorem shcGetBlockValue_toInt (h : Nat) : (shcGetBlockValue h 0).toInt = heightReward h := by
  have hle := epochReward_le (h / 749918)
  unfold shcGetBlockValue heightReward
  split_ifs with h0
  · rfl
  · rw [Int64.add_zero]
    exact Int64.toInt_ofNat_of_lt (lt_of_le_of_lt hle (by decide))

/-- A sum in which every value stands `m` times. -/
theorem sum_range_mul_div (f : Nat → Nat) {m : Nat} (hm : 0 < m) (k : Nat) :
    ∑ h ∈ range (m * k), f (h / m) = m * ∑ j ∈ range k, f j := by
  induction k with
  | zero => simp
  | succ k ih =>
    have hepoch : ∀ x ∈ range m, f ((m * k + x) / m) = f k := by
      intro x hx
      rw [Nat.mul_add_div hm, Nat.div_eq_of_lt (Finset.mem_range.mp hx), Nat.add_zero]
    rw [Nat.mul_succ, Finset.sum_range_add, ih, Finset.sum_const_nat hepoch, Finset.card_range,
      sum_range_succ, Nat.mul_add]

theorem sum_heightReward_le {n : Nat} (hn : n / 749918 < 64) :
    ∑ h ∈ range (n + 1), heightReward h ≤ shcIface.maxMoney := by
  -- all heights but the first have the reward of their epoch
  have hfirst : ∑ h ∈ range (n + 1), heightReward h + epochReward 0 =
      ∑ h ∈ range (n + 1), epochReward (h / 749918) + 80000000000 := by
    rw [sum_range_succ', sum_range_succ']
    simp only [heightReward, Nat.add_eq_zero_iff, Nat.one_ne_zero, and_false, if_false, if_true,
      Nat.zero_div]
    omega
  have hall : ∑ h ∈ range (n + 1), epochReward (h / 749918) ≤
      749918 * ∑ k ∈ range 64, epochReward k := by
    have hsub : range (n + 1) ⊆ range (749918 * 64) := by
      rw [Finset.range_subset_range]
      omega
    exact (Finset.sum_le_sum_of_subset hsub).trans_eq (sum_range_mul_div epochReward (by decide) 64)
  have hsum : 749918 * ∑ k ∈ range 64, epochReward k + 80000000000 ≤
      shcIface.maxMoney + epochReward 0 := by decide
  omega

/-- The rewards of the first heights, as `int64` adds them up. -/
def supply : Nat → Int64
  | 0 => 0
  | n + 1 => supply n + shcGetBlockValue n 0

theorem supply_toInt {n : Nat} (hn : n / 749918 < 64) :
    (supply (n + 1)).toInt = ∑ h ∈ range (n + 1), heightReward h := by
  induction n with
  | zero => rfl
  | succ n ih =>
    have hle := sum_heightReward_le hn
    have hmax := shcIface.maxMoney_lt
    have hprev := ih (lt_of_le_of_lt (Nat.div_le_div_right n.le_succ) hn)
    rw [sum_range_succ] at hle ⊢
    rw [supply, Int64.toInt_add, hprev, shcGetBlockValue_toInt]
    exact Int.bmod_eq_of_le (by omega) (by omega)

/-- **The cap.** -/
theorem shc_supply_capped (n : Nat) (hn : n / 749918 < 64) :
    0 ≤ (shcGetBlockValue n 0).toInt ∧
    (∀ m, 1 ≤ m → m ≤ n → (shcGetBlockValue n 0).toInt ≤ (shcGetBlockValue m 0).toInt) ∧
    (supply (n + 1)).toInt = ∑ h ∈ range (n + 1), (shcGetBlockValue h 0).toInt ∧
    ∑ h ∈ range (n + 1), (shcGetBlockValue h 0).toInt ≤ shcIface.maxMoney := by
  simp only [shcGetBlockValue_toInt]
  refine ⟨Int.natCast_nonneg _, fun m hm hmn => ?_, ?_, ?_⟩
  · have hanti := epochReward_anti (Nat.div_le_div_right (c := 749918) hmn)
    rw [heightReward, heightReward, if_neg (by omega), if_neg (by omega)]
    exact_mod_cast hanti
  · rw [supply_toInt hn, Nat.cast_sum]
  · exact_mod_cast sum_heightReward_le hn

theorem shc_supply_first_halving : (749918 : Nat) / 749918 < 64 ∧
    (shcGetBlockValue 749918 0).toInt ≤ (shcGetBlockValue 1 0).toInt :=
  ⟨by decide, (shc_supply_capped 749918 (by decide)).2.1 1 (by decide) (by decide)⟩

end ShareCoin.Server
