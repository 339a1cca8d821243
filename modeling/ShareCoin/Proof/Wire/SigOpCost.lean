import ShareCoin.Wire.SigOpCost

/-!
# Where the two costs of the signature operations agree

The version over a pool entry leaves the redeem scripts out, so the two agree where these count
nothing.
-/

namespace ShareCoin.Wire

open Server

theorem mapM_outputs {α β : Type} [Inhabited β] {inputs : PrevTxs} {l : List α} {txin : α → CTxIn}
    {f : α → CTxOut → β} (h : ∀ a ∈ l, (getOutputFor inputs (txin a)).isSome) :
    (l.mapM fun a => (getOutputFor inputs (txin a)).map (f a)) =
      some (l.map fun a => ((getOutputFor inputs (txin a)).map (f a)).getD default) := by
  induction l with
  | nil => rfl
  | cons a l ih =>
    rw [List.forall_mem_cons] at h
    obtain ⟨prevout, hprev⟩ := Option.isSome_iff_exists.mp h.1
    simp [List.mapM_cons, hprev, ih h.2]

/-- **The two costs agree exactly where the redeem scripts count nothing**, for a transaction whose
    previous outputs are all there and flags that ask for both kinds of scripts. -/
theorem getSigOpCost_eq_iff {tx : CTransaction} {inputs : PrevTxs} {flags : UInt32}
    (hp2sh : testFlag flags scriptVerifyP2sh = true)
    (hwit : testFlag flags scriptVerifyWitness = true)
    (hcomplete : isCoinBase tx = false → ∀ txin ∈ tx.vin, (getOutputFor inputs txin).isSome) :
    getSigOpCost tx inputs flags = some (getSigOpCostCache tx inputs flags) ↔
      (getP2SHSigOpCount tx inputs).map (· * scaleFactor) = some 0 := by
  cases hbase : isCoinBase tx with
  | true => simp [getSigOpCost, getSigOpCostCache, getP2SHSigOpCount, hbase]
  | false =>
    have hvin := hcomplete hbase
    have hzip : ∀ input ∈ tx.vin.zipIdx, (getOutputFor inputs input.1).isSome := fun input hin =>
      hvin _ (List.fst_mem_of_mem_zipIdx hin)
    simp only [getSigOpCost, getSigOpCostCache, getP2SHSigOpCount, hbase, hp2sh, hwit,
      mapM_outputs hvin, mapM_outputs hzip]
    simp [← UInt32.toNat_inj]

/-- The outputs of every previous transaction: a script hash, and a key hash of a witness. -/
def prevTxsSample : PrevTxs := fun _ => some { vout :=
  [⟨1, [0xa9, 0x14] ++ List.replicate 20 7 ++ [0x87]⟩, ⟨1, [0, 0x14] ++ List.replicate 20 7⟩] }

/-- Spends an output of transaction 1. The redeem script has one `OP_CHECKSIG`. -/
def spendSample (n : UInt32) : CTransaction := { vin := [⟨⟨1, n⟩, [1, 0xac], 0⟩] }

theorem getSigOpCost_eq_witness :
    getSigOpCost (spendSample 1) prevTxsSample 0x801 =
      some (getSigOpCostCache (spendSample 1) prevTxsSample 0x801) :=
  (getSigOpCost_eq_iff (by decide) (by decide) (fun _ => by decide)).mpr
    rfl

/-- **The operations of a redeem script are lost**: one signature costs four, or nothing. -/
theorem redeem_sigops_lost :
    getSigOpCost (spendSample 0) prevTxsSample 0x801 = some 4 ∧
      getSigOpCostCache (spendSample 0) prevTxsSample 0x801 = 0 := by
  decide

end ShareCoin.Wire
