import ShareCoin.Proof.Server.PoolLaws

/-!
# The order of the pool

`CPoolTx::operator<` puts a parent before a child that spends it, and otherwise the higher fee
first. Each of the two is an order. Together they are one only if they agree: a child that pays more
than its parent is both before and after it, and where fees are equal the entries in between are not
comparable to either. `std::sort` promises nothing for such a comparison.
-/

namespace ShareCoin.Server

open List

section Compare

variable {α κ : Type} [LinearOrder κ] {dep : α → α → Prop} (rank : α → κ)

/-- A relation on top of a ranking is a strict weak order exactly if it never goes against the
    ranking, and leaves nothing incomparable to both ends of a pair of equal rank. -/
theorem isStrictWeakOrder_ranked_iff (hacyclic : ∀ a, ¬ Relation.TransGen dep a a) :
    IsStrictWeakOrder α (fun a b => dep a b ∨ rank b < rank a) ↔
      (∀ a b, dep a b → rank b ≤ rank a) ∧
        ∀ a b c, rank a = rank b → rank b = rank c → dep a c → dep a b ∨ dep b c := by
  have hasymm : ∀ a b, dep a b → ¬ dep b a := fun a b hab hba =>
    hacyclic a (.tail (.single hab) hba)
  constructor
  · intro h
    refine ⟨fun a b hab => ?_, fun a b c hab hbc hac => ?_⟩
    · by_contra hlt
      exact h.irrefl a (h.trans a b a (.inl hab) (.inr (not_le.mp hlt)))
    · by_contra hneither
      obtain ⟨hnab, hnbc⟩ := not_or.mp hneither
      -- `b` is incomparable to both, for it would be between or beyond them
      have hab' : ¬ (dep a b ∨ rank b < rank a) := by simp [hnab, hab]
      have hbc' : ¬ (dep b c ∨ rank c < rank b) := by simp [hnbc, hbc]
      have hba' : ¬ (dep b a ∨ rank a < rank b) := fun hba =>
        hbc' (h.trans b a c hba (.inl hac))
      have hcb' : ¬ (dep c b ∨ rank b < rank c) := fun hcb =>
        hab' (h.trans a c b (.inl hac) hcb)
      exact (h.incomp_trans a b c ⟨hab', hba'⟩ ⟨hbc', hcb'⟩).1 (.inl hac)
  · rintro ⟨hrank, hdense⟩
    have hle : ∀ {a b}, dep a b ∨ rank b < rank a → rank b ≤ rank a := by
      rintro a b (hab | hab)
      · exact hrank a b hab
      · exact hab.le
    have hincomp : ∀ {a b c}, ¬ (dep a b ∨ rank b < rank a) → ¬ (dep b a ∨ rank a < rank b) →
        ¬ (dep b c ∨ rank c < rank b) → ¬ (dep c b ∨ rank b < rank c) →
        ¬ (dep a c ∨ rank c < rank a) := by
      intro a b c hab hba hbc hcb
      obtain ⟨hnab, hab⟩ := not_or.mp hab
      obtain ⟨hnbc, hbc⟩ := not_or.mp hbc
      have heq : rank a = rank b := le_antisymm (not_lt.mp hab) (not_lt.mp (not_or.mp hba).2)
      have heq' : rank b = rank c := le_antisymm (not_lt.mp hbc) (not_lt.mp (not_or.mp hcb).2)
      rintro (hac | hac)
      · exact (hdense a b c heq heq' hac).elim hnab hnbc
      · exact hac.ne (heq.trans heq').symm
    refine { irrefl := ?_, trans := ?_, incomp_trans := ?_ }
    · rintro a (haa | haa)
      · exact hacyclic a (.single haa)
      · exact haa.false
    · intro a b c hab hbc
      rcases (hle hbc).lt_or_eq with hlt | heq
      · exact .inr (hlt.trans_le (hle hab))
      rcases (hle hab).lt_or_eq with hlt | heq'
      · exact .inr (heq.trans_lt hlt)
      have hab' := hab.resolve_right (by simp [heq'])
      have hbc' := hbc.resolve_right (by simp [heq])
      have hac := hdense a c b (heq'.symm.trans heq.symm) heq hab'
      exact .inl (hac.resolve_right (hasymm b c hbc'))
    · intro a b c hab hbc
      exact ⟨hincomp hab.1 hab.2 hbc.1 hbc.2, hincomp hbc.2 hbc.1 hab.2 hab.1⟩

end Compare

/-- Every transaction stands behind the entries it depends on. -/
def BehindParents (txEnv : TxEnv) (vPoolTx : List RankedTx) : Prop :=
  vPoolTx.Pairwise fun a b => isDependent txEnv b a = false

theorem poolLess_iff {txEnv : TxEnv} {a b : RankedTx} : poolLess txEnv a b = true ↔
    isDependent txEnv a b = true ∨ b.dFeePriority < a.dFeePriority := by
  unfold poolLess
  split_ifs with h
  · simp [h]
  · simp [h]

/-- **When the order of the pool is one.** For entries whose dependencies have no cycle,
    `operator<` is a strict weak order exactly if no entry pays more than one it depends on, and
    between two dependent entries that pay the same there is none that depends on neither and is
    not depended on. Then every order that `sort` can leave has the parents first. -/
theorem poolLess_strictWeak_iff (txEnv : TxEnv) (active : List RankedTx)
    (hacyclic : ∀ ptx : { ptx // ptx ∈ active },
      ¬ Relation.TransGen (fun a b => isDependent txEnv a.1 b.1 = true) ptx ptx) :
    (IsStrictWeakOrder { ptx // ptx ∈ active } (fun a b => poolLess txEnv a.1 b.1 = true) ↔
      (∀ a ∈ active, ∀ b ∈ active, isDependent txEnv a b = true →
        b.dFeePriority ≤ a.dFeePriority) ∧
      ∀ a ∈ active, ∀ b ∈ active, ∀ c ∈ active, a.dFeePriority = b.dFeePriority →
        b.dFeePriority = c.dFeePriority → isDependent txEnv a c = true →
        isDependent txEnv a b = true ∨ isDependent txEnv b c = true) ∧
      ∀ vTx, GetActiveTx txEnv active vTx →
        ∃ vPoolTx, vPoolTx.Perm active ∧ vTx = vPoolTx.map (·.tx) ∧
          BehindParents txEnv vPoolTx := by
  refine ⟨?_, ?_⟩
  · simp only [poolLess_iff]
    rw [isStrictWeakOrder_ranked_iff
      (fun a : { ptx // ptx ∈ active } => a.1.dFeePriority) hacyclic]
    simp only [Subtype.forall]
  · rintro vTx ⟨vPoolTx, hperm, hsorted, rfl⟩
    refine ⟨vPoolTx, hperm, rfl, hsorted.imp ?_⟩
    intro a b hba
    rw [Bool.eq_false_iff] at hba ⊢
    exact fun hdep => hba (poolLess_iff.mpr (.inl hdep))

def parentAndChild (parent child : Rat) : List RankedTx :=
  [{ tx := spendTx 4 [(1, 0)] [40], dFeePriority := parent },
    { tx := spendTx 6 [(4, 0)] [20], dFeePriority := child,
      mapInputs := fun hash => if hash = 4 then some (spendTx 4 [(1, 0)] [40]) else none }]

theorem parentAndChild_acyclic (parent child : Rat)
    (ptx : { ptx // ptx ∈ parentAndChild parent child }) : ¬ Relation.TransGen
      (fun a b => isDependent poolEnvSample.toTxEnv a.1 b.1 = true) ptx ptx := by
  -- a dependency goes from transaction 4 to transaction 6
  have hdep : ∀ a b : { ptx // ptx ∈ parentAndChild parent child },
      isDependent poolEnvSample.toTxEnv a.1 b.1 = true → a.1.tx.nLockTime < b.1.tx.nLockTime := by
    simp only [Subtype.forall, parentAndChild, mem_cons, not_mem_nil, or_false]
    rintro a (rfl | rfl) b (rfl | rfl) h
    · exact absurd h Bool.false_ne_true
    · exact (by decide : (4 : UInt32) < 6)
    · exact absurd h Bool.false_ne_true
    · exact absurd h Bool.false_ne_true
  intro hcycle
  have hlt : ptx.1.tx.nLockTime < ptx.1.tx.nLockTime := by
    refine Relation.TransGen.trans_induction_on (motive := fun {a b} _ =>
      a.1.tx.nLockTime < b.1.tx.nLockTime) hcycle (hdep _ _) ?_
    exact fun _ _ => UInt32.lt_trans
  exact UInt32.lt_irrefl _ hlt

theorem poolLess_strictWeak_falling :
    IsStrictWeakOrder { ptx // ptx ∈ parentAndChild 2 1 }
      (fun a b => poolLess poolEnvSample.toTxEnv a.1 b.1 = true) := by
  refine (poolLess_strictWeak_iff _ _ (parentAndChild_acyclic 2 1)).1.mpr ⟨?_, ?_⟩
  · decide
  · decide

/-- **A child that pays more than its parent** is before it and behind it. -/
theorem richer_child_both_ways :
    ∃ parent ∈ parentAndChild 1 2, ∃ child ∈ parentAndChild 1 2,
      isDependent poolEnvSample.toTxEnv parent child = true ∧
      poolLess poolEnvSample.toTxEnv parent child = true ∧
      poolLess poolEnvSample.toTxEnv child parent = true ∧
      ∀ ptx, ¬ Relation.TransGen (fun a b : { ptx // ptx ∈ parentAndChild 1 2 } =>
        isDependent poolEnvSample.toTxEnv a.1 b.1 = true) ptx ptx :=
  ⟨_, mem_cons_self, _, mem_cons_of_mem _ mem_cons_self, by decide, by decide,
    by decide, parentAndChild_acyclic 1 2⟩

end ShareCoin.Server
