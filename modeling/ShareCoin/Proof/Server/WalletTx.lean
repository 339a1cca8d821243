import ShareCoin.Server.WalletTx
import ShareCoin.Proof.Server.Evict

/-!
# Transactions that are cancelled, or added by their hash

A cancel takes the transaction out of the wallet, and marks what it spent as unspent only where it
reverts an active transaction of the pool.

The two overloads of `CWallet::AddTx` that take a hash call each other with the same hash, so a call
for a stored transaction does not return.
-/

namespace ShareCoin.Server

open List Option Function

/-! ## Cancelling -/

section

variable {env : TxEnv} {node node' : WalletNode} {tx : CTransaction}

/-- A cancel that returns true has taken the transaction out of the wallet, and from there on only
    reverting it changes the wallet: the loop over the inputs has none. -/
theorem unaccept_wallet (h : coreUnacceptWalletTransaction env node tx = some (true, node')) :
    node'.wallet = node.wallet.removeTx (env.getHash tx) ∨
      ∃ reverted wallet, findTx env node.pool.active (env.getHash tx) = some reverted ∧
        disconnectWallet env wallet reverted = some node'.wallet := by
  unfold coreUnacceptWalletTransaction at h
  dsimp only at h
  split_ifs at h
  · cases h
  · obtain ⟨node₁, h₁, heq⟩ := map_eq_some_iff.mp h
    cases heq
    obtain ⟨wallet, hwallet, rfl⟩ := map_eq_some_iff.mp h₁
    split at hwallet
    · next reverted hactive => exact .inr ⟨reverted, _, hactive, hwallet⟩
    · cases hwallet
      exact .inl rfl
  · cases h
    exact .inl rfl

/-- **A cancelled transaction is in no part of the wallet.** -/
theorem unaccept_removes (h : coreUnacceptWalletTransaction env node tx = some (true, node')) :
    ∃ wallet : CWallet, node'.wallet = wallet.removeTx (env.getHash tx) := by
  rcases unaccept_wallet h with hkept | ⟨reverted, wallet, hactive, hwallet⟩
  · exact ⟨_, hkept⟩
  · obtain ⟨wallet', -, heq⟩ := map_eq_some_iff.mp hwallet
    obtain ⟨ptx, hptx, rfl⟩ := map_eq_some_iff.mp hactive
    have hhash : env.getHash ptx.tx = env.getHash tx := by simpa using find?_some hptx
    exact ⟨wallet', by rw [← hhash, heq]⟩

/-- **What is not active in the pool is cancelled without its inputs.** -/
theorem unaccept_frees_nothing (hactive : findTx env node.pool.active (env.getHash tx) = none)
    (h : coreUnacceptWalletTransaction env node tx = some (true, node')) :
    node'.wallet = node.wallet.removeTx (env.getHash tx) := by
  refine (unaccept_wallet h).resolve_right ?_
  rintro ⟨reverted, -, hsome, -⟩
  rw [hactive] at hsome
  cases hsome

end

/-! ## Adding -/

theorem addTx_of_stored {env : TxEnv} {db : ChainDb} {hTx : Uint256}
    (h : verifyTxHash env db hTx = true) (fuel : Nat) (wallet : CWallet) :
    wallet.addTx env db hTx fuel = none := by
  obtain ⟨r, hr⟩ := isSome_iff_exists.mp h
  induction fuel with
  | zero => rfl
  | succ fuel ih =>
    rw [CWallet.addTx, hr]
    exact ih

/-- **A transaction is never added by its hash.** The call returns only for a hash that is not
    stored, with `false` and the wallet as it was. -/
theorem addTx_returns_iff (env : TxEnv) (db : ChainDb) (hTx : Uint256) (wallet : CWallet)
    (r : Bool × CWallet) : (∃ fuel, wallet.addTx env db hTx fuel = some r) ↔
      verifyTxHash env db hTx = false ∧ r = (false, wallet) := by
  cases hstored : verifyTxHash env db hTx with
  | true => simp [addTx_of_stored hstored]
  | false =>
    have hnone : getTransaction env db hTx = none := by simpa [verifyTxHash] using hstored
    constructor
    · rintro ⟨fuel, h⟩
      cases fuel with
      | zero => cases h
      | succ fuel =>
        rw [CWallet.addTx, hnone] at h
        exact ⟨rfl, (some.inj h).symm⟩
    · rintro ⟨-, rfl⟩
      exact ⟨1, by rw [CWallet.addTx, hnone]⟩

/-- A wallet with one transaction, whose output is spent. -/
def walletSample : CWallet :=
  let memory : Uint256 → Option CWalletTx := fun hash =>
    if hash = 2 then some ⟨spendTx 2 [(9, 1)] [30], [true]⟩ else none
  { mapWallet := memory
    db := fun hash => (memory hash).map CWalletTx.serialize
    arch := fun _ => none }

/-- Transaction 1 is stored, and the call with its hash does not return. -/
theorem addTx_does_not_return :
    verifyTxHash connectEnvSample.toTxEnv nodeSample.db 1 = true ∧
      ∀ fuel, walletSample.addTx connectEnvSample.toTxEnv nodeSample.db 1 fuel = none :=
  have hstored : verifyTxHash connectEnvSample.toTxEnv nodeSample.db 1 = true := rfl
  ⟨hstored, fun fuel => addTx_of_stored hstored fuel _⟩

end ShareCoin.Server
