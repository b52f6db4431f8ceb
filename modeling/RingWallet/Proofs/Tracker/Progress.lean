import RingWallet.Proofs.Store.Advance
import RingWallet.Proofs.Tracker.Run

/-!
# Coins only move forward

A run of a wallet, whatever is asked of it and whatever it is told, never loses a coin, never
changes what a coin is, never changes a ring, a place or a serial number that is known, and moves
the status along the steps of a coin's life only. Every operation is a history of single changes,
and each single change moves coins forward (`LoggedStore.Sound.advances_of_change`).
-/

set_option autoImplicit false

namespace RingWallet.Wallet

variable {σ : Type}

/-- Operations only move the coins of a sound store forward. -/
theorem advances_run {wallet : Wallet σ} {committed : List CoinRing}
    (h : LoggedStore.Sound ⟨wallet.store, committed⟩) (ops : List (Operation σ)) :
    wallet.store.Advances (wallet.run ops).store :=
  h.advances_of_history (run_history h ops)

/-- A coin of a run is still there after any further operations, the same coin in a later state. A
status that ends a coin's life stays, and a coin that is spent does not become spendable again. -/
theorem coin_moves_forward (params : ChainParams) (outside : σ) (before later : List (Operation σ))
    {id : CoinId} {coin : Coin}
    (hcoin : ((start params outside).run before).store.coin? id = some coin) :
    ∃ after, ((start params outside).run (before ++ later)).store.coin? id = some after ∧
      coin.Advances after ∧
      (coin.status.isTerminal = true → after.status = coin.status) ∧
      (coin.status = .spent → after.status ≠ .spendable) := by
  have hforward := advances_run (run_sound params outside before) later
  obtain ⟨after, hafter, hadvances⟩ := hforward id coin hcoin
  refine ⟨after, ?_, hadvances, fun hend => ?_, fun hspent => ?_⟩
  · rw [run_append]
    exact hafter
  · exact CoinStatus.eq_of_reaches_of_isTerminal hadvances.status_reaches hend
  · intro hspendable
    have hreaches := hadvances.status_reaches
    rw [hspent] at hreaches
    exact CoinStatus.ne_spendable_of_spent_reaches hreaches hspendable

/-- The only coin of the small run, before and behind the block that shows its serial number. -/
theorem small_run_coin_moves_forward :
    ((start SmallRun.params ()).run SmallRun.receiving).store.coin? SmallRun.coinName =
        some SmallRun.coin ∧
      ∃ after, ((start SmallRun.params ()).run SmallRun.whole).store.coin? SmallRun.coinName =
          some after ∧
        SmallRun.coin.Advances after := by
  obtain ⟨after, hafter, hadvances, -⟩ := coin_moves_forward SmallRun.params () SmallRun.receiving
    [.processBlock SmallRun.provider SmallRun.source SmallRun.spending] SmallRun.coin?_receiving
  exact ⟨SmallRun.coin?_receiving, after, hafter, hadvances⟩

end RingWallet.Wallet
