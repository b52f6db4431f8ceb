import Mathlib.Algebra.Group.Nat.Defs
import RingWallet.Proofs.Tracker.Run
import RingWallet.Proofs.Transaction.Balance

/-!
# Balances

The coins that an account can spend are listed each once (`CoinStore.ListsSpendable`). A balance
adds their values up in words. Unlike the totals of a plan it has no error for a sum that does not
fit a word: the wallet stops at the addition that leaves it.

`balance_exact_iff` says for every run that a balance that is answered is the exact sum, and that
the wallet stops exactly if the sum does not fit a word. Nothing in a run keeps it from not fitting
(`not_every_balance_exact`).
-/

set_option autoImplicit false

namespace RingWallet

variable {σ : Type}

namespace CoinStore

/-- The list holds the coins of an account that can be spent, each once. -/
structure ListsSpendable (store : CoinStore) (account : AccountId) (coins : List Coin) : Prop where
  nodup : coins.Nodup
  mem_iff : ∀ coin, coin ∈ coins ↔
    store.coin? coin.id = some coin ∧ coin.account = account ∧ coin.status = .spendable

/-- A balance is answered exactly if it is the sum of the values. -/
theorem balance_eq_ok_iff {store : CoinStore} {account : AccountId} {amount : UInt64} :
    store.balance account = .ok amount ↔
      total ((store.spendableCoins account).map (·.value)) = amount.toNat := by
  rw [← foldlM_checkedAdd_zero_eq_some_iff, balance]
  cases ((store.spendableCoins account).map (·.value)).foldlM checkedAdd 0 <;> simp

/-- The wallet stops exactly where the sum of the values does not fit a word. -/
theorem balance_eq_overflow_iff {store : CoinStore} {account : AccountId} :
    store.balance account = .error .overflow ↔
      UInt64.size ≤ total ((store.spendableCoins account).map (·.value)) := by
  rw [← foldlM_checkedAdd_zero_eq_none_iff, balance]
  cases ((store.spendableCoins account).map (·.value)).foldlM checkedAdd 0 <;> simp

end CoinStore

/-- In a sound store, the coins that count for a balance are those of the account that can be
spent. -/
theorem LoggedStore.Sound.listsSpendable {store : CoinStore} {committed : List CoinRing}
    (h : LoggedStore.Sound ⟨store, committed⟩) (account : AccountId) :
    store.ListsSpendable account (store.spendableCoins account) where
  nodup := by
    have hids := CoinStore.nodup_map_id_values h
    exact hids.of_map.filter _
  mem_iff coin := by
    unfold CoinStore.spendableCoins CoinStore.byAccount
    rw [List.mem_filter]
    constructor
    · rintro ⟨hvalue, hkind⟩
      exact ⟨CoinStore.coin?_of_mem_values h hvalue, by simpa using hkind⟩
    · rintro ⟨hcoin, hkind⟩
      exact ⟨(OrderedMap.mem_values_iff _ _).mpr ⟨coin.id, hcoin⟩, by simpa using hkind⟩

namespace Wallet

/-- In every state of a run, whatever the provider and the source answer: the balance of an account
that is answered is the exact sum of the values of its coins that can be spent, and none is answered
exactly if that sum does not fit a word. The wallet stops then. -/
theorem balance_exact_iff (params : ChainParams) (outside : σ) (ops : List (Operation σ))
    (account : AccountId) :
    let store := ((start params outside).run ops).store
    ∃ coins, store.ListsSpendable account coins ∧
      let sum := total (coins.map (·.value))
      (∀ amount, store.balance account = .ok amount ↔ sum = amount.toNat) ∧
        (store.balance account = .error .overflow ↔ 2 ^ 64 ≤ sum) := by
  intro store
  have hlists := (run_sound params outside ops).listsSpendable account
  exact ⟨store.spendableCoins account, hlists, fun _ => CoinStore.balance_eq_ok_iff,
    CoinStore.balance_eq_overflow_iff⟩

end Wallet

/-! ## A run with too much to spend -/

namespace LargeRun

/-- Half of the least sum that does not fit a word. -/
def half : UInt64 := 9223372036854775808

/-- The ring of the two coins. -/
def ring : CoinRing where
  version := CoinRing.currentVersion
  firstHeight := 0
  blockHashes := []
  members := [(⟨.zero .transaction, 0⟩, []), (⟨.zero .transaction, 1⟩, [])]
  isCoinbase := false
  members_pos := by decide
  members_le := by decide
  blocks_le := Nat.zero_le _
  outputs_lt := by decide

/-- A provider that takes every output for one of the account's, worth one half, and that knows the
ring of the two coins. -/
def provider : Provider Unit :=
  { SmallRun.provider with
    valueByRoot := fun _ _ _ _ => return some half
    serialNumbers := fun coins _ _ => return coins.map fun coin => [coin.index]
    buildRings := fun _ => return [ring] }

/-- A block with a transaction of two outputs, behind an empty coinbase. -/
def paying : ChainBlock :=
  ⟨0, .zero .block, none, [⟨.zero .transaction, 1, [], []⟩, ⟨.zero .transaction, 1, [], [[], []]⟩]⟩

/-- Watching the account and receiving both coins. -/
def receiving : List (Operation Unit) :=
  [.register ⟨0⟩ SmallRun.account, .processBlock provider SmallRun.source paying]

end LargeRun

/-- Two coins worth one half each can both be spent, and asking for the balance stops the wallet. -/
theorem Wallet.not_every_balance_exact :
    ¬ ∀ (params : ChainParams) (ops : List (Operation Unit)) (account : AccountId)
        (coins : List Coin),
      let store := ((start params ()).run ops).store
      store.ListsSpendable account coins →
        store.balance account ≠ .error .overflow ∧
          ∀ amount, store.balance account = .ok amount →
            total (coins.map (·.value)) = amount.toNat := by
  intro h
  have hsound := run_sound SmallRun.params () LargeRun.receiving
  obtain ⟨hanswered, -⟩ := h SmallRun.params LargeRun.receiving ⟨0⟩ _ (hsound.listsSpendable ⟨0⟩)
  -- The sum of the two values is the least number that does not fit a word.
  exact hanswered (by decide +kernel)

end RingWallet
