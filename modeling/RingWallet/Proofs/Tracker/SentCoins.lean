import RingWallet.Proofs.Store.Advance
import RingWallet.Proofs.Tracker.Frame

/-!
# The coins of sent transactions

A submission takes only coins that can be spent, and every coin that it takes is spent behind it. So
a coin that some transaction on record spends is used up, which it stays, and no further submission
can take it (`CoinStore.SentSound`). In every state of a run, the transactions on record spend used-up
coins only, and no coin is spent by two of them (`sent_coins_used_once`).
-/

set_option autoImplicit false

namespace RingWallet

namespace CoinStore

/-- What holds of the sent transactions of a run: they are found by their own identifiers, their
coins are used up, and different transactions spend different coins. -/
structure SentSound (store : CoinStore) : Prop where
  keyed : store.SentKeyed
  usedUp : ∀ {txid sent}, store.sentAs? txid = some sent → ∀ id ∈ sent.2,
    ∃ coin, store.coin? id = some coin ∧ coin.status.isUsedUp = true
  apart : ∀ {first second sentFirst sentSecond}, first ≠ second →
    store.sentAs? first = some sentFirst → store.sentAs? second = some sentSecond →
    ∀ id ∈ sentFirst.2, id ∉ sentSecond.2

namespace SentSound

theorem empty : CoinStore.empty.SentSound where
  keyed h := by cases h
  usedUp h := by cases h
  apart _ h := by cases h

/-- Coins that move forward stay used up, so nothing is lost if no transaction is sent. -/
theorem of_advances {store later : CoinStore} (h : store.SentSound)
    (hadvances : store.Advances later) (hsent : later.sentAs? = store.sentAs?) :
    later.SentSound where
  keyed hfound := h.keyed (hsent ▸ hfound)
  usedUp := by
    intro txid sent hfound id hid
    rw [hsent] at hfound
    obtain ⟨coin, hcoin, hused⟩ := h.usedUp hfound id hid
    obtain ⟨after, hafter, hmoved⟩ := hadvances id coin hcoin
    exact ⟨after, hafter, CoinStatus.isUsedUp_of_reaches hmoved.status_reaches hused⟩
  apart hne hfirst hsecond := h.apart hne (hsent ▸ hfirst) (hsent ▸ hsecond)

/-- A coin that a transaction on record spends cannot be taken again. -/
theorem not_spendable {store : CoinStore} (h : store.SentSound) {txid : TxId}
    {sent : TxId × List CoinId} (hsent : store.sentAs? txid = some sent) {id : CoinId}
    (hid : id ∈ sent.2) {coin : Coin} (hcoin : store.coin? id = some coin) :
    coin.status ≠ .spendable := by
  obtain ⟨found, hfound, hused⟩ := h.usedUp hsent id hid
  rw [hcoin] at hfound
  cases hfound
  intro hspendable
  rw [hspendable] at hused
  cases hused

end SentSound

/-- What marking coins as spent does: all of them could be spent, and all of them are spent. -/
theorem markSpent_facts {ids : List CoinId} {store later : CoinStore}
    (h : store.markSpent ids = .ok later) :
    ∀ id ∈ ids, ∃ coin, store.coin? id = some coin ∧ coin.status = .spendable ∧
      later.coin? id = some { coin with status := .spent } := by
  unfold markSpent at h
  split at h
  · rename_i hcheck
    cases h
    intro id hid
    obtain ⟨coin, hcoin, hstatus⟩ := (checkSpendable_eq_ok_iff store ids).mp hcheck id hid
    refine ⟨coin, hcoin, hstatus, ?_⟩
    rw [coin?_foldl_withStatus, if_pos hid, hcoin]
    rfl
  · cases h

/-- A submission that is accepted has marked its coins and is put on record. -/
theorem recordSubmitted_facts {tx : SignedTx} {ids : List CoinId} {store later : CoinStore}
    (h : store.recordSubmitted tx ids = .ok later) :
    ∃ marked, store.markSpent ids = .ok marked ∧ (∀ id, later.coin? id = marked.coin? id) ∧
      ∀ txid, later.sentAs? txid =
        if tx.txid = txid then some (tx.txid, ids) else store.sentAs? txid := by
  unfold recordSubmitted at h
  split at h
  · rename_i marked hmarked
    cases h
    refine ⟨marked, hmarked, fun _ => rfl, fun txid => ?_⟩
    rw [sentAs?_insertPending,
      sentAs?_eq_of_pending_eq (OnlyCoins.markSpent hmarked).pending_eq]
  · cases h

/-- A submission keeps the coins of sent transactions used up and apart. -/
theorem SentSound.recordSubmitted {store later : CoinStore} (h : store.SentSound)
    {committed : List CoinRing} (hsound : LoggedStore.Sound ⟨store, committed⟩) {tx : SignedTx}
    {ids : List CoinId} (hsubmit : store.recordSubmitted tx ids = .ok later) :
    later.SentSound := by
  obtain ⟨marked, hmarked, hcoins, hsent⟩ := recordSubmitted_facts hsubmit
  have hspent := markSpent_facts hmarked
  have hforward := hsound.advances_of_history (recordSubmitted_history hsubmit)
  -- A coin of the new transaction could be spent, so no transaction on record spends it.
  have hnew : ∀ id ∈ ids, ∀ txid sent, store.sentAs? txid = some sent → id ∉ sent.2 := by
    intro id hid txid sent hfound hmem
    obtain ⟨coin, hcoin, hspendable, -⟩ := hspent id hid
    exact h.not_spendable hfound hmem hcoin hspendable
  constructor
  case keyed =>
    intro txid sent hfound
    rw [hsent] at hfound
    split at hfound
    · rename_i heq
      cases hfound
      exact heq
    · exact h.keyed hfound
  case usedUp =>
    intro txid sent hfound id hid
    rw [hsent] at hfound
    split at hfound
    · cases hfound
      obtain ⟨coin, -, -, hlater⟩ := hspent id hid
      exact ⟨_, (hcoins id).trans hlater, rfl⟩
    · -- The coins of an older transaction only move forward.
      obtain ⟨coin, hcoin, hused⟩ := h.usedUp hfound id hid
      obtain ⟨after, hafter, hmoved⟩ := hforward id coin hcoin
      exact ⟨after, hafter, CoinStatus.isUsedUp_of_reaches hmoved.status_reaches hused⟩
  case apart =>
    intro first second sentFirst sentSecond hne hfirst hsecond id hid
    rw [hsent] at hfirst hsecond
    -- The new transaction may be the first of the two, the second, or neither.
    split at hfirst
    · split at hsecond
      · rename_i heqFirst heqSecond
        exact absurd (heqFirst.symm.trans heqSecond) hne
      · cases hfirst
        exact hnew id hid second sentSecond hsecond
    · split at hsecond
      · cases hsecond
        exact fun hmem => hnew id hmem first sentFirst hfirst hid
      · exact h.apart hne hfirst hsecond id hid

end CoinStore

namespace Wallet

variable {σ : Type}

/-- One operation, whether it succeeds or fails, keeps the coins of sent transactions used up and
apart. -/
theorem perform_sentSound {wallet : Wallet σ} {committed : List CoinRing}
    (h : LoggedStore.Sound ⟨wallet.store, committed⟩) (hsent : wallet.store.SentSound)
    (op : Operation σ) : (wallet.perform op).store.SentSound := by
  by_cases hop : ∃ tx ids, op = .recordSubmitted tx ids
  · obtain ⟨tx, ids, rfl⟩ := hop
    change (outcome (TrackM.tryStore (CoinStore.recordSubmitted tx ids))
      ⟨wallet.store, wallet.outside⟩).2.store.SentSound
    rw [TrackM.outcome_tryStore]
    cases hsubmit : wallet.store.recordSubmitted tx ids with
    | error e => exact hsent
    | ok later => exact hsent.recordSubmitted h hsubmit
  · -- Nothing else changes what is on record.
    have hleaves := op.leaves_sentAs? wallet.tracker fun tx ids heq => hop ⟨tx, ids, heq⟩
    exact hsent.of_advances (h.advances_of_history (perform_history h op))
      (hleaves ⟨wallet.store, wallet.outside⟩)

theorem run_sentSound_of {wallet : Wallet σ} {committed : List CoinRing}
    (h : LoggedStore.Sound ⟨wallet.store, committed⟩) (hsent : wallet.store.SentSound)
    (ops : List (Operation σ)) : (wallet.run ops).store.SentSound := by
  induction ops generalizing wallet committed with
  | nil => exact hsent
  | cons op rest ih =>
    have hsound := h.of_history (perform_history h op)
    exact ih hsound (perform_sentSound h hsent op)

/-- In every state of a run, the coins of sent transactions are used up and apart. -/
theorem run_sentSound (params : ChainParams) (outside : σ) (ops : List (Operation σ)) :
    ((start params outside).run ops).store.SentSound := by
  have hempty : LoggedStore.Sound ⟨(start params outside).store, []⟩ := .empty
  exact run_sentSound_of hempty .empty ops

/-- In every state of a run, every coin that a transaction on record spends is stored and spent,
confirmed or invalid, and no coin is spent by two transactions on record with different
identifiers. -/
theorem sent_coins_used_once (params : ChainParams) (outside : σ) (ops : List (Operation σ)) :
    (∀ tx ∈ ((start params outside).run ops).store.pending.values, ∀ id ∈ tx.coins,
      ∃ coin, ((start params outside).run ops).store.coin? id = some coin ∧
        (coin.status = .spent ∨ coin.status = .confirmed ∨ coin.status = .invalid)) ∧
    ∀ first ∈ ((start params outside).run ops).store.pending.values,
      ∀ second ∈ ((start params outside).run ops).store.pending.values,
        first.txid ≠ second.txid → ∀ id ∈ first.coins, id ∉ second.coins := by
  have hsent := run_sentSound params outside ops
  have hrecord : ∀ tx ∈ ((start params outside).run ops).store.pending.values,
      ((start params outside).run ops).store.sentAs? tx.txid = some (tx.txid, tx.coins) := by
    intro tx htx
    obtain ⟨txid, hget⟩ := (OrderedMap.mem_values_iff _ tx).mp htx
    have hfound : ((start params outside).run ops).store.sentAs? txid =
        some (tx.txid, tx.coins) := by
      unfold CoinStore.sentAs?
      rw [hget]
      rfl
    have hkey : tx.txid = txid := hsent.keyed hfound
    rw [← hkey] at hfound
    exact hfound
  constructor
  · intro tx htx id hid
    obtain ⟨coin, hcoin, hused⟩ := hsent.usedUp (hrecord tx htx) id hid
    refine ⟨coin, hcoin, ?_⟩
    revert hused
    cases coin.status <;> decide
  · intro first hfirst second hsecond hne
    exact hsent.apart hne (hrecord first hfirst) (hrecord second hsecond)

/-- The small run goes on with two submissions: one takes the only coin, the other takes none. -/
theorem small_run_sent_coins_used_once :
    let ops := SmallRun.whole ++
      [.recordSubmitted ⟨[1], .zero .transaction⟩ [SmallRun.coinName],
        .recordSubmitted ⟨[2], ⟨.replicate 32 1⟩⟩ []]
    let store := ((start SmallRun.params ()).run ops).store
    let first : PendingTx := ⟨.zero .transaction, [1], [SmallRun.coinName], .pending, none⟩
    let second : PendingTx := ⟨⟨.replicate 32 1⟩, [2], [], .pending, none⟩
    store.pending.values = [first, second] ∧
      (∃ coin, store.coin? SmallRun.coinName = some coin ∧
        (coin.status = .spent ∨ coin.status = .confirmed ∨ coin.status = .invalid)) ∧
      SmallRun.coinName ∉ second.coins := by
  intro ops store first second
  have hvalues : store.pending.values = [first, second] := by decide +kernel
  have hfirst : first ∈ store.pending.values := by
    rw [hvalues]
    exact List.mem_cons_self
  have hsecond : second ∈ store.pending.values := by
    rw [hvalues]
    exact List.mem_cons_of_mem _ List.mem_cons_self
  obtain ⟨hused, hapart⟩ := sent_coins_used_once SmallRun.params () ops
  exact ⟨hvalues, hused first hfirst SmallRun.coinName List.mem_cons_self,
    hapart first hfirst second hsecond (by decide) SmallRun.coinName List.mem_cons_self⟩

end Wallet

end RingWallet
