import RingWallet.Proofs.Tracker.Keeps
import RingWallet.Proofs.Tracker.Run

/-!
# Spends that are seen

A transaction shows the serial number of a stored coin. If the coin is beyond waiting, it is at its
end behind that transaction and can never be spent again. If the coin still waits for its depth, the
input is passed over, and the coin is offered as soon as a processed block makes it deep enough.

`seen_spend_kept_iff` says for every run exactly when a seen spend is kept: the coin was beyond
waiting when its serial number was shown, or no processed block of the run from there on makes it
deep enough.
-/

set_option autoImplicit false

namespace RingWallet

variable {σ : Type}

/-! ## One block -/

namespace Tracker

variable (tracker : Tracker) (provider : Provider σ) (source : BlockSource σ)

/-- A linked coin that waits is changed by the last step of a block only: it ripens if the block is
processed. -/
theorem processBlock_of_waiting {state : TrackState σ} {committed : List CoinRing}
    (hsound : LoggedStore.Sound ⟨state.store, committed⟩) {id : CoinId} {coin : Coin}
    (hcoin : state.store.coin? id = some coin) (hstatus : coin.status = .immature)
    (hlinked : coin.ringId? ≠ none) (block : ChainBlock) :
    (outcome (tracker.processBlock provider source block) state).2.store.coin? id =
      some (if (outcome (tracker.processBlock provider source block) state).1.isOk then
        coin.ripened tracker.params block.height else coin) := by
  have hkept := untilMaturity_keeps tracker provider source hstatus hlinked id block
    state committed hsound hcoin
  have hhistory := untilMaturity_commits tracker provider source block state committed hsound
  rw [store_processBlock]
  dsimp only
  split
  · rw [CoinStore.coin?_matureAt tracker.params block.height (hsound.of_history hhistory), hkept]
    rfl
  · exact hkept

/-- A coin beyond waiting is at its end behind the transactions of a block if one of them, other
than the coinbase, shows its serial number. -/
theorem isTerminal_of_processTxs {blockHash : BlockHash} {height : UInt64} {isCoinbase : Bool}
    {txs : List ChainTx} {state after : TrackState σ} {result : List CoinId × SpendReport}
    (hrun : outcome (tracker.processTxs provider blockHash height isCoinbase txs) state =
      (.ok result, after))
    {committed : List CoinRing} (hsound : LoggedStore.Sound ⟨state.store, committed⟩)
    {id : CoinId} {coin : Coin} (hcoin : state.store.coin? id = some coin)
    (hstatus : coin.status ≠ .immature) {tx : ChainTx}
    (htx : tx ∈ txs.drop (if isCoinbase then 1 else 0)) {input : ChainInput}
    (hinput : input ∈ tx.inputs) (hshown : coin.serialNumber? = some input.serialNumber) :
    ∃ later, after.store.coin? id = some later ∧ later.status.isTerminal = true := by
  -- Inputs in front of the transaction may end the coin already; they never make it wait again.
  induction txs generalizing isCoinbase state result coin with
  | nil =>
    rw [List.drop_nil] at htx
    cases htx
  | cons first rest ih =>
    obtain ⟨between, others, hrest, hbetween, hview⟩ :=
      processTxs_cons_facts tracker provider hrun hsound
    have hcoinBetween := hview id coin hcoin
    cases isCoinbase with
    | true => exact ih hrest hbetween hcoinBetween hstatus htx hshown
    | false =>
      rcases List.mem_cons.mp htx with rfl | hmem
      · -- The coin is at its end behind this transaction, and stays there.
        have hend := Coin.isTerminal_seenBy hinput hshown hstatus
        have hforward :=
          (processTxs_commits tracker provider blockHash height false rest).advances hbetween
        rw [hrest] at hforward
        exact hforward.exists_isTerminal hcoinBetween hend
      · refine ih hrest hbetween hcoinBetween
          (Coin.ne_immature_seenBy first.inputs hstatus) hmem ?_
        exact (Coin.serialNumber?_seenBy coin first.inputs).trans hshown

/-- A coin beyond waiting is at its end behind a processed block that shows its serial number. -/
theorem isTerminal_of_processBlock {state : TrackState σ} {committed : List CoinRing}
    (hsound : LoggedStore.Sound ⟨state.store, committed⟩) {block : ChainBlock}
    (hprocessed : (outcome (tracker.processBlock provider source block) state).1.isOk = true)
    {id : CoinId} {coin : Coin} (hcoin : state.store.coin? id = some coin)
    (hstatus : coin.status ≠ .immature) {tx : ChainTx} (htx : tx ∈ block.txs.drop 1)
    {input : ChainInput} (hinput : input ∈ tx.inputs)
    (hshown : coin.serialNumber? = some input.serialNumber) :
    ∃ later, (outcome (tracker.processBlock provider source block) state).2.store.coin? id =
      some later ∧ later.status.isTerminal = true := by
  have hhistory := processTxs_commits tracker provider block.hash block.height true block.txs state
    committed hsound
  unfold processBlock at hprocessed ⊢
  rcases htxs : outcome (tracker.processTxs provider block.hash block.height true block.txs) state
    with ⟨_ | found, between⟩
  · rw [outcome_bind_of_error htxs] at hprocessed
    cases hprocessed
  · obtain ⟨behind, hbehind, hend⟩ :=
      isTerminal_of_processTxs tracker provider htxs hsound hcoin hstatus htx hinput hshown
    rw [htxs, List.append_nil] at hhistory
    rw [outcome_bind_of_ok htxs]
    have hrest : TrackM.Commits (do
        let confirmedTxs ← TrackM.onStore (CoinStore.trackPending block)
        let maturity ← tracker.handleMaturity provider source block.height
        return (⟨block.height, found.1, found.2, maturity, confirmedTxs⟩ : BlockReport)) _ :=
      .bind_right (.onStore fun _ => CoinStore.trackPending_history block _) fun _ =>
        (handleMaturity_commits tracker provider source block.height).bind_left fun _ => .pure _
    exact (hrest.advances (hsound.of_history hhistory)).exists_isTerminal hbehind hend

end Tracker

/-! ## Runs of blocks -/

/-- The coin is counted as something that can be spent: its status says so, or an account's balance
includes it. -/
def CoinStore.Offers (store : CoinStore) (id : CoinId) : Prop :=
  (∃ coin, store.coin? id = some coin ∧ coin.status = .spendable) ∨
    ∃ account, ∃ coin ∈ store.spendableCoins account, coin.id = id

/-- A balance includes nothing but coins whose status says that they can be spent. -/
theorem LoggedStore.Sound.offers_iff {store : CoinStore} {committed : List CoinRing}
    (h : LoggedStore.Sound ⟨store, committed⟩) (id : CoinId) :
    store.Offers id ↔ ∃ coin, store.coin? id = some coin ∧ coin.status = .spendable := by
  constructor
  · rintro (hcoin | ⟨account, coin, hmem, rfl⟩)
    · exact hcoin
    · unfold CoinStore.spendableCoins CoinStore.byAccount at hmem
      obtain ⟨hvalue, hkind⟩ := List.mem_filter.mp hmem
      refine ⟨coin, CoinStore.coin?_of_mem_values h hvalue, ?_⟩
      simpa using (Bool.and_eq_true_iff.mp hkind).2
  · exact .inl

/-- A coin at its end is not offered. -/
theorem LoggedStore.Sound.not_offers_of_isTerminal {store : CoinStore} {committed : List CoinRing}
    (h : LoggedStore.Sound ⟨store, committed⟩) {id : CoinId} {coin : Coin}
    (hcoin : store.coin? id = some coin) (hend : coin.status.isTerminal = true) :
    ¬ store.Offers id := by
  rw [h.offers_iff]
  rintro ⟨found, hfound, hspendable⟩
  rw [hcoin] at hfound
  cases hfound
  rw [hspendable] at hend
  cases hend

/-- What became of one block of a run. -/
structure Processed (σ : Type) where
  block : ChainBlock
  /-- Whether the block was processed without a failure. -/
  succeeded : Bool
  /-- The wallet behind the block. -/
  after : Wallet σ

namespace Wallet

/-- Blocks processed one after the other. -/
def trace (provider : Provider σ) (source : BlockSource σ) :
    List ChainBlock → Wallet σ → List (Processed σ)
  | [], _ => []
  | block :: rest, wallet =>
    let succeeded := (outcome (wallet.tracker.processBlock provider source block)
      ⟨wallet.store, wallet.outside⟩).1.isOk
    let after := wallet.perform (.processBlock provider source block)
    ⟨block, succeeded, after⟩ :: trace provider source rest after

variable {provider : Provider σ} {source : BlockSource σ} {wallet : Wallet σ}
  {committed : List CoinRing} {id : CoinId} {coin : Coin}

/-- A linked coin that waits is offered exactly if it is a coinbase coin that became deep enough. -/
theorem ripened_of_waiting {params : ChainParams} {height : UInt64} (hlink : coin.Link committed)
    (hstatus : coin.status = .immature) (hlinked : coin.ringId? ≠ none) :
    coin.ripened params height =
      if params.isDeep coin.height height then { coin with status := .spendable } else coin := by
  have hresolved : coin.isResolved = true := hlink.isResolved_iff.mpr hlinked
  have hcoinbase : coin.isCoinbase = true := by
    cases hlink with
    | unlinked hringId => exact absurd hringId hlinked
    | linked _ _ _ _ _ _ hwaits => exact hwaits hstatus
  simp [Coin.ripened, hstatus, hcoinbase, hresolved]

/-- One block behind which a linked coin that waits is offered, or still waits as it was. -/
theorem waiting_coin_step (provider : Provider σ) (source : BlockSource σ)
    (h : LoggedStore.Sound ⟨wallet.store, committed⟩)
    (hcoin : wallet.store.coin? id = some coin) (hstatus : coin.status = .immature)
    (hlinked : coin.ringId? ≠ none) (block : ChainBlock) :
    (wallet.perform (.processBlock provider source block)).store.coin? id =
      some (if (outcome (wallet.tracker.processBlock provider source block)
          ⟨wallet.store, wallet.outside⟩).1.isOk = true ∧
          wallet.tracker.params.isDeep coin.height block.height = true then
        { coin with status := .spendable } else coin) := by
  rw [store_perform_processBlock, Tracker.processBlock_of_waiting wallet.tracker provider source h
    hcoin hstatus hlinked block, ripened_of_waiting (h.link hcoin) hstatus hlinked]
  by_cases hok : (outcome (wallet.tracker.processBlock provider source block)
    ⟨wallet.store, wallet.outside⟩).1.isOk = true
  · simp only [hok, if_true, true_and]
  · simp [hok]

/-- Along a run of blocks, a linked coin that waits is offered behind some block exactly if some
processed block makes it deep enough. -/
theorem waiting_coin_kept_iff (provider : Provider σ) (source : BlockSource σ)
    (h : LoggedStore.Sound ⟨wallet.store, committed⟩)
    (hcoin : wallet.store.coin? id = some coin) (hstatus : coin.status = .immature)
    (hlinked : coin.ringId? ≠ none) (blocks : List ChainBlock) :
    (∀ step ∈ trace provider source blocks wallet, ¬ step.after.store.Offers id) ↔
      ∀ step ∈ trace provider source blocks wallet, step.succeeded = true →
        wallet.tracker.params.isDeep coin.height step.block.height = false := by
  induction blocks generalizing wallet committed with
  | nil => simp [trace]
  | cons block rest ih =>
    have hafter := waiting_coin_step provider source h hcoin hstatus
      hlinked block
    have hsound := h.of_history (perform_history h (.processBlock provider source block))
    rw [trace, List.forall_mem_cons, List.forall_mem_cons]
    split at hafter
    · -- The block makes the coin deep enough, and both sides fail here.
      rename_i hripe
      obtain ⟨hok, hdeep⟩ := hripe
      constructor
      · rintro ⟨hnot, -⟩
        exact absurd ((hsound.offers_iff id).mpr ⟨_, hafter, rfl⟩) hnot
      · rintro ⟨hnot, -⟩
        rw [hnot hok] at hdeep
        cases hdeep
    · -- The coin is as it was, so the rest of the run decides.
      rename_i hunripe
      have hrest := ih hsound hafter
      have hnotOffered :
          ¬ (wallet.perform (.processBlock provider source block)).store.Offers id := by
        rw [hsound.offers_iff]
        rintro ⟨found, hfound, hspendable⟩
        rw [hafter] at hfound
        cases hfound
        rw [hstatus] at hspendable
        cases hspendable
      constructor
      · rintro ⟨-, hkept⟩
        refine ⟨fun hok => ?_, hrest.mp hkept⟩
        rw [Bool.eq_false_iff]
        exact fun hdeep => hunripe ⟨hok, hdeep⟩
      · rintro ⟨-, hshallow⟩
        exact ⟨hnotOffered, hrest.mpr hshallow⟩

/-- A coin at its end is never offered again. -/
theorem ended_coin_kept (h : LoggedStore.Sound ⟨wallet.store, committed⟩)
    (hcoin : wallet.store.coin? id = some coin) (hend : coin.status.isTerminal = true)
    (blocks : List ChainBlock) :
    ∀ step ∈ trace provider source blocks wallet, ¬ step.after.store.Offers id := by
  induction blocks generalizing wallet committed coin with
  | nil => exact fun step hmem => nomatch hmem
  | cons block rest ih =>
    have hhistory := perform_history h (.processBlock provider source block)
    have hsound := h.of_history hhistory
    obtain ⟨after, hafter, hafterEnd⟩ :=
      (h.advances_of_history hhistory).exists_isTerminal hcoin hend
    rw [trace, List.forall_mem_cons]
    exact ⟨hsound.not_offers_of_isTerminal hafter hafterEnd, ih hsound hafter hafterEnd⟩

/-- A stored coin's serial number is shown by a transaction, other than the coinbase, of a block
that is processed. Then the coin is not offered behind that block and behind any later one exactly
if it was beyond waiting when the block came, or no processed block from there on makes it deep
enough. -/
theorem seen_spend_kept_iff (params : ChainParams) (outside : σ) (before : List (Operation σ))
    (provider : Provider σ) (source : BlockSource σ) (block : ChainBlock) (later : List ChainBlock)
    {id : CoinId} {coin : Coin} {tx : ChainTx} {input : ChainInput}
    (hcoin : ((start params outside).run before).store.coin? id = some coin)
    (hprocessed : (outcome (((start params outside).run before).tracker.processBlock provider source
      block) ⟨((start params outside).run before).store,
        ((start params outside).run before).outside⟩).1.isOk = true)
    (htx : tx ∈ block.txs.drop 1) (hinput : input ∈ tx.inputs)
    (hshown : coin.serialNumber? = some input.serialNumber) :
    (∀ step ∈ trace provider source (block :: later) ((start params outside).run before),
        ¬ step.after.store.Offers id) ↔
      coin.status ≠ .immature ∨
        ∀ step ∈ trace provider source (block :: later) ((start params outside).run before),
          step.succeeded = true → params.isDeep coin.height step.block.height = false := by
  have hsound := run_sound params outside before
  have hparams : ((start params outside).run before).tracker.params = params := params_run _ before
  by_cases hstatus : coin.status = .immature
  · -- A waiting coin whose serial number can be shown is linked, so only its depth decides.
    have hlinked : coin.ringId? ≠ none := by
      intro hnone
      rw [(hsound.link hcoin).serialNumber_eq_none_iff.mpr hnone] at hshown
      cases hshown
    have hkept := waiting_coin_kept_iff provider source hsound hcoin
      hstatus hlinked (block :: later)
    rw [hparams] at hkept
    rw [hkept]
    exact ⟨.inr, fun h => h.resolve_left fun hne => hne hstatus⟩
  · refine ⟨fun _ => .inl hstatus, fun _ => ?_⟩
    obtain ⟨after, hafter, hend⟩ := Tracker.isTerminal_of_processBlock _ provider source hsound
      hprocessed hcoin hstatus htx hinput hshown
    rw [← store_perform_processBlock] at hafter
    have hhistory := perform_history hsound (.processBlock provider source block)
    have hsoundAfter := hsound.of_history hhistory
    rw [trace, List.forall_mem_cons]
    exact ⟨hsoundAfter.not_offers_of_isTerminal hafter hend,
      ended_coin_kept hsoundAfter hafter hend later⟩

/-- In the small run the coin still waits when its serial number is shown, and the same block makes
it deep enough. -/
theorem small_run_seen_spend_not_kept :
    ((start SmallRun.params ()).run SmallRun.receiving).store.coin? SmallRun.coinName =
        some SmallRun.coin ∧
      ¬ ∀ step ∈ trace SmallRun.provider SmallRun.source [SmallRun.spending]
          ((start SmallRun.params ()).run SmallRun.receiving),
        ¬ step.after.store.Offers SmallRun.coinName := by
  refine ⟨SmallRun.coin?_receiving, ?_⟩
  have hprocessed : (outcome (((start SmallRun.params ()).run
      SmallRun.receiving).tracker.processBlock SmallRun.provider SmallRun.source SmallRun.spending)
      ⟨((start SmallRun.params ()).run SmallRun.receiving).store,
        ((start SmallRun.params ()).run SmallRun.receiving).outside⟩).1.isOk = true := by
    decide +kernel
  rw [seen_spend_kept_iff SmallRun.params () SmallRun.receiving SmallRun.provider SmallRun.source
    SmallRun.spending [] SmallRun.coin?_receiving hprocessed List.mem_cons_self List.mem_cons_self
    rfl]
  rintro (hne | hshallow)
  · exact hne rfl
  · revert hshallow
    decide +kernel

/-- With a provider and a source that never fail, a spend can be seen and the coin be offered all
the same. -/
theorem not_every_seen_spend_kept :
    ¬ ∀ (params : ChainParams) (before : List (Operation Unit)) (block : ChainBlock)
      (later : List ChainBlock) (id : CoinId) (coin : Coin) (tx : ChainTx) (input : ChainInput),
      ((start params ()).run before).store.coin? id = some coin →
      (outcome (((start params ()).run before).tracker.processBlock SmallRun.provider
        SmallRun.source block) ⟨((start params ()).run before).store,
          ((start params ()).run before).outside⟩).1.isOk = true →
      tx ∈ block.txs.drop 1 → input ∈ tx.inputs →
      coin.serialNumber? = some input.serialNumber →
      ∀ step ∈ trace SmallRun.provider SmallRun.source (block :: later)
          ((start params ()).run before),
        ¬ step.after.store.Offers id := by
  intro h
  have hnot := h SmallRun.params SmallRun.receiving SmallRun.spending [] SmallRun.coinName
    SmallRun.coin _ _ SmallRun.coin?_receiving (by decide +kernel) List.mem_cons_self
    List.mem_cons_self rfl _ List.mem_cons_self
  have hspendable : ((start SmallRun.params ()).run SmallRun.whole).store.coin? SmallRun.coinName =
      some { SmallRun.coin with status := .spendable } := by decide +kernel
  exact hnot (.inl ⟨_, hspendable, rfl⟩)

end Wallet

end RingWallet
