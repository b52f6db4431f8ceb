import RingWallet.Proofs.Store.Advance
import RingWallet.Proofs.Store.Effect
import RingWallet.Proofs.Tracker.Effects

/-!
# What leaves a coin alone

Scanning never replaces a stored coin, the inputs of a transaction pass over a coin that still
waits, and the end of a window passes over a coin that knows its ring (`TrackM.Keeps`). Only maturity
is left to change a linked coin that waits.
-/

set_option autoImplicit false

namespace RingWallet

variable {σ α β : Type}

namespace TrackM

/-- The operation leaves a coin of a sound store as it is. -/
def Keeps (op : TrackM σ α) (id : CoinId) (coin : Coin) : Prop :=
  ∀ state committed, LoggedStore.Sound ⟨state.store, committed⟩ →
    state.store.coin? id = some coin → (outcome op state).2.store.coin? id = some coin

namespace Keeps

variable {id : CoinId} {coin : Coin}

theorem bind {op : TrackM σ α} {next : α → TrackM σ β} {rings : TrackState σ → List CoinRing}
    (hop : op.Keeps id coin) (hcommits : op.Commits rings) (hnext : ∀ a, (next a).Keeps id coin) :
    TrackM.Keeps (op >>= next) id coin := by
  intro state committed hsound hcoin
  have hafter := hop state committed hsound hcoin
  have hhistory := hcommits state committed hsound
  rcases hrun : outcome op state with ⟨result, after⟩
  rw [hrun] at hafter hhistory
  cases result with
  | error e =>
    rw [outcome_bind_of_error hrun]
    exact hafter
  | ok a =>
    rw [outcome_bind_of_ok hrun]
    exact hnext a after _ (hsound.of_history hhistory) hafter

theorem of_same_store {op : TrackM σ α} (h : ∀ state, (outcome op state).2.store = state.store) :
    op.Keeps id coin := by
  intro state committed _ hcoin
  rw [h]
  exact hcoin

theorem onStore {change : CoinStore → α × CoinStore}
    (h : ∀ {store committed}, LoggedStore.Sound ⟨store, committed⟩ →
      store.coin? id = some coin → (change store).2.coin? id = some coin) :
    (TrackM.onStore change : TrackM σ α).Keeps id coin :=
  fun _ _ hsound hcoin => h hsound hcoin

end Keeps

/-- An operation that commits rings only moves the coins of a sound store forward. -/
theorem Commits.advances {op : TrackM σ α} {rings : TrackState σ → List CoinRing}
    (h : op.Commits rings) {state : TrackState σ} {committed : List CoinRing}
    (hsound : LoggedStore.Sound ⟨state.store, committed⟩) :
    state.store.Advances (outcome op state).2.store :=
  hsound.advances_of_history (h state committed hsound)

end TrackM

namespace Tracker

variable (tracker : Tracker) (provider : Provider σ) (source : BlockSource σ)

theorem scanOutputs_keeps (tx : ChainTx) (isCoinbase : Bool) (blockHash : BlockHash)
    (height : UInt64) (index : Nat) (outputs : List Bytes) (id : CoinId) (coin : Coin) :
    (tracker.scanOutputs provider tx isCoinbase blockHash height index outputs).Keeps id coin := by
  induction outputs generalizing index with
  | nil => exact .of_same_store fun _ => rfl
  | cons output rest ih =>
    by_cases hindex : index < 256
    · rw [scanOutputs_cons tracker provider tx isCoinbase blockHash height hindex]
      refine .bind (.of_same_store fun _ => rfl) (.outside _) fun owner? => ?_
      refine .bind (.onStore fun _ hcoin => CoinStore.coin?_record _ owner? hcoin)
        (.onStore fun _ => ?_) fun isNew => ?_
      · exact CoinStore.record_history
          (receivedCoin_isFresh tx isCoinbase blockHash height index output) owner? _
      · exact .bind (ih (index + 1)) (scanOutputs_commits tracker provider tx isCoinbase blockHash
          height (index + 1) rest) fun _ => .of_same_store fun _ => rfl
    · rw [scanOutputs_cons_of_ge tracker provider tx isCoinbase blockHash height hindex]
      exact .of_same_store fun _ => rfl

/-- What a transaction in front of others does: the state between is sound, and the inputs of the
transaction, if it is no coinbase, are all that changed the stored coins. -/
theorem processTxs_cons_facts {blockHash : BlockHash} {height : UInt64} {isCoinbase : Bool}
    {tx : ChainTx} {rest : List ChainTx} {state after : TrackState σ}
    {result : List CoinId × SpendReport}
    (hrun : outcome (tracker.processTxs provider blockHash height isCoinbase (tx :: rest)) state =
      (.ok result, after))
    {committed : List CoinRing} (hsound : LoggedStore.Sound ⟨state.store, committed⟩) :
    ∃ between others,
      outcome (tracker.processTxs provider blockHash height false rest) between =
        (.ok others, after) ∧
      LoggedStore.Sound ⟨between.store, committed⟩ ∧
      ∀ id coin, state.store.coin? id = some coin → between.store.coin? id =
        some (coin.seenBy (if isCoinbase then [] else tx.inputs)) := by
  have hkept := scanOutputs_keeps tracker provider tx isCoinbase blockHash height 0 tx.outputs
  have hcommits :=
    scanOutputs_commits tracker provider tx isCoinbase blockHash height 0 tx.outputs
  rw [processTxs_cons] at hrun
  obtain ⟨received, scanned, hscan, hrun⟩ := outcome_bind_eq_ok hrun
  obtain ⟨spends, followed, hfollow, hrun⟩ := outcome_bind_eq_ok hrun
  obtain ⟨others, last, hrest, hrun⟩ := outcome_bind_eq_ok hrun
  cases hrun
  rw [TrackM.outcome_onStore] at hfollow
  obtain ⟨-, rfl⟩ := Prod.mk.inj hfollow
  have hhistory := hcommits state committed hsound
  rw [scanTransaction] at hscan
  rw [hscan, List.append_nil] at hhistory
  have hscanned := hsound.of_history hhistory
  have hspends := CoinStore.followSpends_history isCoinbase tx hscanned
  refine ⟨_, others, hrest, hscanned.of_history hspends, fun id coin hcoin => ?_⟩
  have hcoinScanned := hkept id coin state committed hsound hcoin
  rw [hscan] at hcoinScanned
  dsimp only
  rw [CoinStore.coin?_followSpends isCoinbase tx hscanned, hcoinScanned]
  rfl

/-- The transactions of a block pass a waiting coin over. -/
theorem processTxs_keeps {coin : Coin} (hstatus : coin.status = .immature) (id : CoinId)
    (blockHash : BlockHash) (height : UInt64) (isCoinbase : Bool) (txs : List ChainTx) :
    (tracker.processTxs provider blockHash height isCoinbase txs).Keeps id coin := by
  induction txs generalizing isCoinbase with
  | nil => exact .of_same_store fun _ => rfl
  | cons tx rest ih =>
    rw [processTxs_cons]
    refine .bind (scanOutputs_keeps tracker provider tx isCoinbase blockHash height 0 _ id coin)
      (scanOutputs_commits tracker provider tx isCoinbase blockHash height 0 _) fun received => ?_
    refine .bind (.onStore fun hsound hcoin => ?_)
      (.onStore fun hsound => CoinStore.followSpends_history isCoinbase tx hsound) fun spends => ?_
    · rw [CoinStore.coin?_followSpends isCoinbase tx hsound, hcoin, Option.map_some,
        Coin.seenBy_of_immature _ hstatus]
    · exact .bind (ih false) (processTxs_commits tracker provider blockHash height false rest)
        fun _ => .of_same_store fun _ => rfl

/-- An accepted batch links every pending coin by a resolution of its own. -/
theorem exists_resolution_of_pending {committed : List CoinRing} {height : UInt64}
    {store later : CoinStore} {state after : σ} {batch : ResolutionBatch}
    (hsound : LoggedStore.Sound ⟨store, committed⟩)
    (hbatch : outcome (tracker.resolutionBatch provider source height
      (tracker.pendingCoins height store)) state = (.ok batch, after))
    (hcommit : store.commit batch = .ok later) {coin : Coin}
    (hpending : coin ∈ tracker.pendingCoins height store) :
    ∃ resolution ∈ batch.resolutions, resolution.coin = coin.id ∧
      resolution.makeSpendable = (!coin.isCoinbase) ∧
      later.coin? coin.id = some (coin.linked resolution) := by
  have hids := resolutionBatch_ids tracker provider source hbatch
  have hnodup : (batch.resolutions.map (·.coin)).Nodup :=
    hids ▸ nodup_pendingCoins tracker hsound height
  have hpair := List.mem_map_of_mem (f := fun coin : Coin => (coin.id, !coin.isCoinbase)) hpending
  rw [← resolutionBatch_facts tracker provider source hbatch] at hpair
  obtain ⟨resolution, hmem, heq⟩ := List.mem_map.mp hpair
  obtain ⟨hcoinEq, hspendable⟩ := Prod.mk.inj heq
  have hfound := find?_key_eq_some RingResolution.coin hnodup hmem
  obtain ⟨hvalue, -⟩ := (mem_pendingCoins_iff tracker).mp hpending
  refine ⟨resolution, hmem, hcoinEq, hspendable, ?_⟩
  rw [CoinStore.coin?_commit hcommit hnodup, ← hcoinEq, hfound, hcoinEq,
    CoinStore.coin?_of_mem_values hsound hvalue]
  rfl

/-- What an accepted batch does to a coin: a pending one is linked by a resolution that makes it
spendable unless it is a coinbase coin, and any other is as it was. -/
theorem coin?_commit_pending {committed : List CoinRing} {height : UInt64}
    {store later : CoinStore} {state after : σ} {batch : ResolutionBatch}
    (hsound : LoggedStore.Sound ⟨store, committed⟩)
    (hbatch : outcome (tracker.resolutionBatch provider source height
      (tracker.pendingCoins height store)) state = (.ok batch, after))
    (hcommit : store.commit batch = .ok later) {id : CoinId} {coin : Coin}
    (hcoin : store.coin? id = some coin) :
    (coin ∈ tracker.pendingCoins height store ∧ ∃ resolution,
        resolution.makeSpendable = (!coin.isCoinbase) ∧ resolution.serialNumber ≠ [] ∧
        later.coin? id = some (coin.linked resolution)) ∨
      (coin ∉ tracker.pendingCoins height store ∧ later.coin? id = some coin) := by
  have hid : coin.id = id := hsound.id_eq hcoin
  subst hid
  by_cases hpending : coin ∈ tracker.pendingCoins height store
  · obtain ⟨resolution, hmem, -, hspendable, hview⟩ :=
      exists_resolution_of_pending tracker provider source hsound hbatch hcommit hpending
    rcases ((CoinStore.commit_eq_ok_iff store later batch).mp hcommit).1 resolution hmem with
      ⟨-, -, hserial, -, -⟩
    exact .inl ⟨hpending, resolution, hspendable, hserial, hview⟩
  · -- No resolution is about a coin that was not pending.
    have hids := resolutionBatch_ids tracker provider source hbatch
    have hnodup : (batch.resolutions.map (·.coin)).Nodup :=
      hids ▸ nodup_pendingCoins tracker hsound height
    have hnone : batch.resolutions.find? (·.coin == coin.id) = none := by
      refine find?_key_eq_none RingResolution.coin fun hmem => ?_
      rw [hids] at hmem
      obtain ⟨other, hother, hsame⟩ := List.mem_map.mp hmem
      obtain ⟨hvalue, -⟩ := (mem_pendingCoins_iff tracker).mp hother
      have hotherCoin := CoinStore.coin?_of_mem_values hsound hvalue
      rw [hsame, hcoin] at hotherCoin
      cases hotherCoin
      exact hpending hother
    refine .inr ⟨hpending, ?_⟩
    rw [CoinStore.coin?_commit hcommit hnodup, hnone]
    exact hcoin

/-- An accepted batch adds no coin. -/
theorem coin?_commit_of_none {committed : List CoinRing} {height : UInt64}
    {store later : CoinStore} {state after : σ} {batch : ResolutionBatch}
    (hsound : LoggedStore.Sound ⟨store, committed⟩)
    (hbatch : outcome (tracker.resolutionBatch provider source height
      (tracker.pendingCoins height store)) state = (.ok batch, after))
    (hcommit : store.commit batch = .ok later) {id : CoinId} (hnone : store.coin? id = none) :
    later.coin? id = none := by
  have hnodup := nodup_pendingCoins tracker hsound height
  rw [← resolutionBatch_ids tracker provider source hbatch] at hnodup
  rw [CoinStore.coin?_commit hcommit hnodup, hnone]
  split <;> rfl

/-- A coin behind the end of a window was stored before: a pending one is linked by a resolution
that makes it spendable unless it is a coinbase coin, and any other is as it was. -/
theorem coin?_resolveGroup {height : UInt64} {state after : TrackState σ}
    {resolved : List (CoinId × Bool)}
    (hrun : outcome (tracker.resolveGroup provider source height) state = (.ok resolved, after))
    {committed : List CoinRing} (hsound : LoggedStore.Sound ⟨state.store, committed⟩) {id : CoinId}
    {coin : Coin} (hcoin : after.store.coin? id = some coin) :
    ∃ before, state.store.coin? id = some before ∧
      ((before ∈ tracker.pendingCoins height state.store ∧ ∃ resolution,
          resolution.makeSpendable = (!before.isCoinbase) ∧ resolution.serialNumber ≠ [] ∧
          coin = before.linked resolution) ∨
        (before ∉ tracker.pendingCoins height state.store ∧ coin = before)) := by
  obtain ⟨-, ⟨hnone, hsame⟩ | ⟨batch, hbatch, hcommit⟩⟩ :=
    resolveGroup_of_ok tracker provider source hrun
  · refine ⟨coin, hsame ▸ hcoin, .inr ⟨?_, rfl⟩⟩
    rw [hnone]
    exact List.not_mem_nil
  · cases hbefore : state.store.coin? id with
    | none =>
      rw [coin?_commit_of_none tracker provider source hsound hbatch hcommit hbefore] at hcoin
      cases hcoin
    | some before =>
      refine ⟨before, rfl, ?_⟩
      rcases coin?_commit_pending tracker provider source hsound hbatch hcommit hbefore with
        ⟨hpending, resolution, hspendable, hserial, hlater⟩ | ⟨hnot, hlater⟩
      · rw [hcoin] at hlater
        exact .inl ⟨hpending, resolution, hspendable, hserial, Option.some.inj hlater⟩
      · rw [hcoin] at hlater
        exact .inr ⟨hnot, Option.some.inj hlater⟩

/-- A window's end passes a linked coin over. -/
theorem resolveGroup_keeps {coin : Coin} (hlinked : coin.ringId? ≠ none) (id : CoinId)
    (height : UInt64) : (tracker.resolveGroup provider source height).Keeps id coin := by
  intro state committed hsound hcoin
  cases resolveGroup_step tracker provider source height state with
  | idle _ hrun _ =>
    rw [hrun]
    exact hcoin
  | unanswered _ hrun _ =>
    rw [hrun]
    exact hcoin
  | refused _ _ hrun _ =>
    rw [hrun]
    exact hcoin
  | accepted hbatch hcommit hrun _ =>
    rw [hrun]
    rcases coin?_commit_pending tracker provider source hsound hbatch hcommit hcoin with
      ⟨hpending, -⟩ | ⟨-, hview⟩
    · obtain ⟨-, -, hunlinked, -⟩ := (mem_pendingCoins_iff tracker).mp hpending
      exact absurd hunlinked hlinked
    · exact hview

theorem resolveAt_keeps {coin : Coin} (hlinked : coin.ringId? ≠ none) (id : CoinId)
    (height : UInt64) : (tracker.resolveAt provider source height).Keeps id coin := by
  unfold resolveAt
  split
  · exact resolveGroup_keeps tracker provider source hlinked id height
  · exact .of_same_store fun _ => rfl

/-- Before coins mature, a block passes a linked coin over that waits. -/
theorem untilMaturity_keeps {coin : Coin} (hstatus : coin.status = .immature)
    (hlinked : coin.ringId? ≠ none) (id : CoinId) (block : ChainBlock) :
    (tracker.untilMaturity provider source block).Keeps id coin := by
  unfold untilMaturity
  refine .bind (processTxs_keeps tracker provider hstatus id _ _ true _)
    (processTxs_commits tracker provider _ _ true _) fun found => ?_
  refine .bind (.onStore fun _ hcoin => ?_)
    (.onStore fun _ => CoinStore.trackPending_history block _) fun confirmedTxs => ?_
  · rw [CoinStore.coin?_trackPending]
    exact hcoin
  · exact .bind (resolveAt_keeps tracker provider source hlinked id block.height)
      (resolveAt_commits tracker provider source block.height) fun _ => .of_same_store fun _ => rfl

end Tracker

end RingWallet
