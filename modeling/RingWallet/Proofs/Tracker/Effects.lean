import RingWallet.Proofs.Returns
import RingWallet.Proofs.Store.Commit
import RingWallet.Proofs.Store.Histories
import RingWallet.Proofs.Tracker.Steps

/-!
# Tracking operations as histories

Whatever the provider and the block source answer, and whether an operation succeeds or fails, what
it does to the store is a history (`TrackM.Commits`). The rings that the history commits are a
function of the state that the operation starts from: the rings of the accepted batch, if one was
accepted, and none otherwise.

A batch can only hold resolutions of the coins that were pending when it was made, each once. That
is what makes an accepted batch a history (`commit_history`), whatever rings and serial numbers the
provider gave.
-/

set_option autoImplicit false

namespace RingWallet

variable {σ α β : Type}

namespace TrackM

/-- The operation's effect on a sound store is a history that commits the given rings. -/
def Commits (op : TrackM σ α) (rings : TrackState σ → List CoinRing) : Prop :=
  ∀ state committed, LoggedStore.Sound ⟨state.store, committed⟩ →
    History ⟨state.store, committed⟩ ⟨(outcome op state).2.store, committed ++ rings state⟩

/-- The operation's effect on a sound store is a history without rings. -/
abbrev CommitsNone (op : TrackM σ α) : Prop := op.Commits fun _ => []

/-- The rings that a second operation commits behind a first: none if the first fails. -/
def ringsAfter (op : TrackM σ α) (rings : α → TrackState σ → List CoinRing)
    (state : TrackState σ) : List CoinRing :=
  match outcome op state with
  | (.ok a, after) => rings a after
  | (.error _, _) => []

theorem ringsAfter_of_ok {op : TrackM σ α} {state after : TrackState σ} {a : α}
    (h : outcome op state = (.ok a, after)) (rings : α → TrackState σ → List CoinRing) :
    op.ringsAfter rings state = rings a after := by
  unfold ringsAfter
  rw [h]

theorem ringsAfter_of_error {op : TrackM σ α} {state after : TrackState σ} {e : WalletError}
    (h : outcome op state = (.error e, after)) (rings : α → TrackState σ → List CoinRing) :
    op.ringsAfter rings state = [] := by
  unfold ringsAfter
  rw [h]

namespace Commits

/-- An operation that commits rings to a sound store leaves a sound store behind. -/
theorem sound {op : TrackM σ α} {rings : TrackState σ → List CoinRing} (h : op.Commits rings)
    {state after : TrackState σ} {committed : List CoinRing} {result : Except WalletError α}
    (hsound : LoggedStore.Sound ⟨state.store, committed⟩)
    (hrun : outcome op state = (result, after)) :
    LoggedStore.Sound ⟨after.store, committed ++ rings state⟩ := by
  have hhistory := h state committed hsound
  rw [hrun] at hhistory
  exact hsound.of_history hhistory

theorem congr {op : TrackM σ α} {rings rings' : TrackState σ → List CoinRing}
    (h : op.Commits rings) (heq : ∀ state, rings state = rings' state) : op.Commits rings' := by
  intro state committed hsound
  rw [← heq]
  exact h state committed hsound

theorem bind {op : TrackM σ α} {next : α → TrackM σ β} {rings : TrackState σ → List CoinRing}
    {ringsNext : α → TrackState σ → List CoinRing} (hop : op.Commits rings)
    (hnext : ∀ a, (next a).Commits (ringsNext a)) :
    TrackM.Commits (op >>= next) fun state => rings state ++ op.ringsAfter ringsNext state := by
  intro state committed hsound
  have hfirst := hop state committed hsound
  rcases hrun : outcome op state with ⟨result, after⟩
  rw [hrun] at hfirst
  dsimp only
  cases result with
  | error e =>
    rw [outcome_bind_of_error hrun, ringsAfter_of_error hrun, List.append_nil]
    exact hfirst
  | ok a =>
    have hsecond := hnext a after (committed ++ rings state) (hsound.of_history hfirst)
    rw [outcome_bind_of_ok hrun, ringsAfter_of_ok hrun, ← List.append_assoc]
    exact hfirst.trans hsecond

/-- If the first operation commits nothing, the second alone counts. -/
theorem bind_right {op : TrackM σ α} {next : α → TrackM σ β}
    {ringsNext : α → TrackState σ → List CoinRing} (hop : op.CommitsNone)
    (hnext : ∀ a, (next a).Commits (ringsNext a)) :
    TrackM.Commits (op >>= next) (op.ringsAfter ringsNext) :=
  hop.bind hnext

/-- If the second operation commits nothing, the first alone counts. -/
theorem bind_left {op : TrackM σ α} {next : α → TrackM σ β}
    {rings : TrackState σ → List CoinRing} (hop : op.Commits rings)
    (hnext : ∀ a, (next a).CommitsNone) : TrackM.Commits (op >>= next) rings := by
  apply (hop.bind hnext).congr
  intro state
  unfold ringsAfter
  rcases outcome op state with ⟨_ | _, _⟩ <;> exact List.append_nil _

theorem bind_none {op : TrackM σ α} {next : α → TrackM σ β} (hop : op.CommitsNone)
    (hnext : ∀ a, (next a).CommitsNone) : TrackM.CommitsNone (op >>= next) :=
  hop.bind_left hnext

/-- An operation that leaves the store alone. -/
theorem of_same_store {op : TrackM σ α} (h : ∀ state, (outcome op state).2.store = state.store) :
    op.CommitsNone := by
  intro state committed _
  rw [h, List.append_nil]

theorem pure (a : α) : TrackM.CommitsNone (Pure.pure a : TrackM σ α) :=
  of_same_store fun _ => rfl

theorem throw (e : WalletError) : TrackM.CommitsNone (MonadExcept.throw e : TrackM σ α) :=
  of_same_store fun _ => rfl

theorem outside (op : WalletM σ α) : (TrackM.outside op).CommitsNone :=
  of_same_store fun _ => rfl

/-- A change of the store that is a history from every sound store. -/
theorem onStore {change : CoinStore → α × CoinStore}
    (h : ∀ {store committed}, LoggedStore.Sound ⟨store, committed⟩ →
      History ⟨store, committed⟩ ⟨(change store).2, committed⟩) :
    (TrackM.onStore change : TrackM σ α).CommitsNone := by
  intro state committed hsound
  rw [List.append_nil]
  exact h hsound

/-- A change that may be refused and is a history otherwise. -/
theorem tryStore {change : CoinStore → Except WalletError CoinStore}
    (h : ∀ {store later committed}, change store = .ok later →
      History ⟨store, committed⟩ ⟨later, committed⟩) :
    (TrackM.tryStore change : TrackM σ Unit).CommitsNone := by
  intro state committed _
  rw [outcome_tryStore, List.append_nil]
  cases hchange : change state.store with
  | error e => exact .refl
  | ok later => exact h hchange

end Commits

end TrackM

/-! ## Scanning and spends -/

namespace Tracker

variable (tracker : Tracker) (provider : Provider σ) (source : BlockSource σ)

theorem scanOutputs_commits (tx : ChainTx) (isCoinbase : Bool) (blockHash : BlockHash)
    (height : UInt64) (index : Nat) (outputs : List Bytes) :
    (tracker.scanOutputs provider tx isCoinbase blockHash height index outputs).CommitsNone := by
  induction outputs generalizing index with
  | nil => exact .pure []
  | cons output rest ih =>
    by_cases hindex : index < 256
    · rw [scanOutputs_cons tracker provider tx isCoinbase blockHash height hindex]
      refine .bind_none (.outside _) fun owner? => ?_
      refine .bind_none (.onStore fun _ => ?_) fun isNew => ?_
      · exact CoinStore.record_history
          (receivedCoin_isFresh tx isCoinbase blockHash height index output) owner? _
      · exact .bind_none (ih (index + 1)) fun _ => .pure _
    · rw [scanOutputs_cons_of_ge tracker provider tx isCoinbase blockHash height hindex]
      exact .throw _

theorem processTxs_commits (blockHash : BlockHash) (height : UInt64) (isCoinbase : Bool)
    (txs : List ChainTx) :
    (tracker.processTxs provider blockHash height isCoinbase txs).CommitsNone := by
  induction txs generalizing isCoinbase with
  | nil => exact .pure _
  | cons tx rest ih =>
    rw [processTxs_cons]
    refine .bind_none (scanOutputs_commits tracker provider tx isCoinbase blockHash height 0 _)
      fun received => ?_
    refine .bind_none (.onStore fun hsound => ?_) fun spends => ?_
    · exact CoinStore.followSpends_history isCoinbase tx hsound
    · exact .bind_none (ih false) fun _ => .pure _

/-! ## Windows -/

/-- A resolution names the last ring that lists its coin and the coin's place there, whatever serial
numbers the provider gives. -/
theorem exists_lastRing_of_resolution {rings : List CoinRing} {coin : Coin}
    {learned : Nat × RingResolution}
    (h : Returns (tracker.resolution provider rings coin) learned) :
    ∃ ring, lastRingOf? rings coin.id = some (learned.1, ring) ∧ learned.2.coin = coin.id ∧
      learned.2.ringId = ring.ringId ∧ ring.indexOf? coin.id = some learned.2.ringIndex ∧
      learned.2.serialNumber ≠ [] ∧ learned.2.makeSpendable = !coin.isCoinbase := by
  unfold resolution at h
  -- Of all the ways out only one returns something.
  split at h
  · rename_i place ring hlast
    split at h
    · rename_i index hindex
      split at h
      · obtain ⟨numbers, -, h⟩ := h.bind
        split at h
        · exact absurd h Returns.not_throw
        · rename_i number hnumber
          cases h.eq_of_pure
          refine ⟨ring, hlast, rfl, rfl, hindex, ?_, rfl⟩
          have husable := (Option.filter_eq_some_iff.mp hnumber).2
          rintro rfl
          cases husable
      · exact absurd h Returns.not_throw
    · exact absurd h Returns.not_throw
  · exact absurd h Returns.not_throw

/-- A resolution is about its coin, and makes it spendable unless it is a coinbase coin. -/
theorem resolution_facts {rings : List CoinRing} {coin : Coin} {state after : σ}
    {learned : Nat × RingResolution}
    (h : outcome (tracker.resolution provider rings coin) state = (.ok learned, after)) :
    learned.2.coin = coin.id ∧ learned.2.makeSpendable = !coin.isCoinbase := by
  obtain ⟨-, -, hcoin, -, -, -, hspendable⟩ :=
    exists_lastRing_of_resolution tracker provider (.of_outcome h)
  exact ⟨hcoin, hspendable⟩

/-- Resolutions come in the order of their coins. -/
theorem resolutions_facts {rings : List CoinRing} {coins : List Coin} {state after : σ}
    {learned : List (Nat × RingResolution)}
    (h : outcome (tracker.resolutions provider rings coins) state = (.ok learned, after)) :
    (learned.map Prod.snd).map (fun resolution => (resolution.coin, resolution.makeSpendable)) =
      coins.map fun coin => (coin.id, !coin.isCoinbase) := by
  induction coins generalizing state after learned with
  | nil =>
    cases h
    rfl
  | cons coin rest ih =>
    unfold resolutions at h
    obtain ⟨first, between, hfirst, h⟩ := outcome_bind_eq_ok h
    obtain ⟨others, _, hothers, h⟩ := outcome_bind_eq_ok h
    cases h
    obtain ⟨hid, hspendable⟩ := resolution_facts tracker provider hfirst
    rw [List.map_cons, List.map_cons, List.map_cons, ih hothers, hid, hspendable]

theorem resolutionBatch_facts {height : UInt64} {coins : List Coin} {state after : σ}
    {batch : ResolutionBatch}
    (h : outcome (tracker.resolutionBatch provider source height coins) state =
      (.ok batch, after)) :
    batch.resolutions.map (fun resolution => (resolution.coin, resolution.makeSpendable)) =
      coins.map fun coin => (coin.id, !coin.isCoinbase) := by
  unfold resolutionBatch at h
  obtain ⟨blocks, _, -, h⟩ := outcome_bind_eq_ok h
  obtain ⟨rings, _, -, h⟩ := outcome_bind_eq_ok h
  obtain ⟨learned, _, hlearned, h⟩ := outcome_bind_eq_ok h
  cases h
  exact resolutions_facts tracker provider hlearned

/-- A batch is about the coins that were asked for, in their order. -/
theorem resolutionBatch_ids {height : UInt64} {coins : List Coin} {state after : σ}
    {batch : ResolutionBatch}
    (h : outcome (tracker.resolutionBatch provider source height coins) state =
      (.ok batch, after)) :
    batch.resolutions.map (·.coin) = coins.map Coin.id := by
  have hids := congrArg (List.map Prod.fst) (resolutionBatch_facts tracker provider source h)
  rw [List.map_map, List.map_map] at hids
  exact hids

/-- What is known of a pending coin. -/
theorem mem_pendingCoins_iff {height : UInt64} {store : CoinStore} {coin : Coin} :
    coin ∈ tracker.pendingCoins height store ↔
      coin ∈ store.coins.values ∧ coin.status = .immature ∧ coin.ringId? = none ∧
        coin.height ≤ height ∧ tracker.params.groupStart height ≤ coin.height ∧
          tracker.accounts.contains coin.account = true := by
  unfold pendingCoins CoinStore.unresolved
  simp only [List.mem_filter, Bool.and_eq_true, beq_iff_eq, decide_eq_true_eq,
    Option.isNone_iff_eq_none, and_assoc]

theorem nodup_pendingCoins {committed : List CoinRing} {store : CoinStore}
    (h : LoggedStore.Sound ⟨store, committed⟩) (height : UInt64) :
    ((tracker.pendingCoins height store).map Coin.id).Nodup := by
  have hsub : ((tracker.pendingCoins height store).map Coin.id).Sublist
      (store.coins.values.map Coin.id) :=
    (List.filter_sublist.trans List.filter_sublist).map Coin.id
  exact hsub.nodup (CoinStore.nodup_map_id_values h)

/-- An accepted batch for the pending coins is a history that commits its rings. -/
theorem commit_pending_history {committed : List CoinRing} {height : UInt64}
    {store later : CoinStore} {state after : σ} {batch : ResolutionBatch}
    (hsound : LoggedStore.Sound ⟨store, committed⟩)
    (hbatch : outcome (tracker.resolutionBatch provider source height
      (tracker.pendingCoins height store)) state = (.ok batch, after))
    (hcommit : store.commit batch = .ok later) :
    History ⟨store, committed⟩ ⟨later, committed ++ batch.rings⟩ := by
  have hpairs := resolutionBatch_facts tracker provider source hbatch
  refine CoinStore.commit_history hsound hcommit ?_ fun resolution hmem coin hcoin => ?_
  · rw [resolutionBatch_ids tracker provider source hbatch]
    exact nodup_pendingCoins tracker hsound height
  · have hpair := List.mem_map_of_mem (f := fun resolution : RingResolution =>
      (resolution.coin, resolution.makeSpendable)) hmem
    rw [hpairs] at hpair
    obtain ⟨pending, hpending, heq⟩ := List.mem_map.mp hpair
    obtain ⟨hid, hspendable⟩ := Prod.mk.inj heq
    obtain ⟨hvalue, -, hunlinked, -⟩ := (mem_pendingCoins_iff tracker).mp hpending
    -- The coin of the resolution is the pending coin itself.
    rw [← hid, CoinStore.coin?_of_mem_values hsound hvalue] at hcoin
    cases hcoin
    exact ⟨hunlinked, hspendable.symm⟩

/-- The rings that resolving a window commits: those of the batch, if it is accepted. -/
def ringsOfGroup (height : UInt64) (state : TrackState σ) : List CoinRing :=
  let coins := tracker.pendingCoins height state.store
  if coins.isEmpty then []
  else match outcome (tracker.resolutionBatch provider source height coins) state.outside with
  | (.ok batch, _) =>
    match state.store.commit batch with
    | .ok _ => batch.rings
    | .error _ => []
  | (.error _, _) => []

/-- What resolving a window can do: there may be nothing pending, the provider or the source may
fail, the store may refuse the batch, and otherwise it takes the batch over. -/
inductive GroupStep (height : UInt64) (state : TrackState σ) : Prop where
  | idle (hnone : tracker.pendingCoins height state.store = [])
      (hrun : outcome (tracker.resolveGroup provider source height) state = (.ok [], state))
      (hrings : tracker.ringsOfGroup provider source height state = [])
  | unanswered {e : WalletError} {after : σ}
      (hbatch : outcome (tracker.resolutionBatch provider source height
        (tracker.pendingCoins height state.store)) state.outside = (.error e, after))
      (hrun : outcome (tracker.resolveGroup provider source height) state =
        (.error e, { state with outside := after }))
      (hrings : tracker.ringsOfGroup provider source height state = [])
  | refused {batch : ResolutionBatch} {after : σ} {fault : StoreError}
      (hbatch : outcome (tracker.resolutionBatch provider source height
        (tracker.pendingCoins height state.store)) state.outside = (.ok batch, after))
      (hcommit : state.store.commit batch = .error fault)
      (hrun : outcome (tracker.resolveGroup provider source height) state =
        (.error (.store fault), { state with outside := after }))
      (hrings : tracker.ringsOfGroup provider source height state = [])
  | accepted {batch : ResolutionBatch} {after : σ} {later : CoinStore}
      (hbatch : outcome (tracker.resolutionBatch provider source height
        (tracker.pendingCoins height state.store)) state.outside = (.ok batch, after))
      (hcommit : state.store.commit batch = .ok later)
      (hrun : outcome (tracker.resolveGroup provider source height) state =
        (.ok ((tracker.pendingCoins height state.store).map fun coin => (coin.id, coin.isCoinbase)),
          ⟨later, after⟩))
      (hrings : tracker.ringsOfGroup provider source height state = batch.rings)

/-- Where nothing is pending, nothing is done. -/
theorem resolveGroup_of_none {height : UInt64} {state : TrackState σ}
    (hnone : tracker.pendingCoins height state.store = []) :
    outcome (tracker.resolveGroup provider source height) state = (.ok [], state) := by
  unfold resolveGroup
  rw [outcome_bind_of_ok (TrackM.outcome_readStore _ state), hnone]
  rfl

theorem resolveGroup_step (height : UInt64) (state : TrackState σ) :
    tracker.GroupStep provider source height state := by
  by_cases hnone : tracker.pendingCoins height state.store = []
  · refine .idle hnone (resolveGroup_of_none tracker provider source hnone) ?_
    unfold ringsOfGroup
    rw [hnone]
    rfl
  · -- Something is pending, so the outside world is asked and then the store.
    have hsome : ¬ (tracker.pendingCoins height state.store).isEmpty = true := by
      rw [List.isEmpty_iff]
      exact hnone
    rcases hbatch : outcome (tracker.resolutionBatch provider source height
      (tracker.pendingCoins height state.store)) state.outside with ⟨e | batch, after⟩
    · refine .unanswered hbatch ?_ ?_
      · unfold resolveGroup
        rw [outcome_bind_of_ok (TrackM.outcome_readStore _ state), if_neg hsome,
          outcome_bind_of_error (TrackM.outcome_outside_of_error hbatch)]
      · unfold ringsOfGroup
        dsimp only
        rw [if_neg hsome, hbatch]
    · have htake : outcome (tracker.resolveGroup provider source height) state =
          outcome (TrackM.tryStore (fun store => (store.commit batch).mapError .store) >>= fun _ =>
            pure ((tracker.pendingCoins height state.store).map fun coin =>
              (coin.id, coin.isCoinbase))) { state with outside := after } := by
        unfold resolveGroup
        rw [outcome_bind_of_ok (TrackM.outcome_readStore _ state), if_neg hsome,
          outcome_bind_of_ok (TrackM.outcome_outside_of_ok hbatch)]
      have hrings : tracker.ringsOfGroup provider source height state =
          match state.store.commit batch with
          | .ok _ => batch.rings
          | .error _ => [] := by
        unfold ringsOfGroup
        dsimp only
        rw [if_neg hsome, hbatch]
      rw [outcome_bind, TrackM.outcome_tryStore] at htake
      dsimp only at htake
      cases hcommit : state.store.commit batch with
      | error fault =>
        rw [hcommit] at htake hrings
        exact .refused hbatch hcommit htake hrings
      | ok later =>
        rw [hcommit] at htake hrings
        exact .accepted hbatch hcommit htake hrings

/-- Where the end of a window fails, the store is as it was. -/
theorem store_resolveGroup_of_error {height : UInt64} {state after : TrackState σ} {e : WalletError}
    (hrun : outcome (tracker.resolveGroup provider source height) state = (.error e, after)) :
    after.store = state.store := by
  cases resolveGroup_step tracker provider source height state with
  | idle _ hidle _ =>
    rw [hidle] at hrun
    cases hrun
  | unanswered _ hfailed _ =>
    rw [hfailed] at hrun
    cases hrun
    rfl
  | refused _ _ hfailed _ =>
    rw [hfailed] at hrun
    cases hrun
    rfl
  | accepted _ _ haccepted _ =>
    rw [haccepted] at hrun
    cases hrun

/-- Where the end of a window succeeds, the pending coins are named; either there were none, or the
store took the batch for them over. -/
theorem resolveGroup_of_ok {height : UInt64} {state after : TrackState σ}
    {resolved : List (CoinId × Bool)}
    (hrun : outcome (tracker.resolveGroup provider source height) state = (.ok resolved, after)) :
    resolved = (tracker.pendingCoins height state.store).map
        (fun coin => (coin.id, coin.isCoinbase)) ∧
      (tracker.pendingCoins height state.store = [] ∧ after.store = state.store ∨
        ∃ batch, outcome (tracker.resolutionBatch provider source height
            (tracker.pendingCoins height state.store)) state.outside = (.ok batch, after.outside) ∧
          state.store.commit batch = .ok after.store) := by
  cases resolveGroup_step tracker provider source height state with
  | idle hnone hidle _ =>
    rw [hidle] at hrun
    cases hrun
    rw [hnone]
    exact ⟨rfl, .inl ⟨rfl, rfl⟩⟩
  | unanswered _ hfailed _ =>
    rw [hfailed] at hrun
    cases hrun
  | refused _ _ hfailed _ =>
    rw [hfailed] at hrun
    cases hrun
  | accepted hbatch hcommit haccepted _ =>
    rw [haccepted] at hrun
    cases hrun
    exact ⟨rfl, .inr ⟨_, hbatch, hcommit⟩⟩

theorem resolveGroup_commits (height : UInt64) :
    (tracker.resolveGroup provider source height).Commits
      (tracker.ringsOfGroup provider source height) := by
  intro state committed hsound
  cases resolveGroup_step tracker provider source height state with
  | idle _ hrun hrings =>
    rw [hrun, hrings, List.append_nil]
  | unanswered _ hrun hrings =>
    rw [hrun, hrings, List.append_nil]
  | refused _ _ hrun hrings =>
    rw [hrun, hrings, List.append_nil]
  | accepted hbatch hcommit hrun hrings =>
    rw [hrun, hrings]
    exact commit_pending_history tracker provider source hsound hbatch hcommit

/-- The rings that are committed at a height. -/
def ringsOfMaturity (height : UInt64) (state : TrackState σ) : List CoinRing :=
  if tracker.params.isGroupEnd height then tracker.ringsOfGroup provider source height state
  else []

theorem resolveAt_commits (height : UInt64) :
    (tracker.resolveAt provider source height).Commits
      (tracker.ringsOfMaturity provider source height) := by
  unfold resolveAt
  cases hend : tracker.params.isGroupEnd height with
  | true =>
    apply (resolveGroup_commits tracker provider source height).congr
    intro state
    rw [ringsOfMaturity, hend, if_pos rfl]
  | false =>
    apply TrackM.Commits.congr (.pure [])
    intro state
    rw [ringsOfMaturity, hend]
    rfl

theorem handleMaturity_commits (height : UInt64) :
    (tracker.handleMaturity provider source height).Commits
      (tracker.ringsOfMaturity provider source height) := by
  rw [handleMaturity_eq]
  apply (resolveAt_commits tracker provider source height).bind_left
  intro resolved
  refine .bind_none (.onStore fun hsound => ?_) fun _ => .pure _
  exact CoinStore.matureAt_history tracker.params height hsound

/-- The rings that processing a block commits: those committed at its height, once its transactions
have been processed. -/
def ringsOfBlock (block : ChainBlock) : TrackState σ → List CoinRing :=
  TrackM.ringsAfter (tracker.processTxs provider block.hash block.height true block.txs) fun _ =>
    TrackM.ringsAfter (TrackM.onStore (CoinStore.trackPending block)) fun _ =>
      tracker.ringsOfMaturity provider source block.height

theorem untilMaturity_commits (block : ChainBlock) :
    (tracker.untilMaturity provider source block).Commits
      (tracker.ringsOfBlock provider source block) := by
  unfold untilMaturity
  refine .bind_right (processTxs_commits tracker provider _ _ true _) fun found => ?_
  refine .bind_right (.onStore fun _ => CoinStore.trackPending_history block _) fun _ => ?_
  exact (resolveAt_commits tracker provider source block.height).bind_left fun _ => .pure _

theorem processBlock_commits (block : ChainBlock) :
    (tracker.processBlock provider source block).Commits
      (tracker.ringsOfBlock provider source block) := by
  rw [processBlock_eq]
  apply (untilMaturity_commits tracker provider source block).bind_left
  intro done
  refine .bind_none (.onStore fun hsound => ?_) fun _ => .pure _
  exact CoinStore.matureAt_history tracker.params block.height hsound

end Tracker

end RingWallet
