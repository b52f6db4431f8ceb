import Mathlib.Algebra.Group.Nat.Defs
import RingWallet.Proofs.Chain.Windows
import RingWallet.Proofs.Provider.Watching
import RingWallet.Proofs.Tracker.Window

/-!
# The blocks that tracking asks for

Only the end of a window needs blocks. It asks for none if no coin waits for it, and otherwise for
those of the window in order, up to the first that the source fails on; the provider is not called
then (`Tracker.Fetches`).

`fetches_window` says so of every state, provider and source. At a height that ends no window,
neither processing a block nor handling maturity asks for anything. What is asked for is seen on
watched operations, which run as others do (`outcome_processBlock_watched`).
-/

set_option autoImplicit false

namespace RingWallet

variable {σ α γ : Type}

/-! ## Asking for blocks in order -/

/-- Asked for the block at a height, the source gives it. -/
def BlockSource.Gives (source : BlockSource σ) (height : UInt64) (before after : σ) : Prop :=
  ∃ block, outcome (source.fetch height) before = (.ok block, after)

/-- What asking a watched source for blocks can do: it may give all of them, or give those in front
of one that it fails on. -/
inductive BlockSource.FetchStep (source : BlockSource σ) (heights : List UInt64) (start : σ)
    (calls : List ProviderCall) (requests : List UInt64) : Prop where
  | given {blocks : List Bytes} {after : σ} (hgiven : InTurn source.Gives start heights after)
      (hrun : outcome (source.watched.fetchAll heights) ((start, calls), requests) =
        (.ok blocks, ((after, calls), requests ++ heights)))
  | failed {front : List UInt64} {missing : UInt64} {behind : List UInt64} {reports : List String}
      {between after : σ} (hheights : heights = front ++ missing :: behind)
      (hgiven : InTurn source.Gives start front between)
      (hmissing : outcome (source.fetch missing) between = (.error reports, after))
      (hrun : outcome (source.watched.fetchAll heights) ((start, calls), requests) =
        (.error (.provider (.blockUnavailable missing reports)),
          ((after, calls), requests ++ (front ++ [missing]))))

theorem BlockSource.fetchStep (source : BlockSource σ) (heights : List UInt64) (start : σ)
    (calls : List ProviderCall) (requests : List UInt64) :
    source.FetchStep heights start calls requests := by
  induction heights generalizing start requests with
  | nil =>
    have hrun : outcome (source.watched.fetchAll []) ((start, calls), requests) =
        (.ok [], ((start, calls), requests ++ [])) := by
      rw [List.append_nil]
      rfl
    exact .given .nil hrun
  | cons height rest ih =>
    have hrequire := source.outcome_require_watched height start calls requests
    rcases hfetch : outcome (source.fetch height) start with ⟨reports | block, between⟩
    · rw [hfetch] at hrequire
      have hrun : outcome (source.watched.fetchAll (height :: rest)) ((start, calls), requests) =
          (.error (.provider (.blockUnavailable height reports)),
            ((between, calls), requests ++ ([] ++ [height]))) := by
        unfold fetchAll
        rw [outcome_bind_of_error hrequire]
        rfl
      exact .failed (List.nil_append _).symm .nil hfetch hrun
    · rw [hfetch] at hrequire
      have hgives : source.Gives height start between := ⟨block, hfetch⟩
      -- The others are asked for from where the first leaves the source.
      cases ih between (requests ++ [height]) with
      | @given blocks after hgiven hrest =>
        have hrun : outcome (source.watched.fetchAll (height :: rest))
            ((start, calls), requests) =
              (.ok (block :: blocks), ((after, calls), requests ++ height :: rest)) := by
          unfold fetchAll
          rw [outcome_bind_of_ok hrequire, outcome_bind_of_ok hrest,
            List.append_cons requests height rest]
          rfl
        exact .given (hgiven.cons hgives) hrun
      | @failed front missing _ _ _ _ hheights hgiven hmissing hrest =>
        cases hheights
        refine .failed rfl (hgiven.cons hgives) hmissing ?_
        unfold fetchAll
        rw [outcome_bind_of_ok hrequire, outcome_bind_of_error hrest, List.cons_append,
          List.append_cons requests height (front ++ [missing])]

/-! ## Watched operations -/

/-- What a tracking operation comes to if it is watched. -/
def watch (op : (τ : Type) → Provider τ → BlockSource τ → TrackM τ α) (provider : Provider σ)
    (source : BlockSource σ) (state : TrackState σ) :
    Except WalletError α × TrackState (Watched σ) :=
  outcome (op _ provider.watched source.watched) (state.over Watched.start)

/-- The heights that a tracking operation asks the source for, in order. -/
def requestsOf (op : (τ : Type) → Provider τ → BlockSource τ → TrackM τ α) (provider : Provider σ)
    (source : BlockSource σ) (state : TrackState σ) : List UInt64 :=
  (watch op provider source state).2.outside.requests

/-- The calls that a tracking operation makes to the provider, in order. -/
def providerCallsOf (op : (τ : Type) → Provider τ → BlockSource τ → TrackM τ α)
    (provider : Provider σ) (source : BlockSource σ) (state : TrackState σ) :
    List ProviderCall :=
  (watch op provider source state).2.outside.calls

/-- An operation that mirrors itself requests nothing if it leaves the requests as they are. -/
theorem requestsOf_eq_nil {op : (τ : Type) → Provider τ → BlockSource τ → TrackM τ α}
    {provider : Provider σ} {source : BlockSource σ}
    (h : Mirrors (TrackState.over Watched.below) (fun state => state.outside.requests)
      (op _ provider.watched source.watched) (op _ provider source)) (state : TrackState σ) :
    requestsOf op provider source state = [] :=
  h.look_eq (state.over Watched.start)

namespace Tracker

variable (tracker : Tracker) (provider : Provider σ) (source : BlockSource σ)

/-! ## Scanning -/

theorem scanOutputs_mirrors (tx : ChainTx) (isCoinbase : Bool) (blockHash : BlockHash)
    (height : UInt64) (index : Nat) (outputs : List Bytes) :
    Mirrors (TrackState.over Watched.below) (fun state => state.outside.requests)
      (tracker.scanOutputs provider.watched tx isCoinbase blockHash height index outputs)
      (tracker.scanOutputs provider tx isCoinbase blockHash height index outputs) := by
  induction outputs generalizing index with
  | nil => exact .pure []
  | cons output rest ih =>
    by_cases hindex : index < 256
    · rw [scanOutputs_cons tracker _ tx isCoinbase blockHash height hindex,
        scanOutputs_cons tracker _ tx isCoinbase blockHash height hindex]
      refine .bind (provider.watched_mirrors.recognise_related tx.version output _).outside fun owner? => ?_
      refine .bind (.onStore _ _) fun isNew => ?_
      exact .bind (ih (index + 1)) fun others => .pure _
    · rw [scanOutputs_cons_of_ge tracker _ tx isCoinbase blockHash height hindex,
        scanOutputs_cons_of_ge tracker _ tx isCoinbase blockHash height hindex]
      exact .throw _

theorem processTxs_mirrors (blockHash : BlockHash) (height : UInt64) (isCoinbase : Bool)
    (txs : List ChainTx) :
    Mirrors (TrackState.over Watched.below) (fun state => state.outside.requests)
      (tracker.processTxs provider.watched blockHash height isCoinbase txs)
      (tracker.processTxs provider blockHash height isCoinbase txs) := by
  induction txs generalizing isCoinbase with
  | nil => exact .pure _
  | cons tx rest ih =>
    rw [processTxs_cons, processTxs_cons]
    refine .bind (scanOutputs_mirrors tracker provider tx isCoinbase blockHash height 0 _)
      fun received => ?_
    refine .bind (.onStore _ _) fun spends => ?_
    exact .bind (ih false) fun others => .pure _

/-! ## Windows -/

theorem resolutionBatch_mirrors (height : UInt64) (coins : List Coin) :
    Mirrors Watched.below (fun _ => ())
      (tracker.resolutionBatch provider.watched source.watched height coins)
      (tracker.resolutionBatch provider source height coins) := by
  rw [resolutionBatch_eq, resolutionBatch_eq]
  -- The source leaves the calls alone and the provider the requests: both may change in the end.
  refine .bind ((source.watched_mirrors.fetchAll_related _).map_look fun _ => ()) fun blocks => ?_
  exact (provider.watched_mirrors.batchFrom_related tracker coins blocks).map_look fun _ => ()

theorem resolveGroup_mirrors {look : Watched σ → γ} {height : UInt64}
    (hbatch : ∀ coins, Mirrors Watched.below look
      (tracker.resolutionBatch provider.watched source.watched height coins)
      (tracker.resolutionBatch provider source height coins)) :
    Mirrors (TrackState.over Watched.below) (fun state => look state.outside)
      (tracker.resolveGroup provider.watched source.watched height)
      (tracker.resolveGroup provider source height) := by
  unfold resolveGroup
  refine .bind (.onStore _ _) fun coins => ?_
  split
  · exact .pure []
  · refine .bind (hbatch coins).outside fun batch => ?_
    exact .bind (.tryStore _) fun _ => .pure _

/-! ## Whole blocks -/

section

variable {height : UInt64} {f : List UInt64 → γ}
  (hgroup : tracker.params.isGroupEnd height = true →
    Mirrors (TrackState.over Watched.below) (fun state => f state.outside.requests)
      (tracker.resolveGroup provider.watched source.watched height)
      (tracker.resolveGroup provider source height))

include hgroup

theorem handleMaturity_mirrors :
    Mirrors (TrackState.over Watched.below) (fun state => f state.outside.requests)
      (tracker.handleMaturity provider.watched source.watched height)
      (tracker.handleMaturity provider source height) := by
  have hresolve : Mirrors (TrackState.over Watched.below) (fun state => f state.outside.requests)
      (tracker.resolveAt provider.watched source.watched height)
      (tracker.resolveAt provider source height) := by
    unfold resolveAt
    split
    · exact hgroup ‹_›
    · exact .pure []
  rw [handleMaturity_eq, handleMaturity_eq]
  refine .bind hresolve fun resolved => ?_
  exact .bind (.onStore (f ∘ Watched.requests) _) fun coinbase => .pure _

theorem processBlock_mirrors {block : ChainBlock} (hheight : block.height = height) :
    Mirrors (TrackState.over Watched.below) (fun state => f state.outside.requests)
      (tracker.processBlock provider.watched source.watched block)
      (tracker.processBlock provider source block) := by
  unfold processBlock
  refine .bind ((processTxs_mirrors tracker provider _ _ true _).map_look f) fun found => ?_
  refine .bind (.onStore (f ∘ Watched.requests) _) fun confirmedTxs => ?_
  rw [hheight]
  exact .bind (handleMaturity_mirrors tracker provider source hgroup) fun maturity => .pure _

end

/-- A watched block is processed as if it were not watched. -/
theorem outcome_processBlock_watched (block : ChainBlock) (state : TrackState (Watched σ)) :
    outcome (tracker.processBlock provider source block) (state.over Watched.below) =
      ((outcome (tracker.processBlock provider.watched source.watched block) state).1,
        (outcome (tracker.processBlock provider.watched source.watched block) state).2.over
          Watched.below) := by
  have hmirrors := processBlock_mirrors tracker provider source (f := fun _ => ())
    (fun _ => resolveGroup_mirrors tracker provider source
      (resolutionBatch_mirrors tracker provider source _)) (rfl : block.height = _)
  exact hmirrors.outcome_eq state

end Tracker

/-! ## The requests of a window -/

namespace Tracker

/-- What resolving the window of a height comes to, with the heights that are asked for and the
calls that are made. -/
inductive Fetches (tracker : Tracker) (source : BlockSource σ) (height : UInt64)
    (state : TrackState σ) (window : List UInt64) :
    Except WalletError (List (CoinId × Bool)) → List UInt64 → List ProviderCall → Prop
  /-- No coin waits, and nothing is asked for. -/
  | nothing (hnone : ∀ id coin, state.store.coin? id = some coin → ¬ tracker.Awaits height coin) :
      Fetches tracker source height state window (.ok []) [] []
  /-- A coin waits, and the source gives every block of the window. -/
  | whole {id : CoinId} {coin : Coin} {after : σ}
      {result : Except WalletError (List (CoinId × Bool))} {calls : List ProviderCall}
      (hcoin : state.store.coin? id = some coin) (hawaits : tracker.Awaits height coin)
      (hgiven : InTurn source.Gives state.outside window after) :
      Fetches tracker source height state window result window calls
  /-- A coin waits, and the source fails on a block of the window: this is the failure, and the
  provider is not called. -/
  | failed {id : CoinId} {coin : Coin} {front : List UInt64} {missing : UInt64}
      {behind : List UInt64} {reports : List String} {between after : σ}
      (hcoin : state.store.coin? id = some coin) (hawaits : tracker.Awaits height coin)
      (hwindow : window = front ++ missing :: behind)
      (hgiven : InTurn source.Gives state.outside front between)
      (hmissing : outcome (source.fetch missing) between = (.error reports, after)) :
      Fetches tracker source height state window
        (.error (.provider (.blockUnavailable missing reports))) (front ++ [missing]) []

variable (tracker : Tracker) (provider : Provider σ) (source : BlockSource σ)

/-- Coins are pending exactly if a stored coin waits. -/
theorem pendingCoins_eq_nil_iff {height : UInt64} {store : CoinStore} :
    tracker.pendingCoins height store = [] ↔
      ∀ id coin, store.coin? id = some coin → ¬ tracker.Awaits height coin := by
  rw [List.eq_nil_iff_forall_not_mem]
  simp only [mem_pendingCoins_iff]
  constructor
  · intro hnone id coin hcoin hawaits
    exact hnone coin ⟨(OrderedMap.mem_values_iff _ _).mpr ⟨id, hcoin⟩, hawaits.status_eq,
      hawaits.ringId_eq, hawaits.le_height, hawaits.start_le, hawaits.watched⟩
  · rintro hnone coin ⟨hvalue, hstatus, hunlinked, hle, hstart, hwatched⟩
    obtain ⟨id, hcoin⟩ := (OrderedMap.mem_values_iff _ _).mp hvalue
    exact hnone id coin hcoin ⟨hstatus, hunlinked, hstart, hle, hwatched⟩

/-- Where something is pending, the outside world is left by learning the batch. -/
theorem outside_resolveGroup {height : UInt64} {state : TrackState σ}
    (hsome : tracker.pendingCoins height state.store ≠ []) :
    (outcome (tracker.resolveGroup provider source height) state).2.outside =
      (outcome (tracker.resolutionBatch provider source height
        (tracker.pendingCoins height state.store)) state.outside).2 := by
  cases resolveGroup_step tracker provider source height state with
  | idle hnone _ _ => exact absurd hnone hsome
  | unanswered hbatch hrun _ => rw [hrun, hbatch]
  | refused hbatch _ hrun _ => rw [hrun, hbatch]
  | accepted hbatch _ hrun _ => rw [hrun, hbatch]

/-- Where something is pending, a failure to learn the batch is a failure of the whole. -/
theorem resolveGroup_of_batch_error {height : UInt64} {state : TrackState σ} {e : WalletError}
    {after : σ} (hsome : tracker.pendingCoins height state.store ≠ [])
    (hfailed : outcome (tracker.resolutionBatch provider source height
      (tracker.pendingCoins height state.store)) state.outside = (.error e, after)) :
    outcome (tracker.resolveGroup provider source height) state =
      (.error e, { state with outside := after }) := by
  cases resolveGroup_step tracker provider source height state with
  | idle hnone _ _ => exact absurd hnone hsome
  | unanswered hbatch hrun _ =>
    rw [hbatch] at hfailed
    cases hfailed
    exact hrun
  | refused hbatch _ _ _ =>
    rw [hbatch] at hfailed
    cases hfailed
  | accepted hbatch _ _ _ =>
    rw [hbatch] at hfailed
    cases hfailed

/-- Once the blocks of the window are there, no other is asked for. -/
theorem requests_resolutionBatch {height : UInt64} {coins : List Coin} {state between : Watched σ}
    {blocks : List Bytes} (hfetched : outcome (fetchGroup source.watched tracker.params height)
      state = (.ok blocks, between)) :
    (outcome (tracker.resolutionBatch provider.watched source.watched height coins)
      state).2.requests = between.requests := by
  rw [resolutionBatch_eq, outcome_bind_of_ok hfetched]
  exact (provider.watched_mirrors.batchFrom_related tracker coins blocks).look_eq between

theorem resolveGroup_fetches (height : UInt64) (state : TrackState σ) :
    tracker.Fetches source height state (tracker.params.groupHeights height)
      (outcome (tracker.resolveGroup provider source height) state).1
      (requestsOf (fun _ provider source => tracker.resolveGroup provider source height) provider
        source state)
      (providerCallsOf (fun _ provider source => tracker.resolveGroup provider source height)
        provider source state) := by
  have hmirrors := resolveGroup_mirrors tracker provider source
    (resolutionBatch_mirrors tracker provider source height)
  have hresult : (outcome (tracker.resolveGroup provider source height) state).1 =
      (outcome (tracker.resolveGroup provider.watched source.watched height)
        (state.over Watched.start)).1 :=
    congrArg Prod.fst (hmirrors.outcome_eq (state.over Watched.start))
  simp only [requestsOf, providerCallsOf, watch]
  rw [hresult]
  by_cases hnone : tracker.pendingCoins height (state.over Watched.start).store = []
  · rw [resolveGroup_of_none tracker _ _ hnone]
    exact .nothing ((pendingCoins_eq_nil_iff tracker).mp hnone)
  · obtain ⟨id, coin, hcoin, hawaits⟩ : ∃ id coin, state.store.coin? id = some coin ∧
        tracker.Awaits height coin := by
      by_contra hall
      refine hnone ((pendingCoins_eq_nil_iff tracker).mpr fun id coin hcoin hawaits => hall ?_)
      exact ⟨id, coin, hcoin, hawaits⟩
    -- A coin waits, so the blocks of the window are what is asked for first.
    cases source.fetchStep (tracker.params.groupHeights height) state.outside [] [] with
    | given hgiven hrun =>
      -- What follows the blocks may fail as well, but it asks for no other.
      have hrequests : (outcome (tracker.resolveGroup provider.watched source.watched height)
          (state.over Watched.start)).2.outside.requests = tracker.params.groupHeights height := by
        rw [outside_resolveGroup tracker _ _ hnone]
        exact requests_resolutionBatch tracker provider source hrun
      rw [hrequests]
      exact .whole hcoin hawaits hgiven
    | failed hwindow hgiven hmissing hrun =>
      have hfailed := outcome_bind_of_error hrun
        (tracker.batchFrom provider.watched (tracker.pendingCoins height state.store))
      rw [resolveGroup_of_batch_error tracker provider.watched source.watched hnone hfailed]
      exact .failed hcoin hawaits hwindow hgiven hmissing

/-- At every height that fits, in every state and whatever the provider and the source answer: the
end of the window asks for no block if no coin waits for it. Otherwise it asks for the blocks of the
window in order, up to the first that the source fails on; this is then the failure, and the
provider is not called. At a height that ends no window, nothing is asked for. -/
theorem fetches_window (tracker : Tracker) (provider : Provider σ) (source : BlockSource σ)
    (state : TrackState σ) (height : UInt64) :
    let size := tracker.params.groupSize
    (height.toNat < 2 ^ 63 → ∃ window : List UInt64,
      window.map UInt64.toNat = List.range' (height.toNat / size * size) size ∧
      tracker.Fetches source height state window
        (outcome (tracker.resolveGroup provider source height) state).1
        (requestsOf (fun _ provider source => tracker.resolveGroup provider source height)
          provider source state)
        (providerCallsOf (fun _ provider source => tracker.resolveGroup provider source height)
          provider source state)) ∧
    (¬ size ∣ height.toNat + 1 →
      requestsOf (fun _ provider source => tracker.handleMaturity provider source height)
        provider source state = [] ∧
      ∀ block, block.height = height →
        requestsOf (fun _ provider source => tracker.processBlock provider source block)
          provider source state = []) := by
  intro size
  refine ⟨fun hheight => ?_, fun hinside => ?_⟩
  · exact ⟨_, tracker.params.map_toNat_groupHeights height hheight,
      resolveGroup_fetches tracker provider source height state⟩
  · rw [← tracker.params.isGroupEnd_iff_dvd height] at hinside
    -- No window ends here, so there is no window to resolve.
    refine ⟨requestsOf_eq_nil ?_ state, fun block hblock => requestsOf_eq_nil ?_ state⟩
    · exact handleMaturity_mirrors tracker provider source (f := id) fun hend => absurd hend hinside
    · exact processBlock_mirrors tracker provider source (f := id) (fun hend => absurd hend hinside)
        hblock

end Tracker

/-! ## A window with a gap -/

namespace GapRun

/-- A tracker with windows of three blocks that watches the account of the small run. -/
def tracker : Tracker := (Tracker.new ⟨1, 3, 7⟩).register ⟨0⟩ SmallRun.account

/-- A source that has the first block only. -/
def source : BlockSource Unit where
  fetch height := if height = 0 then return [] else throw [LocalChain.missingBlock height]

/-- A coin at the end of the first window. -/
def waiting : Coin where
  id := SmallRun.coinName
  account := ⟨0⟩
  blockHash := .zero .block
  height := 2
  txVersion := 1
  output := []
  value := 1
  isCoinbase := false
  status := .immature
  ringId? := none
  ringIndex? := none
  serialNumber? := none

/-- The coin is all that is stored. -/
def state : TrackState Unit := ⟨(CoinStore.empty.insertCoin waiting).2, ()⟩

end GapRun

/-- Of a window of three blocks the second is missing, and so the third is not asked for. One height
later nothing is asked for. -/
theorem Tracker.fetches_window_with_gap :
    (2 : UInt64).toNat < 2 ^ 63 ∧ ¬ GapRun.tracker.params.groupSize ∣ (3 : UInt64).toNat + 1 ∧
    (∃ window : List UInt64, window.map UInt64.toNat = [0, 1, 2] ∧
      GapRun.tracker.Fetches GapRun.source 2 GapRun.state window
        (outcome (GapRun.tracker.resolveGroup SmallRun.provider GapRun.source 2) GapRun.state).1
        [0, 1] []) ∧
    requestsOf (fun _ provider source => GapRun.tracker.handleMaturity provider source 3)
      SmallRun.provider GapRun.source GapRun.state = [] := by
  have hfits : (2 : UInt64).toNat < 2 ^ 63 := by decide
  have hinside : ¬ GapRun.tracker.params.groupSize ∣ (3 : UInt64).toNat + 1 := by decide
  have hend := fetches_window GapRun.tracker SmallRun.provider GapRun.source GapRun.state 2
  have hlater := fetches_window GapRun.tracker SmallRun.provider GapRun.source GapRun.state 3
  exact ⟨hfits, hinside, hend.1 hfits, (hlater.2 hinside).1⟩

end RingWallet
