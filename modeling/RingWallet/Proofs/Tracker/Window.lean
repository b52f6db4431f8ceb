import RingWallet.Proofs.Tracker.Batch
import RingWallet.Proofs.Tracker.Frame
import RingWallet.Proofs.Tracker.Keeps

/-!
# The end of a window

A window's end resolves all the coins that wait for it or changes nothing. A coin waits for the
window up to a height if it is immature and without a ring, its own height lies between the start of
the window and that height, and its account is watched (`Tracker.Awaits`). What success means is
`Tracker.Resolves`: exactly the waiting coins are named, in the order of their names, they are linked
to rings, and nothing else of the coins and of the sent transactions changes.

`resolveGroup_exact` says so of every state of a run, whatever the provider and the source answer. It
also excludes the one failure that would be the wallet's own: the store does not refuse a batch that
was learned from rings with different identifiers.
-/

set_option autoImplicit false

namespace RingWallet

open OrderKey (before)

variable {σ : Type}

namespace Tracker

/-- A coin that the end of a window, seen from a height, resolves. -/
structure Awaits (tracker : Tracker) (height : UInt64) (coin : Coin) : Prop where
  status_eq : coin.status = .immature
  ringId_eq : coin.ringId? = none
  start_le : tracker.params.groupStart height ≤ coin.height
  le_height : coin.height ≤ height
  watched : tracker.accounts.contains coin.account = true

/-- What the end of a window does to a store when it names the given coins, each with the answer
whether it is a coinbase coin. -/
structure Resolves (tracker : Tracker) (height : UInt64) (store later : CoinStore)
    (resolved : List (CoinId × Bool)) : Prop where
  /-- Exactly the coins that wait are named. -/
  mem_iff : ∀ id isCoinbase, (id, isCoinbase) ∈ resolved ↔ ∃ coin,
    store.coin? id = some coin ∧ tracker.Awaits height coin ∧ coin.isCoinbase = isCoinbase
  /-- They are named in the order of their names, and so each once. -/
  sorted : (resolved.map Prod.fst).Pairwise fun a b => before a b
  /-- A coin that waits is linked; it is spendable then unless it is a coinbase coin. -/
  linked : ∀ {id coin}, store.coin? id = some coin → tracker.Awaits height coin →
    ∃ ringId ringIndex serialNumber, serialNumber ≠ [] ∧ later.coin? id = some { coin with
      ringId? := some ringId
      ringIndex? := some ringIndex
      serialNumber? := some serialNumber
      status := if coin.isCoinbase then .immature else .spendable }
  /-- Any other coin is as it was, and no coin is added. -/
  others : ∀ id, (∀ coin, store.coin? id = some coin → ¬ tracker.Awaits height coin) →
    later.coin? id = store.coin? id
  pending_eq : later.pending = store.pending

variable (tracker : Tracker) (provider : Provider σ) (source : BlockSource σ)

variable {committed : List CoinRing} {height : UInt64} {store : CoinStore}

/-- The pending coins are the stored coins that wait. -/
theorem mem_pendingCoins_iff_awaits (hsound : LoggedStore.Sound ⟨store, committed⟩) {coin : Coin} :
    coin ∈ tracker.pendingCoins height store ↔
      store.coin? coin.id = some coin ∧ tracker.Awaits height coin := by
  rw [mem_pendingCoins_iff]
  constructor
  · rintro ⟨hvalue, hstatus, hunlinked, hle, hstart, hwatched⟩
    exact ⟨CoinStore.coin?_of_mem_values hsound hvalue, hstatus, hunlinked, hstart, hle, hwatched⟩
  · rintro ⟨hcoin, hawaits⟩
    exact ⟨(OrderedMap.mem_values_iff _ _).mpr ⟨coin.id, hcoin⟩, hawaits.status_eq,
      hawaits.ringId_eq, hawaits.le_height, hawaits.start_le, hawaits.watched⟩

/-- Pending coins come in the order of their names. -/
theorem sorted_pendingCoins (hsound : LoggedStore.Sound ⟨store, committed⟩) (height : UInt64) :
    ((tracker.pendingCoins height store).map Coin.id).Pairwise fun a b => before a b := by
  have hsub : ((tracker.pendingCoins height store).map Coin.id).Sublist
      (store.coins.values.map Coin.id) :=
    (List.filter_sublist.trans List.filter_sublist).map Coin.id
  rw [OrderedMap.map_values_eq_keys store.coins Coin.id fun _ _ => hsound.id_eq] at hsub
  exact (OrderedMap.sorted_keys store.coins).sublist hsub

/-- A change of a sound store resolves the window if it links the pending coins, leaves the others
alone, and names the pending coins. -/
theorem Resolves.of_pending (hsound : LoggedStore.Sound ⟨store, committed⟩) {later : CoinStore}
    (hlinked : ∀ coin ∈ tracker.pendingCoins height store, ∃ resolution,
      resolution.makeSpendable = (!coin.isCoinbase) ∧ resolution.serialNumber ≠ [] ∧
        later.coin? coin.id = some (coin.linked resolution))
    (hothers : ∀ id, (∀ coin, store.coin? id = some coin →
      coin ∉ tracker.pendingCoins height store) → later.coin? id = store.coin? id)
    (hsent : later.pending = store.pending) :
    tracker.Resolves height store later
      ((tracker.pendingCoins height store).map fun coin => (coin.id, coin.isCoinbase)) where
  mem_iff id isCoinbase := by
    rw [List.mem_map]
    constructor
    · rintro ⟨coin, hpending, heq⟩
      obtain ⟨rfl, hcoinbase⟩ := Prod.mk.inj heq
      obtain ⟨hcoin, hawaits⟩ := (mem_pendingCoins_iff_awaits tracker hsound).mp hpending
      exact ⟨coin, hcoin, hawaits, hcoinbase⟩
    · rintro ⟨coin, hcoin, hawaits, rfl⟩
      have hid : coin.id = id := hsound.id_eq hcoin
      subst hid
      exact ⟨coin, (mem_pendingCoins_iff_awaits tracker hsound).mpr ⟨hcoin, hawaits⟩, rfl⟩
  sorted := by
    rw [List.map_map]
    exact sorted_pendingCoins tracker hsound height
  linked := by
    intro id coin hcoin hawaits
    have hid : coin.id = id := hsound.id_eq hcoin
    subst hid
    obtain ⟨resolution, hspendable, hserial, hlater⟩ :=
      hlinked coin ((mem_pendingCoins_iff_awaits tracker hsound).mpr ⟨hcoin, hawaits⟩)
    refine ⟨resolution.ringId, resolution.ringIndex, resolution.serialNumber, hserial, ?_⟩
    rw [hlater, Coin.linked, hspendable, hawaits.status_eq]
    cases coin.isCoinbase <;> rfl
  others id hnone := by
    refine hothers id fun coin hcoin hpending => hnone coin hcoin ?_
    exact ((mem_pendingCoins_iff_awaits tracker hsound).mp hpending).2
  pending_eq := hsent

/-- An accepted batch for the pending coins resolves the window. -/
theorem commit_resolves (hsound : LoggedStore.Sound ⟨store, committed⟩) {later : CoinStore}
    {state after : σ} {batch : ResolutionBatch}
    (hbatch : outcome (tracker.resolutionBatch provider source height
      (tracker.pendingCoins height store)) state = (.ok batch, after))
    (hcommit : store.commit batch = .ok later) :
    tracker.Resolves height store later
      ((tracker.pendingCoins height store).map fun coin => (coin.id, coin.isCoinbase)) := by
  apply Resolves.of_pending tracker hsound
  · intro coin hpending
    obtain ⟨hcoin, -⟩ := (mem_pendingCoins_iff_awaits tracker hsound).mp hpending
    rcases coin?_commit_pending tracker provider source hsound hbatch hcommit hcoin with
      ⟨-, hlinked⟩ | ⟨hnot, -⟩
    · exact hlinked
    · exact absurd hpending hnot
  · -- A name without a pending coin has another coin or none.
    intro id hnone
    cases hcoin : store.coin? id with
    | some coin =>
      rcases coin?_commit_pending tracker provider source hsound hbatch hcommit hcoin with
        ⟨hpending, -⟩ | ⟨-, hsame⟩
      · exact absurd hpending (hnone coin hcoin)
      · exact hsame
    | none => exact coin?_commit_of_none tracker provider source hsound hbatch hcommit hcoin
  · exact CoinStore.pending_commit hcommit

/-- Where the end of a window succeeds, the window is resolved. -/
theorem resolveGroup_resolves {state after : TrackState σ} {resolved : List (CoinId × Bool)}
    (hsound : LoggedStore.Sound ⟨state.store, committed⟩)
    (hrun : outcome (tracker.resolveGroup provider source height) state = (.ok resolved, after)) :
    tracker.Resolves height state.store after.store resolved := by
  obtain ⟨rfl, ⟨hnone, hsame⟩ | ⟨batch, hbatch, hcommit⟩⟩ :=
    resolveGroup_of_ok tracker provider source hrun
  · -- Nothing is pending, so nothing is to be linked.
    rw [hsame]
    refine .of_pending tracker hsound (fun coin hmem => ?_) (fun _ _ => rfl) rfl
    rw [hnone] at hmem
    cases hmem
  · exact commit_resolves tracker provider source hsound hbatch hcommit

end Tracker

namespace Wallet

/-- In every state of a run and at every height, whatever the provider and the source answer: the
end of a window leaves the store as it was if it fails, and resolves exactly the coins that wait if
it succeeds. If the provider never forms two different rings with one identifier, it fails only where
a block, the rings, or the ring or the serial number of a waiting coin cannot be had. -/
theorem resolveGroup_exact (params : ChainParams) (outside : σ) (ops : List (Operation σ))
    (provider : Provider σ) (source : BlockSource σ) (height : UInt64) :
    let wallet := (start params outside).run ops
    let state : TrackState σ := ⟨wallet.store, wallet.outside⟩
    let batch := wallet.tracker.resolutionBatch provider source height
      (wallet.tracker.pendingCoins height wallet.store)
    let run := outcome (wallet.tracker.resolveGroup provider source height) state
    (∀ e, run.1 = .error e → run.2.store = wallet.store) ∧
      (∀ resolved, run.1 = .ok resolved →
        wallet.tracker.Resolves height wallet.store run.2.store resolved) ∧
      ((∀ blocks rings, Returns (provider.buildRings blocks) rings →
          ∀ a ∈ rings, ∀ b ∈ rings, a.ringId = b.ringId → a = b) →
        ∀ e, run.1 = .error e → (outcome batch wallet.outside).1 = .error e) := by
  intro wallet state batch run
  have hsound : LoggedStore.Sound ⟨state.store, (start params outside).committed ops⟩ :=
    run_sound params outside ops
  refine ⟨fun e herror => ?_, fun resolved hok => ?_, fun hdistinct e herror => ?_⟩
  · exact wallet.tracker.store_resolveGroup_of_error provider source (Prod.ext herror rfl)
  · exact wallet.tracker.resolveGroup_resolves provider source hsound (Prod.ext hok rfl)
  · have hbatch := wallet.tracker.batch_error_of_resolveGroup provider source hsound
      (fun blocks rings _ hrings => hdistinct blocks rings hrings) (Prod.ext herror rfl)
    exact congrArg Prod.fst hbatch

/-- The small run's coin waits for its window, which ends at its own height. -/
theorem small_run_resolveGroup_exact :
    let ops := [.register ⟨0⟩ SmallRun.account,
      .scan SmallRun.provider ⟨.zero .transaction, 1, [], [[]]⟩ true (.zero .block) 0]
    let wallet := (start SmallRun.params ()).run ops
    let run := outcome (wallet.tracker.resolveGroup SmallRun.provider SmallRun.source 0)
      ⟨wallet.store, wallet.outside⟩
    run.1 = .ok [(SmallRun.coinName, true)] ∧
      wallet.tracker.Resolves 0 wallet.store run.2.store [(SmallRun.coinName, true)] := by
  intro ops wallet run
  have hok : run.1 = .ok [(SmallRun.coinName, true)] := by decide +kernel
  exact ⟨hok, (resolveGroup_exact SmallRun.params () ops SmallRun.provider SmallRun.source 0).2.1
    _ hok⟩

end Wallet

end RingWallet
