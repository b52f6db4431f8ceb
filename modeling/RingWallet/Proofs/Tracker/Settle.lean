import RingWallet.Proofs.Store.Share
import RingWallet.Proofs.Tracker.Follow
import RingWallet.Proofs.Tracker.Window

/-!
# What a window makes of each coin

Where the end of a window succeeds, it acts on each stored coin by itself
(`resolveGroup_evolves`): a coin that waits is linked by what is learned about it from the rings of
the window, and any other coin is as it was (`Tracker.Settles`). With a provider and a source whose
answers do not depend on when they are asked, this is a function of the coin, of the parameters and
of the account that is watched under the coin's number (`Settles.unique`); the other accounts and the
other coins do not matter.
-/

set_option autoImplicit false

namespace RingWallet.Tracker

variable {σ : Type}

variable (tracker : Tracker) (provider : Provider σ) (source : BlockSource σ)

/-- What the end of a window makes of a coin: one that waits is linked as it is learned from the rings
of the window, and any other is as it was. -/
inductive Settles (height : UInt64) (coin : Coin) : Coin → Prop
  | linked (hawaits : tracker.Awaits height coin) {blocks : List Bytes} {rings : List CoinRing}
      {place : Nat} {resolution : RingResolution}
      (hblocks : Returns (fetchGroup source tracker.params height) blocks)
      (hrings : Returns (provider.buildRings blocks) rings)
      (hlearned : Returns (tracker.resolution provider rings coin) (place, resolution)) :
      Settles height coin (coin.linked resolution)
  | kept (hnot : ¬ tracker.Awaits height coin) : Settles height coin coin

variable {tracker provider source}

theorem Settles.account_eq {height : UInt64} {coin after : Coin}
    (h : tracker.Settles provider source height coin after) : after.account = coin.account := by
  cases h with
  | linked => rfl
  | kept => rfl

/-- What is learned about a coin depends on its own account alone. -/
theorem resolution_congr {other : Tracker} {coin : Coin}
    (h : tracker.accounts.get? coin.account = other.accounts.get? coin.account)
    (rings : List CoinRing) :
    tracker.resolution provider rings coin = other.resolution provider rings coin := by
  unfold resolution
  rw [h]

theorem Awaits.congr {other : Tracker} {height : UInt64} {coin : Coin}
    (hparams : tracker.params = other.params)
    (haccount : tracker.accounts.get? coin.account = other.accounts.get? coin.account)
    (h : tracker.Awaits height coin) : other.Awaits height coin where
  status_eq := h.status_eq
  ringId_eq := h.ringId_eq
  start_le := hparams ▸ h.start_le
  le_height := h.le_height
  watched := by
    unfold OrderedMap.contains
    rw [← haccount]
    exact h.watched

/-- Two trackers that watch the same account under a coin's number make the same of the coin. -/
theorem Settles.unique (hsteady : provider.Follows provider) (hsource : source.Follows source)
    {other : Tracker} (hparams : tracker.params = other.params) {height : UInt64}
    {coin after after' : Coin}
    (haccount : tracker.accounts.get? coin.account = other.accounts.get? coin.account)
    (h : tracker.Settles provider source height coin after)
    (h' : other.Settles provider source height coin after') : after = after' := by
  cases h with
  | linked hawaits hblocks hrings hlearned =>
    cases h' with
    | linked _ hblocks' hrings' hlearned' =>
      -- The blocks, the rings and the resolution are the only ones that can be returned.
      rw [hparams] at hblocks
      cases (hsource.fetchAll_echoes _).returns_unique hblocks hblocks'
      cases (hsteady.buildRings _).returns_unique hrings hrings'
      rw [resolution_congr haccount] at hlearned
      cases (hsteady.resolution_echoes other _ coin).returns_unique hlearned hlearned'
      rfl
    | kept hnot => exact absurd (hawaits.congr hparams haccount) hnot
  | kept hnot =>
    cases h' with
    | linked hawaits => exact absurd (hawaits.congr hparams.symm haccount.symm) hnot
    | kept => rfl

/-- The resolution that links a pending coin was learned about that coin. -/
theorem settles_of_pending {committed : List CoinRing} {height : UInt64} {store later : CoinStore}
    {state after : σ} {batch : ResolutionBatch} (hsound : LoggedStore.Sound ⟨store, committed⟩)
    (hbatch : outcome (tracker.resolutionBatch provider source height
      (tracker.pendingCoins height store)) state = (.ok batch, after))
    (hcommit : store.commit batch = .ok later) {coin : Coin}
    (hpending : coin ∈ tracker.pendingCoins height store) :
    ∃ settled, later.coin? coin.id = some settled ∧
      tracker.Settles provider source height coin settled := by
  obtain ⟨hcoin, hawaits⟩ := (mem_pendingCoins_iff_awaits tracker hsound).mp hpending
  obtain ⟨resolution, hmem, hid, -, hlater⟩ :=
    exists_resolution_of_pending tracker provider source hsound hbatch hcommit hpending
  obtain ⟨rings, hlearns⟩ := resolutionBatch_learns tracker provider source (.of_outcome hbatch)
  obtain ⟨blocks, hblocks, hrings⟩ := hlearns.formed
  obtain ⟨found, hfound, place, hlearned⟩ := hlearns.of_coin resolution hmem
  -- The coin that it was learned about has the same name, so it is the same coin.
  obtain ⟨hfoundCoin, -⟩ := (mem_pendingCoins_iff_awaits tracker hsound).mp hfound
  have hsame : found = coin := by
    obtain ⟨before, behind, hran⟩ := hlearned
    obtain ⟨hname, -⟩ := resolution_facts tracker provider hran
    rw [← hname, hid, hcoin] at hfoundCoin
    exact (Option.some.inj hfoundCoin).symm
  subst hsame
  exact ⟨_, hlater, .linked hawaits hblocks hrings hlearned⟩

/-- The end of a window acts on each coin by itself. -/
theorem resolveGroup_evolves {committed : List CoinRing} {height : UInt64}
    {state after : TrackState σ} {resolved : List (CoinId × Bool)}
    (hsound : LoggedStore.Sound ⟨state.store, committed⟩)
    (hrun : outcome (tracker.resolveGroup provider source height) state = (.ok resolved, after)) :
    CoinStore.Evolves (tracker.Settles provider source height) state.store after.store := by
  have hresolves := resolveGroup_resolves tracker provider source hsound hrun
  intro id
  cases hcoin : state.store.coin? id with
  | none =>
    have hothers : ∀ other, state.store.coin? id = some other →
        ¬ tracker.Awaits height other := by
      intro other hother
      rw [hcoin] at hother
      cases hother
    rw [hresolves.others id hothers, hcoin]
    exact .none
  | some coin =>
    have hid : coin.id = id := hsound.id_eq hcoin
    subst hid
    by_cases hawaits : tracker.Awaits height coin
    · -- Something is pending, so a batch was taken over.
      have hpending := (mem_pendingCoins_iff_awaits tracker hsound).mpr ⟨hcoin, hawaits⟩
      obtain ⟨-, ⟨hnone, -⟩ | ⟨batch, hbatch, hcommit⟩⟩ :=
        resolveGroup_of_ok tracker provider source hrun
      · rw [hnone] at hpending
        cases hpending
      · obtain ⟨settled, hlater, hsettles⟩ := settles_of_pending hsound hbatch hcommit hpending
        rw [hlater]
        exact .some hsettles
    · have hothers : ∀ other, state.store.coin? coin.id = some other →
          ¬ tracker.Awaits height other := by
        intro other hother
        rw [hcoin] at hother
        cases hother
        exact hawaits
      rw [hresolves.others coin.id hothers, hcoin]
      exact .some (.kept hawaits)

end RingWallet.Tracker
