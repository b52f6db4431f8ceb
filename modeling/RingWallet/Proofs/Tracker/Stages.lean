import Mathlib.Data.List.Perm.Basic
import RingWallet.Proofs.Store.Merge
import RingWallet.Proofs.Tracker.Settle

/-!
# Windows that are resolved in stages

The end of a window can be handled while some accounts are watched, and once more when further ones
are. The coins that wait at the two stages are together the coins that wait if all accounts are
watched at once (`IsPartOf.pendingCoins_perm`), the rings do not depend on the accounts, and what is
learned about a coin depends on its own account alone. So the batches of the two stages make up the
batch of the one (`Gathers.commit_in_two`), and the stores are the same up to the order in which the
coins of a serial number are listed (`IsPartOf.resolveGroup_in_stages`).

If the window was resolved in stages, it can be resolved at once: only two rings of the window with
one identifier could prevent it (`IsPartOf.resolveGroup_isOk`).
-/

set_option autoImplicit false

namespace RingWallet.Tracker

variable {σ : Type}

/-- The second tracker watches the accounts of the first, and maybe more. -/
structure IsPartOf (part whole : Tracker) : Prop where
  params_eq : part.params = whole.params
  get?_eq : ∀ id view, part.accounts.get? id = some view → whole.accounts.get? id = some view

/-! ## The coins of the stages -/

section Coins

variable {part whole : Tracker} (h : part.IsPartOf whole)

include h

theorem IsPartOf.account_eq {id : AccountId} (hwatched : part.accounts.contains id = true) :
    part.accounts.get? id = whole.accounts.get? id := by
  obtain ⟨view, hview⟩ := (OrderedMap.contains_iff _ _).mp hwatched
  rw [hview, h.get?_eq id view hview]

theorem IsPartOf.awaits {height : UInt64} {coin : Coin} (hawaits : part.Awaits height coin) :
    whole.Awaits height coin :=
  hawaits.congr h.params_eq (h.account_eq hawaits.watched)

/-- The coins that wait for all accounts wait for the first ones or are left over by them. -/
theorem IsPartOf.pendingCoins_perm {height : UInt64} {store between : CoinStore}
    {committed later : List CoinRing} {resolved : List (CoinId × Bool)}
    (hsound : LoggedStore.Sound ⟨store, committed⟩)
    (hsoundBetween : LoggedStore.Sound ⟨between, later⟩)
    (hresolves : part.Resolves height store between resolved) :
    (whole.pendingCoins height store).Perm
      (part.pendingCoins height store ++ whole.pendingCoins height between) := by
  have hnodup : (whole.pendingCoins height store).Nodup :=
    (nodup_pendingCoins whole hsound height).of_map Coin.id
  have hfirst : (part.pendingCoins height store).Nodup :=
    (nodup_pendingCoins part hsound height).of_map Coin.id
  have hsecond : (whole.pendingCoins height between).Nodup :=
    (nodup_pendingCoins whole hsoundBetween height).of_map Coin.id
  -- A coin that waited for the first accounts is linked now, so it does not wait any more.
  have hleft : ∀ {id coin waiting}, store.coin? id = some coin → part.Awaits height coin →
      between.coin? id = some waiting → ¬ whole.Awaits height waiting := by
    intro id coin waiting hcoin hawaits hbetween hwaiting
    obtain ⟨ringId, ringIndex, number, -, hlinked⟩ := hresolves.linked hcoin hawaits
    rw [hbetween] at hlinked
    cases hlinked
    exact nomatch hwaiting.ringId_eq
  have happend : (part.pendingCoins height store ++ whole.pendingCoins height between).Nodup := by
    refine hfirst.append hsecond fun coin hwaited hwaits => ?_
    obtain ⟨hcoin, hawaits⟩ := (mem_pendingCoins_iff_awaits part hsound).mp hwaited
    obtain ⟨hbetween, hwaiting⟩ := (mem_pendingCoins_iff_awaits whole hsoundBetween).mp hwaits
    exact hleft hcoin hawaits hbetween hwaiting
  rw [List.perm_ext_iff_of_nodup hnodup happend]
  intro coin
  rw [List.mem_append, mem_pendingCoins_iff_awaits whole hsound,
    mem_pendingCoins_iff_awaits part hsound, mem_pendingCoins_iff_awaits whole hsoundBetween]
  constructor
  · rintro ⟨hcoin, hawaits⟩
    by_cases hpart : part.Awaits height coin
    · exact .inl ⟨hcoin, hpart⟩
    · refine .inr ⟨?_, hawaits⟩
      rw [hresolves.others coin.id, hcoin]
      intro other hother
      rw [hcoin] at hother
      cases hother
      exact hpart
  · rintro (⟨hcoin, hawaits⟩ | ⟨hcoin, hawaits⟩)
    · exact ⟨hcoin, h.awaits hawaits⟩
    · refine ⟨?_, hawaits⟩
      rw [← hresolves.others coin.id, hcoin]
      exact fun other hother hwaited => hleft hother hwaited hcoin hawaits

end Coins

/-! ## The batches of the stages -/

/-- What is learned about a coin from rings. -/
def Learned (tracker : Tracker) (provider : Provider σ) (rings : List CoinRing) (coin : Coin)
    (resolution : RingResolution) : Prop :=
  ∃ place, Returns (tracker.resolution provider rings coin) (place, resolution)

/-- A batch for coins from rings: what is learned about each coin, and the ring of each. -/
structure Gathers (tracker : Tracker) (provider : Provider σ) (rings : List CoinRing)
    (coins : List Coin) (batch : ResolutionBatch) : Prop where
  learned : List.Forall₂ (tracker.Learned provider rings) coins batch.resolutions
  mem_rings_iff : ∀ ring, ring ∈ batch.rings ↔
    ∃ coin ∈ coins, ∃ place, lastRingOf? rings coin.id = some (place, ring)

variable {provider : Provider σ} {source : BlockSource σ} {rings : List CoinRing}

/-- With a steady provider, one thing at most is learned about a coin. -/
theorem learned_rightUnique (hsteady : provider.Follows provider) (tracker : Tracker)
    (rings : List CoinRing) : Relator.RightUnique (tracker.Learned provider rings) := by
  rintro coin resolution other ⟨place, hlearned⟩ ⟨otherPlace, hother⟩
  have hsame := (hsteady.resolution_echoes tracker rings coin).returns_unique hlearned hother
  exact (Prod.mk.inj hsame).2

/-- What is learned about a coin refers to the last ring that lists it. -/
theorem Learned.exists_ring {tracker : Tracker} {coin : Coin} {resolution : RingResolution}
    (h : tracker.Learned provider rings coin resolution) :
    ∃ place ring, lastRingOf? rings coin.id = some (place, ring) ∧ resolution.coin = coin.id ∧
      resolution.ringId = ring.ringId ∧ coin.id ∈ ring.coins := by
  obtain ⟨place, hlearned⟩ := h
  obtain ⟨ring, hlast, hcoin, hid, hindex, -, -⟩ :=
    exists_lastRing_of_resolution tracker provider hlearned
  exact ⟨place, ring, hlast, hcoin, hid, CoinRing.mem_coins_of_indexOf? hindex⟩

namespace Gathers

variable {tracker : Tracker} {coins : List Coin} {batch : ResolutionBatch}

theorem empty : tracker.Gathers provider rings [] ⟨[], []⟩ where
  learned := .nil
  mem_rings_iff ring := by simp

theorem map_coin_eq (h : tracker.Gathers provider rings coins batch) :
    batch.resolutions.map (·.coin) = coins.map Coin.id := by
  have hids : ∀ {coins : List Coin} {resolutions : List RingResolution},
      List.Forall₂ (tracker.Learned provider rings) coins resolutions →
        resolutions.map (·.coin) = coins.map Coin.id := by
    intro coins resolutions hlearned
    induction hlearned with
    | nil => rfl
    | cons hfirst _ ih =>
      obtain ⟨-, -, -, hcoin, -, -⟩ := Learned.exists_ring hfirst
      rw [List.map_cons, List.map_cons, hcoin, ih]
  exact hids h.learned

theorem subset (h : tracker.Gathers provider rings coins batch) : batch.rings ⊆ rings := by
  intro ring hring
  obtain ⟨coin, -, place, hlast⟩ := (h.mem_rings_iff ring).mp hring
  exact List.mem_of_getElem? (getElem?_of_lastRingOf? hlast)

/-- Every ring of the batch is the ring of one of its resolutions. -/
theorem exists_resolution (h : tracker.Gathers provider rings coins batch) {ring : CoinRing}
    (hring : ring ∈ batch.rings) : ∃ resolution ∈ batch.resolutions,
      resolution.ringId = ring.ringId ∧ resolution.coin ∈ ring.coins := by
  obtain ⟨coin, hcoin, place, hlast⟩ := (h.mem_rings_iff ring).mp hring
  obtain ⟨resolution, hmem, hlearned⟩ := exists_of_mem_right h.learned.flip hcoin
  obtain ⟨_, found, hfound, hid, hringId, hlisted⟩ := Learned.exists_ring hlearned
  rw [hlast] at hfound
  cases hfound
  exact ⟨resolution, hmem, hringId, hid ▸ hlisted⟩

/-- The same is learned about coins of accounts that both trackers watch. -/
theorem of_part {part whole : Tracker} (hpart : part.IsPartOf whole)
    (hwatched : ∀ coin ∈ coins, part.accounts.contains coin.account = true)
    (h : part.Gathers provider rings coins batch) : whole.Gathers provider rings coins batch where
  learned := by
    have hboth := (List.forall₂_and_left coins batch.resolutions).mpr ⟨hwatched, h.learned⟩
    refine hboth.imp ?_
    rintro coin resolution ⟨hcoin, place, hlearned⟩
    rw [resolution_congr (hpart.account_eq hcoin)] at hlearned
    exact ⟨place, hlearned⟩
  mem_rings_iff := h.mem_rings_iff

/-- The batches of two stages make up the batch of one, if no two different rings of the window share
a member. -/
theorem commit_in_two (hsteady : provider.Follows provider)
    (hmembers : ∀ a ∈ rings, ∀ b ∈ rings, ∀ coin, coin ∈ a.coins → coin ∈ b.coins → a = b)
    {first second : List Coin} (hperm : coins.Perm (first ++ second))
    (hnodup : (coins.map Coin.id).Nodup) {firstBatch secondBatch : ResolutionBatch}
    (hfirst : tracker.Gathers provider rings first firstBatch)
    (hsecond : tracker.Gathers provider rings second secondBatch)
    (hwhole : tracker.Gathers provider rings coins batch) {store between twice once : CoinStore}
    (hcommitFirst : store.commit firstBatch = .ok between)
    (hcommitSecond : between.commit secondBatch = .ok twice)
    (hcommit : store.commit batch = .ok once) : once.SameUpToOrder twice := by
  have hbatchMembers : ∀ a ∈ batch.rings, ∀ b ∈ batch.rings, ∀ coin,
      coin ∈ a.coins → coin ∈ b.coins → a = b :=
    fun a ha b hb => hmembers a (hwhole.subset ha) b (hwhole.subset hb)
  refine CoinStore.commit_in_two hcommitFirst hcommitSecond hcommit ⟨?_, hbatchMembers⟩ ?_ ?_ ?_
  · exact CoinStore.eq_of_ringId_of_commit hcommit (fun ring => hwhole.exists_resolution)
      hbatchMembers
  · intro ring
    rw [hwhole.mem_rings_iff, hfirst.mem_rings_iff, hsecond.mem_rings_iff]
    simp only [hperm.mem_iff, List.mem_append, or_and_right, exists_or]
  · exact List.rel_perm_imp (learned_rightUnique hsteady tracker rings) hwhole.learned
      (List.rel_append hfirst.learned hsecond.learned) hperm
  · rw [hwhole.map_coin_eq]
    exact hnodup

end Gathers

/-- Where the end of a window succeeds, a batch for the pending coins was taken over; it is empty if
nothing was pending. -/
theorem exists_gathers_of_resolveGroup {tracker : Tracker} {height : UInt64}
    {state after : TrackState σ} {resolved : List (CoinId × Bool)}
    (hformed : ∀ blocks formed, Returns (fetchGroup source tracker.params height) blocks →
      Returns (provider.buildRings blocks) formed → formed = rings)
    (hrun : outcome (tracker.resolveGroup provider source height) state = (.ok resolved, after)) :
    ∃ batch, tracker.Gathers provider rings (tracker.pendingCoins height state.store) batch ∧
      state.store.commit batch = .ok after.store := by
  obtain ⟨-, ⟨hnone, hsame⟩ | ⟨batch, hbatch, hcommit⟩⟩ :=
    resolveGroup_of_ok tracker provider source hrun
  · rw [hnone, hsame]
    exact ⟨⟨[], []⟩, .empty, rfl⟩
  · obtain ⟨blocks, formed, learned, hblocks, hrings, hlearned, hused, hresolutions⟩ :=
      exists_learned_of_resolutionBatch tracker provider source (.of_outcome hbatch)
    cases hformed blocks formed hblocks hrings
    refine ⟨batch, ⟨?_, fun ring => ?_⟩, hcommit⟩
    · rw [hresolutions, List.forall₂_map_right_iff]
      exact hlearned.imp fun coin entry hreturns => ⟨entry.1, hreturns⟩
    · -- A place that was named is the place of the last ring that lists the coin.
      rw [hused]
      constructor
      · rintro ⟨entry, hentry, hplace⟩
        obtain ⟨coin, hcoin, hreturns⟩ := exists_of_mem_right hlearned hentry
        obtain ⟨found, hlast, -⟩ := exists_lastRing_of_resolution tracker provider hreturns
        rw [getElem?_of_lastRingOf? hlast] at hplace
        cases hplace
        exact ⟨coin, hcoin, entry.1, hlast⟩
      · rintro ⟨coin, hcoin, place, hlast⟩
        obtain ⟨entry, hentry, hreturns⟩ := exists_of_mem_right hlearned.flip hcoin
        obtain ⟨found, hfound, -⟩ := exists_lastRing_of_resolution tracker provider hreturns
        rw [hlast] at hfound
        cases hfound
        exact ⟨entry, hentry, getElem?_of_lastRingOf? hlast⟩

/-! ## The stages -/

section Stages

variable {part whole : Tracker} {height : UInt64} {committed : List CoinRing}
  {state between start twice : TrackState σ} {first second : List (CoinId × Bool)}

/-- The rings of a window, if a provider and a source answer alike whenever they are asked. -/
theorem exists_formed (hsteady : provider.Follows provider) {params : ChainParams}
    (hfetch : Echoes (fetchGroup source params height) (fetchGroup source params height)) :
    ∃ rings, (∀ blocks formed, Returns (fetchGroup source params height) blocks →
        Returns (provider.buildRings blocks) formed → formed = rings) ∧
      ∀ ring ∈ rings, ∃ blocks, Returns (fetchGroup source params height) blocks ∧
        Returns (provider.buildRings blocks) rings := by
  by_cases hsome : ∃ blocks rings, Returns (fetchGroup source params height) blocks ∧
      Returns (provider.buildRings blocks) rings
  · obtain ⟨blocks, rings, hblocks, hrings⟩ := hsome
    refine ⟨rings, fun other formed hother hformed => ?_, fun _ _ => ⟨blocks, hblocks, hrings⟩⟩
    cases hfetch.returns_unique hblocks hother
    exact (hsteady.buildRings blocks).returns_unique hformed hrings
  · refine ⟨[], fun blocks formed hblocks hformed => ?_, fun ring hring => nomatch hring⟩
    exact absurd ⟨blocks, formed, hblocks, hformed⟩ hsome

/-- Where the end of a window succeeds, something was learned about every pending coin. -/
theorem exists_learned_of_pending {tracker : Tracker} {after : TrackState σ}
    {resolved : List (CoinId × Bool)}
    (hrun : outcome (tracker.resolveGroup provider source height) state = (.ok resolved, after))
    {coin : Coin} (hpending : coin ∈ tracker.pendingCoins height state.store) :
    ∃ blocks rings entry, Returns (fetchGroup source tracker.params height) blocks ∧
      Returns (provider.buildRings blocks) rings ∧
      Returns (tracker.resolution provider rings coin) entry := by
  obtain ⟨-, ⟨hnone, -⟩ | ⟨batch, hbatch, -⟩⟩ := resolveGroup_of_ok tracker provider source hrun
  · rw [hnone] at hpending
    cases hpending
  · obtain ⟨blocks, rings, learned, hblocks, hrings, hlearned, -⟩ :=
      exists_learned_of_resolutionBatch tracker provider source (.of_outcome hbatch)
    obtain ⟨entry, -, hreturns⟩ := exists_of_mem_right hlearned.flip hpending
    exact ⟨blocks, rings, entry, hblocks, hrings, hreturns⟩

variable (h : part.IsPartOf whole)
  (hsound : LoggedStore.Sound ⟨state.store, committed⟩)
  (hfirst : outcome (part.resolveGroup provider source height) state = (.ok first, between))

include h hsound hfirst in
theorem IsPartOf.pendingCoins_perm_of_resolveGroup :
    (whole.pendingCoins height state.store).Perm
      (part.pendingCoins height state.store ++ whole.pendingCoins height between.store) :=
  h.pendingCoins_perm hsound
    ((part.resolveGroup_commits provider source height).sound hsound hfirst)
    (part.resolveGroup_resolves provider source hsound hfirst)

variable (hsteady : provider.Follows provider)
  (hfetch : Echoes (fetchGroup source whole.params height) (fetchGroup source whole.params height))
  (hsecond : outcome (whole.resolveGroup provider source height) start = (.ok second, twice))
  (hstart : start.store = between.store)

include h hsound hfirst hsteady hfetch hsecond hstart

/-- A window that is resolved for some accounts and then for all is as if it were resolved for all at
once, if no two different rings of the window share a member. -/
theorem IsPartOf.resolveGroup_in_stages
    (hmembers : ∀ blocks rings, Returns (fetchGroup source whole.params height) blocks →
      Returns (provider.buildRings blocks) rings →
      ∀ a ∈ rings, ∀ b ∈ rings, ∀ coin, coin ∈ a.coins → coin ∈ b.coins → a = b)
    {origin once : TrackState σ} {resolved : List (CoinId × Bool)}
    (honce : outcome (whole.resolveGroup provider source height) origin = (.ok resolved, once))
    (horigin : origin.store = state.store) : once.store.SameUpToOrder twice.store := by
  obtain ⟨rings, hformed, hrings⟩ := exists_formed hsteady hfetch
  -- Each of the three runs took over a batch that was made from the same rings.
  obtain ⟨firstBatch, hfirstGathers, hfirstCommit⟩ := exists_gathers_of_resolveGroup
    (fun blocks formed hblocks => hformed blocks formed (h.params_eq ▸ hblocks)) hfirst
  obtain ⟨secondBatch, hsecondGathers, hsecondCommit⟩ :=
    exists_gathers_of_resolveGroup hformed hsecond
  obtain ⟨batch, hgathers, hcommit⟩ := exists_gathers_of_resolveGroup hformed honce
  rw [hstart] at hsecondGathers hsecondCommit
  rw [horigin] at hgathers hcommit
  have hwatched : ∀ coin ∈ part.pendingCoins height state.store,
      part.accounts.contains coin.account = true := by
    intro coin hpending
    obtain ⟨-, -, -, -, -, hcontains⟩ := (mem_pendingCoins_iff part).mp hpending
    exact hcontains
  refine Gathers.commit_in_two hsteady ?_ (h.pendingCoins_perm_of_resolveGroup hsound hfirst)
    (nodup_pendingCoins whole hsound height) (hfirstGathers.of_part h hwatched) hsecondGathers
    hgathers hfirstCommit hsecondCommit hcommit
  intro a ha
  obtain ⟨blocks, hblocks, hreturns⟩ := hrings a ha
  exact hmembers blocks rings hblocks hreturns a ha

/-- A window that was resolved for some accounts and then for all can be resolved for all at once, if
the rings of the window have different identifiers. -/
theorem IsPartOf.resolveGroup_isOk
    (hdistinct : ∀ blocks rings, Returns (fetchGroup source whole.params height) blocks →
      Returns (provider.buildRings blocks) rings →
      ∀ a ∈ rings, ∀ b ∈ rings, a.ringId = b.ringId → a = b)
    (origin : TrackState σ) (horigin : origin.store = state.store) :
    (outcome (whole.resolveGroup provider source height) origin).1.isOk = true := by
  have hperm := h.pendingCoins_perm_of_resolveGroup hsound hfirst
  rw [← horigin] at hsound hperm
  -- Something was learned about every coin at one of the stages.
  have hlearned : ∀ coin ∈ whole.pendingCoins height origin.store, ∃ blocks rings entry,
      Returns (fetchGroup source whole.params height) blocks ∧
      Returns (provider.buildRings blocks) rings ∧
      Returns (whole.resolution provider rings coin) entry := by
    intro coin hpending
    rcases List.mem_append.mp (hperm.mem_iff.mp hpending) with hpart | hleft
    · obtain ⟨-, -, -, -, -, hwatched⟩ := (mem_pendingCoins_iff part).mp hpart
      rw [horigin] at hpart
      obtain ⟨blocks, rings, entry, hblocks, hrings, hreturns⟩ :=
        exists_learned_of_pending hfirst hpart
      rw [resolution_congr (h.account_eq hwatched)] at hreturns
      exact ⟨blocks, rings, entry, h.params_eq ▸ hblocks, hrings, hreturns⟩
    · rw [← hstart] at hleft
      exact exists_learned_of_pending hsecond hleft
  by_cases hnone : whole.pendingCoins height origin.store = []
  · rw [whole.resolveGroup_of_none provider source hnone]
    rfl
  · obtain ⟨some, hsome⟩ := List.exists_mem_of_ne_nil _ hnone
    obtain ⟨blocks, rings, -, hblocks, hrings, -⟩ := hlearned some hsome
    obtain ⟨batch, hanswers⟩ := whole.exists_resolutionBatch_answers provider source
      (hfetch blocks hblocks) (hsteady.buildRings blocks rings hrings) fun coin hpending => by
        obtain ⟨other, formed, entry, hother, hformed, hreturns⟩ := hlearned coin hpending
        cases hfetch.returns_unique hblocks hother
        cases (hsteady.buildRings blocks).returns_unique hrings hformed
        exact ⟨entry, hsteady.resolution_echoes whole rings coin entry hreturns⟩
    exact whole.resolveGroup_isOk_of_answers provider source hsound hdistinct hanswers

end Stages

end RingWallet.Tracker
