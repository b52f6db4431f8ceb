import RingWallet.Proofs.Coin.RingCodec
import RingWallet.Proofs.Except
import RingWallet.Proofs.Tracker.Effects

/-!
# What a window's end learns

The batch of a window is made from the rings that the provider forms of the fetched blocks: each
coin is resolved by itself, by the last ring that lists it, and the batch keeps the rings that were
used (`resolutionBatch_learns`). So every resolution agrees with a ring of its own batch, whatever
the provider answers, and a batch for the pending coins is never refused unless the provider formed
two rings with one identifier (`exists_commit_pending`).
-/

set_option autoImplicit false

namespace RingWallet

variable {σ : Type}

/-- The last ring that lists a coin, where some ring does. -/
theorem exists_lastRing {rings : List CoinRing} {id : CoinId} (h : ∃ ring ∈ rings, id ∈ ring.coins) :
    ∃ place ring, lastRingOf? rings id = some (place, ring) ∧ rings[place]? = some ring ∧
      id ∈ ring.coins := by
  obtain ⟨ring, hring, hlisted⟩ := h
  obtain ⟨place, hplace⟩ := List.mem_iff_getElem?.mp hring
  have hentry : (ring, place) ∈ rings.zipIdx.reverse :=
    List.mem_reverse.mpr (List.mem_zipIdx_iff_getElem?.mpr hplace)
  have hsome : (rings.zipIdx.reverse.find? (·.1.contains id)).isSome = true := by
    rw [List.find?_isSome]
    exact ⟨(ring, place), hentry, (ring.contains_iff id).mpr hlisted⟩
  obtain ⟨last, hlast⟩ := Option.isSome_iff_exists.mp hsome
  refine ⟨last.2, last.1, ?_, ?_, ?_⟩
  · unfold lastRingOf?
    rw [hlast]
    rfl
  · exact List.mem_zipIdx_iff_getElem?.mp (List.mem_reverse.mp (List.mem_of_find?_eq_some hlast))
  · have hcontains := List.find?_some hlast
    exact (last.1.contains_iff id).mp hcontains

/-- The last ring that lists a coin stands at the named place. -/
theorem getElem?_of_lastRingOf? {rings : List CoinRing} {id : CoinId} {place : Nat} {ring : CoinRing}
    (h : lastRingOf? rings id = some (place, ring)) : rings[place]? = some ring := by
  unfold lastRingOf? at h
  obtain ⟨entry, hfound, hpair⟩ := Option.map_eq_some_iff.mp h
  obtain ⟨rfl, rfl⟩ := Prod.mk.inj hpair
  exact List.mem_zipIdx_iff_getElem?.mp (List.mem_reverse.mp (List.mem_of_find?_eq_some hfound))

/-- What is learned about a coin agrees with the rings it was learned from. -/
def Agrees (rings : List CoinRing) (learned : Nat × RingResolution) : Prop :=
  ∃ ring, rings[learned.1]? = some ring ∧ learned.2.ringId = ring.ringId ∧
    ring.indexOf? learned.2.coin = some learned.2.ringIndex ∧ learned.2.serialNumber ≠ []

/-- A store takes a batch over whose resolutions are of waiting coins and agree with the batch's
rings, if the rings have different identifiers. -/
theorem exists_commit {store : CoinStore} {batch : ResolutionBatch}
    (hdistinct : ∀ a ∈ batch.rings, ∀ b ∈ batch.rings, a.ringId = b.ringId → a = b)
    (hwaits : ∀ resolution ∈ batch.resolutions, ∃ coin,
      store.coin? resolution.coin = some coin ∧ coin.status = .immature)
    (hagrees : ∀ resolution ∈ batch.resolutions, ∃ ring ∈ batch.rings,
      resolution.ringId = ring.ringId ∧
      ring.indexOf? resolution.coin = some resolution.ringIndex ∧ resolution.serialNumber ≠ []) :
    ∃ later, store.commit batch = .ok later := by
  refine ⟨_, (CoinStore.commit_eq_ok_iff store _ batch).mpr ⟨fun resolution hmem => ?_, rfl⟩⟩
  obtain ⟨coin, hcoin, hstatus⟩ := hwaits resolution hmem
  obtain ⟨ring, hring, hid, hindex, hne⟩ := hagrees resolution hmem
  -- The ring that the store finds by the identifier is the coin's own ring.
  obtain ⟨found, hmemFound, hfoundId, hfound⟩ := store.exists_batchRing? hring
  rw [hdistinct found hmemFound ring hring hfoundId, ← hid] at hfound
  exact .intro hcoin hstatus hne hfound hindex

namespace Tracker

variable (tracker : Tracker) (provider : Provider σ) (source : BlockSource σ)

/-- A resolution agrees with the rings. -/
theorem resolution_agrees {rings : List CoinRing} {coin : Coin} {learned : Nat × RingResolution}
    (h : Returns (tracker.resolution provider rings coin) learned) : Agrees rings learned := by
  obtain ⟨ring, hlast, hcoin, hid, hindex, hne, -⟩ :=
    exists_lastRing_of_resolution tracker provider h
  exact ⟨ring, getElem?_of_lastRingOf? hlast, hid, by rw [hcoin, hindex], hne⟩

/-- Each coin is resolved by itself, in the order of the coins. -/
theorem forall₂_of_resolutions {rings : List CoinRing} {coins : List Coin}
    {learned : List (Nat × RingResolution)}
    (h : Returns (tracker.resolutions provider rings coins) learned) :
    List.Forall₂ (fun coin entry => Returns (tracker.resolution provider rings coin) entry)
      coins learned := by
  induction coins generalizing learned with
  | nil =>
    unfold resolutions at h
    cases h.eq_of_pure
    exact .nil
  | cons coin rest ih =>
    unfold resolutions at h
    obtain ⟨first, hfirst, h⟩ := h.bind
    obtain ⟨others, hothers, h⟩ := h.bind
    cases h.eq_of_pure
    exact .cons hfirst (ih hothers)

/-- Coins that are each resolved are resolved together. -/
theorem exists_resolutions_answers {rings : List CoinRing} {coins : List Coin}
    (h : ∀ coin ∈ coins, ∃ entry, Answers (tracker.resolution provider rings coin) entry) :
    ∃ learned, Answers (tracker.resolutions provider rings coins) learned := by
  induction coins with
  | nil => exact ⟨[], .pure []⟩
  | cons coin rest ih =>
    obtain ⟨first, hfirst⟩ := h coin List.mem_cons_self
    obtain ⟨others, hothers⟩ := ih fun other hmem => h other (List.mem_cons_of_mem _ hmem)
    refine ⟨first :: others, ?_⟩
    unfold resolutions
    exact hfirst.bind (hothers.bind (.pure _))

/-- There is a batch for coins that are each resolved by the rings of the window. -/
theorem exists_resolutionBatch_answers {height : UInt64} {coins : List Coin} {blocks : List Bytes}
    {rings : List CoinRing} (hblocks : Answers (fetchGroup source tracker.params height) blocks)
    (hrings : Answers (provider.buildRings blocks) rings)
    (hcoins : ∀ coin ∈ coins, ∃ entry, Answers (tracker.resolution provider rings coin) entry) :
    ∃ batch, Answers (tracker.resolutionBatch provider source height coins) batch := by
  obtain ⟨learned, hlearned⟩ := exists_resolutions_answers tracker provider hcoins
  unfold resolutionBatch
  exact ⟨_, hblocks.bind (hrings.consult.bind (hlearned.bind (.pure _)))⟩

/-- How a batch for coins comes about: blocks are fetched, rings are formed of them, each coin is
resolved by itself, and the batch keeps the rings whose places were named. -/
theorem exists_learned_of_resolutionBatch {height : UInt64} {coins : List Coin}
    {batch : ResolutionBatch}
    (h : Returns (tracker.resolutionBatch provider source height coins) batch) :
    ∃ blocks rings learned, Returns (fetchGroup source tracker.params height) blocks ∧
      Returns (provider.buildRings blocks) rings ∧
      List.Forall₂ (fun coin entry => Returns (tracker.resolution provider rings coin) entry)
        coins learned ∧
      (∀ ring, ring ∈ batch.rings ↔ ∃ entry ∈ learned, rings[entry.1]? = some ring) ∧
      batch.resolutions = learned.map Prod.snd := by
  unfold resolutionBatch at h
  obtain ⟨blocks, hblocks, h⟩ := h.bind
  obtain ⟨rings, hrings, h⟩ := h.bind
  obtain ⟨learned, hlearned, h⟩ := h.bind
  cases h.eq_of_pure
  refine ⟨blocks, rings, learned, hblocks, hrings.of_adapt,
    forall₂_of_resolutions tracker provider hlearned, fun ring => ?_, rfl⟩
  rw [List.mem_map]
  constructor
  · rintro ⟨⟨found, place⟩, hentry, rfl⟩
    obtain ⟨hfound, hused⟩ := List.mem_filter.mp hentry
    obtain ⟨entry, hmem, rfl⟩ := List.mem_map.mp (List.contains_iff_mem.mp hused)
    exact ⟨entry, hmem, List.mem_zipIdx_iff_getElem?.mp hfound⟩
  · rintro ⟨entry, hmem, hplace⟩
    refine ⟨(ring, entry.1), List.mem_filter.mpr ⟨?_, ?_⟩, rfl⟩
    · exact List.mem_zipIdx_iff_getElem?.mpr hplace
    · exact List.contains_iff_mem.mpr (List.mem_map_of_mem hmem)

/-- A batch for coins, as it comes about from rings. -/
structure Learns (height : UInt64) (coins : List Coin) (rings : List CoinRing)
    (batch : ResolutionBatch) : Prop where
  /-- The rings were formed of the blocks of the window. -/
  formed : ∃ blocks, Returns (fetchGroup source tracker.params height) blocks ∧
    Returns (provider.buildRings blocks) rings
  mem_rings : ∀ ring ∈ batch.rings, ring ∈ rings
  /-- Every resolution was learned about one of the coins by itself. -/
  of_coin : ∀ resolution ∈ batch.resolutions, ∃ coin ∈ coins, ∃ place,
    Returns (tracker.resolution provider rings coin) (place, resolution)
  agrees : ∀ resolution ∈ batch.resolutions, ∃ ring ∈ batch.rings,
    resolution.ringId = ring.ringId ∧ ring.indexOf? resolution.coin = some resolution.ringIndex ∧
      resolution.serialNumber ≠ []

theorem resolutionBatch_learns {height : UInt64} {coins : List Coin} {batch : ResolutionBatch}
    (h : Returns (tracker.resolutionBatch provider source height coins) batch) :
    ∃ rings, tracker.Learns provider source height coins rings batch := by
  obtain ⟨blocks, rings, learned, hblocks, hrings, hlearned, hused, hresolutions⟩ :=
    exists_learned_of_resolutionBatch tracker provider source h
  refine ⟨rings, ⟨blocks, hblocks, hrings⟩, fun ring hmem => ?_,
    fun resolution hmem => ?_, fun resolution hmem => ?_⟩
  · obtain ⟨entry, -, hplace⟩ := (hused ring).mp hmem
    exact List.mem_of_getElem? hplace
  · rw [hresolutions] at hmem
    obtain ⟨⟨place, _⟩, hentry, rfl⟩ := List.mem_map.mp hmem
    obtain ⟨coin, hcoin, hreturns⟩ := exists_of_mem_right hlearned hentry
    exact ⟨coin, hcoin, place, hreturns⟩
  · -- The ring that a resolution agrees with was used, so the batch keeps it.
    rw [hresolutions] at hmem
    obtain ⟨entry, hentry, rfl⟩ := List.mem_map.mp hmem
    obtain ⟨coin, -, hreturns⟩ := exists_of_mem_right hlearned hentry
    obtain ⟨ring, hring, hid, hindex, hne⟩ := resolution_agrees tracker provider hreturns
    exact ⟨ring, (hused ring).mpr ⟨entry, hentry, hring⟩, hid, hindex, hne⟩

/-- A batch for the pending coins is not refused if the rings that it was learned from have different
identifiers. -/
theorem exists_commit_pending {committed : List CoinRing} {height : UInt64} {store : CoinStore}
    {state after : σ} {batch : ResolutionBatch} (hsound : LoggedStore.Sound ⟨store, committed⟩)
    (hbatch : outcome (tracker.resolutionBatch provider source height
      (tracker.pendingCoins height store)) state = (.ok batch, after))
    (hdistinct : ∀ blocks rings, Returns (fetchGroup source tracker.params height) blocks →
      Returns (provider.buildRings blocks) rings →
      ∀ a ∈ rings, ∀ b ∈ rings, a.ringId = b.ringId → a = b) :
    ∃ later, store.commit batch = .ok later := by
  obtain ⟨rings, hlearns⟩ := resolutionBatch_learns tracker provider source (.of_outcome hbatch)
  obtain ⟨blocks, hblocks, hrings⟩ := hlearns.formed
  refine exists_commit (fun a ha b hb => ?_) (fun resolution hmem => ?_) hlearns.agrees
  · exact hdistinct blocks rings hblocks hrings a (hlearns.mem_rings a ha) b
      (hlearns.mem_rings b hb)
  · have hid := List.mem_map_of_mem (f := RingResolution.coin) hmem
    rw [resolutionBatch_ids tracker provider source hbatch] at hid
    obtain ⟨coin, hpending, hid⟩ := List.mem_map.mp hid
    obtain ⟨hvalue, hstatus, -⟩ := (mem_pendingCoins_iff tracker).mp hpending
    rw [← hid]
    exact ⟨coin, CoinStore.coin?_of_mem_values hsound hvalue, hstatus⟩

/-- The end of a window fails only where its batch fails, if the rings that are formed have different
identifiers. -/
theorem batch_error_of_resolveGroup {committed : List CoinRing} {height : UInt64}
    {state after : TrackState σ} {e : WalletError}
    (hsound : LoggedStore.Sound ⟨state.store, committed⟩)
    (hdistinct : ∀ blocks rings, Returns (fetchGroup source tracker.params height) blocks →
      Returns (provider.buildRings blocks) rings →
      ∀ a ∈ rings, ∀ b ∈ rings, a.ringId = b.ringId → a = b)
    (hrun : outcome (tracker.resolveGroup provider source height) state = (.error e, after)) :
    outcome (tracker.resolutionBatch provider source height
      (tracker.pendingCoins height state.store)) state.outside = (.error e, after.outside) := by
  cases resolveGroup_step tracker provider source height state with
  | idle _ hidle _ =>
    rw [hidle] at hrun
    cases hrun
  | unanswered hbatch hfailed _ =>
    rw [hfailed] at hrun
    cases hrun
    exact hbatch
  | refused hbatch hcommit _ _ =>
    obtain ⟨later, haccepted⟩ :=
      exists_commit_pending tracker provider source hsound hbatch hdistinct
    rw [haccepted] at hcommit
    cases hcommit
  | accepted _ _ haccepted _ =>
    rw [haccepted] at hrun
    cases hrun

/-- The end of a window succeeds if there is a batch for the pending coins and the rings that are
formed have different identifiers. -/
theorem resolveGroup_isOk_of_answers {committed : List CoinRing} {height : UInt64}
    {state : TrackState σ} (hsound : LoggedStore.Sound ⟨state.store, committed⟩)
    (hdistinct : ∀ blocks rings, Returns (fetchGroup source tracker.params height) blocks →
      Returns (provider.buildRings blocks) rings →
      ∀ a ∈ rings, ∀ b ∈ rings, a.ringId = b.ringId → a = b)
    {batch : ResolutionBatch} (hanswers : Answers (tracker.resolutionBatch provider source height
      (tracker.pendingCoins height state.store)) batch) :
    (outcome (tracker.resolveGroup provider source height) state).1.isOk = true := by
  obtain ⟨later, hbatch⟩ := hanswers state.outside
  rcases hrun : outcome (tracker.resolveGroup provider source height) state with
    ⟨e | resolved, after⟩
  · have hfailed := batch_error_of_resolveGroup tracker provider source hsound hdistinct hrun
    rw [hbatch] at hfailed
    cases hfailed
  · rfl

end Tracker

end RingWallet
