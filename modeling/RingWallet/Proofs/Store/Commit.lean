import RingWallet.Proofs.Keyed
import RingWallet.Proofs.Store.Change

/-!
# Commits

A batch is taken over if every resolution passes its check (`checkBatch_eq_ok_iff`). What a passed
check says about a resolution is `Fits`: its coin waits in the store, its serial number can be used,
and its ring lists the coin at the place that is named.

A commit of resolutions of different coins that were never linked before is a history that commits
the batch's rings (`commit_history`), and its effect on each coin is one equation (`coin?_commit`).
-/

set_option autoImplicit false

namespace RingWallet

namespace CoinStore

variable {committed : List CoinRing}

/-! ## Checks -/

/-- What a batch is checked with: its rings under their identifiers. -/
abbrev entriesOf (rings : List CoinRing) : List (RingId × CoinRing) :=
  rings.map fun ring => (ring.ringId, ring)

/-- A resolution that agrees with the store and with the rings of its batch. -/
inductive Fits (store : CoinStore) (rings : List CoinRing) (resolution : RingResolution) : Prop where
  | intro {coin : Coin} {ring : CoinRing} (hcoin : store.coin? resolution.coin = some coin)
      (hstatus : coin.status = .immature) (hserial : resolution.serialNumber ≠ [])
      (hring : store.batchRing? (entriesOf rings) resolution.ringId = some ring)
      (hplace : ring.indexOf? resolution.coin = some resolution.ringIndex)

theorem checkResolution_eq_ok_iff (store : CoinStore) (rings : List CoinRing)
    (resolution : RingResolution) :
    store.checkResolution (entriesOf rings) resolution = .ok () ↔ Fits store rings resolution := by
  unfold checkResolution
  constructor
  · -- Each question of the check has one answer that is not a refusal.
    intro h
    cases hcoin : store.coin? resolution.coin with
    | none => simp [hcoin] at h
    | some coin =>
      by_cases hstatus : coin.status = .immature
      · by_cases hserial : resolution.serialNumber = []
        · simp [hcoin, hstatus, hserial] at h
        · cases hring : store.batchRing? (entriesOf rings) resolution.ringId with
          | none => simp [hcoin, hstatus, hserial, hring] at h
          | some ring =>
            refine .intro hcoin hstatus hserial hring ?_
            by_cases hplace : ring.indexOf? resolution.coin = some resolution.ringIndex
            · exact hplace
            · simp [hcoin, hstatus, hserial, hring, hplace] at h
      · simp [hcoin, hstatus] at h
  · rintro ⟨hcoin, hstatus, hserial, hring, hplace⟩
    simp [hcoin, hstatus, hserial, hring, hplace]

theorem checkBatch_eq_ok_iff (store : CoinStore) (rings : List CoinRing)
    (resolutions : List RingResolution) :
    store.checkBatch (entriesOf rings) resolutions = .ok () ↔
      ∀ resolution ∈ resolutions, Fits store rings resolution := by
  induction resolutions with
  | nil => simp [checkBatch]
  | cons first rest ih =>
    rw [checkBatch, List.forall_mem_cons, ← checkResolution_eq_ok_iff]
    cases store.checkResolution (entriesOf rings) first with
    | error fault => simp
    | ok => simp [ih]

/-- The ring that a resolution refers to has the named identifier and is one of the batch, or is
stored. -/
theorem mem_or_ring?_of_batchRing? {store : CoinStore} {rings : List CoinRing} {id : RingId}
    {ring : CoinRing} (h : store.batchRing? (entriesOf rings) id = some ring) :
    (ring ∈ rings ∧ ring.ringId = id) ∨ store.ring? id = some ring := by
  unfold batchRing? at h
  rcases Option.or_eq_some_iff.mp h with h | ⟨-, h⟩
  · obtain ⟨entry, hfind, rfl⟩ := Option.map_eq_some_iff.mp h
    have hid : entry.1 = id := by simpa using List.find?_some hfind
    have hentry := List.mem_reverse.mp (List.mem_of_find?_eq_some hfind)
    obtain ⟨found, hmem, rfl⟩ := List.mem_map.mp hentry
    exact .inl ⟨hmem, hid⟩
  · exact .inr h

/-- By the identifier of a ring of the batch, a ring of the batch with that identifier is found. -/
theorem exists_batchRing? (store : CoinStore) {rings : List CoinRing} {ring : CoinRing}
    (h : ring ∈ rings) : ∃ found ∈ rings, found.ringId = ring.ringId ∧
      store.batchRing? (entriesOf rings) ring.ringId = some found := by
  have hentry : (ring.ringId, ring) ∈ (entriesOf rings).reverse :=
    List.mem_reverse.mpr (List.mem_map_of_mem h)
  have hsome : ((entriesOf rings).reverse.find? (·.1 == ring.ringId)).isSome = true :=
    List.find?_isSome.mpr ⟨_, hentry, beq_self_eq_true _⟩
  obtain ⟨last, hlast⟩ := Option.isSome_iff_exists.mp hsome
  have hid : last.1 = ring.ringId := by simpa using List.find?_some hlast
  obtain ⟨found, hfound, rfl⟩ :=
    List.mem_map.mp (List.mem_reverse.mp (List.mem_of_find?_eq_some hlast))
  refine ⟨found, hfound, hid, ?_⟩
  unfold batchRing?
  rw [hlast]
  rfl

theorem commit_eq_ok_iff (store later : CoinStore) (batch : ResolutionBatch) :
    store.commit batch = .ok later ↔
      (∀ resolution ∈ batch.resolutions, Fits store batch.rings resolution) ∧
        later = batch.resolutions.foldl resolve ((entriesOf batch.rings).foldl addRing store) := by
  rw [← checkBatch_eq_ok_iff]
  unfold commit entriesOf
  dsimp only
  cases store.checkBatch (batch.rings.map fun ring => (ring.ringId, ring)) batch.resolutions with
  | error fault => simp
  | ok => simp [eq_comm]

/-! ## Effects -/

@[simp] theorem coin?_foldl_addRing (entries : List (RingId × CoinRing)) (store : CoinStore)
    (id : CoinId) : (entries.foldl addRing store).coin? id = store.coin? id := by
  induction entries generalizing store with
  | nil => rfl
  | cons entry rest ih => rw [List.foldl_cons, ih, coin?_addRing]

theorem foldl_addRing_history (rings : List CoinRing) (store : CoinStore) :
    History ⟨store, committed⟩
      ⟨(entriesOf rings).foldl addRing store, committed ++ rings⟩ := by
  induction rings generalizing store committed with
  | nil =>
    rw [List.append_nil]
    exact .refl
  | cons ring rest ih =>
    have hrest : History ⟨store.addRing (ring.ringId, ring), committed ++ [ring]⟩
        ⟨(entriesOf rest).foldl addRing (store.addRing (ring.ringId, ring)),
          committed ++ [ring] ++ rest⟩ := ih _
    rw [List.append_assoc, List.singleton_append] at hrest
    exact Relation.ReflTransGen.head (.addRing ring) hrest

/-- Resolutions of different coins link exactly these. -/
theorem coin?_foldl_resolve {resolutions : List RingResolution}
    (hnodup : (resolutions.map (·.coin)).Nodup) (store : CoinStore) (id : CoinId) :
    (resolutions.foldl resolve store).coin? id =
      match resolutions.find? (·.coin == id) with
      | some resolution => (store.coin? id).map (·.linked resolution)
      | none => store.coin? id := by
  induction resolutions generalizing store with
  | nil => rfl
  | cons first rest ih =>
    obtain ⟨hnotMem, hrest⟩ := List.nodup_cons.mp (List.map_cons ▸ hnodup)
    rw [List.foldl_cons, ih hrest, coin?_resolve]
    by_cases hfirst : first.coin = id
    · subst hfirst
      have hnone := find?_key_eq_none RingResolution.coin hnotMem
      rw [hnone, if_pos rfl]
      simp
    · rw [if_neg hfirst, List.find?_cons_of_neg (by simpa using hfirst)]

/-- The effect of a commit on each coin. -/
theorem coin?_commit {store later : CoinStore} {batch : ResolutionBatch}
    (h : store.commit batch = .ok later) (hnodup : (batch.resolutions.map (·.coin)).Nodup)
    (id : CoinId) :
    later.coin? id =
      match batch.resolutions.find? (·.coin == id) with
      | some resolution => (store.coin? id).map (·.linked resolution)
      | none => store.coin? id := by
  obtain ⟨-, rfl⟩ := (commit_eq_ok_iff store later batch).mp h
  rw [coin?_foldl_resolve hnodup, coin?_foldl_addRing]

/-- A resolution that can be applied to a store beside its committed rings. -/
inductive Applies (store : CoinStore) (committed : List CoinRing) (resolution : RingResolution) :
    Prop where
  | intro {coin : Coin} {ring : CoinRing} (hcoin : store.coin? resolution.coin = some coin)
      (hstatus : coin.status = .immature) (hunlinked : coin.ringId? = none)
      (hserial : resolution.serialNumber ≠ [])
      (hspendable : resolution.makeSpendable = !coin.isCoinbase)
      (hring : ring ∈ committed) (hringId : ring.ringId = resolution.ringId)
      (hplace : ring.indexOf? resolution.coin = some resolution.ringIndex)

theorem foldl_resolve_history {resolutions : List RingResolution} {store : CoinStore}
    (hnodup : (resolutions.map (·.coin)).Nodup)
    (h : ∀ resolution ∈ resolutions, Applies store committed resolution) :
    History ⟨store, committed⟩ ⟨resolutions.foldl resolve store, committed⟩ := by
  induction resolutions generalizing store with
  | nil => exact .refl
  | cons first rest ih =>
    obtain ⟨hnotMem, hrest⟩ := List.nodup_cons.mp (List.map_cons ▸ hnodup)
    obtain ⟨hcoin, hstatus, hunlinked, hserial, hspendable, hring, hringId, hplace⟩ :=
      h first List.mem_cons_self
    refine Relation.ReflTransGen.head
      (.resolve first hcoin hstatus hunlinked hserial hspendable hring hringId hplace)
      (ih hrest fun other hmem => ?_)
    -- The other resolutions are of other coins, which still stand as they stood.
    have hne : first.coin ≠ other.coin := fun heq =>
      hnotMem (List.mem_map.mpr ⟨other, hmem, heq.symm⟩)
    obtain ⟨hcoin, hstatus, hunlinked, hserial, hspendable, hring, hringId, hplace⟩ :=
      h other (List.mem_cons_of_mem _ hmem)
    refine .intro ?_ hstatus hunlinked hserial hspendable hring hringId hplace
    rw [coin?_resolve, if_neg hne]
    exact hcoin

/-- A commit of resolutions of different coins that were never linked before. -/
theorem commit_history {store later : CoinStore} {batch : ResolutionBatch}
    (hsound : LoggedStore.Sound ⟨store, committed⟩) (h : store.commit batch = .ok later)
    (hnodup : (batch.resolutions.map (·.coin)).Nodup)
    (hcoins : ∀ resolution ∈ batch.resolutions, ∀ coin, store.coin? resolution.coin = some coin →
      coin.ringId? = none ∧ resolution.makeSpendable = !coin.isCoinbase) :
    History ⟨store, committed⟩ ⟨later, committed ++ batch.rings⟩ := by
  obtain ⟨hfits, rfl⟩ := (commit_eq_ok_iff store later batch).mp h
  refine (foldl_addRing_history batch.rings store).trans (foldl_resolve_history hnodup ?_)
  intro resolution hmem
  rcases hfits resolution hmem with @⟨coin, ring, hcoin, hstatus, hserial, hring, hplace⟩
  obtain ⟨hunlinked, hspendable⟩ := hcoins resolution hmem coin hcoin
  have hcommitted : ring ∈ committed ++ batch.rings ∧ ring.ringId = resolution.ringId := by
    rcases mem_or_ring?_of_batchRing? hring with ⟨hin, hid⟩ | hold
    · exact ⟨List.mem_append_right _ hin, hid⟩
    · obtain ⟨hin, hid⟩ := hsound.of_ring hold
      exact ⟨List.mem_append_left _ hin, hid⟩
  refine .intro ?_ hstatus hunlinked hserial hspendable hcommitted.1 hcommitted.2 hplace
  rw [coin?_foldl_addRing]
  exact hcoin

end CoinStore

end RingWallet
