import RingWallet.Proofs.Coin.RingCodec
import RingWallet.Proofs.Store.Commit

/-!
# Batches in two parts

What one batch brings to a store can be brought in two: if the rings and the resolutions of a batch
are those of two others together, taking over the two one after the other leaves the store that
taking over the one leaves, up to the order in which the coins of one serial number are listed
(`commit_in_two`). Rings may be in both parts; they must not share members, and different rings must
have different identifiers.

Resolutions of different coins commute up to that order (`resolve_swap`), which gives every
rearrangement of them (`foldl_resolve_perm`). Of the rings, only which ones there are matters
(`foldl_addRing_congr`).
-/

set_option autoImplicit false

namespace RingWallet.CoinStore

/-- The stores are the same but for the order in which the coins of a serial number are listed. -/
structure SameUpToOrder (store other : CoinStore) : Prop where
  coins_eq : store.coins = other.coins
  rings_eq : store.rings = other.rings
  memberRings_eq : store.memberRings = other.memberRings
  pending_eq : store.pending = other.pending
  serialIndex_rel : ∀ number,
    Option.Rel List.Perm (store.serialIndex.get? number) (other.serialIndex.get? number)

namespace SameUpToOrder

theorem refl (store : CoinStore) : store.SameUpToOrder store where
  coins_eq := rfl
  rings_eq := rfl
  memberRings_eq := rfl
  pending_eq := rfl
  serialIndex_rel number := by
    cases store.serialIndex.get? number with
    | none => exact .none
    | some ids => exact .some (.refl ids)

theorem trans {a b c : CoinStore} (hab : a.SameUpToOrder b) (hbc : b.SameUpToOrder c) :
    a.SameUpToOrder c where
  coins_eq := hab.coins_eq.trans hbc.coins_eq
  rings_eq := hab.rings_eq.trans hbc.rings_eq
  memberRings_eq := hab.memberRings_eq.trans hbc.memberRings_eq
  pending_eq := hab.pending_eq.trans hbc.pending_eq
  serialIndex_rel number := by
    have hleft := hab.serialIndex_rel number
    have hright := hbc.serialIndex_rel number
    generalize a.serialIndex.get? number = first at hleft ⊢
    generalize b.serialIndex.get? number = second at hleft hright
    generalize c.serialIndex.get? number = third at hright ⊢
    cases hleft with
    | none => exact hright
    | some hperm =>
      cases hright with
      | some hnext => exact .some (hperm.trans hnext)

end SameUpToOrder

/-! ## Resolutions -/

theorem serialIndex_resolve (store : CoinStore) (resolution : RingResolution) (number : Bytes) :
    (store.resolve resolution).serialIndex.get? number =
      if resolution.serialNumber = number then some (store.holders number ++ [resolution.coin])
      else store.serialIndex.get? number := by
  change (store.serialIndex.insert resolution.serialNumber _).get? number = _
  rw [OrderedMap.get?_insert]
  split
  · rename_i heq
    subst heq
    rfl
  · rfl

/-- The coins of a serial number are the same ones in both stores. -/
theorem SameUpToOrder.holders_perm {store other : CoinStore} (h : store.SameUpToOrder other)
    (number : Bytes) : (store.holders number).Perm (other.holders number) := by
  have hrel := h.serialIndex_rel number
  unfold holders
  generalize store.serialIndex.get? number = ids at hrel ⊢
  generalize other.serialIndex.get? number = otherIds at hrel ⊢
  cases hrel with
  | none => exact .refl []
  | some hperm => exact hperm

/-- Resolving a coin keeps stores the same. -/
theorem SameUpToOrder.resolve {store other : CoinStore} (h : store.SameUpToOrder other)
    (resolution : RingResolution) :
    (store.resolve resolution).SameUpToOrder (other.resolve resolution) where
  coins_eq := congrArg (·.adjust resolution.coin (·.linked resolution)) h.coins_eq
  rings_eq := h.rings_eq
  memberRings_eq := h.memberRings_eq
  pending_eq := h.pending_eq
  serialIndex_rel number := by
    rw [serialIndex_resolve, serialIndex_resolve]
    split
    · exact .some ((h.holders_perm number).append_right _)
    · exact h.serialIndex_rel number

theorem SameUpToOrder.foldl_resolve {store other : CoinStore} (h : store.SameUpToOrder other)
    (resolutions : List RingResolution) :
    (resolutions.foldl CoinStore.resolve store).SameUpToOrder
      (resolutions.foldl CoinStore.resolve other) := by
  induction resolutions generalizing store other with
  | nil => exact h
  | cons first rest ih => exact ih (h.resolve first)

/-- Resolutions of different coins can be swapped. -/
theorem resolve_swap {a b : RingResolution} (hne : a.coin ≠ b.coin) (store : CoinStore) :
    ((store.resolve a).resolve b).SameUpToOrder ((store.resolve b).resolve a) where
  coins_eq := by
    apply OrderedMap.ext_get?
    intro id
    change ((store.resolve a).resolve b).coin? id = ((store.resolve b).resolve a).coin? id
    rw [coin?_resolve, coin?_resolve, coin?_resolve, coin?_resolve]
    by_cases ha : a.coin = id
    · -- The other resolution is of another coin.
      have hb : ¬ b.coin = id := fun hb => hne (ha.trans hb.symm)
      rw [if_neg hb, if_neg hb]
    · rw [if_neg ha, if_neg ha]
  rings_eq := rfl
  memberRings_eq := rfl
  pending_eq := rfl
  serialIndex_rel number := by
    rw [serialIndex_resolve, serialIndex_resolve, serialIndex_resolve, serialIndex_resolve,
      holders_resolve, holders_resolve]
    by_cases ha : a.serialNumber = number <;> by_cases hb : b.serialNumber = number
    · -- Both coins use the number, so the two orders of listing them differ.
      simp only [ha, hb, if_true, List.append_assoc]
      exact .some (List.perm_append_comm.append_left (store.holders number))
    · simp only [ha, hb, if_true, if_false]
      exact .some (.refl _)
    · simp only [ha, hb, if_true, if_false]
      exact .some (.refl _)
    · simp only [ha, hb, if_false]
      exact (SameUpToOrder.refl store).serialIndex_rel number

/-- Resolutions of different coins can be rearranged. -/
theorem foldl_resolve_perm {resolutions others : List RingResolution}
    (hperm : resolutions.Perm others) (hnodup : (resolutions.map (·.coin)).Nodup)
    (store : CoinStore) :
    (resolutions.foldl resolve store).SameUpToOrder (others.foldl resolve store) := by
  induction hperm generalizing store with
  | nil => exact .refl store
  | cons first _ ih => exact ih (List.nodup_cons.mp hnodup).2 (store.resolve first)
  | swap a b rest =>
    have hne : b.coin ≠ a.coin := fun heq =>
      (List.nodup_cons.mp hnodup).1 (List.mem_cons.mpr (.inl heq))
    exact (resolve_swap hne store).foldl_resolve rest
  | trans hfirst _ ihFirst ihSecond =>
    exact (ihFirst hnodup store).trans
      (ihSecond ((hfirst.map (·.coin)).nodup_iff.mp hnodup) store)

/-! ## Rings -/

/-- Adding rings changes the two tables of rings only. -/
theorem foldl_addRing_eq (entries : List (RingId × CoinRing)) (store : CoinStore) :
    entries.foldl addRing store = { store with
      rings := (entries.foldl addRing store).rings
      memberRings := (entries.foldl addRing store).memberRings } := by
  induction entries generalizing store with
  | nil => rfl
  | cons first rest ih => exact ih (store.addRing first)

/-- A stored ring stays; otherwise the first ring with an identifier is stored under it. -/
theorem ring?_foldl_addRing (rings : List CoinRing) (store : CoinStore) (id : RingId) :
    ((entriesOf rings).foldl addRing store).ring? id =
      (store.ring? id).or (rings.find? (·.ringId == id)) := by
  induction rings generalizing store with
  | nil => rw [List.find?_nil, Option.or_none]; rfl
  | cons first rest ih =>
    rw [entriesOf, List.map_cons, List.foldl_cons, ih, ring?_addRing]
    by_cases hfirst : first.ringId = id
    · rw [if_pos hfirst, List.find?_cons_of_pos (by simpa using hfirst), hfirst]
      cases store.ring? id <;> rfl
    · rw [if_neg hfirst, List.find?_cons_of_neg (by simpa using hfirst)]

theorem ringIdOf?_addRing (store : CoinStore) (ring : CoinRing) (coin : CoinId) :
    (store.addRing (ring.ringId, ring)).ringIdOf? coin =
      if coin ∈ ring.coins then some ring.ringId else store.ringIdOf? coin := by
  have hfold : ∀ (coins : List CoinId) (table : OrderedMap CoinId RingId),
      (coins.foldl (fun table member => table.insert member ring.ringId) table).get? coin =
        if coin ∈ coins then some ring.ringId else table.get? coin := by
    intro coins
    induction coins with
    | nil => intro table; rfl
    | cons first rest ih =>
      intro table
      rw [List.foldl_cons, ih, OrderedMap.get?_insert]
      by_cases hrest : coin ∈ rest
      · rw [if_pos hrest, if_pos (List.mem_cons_of_mem _ hrest)]
      · by_cases hfirst : first = coin
        · rw [if_neg hrest, if_pos hfirst, if_pos (List.mem_cons.mpr (.inl hfirst.symm))]
        · have hnot : coin ∉ first :: rest := by
            rw [List.mem_cons]
            rintro (heq | hmem)
            · exact hfirst heq.symm
            · exact hrest hmem
          rw [if_neg hrest, if_neg hfirst, if_neg hnot]
  exact hfold ring.coins store.memberRings

/-- The last ring that lists a coin is the one that the coin is known to be a member of. -/
theorem ringIdOf?_foldl_addRing (rings : List CoinRing) (store : CoinStore) (coin : CoinId) :
    ((entriesOf rings).foldl addRing store).ringIdOf? coin =
      ((rings.reverse.find? fun ring => decide (coin ∈ ring.coins)).map CoinRing.ringId).or
        (store.ringIdOf? coin) := by
  induction rings generalizing store with
  | nil => rfl
  | cons first rest ih =>
    rw [entriesOf, List.map_cons, List.foldl_cons, ih, ringIdOf?_addRing, List.reverse_cons,
      List.find?_append]
    cases rest.reverse.find? fun ring => decide (coin ∈ ring.coins) with
    | some ring => rfl
    | none =>
      by_cases hfirst : coin ∈ first.coins
      · simp [hfirst]
      · simp [hfirst]

/-- No two different rings have one identifier or share a member. -/
structure Distinct (rings : List CoinRing) : Prop where
  eq_of_ringId : ∀ a ∈ rings, ∀ b ∈ rings, a.ringId = b.ringId → a = b
  eq_of_member : ∀ a ∈ rings, ∀ b ∈ rings, ∀ coin, coin ∈ a.coins → coin ∈ b.coins → a = b

/-- It does not matter in which order rings are added, nor how often. -/
theorem foldl_addRing_congr {rings others : List CoinRing} (hdistinct : Distinct rings)
    (hmem : ∀ ring, ring ∈ rings ↔ ring ∈ others) (store : CoinStore) :
    (entriesOf rings).foldl addRing store = (entriesOf others).foldl addRing store := by
  have hrings : ((entriesOf rings).foldl addRing store).rings =
      ((entriesOf others).foldl addRing store).rings := by
    apply OrderedMap.ext_get?
    intro id
    change CoinStore.ring? _ id = CoinStore.ring? _ id
    rw [ring?_foldl_addRing, ring?_foldl_addRing, find?_eq_of_mem_iff hmem]
    intro a ha b hb haId hbId
    exact hdistinct.eq_of_ringId a ha b hb ((eq_of_beq haId).trans (eq_of_beq hbId).symm)
  have hmembers : ((entriesOf rings).foldl addRing store).memberRings =
      ((entriesOf others).foldl addRing store).memberRings := by
    apply OrderedMap.ext_get?
    intro coin
    change CoinStore.ringIdOf? _ coin = CoinStore.ringIdOf? _ coin
    have hreverse : ∀ ring, ring ∈ rings.reverse ↔ ring ∈ others.reverse := by
      intro ring
      rw [List.mem_reverse, List.mem_reverse, hmem]
    rw [ringIdOf?_foldl_addRing, ringIdOf?_foldl_addRing, find?_eq_of_mem_iff hreverse]
    intro a ha b hb haCoin hbCoin
    exact hdistinct.eq_of_member a (List.mem_reverse.mp ha) b (List.mem_reverse.mp hb) coin
      (of_decide_eq_true haCoin) (of_decide_eq_true hbCoin)
  rw [foldl_addRing_eq, foldl_addRing_eq (entriesOf others), hrings, hmembers]

/-- Rings and resolutions change different tables, so they can be taken over in either order. -/
theorem foldl_addRing_foldl_resolve (entries : List (RingId × CoinRing))
    (resolutions : List RingResolution) (store : CoinStore) :
    entries.foldl addRing (resolutions.foldl resolve store) =
      resolutions.foldl resolve (entries.foldl addRing store) := by
  have hone : ∀ (entry : RingId × CoinRing) (store : CoinStore),
      (resolutions.foldl resolve store).addRing entry =
        resolutions.foldl resolve (store.addRing entry) := by
    intro entry
    induction resolutions with
    | nil => exact fun store => rfl
    | cons first rest ih => exact fun store => ih (store.resolve first)
  induction entries generalizing store with
  | nil => rfl
  | cons first rest ih => rw [List.foldl_cons, hone, ih, List.foldl_cons]

/-! ## Batches -/

/-- A store that takes a batch over has seen that its rings have different identifiers, if every ring
of the batch is the ring of some resolution and the rings share no members. -/
theorem eq_of_ringId_of_commit {store later : CoinStore} {batch : ResolutionBatch}
    (hcommit : store.commit batch = .ok later)
    (hused : ∀ ring ∈ batch.rings, ∃ resolution ∈ batch.resolutions,
      resolution.ringId = ring.ringId ∧ resolution.coin ∈ ring.coins)
    (hmembers : ∀ a ∈ batch.rings, ∀ b ∈ batch.rings, ∀ coin,
      coin ∈ a.coins → coin ∈ b.coins → a = b) :
    ∀ a ∈ batch.rings, ∀ b ∈ batch.rings, a.ringId = b.ringId → a = b := by
  obtain ⟨hfits, -⟩ := (commit_eq_ok_iff store later batch).mp hcommit
  -- Looked up by its identifier, a ring of the batch is found itself: the resolution that uses it
  -- was checked against the ring that is found, so both list the resolution's coin.
  have hself : ∀ ring ∈ batch.rings,
      store.batchRing? (entriesOf batch.rings) ring.ringId = some ring := by
    intro ring hring
    obtain ⟨resolution, hmem, hid, hlisted⟩ := hused ring hring
    rcases hfits resolution hmem with @⟨-, found, -, -, -, hfound, hplace⟩
    rw [hid] at hfound
    obtain ⟨other, hother, -, hsame⟩ := store.exists_batchRing? hring
    rw [hfound] at hsame
    cases hsame
    rw [hfound, hmembers ring hring found hother resolution.coin hlisted
      (CoinRing.mem_coins_of_indexOf? hplace)]
  intro a ha b hb hid
  have hboth := hself a ha
  rw [hid, hself b hb] at hboth
  exact (Option.some.inj hboth).symm

/-- Two batches, taken over one after the other, come to the same as one batch of their rings and
resolutions. -/
theorem commit_in_two {store between twice once : CoinStore} {first second whole : ResolutionBatch}
    (hfirst : store.commit first = .ok between) (hsecond : between.commit second = .ok twice)
    (honce : store.commit whole = .ok once)
    (hdistinct : Distinct whole.rings)
    (hrings : ∀ ring, ring ∈ whole.rings ↔ ring ∈ first.rings ∨ ring ∈ second.rings)
    (hperm : whole.resolutions.Perm (first.resolutions ++ second.resolutions))
    (hnodup : (whole.resolutions.map (·.coin)).Nodup) : once.SameUpToOrder twice := by
  obtain ⟨-, rfl⟩ := (commit_eq_ok_iff _ _ _).mp hfirst
  obtain ⟨-, rfl⟩ := (commit_eq_ok_iff _ _ _).mp hsecond
  obtain ⟨-, rfl⟩ := (commit_eq_ok_iff _ _ _).mp honce
  have hmem : ∀ ring, ring ∈ whole.rings ↔ ring ∈ first.rings ++ second.rings := by
    intro ring
    rw [hrings, List.mem_append]
  rw [foldl_addRing_foldl_resolve, ← List.foldl_append, ← List.foldl_append, ← List.map_append,
    ← foldl_addRing_congr hdistinct hmem]
  exact foldl_resolve_perm hperm hnodup _

end RingWallet.CoinStore
