import RingWallet.Proofs.Store.View
import Mathlib.Logic.Relation

/-!
# What can happen to a coin store

`Change` lists the single changes that tracking makes to a store: a coin is received, a spend is
seen on the chain, the wallet spends, a coinbase coin matures, a ring is committed, a coin is linked
to its ring, and a sent transaction is remembered or followed. A `History` is a chain of changes.

The store stands beside the list of all rings that were ever committed to it (`LoggedStore`): the
store itself keeps only one ring for each identifier, and what can be said about a coin's ring
without trusting the hash is said about that list.

`LoggedStore.Sound` is what every history from the empty store keeps (`Sound.of_history`): every
coin is unlinked and immature, or linked to a committed ring with a usable serial number, and the
serial number index lists exactly the linked coins, each once.
-/

set_option autoImplicit false

namespace RingWallet

/-- A store beside every ring that was ever committed to it, in order. -/
structure LoggedStore where
  store : CoinStore
  committed : List CoinRing

/-- A coin as it is received: immature, and nothing is known about its ring. -/
structure Coin.IsFresh (coin : Coin) : Prop where
  status_eq : coin.status = .immature
  ringId_eq : coin.ringId? = none
  ringIndex_eq : coin.ringIndex? = none
  serialNumber_eq : coin.serialNumber? = none

/-- One change of a store. -/
inductive Change : LoggedStore → LoggedStore → Prop where
  /-- A new coin is received. -/
  | receive {log : LoggedStore} (coin : Coin) (hnew : log.store.coin? coin.id = none)
      (hfresh : coin.IsFresh) :
      Change log { log with store := (log.store.insertCoin coin).2 }
  /-- The serial number of a coin that could be spent is seen on the chain. -/
  | see {log : LoggedStore} {coin : Coin} (id : CoinId) (verdict : CoinStatus)
      (hcoin : log.store.coin? id = some coin)
      (hstatus : coin.status = .spendable ∨ coin.status = .spent)
      (hverdict : verdict = .confirmed ∨ verdict = .invalid) :
      Change log { log with store := log.store.withStatus id verdict }
  /-- The wallet spends a coin. -/
  | spend {log : LoggedStore} {coin : Coin} (id : CoinId)
      (hcoin : log.store.coin? id = some coin)
      (hstatus : coin.status = .spendable ∨ coin.status = .spent) :
      Change log { log with store := log.store.withStatus id .spent }
  /-- A coin that waits with its ring known becomes spendable. -/
  | mature {log : LoggedStore} {coin : Coin} (id : CoinId)
      (hcoin : log.store.coin? id = some coin) (hstatus : coin.status = .immature)
      (hresolved : coin.isResolved = true) :
      Change log { log with store := log.store.withStatus id .spendable }
  /-- A ring is committed. -/
  | addRing {log : LoggedStore} (ring : CoinRing) :
      Change log ⟨log.store.addRing (ring.ringId, ring), log.committed ++ [ring]⟩
  /-- An immature coin without a ring is linked to a committed one. -/
  | resolve {log : LoggedStore} {coin : Coin} {ring : CoinRing} (resolution : RingResolution)
      (hcoin : log.store.coin? resolution.coin = some coin)
      (hstatus : coin.status = .immature) (hunlinked : coin.ringId? = none)
      (hserial : resolution.serialNumber ≠ [])
      (hspendable : resolution.makeSpendable = !coin.isCoinbase)
      (hring : ring ∈ log.committed) (hringId : ring.ringId = resolution.ringId)
      (hplace : ring.indexOf? resolution.coin = some resolution.ringIndex) :
      Change log { log with store := log.store.resolve resolution }
  /-- A sent transaction is remembered. -/
  | send {log : LoggedStore} (tx : PendingTx) :
      Change log { log with store := log.store.insertPending tx }
  /-- A sent transaction gets a status. -/
  | follow {log : LoggedStore} (txid : TxId) (status : PendingStatus) (height? : Option UInt64) :
      Change log { log with store := log.store.withPendingStatus txid status height? }

/-- A chain of changes. -/
abbrev History : LoggedStore → LoggedStore → Prop := Relation.ReflTransGen Change

/-! ## Soundness -/

/-- How a coin stands to the rings that were committed: nothing is known about it and it is
immature, or it is linked to one of them, and then only a coinbase coin may still be immature. -/
inductive Coin.Link (committed : List CoinRing) (coin : Coin) : Prop where
  | unlinked (hringId : coin.ringId? = none) (hringIndex : coin.ringIndex? = none)
      (hserial : coin.serialNumber? = none) (hstatus : coin.status = .immature)
  | linked {ring : CoinRing} {index : UInt8} {serialNumber : Bytes} (hring : ring ∈ committed)
      (hringId : coin.ringId? = some ring.ringId) (hringIndex : coin.ringIndex? = some index)
      (hplace : ring.indexOf? coin.id = some index)
      (hserial : coin.serialNumber? = some serialNumber) (hserial_ne : serialNumber ≠ [])
      (hwaits : coin.status = .immature → coin.isCoinbase = true)

/-- What holds of every store that is touched by tracking only. -/
structure LoggedStore.Sound (log : LoggedStore) : Prop where
  /-- Coins are stored under their own names. -/
  id_eq : ∀ {id coin}, log.store.coin? id = some coin → coin.id = id
  link : ∀ {id coin}, log.store.coin? id = some coin → coin.Link log.committed
  /-- The index lists exactly the coins with the serial number. -/
  mem_holders_iff : ∀ serialNumber id, id ∈ log.store.holders serialNumber ↔
    ∃ coin, log.store.coin? id = some coin ∧ coin.serialNumber? = some serialNumber
  nodup_holders : ∀ serialNumber, (log.store.holders serialNumber).Nodup
  /-- Every stored ring was committed, under its own identifier. -/
  of_ring : ∀ {id ring}, log.store.ring? id = some ring → ring ∈ log.committed ∧ ring.ringId = id
  /-- Every committed ring's identifier is stored. -/
  ring_isSome : ∀ ring ∈ log.committed, (log.store.ring? ring.ringId).isSome = true

namespace Coin.Link

variable {committed : List CoinRing} {coin : Coin}

/-- A coin that is beyond waiting is linked. -/
theorem ringId_ne_none (h : coin.Link committed) (hstatus : coin.status ≠ .immature) :
    coin.ringId? ≠ none := by
  cases h with
  | unlinked _ _ _ himmature => exact absurd himmature hstatus
  | linked _ hringId => simp [hringId]

/-- Of ring, place and serial number all are known or none. -/
theorem serialNumber_eq_none_iff (h : coin.Link committed) :
    coin.serialNumber? = none ↔ coin.ringId? = none := by
  cases h with
  | unlinked hringId _ hserial _ => simp [hringId, hserial]
  | linked _ hringId _ _ hserial => simp [hringId, hserial]

theorem ringIndex_eq_none_iff (h : coin.Link committed) :
    coin.ringIndex? = none ↔ coin.ringId? = none := by
  cases h with
  | unlinked hringId hringIndex _ _ => simp [hringId, hringIndex]
  | linked _ hringId hringIndex => simp [hringId, hringIndex]

/-- A linked coin's serial number can be used, so the coin counts as resolved. -/
theorem isResolved_iff (h : coin.Link committed) :
    coin.isResolved = true ↔ coin.ringId? ≠ none := by
  cases h with
  | unlinked hringId _ _ _ => simp [Coin.isResolved, hringId]
  | linked _ hringId hringIndex _ hserial hne =>
    simp [Coin.isResolved, hringId, hringIndex, hserial, hne]

/-- A linked coin keeps its link with any later status. -/
theorem withStatus (h : coin.Link committed) (hlinked : coin.ringId? ≠ none)
    {status : CoinStatus} (hstatus : status ≠ .immature) :
    Coin.Link committed { coin with status } := by
  cases h with
  | unlinked hringId => exact absurd hringId hlinked
  | linked hring hringId hringIndex hplace hserial hne _ =>
    exact .linked hring hringId hringIndex hplace hserial hne fun h => absurd h hstatus

theorem mono (h : coin.Link committed) {more : List CoinRing}
    (hsub : ∀ ring ∈ committed, ring ∈ more) : coin.Link more := by
  cases h with
  | unlinked hringId hringIndex hserial hstatus =>
    exact .unlinked hringId hringIndex hserial hstatus
  | linked hring hringId hringIndex hplace hserial hne hwaits =>
    exact .linked (hsub _ hring) hringId hringIndex hplace hserial hne hwaits

/-- A coin is linked by a resolution that agrees with a committed ring. -/
theorem of_resolution {ring : CoinRing} {resolution : RingResolution}
    (hserial : resolution.serialNumber ≠ [])
    (hspendable : resolution.makeSpendable = !coin.isCoinbase) (hring : ring ∈ committed)
    (hringId : ring.ringId = resolution.ringId)
    (hplace : ring.indexOf? coin.id = some resolution.ringIndex) :
    (coin.linked resolution).Link committed := by
  refine .linked hring (congrArg some hringId.symm) rfl hplace rfl hserial fun himmature => ?_
  -- A transfer coin is spendable as soon as it is linked.
  cases hcoinbase : coin.isCoinbase with
  | true => exact hcoinbase
  | false =>
    rw [hcoinbase] at hspendable
    simp [Coin.linked, hspendable] at himmature

end Coin.Link

namespace LoggedStore

/-- The empty store, to which no ring was committed. -/
def empty : LoggedStore := ⟨.empty, []⟩

namespace Sound

theorem empty : LoggedStore.empty.Sound where
  id_eq h := by cases h
  link h := by cases h
  mem_holders_iff serialNumber id := by simp [LoggedStore.empty]
  nodup_holders serialNumber := List.nodup_nil
  of_ring h := by cases h
  ring_isSome ring h := by cases h

variable {log : LoggedStore}

/-- A change of the sent transactions alone. -/
theorem of_same_view (h : log.Sound) {store : CoinStore}
    (hcoin : ∀ id, store.coin? id = log.store.coin? id)
    (hholders : ∀ serialNumber, store.holders serialNumber = log.store.holders serialNumber)
    (hring : ∀ id, store.ring? id = log.store.ring? id) :
    LoggedStore.Sound { log with store } where
  id_eq hfound := h.id_eq (hcoin _ ▸ hfound)
  link hfound := h.link (hcoin _ ▸ hfound)
  mem_holders_iff serialNumber id := by
    rw [hholders, h.mem_holders_iff]
    simp only [hcoin]
  nodup_holders serialNumber := by
    rw [hholders]
    exact h.nodup_holders serialNumber
  of_ring hfound := h.of_ring (hring _ ▸ hfound)
  ring_isSome ring hmem := by
    rw [hring]
    exact h.ring_isSome ring hmem

theorem receive (h : log.Sound) {coin : Coin} (hnew : log.store.coin? coin.id = none)
    (hfresh : coin.IsFresh) :
    LoggedStore.Sound { log with store := (log.store.insertCoin coin).2 } := by
  have hview : ∀ id, (log.store.insertCoin coin).2.coin? id =
      if coin.id = id then some coin else log.store.coin? id := by
    intro id
    rw [CoinStore.coin?_insertCoin]
    split
    · rename_i heq
      rw [← heq, hnew]
      rfl
    · rfl
  constructor
  case id_eq =>
    intro id found hfound
    rw [hview] at hfound
    split at hfound
    · cases hfound
      assumption
    · exact h.id_eq hfound
  case link =>
    intro id found hfound
    rw [hview] at hfound
    split at hfound
    · cases hfound
      exact .unlinked hfresh.ringId_eq hfresh.ringIndex_eq hfresh.serialNumber_eq
        hfresh.status_eq
    · exact h.link hfound
  case mem_holders_iff =>
    intro serialNumber id
    rw [CoinStore.holders_insertCoin _ hfresh.serialNumber_eq, h.mem_holders_iff]
    simp only [hview]
    by_cases heq : coin.id = id
    · subst heq
      simp [hnew, hfresh.serialNumber_eq]
    · simp [heq]
  case nodup_holders =>
    intro serialNumber
    rw [CoinStore.holders_insertCoin _ hfresh.serialNumber_eq]
    exact h.nodup_holders serialNumber
  case of_ring =>
    intro id ring hfound
    rw [CoinStore.ring?_insertCoin] at hfound
    exact h.of_ring hfound
  case ring_isSome =>
    intro ring hmem
    rw [CoinStore.ring?_insertCoin]
    exact h.ring_isSome ring hmem

/-- A linked coin may get any status but the first. -/
theorem withStatus (h : log.Sound) {id : CoinId} {coin : Coin} {status : CoinStatus}
    (hcoin : log.store.coin? id = some coin) (hlinked : coin.ringId? ≠ none)
    (hstatus : status ≠ .immature) :
    LoggedStore.Sound { log with store := log.store.withStatus id status } := by
  constructor
  case id_eq =>
    intro id' found hfound
    rw [CoinStore.coin?_withStatus] at hfound
    split at hfound
    · obtain ⟨old, hold, rfl⟩ := Option.map_eq_some_iff.mp hfound
      have hid : old.id = _ := h.id_eq hold
      exact hid
    · exact h.id_eq hfound
  case link =>
    intro id' found hfound
    rw [CoinStore.coin?_withStatus] at hfound
    split at hfound
    · rename_i heq
      subst heq
      rw [hcoin] at hfound
      cases hfound
      exact (h.link hcoin).withStatus hlinked hstatus
    · exact h.link hfound
  case mem_holders_iff =>
    intro serialNumber id'
    rw [CoinStore.holders_withStatus, h.mem_holders_iff]
    simp only [CoinStore.coin?_withStatus]
    by_cases heq : id = id'
    · subst heq
      simp [hcoin]
    · simp [heq]
  case nodup_holders =>
    intro serialNumber
    rw [CoinStore.holders_withStatus]
    exact h.nodup_holders serialNumber
  case of_ring =>
    intro id' ring hfound
    exact h.of_ring hfound
  case ring_isSome =>
    intro ring hmem
    exact h.ring_isSome ring hmem

theorem addRing (h : log.Sound) (ring : CoinRing) :
    LoggedStore.Sound ⟨log.store.addRing (ring.ringId, ring), log.committed ++ [ring]⟩ := by
  constructor
  case id_eq =>
    intro id coin hfound
    exact h.id_eq hfound
  case link =>
    intro id coin hfound
    exact (h.link hfound).mono fun old hold => List.mem_append_left _ hold
  case mem_holders_iff =>
    exact h.mem_holders_iff
  case nodup_holders =>
    exact h.nodup_holders
  case of_ring =>
    intro id found hfound
    rw [CoinStore.ring?_addRing] at hfound
    split at hfound
    · rename_i heq
      subst heq
      cases hold : log.store.ring? ring.ringId with
      | none =>
        rw [hold] at hfound
        cases hfound
        exact ⟨List.mem_append_right _ List.mem_cons_self, rfl⟩
      | some old =>
        rw [hold] at hfound
        cases hfound
        obtain ⟨hmem, hid⟩ := h.of_ring hold
        exact ⟨List.mem_append_left _ hmem, hid⟩
    · obtain ⟨hmem, hid⟩ := h.of_ring hfound
      exact ⟨List.mem_append_left _ hmem, hid⟩
  case ring_isSome =>
    intro other hmem
    rw [CoinStore.ring?_addRing]
    split
    · rfl
    · rename_i hne
      rcases List.mem_append.mp hmem with hold | hnew
      · exact h.ring_isSome other hold
      · rw [List.mem_singleton.mp hnew] at hne
        exact absurd rfl hne

/-- A coin without a serial number is listed under none. -/
theorem not_mem_holders (h : log.Sound) {id : CoinId} {coin : Coin}
    (hcoin : log.store.coin? id = some coin) (hnone : coin.serialNumber? = none)
    (serialNumber : Bytes) : id ∉ log.store.holders serialNumber := by
  intro hmem
  obtain ⟨found, hfound, hsome⟩ := (h.mem_holders_iff serialNumber _).mp hmem
  rw [hcoin] at hfound
  cases hfound
  rw [hnone] at hsome
  cases hsome

theorem resolve (h : log.Sound) {coin : Coin} {ring : CoinRing} {resolution : RingResolution}
    (hcoin : log.store.coin? resolution.coin = some coin)
    (hunlinked : coin.ringId? = none) (hserial : resolution.serialNumber ≠ [])
    (hspendable : resolution.makeSpendable = !coin.isCoinbase)
    (hring : ring ∈ log.committed) (hringId : ring.ringId = resolution.ringId)
    (hplace : ring.indexOf? resolution.coin = some resolution.ringIndex) :
    LoggedStore.Sound { log with store := log.store.resolve resolution } := by
  have hnone : coin.serialNumber? = none := (h.link hcoin).serialNumber_eq_none_iff.mpr hunlinked
  have hnot := h.not_mem_holders hcoin hnone
  constructor
  case id_eq =>
    intro id found hfound
    rw [CoinStore.coin?_resolve] at hfound
    split at hfound
    · obtain ⟨old, hold, rfl⟩ := Option.map_eq_some_iff.mp hfound
      have hid : old.id = _ := h.id_eq hold
      exact hid
    · exact h.id_eq hfound
  case link =>
    intro id found hfound
    rw [CoinStore.coin?_resolve] at hfound
    split at hfound
    · rename_i heq
      subst heq
      rw [hcoin] at hfound
      cases hfound
      have hid : coin.id = resolution.coin := h.id_eq hcoin
      exact .of_resolution hserial hspendable hring hringId (hid ▸ hplace)
    · exact h.link hfound
  case mem_holders_iff =>
    intro serialNumber id
    rw [CoinStore.holders_resolve]
    simp only [CoinStore.coin?_resolve]
    by_cases hid : resolution.coin = id
    · -- The coin is listed under its new serial number only.
      subst hid
      have hfalse : resolution.coin ∈ log.store.holders serialNumber ↔ False :=
        iff_false_intro (hnot serialNumber)
      by_cases hsn : resolution.serialNumber = serialNumber <;>
        simp [hcoin, hsn, hfalse, Coin.linked]
    · have hmem : id ∈ (if resolution.serialNumber = serialNumber then
          log.store.holders serialNumber ++ [resolution.coin]
          else log.store.holders serialNumber) ↔ id ∈ log.store.holders serialNumber := by
        split
        · simp [Ne.symm hid]
        · rfl
      rw [hmem, h.mem_holders_iff]
      simp [hid]
  case nodup_holders =>
    intro serialNumber
    rw [CoinStore.holders_resolve]
    split
    · exact List.nodup_append.mpr ⟨h.nodup_holders serialNumber, by simp,
        fun a ha b hb heq => hnot serialNumber (by
          rw [List.mem_singleton.mp hb] at heq
          exact heq ▸ ha)⟩
    · exact h.nodup_holders serialNumber
  case of_ring =>
    intro id found hfound
    exact h.of_ring hfound
  case ring_isSome =>
    intro other hmem
    exact h.ring_isSome other hmem

/-- One change keeps a store sound. -/
theorem of_change (h : log.Sound) {next : LoggedStore} (hchange : Change log next) :
    next.Sound := by
  cases hchange with
  | receive coin hnew hfresh => exact h.receive hnew hfresh
  | see id verdict hcoin hstatus hverdict =>
    refine h.withStatus hcoin ((h.link hcoin).ringId_ne_none ?_) ?_
    · rcases hstatus with hstatus | hstatus <;> simp [hstatus]
    · rcases hverdict with rfl | rfl <;> decide
  | spend id hcoin hstatus =>
    refine h.withStatus hcoin ((h.link hcoin).ringId_ne_none ?_) (by decide)
    rcases hstatus with hstatus | hstatus <;> simp [hstatus]
  | mature id hcoin _ hresolved =>
    exact h.withStatus hcoin ((h.link hcoin).isResolved_iff.mp hresolved) (by decide)
  | addRing ring => exact h.addRing ring
  | resolve resolution hcoin _ hunlinked hserial hspendable hring hringId hplace =>
    exact h.resolve hcoin hunlinked hserial hspendable hring hringId hplace
  | send tx => exact h.of_same_view (fun _ => rfl) (fun _ => rfl) fun _ => rfl
  | follow txid status height? =>
    exact h.of_same_view (fun _ => rfl) (fun _ => rfl) fun _ => rfl

/-- Every history keeps a store sound. -/
theorem of_history (h : log.Sound) {next : LoggedStore} (hhistory : History log next) :
    next.Sound := by
  induction hhistory with
  | refl => exact h
  | tail _ hchange ih => exact ih.of_change hchange

end Sound

end LoggedStore

end RingWallet
