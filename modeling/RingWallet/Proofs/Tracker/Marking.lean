import RingWallet.Proofs.Outcome
import RingWallet.Proofs.Store.Sent

/-!
# Sending takes all of its coins or none

The coins of a transaction are checked before the first of them is written. The check refuses a list
for its first coin that is unknown or not spendable (`CoinStore.checkSpendable_eq`), and behind a
passed check no write can be refused, whatever the list repeats (`CoinStore.foldlM_setStatus_eq`).
So marking coins and recording a transaction end in one of two ways: every listed coin is spent and
no other has changed, or the state is the old one and the error names the first coin that stands in
the way (`TrackState.sending_all_or_nothing`).
-/

set_option autoImplicit false

namespace RingWallet

namespace CoinStore

theorem markSpent_eq (ids : List CoinId) (store : CoinStore) :
    store.markSpent ids =
      match ids.findSome? store.refusal? with
      | none => .ok (ids.foldl (fun store id => store.withStatus id .spent) store)
      | some e => .error e := by
  rw [markSpent, checkSpendable_eq]
  cases ids.findSome? store.refusal? <;> rfl

/-- The record of a transaction when it is sent. -/
def sentRecord (tx : SignedTx) (ids : List CoinId) : PendingTx where
  txid := tx.txid
  raw := tx.data
  coins := ids
  status := .pending
  height? := none

theorem recordSubmitted_eq (tx : SignedTx) (ids : List CoinId) (store : CoinStore) :
    store.recordSubmitted tx ids =
      match ids.findSome? store.refusal? with
      | none => .ok ((ids.foldl (fun store id => store.withStatus id .spent) store).insertPending
          (sentRecord tx ids))
      | some e => .error e := by
  rw [recordSubmitted, markSpent_eq]
  cases ids.findSome? store.refusal? <;> rfl

/-- Writes to stored coins are accepted one after the other. -/
theorem foldlM_setStatus_eq {store : CoinStore} {ids : List CoinId}
    (h : ∀ id ∈ ids, ∃ coin, store.coin? id = some coin) (status : CoinStatus) :
    ids.foldlM (fun store id => store.setStatus id status) store =
      .ok (ids.foldl (fun store id => store.withStatus id status) store) := by
  induction ids generalizing store with
  | nil => rfl
  | cons first rest ih =>
    have hstored : store.coins.contains first = true :=
      (OrderedMap.contains_iff store.coins first).mpr (h first List.mem_cons_self)
    have hset : store.setStatus first status = .ok (store.withStatus first status) :=
      if_pos hstored
    rw [List.foldlM_cons, hset, List.foldl_cons]
    -- The first write leaves every coin in the store, so the others are accepted as well.
    refine ih fun id hmem => ?_
    obtain ⟨coin, hcoin⟩ := h id (List.mem_cons_of_mem _ hmem)
    rw [coin?_withStatus, hcoin]
    split
    · exact ⟨_, rfl⟩
    · exact ⟨_, rfl⟩

/-- In the later store exactly the listed coins are spent; every other coin, the rings and the
serial numbers are as they were. -/
structure Marks (ids : List CoinId) (store later : CoinStore) : Prop where
  coin_eq : ∀ id, later.coin? id =
    if id ∈ ids then (store.coin? id).map fun coin => { coin with status := .spent }
    else store.coin? id
  rings_kept : later.rings = store.rings ∧ later.memberRings = store.memberRings ∧
    later.serialIndex = store.serialIndex

theorem marks_foldl_withStatus (ids : List CoinId) (store : CoinStore) :
    Marks ids store (ids.foldl (fun store id => store.withStatus id .spent) store) where
  coin_eq id := coin?_foldl_withStatus ids .spent store id
  rings_kept := (OnlyCoins.foldl_withStatus ids .spent store).rings_eq

theorem Marks.insertPending {ids : List CoinId} {store later : CoinStore}
    (h : Marks ids store later) (tx : PendingTx) : Marks ids store (later.insertPending tx) where
  coin_eq id := h.coin_eq id
  rings_kept := h.rings_kept

end CoinStore

namespace TrackState

variable {σ : Type}

/-- For every state, every signed transaction and every list of coins: marking the coins and
recording the transaction succeed exactly if every listed coin is stored and spendable. Then exactly
the listed coins are spent, by writes that are accepted one by one, and the transaction is on record
as pending with the list. Otherwise both leave the state as it was, and their error is the refusal
of the first listed coin that is unknown or not spendable. -/
theorem sending_all_or_nothing (state : TrackState σ) (tx : SignedTx) (ids : List CoinId) :
    let marking := outcome (TrackM.tryStore (CoinStore.markSpent ids)) state
    let recording := outcome (TrackM.tryStore (CoinStore.recordSubmitted tx ids)) state
    (marking.1 = .ok () ↔
      ∀ id ∈ ids, ∃ coin, state.store.coin? id = some coin ∧ coin.status = .spendable) ∧
    (recording.1 = .ok () ↔
      ∀ id ∈ ids, ∃ coin, state.store.coin? id = some coin ∧ coin.status = .spendable) ∧
    match ids.findSome? state.store.refusal? with
    | some e => marking = (.error e, state) ∧ recording = (.error e, state)
    | none => ∃ marked recorded,
      marking = (.ok (), ⟨marked, state.outside⟩) ∧
      recording = (.ok (), ⟨recorded, state.outside⟩) ∧
      CoinStore.Marks ids state.store marked ∧ CoinStore.Marks ids state.store recorded ∧
      ids.foldlM (fun store id => store.setStatus id .spent) state.store = .ok marked ∧
      marked.pending = state.store.pending ∧
      ∀ txid, recorded.pending.get? txid =
        if tx.txid = txid then some (CoinStore.sentRecord tx ids)
        else state.store.pending.get? txid := by
  intro marking recording
  have hmarking : marking = _ := TrackM.outcome_tryStore (CoinStore.markSpent ids) state
  have hrecording : recording = _ :=
    TrackM.outcome_tryStore (CoinStore.recordSubmitted tx ids) state
  simp only [CoinStore.markSpent_eq] at hmarking
  simp only [CoinStore.recordSubmitted_eq] at hrecording
  have hall : (∀ id ∈ ids, ∃ coin, state.store.coin? id = some coin ∧ coin.status = .spendable) ↔
      ids.findSome? state.store.refusal? = none := by
    simp only [List.findSome?_eq_none_iff, CoinStore.refusal?_eq_none_iff]
  rw [hall]
  cases hrefusal : ids.findSome? state.store.refusal? with
  | some e =>
    rw [hrefusal] at hmarking hrecording
    simp [hmarking, hrecording]
  | none =>
    rw [hrefusal] at hmarking hrecording
    refine ⟨by simp [hmarking], by simp [hrecording], _, _, hmarking, hrecording, ?_⟩
    have hmarks := CoinStore.marks_foldl_withStatus ids state.store
    have hpending := (CoinStore.OnlyCoins.foldl_withStatus ids .spent state.store).pending_eq
    refine ⟨hmarks, hmarks.insertPending _, ?_, hpending, fun txid => ?_⟩
    · apply CoinStore.foldlM_setStatus_eq
      intro id hmem
      obtain ⟨coin, hcoin, -⟩ := hall.mpr hrefusal id hmem
      exact ⟨coin, hcoin⟩
    · rw [← hpending]
      exact OrderedMap.get?_insert _ tx.txid txid (CoinStore.sentRecord tx ids)

end TrackState

end RingWallet
