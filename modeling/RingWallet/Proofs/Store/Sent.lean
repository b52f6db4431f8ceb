import RingWallet.Proofs.Store.Commit
import RingWallet.Proofs.Store.Histories

/-!
# Sent transactions on record

Most operations change the coins of a store and nothing else (`CoinStore.OnlyCoins`), and then the
coins tell the whole store (`OnlyCoins.eq_of_coin?`). What a sent transaction was sent as, its
identifier and the coins that it spends (`CoinStore.sentAs?`), is changed by sending alone: blocks
only move the status of what is on record.
-/

set_option autoImplicit false

namespace RingWallet.CoinStore

/-! ## Changes of the coins alone -/

/-- The second store differs from the first in its coins only. -/
def OnlyCoins (store later : CoinStore) : Prop := later = { store with coins := later.coins }

namespace OnlyCoins

theorem refl (store : CoinStore) : store.OnlyCoins store := rfl

theorem trans {a b c : CoinStore} (hab : a.OnlyCoins b) (hbc : b.OnlyCoins c) : a.OnlyCoins c := by
  unfold OnlyCoins at hab hbc ⊢
  rw [hbc, hab]

theorem pending_eq {store later : CoinStore} (h : store.OnlyCoins later) :
    later.pending = store.pending := by
  unfold OnlyCoins at h
  rw [h]

theorem rings_eq {store later : CoinStore} (h : store.OnlyCoins later) :
    later.rings = store.rings ∧ later.memberRings = store.memberRings ∧
      later.serialIndex = store.serialIndex := by
  unfold OnlyCoins at h
  rw [h]
  exact ⟨rfl, rfl, rfl⟩

/-- Two stores with the same coins are the same if nothing else differs. -/
theorem eq_of_coin? {store later : CoinStore} (h : store.OnlyCoins later)
    (hcoins : ∀ id, later.coin? id = store.coin? id) : later = store := by
  have hsame : later.coins = store.coins := OrderedMap.ext_get? hcoins
  unfold OnlyCoins at h
  rw [h, hsame]

theorem foldl_withStatus (ids : List CoinId) (status : CoinStatus) (store : CoinStore) :
    store.OnlyCoins (ids.foldl (fun store id => store.withStatus id status) store) := by
  induction ids generalizing store with
  | nil => exact .refl store
  | cons id rest ih => exact trans (b := store.withStatus id status) rfl (ih _)

theorem insertCoin (store : CoinStore) {coin : Coin} (h : coin.serialNumber? = none) :
    store.OnlyCoins (store.insertCoin coin).2 := by
  unfold CoinStore.insertCoin
  split
  · exact .refl store
  · rw [h]
    rfl

theorem record {coinOf : AccountId → UInt64 → Coin}
    (hfresh : ∀ account value, (coinOf account value).IsFresh)
    (owner? : Option (AccountId × UInt64)) (store : CoinStore) :
    store.OnlyCoins (record coinOf owner? store).2 := by
  cases owner? with
  | none => exact .refl store
  | some owner => exact .insertCoin store (hfresh owner.1 owner.2).serialNumber_eq

theorem applyInputs (ring : List CoinId) (coins : List Coin) (store : CoinStore) :
    store.OnlyCoins (applyInputs ring coins store).2 := by
  induction coins generalizing store with
  | nil => exact .refl store
  | cons coin rest ih =>
    have hfirst : store.OnlyCoins (applyInput ring coin store).2 := by
      rw [applyInput_store]
      split <;> rfl
    exact hfirst.trans (ih _)

theorem trackInputs (inputs : List ChainInput) (store : CoinStore) :
    store.OnlyCoins (trackInputs inputs store).2 := by
  induction inputs generalizing store with
  | nil => exact .refl store
  | cons input rest ih => exact (applyInputs input.ring _ store).trans (ih _)

theorem followSpends (isCoinbase : Bool) (tx : ChainTx) (store : CoinStore) :
    store.OnlyCoins (followSpends isCoinbase tx store).2 := by
  cases isCoinbase with
  | true => exact .refl store
  | false => exact trackInputs tx.inputs store

theorem matureAt (params : ChainParams) (height : UInt64) (store : CoinStore) :
    store.OnlyCoins (matureAt params height store).2 := by
  unfold CoinStore.matureAt
  cases params.matureHeight? height with
  | none => exact .refl store
  | some maxHeight => exact foldl_withStatus _ .spendable store

end OnlyCoins

theorem pending_foldl_addRing (entries : List (RingId × CoinRing)) (store : CoinStore) :
    (entries.foldl addRing store).pending = store.pending := by
  induction entries generalizing store with
  | nil => rfl
  | cons entry rest ih => exact ih (store.addRing entry)

theorem pending_foldl_resolve (resolutions : List RingResolution) (store : CoinStore) :
    (resolutions.foldl resolve store).pending = store.pending := by
  induction resolutions generalizing store with
  | nil => rfl
  | cons resolution rest ih => exact ih (store.resolve resolution)

/-- A commit leaves the sent transactions alone. -/
theorem pending_commit {store later : CoinStore} {batch : ResolutionBatch}
    (h : store.commit batch = .ok later) : later.pending = store.pending := by
  obtain ⟨-, rfl⟩ := (commit_eq_ok_iff store later batch).mp h
  rw [pending_foldl_resolve, pending_foldl_addRing]

/-! ## What transactions were sent as -/

/-- The identifier and the coins that a transaction on record was sent with. -/
def sentAs? (store : CoinStore) (txid : TxId) : Option (TxId × List CoinId) :=
  (store.pending.get? txid).map fun tx => (tx.txid, tx.coins)

theorem sentAs?_eq_of_pending_eq {store later : CoinStore} (h : later.pending = store.pending) :
    later.sentAs? = store.sentAs? := by
  funext txid
  unfold sentAs?
  rw [h]

theorem sentAs?_insertPending (store : CoinStore) (tx : PendingTx) (txid : TxId) :
    (store.insertPending tx).sentAs? txid =
      if tx.txid = txid then some (tx.txid, tx.coins) else store.sentAs? txid := by
  unfold sentAs? insertPending
  rw [OrderedMap.get?_insert]
  split <;> rfl

@[simp] theorem sentAs?_withPendingStatus (store : CoinStore) (txid : TxId)
    (status : PendingStatus) (height? : Option UInt64) :
    (store.withPendingStatus txid status height?).sentAs? = store.sentAs? := by
  funext other
  unfold sentAs? withPendingStatus
  rw [OrderedMap.get?_adjust]
  split
  · rw [Option.map_map]
    rfl
  · rfl

theorem sentAs?_foldl_withPendingStatus (txids : List TxId) (status : PendingStatus)
    (height? : Option UInt64) (store : CoinStore) :
    (txids.foldl (fun store txid => store.withPendingStatus txid status height?) store).sentAs? =
      store.sentAs? := by
  induction txids generalizing store with
  | nil => rfl
  | cons txid rest ih => rw [List.foldl_cons, ih, sentAs?_withPendingStatus]

/-- A block changes nothing of what transactions were sent as. -/
@[simp] theorem sentAs?_trackPending (block : ChainBlock) (store : CoinStore) :
    (trackPending block store).2.sentAs? = store.sentAs? :=
  sentAs?_foldl_withPendingStatus _ .confirmed (some block.height) store

/-- Every transaction on record is found by its own identifier. -/
def SentKeyed (store : CoinStore) : Prop :=
  ∀ {txid sent}, store.sentAs? txid = some sent → sent.1 = txid

theorem SentKeyed.txid_eq {store : CoinStore} (h : store.SentKeyed) {txid : TxId} {tx : PendingTx}
    (hget : store.pending.get? txid = some tx) : tx.txid = txid := by
  have hsent : store.sentAs? txid = some (tx.txid, tx.coins) := by
    unfold sentAs?
    rw [hget]
    rfl
  exact h hsent

/-! ## What waits for a block -/

theorem mem_pendingTxs_iff (store : CoinStore) (tx : PendingTx) :
    tx ∈ store.pendingTxs ↔ (∃ txid, store.pending.get? txid = some tx) ∧ tx.status = .pending := by
  unfold pendingTxs
  rw [List.mem_filter, OrderedMap.mem_values_iff, beq_iff_eq]

/-- The effect of a list of confirmations on each sent transaction. -/
theorem pending_foldl_withPendingStatus (txids : List TxId) (status : PendingStatus)
    (height? : Option UInt64) (store : CoinStore) (txid : TxId) :
    (txids.foldl (fun store txid => store.withPendingStatus txid status height?)
        store).pending.get? txid =
      if txid ∈ txids then (store.pending.get? txid).map fun tx => { tx with status, height? }
      else store.pending.get? txid := by
  induction txids generalizing store with
  | nil => simp
  | cons first rest ih =>
    have hfirst : (store.withPendingStatus first status height?).pending.get? txid =
        if first = txid then (store.pending.get? txid).map fun tx => { tx with status, height? }
        else store.pending.get? txid := OrderedMap.get?_adjust store.pending first txid _
    rw [List.foldl_cons, ih, hfirst]
    by_cases heq : first = txid
    · subst heq
      cases store.pending.get? first <;> simp
    · simp [heq, Ne.symm heq]

/-- A sent transaction that still waits behind a block waited before it and is not in the block. -/
theorem mem_pendingTxs_trackPending {block : ChainBlock} {store : CoinStore} {tx : PendingTx}
    (hkeyed : store.SentKeyed) (h : tx ∈ (trackPending block store).2.pendingTxs) :
    tx ∈ store.pendingTxs ∧ tx.txid ∉ block.txs.map (·.txid) := by
  obtain ⟨⟨txid, hget⟩, hstatus⟩ := (mem_pendingTxs_iff _ tx).mp h
  unfold trackPending at hget
  dsimp only at hget
  rw [pending_foldl_withPendingStatus] at hget
  split at hget
  · -- A confirmed transaction does not wait.
    obtain ⟨old, -, rfl⟩ := Option.map_eq_some_iff.mp hget
    cases hstatus
  · rename_i hnot
    have hwaits : tx ∈ store.pendingTxs := (mem_pendingTxs_iff _ tx).mpr ⟨⟨txid, hget⟩, hstatus⟩
    have hid : tx.txid = txid := hkeyed.txid_eq hget
    refine ⟨hwaits, fun hmem => hnot (List.mem_filter.mpr ⟨?_, ?_⟩)⟩
    · exact hid ▸ List.mem_map_of_mem hwaits
    · exact List.contains_iff_mem.mpr (hid ▸ hmem)

/-- A block names the waiting transactions that it holds. -/
theorem mem_trackPending_iff {block : ChainBlock} {store : CoinStore} (hkeyed : store.SentKeyed)
    {txid : TxId} :
    txid ∈ (trackPending block store).1 ↔
      txid ∈ block.txs.map (·.txid) ∧
        ∃ tx, store.pending.get? txid = some tx ∧ tx.status = .pending := by
  unfold trackPending
  simp only [List.mem_filter, List.contains_iff_mem, List.mem_map, mem_pendingTxs_iff]
  constructor
  · rintro ⟨⟨tx, ⟨⟨key, hget⟩, hstatus⟩, rfl⟩, hblock⟩
    have hkey : tx.txid = key := hkeyed.txid_eq hget
    exact ⟨hblock, tx, hkey ▸ hget, hstatus⟩
  · rintro ⟨hblock, tx, hget, hstatus⟩
    exact ⟨⟨tx, ⟨⟨txid, hget⟩, hstatus⟩, hkeyed.txid_eq hget⟩, hblock⟩

theorem nodup_trackPending {block : ChainBlock} {store : CoinStore} (hkeyed : store.SentKeyed) :
    (trackPending block store).1.Nodup := by
  have hsub : (trackPending block store).1.Sublist (store.pending.values.map (·.txid)) :=
    List.filter_sublist.trans (List.filter_sublist.map _)
  exact hsub.nodup (OrderedMap.nodup_map_values store.pending (·.txid) fun _ _ => hkeyed.txid_eq)

/-- The effect of a block on each sent transaction. -/
theorem pending_trackPending (block : ChainBlock) (store : CoinStore) (txid : TxId) :
    (trackPending block store).2.pending.get? txid =
      if txid ∈ (trackPending block store).1 then
        (store.pending.get? txid).map fun tx =>
          { tx with status := .confirmed, height? := some block.height }
      else store.pending.get? txid :=
  pending_foldl_withPendingStatus _ .confirmed (some block.height) store txid

/-- A block names exactly the sent transactions that wait before it and are confirmed behind it. -/
theorem mem_trackPending_iff_confirmed {block : ChainBlock} {store : CoinStore}
    (hkeyed : store.SentKeyed) {txid : TxId} :
    txid ∈ (trackPending block store).1 ↔
      (∃ tx, store.pending.get? txid = some tx ∧ tx.status = .pending) ∧
        ∃ tx, (trackPending block store).2.pending.get? txid = some tx ∧ tx.status = .confirmed := by
  rw [pending_trackPending]
  constructor
  · intro hmem
    obtain ⟨-, tx, hget, hstatus⟩ := (mem_trackPending_iff hkeyed).mp hmem
    rw [if_pos hmem, hget]
    exact ⟨⟨tx, rfl, hstatus⟩, _, rfl, rfl⟩
  · rintro ⟨⟨tx, hget, hwaits⟩, other, hother, hconfirmed⟩
    by_contra hnot
    -- A transaction that is not named is as it was.
    rw [if_neg hnot, hget] at hother
    cases hother
    rw [hwaits] at hconfirmed
    cases hconfirmed

end RingWallet.CoinStore
