import RingWallet.Proofs.OrderedMap
import RingWallet.Tracker.Spend

/-!
# The view of the coin store

A store is seen through the coin with a given name (`coin?`), the names that a serial number was
learned for (`holders`) and the ring with a given identifier (`ring?`). Every operation of the store
has one equation for each part of the view that it changes; what it leaves alone is a `simp` lemma.
-/

set_option autoImplicit false

namespace RingWallet

/-- What a coin is after its ring, its place and its serial number are learned. -/
def Coin.linked (coin : Coin) (resolution : RingResolution) : Coin :=
  { coin with
    ringId? := some resolution.ringId
    ringIndex? := some resolution.ringIndex
    serialNumber? := some resolution.serialNumber
    status := if resolution.makeSpendable then .spendable else coin.status }

namespace CoinStore

/-- The names of the coins that a serial number was learned for, in the order of learning. -/
def holders (store : CoinStore) (serialNumber : Bytes) : List CoinId :=
  (store.serialIndex.get? serialNumber).getD []

theorem bySerial_eq (store : CoinStore) (serialNumber : Bytes) :
    store.bySerial serialNumber = (store.holders serialNumber).filterMap store.coin? := rfl

/-- Names that are all stored are the names of the coins stored under them. -/
theorem map_id_filterMap_coin? {store : CoinStore}
    (hkeyed : ∀ id coin, store.coin? id = some coin → coin.id = id) {ids : List CoinId}
    (hstored : ∀ id ∈ ids, ∃ coin, store.coin? id = some coin) :
    (ids.filterMap store.coin?).map Coin.id = ids := by
  induction ids with
  | nil => rfl
  | cons first rest ih =>
    obtain ⟨coin, hcoin⟩ := hstored first List.mem_cons_self
    rw [List.filterMap_cons_some hcoin, List.map_cons, hkeyed first coin hcoin,
      ih fun id hmem => hstored id (List.mem_cons_of_mem _ hmem)]

@[simp] theorem coin?_empty (id : CoinId) : empty.coin? id = none := rfl

@[simp] theorem holders_empty (serialNumber : Bytes) : empty.holders serialNumber = [] := rfl

@[simp] theorem ring?_empty (id : RingId) : empty.ring? id = none := rfl

/-! ## Indexing a serial number -/

@[simp] theorem coin?_indexSerial (store : CoinStore) (serialNumber : Bytes) (id id' : CoinId) :
    (store.indexSerial serialNumber id).coin? id' = store.coin? id' := rfl

@[simp] theorem ring?_indexSerial (store : CoinStore) (serialNumber : Bytes) (id : CoinId)
    (ring : RingId) : (store.indexSerial serialNumber id).ring? ring = store.ring? ring := rfl

theorem holders_indexSerial (store : CoinStore) (serialNumber serialNumber' : Bytes)
    (id : CoinId) :
    (store.indexSerial serialNumber id).holders serialNumber' =
      if serialNumber = serialNumber' then store.holders serialNumber' ++ [id]
      else store.holders serialNumber' := by
  unfold holders indexSerial
  rw [OrderedMap.get?_insert]
  split
  · rename_i h
    subst h
    rfl
  · rfl

/-! ## Receiving a coin -/

/-- A coin is new if its name is not stored yet. -/
theorem insertCoin_isNew (store : CoinStore) (coin : Coin) :
    (store.insertCoin coin).1 = (store.coin? coin.id).isNone := by
  have hcontains : store.coins.contains coin.id = (store.coin? coin.id).isSome := rfl
  unfold insertCoin
  rw [hcontains]
  cases store.coin? coin.id <;> rfl

/-- A known coin is not received again. -/
theorem insertCoin_of_known {store : CoinStore} {coin found : Coin}
    (h : store.coin? coin.id = some found) : (store.insertCoin coin).2 = store := by
  have hin : store.coins.contains coin.id = true :=
    (OrderedMap.contains_iff _ _).mpr ⟨found, h⟩
  unfold insertCoin
  rw [if_pos hin]

theorem coin?_insertCoin (store : CoinStore) (coin : Coin) (id : CoinId) :
    (store.insertCoin coin).2.coin? id =
      if coin.id = id then some ((store.coin? id).getD coin) else store.coin? id := by
  cases h : store.coin? coin.id with
  | some found =>
    rw [insertCoin_of_known h]
    split
    · rename_i heq
      subst heq
      simp [h]
    · rfl
  | none =>
    have hnot : ¬ store.coins.contains coin.id = true := fun hin => by
      obtain ⟨found, hfound⟩ := (OrderedMap.contains_iff _ _).mp hin
      rw [coin?, hfound] at h
      cases h
    unfold insertCoin
    rw [if_neg hnot]
    -- A new coin goes into the map whether or not it is indexed under a serial number.
    have hcoins : ∀ indexed : CoinStore, indexed.coins = store.coins →
        CoinStore.coin? { indexed with coins := indexed.coins.insert coin.id coin } id =
          if coin.id = id then some ((store.coin? id).getD coin) else store.coin? id := by
      intro indexed hindexed
      change (indexed.coins.insert coin.id coin).get? id = _
      rw [OrderedMap.get?_insert, hindexed]
      split
      · rename_i heq
        subst heq
        rw [h]
        rfl
      · rfl
    exact hcoins _ (by cases coin.serialNumber? <;> rfl)

@[simp] theorem ring?_insertCoin (store : CoinStore) (coin : Coin) (ring : RingId) :
    (store.insertCoin coin).2.ring? ring = store.ring? ring := by
  unfold insertCoin
  split
  · rfl
  · cases coin.serialNumber? <;> rfl

/-- A coin without a serial number is put under none. -/
theorem holders_insertCoin (store : CoinStore) {coin : Coin} (h : coin.serialNumber? = none)
    (serialNumber : Bytes) :
    (store.insertCoin coin).2.holders serialNumber = store.holders serialNumber := by
  unfold insertCoin
  split
  · rfl
  · rw [h]
    rfl

/-- A new coin is put under its serial number, if it comes with one. -/
theorem holders_insertCoin_of_new (store : CoinStore) {coin : Coin}
    (hnew : store.coin? coin.id = none) (serialNumber : Bytes) :
    (store.insertCoin coin).2.holders serialNumber =
      store.holders serialNumber ++
        if coin.serialNumber? = some serialNumber then [coin.id] else [] := by
  have hnot : store.coins.contains coin.id = false := by
    show (store.coin? coin.id).isSome = false
    rw [hnew]
    rfl
  simp only [insertCoin, hnot]
  cases hserial : coin.serialNumber? with
  | none => simp [holders]
  | some own =>
    show (store.indexSerial own coin.id).holders serialNumber = _
    rw [holders_indexSerial]
    by_cases heq : own = serialNumber <;> simp [heq]

/-! ## Changing a status -/

theorem coin?_withStatus (store : CoinStore) (id id' : CoinId) (status : CoinStatus) :
    (store.withStatus id status).coin? id' =
      if id = id' then (store.coin? id').map fun coin => { coin with status }
      else store.coin? id' :=
  OrderedMap.get?_adjust store.coins id id' _

@[simp] theorem holders_withStatus (store : CoinStore) (id : CoinId) (status : CoinStatus)
    (serialNumber : Bytes) :
    (store.withStatus id status).holders serialNumber = store.holders serialNumber := rfl

@[simp] theorem ring?_withStatus (store : CoinStore) (id : CoinId) (status : CoinStatus)
    (ring : RingId) : (store.withStatus id status).ring? ring = store.ring? ring := rfl

/-- One status for several coins. -/
theorem coin?_foldl_withStatus (ids : List CoinId) (status : CoinStatus) (store : CoinStore)
    (id : CoinId) :
    (ids.foldl (fun store id => store.withStatus id status) store).coin? id =
      if id ∈ ids then (store.coin? id).map fun coin => { coin with status }
      else store.coin? id := by
  induction ids generalizing store with
  | nil => simp
  | cons first rest ih =>
    rw [List.foldl_cons, ih, coin?_withStatus]
    by_cases hfirst : first = id
    · subst hfirst
      cases store.coin? first <;> simp
    · have hne : ¬ id = first := fun h => hfirst h.symm
      simp [hfirst, hne]

/-! ## Rings -/

@[simp] theorem coin?_addRing (store : CoinStore) (entry : RingId × CoinRing) (id : CoinId) :
    (store.addRing entry).coin? id = store.coin? id := rfl

@[simp] theorem holders_addRing (store : CoinStore) (entry : RingId × CoinRing)
    (serialNumber : Bytes) :
    (store.addRing entry).holders serialNumber = store.holders serialNumber := rfl

/-- Of two rings with one identifier the first stays. -/
theorem ring?_addRing (store : CoinStore) (entry : RingId × CoinRing) (id : RingId) :
    (store.addRing entry).ring? id =
      if entry.1 = id then some ((store.ring? entry.1).getD entry.2) else store.ring? id :=
  OrderedMap.get?_insertNew store.rings entry.1 id entry.2

theorem coin?_resolve (store : CoinStore) (resolution : RingResolution) (id : CoinId) :
    (store.resolve resolution).coin? id =
      if resolution.coin = id then (store.coin? id).map (·.linked resolution)
      else store.coin? id :=
  OrderedMap.get?_adjust store.coins resolution.coin id _

theorem holders_resolve (store : CoinStore) (resolution : RingResolution)
    (serialNumber : Bytes) :
    (store.resolve resolution).holders serialNumber =
      if resolution.serialNumber = serialNumber then
        store.holders serialNumber ++ [resolution.coin]
      else store.holders serialNumber :=
  holders_indexSerial _ _ _ _

@[simp] theorem ring?_resolve (store : CoinStore) (resolution : RingResolution)
    (ring : RingId) : (store.resolve resolution).ring? ring = store.ring? ring := rfl

/-! ## Sent transactions -/

@[simp] theorem coin?_insertPending (store : CoinStore) (tx : PendingTx) (id : CoinId) :
    (store.insertPending tx).coin? id = store.coin? id := rfl

@[simp] theorem holders_insertPending (store : CoinStore) (tx : PendingTx)
    (serialNumber : Bytes) :
    (store.insertPending tx).holders serialNumber = store.holders serialNumber := rfl

@[simp] theorem ring?_insertPending (store : CoinStore) (tx : PendingTx) (ring : RingId) :
    (store.insertPending tx).ring? ring = store.ring? ring := rfl

@[simp] theorem coin?_withPendingStatus (store : CoinStore) (txid : TxId)
    (status : PendingStatus) (height? : Option UInt64) (id : CoinId) :
    (store.withPendingStatus txid status height?).coin? id = store.coin? id := rfl

@[simp] theorem holders_withPendingStatus (store : CoinStore) (txid : TxId)
    (status : PendingStatus) (height? : Option UInt64) (serialNumber : Bytes) :
    (store.withPendingStatus txid status height?).holders serialNumber =
      store.holders serialNumber := rfl

@[simp] theorem ring?_withPendingStatus (store : CoinStore) (txid : TxId)
    (status : PendingStatus) (height? : Option UInt64) (ring : RingId) :
    (store.withPendingStatus txid status height?).ring? ring = store.ring? ring := rfl

end CoinStore

end RingWallet
