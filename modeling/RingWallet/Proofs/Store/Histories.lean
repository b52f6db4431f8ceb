import RingWallet.Proofs.Store.Change
import RingWallet.Tracker.Maturity

/-!
# Store operations as histories

Each operation that tracking performs on the store is a chain of single changes, whatever it is
given: receiving, following the inputs of a transaction, marking coins as spent, following sent
transactions, maturing coinbase coins and taking over a batch. Inputs are applied to coins as they
stood when the input was looked up; the index lists a coin once, so no coin of the list is out of
date when its turn comes.
-/

set_option autoImplicit false

namespace RingWallet

/-- The coin that an output is for an account which recognised it with a value. -/
def receivedCoin (tx : ChainTx) (isCoinbase : Bool) (blockHash : BlockHash) (height : UInt64)
    (index : Nat) (output : Bytes) (account : AccountId) (value : UInt64) : Coin where
  id := ⟨tx.txid, UInt8.ofNat index⟩
  account := account
  blockHash := blockHash
  height := height
  txVersion := tx.version
  output := output
  value := value
  isCoinbase := isCoinbase
  status := .immature
  ringId? := none
  ringIndex? := none
  serialNumber? := none

theorem receivedCoin_isFresh (tx : ChainTx) (isCoinbase : Bool) (blockHash : BlockHash)
    (height : UInt64) (index : Nat) (output : Bytes) (account : AccountId) (value : UInt64) :
    (receivedCoin tx isCoinbase blockHash height index output account value).IsFresh :=
  ⟨rfl, rfl, rfl, rfl⟩

namespace CoinStore

variable {committed : List CoinRing}

/-! ## Receiving -/

/-- Stores the coin of an output that has an owner, and says whether it is new. -/
def record (coinOf : AccountId → UInt64 → Coin) (owner? : Option (AccountId × UInt64))
    (store : CoinStore) : Bool × CoinStore :=
  match owner? with
  | none => (false, store)
  | some (account, value) => store.insertCoin (coinOf account value)

theorem insertCoin_history (store : CoinStore) {coin : Coin} (hfresh : coin.IsFresh) :
    History ⟨store, committed⟩ ⟨(store.insertCoin coin).2, committed⟩ := by
  cases hcoin : store.coin? coin.id with
  | none => exact .single (.receive coin hcoin hfresh)
  | some found => rw [insertCoin_of_known hcoin]

theorem record_history {coinOf : AccountId → UInt64 → Coin}
    (hfresh : ∀ account value, (coinOf account value).IsFresh)
    (owner? : Option (AccountId × UInt64)) (store : CoinStore) :
    History ⟨store, committed⟩ ⟨(record coinOf owner? store).2, committed⟩ := by
  cases owner? with
  | none => exact .refl
  | some owner => exact insertCoin_history store (hfresh owner.1 owner.2)

/-! ## Spends on the chain -/

/-- Follows the inputs of a transaction unless it is the coinbase. -/
def followSpends (isCoinbase : Bool) (tx : ChainTx) (store : CoinStore) :
    SpendReport × CoinStore :=
  if isCoinbase then (.empty, store) else store.trackSpends tx

/-- What a coin becomes whose serial number an input with a given ring shows. -/
def verdict (ring : List CoinId) (id : CoinId) : CoinStatus :=
  if ring.contains id then .confirmed else .invalid

theorem verdict_eq_or (ring : List CoinId) (id : CoinId) :
    verdict ring id = .confirmed ∨ verdict ring id = .invalid := by
  unfold verdict
  split
  · exact .inl rfl
  · exact .inr rfl

/-- An input touches only a coin that stood as spendable or spent. -/
theorem applyInput_store (ring : List CoinId) (coin : Coin) (store : CoinStore) :
    (applyInput ring coin store).2 =
      if coin.status = .spendable ∨ coin.status = .spent then
        store.withStatus coin.id (verdict ring coin.id)
      else store := by
  unfold applyInput verdict
  dsimp only
  by_cases hstatus : coin.status = .spendable ∨ coin.status = .spent
  · rw [if_pos hstatus, if_pos hstatus]
    by_cases hlists : ring.contains coin.id = true
    · rw [if_pos hlists, if_pos hlists]
    · rw [if_neg hlists, if_neg hlists]
  · rw [if_neg hstatus, if_neg hstatus]

theorem coin?_applyInput_of_ne (ring : List CoinId) {coin : Coin} (store : CoinStore) {id : CoinId}
    (hne : coin.id ≠ id) : (applyInput ring coin store).2.coin? id = store.coin? id := by
  rw [applyInput_store]
  split
  · rw [coin?_withStatus, if_neg hne]
  · rfl

/-- Coins that are listed once and stand as listed. -/
structure Current (store : CoinStore) (coins : List Coin) : Prop where
  stored : ∀ coin ∈ coins, store.coin? coin.id = some coin
  nodup : (coins.map Coin.id).Nodup

/-- After the first coin has been handled, the others still stand as listed. -/
theorem Current.tail_applyInput {store : CoinStore} {coin : Coin} {rest : List Coin}
    (h : Current store (coin :: rest)) (ring : List CoinId) :
    Current (applyInput ring coin store).2 rest := by
  obtain ⟨hnotMem, hnodup⟩ := List.nodup_cons.mp (List.map_cons ▸ h.nodup)
  refine ⟨fun other hother => ?_, hnodup⟩
  have hne : coin.id ≠ other.id := fun heq => hnotMem (heq ▸ List.mem_map_of_mem hother)
  rw [coin?_applyInput_of_ne ring store hne]
  exact h.stored other (List.mem_cons_of_mem _ hother)

theorem applyInputs_history (ring : List CoinId) {coins : List Coin} {store : CoinStore}
    (h : Current store coins) :
    History ⟨store, committed⟩ ⟨(applyInputs ring coins store).2, committed⟩ := by
  induction coins generalizing store with
  | nil => exact .refl
  | cons coin rest ih =>
    have hcoin := h.stored coin List.mem_cons_self
    have hfirst : History ⟨store, committed⟩ ⟨(applyInput ring coin store).2, committed⟩ := by
      rw [applyInput_store]
      split
      · rename_i hstatus
        exact .single (.see coin.id _ hcoin hstatus (verdict_eq_or ring coin.id))
      · exact .refl
    exact hfirst.trans (ih (h.tail_applyInput ring))

/-- The coins of a serial number stand as listed. -/
theorem current_bySerial {store : CoinStore} (h : LoggedStore.Sound ⟨store, committed⟩)
    (serialNumber : Bytes) : Current store (store.bySerial serialNumber) := by
  rw [bySerial_eq]
  constructor
  · intro coin hmem
    obtain ⟨id, -, hcoin⟩ := List.mem_filterMap.mp hmem
    have hid : coin.id = id := h.id_eq hcoin
    rw [hid]
    exact hcoin
  · rw [map_id_filterMap_coin? (fun _ _ => h.id_eq) fun id hmem => ?_]
    · exact h.nodup_holders serialNumber
    · obtain ⟨coin, hcoin, -⟩ := (h.mem_holders_iff serialNumber id).mp hmem
      exact ⟨coin, hcoin⟩

theorem trackInputs_history (inputs : List ChainInput) {store : CoinStore}
    (h : LoggedStore.Sound ⟨store, committed⟩) :
    History ⟨store, committed⟩ ⟨(trackInputs inputs store).2, committed⟩ := by
  induction inputs generalizing store with
  | nil => exact .refl
  | cons input rest ih =>
    have hfirst : History ⟨store, committed⟩
        ⟨(applyInputs input.ring (store.bySerial input.serialNumber) store).2, committed⟩ :=
      applyInputs_history input.ring (current_bySerial h input.serialNumber)
    exact Relation.ReflTransGen.trans hfirst (ih (h.of_history hfirst))

theorem followSpends_history (isCoinbase : Bool) (tx : ChainTx) {store : CoinStore}
    (h : LoggedStore.Sound ⟨store, committed⟩) :
    History ⟨store, committed⟩ ⟨(followSpends isCoinbase tx store).2, committed⟩ := by
  cases isCoinbase with
  | true => exact .refl
  | false => exact trackInputs_history tx.inputs h

/-! ## Spends of the wallet -/

/-- Marking coins that are spendable or spent already. -/
theorem foldl_spend_history (ids : List CoinId) {store : CoinStore}
    (h : ∀ id ∈ ids, ∃ coin, store.coin? id = some coin ∧
      (coin.status = .spendable ∨ coin.status = .spent)) :
    History ⟨store, committed⟩
      ⟨ids.foldl (fun store id => store.withStatus id .spent) store, committed⟩ := by
  induction ids generalizing store with
  | nil => exact .refl
  | cons first rest ih =>
    obtain ⟨coin, hcoin, hstatus⟩ := h first List.mem_cons_self
    refine Relation.ReflTransGen.head (.spend first hcoin hstatus) (ih fun id hmem => ?_)
    obtain ⟨found, hfound, hfoundStatus⟩ := h id (List.mem_cons_of_mem _ hmem)
    rw [coin?_withStatus]
    split
    · exact ⟨{ found with status := .spent }, by rw [hfound]; rfl, .inr rfl⟩
    · exact ⟨found, hfound, hfoundStatus⟩

/-- What keeps a coin from being marked as spent: it is unknown, or it is not spendable. -/
def refusal? (store : CoinStore) (id : CoinId) : Option WalletError :=
  match store.coin? id with
  | none => some (.invalidParameter (.unknownCoin id))
  | some coin =>
    if coin.status = .spendable then none
    else some (.invalidStateTransition id coin.status .spent)

theorem refusal?_eq_none_iff (store : CoinStore) (id : CoinId) :
    store.refusal? id = none ↔ ∃ coin, store.coin? id = some coin ∧ coin.status = .spendable := by
  unfold refusal?
  cases store.coin? id <;> simp

/-- A list of coins is refused for the first one that is. -/
theorem checkSpendable_eq (store : CoinStore) (ids : List CoinId) :
    store.checkSpendable ids =
      match ids.findSome? store.refusal? with
      | none => .ok ()
      | some e => .error e := by
  have hcan : ∀ status : CoinStatus, status.canBecome .spent = true ↔ status = .spendable := by
    intro status
    cases status <;> decide
  induction ids with
  | nil => rfl
  | cons first rest ih =>
    rw [checkSpendable, List.findSome?_cons, refusal?]
    cases store.coin? first with
    | none => rfl
    | some coin =>
      by_cases hstatus : coin.status = .spendable
      · simp only [hcan, if_pos hstatus]
        exact ih
      · simp only [hcan, if_neg hstatus]

/-- The check passes exactly if all coins are stored and spendable. -/
theorem checkSpendable_eq_ok_iff (store : CoinStore) (ids : List CoinId) :
    store.checkSpendable ids = .ok () ↔
      ∀ id ∈ ids, ∃ coin, store.coin? id = some coin ∧ coin.status = .spendable := by
  simp only [← refusal?_eq_none_iff, ← List.findSome?_eq_none_iff]
  rw [checkSpendable_eq]
  cases ids.findSome? store.refusal? with
  | none => simp
  | some e => simp

theorem markSpent_history {ids : List CoinId} {store later : CoinStore}
    (h : store.markSpent ids = .ok later) :
    History ⟨store, committed⟩ ⟨later, committed⟩ := by
  unfold markSpent at h
  split at h
  · rename_i hcheck
    cases h
    apply foldl_spend_history ids
    intro id hmem
    obtain ⟨coin, hcoin, hstatus⟩ := (checkSpendable_eq_ok_iff store ids).mp hcheck id hmem
    exact ⟨coin, hcoin, .inl hstatus⟩
  · cases h

theorem recordSubmitted_history {tx : SignedTx} {ids : List CoinId} {store later : CoinStore}
    (h : store.recordSubmitted tx ids = .ok later) :
    History ⟨store, committed⟩ ⟨later, committed⟩ := by
  unfold recordSubmitted at h
  split at h
  · rename_i marked hmarked
    cases h
    exact Relation.ReflTransGen.tail (markSpent_history hmarked) (.send _)
  · cases h

/-! ## Sent transactions -/

theorem foldl_follow_history (txids : List TxId) (status : PendingStatus)
    (height? : Option UInt64) (store : CoinStore) :
    History ⟨store, committed⟩
      ⟨txids.foldl (fun store txid => store.withPendingStatus txid status height?) store,
        committed⟩ := by
  induction txids generalizing store with
  | nil => exact .refl
  | cons txid rest ih => exact Relation.ReflTransGen.head (.follow txid status height?) (ih _)

theorem trackPending_history (block : ChainBlock) (store : CoinStore) :
    History ⟨store, committed⟩ ⟨(trackPending block store).2, committed⟩ :=
  foldl_follow_history _ .confirmed (some block.height) store

/-! ## Maturity -/

/-- Makes the coinbase coins spendable that are deep enough at a height. -/
def matureAt (params : ChainParams) (height : UInt64) (store : CoinStore) :
    List CoinId × CoinStore :=
  match params.matureHeight? height with
  | some maxHeight => store.matureCoinbase maxHeight
  | none => ([], store)

/-- Making waiting coins with known rings spendable, each once. -/
theorem foldl_mature_history {ids : List CoinId} {store : CoinStore} (hnodup : ids.Nodup)
    (h : ∀ id ∈ ids, ∃ coin, store.coin? id = some coin ∧ coin.status = .immature ∧
      coin.isResolved = true) :
    History ⟨store, committed⟩
      ⟨ids.foldl (fun store id => store.withStatus id .spendable) store, committed⟩ := by
  induction ids generalizing store with
  | nil => exact .refl
  | cons first rest ih =>
    obtain ⟨hnotMem, hrest⟩ := List.nodup_cons.mp hnodup
    obtain ⟨coin, hcoin, hstatus, hresolved⟩ := h first List.mem_cons_self
    refine Relation.ReflTransGen.head (.mature first hcoin hstatus hresolved)
      (ih hrest fun id hmem => ?_)
    have hne : first ≠ id := fun heq => hnotMem (heq ▸ hmem)
    rw [coin?_withStatus, if_neg hne]
    exact h id (List.mem_cons_of_mem _ hmem)

/-- Listed coins stand under their own names. -/
theorem coin?_of_mem_values {store : CoinStore} (h : LoggedStore.Sound ⟨store, committed⟩)
    {coin : Coin} (hmem : coin ∈ store.coins.values) : store.coin? coin.id = some coin := by
  obtain ⟨id, hcoin⟩ := (OrderedMap.mem_values_iff _ _).mp hmem
  have hid : coin.id = id := h.id_eq hcoin
  rw [hid]
  exact hcoin

theorem nodup_map_id_values {store : CoinStore} (h : LoggedStore.Sound ⟨store, committed⟩) :
    (store.coins.values.map Coin.id).Nodup :=
  OrderedMap.nodup_map_values store.coins Coin.id fun _ _ hcoin => h.id_eq hcoin

theorem nodup_matureCoinbase (maxHeight : UInt64) {store : CoinStore}
    (h : LoggedStore.Sound ⟨store, committed⟩) : (store.matureCoinbase maxHeight).1.Nodup := by
  have hsub : (((store.immatureCoinbase maxHeight).filter (·.isResolved)).map Coin.id).Sublist
      (store.coins.values.map Coin.id) :=
    (List.filter_sublist.trans List.filter_sublist).map Coin.id
  exact hsub.nodup (nodup_map_id_values h)

theorem matureCoinbase_history (maxHeight : UInt64) {store : CoinStore}
    (h : LoggedStore.Sound ⟨store, committed⟩) :
    History ⟨store, committed⟩ ⟨(store.matureCoinbase maxHeight).2, committed⟩ := by
  refine foldl_mature_history (nodup_matureCoinbase maxHeight h) fun id hmem => ?_
  obtain ⟨coin, hcoin, rfl⟩ := List.mem_map.mp hmem
  obtain ⟨hlisted, hresolved⟩ := List.mem_filter.mp hcoin
  obtain ⟨hvalue, hwaits⟩ := List.mem_filter.mp hlisted
  simp only [Bool.and_eq_true, beq_iff_eq, decide_eq_true_eq] at hwaits
  exact ⟨coin, coin?_of_mem_values h hvalue, hwaits.1.1, hresolved⟩

theorem matureAt_history (params : ChainParams) (height : UInt64) {store : CoinStore}
    (h : LoggedStore.Sound ⟨store, committed⟩) :
    History ⟨store, committed⟩ ⟨(matureAt params height store).2, committed⟩ := by
  unfold matureAt
  cases params.matureHeight? height with
  | none => exact .refl
  | some maxHeight => exact matureCoinbase_history maxHeight h

end CoinStore

end RingWallet
