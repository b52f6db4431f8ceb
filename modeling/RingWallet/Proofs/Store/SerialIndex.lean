import RingWallet.Proofs.Store.Commit

/-!
# The serial index

A coin enters the serial index when it comes with a serial number, and whenever a batch resolves it;
nothing ever leaves the index. So the index is the log of everything that was learned, while a coin
carries what was learned for it last (`CoinStore.IndexedBy`). A look-up therefore finds every coin
that carries the number, and it finds these coins once and no others exactly as long as no coin has
learned twice (`CoinStore.serial_lookup_exact_iff`).

Nothing in the store keeps a coin from learning twice: a batch may resolve a coin that is immature
still, whether or not it was resolved before (`CoinStore.not_every_serial_lookup_exact`).
-/

set_option autoImplicit false

namespace RingWallet

/-- A serial number and a coin that it was learned for. -/
structure SerialEntry where
  serialNumber : Bytes
  coin : CoinId
  deriving DecidableEq

/-- One use of a coin store. -/
inductive StoreOperation where
  | insertCoin (coin : Coin)
  | setStatus (id : CoinId) (status : CoinStatus)
  | commit (batch : ResolutionBatch)
  | insertPending (tx : PendingTx)
  | setPendingStatus (txid : TxId) (status : PendingStatus) (height? : Option UInt64)

/-- What a resolution tells of its coin's serial number. -/
def RingResolution.entry (resolution : RingResolution) : SerialEntry :=
  ⟨resolution.serialNumber, resolution.coin⟩

/-- The entry of a coin that comes with a serial number. -/
def Coin.entries (coin : Coin) : List SerialEntry :=
  match coin.serialNumber? with
  | some serialNumber => [⟨serialNumber, coin.id⟩]
  | none => []

namespace StoreOperation

/-- The store behind an operation; one that is refused changes nothing. -/
def perform (store : CoinStore) : StoreOperation → CoinStore
  | insertCoin coin => (store.insertCoin coin).2
  | setStatus id status => (store.setStatus id status).toOption.getD store
  | commit batch => (store.commit batch).toOption.getD store
  | insertPending tx => store.insertPending tx
  | setPendingStatus txid status height? =>
    (store.setPendingStatus txid status height?).toOption.getD store

/-- What an operation learns. -/
def learned (store : CoinStore) : StoreOperation → List SerialEntry
  | insertCoin coin => if (store.insertCoin coin).1 then coin.entries else []
  | commit batch =>
    if (store.commit batch).isOk then batch.resolutions.map RingResolution.entry else []
  | _ => []

end StoreOperation

namespace CoinStore

/-- The store behind operations, one after the other. -/
def performAll (store : CoinStore) (ops : List StoreOperation) : CoinStore :=
  ops.foldl StoreOperation.perform store

/-- What operations learn, one after the other. -/
def learned (store : CoinStore) : List StoreOperation → List SerialEntry
  | [] => []
  | op :: rest => op.learned store ++ (op.perform store).learned rest

/-! ## The log of the index -/

/-- The serial number that was learned for a coin last. -/
def lastLearned? (log : List SerialEntry) (id : CoinId) : Option Bytes :=
  (log.filter (·.coin = id)).getLast?.map (·.serialNumber)

theorem lastLearned?_append (log : List SerialEntry) (entry : SerialEntry) (id : CoinId) :
    lastLearned? (log ++ [entry]) id =
      if entry.coin = id then some entry.serialNumber else lastLearned? log id := by
  by_cases h : entry.coin = id <;> simp [lastLearned?, List.filter_append, h]

theorem exists_mem_of_lastLearned? {log : List SerialEntry} {id : CoinId} {serialNumber : Bytes}
    (h : lastLearned? log id = some serialNumber) : ⟨serialNumber, id⟩ ∈ log := by
  obtain ⟨entry, hlast, rfl⟩ := Option.map_eq_some_iff.mp h
  obtain ⟨hmem, hcoin⟩ := List.mem_filter.mp (List.mem_of_getLast? hlast)
  obtain rfl := of_decide_eq_true hcoin
  exact hmem

/-- What was learned once was learned last. -/
theorem lastLearned?_of_nodup {log : List SerialEntry} (hnodup : (log.map (·.coin)).Nodup)
    {entry : SerialEntry} (hmem : entry ∈ log) :
    lastLearned? log entry.coin = some entry.serialNumber := by
  rw [lastLearned?, filter_key_eq_singleton SerialEntry.coin hnodup hmem]
  rfl

/-- A look-up gives the stored coins that carry the serial number, each of them once. -/
def FindsExactly (store : CoinStore) (serialNumber : Bytes) : Prop :=
  (store.bySerial serialNumber).Nodup ∧ ∀ coin, coin ∈ store.bySerial serialNumber ↔
    coin ∈ store.coins.values ∧ coin.serialNumber? = some serialNumber

theorem FindsExactly.carried {store : CoinStore} {serialNumber : Bytes}
    (h : store.FindsExactly serialNumber) :
    ∀ coin ∈ store.bySerial serialNumber, coin.serialNumber? = some serialNumber :=
  fun coin hfound => ((h.2 coin).mp hfound).2

/-- The serial index of a store is the log, and every coin carries what the log has last of it. -/
structure IndexedBy (store : CoinStore) (log : List SerialEntry) : Prop where
  /-- Coins are stored under their own names. -/
  id_eq : ∀ {id coin}, store.coin? id = some coin → coin.id = id
  holders_eq : ∀ serialNumber, store.holders serialNumber =
    (log.filter (·.serialNumber = serialNumber)).map (·.coin)
  stored : ∀ entry ∈ log, ∃ coin, store.coin? entry.coin = some coin
  serial_eq : ∀ {id coin}, store.coin? id = some coin → coin.serialNumber? = lastLearned? log id

namespace IndexedBy

variable {store later : CoinStore} {log : List SerialEntry}

theorem empty : CoinStore.empty.IndexedBy [] where
  id_eq h := by cases h
  holders_eq _ := rfl
  stored _ h := by cases h
  serial_eq h := by cases h

/-- A change that leaves the index alone, and of each coin the name and the serial number. -/
theorem of_same_serials (h : store.IndexedBy log)
    (hholders : ∀ serialNumber, later.holders serialNumber = store.holders serialNumber)
    (hcoins : ∀ id, (later.coin? id).map (fun coin => (coin.id, coin.serialNumber?)) =
      (store.coin? id).map fun coin => (coin.id, coin.serialNumber?)) :
    later.IndexedBy log := by
  have hback : ∀ {id coin}, later.coin? id = some coin → ∃ old, store.coin? id = some old ∧
      old.id = coin.id ∧ old.serialNumber? = coin.serialNumber? := by
    intro id coin hcoin
    have hsame := hcoins id
    rw [hcoin, Option.map_some] at hsame
    obtain ⟨old, hold, heq⟩ := Option.map_eq_some_iff.mp hsame.symm
    exact ⟨old, hold, congrArg Prod.fst heq, congrArg Prod.snd heq⟩
  constructor
  case id_eq =>
    intro id coin hcoin
    obtain ⟨old, hold, hid, -⟩ := hback hcoin
    exact hid ▸ h.id_eq hold
  case holders_eq => exact fun serialNumber => (hholders serialNumber).trans (h.holders_eq _)
  case stored =>
    intro entry hmem
    obtain ⟨old, hold⟩ := h.stored entry hmem
    have hsame := hcoins entry.coin
    rw [hold, Option.map_some] at hsame
    obtain ⟨coin, hcoin, -⟩ := Option.map_eq_some_iff.mp hsame
    exact ⟨coin, hcoin⟩
  case serial_eq =>
    intro id coin hcoin
    obtain ⟨old, hold, -, hserial⟩ := hback hcoin
    exact hserial ▸ h.serial_eq hold

theorem withStatus (h : store.IndexedBy log) (id : CoinId) (status : CoinStatus) :
    (store.withStatus id status).IndexedBy log := by
  refine h.of_same_serials (fun _ => rfl) fun other => ?_
  rw [coin?_withStatus]
  split
  · rw [Option.map_map]
    rfl
  · rfl

theorem foldl_addRing (h : store.IndexedBy log) (entries : List (RingId × CoinRing)) :
    (entries.foldl addRing store).IndexedBy log := by
  induction entries generalizing store with
  | nil => exact h
  | cons entry rest ih => exact ih (h.of_same_serials (fun _ => rfl) fun _ => rfl)

/-- Nothing was learned for a coin that is not stored. -/
theorem lastLearned?_of_new (h : store.IndexedBy log) {id : CoinId} (hnew : store.coin? id = none) :
    lastLearned? log id = none := by
  cases hlast : lastLearned? log id with
  | none => rfl
  | some serialNumber =>
    obtain ⟨coin, hcoin⟩ := h.stored _ (exists_mem_of_lastLearned? hlast)
    rw [hnew] at hcoin
    cases hcoin

/-- A change of one coin by which it may learn, and then carries what it has learned last. -/
theorem learn (h : store.IndexedBy log) (learner : Coin) {added : List SerialEntry}
    (hadded : ∀ entry ∈ added, entry.coin = learner.id)
    (hholders : ∀ serialNumber, later.holders serialNumber = store.holders serialNumber ++
      (added.filter (·.serialNumber = serialNumber)).map (·.coin))
    (hlearner : later.coin? learner.id = some learner)
    (hserial : learner.serialNumber? = lastLearned? (log ++ added) learner.id)
    (hothers : ∀ id, learner.id ≠ id → later.coin? id = store.coin? id) :
    later.IndexedBy (log ++ added) := by
  -- Every coin of the store behind is the one that learns, or stood there before.
  have hcases : ∀ {id coin}, later.coin? id = some coin →
      (learner.id = id ∧ coin = learner) ∨ (learner.id ≠ id ∧ store.coin? id = some coin) := by
    intro id coin hfound
    by_cases heq : learner.id = id
    · subst heq
      rw [hlearner] at hfound
      exact .inl ⟨rfl, (Option.some.inj hfound).symm⟩
    · exact .inr ⟨heq, hothers id heq ▸ hfound⟩
  constructor
  case id_eq =>
    intro id coin hfound
    rcases hcases hfound with ⟨hid, rfl⟩ | ⟨-, hold⟩
    · exact hid
    · exact h.id_eq hold
  case holders_eq =>
    intro serialNumber
    rw [hholders, h.holders_eq, List.filter_append, List.map_append]
  case stored =>
    intro entry hmem
    by_cases heq : learner.id = entry.coin
    · exact ⟨learner, heq ▸ hlearner⟩
    · have hold : entry ∈ log :=
        (List.mem_append.mp hmem).resolve_right fun hnew => heq (hadded entry hnew).symm
      obtain ⟨coin, hcoin⟩ := h.stored entry hold
      exact ⟨coin, (hothers entry.coin heq).trans hcoin⟩
  case serial_eq =>
    intro id coin hfound
    rcases hcases hfound with ⟨rfl, rfl⟩ | ⟨hne, hold⟩
    · exact hserial
    · -- Nothing is added for another coin.
      have hnone : added.filter (·.coin = id) = [] := by
        rw [List.filter_eq_nil_iff]
        intro entry hmem hcoin
        exact hne ((hadded entry hmem).symm.trans (of_decide_eq_true hcoin))
      rw [h.serial_eq hold, lastLearned?, lastLearned?, List.filter_append, hnone, List.append_nil]

/-- A coin that is new may come with a serial number, and then learns that. -/
theorem insertCoin (h : store.IndexedBy log) {coin : Coin} (hnew : store.coin? coin.id = none) :
    (store.insertCoin coin).2.IndexedBy (log ++ coin.entries) := by
  have hlast := h.lastLearned?_of_new hnew
  cases hserial : coin.serialNumber? with
  | none =>
    have hentries : coin.entries = [] := by simp [Coin.entries, hserial]
    refine h.learn coin ?_ (fun other => ?_) ?_ ?_ fun id hne => ?_
    · simp [hentries]
    · simp [store.holders_insertCoin_of_new hnew, hentries, hserial]
    · simp [coin?_insertCoin, hnew]
    · rw [hentries, List.append_nil, hlast, hserial]
    · rw [coin?_insertCoin, if_neg hne]
  | some serialNumber =>
    have hentries : coin.entries = [⟨serialNumber, coin.id⟩] := by simp [Coin.entries, hserial]
    refine h.learn coin ?_ (fun other => ?_) ?_ ?_ fun id hne => ?_
    · simp [hentries]
    · by_cases heq : serialNumber = other <;>
        simp [store.holders_insertCoin_of_new hnew, hentries, hserial, heq]
    · simp [coin?_insertCoin, hnew]
    · rw [hentries, lastLearned?_append, if_pos rfl, hserial]
    · rw [coin?_insertCoin, if_neg hne]

/-- A coin that is resolved learns. -/
theorem resolve (h : store.IndexedBy log) {resolution : RingResolution}
    (hstored : ∃ coin, store.coin? resolution.coin = some coin) :
    (store.resolve resolution).IndexedBy (log ++ [resolution.entry]) := by
  obtain ⟨coin, hcoin⟩ := hstored
  have hid : coin.id = resolution.coin := h.id_eq hcoin
  refine h.learn (coin.linked resolution) ?_ (fun serialNumber => ?_) ?_ ?_ fun id hne => ?_
  · simp [RingResolution.entry, Coin.linked, hid]
  · by_cases heq : resolution.serialNumber = serialNumber <;>
      simp [holders_resolve, RingResolution.entry, heq]
  · simp [coin?_resolve, Coin.linked, hid, hcoin]
  · rw [lastLearned?_append]
    exact (if_pos hid.symm).symm
  · rw [coin?_resolve, if_neg fun heq => hne (hid.trans heq)]

/-- Coins that are resolved learn one after the other. -/
theorem foldl_resolve (h : store.IndexedBy log) {resolutions : List RingResolution}
    (hstored : ∀ resolution ∈ resolutions, ∃ coin, store.coin? resolution.coin = some coin) :
    (resolutions.foldl CoinStore.resolve store).IndexedBy
      (log ++ resolutions.map RingResolution.entry) := by
  induction resolutions generalizing store log with
  | nil => rwa [List.map_nil, List.append_nil]
  | cons first rest ih =>
    rw [List.foldl_cons, List.map_cons, List.append_cons]
    refine ih (h.resolve (hstored first List.mem_cons_self)) fun other hmem => ?_
    -- A coin that is stored stays stored.
    obtain ⟨coin, hcoin⟩ := hstored other (List.mem_cons_of_mem _ hmem)
    rw [coin?_resolve, hcoin]
    split
    · exact ⟨_, rfl⟩
    · exact ⟨coin, rfl⟩

/-- One operation adds to the log what it learns. -/
theorem perform (h : store.IndexedBy log) (op : StoreOperation) :
    (op.perform store).IndexedBy (log ++ op.learned store) := by
  cases op with
  | insertCoin coin =>
    show (store.insertCoin coin).2.IndexedBy
      (log ++ if (store.insertCoin coin).1 then coin.entries else [])
    rw [insertCoin_isNew]
    cases hcoin : store.coin? coin.id with
    | none => exact h.insertCoin hcoin
    | some found =>
      rw [insertCoin_of_known hcoin]
      simpa using h
  | setStatus id status =>
    show ((store.setStatus id status).toOption.getD store).IndexedBy (log ++ [])
    rw [List.append_nil, setStatus]
    split
    · exact h.withStatus id status
    · exact h
  | commit batch =>
    show ((store.commit batch).toOption.getD store).IndexedBy
      (log ++ if (store.commit batch).isOk then batch.resolutions.map RingResolution.entry else [])
    cases hcommit : store.commit batch with
    | error e => simpa [Except.toOption, Except.isOk, Except.toBool] using h
    | ok later =>
      obtain ⟨hfits, rfl⟩ := (commit_eq_ok_iff store later batch).mp hcommit
      refine (h.foldl_addRing _).foldl_resolve fun resolution hmem => ?_
      obtain ⟨hcoin, -, -, -, -⟩ := hfits resolution hmem
      exact ⟨_, (coin?_foldl_addRing _ store resolution.coin).trans hcoin⟩
  | insertPending tx =>
    show (store.insertPending tx).IndexedBy (log ++ [])
    rw [List.append_nil]
    exact h.of_same_serials (fun _ => rfl) fun _ => rfl
  | setPendingStatus txid status height? =>
    show ((store.setPendingStatus txid status height?).toOption.getD store).IndexedBy (log ++ [])
    rw [List.append_nil, setPendingStatus]
    split
    · exact h.of_same_serials (fun _ => rfl) fun _ => rfl
    · exact h

theorem performAll (h : store.IndexedBy log) (ops : List StoreOperation) :
    (store.performAll ops).IndexedBy (log ++ store.learned ops) := by
  induction ops generalizing store log with
  | nil => rwa [learned, List.append_nil]
  | cons op rest ih =>
    rw [learned, ← List.append_assoc]
    exact ih (h.perform op)

/-- The coins that a look-up gives are those that the number was learned for, in the order of
learning. -/
theorem map_id_bySerial (h : store.IndexedBy log) (serialNumber : Bytes) :
    (store.bySerial serialNumber).map Coin.id =
      (log.filter (·.serialNumber = serialNumber)).map (·.coin) := by
  rw [bySerial_eq, ← h.holders_eq]
  apply map_id_filterMap_coin? fun _ _ => h.id_eq
  intro id hid
  rw [h.holders_eq] at hid
  obtain ⟨entry, hmem, rfl⟩ := List.mem_map.mp hid
  exact h.stored entry (List.mem_of_mem_filter hmem)

theorem mem_values_iff (h : store.IndexedBy log) (coin : Coin) :
    coin ∈ store.coins.values ↔ store.coin? coin.id = some coin := by
  rw [OrderedMap.mem_values_iff]
  constructor
  · rintro ⟨id, hcoin⟩
    have hid : coin.id = id := h.id_eq hcoin
    exact hid ▸ hcoin
  · exact fun hcoin => ⟨coin.id, hcoin⟩

theorem mem_bySerial_iff (h : store.IndexedBy log) (serialNumber : Bytes) (coin : Coin) :
    coin ∈ store.bySerial serialNumber ↔
      coin ∈ store.coins.values ∧ ⟨serialNumber, coin.id⟩ ∈ log := by
  rw [h.mem_values_iff, bySerial_eq, List.mem_filterMap]
  constructor
  · rintro ⟨id, hid, hcoin⟩
    obtain rfl : coin.id = id := h.id_eq hcoin
    rw [h.holders_eq] at hid
    obtain ⟨entry, hmem, hentry⟩ := List.mem_map.mp hid
    obtain ⟨hlog, hserial⟩ := List.mem_filter.mp hmem
    have hentry : entry = ⟨serialNumber, coin.id⟩ := by
      cases entry
      simp_all
    exact ⟨hcoin, hentry ▸ hlog⟩
  · rintro ⟨hcoin, hlog⟩
    refine ⟨coin.id, ?_, hcoin⟩
    rw [h.holders_eq]
    exact List.mem_map.mpr ⟨_, List.mem_filter.mpr ⟨hlog, by simp⟩, rfl⟩

/-- A coin that carries a serial number was the last to learn it, so the look-up finds it. -/
theorem mem_bySerial_of_carries (h : store.IndexedBy log) {coin : Coin}
    (hstored : coin ∈ store.coins.values) {serialNumber : Bytes}
    (hcarries : coin.serialNumber? = some serialNumber) : coin ∈ store.bySerial serialNumber := by
  rw [h.serial_eq ((h.mem_values_iff coin).mp hstored)] at hcarries
  exact (h.mem_bySerial_iff serialNumber coin).mpr ⟨hstored, exists_mem_of_lastLearned? hcarries⟩

/-- If no coin has learned twice, then every look-up is exact. -/
theorem findsExactly_of_nodup (h : store.IndexedBy log) (hnodup : (log.map (·.coin)).Nodup)
    (serialNumber : Bytes) : store.FindsExactly serialNumber := by
  refine ⟨?once, fun coin => ⟨?carries, fun hfound => ?_⟩⟩
  case once =>
    have hids : ((store.bySerial serialNumber).map Coin.id).Nodup := by
      rw [h.map_id_bySerial]
      exact hnodup.sublist (List.filter_sublist.map _)
    exact hids.of_map
  case carries =>
    rw [h.mem_bySerial_iff]
    rintro ⟨hstored, hlog⟩
    refine ⟨hstored, ?_⟩
    rw [h.serial_eq ((h.mem_values_iff coin).mp hstored)]
    exact lastLearned?_of_nodup hnodup hlog
  · exact h.mem_bySerial_of_carries hfound.1 hfound.2

/-- If every look-up is exact, then what is in the log was learned last. -/
theorem lastLearned?_of_findsExactly (h : store.IndexedBy log)
    (hexact : ∀ serialNumber, store.FindsExactly serialNumber) {entry : SerialEntry}
    (hmem : entry ∈ log) : lastLearned? log entry.coin = some entry.serialNumber := by
  obtain ⟨coin, hcoin⟩ := h.stored entry hmem
  have hid : coin.id = entry.coin := h.id_eq hcoin
  have hstored : coin ∈ store.coins.values := (h.mem_values_iff coin).mpr (hid ▸ hcoin)
  have hfound : coin ∈ store.bySerial entry.serialNumber :=
    (h.mem_bySerial_iff entry.serialNumber coin).mpr ⟨hstored, hid ▸ hmem⟩
  rw [← h.serial_eq hcoin]
  exact (hexact entry.serialNumber).carried coin hfound

/-- If every look-up is exact, then no coin has learned twice: not two numbers, since it would be
found by the first of them as well, and not one number twice, since it would be found twice. -/
theorem nodup_of_findsExactly (h : store.IndexedBy log)
    (hexact : ∀ serialNumber, store.FindsExactly serialNumber) : (log.map (·.coin)).Nodup := by
  -- A number that a coin has learned twice gives two places of the log to one look-up.
  have honce : log.Nodup := by
    rw [List.nodup_iff_sublist]
    intro entry htwice
    have hfound : ((store.bySerial entry.serialNumber).map Coin.id).Nodup := by
      refine (hexact entry.serialNumber).1.map_on fun first hfirst second hsecond hid => ?_
      have hone := (h.mem_values_iff first).mp (((hexact _).2 first).mp hfirst).1
      have htwo := (h.mem_values_iff second).mp (((hexact _).2 second).mp hsecond).1
      rw [hid, htwo] at hone
      exact (Option.some.inj hone).symm
    rw [h.map_id_bySerial] at hfound
    have hsub := (htwice.filter (·.serialNumber = entry.serialNumber)).map (·.coin)
    simp only [decide_true, List.filter_cons_of_pos, List.filter_nil] at hsub
    exact List.nodup_iff_sublist.mp hfound entry.coin hsub
  -- Of two numbers that a coin has learned, both would be the last.
  refine honce.map_on fun first hfirst second hsecond hcoin => ?_
  have hone := h.lastLearned?_of_findsExactly hexact hfirst
  have htwo := h.lastLearned?_of_findsExactly hexact hsecond
  rw [hcoin, htwo] at hone
  cases first
  cases second
  simp_all

end IndexedBy

/-! ## Look-ups behind any operations -/

/-- Behind any operations on a store that was empty, accepted or refused, a look-up gives the coins
that its number was learned for, once for every time. So it finds every coin that carries the
number, and all look-ups are exact if and only if no coin has learned twice. -/
theorem serial_lookup_exact_iff (ops : List StoreOperation) :
    let store := empty.performAll ops
    let log := empty.learned ops
    (∀ serialNumber, (store.bySerial serialNumber).map Coin.id =
      (log.filter (·.serialNumber = serialNumber)).map (·.coin)) ∧
    (∀ coin ∈ store.coins.values, ∀ serialNumber, coin.serialNumber? = some serialNumber →
      coin ∈ store.bySerial serialNumber) ∧
    ((∀ serialNumber, store.FindsExactly serialNumber) ↔ (log.map (·.coin)).Nodup) := by
  intro store log
  have h : store.IndexedBy log := IndexedBy.empty.performAll ops
  refine ⟨h.map_id_bySerial, fun coin hstored serialNumber => h.mem_bySerial_of_carries hstored, ?_⟩
  exact ⟨h.nodup_of_findsExactly, h.findsExactly_of_nodup⟩

/-! ## A coin that learns twice -/

/-- An immature coinbase coin. -/
def coinbaseCoin : Coin where
  id := ⟨.zero .transaction, 0⟩
  account := ⟨0⟩
  blockHash := .zero .block
  height := 0
  txVersion := 1
  output := []
  value := 1
  isCoinbase := true
  status := .immature
  ringId? := none
  ringIndex? := none
  serialNumber? := none

/-- The ring of that coin alone. -/
def coinbaseRing : CoinRing where
  version := CoinRing.currentVersion
  firstHeight := 0
  blockHashes := [coinbaseCoin.blockHash]
  members := [(coinbaseCoin.id, [])]
  isCoinbase := true
  members_pos := by decide
  members_le := by decide
  blocks_le := by decide
  outputs_lt := by decide

/-- The batch by which the coin learns serial numbers but does not become spendable. -/
def coinbaseBatch (serialNumbers : List Bytes) : ResolutionBatch where
  rings := [coinbaseRing]
  resolutions := serialNumbers.map fun serialNumber =>
    ⟨coinbaseCoin.id, coinbaseRing.ringId, 0, serialNumber, false⟩

/-- The store of the coin behind batches, one after the other. -/
def coinbaseStore (batches : List (List Bytes)) : CoinStore :=
  empty.performAll (.insertCoin coinbaseCoin :: batches.map fun serialNumbers =>
    .commit (coinbaseBatch serialNumbers))

/-- A coin that has learned a second number is found by the first one still, whether it learned them
by two batches or by one, and a coin that has learned one number twice is found twice. -/
theorem not_every_serial_lookup_exact :
    ¬ (coinbaseStore [[[7]], [[8]]]).FindsExactly [7] ∧
      ¬ (coinbaseStore [[[7], [8]]]).FindsExactly [7] ∧
      ¬ (coinbaseStore [[[7], [7]]]).FindsExactly [7] := by
  refine ⟨fun hexact => ?later, fun hexact => ?together, fun hexact => ?twice⟩
  case later => exact absurd hexact.carried (by decide +kernel)
  case together => exact absurd hexact.carried (by decide +kernel)
  case twice => exact absurd hexact.1 (by decide +kernel)

end CoinStore

end RingWallet
