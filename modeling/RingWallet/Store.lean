import RingWallet.Coin
import RingWallet.Coin.RingCodec

/-!
# The coin store

What a wallet keeps: its coins by name, the coins that use a serial number, the rings it has
committed, the ring of every member of those rings, and the transactions it has sent. All tables are
in key order, so every listing is sorted.

`commit` takes everything learned from one window at once: the batch is checked as a whole
(`checkBatch`) and then applied, so a refused batch leaves the store as it was.
-/

set_option autoImplicit false

namespace RingWallet

/-- What was learned about one coin. -/
structure RingResolution where
  coin : CoinId
  ringId : RingId
  ringIndex : UInt8
  serialNumber : Bytes
  /-- Whether the coin becomes spendable at once. -/
  makeSpendable : Bool
  deriving DecidableEq

/-- Everything learned from one window. -/
structure ResolutionBatch where
  rings : List CoinRing
  resolutions : List RingResolution

/-- Whether a batch holds nothing. -/
def ResolutionBatch.isEmpty (batch : ResolutionBatch) : Bool :=
  batch.rings.isEmpty && batch.resolutions.isEmpty

/-- Where a sent transaction stands. -/
inductive PendingStatus
  | pending
  | confirmed
  | failed
  deriving DecidableEq, Repr

namespace PendingStatus

/-- The number that stands for a status in records. -/
def code : PendingStatus → UInt8
  | pending => 0
  | confirmed => 1
  | failed => 2

/-- The status with a given number. -/
def ofCode? (code : UInt8) : Option PendingStatus :=
  if code = 0 then some pending
  else if code = 1 then some confirmed
  else if code = 2 then some failed
  else none

end PendingStatus

/-- A transaction that the wallet has sent. -/
structure PendingTx where
  txid : TxId
  raw : Bytes
  coins : List CoinId
  status : PendingStatus
  height? : Option UInt64
  deriving DecidableEq

/-- The coins, rings and sent transactions of a wallet. -/
structure CoinStore where
  coins : OrderedMap CoinId Coin
  /-- The coins that a serial number was learned for, in the order of learning. -/
  serialIndex : OrderedMap Bytes (List CoinId)
  rings : OrderedMap RingId CoinRing
  /-- The ring of every member of a committed ring, of this wallet or not. -/
  memberRings : OrderedMap CoinId RingId
  pending : OrderedMap TxId PendingTx

namespace CoinStore

/-- The store that holds nothing. -/
def empty : CoinStore := ⟨.empty, .empty, .empty, .empty, .empty⟩

instance : Inhabited CoinStore := ⟨empty⟩

/-! ## Coins -/

/-- The coin with a given name. -/
def coin? (store : CoinStore) (id : CoinId) : Option Coin := store.coins.get? id

/-- Adds a coin to those that use a serial number. -/
def indexSerial (store : CoinStore) (serialNumber : Bytes) (id : CoinId) : CoinStore :=
  let known := (store.serialIndex.get? serialNumber).getD []
  { store with serialIndex := store.serialIndex.insert serialNumber (known ++ [id]) }

/-- Adds a coin that is not there yet, and says whether it was new. -/
def insertCoin (store : CoinStore) (coin : Coin) : Bool × CoinStore :=
  if store.coins.contains coin.id then (false, store)
  else
    let indexed := match coin.serialNumber? with
      | some serialNumber => store.indexSerial serialNumber coin.id
      | none => store
    (true, { indexed with coins := indexed.coins.insert coin.id coin })

/-- The coins that a serial number was learned for. -/
def bySerial (store : CoinStore) (serialNumber : Bytes) : List Coin :=
  ((store.serialIndex.get? serialNumber).getD []).filterMap store.coin?

/-- The coins of an account, of one status or of any. -/
def byAccount (store : CoinStore) (account : AccountId) (status? : Option CoinStatus) :
    List Coin :=
  store.coins.values.filter fun coin =>
    coin.account == account && status?.all (coin.status == ·)

/-- The immature coins without a ring up to a height. -/
def unresolved (store : CoinStore) (maxHeight : UInt64) : List Coin :=
  store.coins.values.filter fun coin =>
    coin.status == .immature && coin.ringId?.isNone && decide (coin.height ≤ maxHeight)

/-- The immature coinbase coins up to a height. -/
def immatureCoinbase (store : CoinStore) (maxHeight : UInt64) : List Coin :=
  store.coins.values.filter fun coin =>
    coin.status == .immature && coin.isCoinbase && decide (coin.height ≤ maxHeight)

/-- Gives a coin a status; no change if the coin is not there. -/
def withStatus (store : CoinStore) (id : CoinId) (status : CoinStatus) : CoinStore :=
  { store with coins := store.coins.adjust id fun coin => { coin with status } }

/-- Gives a coin of the store a status. -/
def setStatus (store : CoinStore) (id : CoinId) (status : CoinStatus) :
    Except StoreError CoinStore :=
  if store.coins.contains id then .ok (store.withStatus id status) else .error (.coinNotFound id)

/-! ## Rings -/

/-- The ring with a given identifier. -/
def ring? (store : CoinStore) (id : RingId) : Option CoinRing := store.rings.get? id

/-- The ring that a coin is a member of. -/
def ringIdOf? (store : CoinStore) (coin : CoinId) : Option RingId := store.memberRings.get? coin

/-- The ring that a resolution refers to: one of the batch, or else a committed one. -/
def batchRing? (store : CoinStore) (batchRings : List (RingId × CoinRing)) (id : RingId) :
    Option CoinRing :=
  ((batchRings.reverse.find? (·.1 == id)).map Prod.snd).or (store.ring? id)

/-- Checks one resolution: its coin is stored and immature, its serial number is not empty, and the
coin stands in its ring where the resolution says. -/
def checkResolution (store : CoinStore) (batchRings : List (RingId × CoinRing))
    (resolution : RingResolution) : Except BatchFault Unit :=
  match store.coin? resolution.coin with
  | none => .error (.unknownCoin resolution.coin)
  | some coin =>
    if coin.status ≠ .immature then .error (.notImmature resolution.coin coin.status)
    else if resolution.serialNumber.isEmpty then .error (.emptySerialNumber resolution.coin)
    else match store.batchRing? batchRings resolution.ringId with
    | none => .error (.missingRing resolution.ringId)
    | some ring =>
      if ring.indexOf? resolution.coin = some resolution.ringIndex then .ok ()
      else .error (.notMember resolution.coin resolution.ringIndex resolution.ringId)

/-- Checks a batch, one resolution after the other. -/
def checkBatch (store : CoinStore) (batchRings : List (RingId × CoinRing)) :
    List RingResolution → Except BatchFault Unit
  | [] => .ok ()
  | resolution :: rest =>
    match store.checkResolution batchRings resolution with
    | .ok () => store.checkBatch batchRings rest
    | .error fault => .error fault

/-- Adds a ring and the membership of all its coins. -/
def addRing (store : CoinStore) (entry : RingId × CoinRing) : CoinStore :=
  { store with
    memberRings := entry.2.coins.foldl (fun table coin => table.insert coin entry.1)
      store.memberRings
    rings := store.rings.insertNew entry.1 entry.2 }

/-- Gives a coin its ring, its place and its serial number. -/
def resolve (store : CoinStore) (resolution : RingResolution) : CoinStore :=
  let linked := { store with
    coins := store.coins.adjust resolution.coin fun coin =>
      { coin with
        ringId? := some resolution.ringId
        ringIndex? := some resolution.ringIndex
        serialNumber? := some resolution.serialNumber
        status := if resolution.makeSpendable then .spendable else coin.status } }
  linked.indexSerial resolution.serialNumber resolution.coin

/-- Takes over a batch, or refuses it as a whole. -/
def commit (store : CoinStore) (batch : ResolutionBatch) : Except StoreError CoinStore :=
  let batchRings := batch.rings.map fun ring => (ring.ringId, ring)
  match store.checkBatch batchRings batch.resolutions with
  | .error fault => .error (.inconsistentBatch fault)
  | .ok () => .ok (batch.resolutions.foldl resolve (batchRings.foldl addRing store))

/-! ## Sent transactions -/

/-- Adds a sent transaction, in place of one with the same identifier. -/
def insertPending (store : CoinStore) (tx : PendingTx) : CoinStore :=
  { store with pending := store.pending.insert tx.txid tx }

/-- The sent transactions that wait for a block. -/
def pendingTxs (store : CoinStore) : List PendingTx :=
  store.pending.values.filter (·.status == .pending)

/-- Gives a sent transaction a status; no change if it is not there. -/
def withPendingStatus (store : CoinStore) (txid : TxId) (status : PendingStatus)
    (height? : Option UInt64) : CoinStore :=
  { store with pending := store.pending.adjust txid fun tx => { tx with status, height? } }

/-- Gives a sent transaction of the store a status. -/
def setPendingStatus (store : CoinStore) (txid : TxId) (status : PendingStatus)
    (height? : Option UInt64) : Except StoreError CoinStore :=
  if store.pending.contains txid then .ok (store.withPendingStatus txid status height?)
  else .error (.transactionNotFound txid)

end CoinStore

end RingWallet
