import RingWallet.Config
import RingWallet.Names
import RingWallet.Store
import RingWallet.Transaction

/-!
# Records of the wallet's values

The JSON form of coins, statuses, sent transactions and transaction bytes. Byte strings are written
in hexadecimal, except serial numbers, which are arrays of bytes; statuses, schemes and levels are
written by number.
-/

set_option autoImplicit false

namespace RingWallet

namespace Json

/-- A byte string in hexadecimal. -/
def ofHexBytes (data : Bytes) : Json := string (Hex.encode data)

/-- A byte string as an array of numbers. -/
def ofByteArray (data : Bytes) : Json := ofList ofUInt8 data

end Json

/-! ## Values written by number -/

/-- Reads the number of a scheme. -/
def CryptoScheme.decode : JsonDecoder CryptoScheme := fun tree =>
  JsonDecoder.uint32 tree >>= CryptoScheme.ofCode?

/-- The record of a scheme is its number. -/
def CryptoScheme.toJson (scheme : CryptoScheme) : Json := .ofUInt32 scheme.code

/-- Reads the number of a privacy level. -/
def PrivacyLevel.decode : JsonDecoder PrivacyLevel := fun tree =>
  JsonDecoder.uint8 tree >>= PrivacyLevel.ofCode?

/-- The record of a privacy level is its number. -/
def PrivacyLevel.toJson (level : PrivacyLevel) : Json := .ofUInt8 level.code

/-- Reads the number of an account level. -/
def AccountLevel.decode : JsonDecoder AccountLevel := fun tree =>
  JsonDecoder.uint8 tree >>= AccountLevel.ofCode?

/-- The record of an account level is its number. -/
def AccountLevel.toJson (level : AccountLevel) : Json := .ofUInt8 level.code

/-- Reads the number of a coin status. -/
def CoinStatus.decode : JsonDecoder CoinStatus := fun tree =>
  JsonDecoder.uint8 tree >>= CoinStatus.ofCode?

/-- The record of a coin status is its number. -/
def CoinStatus.toJson (status : CoinStatus) : Json := .ofUInt8 status.code

/-- Reads the number of the status of a sent transaction. -/
def PendingStatus.decode : JsonDecoder PendingStatus := fun tree =>
  JsonDecoder.uint8 tree >>= PendingStatus.ofCode?

/-- The record of the status of a sent transaction is its number. -/
def PendingStatus.toJson (status : PendingStatus) : Json := .ofUInt8 status.code

/-- Reads an account number. -/
def AccountId.decode : JsonDecoder AccountId := fun tree =>
  (JsonDecoder.uint64 tree).map AccountId.mk

/-- The record of an account is its number. -/
def AccountId.toJson (account : AccountId) : Json := .ofUInt64 account.number

/-! ## Identifiers -/

namespace HashId

variable {kind : IdKind}

/-- The record of an identifier is its hexadecimal text. -/
def toJson (id : HashId kind) : Json := .string id.toHex

/-- Reads the hexadecimal text of an identifier. -/
def decode (kind : IdKind) : JsonDecoder (HashId kind) := JsonDecoder.textWith (ofHex kind)

end HashId

namespace CoinId

/-- The record of a coin's name. -/
def toJson (coin : CoinId) : Json :=
  .object [("txid", coin.txid.toJson), ("index", .ofUInt8 coin.index)]

/-- Reads the record of a coin's name. -/
def decode : JsonDecoder CoinId := fun tree => do
  let record ← JsonRecord.ofTree? ["txid", "index"] tree
  return {
    txid := ← record.required "txid" (HashId.decode .transaction)
    index := ← record.required "index" JsonDecoder.uint8 }

end CoinId

/-! ## Coins and transactions -/

namespace Coin

/-- The field names of a coin's record. -/
def fieldNames : List String :=
  ["coin_id", "account_id", "block_hash", "block_height", "tx_version", "txo", "value",
    "is_coinbase", "status", "ring_id", "ring_index", "serial_number"]

/-- The record of a coin. -/
def toJson (coin : Coin) : Json :=
  .object [
    ("coin_id", coin.id.toJson),
    ("account_id", coin.account.toJson),
    ("block_hash", coin.blockHash.toJson),
    ("block_height", .ofUInt64 coin.height),
    ("tx_version", .ofUInt32 coin.txVersion),
    ("txo", .ofHexBytes coin.output),
    ("value", .ofUInt64 coin.value),
    ("is_coinbase", .bool coin.isCoinbase),
    ("status", coin.status.toJson),
    ("ring_id", .ofOption HashId.toJson coin.ringId?),
    ("ring_index", .ofOption .ofUInt8 coin.ringIndex?),
    ("serial_number", .ofOption .ofByteArray coin.serialNumber?)]

/-- Reads the record of a coin. -/
def decode : JsonDecoder Coin := fun tree => do
  let record ← JsonRecord.ofTree? fieldNames tree
  return {
    id := ← record.required "coin_id" CoinId.decode
    account := ← record.required "account_id" AccountId.decode
    blockHash := ← record.required "block_hash" (HashId.decode .block)
    height := ← record.required "block_height" JsonDecoder.uint64
    txVersion := ← record.required "tx_version" JsonDecoder.uint32
    output := ← record.required "txo" JsonDecoder.hexBytes
    value := ← record.required "value" JsonDecoder.uint64
    isCoinbase := ← record.required "is_coinbase" JsonDecoder.bool
    status := ← record.required "status" CoinStatus.decode
    ringId? := ← record.optional "ring_id" (HashId.decode .ring)
    ringIndex? := ← record.optional "ring_index" JsonDecoder.uint8
    serialNumber? := ← record.optional "serial_number" (JsonDecoder.list JsonDecoder.uint8) }

end Coin

namespace PendingTx

/-- The record of a sent transaction. -/
def toJson (tx : PendingTx) : Json :=
  .object [
    ("txid", tx.txid.toJson),
    ("raw_tx", .ofHexBytes tx.raw),
    ("spent_coins", .ofList CoinId.toJson tx.coins),
    ("status", tx.status.toJson),
    ("confirmed_height", .ofOption .ofUInt64 tx.height?)]

/-- Reads the record of a sent transaction. -/
def decode : JsonDecoder PendingTx := fun tree => do
  let record ← JsonRecord.ofTree?
    ["txid", "raw_tx", "spent_coins", "status", "confirmed_height"] tree
  return {
    txid := ← record.required "txid" (HashId.decode .transaction)
    raw := ← record.required "raw_tx" JsonDecoder.hexBytes
    coins := ← record.required "spent_coins" (JsonDecoder.list CoinId.decode)
    status := ← record.required "status" PendingStatus.decode
    height? := ← record.optional "confirmed_height" JsonDecoder.uint64 }

end PendingTx

namespace UnsignedTx

/-- The record of an unsigned transaction. -/
def toJson (tx : UnsignedTx) : Json := .object [("data", .ofHexBytes tx.data)]

/-- Reads the record of an unsigned transaction. -/
def decode : JsonDecoder UnsignedTx := fun tree => do
  let record ← JsonRecord.ofTree? ["data"] tree
  return { data := ← record.required "data" JsonDecoder.hexBytes }

end UnsignedTx

namespace SignedTx

/-- The record of a signed transaction. -/
def toJson (tx : SignedTx) : Json :=
  .object [("data", .ofHexBytes tx.data), ("txid", tx.txid.toJson)]

/-- Reads the record of a signed transaction. -/
def decode : JsonDecoder SignedTx := fun tree => do
  let record ← JsonRecord.ofTree? ["data", "txid"] tree
  return {
    data := ← record.required "data" JsonDecoder.hexBytes
    txid := ← record.required "txid" (HashId.decode .transaction) }

end SignedTx

/-! ## All records -/

instance : Recorded CryptoScheme := ⟨CryptoScheme.toJson, CryptoScheme.decode⟩
instance : Recorded PrivacyLevel := ⟨PrivacyLevel.toJson, PrivacyLevel.decode⟩
instance : Recorded AccountLevel := ⟨AccountLevel.toJson, AccountLevel.decode⟩
instance : Recorded Network := ⟨Network.toJson, Network.decode⟩
instance : Recorded CoinStatus := ⟨CoinStatus.toJson, CoinStatus.decode⟩
instance : Recorded PendingStatus := ⟨PendingStatus.toJson, PendingStatus.decode⟩
instance : Recorded AccountId := ⟨AccountId.toJson, AccountId.decode⟩
instance {kind : IdKind} : Recorded (HashId kind) := ⟨HashId.toJson, HashId.decode kind⟩
instance : Recorded CoinId := ⟨CoinId.toJson, CoinId.decode⟩
instance : Recorded Coin := ⟨Coin.toJson, Coin.decode⟩
instance : Recorded PendingTx := ⟨PendingTx.toJson, PendingTx.decode⟩
instance : Recorded UnsignedTx := ⟨UnsignedTx.toJson, UnsignedTx.decode⟩
instance : Recorded SignedTx := ⟨SignedTx.toJson, SignedTx.decode⟩
instance : Recorded ChainParams := ⟨ChainParams.toJson, ChainParams.decode⟩
instance : Recorded HeightRange := ⟨HeightRange.toJson, HeightRange.decode⟩
instance : Recorded WalletConfig := ⟨WalletConfig.toJson, WalletConfig.decode⟩

end RingWallet
