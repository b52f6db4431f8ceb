import RingWallet.Json.Record
import RingWallet.Names

/-!
# What a node answers

The records of a node's answers as they travel: hashes and scripts are texts and are not looked at
here. Most fields may be missing and then are zero, false or empty.
-/

set_option autoImplicit false

namespace RingWallet.Node

/-- A summary of the chain. -/
structure ChainInfo where
  blockCount : Int64
  isTestNet : Bool
  version : Int64
  protocolVersion : Int64
  /-- The IEEE bits of a floating-point number. -/
  relayFee : UInt64
  networkCode : UInt8
  deriving DecidableEq

/-- A ring member by transaction and index. -/
structure OutPoint where
  txid : String
  index : UInt8
  deriving DecidableEq

/-- The ring that an input spends from. -/
structure RingRef where
  version : Int64
  blockHashes : List String
  outPoints : List OutPoint
  deriving DecidableEq

/-- An input: its ring and its serial number. -/
structure InputMessage where
  ring : RingRef
  serialNumber : String
  deriving DecidableEq

/-- An output with its index. -/
structure OutputMessage where
  index : Int64
  /-- The serialized output in hexadecimal. -/
  script : String
  deriving DecidableEq

/-- A transaction. -/
structure TxMessage where
  hex : String
  txid : String
  hash : String
  time : Int64
  blockHash : String
  blockTime : Int64
  confirmations : Int64
  version : UInt32
  size : Int64
  fullSize : Int64
  memo : String
  /-- The IEEE bits of a floating-point number. -/
  fee : UInt64
  witness : String
  inputs : List InputMessage
  outputs : List OutputMessage
  deriving DecidableEq

/-- A block, with its transactions only if they were asked for. -/
structure BlockMessage where
  height : Int64
  confirmations : Int64
  version : Int64
  versionHex : String
  time : Int64
  nonce : UInt64
  size : Int64
  fullSize : Int64
  /-- The IEEE bits of a floating-point number. -/
  difficulty : UInt64
  hash : String
  previousHash : String
  nextHash : String
  contentHash : String
  merkleRoot : String
  bits : String
  sealHash : String
  mixDigest : String
  txHashes : List String
  txs? : Option (List TxMessage)
  deriving DecidableEq

/-- The error object of an answer. -/
structure RpcError where
  code : Int64
  text : String
  deriving DecidableEq

/-- An error object as shown to users. -/
def RpcError.display (error : RpcError) : String :=
  toString error.code.toInt ++ ": " ++ error.text

/-! ## Reading -/

/-- A text field that is empty if it is missing. -/
def textField (record : JsonRecord) (name : String) : Option String :=
  record.withDefault name "" JsonDecoder.text

/-- A whole number field that is zero if it is missing. -/
def intField (record : JsonRecord) (name : String) : Option Int64 :=
  record.withDefault name 0 JsonDecoder.int64

/-- A floating-point field that is zero if it is missing. -/
def realField (record : JsonRecord) (name : String) : Option UInt64 :=
  record.withDefault name 0 JsonDecoder.real

namespace ChainInfo

/-- The field names of the record. -/
def fieldNames : List String :=
  ["blocks", "testnet", "version", "protocolversion", "relayfee", "netid"]

/-- Reads the record. -/
def decode : JsonDecoder ChainInfo := fun tree => do
  let record ← JsonRecord.ofTree? fieldNames tree
  return {
    blockCount := ← record.required "blocks" JsonDecoder.int64
    isTestNet := ← record.withDefault "testnet" false JsonDecoder.bool
    version := ← intField record "version"
    protocolVersion := ← intField record "protocolversion"
    relayFee := ← realField record "relayfee"
    networkCode := ← record.withDefault "netid" 0 JsonDecoder.uint8 }

end ChainInfo

/-- Reads the record of a ring member. -/
def OutPoint.decode : JsonDecoder OutPoint := fun tree => do
  let record ← JsonRecord.ofTree? ["txid", "index"] tree
  return {
    txid := ← record.required "txid" JsonDecoder.text
    index := ← record.required "index" JsonDecoder.uint8 }

/-- A ring that a record does not name. -/
def RingRef.empty : RingRef := ⟨0, [], []⟩

/-- Reads the record of a ring. -/
def RingRef.decode : JsonDecoder RingRef := fun tree => do
  let record ← JsonRecord.ofTree? ["version", "blockhashs", "outpoints"] tree
  return {
    version := ← intField record "version"
    blockHashes := ← record.withDefault "blockhashs" [] (JsonDecoder.list JsonDecoder.text)
    outPoints := ← record.withDefault "outpoints" [] (JsonDecoder.list OutPoint.decode) }

/-- Reads the record of an input. -/
def InputMessage.decode : JsonDecoder InputMessage := fun tree => do
  let record ← JsonRecord.ofTree? ["prevutxoring", "serialnumber"] tree
  return {
    ring := ← record.withDefault "prevutxoring" .empty RingRef.decode
    serialNumber := ← textField record "serialnumber" }

/-- Reads the record of an output. -/
def OutputMessage.decode : JsonDecoder OutputMessage := fun tree => do
  let record ← JsonRecord.ofTree? ["n", "script"] tree
  return {
    index := ← intField record "n"
    script := ← textField record "script" }

namespace TxMessage

/-- The field names of the record. -/
def fieldNames : List String :=
  ["hex", "txid", "hash", "time", "blockhash", "blocktime", "confirmations", "version", "size",
    "fullsize", "memo", "fee", "witness", "vin", "vout"]

/-- Reads the record. -/
def decode : JsonDecoder TxMessage := fun tree => do
  let record ← JsonRecord.ofTree? fieldNames tree
  return {
    hex := ← textField record "hex"
    txid := ← textField record "txid"
    hash := ← textField record "hash"
    time := ← intField record "time"
    blockHash := ← textField record "blockhash"
    blockTime := ← intField record "blocktime"
    confirmations := ← intField record "confirmations"
    version := ← record.withDefault "version" 0 JsonDecoder.uint32
    size := ← intField record "size"
    fullSize := ← intField record "fullsize"
    memo := ← textField record "memo"
    fee := ← realField record "fee"
    witness := ← textField record "witness"
    inputs := ← record.withDefault "vin" [] (JsonDecoder.list InputMessage.decode)
    outputs := ← record.withDefault "vout" [] (JsonDecoder.list OutputMessage.decode) }

end TxMessage

namespace BlockMessage

/-- The field names of the record. -/
def fieldNames : List String :=
  ["height", "confirmations", "version", "versionHex", "time", "nonce", "size", "fullsize",
    "difficulty", "hash", "previousblockhash", "nextblockhash", "contenthash", "merkleroot",
    "bits", "sealhash", "mixdigest", "tx", "rawTx"]

/-- Reads the record. -/
def decode : JsonDecoder BlockMessage := fun tree => do
  let record ← JsonRecord.ofTree? fieldNames tree
  return {
    height := ← intField record "height"
    confirmations := ← intField record "confirmations"
    version := ← intField record "version"
    versionHex := ← textField record "versionHex"
    time := ← intField record "time"
    nonce := ← record.withDefault "nonce" 0 JsonDecoder.uint64
    size := ← intField record "size"
    fullSize := ← intField record "fullsize"
    difficulty := ← realField record "difficulty"
    hash := ← textField record "hash"
    previousHash := ← textField record "previousblockhash"
    nextHash := ← textField record "nextblockhash"
    contentHash := ← textField record "contenthash"
    merkleRoot := ← textField record "merkleroot"
    bits := ← textField record "bits"
    sealHash := ← textField record "sealhash"
    mixDigest := ← textField record "mixdigest"
    txHashes := ← record.withDefault "tx" [] (JsonDecoder.list JsonDecoder.text)
    txs? := ← record.withDefault "rawTx" none
      (JsonDecoder.nullable (JsonDecoder.list TxMessage.decode)) }

end BlockMessage

/-- Reads an error object. -/
def RpcError.decode : JsonDecoder RpcError := fun tree => do
  let record ← JsonRecord.ofTree? ["code", "message"] tree
  return {
    code := ← intField record "code"
    text := ← textField record "message" }

/-! ## Writing -/

/-- A floating-point number by its bits. -/
def realJson (bits : UInt64) : Json := .number (.real bits)

/-- The record of a summary of the chain. -/
def ChainInfo.toJson (info : ChainInfo) : Json :=
  .object [
    ("blocks", .ofInt64 info.blockCount),
    ("testnet", .bool info.isTestNet),
    ("version", .ofInt64 info.version),
    ("protocolversion", .ofInt64 info.protocolVersion),
    ("relayfee", realJson info.relayFee),
    ("netid", .ofUInt8 info.networkCode)]

/-- The record of a ring member. -/
def OutPoint.toJson (point : OutPoint) : Json :=
  .object [("txid", .string point.txid), ("index", .ofUInt8 point.index)]

/-- The record of a ring. -/
def RingRef.toJson (ring : RingRef) : Json :=
  .object [
    ("version", .ofInt64 ring.version),
    ("blockhashs", .ofList .string ring.blockHashes),
    ("outpoints", .ofList OutPoint.toJson ring.outPoints)]

/-- The record of an input. -/
def InputMessage.toJson (input : InputMessage) : Json :=
  .object [("prevutxoring", input.ring.toJson), ("serialnumber", .string input.serialNumber)]

/-- The record of an output. -/
def OutputMessage.toJson (output : OutputMessage) : Json :=
  .object [("n", .ofInt64 output.index), ("script", .string output.script)]

/-- The record of a transaction. -/
def TxMessage.toJson (tx : TxMessage) : Json :=
  .object [
    ("hex", .string tx.hex),
    ("txid", .string tx.txid),
    ("hash", .string tx.hash),
    ("time", .ofInt64 tx.time),
    ("blockhash", .string tx.blockHash),
    ("blocktime", .ofInt64 tx.blockTime),
    ("confirmations", .ofInt64 tx.confirmations),
    ("version", .ofUInt32 tx.version),
    ("size", .ofInt64 tx.size),
    ("fullsize", .ofInt64 tx.fullSize),
    ("memo", .string tx.memo),
    ("fee", realJson tx.fee),
    ("witness", .string tx.witness),
    ("vin", .ofList InputMessage.toJson tx.inputs),
    ("vout", .ofList OutputMessage.toJson tx.outputs)]

/-- The record of a block; transactions that were not asked for have no field. -/
def BlockMessage.toJson (block : BlockMessage) : Json :=
  .object ([
    ("height", .ofInt64 block.height),
    ("confirmations", .ofInt64 block.confirmations),
    ("version", .ofInt64 block.version),
    ("versionHex", .string block.versionHex),
    ("time", .ofInt64 block.time),
    ("nonce", .ofUInt64 block.nonce),
    ("size", .ofInt64 block.size),
    ("fullsize", .ofInt64 block.fullSize),
    ("difficulty", realJson block.difficulty),
    ("hash", .string block.hash),
    ("previousblockhash", .string block.previousHash),
    ("nextblockhash", .string block.nextHash),
    ("contenthash", .string block.contentHash),
    ("merkleroot", .string block.merkleRoot),
    ("bits", .string block.bits),
    ("sealhash", .string block.sealHash),
    ("mixdigest", .string block.mixDigest),
    ("tx", .ofList .string block.txHashes)]
    ++ (block.txs?.map fun txs => ("rawTx", Json.ofList TxMessage.toJson txs)).toList)

/-- The record of an error object. -/
def RpcError.toJson (error : RpcError) : Json :=
  .object [("code", .ofInt64 error.code), ("message", .string error.text)]

/-! ## All records -/

instance : Recorded ChainInfo := ⟨ChainInfo.toJson, ChainInfo.decode⟩
instance : Recorded OutPoint := ⟨OutPoint.toJson, OutPoint.decode⟩
instance : Recorded RingRef := ⟨RingRef.toJson, RingRef.decode⟩
instance : Recorded InputMessage := ⟨InputMessage.toJson, InputMessage.decode⟩
instance : Recorded OutputMessage := ⟨OutputMessage.toJson, OutputMessage.decode⟩
instance : Recorded TxMessage := ⟨TxMessage.toJson, TxMessage.decode⟩
instance : Recorded BlockMessage := ⟨BlockMessage.toJson, BlockMessage.decode⟩
instance : Recorded RpcError := ⟨RpcError.toJson, RpcError.decode⟩

end RingWallet.Node
