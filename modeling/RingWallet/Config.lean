import RingWallet.Chain.Params
import RingWallet.Json.Printer
import RingWallet.Json.Record

/-!
# Configuration

The settings of a wallet, kept as a JSON record in which every setting may be missing. A
configuration that is read has passed the checks: no chain constant is zero, no range ends before it
starts, and the database has a name.
-/

set_option autoImplicit false

namespace RingWallet

/-- A range of heights with both ends; without an end it is open. -/
structure HeightRange where
  start : UInt64
  stop? : Option UInt64
  deriving DecidableEq

namespace HeightRange

/-- All heights. -/
def all : HeightRange := ⟨0, none⟩

/-- Whether a height is in the range. -/
def contains (range : HeightRange) (height : UInt64) : Bool :=
  decide (range.start ≤ height) && range.stop?.all fun stop => decide (height ≤ stop)

/-- A range must not end before it starts. -/
def check (range : HeightRange) (name : ScanRange) : Except WalletError Unit :=
  match range.stop? with
  | some stop =>
    if stop < range.start then .error (.config (.backwardRange name range.start stop)) else .ok ()
  | none => .ok ()

/-- The record of a range. -/
def toJson (range : HeightRange) : Json :=
  .object [("start", .ofUInt64 range.start), ("end", .ofOption .ofUInt64 range.stop?)]

/-- Reads the record of a range. -/
def decode : JsonDecoder HeightRange := fun tree => do
  let record ← JsonRecord.ofTree? ["start", "end"] tree
  return {
    start := ← record.required "start" JsonDecoder.uint64
    stop? := ← record.optional "end" JsonDecoder.uint64 }

end HeightRange

namespace ChainParams

/-- The record of chain parameters. -/
def toJson (params : ChainParams) : Json :=
  .object [
    (ChainSetting.coinbaseMaturity.name, .ofUInt64 params.coinbaseMaturity),
    (ChainSetting.blocksPerGroup.name, .ofUInt8 params.blocksPerGroup),
    (ChainSetting.ringSize.name, .ofUInt8 params.ringSize)]

/-- Reads the record of chain parameters; a missing one is that of the main chain. -/
def decode : JsonDecoder ChainParams := fun tree => do
  let record ← JsonRecord.ofTree? [ChainSetting.coinbaseMaturity.name,
    ChainSetting.blocksPerGroup.name, ChainSetting.ringSize.name] tree
  return {
    coinbaseMaturity := ← record.withDefault ChainSetting.coinbaseMaturity.name
      standard.coinbaseMaturity JsonDecoder.uint64
    blocksPerGroup := ← record.withDefault ChainSetting.blocksPerGroup.name
      standard.blocksPerGroup JsonDecoder.uint8
    ringSize := ← record.withDefault ChainSetting.ringSize.name
      standard.ringSize JsonDecoder.uint8 }

end ChainParams

namespace Network

/-- The record of a network is its number. -/
def toJson (network : Network) : Json := .ofUInt8 network.code

/-- Reads the number of a network. -/
def decode : JsonDecoder Network := fun tree => JsonDecoder.uint8 tree >>= ofCode?

end Network

/-- The settings of a wallet. -/
structure WalletConfig where
  network : Network
  chain : ChainParams
  /-- The heights that are searched for received coins. -/
  coinScan : HeightRange
  /-- The heights that are searched for spends. -/
  txTrack : HeightRange
  databaseName : String
  deriving DecidableEq

namespace WalletConfig

/-- The settings that hold where nothing else is said. -/
def standard : WalletConfig := ⟨.main, .standard, .all, .all, "abel-wallet.db"⟩

/-- The standard settings for a network. -/
def forNetwork (network : Network) : WalletConfig := { standard with network }

/-- The standard settings under a name: those of a network, or the default ones. -/
def ofPreset? (name : String) : Option WalletConfig :=
  if name = "default" then some standard else (Network.ofName? name).map forNetwork

/-- The checks that every configuration must pass. -/
def check (config : WalletConfig) : Except WalletError Unit := do
  config.chain.check
  config.coinScan.check .coinScan
  config.txTrack.check .txTrack
  if config.databaseName.isEmpty then throw (.config .emptyDatabaseName)

/-- The record of a configuration. -/
def toJson (config : WalletConfig) : Json :=
  .object [
    ("network_id", config.network.toJson),
    ("chain", config.chain.toJson),
    (ScanRange.coinScan.name, config.coinScan.toJson),
    (ScanRange.txTrack.name, config.txTrack.toJson),
    ("db_file_name", .string config.databaseName)]

/-- The text of a configuration. -/
def toText (config : WalletConfig) : String := config.toJson.pretty

/-- Reads the record of a configuration. -/
def decode : JsonDecoder WalletConfig := fun tree => do
  let record ← JsonRecord.ofTree?
    ["network_id", "chain", ScanRange.coinScan.name, ScanRange.txTrack.name, "db_file_name"] tree
  return {
    network := ← record.withDefault "network_id" standard.network Network.decode
    chain := ← record.withDefault "chain" standard.chain ChainParams.decode
    coinScan := ← record.withDefault ScanRange.coinScan.name standard.coinScan HeightRange.decode
    txTrack := ← record.withDefault ScanRange.txTrack.name standard.txTrack HeightRange.decode
    databaseName := ← record.withDefault "db_file_name" standard.databaseName JsonDecoder.text }

/-- The configuration with a given text. -/
def ofText (text : String) : Except WalletError WalletConfig :=
  match JsonDecoder.readText decode text with
  | none => .error (.config .unreadable)
  | some config =>
    match config.check with
    | .ok () => .ok config
    | .error e => .error e

/-- The configuration in a file with given contents; there may be no such file. -/
def ofFile (contents? : Option Bytes) : Except WalletError WalletConfig :=
  match contents?.bind Text.ofUtf8? with
  | none => .error .io
  | some text => ofText text

end WalletConfig

end RingWallet
