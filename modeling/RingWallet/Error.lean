import RingWallet.Coin.Id
import RingWallet.Coin.Status
import RingWallet.Network
import RingWallet.Scheme

/-!
# What can go wrong

Every failure of the wallet is a cause with its data; `WalletError.message` words it. Failures that
a scheme provider reports are opaque texts with a chain of texts below them; the wallet adds a few
of its own where a provider's answer cannot be used (`ProviderError`).
-/

set_option autoImplicit false

namespace RingWallet

/-! ## Causes -/

/-- Why bytes are no address of the expected form. -/
inductive AddressFault
  | coinAddressLength (length : Nat)
  | cryptoAddressLength (length : Nat) (scheme : CryptoScheme)
  | levelMismatch (found declared : PrivacyLevel)
  | cryptoAddressLengthOfLevel (level : PrivacyLevel) (length : Nat)
  | tooShort (length : Nat)
  | unknownNetwork (code : UInt8)
  | appAddressLength (length : Nat) (scheme : CryptoScheme)
  | checksumMismatch
  | malformedCryptoAddress
  | missingShortMark
  | shortNetworkByte (byte : UInt8)
  | shortMarkerByte (byte : UInt8)
  | shortLength (length : Nat)
  | shortMetadata (first second : UInt8)
  | shortVersion (version : UInt8)
  | shortReservedBits
  | notFromThisAccount
  deriving DecidableEq

/-- Why values or bytes are no ring. -/
inductive RingFault
  | noMembers
  | outputCount (members outputs : Nat)
  | tooLarge
  | outputTooLarge
  | truncated (position : Nat)
  | coinbaseFlag (byte : UInt8)
  | trailing (count : Nat)
  deriving DecidableEq

/-- The two sides of a transaction. -/
inductive TransferSide
  | input
  | output
  deriving DecidableEq, Repr

/-- Why a value that was handed in cannot be used. -/
inductive ParameterFault
  | publicRandLength (expected got : Nat)
  | unknownNetworkCode (code : UInt8)
  | unknownNetworkName (name : String)
  | idLength (kind : IdKind) (length : Nat)
  | ring (fault : RingFault)
  | noSigners
  | emptyViewKeys
  | tooManyOutputs (txid : TxId)
  | unknownCoin (coin : CoinId)
  | noSerialNumber (coin : CoinId)
  | totalOverflow (side : TransferSide)
  | emptySide (side : TransferSide)
  | unbalanced (available required : UInt64)
  deriving DecidableEq

/-- A failure at the scheme provider. -/
inductive ProviderError
  /-- What a provider itself reports, with the reports below it. -/
  | reported (text : String) (below : List String)
  | serialNumberCount (expected got : Nat)
  | emptySerialNumber (coin : CoinId)
  | noSerialNumber (coin : CoinId)
  /-- A block that is needed for a ring and that its source does not give. -/
  | blockUnavailable (height : UInt64) (below : List String)
  deriving DecidableEq

/-- Why a batch of ring resolutions does not fit a store. -/
inductive BatchFault
  | unknownCoin (coin : CoinId)
  | notImmature (coin : CoinId) (status : CoinStatus)
  | emptySerialNumber (coin : CoinId)
  | missingRing (ring : RingId)
  | notMember (coin : CoinId) (index : UInt8) (ring : RingId)
  deriving DecidableEq

/-- A failure of the coin store. -/
inductive StoreError
  | coinNotFound (coin : CoinId)
  | transactionNotFound (txid : TxId)
  | inconsistentBatch (fault : BatchFault)
  deriving DecidableEq

/-- The settings of the chain that must not be zero. -/
inductive ChainSetting
  | coinbaseMaturity
  | blocksPerGroup
  | ringSize
  deriving DecidableEq, Repr

/-- The height ranges of a configuration. -/
inductive ScanRange
  | coinScan
  | txTrack
  deriving DecidableEq, Repr

/-- Why a configuration is refused. -/
inductive ConfigFault
  /-- The text is no configuration record. -/
  | unreadable
  | zero (setting : ChainSetting)
  | backwardRange (range : ScanRange) (start stop : UInt64)
  | emptyDatabaseName
  deriving DecidableEq

/-- A failure of a wallet operation. -/
inductive WalletError
  | invalidCryptoScheme
  | invalidPrivacyLevel
  /-- A field that the privacy level requires is missing, or one it forbids is present. -/
  | mismatchedSchemePrivacyLevel
  /-- A root seed where a one-time seed is needed, or the other way round. -/
  | mismatchedSeedType
  | corruptedSeed
  | invalidSeedLength (got : Nat) (expected : List Nat)
  | invalidAddress (fault : AddressFault)
  | invalidAccountType
  | invalidParameter (fault : ParameterFault)
  | ringNotFound (coin : CoinId)
  | unknownAccount (account : AccountId)
  | invalidStateTransition (coin : CoinId) (source target : CoinStatus)
  | provider (error : ProviderError)
  | store (error : StoreError)
  | hex (error : HexError)
  | config (fault : ConfigFault)
  | io
  deriving DecidableEq

/-! ## Wording -/

namespace Text

/-- Numbers between square brackets. -/
def natList (ns : List Nat) : String :=
  "[" ++ ", ".intercalate (ns.map toString) ++ "]"

/-- A byte as two hexadecimal digits behind `0x`. -/
def hexByte (b : UInt8) : String := "0x" ++ hexPadded 2 b.toNat

end Text

namespace AddressFault

/-- The wording of an address fault. -/
def message : AddressFault → String
  | coinAddressLength length => "coin address of unknown length " ++ toString length
  | cryptoAddressLength length scheme =>
    "crypto address of length " ++ toString length ++ " is not valid for scheme " ++ scheme.name
  | levelMismatch found declared =>
    "coin address is " ++ found.name ++ " but crypto address declares " ++ declared.name
  | cryptoAddressLengthOfLevel level length =>
    level.scheme.name ++ " " ++ level.name ++ " crypto address must be "
      ++ toString level.cryptoAddressLength ++ " bytes, got " ++ toString length
  | tooShort length => "address too short: " ++ toString length ++ " bytes"
  | unknownNetwork code => "unknown network id " ++ toString code.toNat
  | appAddressLength length scheme =>
    "address of length " ++ toString length ++ " is not valid for scheme " ++ scheme.name
  | checksumMismatch => "checksum mismatch"
  | malformedCryptoAddress => "malformed crypto address"
  | missingShortMark => "missing short address prefix"
  | shortNetworkByte byte => "invalid v1 network byte " ++ Text.hexByte byte
  | shortMarkerByte byte => "invalid v2 marker " ++ Text.hexByte byte
  | shortLength length => "short address of unknown length " ++ toString length
  | shortMetadata first second =>
    "invalid short address metadata [" ++ Text.hexPadded 2 first.toNat ++ ", "
      ++ Text.hexPadded 2 second.toNat ++ "]"
  | shortVersion version => "unsupported short address version " ++ toString version.toNat
  | shortReservedBits => "reserved short address bits are set"
  | notFromThisAccount => "address was not derived from this account"

end AddressFault

namespace RingFault

/-- The wording of a ring fault. -/
def message : RingFault → String
  | noMembers => "ring has no members"
  | outputCount members outputs =>
    "ring has " ++ toString members ++ " members but " ++ toString outputs ++ " outputs"
  | tooLarge => "ring too large"
  | outputTooLarge => "ring member output too large"
  | truncated position => "serialized ring truncated at byte " ++ toString position
  | coinbaseFlag byte => "invalid coinbase flag " ++ toString byte.toNat
  | trailing count => toString count ++ " trailing bytes after serialized ring"

end RingFault

/-- The word for a side of a transaction. -/
def TransferSide.word : TransferSide → String
  | input => "input"
  | output => "output"

namespace ParameterFault

/-- The wording of a parameter fault. -/
def message : ParameterFault → String
  | publicRandLength expected got =>
    "publicRand must be " ++ toString expected ++ " bytes, got " ++ toString got
  | unknownNetworkCode code => "unknown network id " ++ toString code.toNat
  | unknownNetworkName name => "unknown network name " ++ name
  | idLength kind length => kind.name ++ " must be 32 bytes, got " ++ toString length
  | ring fault => fault.message
  | noSigners => "no signer accounts"
  | emptyViewKeys => "empty view key material"
  | tooManyOutputs txid => "transaction " ++ txid.toHex ++ " has too many outputs"
  | unknownCoin coin => "unknown coin " ++ coin.display
  | noSerialNumber coin => "coin " ++ coin.display ++ " has no serial number"
  | totalOverflow side => side.word ++ " total overflows"
  | emptySide side => "transaction has no " ++ side.word ++ "s"
  | unbalanced available required =>
    "inputs " ++ toString available.toNat ++ " do not balance outputs plus fee "
      ++ toString required.toNat

end ParameterFault

namespace ProviderError

/-- The wording of a provider failure. -/
def message : ProviderError → String
  | reported text _ => text
  | serialNumberCount expected got =>
    "expected " ++ toString expected ++ " serial numbers, got " ++ toString got
  | emptySerialNumber coin => "empty serial number for coin " ++ coin.display
  | noSerialNumber coin => "no serial number for coin " ++ coin.display
  | blockUnavailable height _ => "block at height " ++ toString height.toNat ++ " unavailable"

/-- The reports below a provider failure, outermost first. -/
def below : ProviderError → List String
  | reported _ below | blockUnavailable _ below => below
  | serialNumberCount _ _ | emptySerialNumber _ | noSerialNumber _ => []

end ProviderError

namespace BatchFault

/-- The wording of a batch fault. -/
def message : BatchFault → String
  | unknownCoin coin => "unknown coin " ++ coin.display
  | notImmature coin status => "coin " ++ coin.display ++ " is " ++ status.label ++ ", not immature"
  | emptySerialNumber coin => "empty serial number for coin " ++ coin.display
  | missingRing ring => "ring " ++ ring.toHex ++ " missing from batch"
  | notMember coin index ring =>
    "coin " ++ coin.display ++ " is not member " ++ toString index.toNat ++ " of ring "
      ++ ring.toHex

end BatchFault

namespace StoreError

/-- The wording of a store failure. -/
def message : StoreError → String
  | coinNotFound coin => "coin " ++ coin.display ++ " not found"
  | transactionNotFound txid => "transaction " ++ txid.toHex ++ " not found"
  | inconsistentBatch fault => "inconsistent batch: " ++ fault.message

end StoreError

/-- The name of a chain setting in a configuration record. -/
def ChainSetting.name : ChainSetting → String
  | coinbaseMaturity => "coinbase_maturity"
  | blocksPerGroup => "block_num_per_ring_group"
  | ringSize => "txo_ring_size"

/-- The name of a height range in a configuration record. -/
def ScanRange.name : ScanRange → String
  | coinScan => "coin_scan"
  | txTrack => "tx_track"

namespace ConfigFault

/-- The wording of a configuration fault. -/
def message : ConfigFault → String
  | unreadable => "unreadable configuration"
  | zero setting => setting.name ++ " must be > 0"
  | backwardRange range start stop =>
    range.name ++ " range ends at " ++ toString stop.toNat ++ " before it starts at "
      ++ toString start.toNat
  | emptyDatabaseName => "db_file_name must not be empty"

end ConfigFault

namespace WalletError

/-- The wording of a failure. -/
def message : WalletError → String
  | invalidCryptoScheme => "invalid crypto scheme"
  | invalidPrivacyLevel => "invalid privacy level"
  | mismatchedSchemePrivacyLevel => "mismatched crypto scheme and privacy level"
  | mismatchedSeedType => "mismatched seed type"
  | corruptedSeed => "corrupted seed"
  | invalidSeedLength got expected =>
    "invalid seed length: got " ++ toString got ++ ", expected one of " ++ Text.natList expected
  | invalidAddress fault => "invalid address: " ++ fault.message
  | invalidAccountType => "invalid account type"
  | invalidParameter fault => "invalid parameter: " ++ fault.message
  | ringNotFound coin => "no ring found for coin " ++ coin.display
  | unknownAccount account => "unknown account " ++ toString account.number.toNat
  | invalidStateTransition coin source target =>
    "coin " ++ coin.display ++ " cannot move from " ++ source.label ++ " to " ++ target.label
  | provider error => "scheme provider error: " ++ error.message
  | store error => "storage error: " ++ error.message
  | hex error => "hex error: " ++ error.message
  | config fault => "configuration error: " ++ fault.message
  | io => "IO error"

/-- The failure of a ring check. -/
def ofRing (fault : RingFault) : WalletError := invalidParameter (.ring fault)

end WalletError

/-- Reads a hexadecimal text, with the wallet's failure. -/
def readHex (text : String) : Except WalletError Bytes := (Hex.decode text).mapError .hex

end RingWallet
