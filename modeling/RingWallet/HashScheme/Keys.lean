import RingWallet.HashScheme.Expand
import RingWallet.HashScheme.Failure
import RingWallet.HashScheme.Output
import RingWallet.Provider

/-!
# Keys and addresses of the stand-in scheme

One-time key seeds are expanded from the root's key seeds and public randomness. A coin address is

```text
public randomness(64) detector tag(32) filler check(32)
```

where a legacy coin address has neither randomness nor tag, and the check hashes all before it. A
crypto address puts the level's header in front and, for full privacy, an expanded view key behind.
-/

set_option autoImplicit false

namespace RingWallet.HashScheme

/-- The length of a detector tag. -/
abbrev tagLength : Nat := 32

/-- The length of the check that ends a coin address. -/
abbrev checkLength : Nat := 32

/-- The length of the view key that ends a crypto address for full privacy. -/
abbrev viewKeyLength : Nat := 1188

/-! ## Derivation -/

/-- A key seed bound to public randomness. -/
def boundField (label : String) (root : Bytes) (publicRand : Bytes) : SeedField :=
  expand label [root, publicRand] CryptoScheme.seedLength

/-- The detector key that a root detector key and public randomness make. -/
def boundDetector (root publicRand : Bytes) : SeedField :=
  boundField "rand-detector" root publicRand

/-- The serial number seed that a root's seed and public randomness make. -/
def boundSerialNumber (root publicRand : Bytes) : SeedField :=
  boundField "rand-sn" root publicRand

/-- The key seeds of a root seed that are bound to public randomness. -/
def randomize (root : RootSeed) (publicRand : Bytes) : KeySeeds :=
  let bind (label : String) (field : SeedField) : SeedField :=
    boundField label field.toList publicRand
  match root.keys with
  | .legacy spend value => .legacy (bind "rand-spend" spend) (bind "rand-value" value)
  | .fullPrivacy spend serialNumber value detector =>
    .fullPrivacy (bind "rand-spend" spend) (bind "rand-sn" serialNumber)
      (bind "rand-value" value) (bind "rand-detector" detector)
  | .pseudonym spend detector =>
    .pseudonym (bind "rand-spend" spend) (bind "rand-detector" detector)

/-- The tag by which a detector key finds a coin address. -/
def detectorTag (detector : Bytes) : Digest := labelled "tag" [detector]

/-- The check that ends a coin address. -/
def checkOf (body : Bytes) : Digest := labelled "check" [body]

/-- The part of a coin address that tells its owner's detector. -/
def addressHead (keys : KeySeeds) (publicRand? : Option Bytes) : Bytes :=
  match keys.detector?, publicRand? with
  | some detector, some publicRand => publicRand ++ (detectorTag detector.toList).toList
  | _, _ => []

/-- The coin address of key seeds. -/
def coinAddress (keys : KeySeeds) (publicRand? : Option Bytes) : Bytes :=
  let head := addressHead keys publicRand?
  let filler := expand "coin" [keys.spend.toList]
    (keys.level.coinAddressLength - head.length - checkLength)
  let body := head ++ filler.toList
  body ++ (checkOf body).toList

/-- The keys and the address of key seeds. -/
def assemble (keys : KeySeeds) (publicRand? : Option Bytes) : OneTimeKeys :=
  let coin := coinAddress keys publicRand?
  let viewKey := match keys.value? with
    | some value => (expand "vpk" [value.toList] viewKeyLength).toList
    | none => []
  let serialNumber := match keys with
    | .pseudonym .. => labelled "sn-pseudo" [coin]
    | .fullPrivacy _ serialNumber _ _ => labelled "sn-sk" [serialNumber.toList]
    | .legacy spend _ => labelled "sn-sk" [spend.toList]
  let viewSeed := match keys.value?.or keys.detector? with
    | some field => field.toList
    | none => []
  { spend := (labelled "spend-sk" [keys.spend.toList]).toList
    serialNumber := serialNumber.toList
    view := (labelled "view-sk" [viewSeed]).toList
    detector? := keys.detector?.map FixedBytes.toList
    address := keys.level.header ++ coin ++ viewKey }

/-- The keys and the address of a root seed that are bound to public randomness. -/
def deriveFromRand (root : RootSeed) (publicRand : Bytes) : OneTimeKeys :=
  assemble (randomize root publicRand) (some publicRand)

/-- The keys and the address of a one-time seed. -/
def deriveOneTime (seed : OneTimeSeed) : OneTimeKeys :=
  assemble seed.keys (seed.publicRand?.map FixedBytes.toList)

/-! ## Taking an address apart -/

/-- A crypto address taken apart. -/
structure SplitAddress where
  scheme : CryptoScheme
  level : PrivacyLevel
  coin : Bytes
  /-- What follows the coin address. -/
  rest : Bytes
  deriving DecidableEq

/-- The scheme and the level that a crypto address declares, and what follows its header. -/
def readHeader (address : Bytes) : Except Failure (CryptoScheme × PrivacyLevel × Bytes) :=
  match CryptoScheme.ofTag? address with
  | none => .error .unknownTag
  | some .pqRingCt => .ok (.pqRingCt, .ringCtPre, address.drop CryptoScheme.tagLength)
  | some .pqRingCtX =>
    match address.drop CryptoScheme.tagLength with
    | [] => .error .missingLevel
    | code :: body =>
      match PrivacyLevel.ofCode? code with
      | none => .error .unknownLevel
      | some level => .ok (.pqRingCtX, level, body)

/-- Takes a crypto address apart. -/
def split (address : Bytes) : Except Failure SplitAddress := do
  let (scheme, level, body) ← readHeader address
  if body.length < level.coinAddressLength then throw .truncatedCoinAddress
  return ⟨scheme, level, body.take level.coinAddressLength, body.drop level.coinAddressLength⟩

/-- Whether a coin address ends in its check. -/
def isWellFormedCoin (coin : Bytes) : Bool :=
  decide (checkLength ≤ coin.length)
    && (checkOf (coin.take (coin.length - checkLength))).toList
      == coin.drop (coin.length - checkLength)

/-- Whether a crypto address is one that some key seeds could have. -/
def isWellFormed (address : Bytes) : Bool :=
  match split address with
  | .error _ => false
  | .ok parts =>
    parts.scheme.supports parts.level
      && parts.rest.length == (if parts.level.isPseudonym then 0 else viewKeyLength)
      && isWellFormedCoin parts.coin

/-- The public randomness inside a crypto address. -/
def publicRandOf (address : Bytes) : Except Failure Bytes := do
  let parts ← split address
  if parts.level = .ringCtPre then throw .noPublicRand
  return parts.coin.take CryptoScheme.seedLength

/-! ## Finding outputs -/

/-- Whether a root detector key finds a coin address: the address's tag is that of the detector key
bound to the address's own randomness. -/
def detectsCoin (rootDetector coin : Bytes) : Bool :=
  decide (CryptoScheme.seedLength + tagLength ≤ coin.length)
    && (detectorTag (boundDetector rootDetector (coin.take CryptoScheme.seedLength)).toList).toList
      == (coin.drop CryptoScheme.seedLength).take tagLength

/-- Whether a root detector key finds an output; legacy outputs are never found. -/
def detects (output : Output) (rootDetector : Bytes) : Bool :=
  output.level != .ringCtPre && detectsCoin rootDetector output.coinAddress

/-- The value of an output that belongs to a root seed. -/
def valueByRoot (data : Bytes) (valueSeed? : Option Bytes) (rootDetector : Bytes) :
    Except Failure (Option UInt64) := do
  let output ← Output.parse data
  if output.level.isFullPrivacy && valueSeed?.isNone then throw .valueSeedRequired
  return if detects output rootDetector then some output.value else none

/-- The value of an output that belongs to the keys of an address. -/
def valueByKeys (data address viewKey : Bytes) : Except Failure (Option UInt64) := do
  if viewKey.isEmpty then throw .emptyViewKey
  let output ← Output.parse data
  let parts ← split address
  return if output.coinAddress = parts.coin then some output.value else none

end RingWallet.HashScheme
