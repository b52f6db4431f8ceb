import RingWallet.Seed

/-!
# The serialized form of a seed

```text
scheme tag(4) level byte(1) spend(64) serial number(64) value(64) detector(64) public randomness(64)
```

Only the parts that the level has are written; the legacy scheme has no level byte. Whether public
randomness follows is told by the total length alone.
-/

set_option autoImplicit false

namespace RingWallet

namespace KeySeeds

/-- The key seeds in writing order. -/
def fields (keys : KeySeeds) : List SeedField :=
  keys.spend :: (keys.serialNumber?.toList ++ keys.value?.toList ++ keys.detector?.toList)

/-- The header of the level and the key seeds behind it. -/
def serialize (keys : KeySeeds) : Bytes :=
  keys.level.header ++ keys.fields.flatMap FixedBytes.toList

/-- The field in front of a byte string, and what follows it. -/
def takeField (data : Bytes) : Option (SeedField × Bytes) :=
  match FixedBytes.ofList? CryptoScheme.seedLength (data.take CryptoScheme.seedLength) with
  | some field => some (field, data.drop CryptoScheme.seedLength)
  | none => none

/-- The key seeds of a level in front of a byte string, and what follows them. -/
def takeFields (level : PrivacyLevel) (data : Bytes) : Option (KeySeeds × Bytes) :=
  match level with
  | .ringCtPre => do
    let (spend, data) ← takeField data
    let (value, data) ← takeField data
    return (legacy spend value, data)
  | .ringCt => do
    let (spend, data) ← takeField data
    let (serialNumber, data) ← takeField data
    let (value, data) ← takeField data
    let (detector, data) ← takeField data
    return (fullPrivacy spend serialNumber value detector, data)
  | .pseudonym => do
    let (spend, data) ← takeField data
    let (detector, data) ← takeField data
    return (pseudonym spend detector, data)

end KeySeeds

namespace Seed

/-- The serialized form of a seed. -/
def serialize (seed : Seed) : Bytes :=
  seed.keys.serialize ++ (seed.publicRand?.map FixedBytes.toList).getD []

/-- The length of a serialized seed: header, key seeds and, if wanted and the scheme has any,
public randomness. -/
def serializedLength (scheme : CryptoScheme) (level : PrivacyLevel) (withPublicRand : Bool) : Nat :=
  CryptoScheme.tagLength + (if scheme.hasLevelByte then 1 else 0)
    + level.fieldCount * CryptoScheme.seedLength
    + if withPublicRand then scheme.publicRandLength?.getD 0 else 0

/-- The lengths that serialized seeds of a level can have. -/
def serializedLengths (level : PrivacyLevel) : List Nat :=
  serializedLength level.scheme level false ::
    (level.scheme.publicRandLength?.map fun _ => serializedLength level.scheme level true).toList

/-- The level that a serialized seed declares, and the bytes behind its header. -/
def readHeader (data : Bytes) : Except WalletError (PrivacyLevel × Bytes) :=
  match CryptoScheme.ofTag? data with
  | none => .error .invalidCryptoScheme
  | some .pqRingCt => .ok (.ringCtPre, data.drop CryptoScheme.tagLength)
  | some .pqRingCtX =>
    match data.drop CryptoScheme.tagLength with
    | [] => .error (.invalidSeedLength data.length [CryptoScheme.tagLength + 1])
    | byte :: body =>
      match PrivacyLevel.ofCode? byte with
      | none | some .ringCtPre => .error .invalidPrivacyLevel
      | some level => .ok (level, body)

/-- The seed of given key seeds, told by what follows them: nothing makes a long-lived seed where
the scheme has one, and public randomness makes a one-time seed. -/
def ofKeysAndRest (keys : KeySeeds) (rest : Bytes) : Except WalletError Seed :=
  if rest.isEmpty then
    match keys.scheme with
    | .pqRingCt => (OneTimeSeed.ofKeys keys none).map oneTime
    | .pqRingCtX => (RootSeed.ofKeys keys).map root
  else (OneTimeSeed.ofKeys keys (some rest)).map oneTime

/-- The seed with a given serialized form. -/
def deserialize (data : Bytes) : Except WalletError Seed := do
  let (level, body) ← readHeader data
  let lengths := serializedLengths level
  if lengths.contains data.length then
    match KeySeeds.takeFields level body with
    | some (keys, rest) => ofKeysAndRest keys rest
    | none => .error .corruptedSeed
  else .error (.invalidSeedLength data.length lengths)

/-- A serialized seed in hexadecimal. -/
def toHex (seed : Seed) : String := Hex.encode seed.serialize

/-- The seed with a given hexadecimal form. -/
def ofHex (text : String) : Except WalletError Seed := do
  let data ← readHex text
  deserialize data

end Seed

end RingWallet
