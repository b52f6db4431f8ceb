import RingWallet.Seed.Codec

/-!
# Loose seed records

A seed as another program may hand it over: kind, scheme, level and every field by itself, present
or not, of any length. `SeedParts.toSeed` accepts exactly the complete records. A pair of scheme and
level that does not exist is refused first, then a missing or surplus key field, then one of a wrong
size.
-/

set_option autoImplicit false

namespace RingWallet

/-- The fields of a seed record. -/
structure SeedParts where
  kind : SeedKind
  scheme : CryptoScheme
  level : PrivacyLevel
  spend? : Option Bytes
  serialNumber? : Option Bytes
  value? : Option Bytes
  detector? : Option Bytes
  publicRand? : Option Bytes
  deriving DecidableEq

namespace KeySeeds

/-- A key seed of the right size. -/
def checkedField (data : Bytes) : Except WalletError SeedField :=
  match FixedBytes.ofList? CryptoScheme.seedLength data with
  | some field => .ok field
  | none => .error .corruptedSeed

/-- Legacy key seeds. -/
def ofLegacy (spend value : Bytes) : Except WalletError KeySeeds := do
  return legacy (← checkedField spend) (← checkedField value)

/-- Key seeds for full privacy. -/
def ofFullPrivacy (spend serialNumber value detector : Bytes) : Except WalletError KeySeeds := do
  return fullPrivacy (← checkedField spend) (← checkedField serialNumber) (← checkedField value)
    (← checkedField detector)

/-- Key seeds of a pseudonym. -/
def ofPseudonym (spend detector : Bytes) : Except WalletError KeySeeds := do
  return pseudonym (← checkedField spend) (← checkedField detector)

/-- Key seeds from fields that may be missing. -/
def ofFields (scheme : CryptoScheme) (level : PrivacyLevel)
    (spend? serialNumber? value? detector? : Option Bytes) : Except WalletError KeySeeds :=
  if scheme.supports level then
    match level, spend?, serialNumber?, value?, detector? with
    | .ringCtPre, some spend, none, some value, none => ofLegacy spend value
    | .ringCt, some spend, some serialNumber, some value, some detector =>
      ofFullPrivacy spend serialNumber value detector
    | .pseudonym, some spend, none, none, some detector => ofPseudonym spend detector
    | _, _, _, _, _ => .error .mismatchedSchemePrivacyLevel
  else .error .invalidPrivacyLevel

end KeySeeds

namespace SeedParts

/-- The seed that a complete record describes. -/
def toSeed (parts : SeedParts) : Except WalletError Seed := do
  let keys ← KeySeeds.ofFields parts.scheme parts.level parts.spend? parts.serialNumber?
    parts.value? parts.detector?
  match parts.kind, parts.publicRand? with
  | .root, some _ => .error .mismatchedSeedType
  | .root, none => (RootSeed.ofKeys keys).map .root
  | .oneTime, publicRand? => (OneTimeSeed.ofKeys keys publicRand?).map .oneTime

/-- The serialized form of the seed that a complete record describes. -/
def serialize (parts : SeedParts) : Except WalletError Bytes := do
  let seed ← parts.toSeed
  return seed.serialize

/-- The record of a seed. -/
def ofSeed (seed : Seed) : SeedParts where
  kind := seed.kind
  scheme := seed.scheme
  level := seed.level
  spend? := some seed.keys.spend.toList
  serialNumber? := seed.keys.serialNumber?.map FixedBytes.toList
  value? := seed.keys.value?.map FixedBytes.toList
  detector? := seed.keys.detector?.map FixedBytes.toList
  publicRand? := seed.publicRand?.map FixedBytes.toList

end SeedParts

end RingWallet
