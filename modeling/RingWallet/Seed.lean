import RingWallet.Error

/-!
# Seeds

A seed is a set of key seeds for one privacy level, either long-lived (`RootSeed`) or for one use
(`OneTimeSeed`). Which key seeds exist is fixed by the level (`KeySeeds`). A root seed belongs to
the current scheme; a one-time seed carries public randomness exactly if its scheme has any. Both
facts are part of the types.
-/

set_option autoImplicit false

namespace RingWallet

/-- A key seed, a detector key or the public randomness of a one-time seed. -/
abbrev SeedField := FixedBytes CryptoScheme.seedLength

/-- The key seeds of one key hierarchy. -/
inductive KeySeeds
  | legacy (spend value : SeedField)
  | fullPrivacy (spend serialNumber value detector : SeedField)
  | pseudonym (spend detector : SeedField)
  deriving DecidableEq

namespace KeySeeds

/-- The privacy level the key seeds are for. -/
def level : KeySeeds → PrivacyLevel
  | legacy .. => .ringCtPre
  | fullPrivacy .. => .ringCt
  | pseudonym .. => .pseudonym

/-- The scheme the key seeds belong to. -/
def scheme (keys : KeySeeds) : CryptoScheme := keys.level.scheme

/-- The seed of the spend key. -/
def spend : KeySeeds → SeedField
  | legacy spend _ | fullPrivacy spend _ _ _ | pseudonym spend _ => spend

/-- The seed of the serial number key. -/
def serialNumber? : KeySeeds → Option SeedField
  | fullPrivacy _ serialNumber _ _ => some serialNumber
  | legacy .. | pseudonym .. => none

/-- The seed of the value key. -/
def value? : KeySeeds → Option SeedField
  | legacy _ value | fullPrivacy _ _ value _ => some value
  | pseudonym .. => none

/-- The detector key. -/
def detector? : KeySeeds → Option SeedField
  | fullPrivacy _ _ _ detector | pseudonym _ detector => some detector
  | legacy .. => none

end KeySeeds

/-- A long-lived seed, from which any number of one-time seeds follow. -/
structure RootSeed where
  keys : KeySeeds
  scheme_eq : keys.scheme = .pqRingCtX
  deriving DecidableEq

/-- A seed for one use, bound to public randomness under the current scheme. -/
structure OneTimeSeed where
  keys : KeySeeds
  publicRand? : Option SeedField
  isSome_eq : publicRand?.isSome = keys.scheme.publicRandLength?.isSome
  deriving DecidableEq

/-- The two kinds of seed. -/
inductive SeedKind
  | root
  | oneTime
  deriving DecidableEq, Repr

/-- A seed of either kind. -/
inductive Seed
  | root (seed : RootSeed)
  | oneTime (seed : OneTimeSeed)
  deriving DecidableEq

namespace RootSeed

/-- The long-lived seed with given key seeds; legacy keys have no long-lived seed. -/
def ofKeys (keys : KeySeeds) : Except WalletError RootSeed :=
  if h : keys.scheme = .pqRingCtX then .ok ⟨keys, h⟩ else .error .mismatchedSeedType

/-- The privacy level of the seed. -/
def level (seed : RootSeed) : PrivacyLevel := seed.keys.level

end RootSeed

namespace OneTimeSeed

/-- The one-time seed with given key seeds and public randomness. -/
def ofKeys (keys : KeySeeds) (publicRand? : Option Bytes) : Except WalletError OneTimeSeed :=
  match hscheme : keys.scheme, publicRand? with
  | .pqRingCt, none => .ok ⟨keys, none, by simp [hscheme, CryptoScheme.publicRandLength?]⟩
  | .pqRingCt, some _ => .error .mismatchedSeedType
  | .pqRingCtX, none => .error .mismatchedSchemePrivacyLevel
  | .pqRingCtX, some bytes =>
    match FixedBytes.ofList? CryptoScheme.seedLength bytes with
    | none => .error .corruptedSeed
    | some publicRand =>
      .ok ⟨keys, some publicRand, by simp [hscheme, CryptoScheme.publicRandLength?]⟩

/-- The privacy level of the seed. -/
def level (seed : OneTimeSeed) : PrivacyLevel := seed.keys.level

end OneTimeSeed

namespace Seed

/-- The kind of a seed. -/
def kind : Seed → SeedKind
  | root _ => .root
  | oneTime _ => .oneTime

/-- The key seeds of a seed. -/
def keys : Seed → KeySeeds
  | root seed => seed.keys
  | oneTime seed => seed.keys

/-- The privacy level of a seed. -/
def level (seed : Seed) : PrivacyLevel := seed.keys.level

/-- The scheme of a seed. -/
def scheme (seed : Seed) : CryptoScheme := seed.keys.scheme

/-- The public randomness of a seed. -/
def publicRand? : Seed → Option SeedField
  | root _ => none
  | oneTime seed => seed.publicRand?

end Seed

/-- The name of a seed kind in diagnostics. -/
def SeedKind.label : SeedKind → String
  | root => "Root"
  | oneTime => "Randomized"

end RingWallet
