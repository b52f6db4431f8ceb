import RingWallet.Account
import RingWallet.Address.Short

/-!
# Values in diagnostics

How values are shown to developers. Public values are shown in full or by fingerprint; of secret
values only the length or nothing at all is shown, so a diagnostic never tells a key.
-/

set_option autoImplicit false

namespace RingWallet

namespace Text

/-- Named parts between braces behind a name; parts that are left out are shown as two dots. -/
def structureText (name : String) (parts : List (String × String)) (isPartial : Bool) : String :=
  let shown := parts.map fun part => part.1 ++ ": " ++ part.2
  let shown := if isPartial then shown ++ [".."] else shown
  name ++ " \x7b " ++ ", ".intercalate shown ++ " \x7d"

/-- A value between brackets behind a name. -/
def wrapped (name inner : String) : String := name ++ "(" ++ inner ++ ")"

/-- A text between double quotes; the text must need no escapes. -/
def quoted (text : String) : String := "\"" ++ text ++ "\""

/-- Stands in the place of anything secret. -/
def redacted : String := "***"

/-- A secret byte string, by its length alone. -/
def secret (data : Bytes) : String :=
  wrapped "SecretBytes" (redacted ++ toString data.length ++ " bytes" ++ redacted)

end Text

open Text (structureText wrapped quoted redacted)

/-! ## Seeds -/

/-- Key seeds, without any of the seeds. -/
def KeySeeds.describe (keys : KeySeeds) : String :=
  structureText "KeySeeds"
    [("scheme", keys.scheme.label), ("privacy_level", keys.level.label)] true

/-- A long-lived seed. -/
def RootSeed.describe (seed : RootSeed) : String :=
  structureText "RootSeed" [("keys", seed.keys.describe)] false

/-- Public randomness in full. -/
def describePublicRand : Option SeedField → String
  | some field => wrapped "Some" (Text.natList (field.toList.map UInt8.toNat))
  | none => "None"

/-- A one-time seed; its public randomness is no secret. -/
def OneTimeSeed.describe (seed : OneTimeSeed) : String :=
  structureText "RandomizedSeed"
    [("keys", seed.keys.describe), ("public_rand", describePublicRand seed.publicRand?)] false

/-- A seed of either kind. -/
def Seed.describe (seed : Seed) : String :=
  wrapped seed.kind.label <| match seed with
    | root seed => seed.describe
    | oneTime seed => seed.describe

/-! ## Addresses -/

/-- A coin address by level and fingerprint. -/
def CoinAddress.describe (address : CoinAddress) : String :=
  wrapped "CoinAddress" (address.level.name ++ ", " ++ Hex.encode address.fingerprint.toList)

/-- A crypto address by scheme, level and fingerprint. -/
def CryptoAddress.describe (address : CryptoAddress) : String :=
  structureText "CryptoAddress" [
    ("scheme", address.scheme.label),
    ("privacy_level", address.level.label),
    ("fingerprint", quoted (Hex.encode address.fingerprint.toList))] false

/-- An application address. -/
def AppAddress.describe (address : AppAddress) : String :=
  structureText "AbelAddress" [
    ("network", address.network.label),
    ("crypto_address", address.crypto.describe)] false

/-- The packed fields of a version-two header. -/
def ShortMetadata.describe (metadata : ShortMetadata) : String :=
  structureText "ShortAddressMetadata" [
    ("version", toString metadata.version.toNat),
    ("network", metadata.network.label),
    ("crypto_scheme", metadata.scheme.label),
    ("privacy_level", metadata.level.label)] false

/-- The header of a short address. -/
def ShortHeader.describe : ShortHeader → String
  | v1 network => structureText "V1" [("network", network.label)] false
  | v2 metadata => wrapped "V2" metadata.describe
  | v2Unspecified version =>
    structureText "V2Unspecified" [("version", toString version.toNat)] false

/-- A short address by header and bytes. -/
def ShortAddress.describe (short : ShortAddress) : String :=
  wrapped "ShortAbelAddress" (short.header.describe ++ ", " ++ short.toHex)

/-! ## Accounts -/

/-- Exported key material, by its kind alone. -/
def ViewMaterial.describe : ViewMaterial → String
  | rootSeeds .. => "ViewKeyMaterial::" ++ wrapped "RootSeeds" redacted
  | keys .. => "ViewKeyMaterial::" ++ wrapped "Keys" redacted

/-- A view account by level or address. -/
def ViewAccount.describe : ViewAccount → String
  | seedBacked view =>
    structureText "RootSeedViewAccount" [("privacy_level", view.level.label)] true
  | keyBacked view =>
    structureText "CryptoKeysViewAccount" [("crypto_address", view.address.describe)] true

/-- The inner part of an account. -/
def Account.describeInner : Account → String
  | seedBacked root => structureText "RootSeedAccount" [("seed", root.describe)] true
  | keyBacked account =>
    structureText "CryptoKeysAccount" [("crypto_address", account.view.address.describe)] true

/-- An account by what it is made from. -/
def Account.describe (account : Account) : String :=
  wrapped account.view.kind.label account.describeInner

end RingWallet
