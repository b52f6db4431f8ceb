import RingWallet.Address.Short
import RingWallet.Diagnostic
import RingWallet.Inspect.Error
import RingWallet.Seed.Parts

/-!
# Views of seeds, addresses and accounts

Seeds and keys are shown in full: a view is for the owner's own tools, unlike a diagnostic.
-/

set_option autoImplicit false

namespace RingWallet.Inspect

/-- Whether a reading gives an expected value. -/
def gives {ε α : Type} [DecidableEq α] (result : Except ε α) (expected : α) : Bool :=
  match result with
  | .ok value => decide (value = expected)
  | .error _ => false

/-! ## Names -/

instance : Inspect CryptoScheme := ⟨fun scheme => view scheme.code⟩
instance : Inspect PrivacyLevel := ⟨fun level => view level.code⟩

/-- What a scheme has. -/
def schemeFacts (scheme : CryptoScheme) : Json := .object [
  ("scheme", view scheme), ("name", view scheme.name), ("bytes", view scheme.tag),
  ("seed_len", view CryptoScheme.seedLength),
  ("public_rand_len", view scheme.publicRandLength?), ("level_byte", view scheme.hasLevelByte),
  ("supports", view (PrivacyLevel.all.map scheme.supports))]

/-- What a privacy level means, for outputs and for accounts. -/
def levelFacts (level : PrivacyLevel) (account : AccountLevel) : Json := .object [
  ("name", view level.name), ("full", view level.isFullPrivacy),
  ("pseudonym", view level.isPseudonym), ("account", view account.label),
  ("account_scheme", view account.scheme.name),
  ("account_level", view account.privacyLevel.name)]

/-- The lengths of the addresses of a level under a scheme. -/
def addressLengths (scheme : CryptoScheme) (level : PrivacyLevel) : Json := .object [
  ("coin", view level.coinAddressLength), ("crypto", view (CryptoAddress.length? scheme level)),
  ("abel", view (AppAddress.length? scheme level))]

/-- A network by number and name. -/
def networkFacts (network : Network) : Json := .object [
  ("id", view network.code), ("name", view network.name), ("display", view network.name),
  ("json", network.toJson)]

/-- An identifier in all its forms. -/
def idFacts {kind : IdKind} (id : HashId kind) : Json := .object [
  ("display", view id), ("debug", view id.describe), ("json", id.toJson),
  ("bytes", view id.bytes), ("reparsed", view (gives (HashId.ofHex kind id.toHex) id))]

/-- A secret by its length and what a diagnostic tells of it. -/
def secretFacts (data : Bytes) : Json := .object [
  ("len", view data.length), ("empty", view data.isEmpty), ("bytes", view data),
  ("debug", view (Text.secret data))]

/-! ## Seeds -/

/-- The fields of key seeds. -/
def keySeedsFields (keys : KeySeeds) : List (String × Json) := [
  ("scheme", view keys.scheme), ("level", view keys.level), ("spend", view keys.spend),
  ("sn", view keys.serialNumber?), ("value", view keys.value?), ("detector", view keys.detector?)]

instance : Inspect KeySeeds := ⟨fun keys => .object (keySeedsFields keys)⟩

/-- Key seeds with the long-lived seed and the one-time seed that they make. -/
def seedsOfKeys (keys : KeySeeds) (publicRand? : Option Bytes) : Json := .object [
  ("keys", view keys),
  ("root", view ((RootSeed.ofKeys keys).map fun seed => (Seed.root seed).serialize)),
  ("randomized", view ((OneTimeSeed.ofKeys keys publicRand?).map fun seed =>
    (Seed.oneTime seed).serialize))]

/-- The fields of a seed, with its serialized form and whether that form reads back. -/
def seedFields (seed : Seed) : List (String × Json) :=
  let parts := SeedParts.ofSeed seed
  keySeedsFields seed.keys ++ [
    ("kind", view seed.kind.label),
    ("public_rand", view seed.publicRand?),
    ("serialized", view seed.serialize),
    ("hex_len", view seed.toHex.length),
    ("serialized_len",
      view (Seed.serializedLength seed.scheme seed.level seed.publicRand?.isSome)),
    ("inner", view (seed.scheme, seed.level)),
    ("parts_agree", view (gives parts.serialize seed.serialize && gives parts.toSeed seed)),
    ("reparsed", view (gives (Seed.ofHex seed.toHex) seed))]

instance : Inspect Seed := ⟨fun seed => .object (seedFields seed)⟩
instance : Inspect RootSeed := ⟨fun seed => view (Seed.root seed)⟩
instance : Inspect OneTimeSeed := ⟨fun seed => view (Seed.oneTime seed)⟩

instance : Inspect OneTimeKeys := ⟨fun keys => .object [
  ("spend", view keys.spend), ("sn", view keys.serialNumber), ("view", view keys.view),
  ("detector", view keys.detector?), ("address", view keys.address)]⟩

/-- The keys that open an address. -/
def openedKeys (keys : OneTimeKeys) : Json := .object [
  ("spend", view keys.spend), ("sn", view keys.serialNumber), ("view", view keys.view),
  ("address", view keys.address)]

/-! ## Addresses -/

instance : Inspect CoinAddress := ⟨fun address => .object [
  ("level", view address.level), ("bytes", view address.bytes),
  ("fingerprint", view address.fingerprint)]⟩

instance : Inspect CryptoAddress := ⟨fun address => .object [
  ("bytes", view address.bytes), ("scheme", view address.scheme), ("level", view address.level),
  ("coin", view address.coin.bytes), ("fingerprint", view address.fingerprint)]⟩

instance : Inspect AppAddress := ⟨fun address => .object [
  ("bytes", view address.bytes), ("hex_len", view address.toHex.length),
  ("network", view address.network.name), ("checksum", view address.checksum),
  ("scheme", view address.scheme), ("level", view address.level),
  ("crypto", view address.crypto)]⟩

instance : Inspect ShortMetadata := ⟨fun metadata => .object [
  ("version", view metadata.version), ("network", view metadata.network.code),
  ("scheme", view metadata.scheme), ("level", view metadata.level)]⟩

instance : Inspect ShortHeader where
  view
    | .v1 network => .object [("v1", view network.code)]
    | .v2 metadata => .object [("v2", view metadata)]
    | .v2Unspecified version => .object [("v2_unspecified", view version)]

instance : Inspect ShortAddress := ⟨fun short => .object [
  ("hex", view short.toHex), ("display", view short.toHex), ("bytes", view short.bytes),
  ("payload", view short.header), ("network", view (short.network?.map Network.name)),
  ("fingerprint", view short.fingerprint), ("hash", view short.hash)]⟩

/-- A short address beside the address it was made of. -/
def shortFacts (short : ShortAddress) (address : AppAddress) : Json := .object [
  ("short", view short), ("matches", view (short.refersTo address)),
  ("reparsed", view ((ShortAddress.parse short.bytes).map fun again => decide (again = short)))]

/-- What diagnostics tell of a seed, of an address made from it, and of a spend key. -/
def diagnostics (seed : Seed) (address : AppAddress) (spendKey : Bytes) : Json := .object [
  ("seed", view seed.describe), ("coin", view address.crypto.coin.describe),
  ("crypto", view address.crypto.describe), ("abel", view address.describe),
  ("short", view (ShortAddress.ofAddress address).describe), ("keys", view (Text.secret spendKey))]

/-! ## Accounts -/

instance : Inspect ViewMaterial where
  view
    | .rootSeeds serialNumber? value? detector => .object [("root", .object [
        ("sn", view serialNumber?), ("value", view value?), ("detector", view detector)])]
    | .keys serialNumber viewKey detector? => .object [("keys", .object [
        ("sn", view serialNumber), ("view", view viewKey), ("detector", view detector?)])]

/-- The fields of a view account. -/
def viewAccountFields (account : ViewAccount) : List (String × Json) := [
  ("kind", view account.kind.label), ("scheme", view account.scheme),
  ("level", view account.level), ("keys", view account.material),
  ("debug", view account.material.describe)]

instance : Inspect ViewAccount := ⟨fun account => .object (viewAccountFields account)⟩

/-- The fields of an account: those of its watching part and its secrets. -/
def accountFields (account : Account) : List (String × Json) :=
  viewAccountFields account.view ++ [("spend", view account.spendKey), ("dump", view account.dump)]

/-- The addresses that an account keeps. -/
def keptAddresses : Account → List (String × Json)
  | .seedBacked _ => []
  | .keyBacked account => [
      ("address", view account.view.address.bytes), ("keys_address", view account.keys.address)]

instance : Inspect Account := ⟨fun account => .object (accountFields account ++ [
  ("account_debug", view account.describe), ("view_debug", view account.view.describe)])⟩

end RingWallet.Inspect
