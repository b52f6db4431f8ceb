import RingWallet.Account.View
import RingWallet.Seed.Codec
import RingWallet.Seed.Generate

/-!
# Accounts

An account watches, spends and makes addresses. A seed-backed account holds a root seed and makes
any number of addresses; a key-backed account holds the keys of one. Its serialized seed is all that
has to be kept to have it again (`Account.dump`).
-/

set_option autoImplicit false

namespace RingWallet

/-- An account of a one-time seed: the keys that follow from the seed, and the view part of them. -/
structure KeyAccount where
  seed : OneTimeSeed
  keys : OneTimeKeys
  view : KeyView
  deriving DecidableEq

/-- An account of either kind. -/
inductive Account
  | seedBacked (root : RootSeed)
  | keyBacked (account : KeyAccount)
  deriving DecidableEq

variable {σ : Type}

/-- The account of a one-time seed. -/
def KeyAccount.ofSeed (provider : Provider σ) (seed : OneTimeSeed) : WalletM σ KeyAccount := do
  let keys ← consult (provider.derive (.oneTime seed))
  let address ← CryptoAddress.parse provider keys.address
  unless address.level = seed.level do throw .mismatchedSchemePrivacyLevel
  let view ← KeyView.ofMaterial address keys.serialNumber keys.view keys.detector?
  return ⟨seed, keys, view⟩

/-- A fresh address of a root seed. -/
def RootSeed.freshAddress (provider : Provider σ) (root : RootSeed) :
    WalletM σ CryptoAddress := do
  let keys ← consult (provider.derive (.root root))
  let address ← CryptoAddress.parse provider keys.address
  unless address.level = root.level do throw .mismatchedSchemePrivacyLevel
  return address

/-- The keys behind an address that a root seed made; the public randomness inside the address is
all that tells them. -/
def RootSeed.regenerate (provider : Provider σ) (root : RootSeed) (address : CryptoAddress) :
    WalletM σ OneTimeKeys := do
  unless address.level = root.level do throw .mismatchedSchemePrivacyLevel
  let publicRand ← consult (provider.publicRandOf address.bytes)
  let keys ← consult (provider.deriveFromRand root publicRand)
  unless keys.address = address.bytes do throw (.invalidAddress .notFromThisAccount)
  return keys

namespace Account

/-- The account of a seed. -/
def ofSeed (provider : Provider σ) : Seed → WalletM σ Account
  | .root root => return seedBacked root
  | .oneTime seed => return keyBacked (← KeyAccount.ofSeed provider seed)

/-- The account of a serialized seed. -/
def ofSeedBytes (provider : Provider σ) (data : Bytes) : WalletM σ Account := do
  let seed ← Seed.deserialize data
  ofSeed provider seed

/-- A new account of a level, with the serialized seed from which it is made again. The seed is
drawn from a random stream. -/
def generate (provider : Provider σ) (level : AccountLevel) (stream : ByteStream) :
    WalletM σ (Account × Bytes) := do
  let (drawn, _) := (Seed.generate level.scheme level.privacyLevel stream).run.run 0
  let seed ← drawn
  let account ← ofSeed provider seed
  return (account, seed.serialize)

/-- The watching part of an account. -/
def view : Account → ViewAccount
  | seedBacked root => .seedBacked root.view
  | keyBacked account => .keyBacked account.view

/-- The value of an output that belongs to the account, or nothing. An account watches with its
view. -/
def receive (provider : Provider σ) (account : Account) (txVersion : UInt32) (output : Bytes) :
    WalletM σ (Option UInt64) :=
  account.view.receive provider txVersion output

/-- One serial number of the account for each coin, in order. -/
def serialNumbers (provider : Provider σ) (account : Account) (coins : List CoinId)
    (ring : RingContext) : WalletM σ (List Bytes) :=
  account.view.serialNumbers provider coins ring

/-- The secret that spends. -/
def spendKey : Account → Bytes
  | seedBacked root => root.keys.spend.toList
  | keyBacked account => account.keys.spend

/-- The seed of an account. -/
def seed : Account → Seed
  | seedBacked root => .root root
  | keyBacked account => .oneTime account.seed

/-- The bytes from which the account is made again. -/
def dump (account : Account) : Bytes := account.seed.serialize

/-- An address to receive coins at: a fresh one for a seed-backed account, the only one for a
key-backed account. -/
def makeAddress (provider : Provider σ) : Account → WalletM σ CryptoAddress
  | seedBacked root => root.freshAddress provider
  | keyBacked account => return account.view.address

/-- An address to receive coins at on a network. -/
def makeAppAddress (provider : Provider σ) (account : Account) (network : Network) :
    WalletM σ AppAddress := do
  return ⟨network, ← account.makeAddress provider⟩

/-- The keys behind an address of a seed-backed account. -/
def regenerate (provider : Provider σ) (account : Account) (address : CryptoAddress) :
    WalletM σ OneTimeKeys :=
  match account with
  | seedBacked root => root.regenerate provider address
  | keyBacked _ => throw .invalidAccountType

/-- The root seed of a seed-backed account. -/
def root? : Account → Option RootSeed
  | seedBacked root => some root
  | keyBacked _ => none

/-- The keys of a key-backed account. -/
def keys? : Account → Option OneTimeKeys
  | seedBacked _ => none
  | keyBacked account => some account.keys

/-- What a list of accounts signs with; there must be at least one, and all must be of one kind. -/
def signerMaterial (signers : List Account) : Except WalletError SignerMaterial :=
  match signers with
  | [] => .error (.invalidParameter .noSigners)
  | seedBacked _ :: _ =>
    match signers.mapM root? with
    | some seeds => .ok (.rootSeeds seeds)
    | none => .error .invalidAccountType
  | keyBacked _ :: _ =>
    match signers.mapM keys? with
    | some sets => .ok (.keys sets)
    | none => .error .invalidAccountType

end Account

end RingWallet
