import RingWallet.Coin.Ring
import RingWallet.Seed
import RingWallet.Transaction

/-!
# The scheme provider

Key derivation, address splitting, coin detection, serial numbers and proofs belong to the crypto
scheme and lie outside the wallet. A `Provider` is the table of these operations over a state `σ`
that belongs to the outside world, so every call may fail and may change that state. The wallet's
own operations run in `WalletM`, which adds the wallet's failures.
-/

set_option autoImplicit false

namespace RingWallet

/-- The keys of one address and the address they make. -/
structure OneTimeKeys where
  spend : Bytes
  serialNumber : Bytes
  view : Bytes
  /-- Missing under the legacy scheme. -/
  detector? : Option Bytes
  address : Bytes
  deriving DecidableEq

/-- What a serial number is computed against. -/
inductive RingContext
  /-- The serialized blocks of a whole window, in height order. -/
  | blocks (blocks : List Bytes)
  /-- A ring in its serialized form. -/
  | ring (serialized : Bytes)
  deriving DecidableEq

/-- The key that serial numbers are computed with. -/
inductive SerialNumberKey
  /-- The seed of a seed-backed account; missing for a pseudonym. -/
  | rootSeed (seed? : Option Bytes)
  /-- One secret key for each coin. -/
  | secretKeys (keys : List Bytes)
  deriving DecidableEq

/-- What a list of signers signs with; all of one kind. -/
inductive SignerMaterial
  | rootSeeds (seeds : List RootSeed)
  | keys (sets : List OneTimeKeys)
  deriving DecidableEq

/-- The number of signers. -/
def SignerMaterial.size : SignerMaterial → Nat
  | rootSeeds seeds => seeds.length
  | keys sets => sets.length

/-- A provider call: it may change the outside state and may fail. -/
abbrev ProviderM (σ α : Type) := ExceptT ProviderError (StateM σ) α

/-- The operations of a crypto scheme. -/
structure Provider (σ : Type) where
  /-- The keys and the address of a seed; a root seed gives fresh ones at every call. -/
  derive : Seed → ProviderM σ OneTimeKeys
  /-- The keys and the address of a root seed that are bound to public randomness. -/
  deriveFromRand : RootSeed → Bytes → ProviderM σ OneTimeKeys
  /-- The key seeds of a root seed that are bound to public randomness. -/
  randomize : RootSeed → Bytes → ProviderM σ KeySeeds
  /-- The public randomness inside a crypto address. -/
  publicRandOf : Bytes → ProviderM σ Bytes
  /-- The privacy level and the coin address inside a crypto address. -/
  splitAddress : Bytes → ProviderM σ (PrivacyLevel × Bytes)
  /-- Whether a crypto address is well formed. -/
  validateAddress : Bytes → ProviderM σ Bool
  /-- The privacy level of a serialized output. -/
  outputLevel : UInt32 → Bytes → ProviderM σ PrivacyLevel
  /-- The coin address of a serialized output. -/
  outputCoinAddress : UInt32 → Bytes → ProviderM σ Bytes
  /-- Whether a detector key detects a serialized output. -/
  detect : UInt32 → Bytes → Bytes → ProviderM σ Bool
  /-- The value of an output that belongs to a root seed, by value key seed and detector key. -/
  valueByRoot : UInt32 → Bytes → Option Bytes → Bytes → ProviderM σ (Option UInt64)
  /-- The value of an output that belongs to keys, by crypto address and view key. -/
  valueByKeys : UInt32 → Bytes → Bytes → Bytes → ProviderM σ (Option UInt64)
  /-- One serial number for each coin. -/
  serialNumbers : List CoinId → RingContext → SerialNumberKey → ProviderM σ (List Bytes)
  /-- The rings that the blocks of a whole window form. -/
  buildRings : List Bytes → ProviderM σ (List CoinRing)
  buildUnsigned : TxPlan → ProviderM σ UnsignedTx
  sign : UnsignedTx → SignerMaterial → ProviderM σ SignedTx

/-- A call on one half of a pair of states. -/
def ProviderM.beside {σ α : Type} (τ : Type) (call : ProviderM σ α) : ProviderM (σ × τ) α :=
  ExceptT.mk fun (inner, other) =>
    let (result, inner) := call.run.run inner
    (result, (inner, other))

/-- A provider on one half of a pair of states; the other half is left alone. -/
def Provider.beside {σ : Type} (τ : Type) (provider : Provider σ) : Provider (σ × τ) where
  derive seed := (provider.derive seed).beside τ
  deriveFromRand root rand := (provider.deriveFromRand root rand).beside τ
  randomize root rand := (provider.randomize root rand).beside τ
  publicRandOf address := (provider.publicRandOf address).beside τ
  splitAddress address := (provider.splitAddress address).beside τ
  validateAddress address := (provider.validateAddress address).beside τ
  outputLevel version output := (provider.outputLevel version output).beside τ
  outputCoinAddress version output := (provider.outputCoinAddress version output).beside τ
  detect version output detector := (provider.detect version output detector).beside τ
  valueByRoot version output value? detector :=
    (provider.valueByRoot version output value? detector).beside τ
  valueByKeys version output address viewKey :=
    (provider.valueByKeys version output address viewKey).beside τ
  serialNumbers coins context key := (provider.serialNumbers coins context key).beside τ
  buildRings blocks := (provider.buildRings blocks).beside τ
  buildUnsigned plan := (provider.buildUnsigned plan).beside τ
  sign unsigned signers := (provider.sign unsigned signers).beside τ

/-- A wallet operation: it may change the outside state and may fail. -/
abbrev WalletM (σ α : Type) := ExceptT WalletError (StateM σ) α

/-- A provider call as part of a wallet operation. -/
def consult {σ α : Type} (call : ProviderM σ α) : WalletM σ α := call.adapt .provider

end RingWallet
