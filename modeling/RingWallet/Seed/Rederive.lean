import RingWallet.Provider

/-!
# One-time seeds of a root seed

The provider derives the key seeds that belong to a root seed and public randomness; the wallet
checks the length of the randomness before and the level of the key seeds after.
-/

set_option autoImplicit false

namespace RingWallet

/-- The one-time seed of a root seed that is bound to public randomness. -/
def RootSeed.rederive {σ : Type} (provider : Provider σ) (root : RootSeed) (publicRand : Bytes) :
    WalletM σ OneTimeSeed := do
  unless publicRand.length = CryptoScheme.seedLength do
    throw (.invalidParameter (.publicRandLength CryptoScheme.seedLength publicRand.length))
  let keys ← consult (provider.randomize root publicRand)
  unless keys.level = root.level do throw .mismatchedSchemePrivacyLevel
  OneTimeSeed.ofKeys keys (some publicRand)

end RingWallet
