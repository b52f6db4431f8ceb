import RingWallet.Address.Coin

/-!
# Crypto addresses

A coin address in its scheme: the scheme's tag in front and, for full privacy, a view key behind.
The tag and the length of a crypto address are those of its coin address's level
(`CryptoAddress.tag_eq`, `CryptoAddress.length_eq`), so only three combinations exist.
-/

set_option autoImplicit false

namespace RingWallet

/-- A coin address in its scheme. -/
structure CryptoAddress where
  bytes : Bytes
  coin : CoinAddress
  tag_eq : CryptoScheme.ofTag? bytes = some coin.level.scheme
  length_eq : bytes.length = coin.level.cryptoAddressLength
  deriving DecidableEq

namespace CryptoAddress

/-- The privacy level of the address. -/
def level (address : CryptoAddress) : PrivacyLevel := address.coin.level

/-- The scheme of the address. -/
def scheme (address : CryptoAddress) : CryptoScheme := address.level.scheme

/-- The fingerprint of the coin address inside. -/
def fingerprint (address : CryptoAddress) : Digest := address.coin.fingerprint

/-- The length of a crypto address of a scheme and level, where the pair exists. -/
def length? (scheme : CryptoScheme) (level : PrivacyLevel) : Option Nat :=
  if scheme.supports level then some level.cryptoAddressLength else none

/-- Whether some level of the scheme has crypto addresses of a given length. -/
def isPlausibleLength (scheme : CryptoScheme) (length : Nat) : Bool :=
  PrivacyLevel.all.any fun level => length? scheme level == some length

/-- The crypto address of given bytes around a coin address; refuses a tag or a length that is not
the one of the coin address's level. -/
def ofCoin (data : Bytes) (coin : CoinAddress) : Except WalletError CryptoAddress :=
  if htag : CryptoScheme.ofTag? data = some coin.level.scheme then
    if hlength : data.length = coin.level.cryptoAddressLength then .ok ⟨data, coin, htag, hlength⟩
    else .error (.invalidAddress (.cryptoAddressLengthOfLevel coin.level data.length))
  else .error .invalidCryptoScheme

end CryptoAddress

end RingWallet
