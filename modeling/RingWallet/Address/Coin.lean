import RingWallet.Digest.Sha256
import RingWallet.Error

/-!
# Coin addresses

The innermost address. Its length tells its privacy level, and its SHA-256 is its fingerprint.
-/

set_option autoImplicit false

namespace RingWallet

/-- An address that outputs are paid to. -/
structure CoinAddress where
  level : PrivacyLevel
  bytes : Bytes
  length_eq : bytes.length = level.coinAddressLength
  deriving DecidableEq

namespace CoinAddress

/-- The coin address with given bytes, whose length tells the level. -/
def ofBytes (data : Bytes) : Except WalletError CoinAddress :=
  if h : data.length = PrivacyLevel.ringCtPre.coinAddressLength then .ok ⟨.ringCtPre, data, h⟩
  else if h : data.length = PrivacyLevel.ringCt.coinAddressLength then .ok ⟨.ringCt, data, h⟩
  else if h : data.length = PrivacyLevel.pseudonym.coinAddressLength then
    .ok ⟨.pseudonym, data, h⟩
  else .error (.invalidAddress (.coinAddressLength data.length))

/-- The SHA-256 of the address. -/
def fingerprint (address : CoinAddress) : Digest := sha256 address.bytes

end CoinAddress

end RingWallet
