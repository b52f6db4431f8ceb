import RingWallet.Address.Crypto
import RingWallet.Digest.Sha3

/-!
# Application addresses

The address shown to users: the network's byte, the crypto address, and the SHA3-256 of both as a
checksum. The bytes follow from network and crypto address, so they are computed and not stored.
-/

set_option autoImplicit false

namespace RingWallet

/-- An address on a network. -/
structure AppAddress where
  network : Network
  crypto : CryptoAddress
  deriving DecidableEq

namespace AppAddress

/-- What the checksum is taken of. -/
def body (address : AppAddress) : Bytes := address.network.code :: address.crypto.bytes

/-- The SHA3-256 of the body. -/
def checksum (address : AppAddress) : Digest := sha3 address.body

/-- The serialized form. -/
def bytes (address : AppAddress) : Bytes := address.body ++ address.checksum.toList

/-- The serialized form in hexadecimal. -/
def toHex (address : AppAddress) : String := Hex.encode address.bytes

/-- The privacy level of the address. -/
def level (address : AppAddress) : PrivacyLevel := address.crypto.level

/-- The scheme of the address. -/
def scheme (address : AppAddress) : CryptoScheme := address.crypto.scheme

/-- The length of an application address of a scheme and level, where the pair exists. -/
def length? (scheme : CryptoScheme) (level : PrivacyLevel) : Option Nat :=
  if scheme.supports level then some level.appAddressLength else none

/-- Whether some level of the scheme has application addresses of a given length. -/
def isPlausibleLength (scheme : CryptoScheme) (length : Nat) : Bool :=
  PrivacyLevel.all.any fun level => length? scheme level == some length

theorem length_bytes (address : AppAddress) :
    address.bytes.length = address.level.appAddressLength := by
  have h := address.crypto.length_eq
  have hsum := address.checksum.length_eq
  simp only [bytes, body, level, CryptoAddress.level, PrivacyLevel.appAddressLength,
    PrivacyLevel.checksumLength, List.cons_append, List.length_cons, List.length_append, h, hsum]
  omega

end AppAddress

end RingWallet
