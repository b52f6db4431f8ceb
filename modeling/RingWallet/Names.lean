import RingWallet.Error

/-!
# Reading names and numbers

Identifiers from bytes or hexadecimal text, networks from numbers or names, and schemes and levels
from numbers, each with the wallet's failure for what names nothing.
-/

set_option autoImplicit false

namespace RingWallet

namespace HashId

/-- The identifier with given bytes. -/
def ofBytes (kind : IdKind) (data : Bytes) : Except WalletError (HashId kind) :=
  match ofBytes? kind data with
  | some id => .ok id
  | none => .error (.invalidParameter (.idLength kind data.length))

/-- The identifier that a hexadecimal text spells. -/
def ofHex (kind : IdKind) (text : String) : Except WalletError (HashId kind) := do
  let data ← readHex text
  ofBytes kind data

end HashId

/-- The network with a given number. -/
def Network.ofCode (code : UInt8) : Except WalletError Network :=
  match Network.ofCode? code with
  | some network => .ok network
  | none => .error (.invalidParameter (.unknownNetworkCode code))

/-- The network with a given name. -/
def Network.ofName (name : String) : Except WalletError Network :=
  match Network.ofName? name with
  | some network => .ok network
  | none => .error (.invalidParameter (.unknownNetworkName name))

/-- The scheme with a given number. -/
def CryptoScheme.ofCode (code : UInt32) : Except WalletError CryptoScheme :=
  match CryptoScheme.ofCode? code with
  | some scheme => .ok scheme
  | none => .error .invalidCryptoScheme

/-- The privacy level with a given number. -/
def PrivacyLevel.ofCode (code : UInt8) : Except WalletError PrivacyLevel :=
  match PrivacyLevel.ofCode? code with
  | some level => .ok level
  | none => .error .invalidPrivacyLevel

/-- The account level with a given number. -/
def AccountLevel.ofCode (code : UInt8) : Except WalletError AccountLevel :=
  match AccountLevel.ofCode? code with
  | some level => .ok level
  | none => .error .invalidPrivacyLevel

end RingWallet
