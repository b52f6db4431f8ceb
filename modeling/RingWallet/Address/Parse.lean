import RingWallet.Provider

/-!
# Reading addresses

Tag, length, network and checksum are checked before the provider is asked to take an address
apart, and the provider's answer is checked against the table of lengths.
-/

set_option autoImplicit false

namespace RingWallet

variable {σ : Type}

/-- Reads a crypto address. -/
def CryptoAddress.parse (provider : Provider σ) (data : Bytes) : WalletM σ CryptoAddress := do
  let some scheme := CryptoScheme.ofTag? data | throw .invalidCryptoScheme
  unless isPlausibleLength scheme data.length do
    throw (.invalidAddress (.cryptoAddressLength data.length scheme))
  let (level, coinBytes) ← consult (provider.splitAddress data)
  let coin ← CoinAddress.ofBytes coinBytes
  unless coin.level = level do
    throw (.invalidAddress (.levelMismatch coin.level level))
  ofCoin data coin

namespace AppAddress

/-- The network and the crypto address bytes of a serialized application address, after the checks
that need no provider. -/
def splitChecked (data : Bytes) : Except WalletError (Network × Bytes) :=
  match data with
  | [] => .error (.invalidAddress (.tooShort 0))
  | code :: behind =>
    if data.length < 1 + CryptoScheme.tagLength + PrivacyLevel.checksumLength then
      .error (.invalidAddress (.tooShort data.length))
    else match Network.ofCode? code with
    | none => .error (.invalidAddress (.unknownNetwork code))
    | some network =>
      match CryptoScheme.ofTag? behind with
      | none => .error .invalidCryptoScheme
      | some scheme =>
        let bodyLength := data.length - PrivacyLevel.checksumLength
        if !isPlausibleLength scheme data.length then
          .error (.invalidAddress (.appAddressLength data.length scheme))
        else if (sha3 (data.take bodyLength)).toList ≠ data.drop bodyLength then
          .error (.invalidAddress .checksumMismatch)
        else .ok (network, behind.take (bodyLength - 1))

/-- Reads an application address; the provider must find its crypto address well formed. -/
def parse (provider : Provider σ) (data : Bytes) : WalletM σ AppAddress := do
  let (network, cryptoBytes) ← splitChecked data
  let crypto ← CryptoAddress.parse provider cryptoBytes
  unless ← consult (provider.validateAddress crypto.bytes) do
    throw (.invalidAddress .malformedCryptoAddress)
  return ⟨network, crypto⟩

/-- Reads an application address in hexadecimal. -/
def ofHex (provider : Provider σ) (text : String) : WalletM σ AppAddress := do
  let data ← readHex text
  parse provider data

end AppAddress

end RingWallet
