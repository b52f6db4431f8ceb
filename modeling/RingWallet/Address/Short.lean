import RingWallet.Address.Application

/-!
# Short addresses

A short address refers to an application address by the fingerprint of its coin address and the
SHA-256 of its bytes, behind a small header. The header has two versions, told apart by the total
length. Version one folds the network into its second byte; version two packs version, network,
scheme and level into two bytes:

```text
first byte   version (bits 0-3)  network (bits 4-7)
second byte  reserved (bits 0-3)  scheme (bits 4-5)  level (bits 6-7)
```

A version-two header whose second byte is zero records a version only.
-/

set_option autoImplicit false

namespace RingWallet

/-- The packed fields of a version-two header. -/
structure ShortMetadata where
  version : UInt8
  network : Network
  scheme : CryptoScheme
  level : PrivacyLevel
  deriving DecidableEq

namespace ShortMetadata

/-- The version that new headers carry. -/
abbrev currentVersion : UInt8 := 1

/-- The two bytes of the packed fields. -/
def bytes (metadata : ShortMetadata) : UInt8 × UInt8 :=
  ((metadata.version &&& (0x0F : UInt8)) ||| metadata.network.code <<< (4 : UInt8),
    metadata.scheme.code.toUInt8 <<< (4 : UInt8) ||| metadata.level.code <<< (6 : UInt8))

/-- The packed fields that two bytes hold. -/
def ofBytes (first second : UInt8) : Except WalletError ShortMetadata :=
  let version : UInt8 := first &&& 0x0F
  if version ≠ currentVersion then .error (.invalidAddress (.shortVersion version))
  else if (second &&& 0x0F) ≠ 0 then .error (.invalidAddress .shortReservedBits)
  else match Network.ofCode? (first >>> 4) with
  | none => .error (.invalidAddress (.unknownNetwork (first >>> 4)))
  | some network =>
    match CryptoScheme.ofCode? ((second >>> 4) &&& 0x03).toUInt32 with
    | none => .error .invalidCryptoScheme
    | some scheme =>
      match PrivacyLevel.ofCode? (second >>> 6) with
      | none => .error .invalidPrivacyLevel
      | some level =>
        if scheme.supports level then .ok ⟨version, network, scheme, level⟩
        else .error .invalidCryptoScheme

end ShortMetadata

/-- What the header of a short address records. -/
inductive ShortHeader
  | v1 (network : Network)
  | v2 (metadata : ShortMetadata)
  | v2Unspecified (version : UInt8)
  deriving DecidableEq

namespace ShortHeader

/-- The first byte of every short address. -/
abbrev mark : UInt8 := 0xAB

/-- The second byte of a version-one header of the first network. -/
abbrev v1Base : UInt8 := 0xE1

/-- The second byte of a version-two header. -/
abbrev v2Marker : UInt8 := 0xE0

/-- The bytes of a header. -/
def bytes : ShortHeader → Bytes
  | v1 network => [mark, v1Base + network.code]
  | v2 metadata => [mark, v2Marker, metadata.bytes.1, metadata.bytes.2]
  | v2Unspecified version => [mark, v2Marker, version, 0]

/-- The network a header records. -/
def network? : ShortHeader → Option Network
  | v1 network => some network
  | v2 metadata => some metadata.network
  | v2Unspecified _ => none

/-- The version-two header that two metadata bytes make. -/
def ofMetadata (first second : UInt8) : Except WalletError ShortHeader :=
  if second = 0 then
    if first = ShortMetadata.currentVersion then .ok (v2Unspecified first)
    else .error (.invalidAddress (.shortMetadata first second))
  else (ShortMetadata.ofBytes first second).map v2

/-- The network that the second byte of a version-one header stands for. -/
def networkOfV1Byte? (byte : UInt8) : Option Network :=
  if byte < v1Base then none else Network.ofCode? (byte - v1Base)

end ShortHeader

/-- A compact reference to an application address. -/
structure ShortAddress where
  header : ShortHeader
  /-- The fingerprint of the coin address. -/
  fingerprint : Digest
  /-- The SHA-256 of the application address. -/
  hash : Digest
  deriving DecidableEq

namespace ShortAddress

/-- The serialized form. -/
def bytes (short : ShortAddress) : Bytes :=
  short.header.bytes ++ short.fingerprint.toList ++ short.hash.toList

/-- The serialized form in hexadecimal. -/
def toHex (short : ShortAddress) : String := Hex.encode short.bytes

/-- The network that the header records. -/
def network? (short : ShortAddress) : Option Network := short.header.network?

/-- The short address of an application address behind a given header. -/
def ofHeader (header : ShortHeader) (address : AppAddress) : ShortAddress :=
  ⟨header, address.crypto.fingerprint, sha256 address.bytes⟩

/-- The version-one short address. -/
def v1 (address : AppAddress) : ShortAddress := ofHeader (.v1 address.network) address

/-- The version-two short address. -/
def v2 (address : AppAddress) : ShortAddress :=
  ofHeader (.v2 ⟨ShortMetadata.currentVersion, address.network, address.scheme, address.level⟩)
    address

/-- The short address of the version that belongs to the address's scheme. -/
def ofAddress (address : AppAddress) : ShortAddress :=
  match address.scheme with
  | .pqRingCt => v1 address
  | .pqRingCtX => v2 address

/-- The length of a version-one short address. -/
abbrev v1Length : Nat := 66

/-- The length of a version-two short address. -/
abbrev v2Length : Nat := 68

/-- The header in front of the bytes of a short address, and what follows it. -/
def readHeader (data : Bytes) : Except WalletError (ShortHeader × Bytes) :=
  if data.head? ≠ some ShortHeader.mark then .error (.invalidAddress .missingShortMark)
  else match data.drop 1 with
  | second :: behind =>
    if data.length = v1Length then
      match ShortHeader.networkOfV1Byte? second with
      | some network => .ok (.v1 network, behind)
      | none => .error (.invalidAddress (.shortNetworkByte second))
    else if data.length = v2Length then
      if second ≠ ShortHeader.v2Marker then .error (.invalidAddress (.shortMarkerByte second))
      else match behind with
      | low :: high :: rest => (ShortHeader.ofMetadata low high).map (·, rest)
      | _ => .error (.invalidAddress (.shortLength data.length))
    else .error (.invalidAddress (.shortLength data.length))
  | [] => .error (.invalidAddress (.shortLength data.length))

/-- The short address with a given serialized form. -/
def parse (data : Bytes) : Except WalletError ShortAddress := do
  let (header, rest) ← readHeader data
  match FixedBytes.ofList? 32 (rest.take 32), FixedBytes.ofList? 32 (rest.drop 32) with
  | some fingerprint, some hash => return ⟨header, fingerprint, hash⟩
  | _, _ => throw (.invalidAddress (.shortLength data.length))

/-- The short address with a given hexadecimal form. -/
def ofHex (text : String) : Except WalletError ShortAddress := do
  let data ← readHex text
  parse data

/-- Whether a short address refers to an address: the network agrees where the header records one,
and fingerprint and hash are the address's. -/
def refersTo (short : ShortAddress) (address : AppAddress) : Bool :=
  short.network?.all (· == address.network)
    && short.fingerprint == address.crypto.fingerprint
    && short.hash == sha256 address.bytes

end ShortAddress

end RingWallet
