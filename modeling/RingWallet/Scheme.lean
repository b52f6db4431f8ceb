import RingWallet.Bytes

/-!
# Crypto schemes and privacy levels

There are two schemes and three privacy levels. A level belongs to exactly one scheme
(`PrivacyLevel.scheme`), so the pairs a wallet supports are the graph of that function. All lengths
of seed fields and addresses are functions of the level alone.
-/

set_option autoImplicit false

namespace RingWallet

/-- The scheme a key hierarchy belongs to. -/
inductive CryptoScheme
  /-- The legacy scheme: full privacy only, no detector key, keys for one use. -/
  | pqRingCt
  /-- The current scheme, with root seeds and pseudonymous accounts. -/
  | pqRingCtX
  deriving DecidableEq, Repr

/-- The privacy of keys, addresses and outputs. -/
inductive PrivacyLevel
  /-- Full privacy under the legacy scheme. -/
  | ringCtPre
  /-- Full privacy: unlinkable spends and hidden values. -/
  | ringCt
  /-- Open values and linkable spends. -/
  | pseudonym
  deriving DecidableEq, Repr

namespace CryptoScheme

/-- The number that stands for a scheme in every format. -/
def code : CryptoScheme → UInt32
  | pqRingCt => 0
  | pqRingCtX => 1

/-- The scheme with a given number. -/
def ofCode? (code : UInt32) : Option CryptoScheme :=
  if code = 0 then some pqRingCt else if code = 1 then some pqRingCtX else none

/-- The name shown to users. -/
def name : CryptoScheme → String
  | pqRingCt => "pqringct"
  | pqRingCtX => "pqringctx"

/-- The name shown in diagnostics. -/
def label : CryptoScheme → String
  | pqRingCt => "PqRingCt"
  | pqRingCtX => "PqRingCtX"

/-- The four-byte tag in front of seeds and addresses. -/
def tag (scheme : CryptoScheme) : Bytes := Bytes.ofUInt32 scheme.code

/-- The length of a tag. -/
abbrev tagLength : Nat := 4

/-- The scheme whose tag stands in front of a byte string. -/
def ofTag? (data : Bytes) : Option CryptoScheme :=
  if data.length < tagLength then none
  else ofCode? (UInt32.ofNat (Bytes.toNatLE (data.take tagLength)))

/-- Whether serialized material of the scheme carries a byte for the privacy level. -/
def hasLevelByte : CryptoScheme → Bool
  | pqRingCt => false
  | pqRingCtX => true

/-- The length of every seed field and detector key. -/
abbrev seedLength : Nat := 64

/-- The length of the public randomness that binds a one-time seed, for schemes that have any. -/
def publicRandLength? : CryptoScheme → Option Nat
  | pqRingCt => none
  | pqRingCtX => some seedLength

theorem ofCode?_code (scheme : CryptoScheme) : ofCode? scheme.code = some scheme := by
  cases scheme <;> rfl

theorem ofTag?_tag_append (scheme : CryptoScheme) (rest : Bytes) :
    ofTag? (scheme.tag ++ rest) = some scheme := by
  cases scheme <;>
    simp [ofTag?, tag, tagLength, Bytes.ofUInt32, code, Bytes.ofNatLE, Bytes.toNatLE, ofCode?]

end CryptoScheme

namespace PrivacyLevel

/-- The one scheme a level is defined under. -/
def scheme : PrivacyLevel → CryptoScheme
  | ringCtPre => .pqRingCt
  | ringCt | pseudonym => .pqRingCtX

/-- The number that stands for a level in every format. -/
def code : PrivacyLevel → UInt8
  | ringCtPre => 0
  | ringCt => 1
  | pseudonym => 2

/-- The level with a given number. -/
def ofCode? (code : UInt8) : Option PrivacyLevel :=
  if code = 0 then some ringCtPre
  else if code = 1 then some ringCt
  else if code = 2 then some pseudonym
  else none

/-- The name shown to users. -/
def name : PrivacyLevel → String
  | ringCtPre => "full-privacy-pre"
  | ringCt => "full-privacy"
  | pseudonym => "pseudonym"

/-- The name shown in diagnostics. -/
def label : PrivacyLevel → String
  | ringCtPre => "RingCtPre"
  | ringCt => "RingCt"
  | pseudonym => "Pseudonym"

/-- Whether outputs of the level have open values. -/
def isPseudonym (level : PrivacyLevel) : Bool := level == pseudonym

/-- Whether outputs of the level have hidden values. -/
def isFullPrivacy (level : PrivacyLevel) : Bool := !level.isPseudonym

/-- The number of key seed fields. -/
def fieldCount : PrivacyLevel → Nat
  | ringCtPre => 2
  | ringCt => 4
  | pseudonym => 2

/-- The bytes in front of serialized material: the scheme's tag and, where the scheme has one,
the level byte. -/
def header (level : PrivacyLevel) : Bytes :=
  level.scheme.tag ++ if level.scheme.hasLevelByte then [level.code] else []

/-- The length of a coin address. -/
def coinAddressLength : PrivacyLevel → Nat
  | ringCtPre => 9504
  | ringCt => 9633
  | pseudonym => 193

/-- The length of a crypto address. -/
def cryptoAddressLength : PrivacyLevel → Nat
  | ringCtPre => 10696
  | ringCt => 10826
  | pseudonym => 198

/-- The length of the checksum that ends an application address. -/
abbrev checksumLength : Nat := 32

/-- The length of an application address: network, crypto address and checksum. -/
def appAddressLength (level : PrivacyLevel) : Nat :=
  1 + level.cryptoAddressLength + checksumLength

/-- Every level. -/
def all : List PrivacyLevel := [ringCtPre, ringCt, pseudonym]

theorem ofCode?_code (level : PrivacyLevel) : ofCode? level.code = some level := by
  cases level <;> rfl

theorem mem_all (level : PrivacyLevel) : level ∈ all := by cases level <;> simp [all]

end PrivacyLevel

/-- Whether a level is defined under a scheme. -/
def CryptoScheme.supports (scheme : CryptoScheme) (level : PrivacyLevel) : Bool :=
  level.scheme == scheme

/-- The privacy chosen when an account is made. -/
inductive AccountLevel
  /-- A legacy account with full privacy and a single address. -/
  | fullPrivacyOld
  | fullPrivacy
  | pseudonym
  deriving DecidableEq, Repr

namespace AccountLevel

/-- The number that stands for an account level in every format. -/
def code : AccountLevel → UInt8
  | fullPrivacyOld => 0
  | fullPrivacy => 1
  | pseudonym => 2

/-- The account level with a given number. -/
def ofCode? (code : UInt8) : Option AccountLevel :=
  if code = 0 then some fullPrivacyOld
  else if code = 1 then some fullPrivacy
  else if code = 2 then some pseudonym
  else none

/-- The name shown in diagnostics. -/
def label : AccountLevel → String
  | fullPrivacyOld => "FullPrivacyOld"
  | fullPrivacy => "FullPrivacy"
  | pseudonym => "Pseudonym"

/-- The privacy level of the account's keys. -/
def privacyLevel : AccountLevel → PrivacyLevel
  | fullPrivacyOld => .ringCtPre
  | fullPrivacy => .ringCt
  | pseudonym => .pseudonym

/-- The scheme of the account's keys. -/
def scheme (level : AccountLevel) : CryptoScheme := level.privacyLevel.scheme

end AccountLevel

end RingWallet
