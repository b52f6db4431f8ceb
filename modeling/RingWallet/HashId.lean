import RingWallet.Digest
import RingWallet.Hex
import RingWallet.OrderedMap

/-!
# Identifiers of 32 bytes

Transactions, blocks and rings are named by 32 bytes each. The three kinds of identifier share all
operations but are different types, so one cannot stand for another. They are shown in lower-case
hexadecimal, in the byte order of the node, and are ordered by their bytes.
-/

set_option autoImplicit false

namespace RingWallet

/-- What an identifier names. -/
inductive IdKind
  | transaction
  | block
  | ring
  deriving DecidableEq, Repr

/-- The name of the identifier type in messages. -/
def IdKind.name : IdKind → String
  | transaction => "TxId"
  | block => "BlockHash"
  | ring => "RingId"

/-- An identifier of one kind. -/
structure HashId (kind : IdKind) where
  digest : Digest
  deriving DecidableEq

/-- The identifier of a transaction. -/
abbrev TxId := HashId .transaction

/-- The identifier of a block. -/
abbrev BlockHash := HashId .block

/-- The identifier of a ring: the SHA-256 of its serialized form. -/
abbrev RingId := HashId .ring

namespace HashId

variable {kind : IdKind}

/-- The bytes of an identifier. -/
def bytes (id : HashId kind) : Bytes := id.digest.toList

/-- The identifier with given bytes, if they are 32. -/
def ofBytes? (kind : IdKind) (data : Bytes) : Option (HashId kind) :=
  (FixedBytes.ofList? 32 data).map HashId.mk

/-- The identifier of 32 zero bytes. -/
def zero (kind : IdKind) : HashId kind := ⟨FixedBytes.replicate 32 0⟩

/-- An identifier in hexadecimal. -/
def toHex (id : HashId kind) : String := Hex.encode id.bytes

/-- An identifier with its kind, for diagnostics. -/
def describe (id : HashId kind) : String := kind.name ++ "(" ++ id.toHex ++ ")"

@[simp] theorem length_bytes (id : HashId kind) : id.bytes.length = 32 := id.digest.length_eq

theorem bytes_injective {a b : HashId kind} (h : a.bytes = b.bytes) : a = b := by
  cases a; cases b; exact congrArg HashId.mk (FixedBytes.ext h)

theorem ofBytes?_bytes (id : HashId kind) : ofBytes? kind id.bytes = some id := by
  simp [ofBytes?, bytes, FixedBytes.ofList?_toList]

/-- Identifiers are ordered by their bytes. -/
instance : OrderKey (HashId kind) where
  key id := id.bytes.map UInt8.toNat
  key_injective _ _ h := bytes_injective ((List.map_inj_right fun _ _ => UInt8.toNat.inj).mp h)

end HashId

end RingWallet
