import RingWallet.Digest.Sha256
import RingWallet.Records

/-!
# Views of values

A view shows a value as JSON, for people and programs that look into a wallet. Names are shown as
they are written, scheme and level by number, and missing values as null. Long byte strings are
shown by length and SHA-256, and floating-point numbers by their bits, so that a view is short and
never rounds.
-/

set_option autoImplicit false

namespace RingWallet

/-- Types whose values have a view. -/
class Inspect (α : Type) where
  /-- The view of a value. -/
  view : α → Json

export Inspect (view)

namespace Inspect

/-- The longest byte string that is shown in full. -/
def shownInFull : Nat := 512

/-- A byte string in hexadecimal, or its length and SHA-256. -/
def bytes (data : Bytes) : Json :=
  if data.length ≤ shownInFull then .string (Hex.encode data)
  else .object [("len", .ofNat data.length), ("sha256", .string (Hex.encode (sha256 data).toList))]

/-- A floating-point number by its bits. -/
def real (bits : UInt64) : Json := .object [("f64", .string (Text.hexPadded 16 bits.toNat))]

instance : Inspect Bool := ⟨.bool⟩
instance : Inspect String := ⟨.string⟩
instance : Inspect Nat := ⟨.ofNat⟩
instance : Inspect UInt8 := ⟨.ofUInt8⟩
instance : Inspect UInt32 := ⟨.ofUInt32⟩
instance : Inspect UInt64 := ⟨.ofUInt64⟩
instance : Inspect Int64 := ⟨.ofInt64⟩
instance : Inspect Unit := ⟨fun _ => .null⟩

instance {α : Type} [Inspect α] : Inspect (Option α) := ⟨Json.ofOption view⟩
instance {α : Type} [Inspect α] : Inspect (List α) := ⟨Json.ofList view⟩

instance {α β : Type} [Inspect α] [Inspect β] : Inspect (α × β) :=
  ⟨fun pair => .array [view pair.1, view pair.2]⟩

instance (priority := 2000) : Inspect Bytes := ⟨bytes⟩
instance {n : Nat} : Inspect (FixedBytes n) := ⟨fun field => bytes field.toList⟩
instance {kind : IdKind} : Inspect (HashId kind) := ⟨fun id => .string id.toHex⟩
instance : Inspect CoinId := ⟨fun coin => .string coin.display⟩
instance : Inspect AccountId := ⟨fun account => view account.number⟩

mutual

/-- A value whose floating-point numbers are shown by their bits. -/
def exact : Json → Json
  | .number (.real bits) => real bits
  | .array items => .array (exactItems items)
  | .object fields => .object (exactFields fields)
  | .null => .null
  | .bool value => .bool value
  | .string text => .string text
  | .number value => .number value

/-- The items of an array, shown exactly. -/
def exactItems : List Json → List Json
  | [] => []
  | item :: rest => exact item :: exactItems rest

/-- The fields of an object, shown exactly. -/
def exactFields : List (String × Json) → List (String × Json)
  | [] => []
  | (name, value) :: rest => (name, exact value) :: exactFields rest

end

instance : Inspect Json := ⟨exact⟩

end Inspect

end RingWallet
