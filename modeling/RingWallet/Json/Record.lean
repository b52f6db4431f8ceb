import RingWallet.Json.Tree

/-!
# Records in JSON text

A record has named fields in a fixed order. It may be written as an object, with its fields in any
order and other fields among them, or as an array of its fields in order. An object must not name a
field twice, but what stands in a field that the record does not have is not looked at. A missing
field is an error unless the record says what it means.
-/

set_option autoImplicit false

namespace RingWallet

/-- What the readers of field values are. -/
abbrev JsonDecoder (α : Type) := JsonTree → Option α

/-- The written fields of a record. -/
structure JsonRecord where
  values : List (String × JsonTree)
  /-- Whether the record is written as an array. -/
  isPositional : Bool

namespace JsonRecord

/-- The fields of an object that have one of the given names; nothing if a name cannot be read or a
given name occurs twice. -/
def select (names : List String) :
    List (Option String × JsonTree) → Option (List (String × JsonTree))
  | [] => some []
  | (name?, value) :: rest => do
    let name ← name?
    let others ← select names rest
    if names.contains name then
      if others.any (·.1 == name) then none else return (name, value) :: others
    else return others

/-- The fields of a record with given field names. -/
def ofTree? (names : List String) : JsonTree → Option JsonRecord
  | .object fields => (select names fields).map (⟨·, false⟩)
  | .array items =>
    if items.length ≤ names.length then some ⟨names.zip items, true⟩ else none
  | _ => none

/-- What is written for a field. -/
def find? (record : JsonRecord) (name : String) : Option JsonTree :=
  (record.values.find? (·.1 == name)).map Prod.snd

variable {α : Type}

/-- A field that must be there. -/
def required (record : JsonRecord) (name : String) (decode : JsonDecoder α) : Option α :=
  record.find? name >>= decode

/-- A field that means a given value if it is missing. -/
def withDefault (record : JsonRecord) (name : String) (default : α) (decode : JsonDecoder α) :
    Option α :=
  match record.find? name with
  | some tree => decode tree
  | none => some default

/-- A value that may be null, in a field that may be missing from an object. -/
def optional (record : JsonRecord) (name : String) (decode : JsonDecoder α) :
    Option (Option α) :=
  match record.find? name with
  | some .null => some none
  | some tree => (decode tree).map some
  | none => if record.isPositional then none else some none

end JsonRecord

namespace JsonDecoder

/-! ## Field values -/

/-- A truth value. -/
def bool : JsonDecoder Bool
  | .bool value => some value
  | _ => none

/-- Null. -/
def unit : JsonDecoder Unit
  | .null => some ()
  | _ => none

/-- A text. -/
def text : JsonDecoder String
  | .string text? => text?
  | _ => none

/-- A whole number below a bound. -/
def natBelow (bound : Nat) : JsonDecoder Nat
  | .number (some (.natural n)) => if n.toNat < bound then some n.toNat else none
  | _ => none

/-- A whole number of eight bits. -/
def uint8 : JsonDecoder UInt8 := fun tree => (natBelow UInt8.size tree).map UInt8.ofNat

/-- A whole number of 32 bits. -/
def uint32 : JsonDecoder UInt32 := fun tree => (natBelow UInt32.size tree).map UInt32.ofNat

/-- A whole number of 64 bits. -/
def uint64 : JsonDecoder UInt64
  | .number (some (.natural n)) => some n
  | _ => none

/-- A whole number of 64 bits that may be negative. -/
def int64 : JsonDecoder Int64
  | .number (some (.natural n)) => if n.toNat < 0x8000000000000000 then some n.toInt64 else none
  | .number (some (.negative n)) => some n
  | _ => none

/-- A number as a floating-point number, by its bits. -/
def real : JsonDecoder UInt64
  | .number (some (.natural n)) => some n.toFloat.toBits
  | .number (some (.negative n)) => some n.toFloat.toBits
  | .number (some (.real bits)) => some bits
  | _ => none

variable {α : Type}

/-- An array of values. -/
def list (decode : JsonDecoder α) : JsonDecoder (List α)
  | .array items => items.mapM decode
  | _ => none

/-- A value or null. -/
def nullable (decode : JsonDecoder α) : JsonDecoder (Option α)
  | .null => some none
  | tree => (decode tree).map some

/-- A text that a further reader accepts. -/
def textWith {ε : Type} (parse : String → Except ε α) : JsonDecoder α := fun tree => do
  match parse (← text tree) with
  | .ok value => return value
  | .error _ => none

/-- A byte string in hexadecimal. -/
def hexBytes : JsonDecoder Bytes := textWith Hex.decode

/-- Reads a whole text. -/
def readText (decode : JsonDecoder α) (source : String) : Option α :=
  JsonTree.read (Text.symbolsOf source) >>= decode

end JsonDecoder

/-- Types whose values have a record. -/
class Recorded (α : Type) where
  /-- The record of a value. -/
  toJson : α → Json
  /-- Reads a record. -/
  decode : JsonDecoder α

end RingWallet
