import RingWallet.Json.Token

/-!
# The shape of JSON text

A text is one value and nothing behind it. The shape keeps what is written: keys may repeat, and a
word without a value keeps its place. `Json` is the settled form, in which every word has a value
and no key repeats; of repeated keys the last value counts (`JsonTree.settle`).
-/

set_option autoImplicit false

namespace RingWallet

open Text (Symbol)

/-- A JSON text as it is written. -/
inductive JsonTree
  | null
  | bool (value : Bool)
  | number (value? : Option JsonNumber)
  | string (text? : Option String)
  | array (items : List JsonTree)
  | object (fields : List (Option String × JsonTree))

/-- A JSON value. -/
inductive Json
  | null
  | bool (value : Bool)
  | number (value : JsonNumber)
  | string (text : String)
  | array (items : List Json)
  | object (fields : List (String × Json))
  deriving Inhabited

namespace JsonTree

/-! ## Reading -/

mutual

/-- The value in front of words, and what follows it. -/
def readValue : Nat → List JsonToken → Option (JsonTree × List JsonToken)
  | 0, _ => none
  | steps + 1, tokens =>
    match tokens with
    | .null :: rest => some (null, rest)
    | .bool value :: rest => some (bool value, rest)
    | .number value? :: rest => some (number value?, rest)
    | .string text? :: rest => some (string text?, rest)
    | .openArray :: .closeArray :: rest => some (array [], rest)
    | .openArray :: rest => do
      let (items, left) ← readItems steps rest
      return (array items, left)
    | .openObject :: .closeObject :: rest => some (object [], rest)
    | .openObject :: rest => do
      let (fields, left) ← readFields steps rest
      return (object fields, left)
    | _ => none

/-- One or more values between commas, up to the bracket that closes an array. -/
def readItems : Nat → List JsonToken → Option (List JsonTree × List JsonToken)
  | 0, _ => none
  | steps + 1, tokens => do
    let (item, rest) ← readValue steps tokens
    match rest with
    | .closeArray :: left => return ([item], left)
    | .comma :: rest =>
      let (items, left) ← readItems steps rest
      return (item :: items, left)
    | _ => none

/-- One or more fields between commas, up to the brace that closes an object. -/
def readFields : Nat → List JsonToken → Option (List (Option String × JsonTree) × List JsonToken)
  | 0, _ => none
  | steps + 1, tokens =>
    match tokens with
    | .string name? :: .colon :: rest => do
      let (value, rest) ← readValue steps rest
      match rest with
      | .closeObject :: left => return ([(name?, value)], left)
      | .comma :: rest =>
        let (fields, left) ← readFields steps rest
        return ((name?, value) :: fields, left)
      | _ => none
    | _ => none

end

/-- The shape of a text. -/
def read (text : List Symbol) : Option JsonTree := do
  let tokens ← JsonToken.all text
  match ← readValue (2 * tokens.length + 1) tokens with
  | (tree, []) => return tree
  | _ => none

/-! ## Settling -/

/-- Puts a value at a name, in place of an earlier one. -/
def setField (name : String) (value : Json) : List (String × Json) → List (String × Json)
  | [] => [(name, value)]
  | field :: rest =>
    if field.1 = name then (name, value) :: rest else field :: setField name value rest

mutual

/-- The settled form; nothing if a word has no value, or if more than `depth` lists and objects
stand inside each other. -/
def settle (depth : Nat) : JsonTree → Option Json
  | null => some .null
  | bool value => some (.bool value)
  | number value? => value?.map .number
  | string text? => text?.map .string
  | array items =>
    match depth with
    | 0 => none
    | depth + 1 => (settleItems depth items).map .array
  | object fields =>
    match depth with
    | 0 => none
    | depth + 1 => (settleFields depth fields []).map .object

/-- The settled forms of the items of an array. -/
def settleItems (depth : Nat) : List JsonTree → Option (List Json)
  | [] => some []
  | item :: rest => do
    let first ← settle depth item
    let others ← settleItems depth rest
    return first :: others

/-- The settled fields of an object, added to those before them. -/
def settleFields (depth : Nat) : List (Option String × JsonTree) → List (String × Json) →
    Option (List (String × Json))
  | [], before => some before
  | (name?, value) :: rest, before => do
    let name ← name?
    let settled ← settle depth value
    settleFields depth rest (setField name settled before)

end

end JsonTree

namespace Json

mutual

/-- A value as a text that writes it. -/
def toTree : Json → JsonTree
  | null => .null
  | bool value => .bool value
  | number value => .number (some value)
  | string text => .string (some text)
  | array items => .array (itemTrees items)
  | object fields => .object (fieldTrees fields)

/-- The items of an array as texts. -/
def itemTrees : List Json → List JsonTree
  | [] => []
  | item :: rest => toTree item :: itemTrees rest

/-- The fields of an object as texts. -/
def fieldTrees : List (String × Json) → List (Option String × JsonTree)
  | [] => []
  | (name, value) :: rest => (some name, toTree value) :: fieldTrees rest

end

/-- A whole number. -/
def ofUInt64 (n : UInt64) : Json := number (.natural n)

/-- A count. -/
def ofNat (n : Nat) : Json := ofUInt64 (UInt64.ofNat n)

/-- A whole number of eight bits. -/
def ofUInt8 (n : UInt8) : Json := ofUInt64 n.toUInt64

/-- A whole number of 32 bits. -/
def ofUInt32 (n : UInt32) : Json := ofUInt64 n.toUInt64

/-- A whole number that may be negative. -/
def ofInt64 (n : Int64) : Json :=
  if n < 0 then number (.negative n) else number (.natural n.toUInt64)

/-- A value or null. -/
def ofOption {α : Type} (encode : α → Json) : Option α → Json
  | some value => encode value
  | none => null

/-- An array. -/
def ofList {α : Type} (encode : α → Json) (values : List α) : Json := array (values.map encode)

end Json

end RingWallet
