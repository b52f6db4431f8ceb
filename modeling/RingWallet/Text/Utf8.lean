import RingWallet.Hex

/-!
# Reading UTF-8

A byte string is read as a list of symbols: characters where the encoding of a character stands, and
a hole for every byte that belongs to none. A text is a byte string without holes.
-/

set_option autoImplicit false

namespace RingWallet.Text

/-- A character, or a hole for a byte that belongs to none. -/
abbrev Symbol := Option Char

/-- The length that the first byte of an encoded character tells. -/
def encodedLength (lead : UInt8) : Nat :=
  if lead < 0x80 then 1 else if lead < 0xE0 then 2 else if lead < 0xF0 then 3 else 4

/-- The number that the bytes of an encoded character carry, six bits in each byte but the first. -/
def codePoint : Bytes → Nat
  | [] => 0
  | lead :: rest =>
    let bits := match rest.length with
      | 0 => lead.toNat
      | 1 => lead.toNat % 32
      | 2 => lead.toNat % 16
      | _ => lead.toNat % 8
    rest.foldl (fun acc b => acc * 64 + b.toNat % 64) bits

/-- The character whose encoding is a given byte string. -/
def ofEncoded? (encoded : Bytes) : Option Char :=
  let code := codePoint encoded
  if code.isValidChar && String.utf8EncodeChar (Char.ofNat code) == encoded then
    some (Char.ofNat code)
  else none

/-- The symbols of a byte string. The first argument bounds the number of steps; the length of the
byte string is always enough. -/
def symbolsUpTo : Nat → Bytes → List Symbol
  | 0, _ | _, [] => []
  | steps + 1, lead :: rest =>
    let length := encodedLength lead
    match ofEncoded? ((lead :: rest).take length) with
    | some c => some c :: symbolsUpTo steps ((lead :: rest).drop length)
    | none => none :: symbolsUpTo steps rest

/-- The symbols of a byte string. -/
def symbols (data : Bytes) : List Symbol := symbolsUpTo data.length data

/-- The symbols of a text. -/
def symbolsOf (text : String) : List Symbol := text.toList.map some

/-- The text that symbols spell, if there is no hole among them. -/
def spell? (symbols : List Symbol) : Option String := (symbols.mapM id).map String.ofList

/-- The text whose encoding is a given byte string. -/
def ofUtf8? (data : Bytes) : Option String := spell? (symbols data)

theorem spell?_symbolsOf (text : String) : spell? (symbolsOf text) = some text := by
  have h : ∀ cs : List Char, List.mapM id (cs.map some) = some cs := fun cs => by
    induction cs with
    | nil => rfl
    | cons c cs ih => simp [ih]
  simp [spell?, symbolsOf, h]

end RingWallet.Text
