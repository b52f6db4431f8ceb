import RingWallet.Json.Number
import RingWallet.Text.Utf8

/-!
# Words of JSON text

The text is cut into punctuation, literals, numbers and strings; blanks separate them. A string or a
number may be well written and still stand for nothing, a string with half of a surrogate pair or a
number that is too large. Such a word is kept without a value, so that it is an error only where its
value is needed.
-/

set_option autoImplicit false

namespace RingWallet

open Text (Symbol)

/-- A word of JSON text. -/
inductive JsonToken
  | openObject
  | closeObject
  | openArray
  | closeArray
  | colon
  | comma
  | null
  | bool (value : Bool)
  | number (value? : Option JsonNumber)
  | string (text? : Option String)
  deriving DecidableEq

namespace JsonToken

/-! ## Numbers -/

/-- The value of a decimal digit. -/
def digit? : Symbol → Option Nat
  | some c => if '0' ≤ c ∧ c ≤ '9' then some (c.toNat - '0'.toNat) else none
  | none => none

/-- The digits in front of a text, and what follows them. -/
def digits : List Symbol → List Nat × List Symbol
  | [] => ([], [])
  | symbol :: rest =>
    match digit? symbol with
    | none => ([], symbol :: rest)
    | some d =>
      let (others, left) := digits rest
      (d :: others, left)

/-- The number that decimal digits make. -/
def ofDigits (digits : List Nat) : Nat := digits.foldl (fun n d => n * 10 + d) 0

/-- The fraction in front of a text: a point and at least one digit, or nothing. -/
def fraction : List Symbol → Option (Option (List Nat) × List Symbol)
  | some '.' :: rest =>
    match digits rest with
    | ([], _) => none
    | (found, left) => some (some found, left)
  | rest => some (none, rest)

/-- The sign in front of an exponent: whether it is negative. -/
def exponentSign : List Symbol → Bool × List Symbol
  | some '+' :: rest => (false, rest)
  | some '-' :: rest => (true, rest)
  | rest => (false, rest)

/-- The exponent in front of a text: a letter, perhaps a sign, and a digit or more; or nothing. -/
def exponent : List Symbol → Option (Option Int × List Symbol)
  | some 'e' :: rest | some 'E' :: rest =>
    let (isNegative, rest) := exponentSign rest
    match digits rest with
    | ([], _) => none
    | (found, left) =>
      let size : Int := ofDigits found
      some (some (if isNegative then -size else size), left)
  | rest => some (none, rest)

/-- The number in front of a text behind its sign. The whole part has no needless zero in front. -/
def unsignedNumber (isNegative : Bool) (text : List Symbol) :
    Option (NumberText × List Symbol) := do
  let (whole, rest) := digits text
  match whole with
  | [] => none
  | 0 :: _ :: _ => none
  | _ =>
    let (fraction?, rest) ← fraction rest
    let (exponent?, rest) ← exponent rest
    return (⟨isNegative, whole, fraction?, exponent?⟩, rest)

/-! ## Strings -/

/-- The value of a hexadecimal digit. -/
def hexDigit? : Symbol → Option Nat
  | some c =>
    if c.toNat < 128 then (Hex.digitValue? (UInt8.ofNat c.toNat)).map UInt8.toNat else none
  | none => none

/-- The number that four hexadecimal digits make. -/
def hexUnit? (a b c d : Symbol) : Option Nat := do
  return (((← hexDigit? a) * 16 + (← hexDigit? b)) * 16 + (← hexDigit? c)) * 16 + (← hexDigit? d)

/-- A piece of a string: a symbol, or a numbered 16-bit unit. -/
inductive Piece
  | symbol (symbol : Symbol)
  | unit (code : Nat)
  deriving DecidableEq

/-- The character that a one-letter escape stands for. -/
def shortEscape? : Symbol → Option Char
  | some '"' => some '"'
  | some '\\' => some '\\'
  | some '/' => some '/'
  | some 'b' => some '\x08'
  | some 'f' => some '\x0c'
  | some 'n' => some '\n'
  | some 'r' => some '\r'
  | some 't' => some '\t'
  | _ => none

/-- Whether a symbol may not stand in a string. -/
def isControl : Symbol → Bool
  | some c => c.toNat < 32
  | none => false

/-- The pieces of a string up to its closing quote, and what follows the quote. -/
def pieces : List Symbol → Option (List Piece × List Symbol)
  | [] => none
  | some '"' :: rest => some ([], rest)
  | some '\\' :: some 'u' :: a :: b :: c :: d :: rest => do
    let code ← hexUnit? a b c d
    let (others, left) ← pieces rest
    return (.unit code :: others, left)
  | some '\\' :: escape :: rest => do
    let c ← shortEscape? escape
    let (others, left) ← pieces rest
    return (.symbol (some c) :: others, left)
  | symbol :: rest =>
    if isControl symbol then none
    else do
      let (others, left) ← pieces rest
      return (.symbol symbol :: others, left)

/-- Whether a unit is the first half of a surrogate pair. -/
def isHighSurrogate (code : Nat) : Bool := 0xD800 ≤ code && code < 0xDC00

/-- Whether a unit is the second half of a surrogate pair. -/
def isLowSurrogate (code : Nat) : Bool := 0xDC00 ≤ code && code < 0xE000

/-- The symbols that pieces stand for; half a surrogate pair is a hole. -/
def resolvePieces : List Piece → List Symbol
  | [] => []
  | .symbol symbol :: rest => symbol :: resolvePieces rest
  | .unit high :: .unit low :: rest =>
    if isHighSurrogate high && isLowSurrogate low then
      some (Char.ofNat (0x10000 + (high - 0xD800) * 0x400 + (low - 0xDC00))) :: resolvePieces rest
    else if isHighSurrogate high || isLowSurrogate high then
      none :: resolvePieces (.unit low :: rest)
    else some (Char.ofNat high) :: resolvePieces (.unit low :: rest)
  | .unit code :: rest =>
    (if isHighSurrogate code || isLowSurrogate code then none else some (Char.ofNat code))
      :: resolvePieces rest

/-! ## All words -/

/-- Whether a symbol separates words. -/
def isBlank : Symbol → Bool
  | some ' ' | some '\t' | some '\n' | some '\r' => true
  | _ => false

/-- The word in front of a text that starts with no blank, and what follows it. -/
def next : List Symbol → Option (JsonToken × List Symbol)
  | some '{' :: rest => some (openObject, rest)
  | some '}' :: rest => some (closeObject, rest)
  | some '[' :: rest => some (openArray, rest)
  | some ']' :: rest => some (closeArray, rest)
  | some ':' :: rest => some (colon, rest)
  | some ',' :: rest => some (comma, rest)
  | some 'n' :: some 'u' :: some 'l' :: some 'l' :: rest => some (null, rest)
  | some 't' :: some 'r' :: some 'u' :: some 'e' :: rest => some (bool true, rest)
  | some 'f' :: some 'a' :: some 'l' :: some 's' :: some 'e' :: rest => some (bool false, rest)
  | some '"' :: rest => do
    let (found, left) ← pieces rest
    return (string (Text.spell? (resolvePieces found)), left)
  | some '-' :: rest => do
    let (text, left) ← unsignedNumber true rest
    return (number text.value?, left)
  | rest => do
    let (text, left) ← unsignedNumber false rest
    return (number text.value?, left)

/-- The words of a text. The first argument bounds the number of steps; the length of the text is
always enough. -/
def allUpTo : Nat → List Symbol → Option (List JsonToken)
  | _, [] => some []
  | 0, _ :: _ => none
  | steps + 1, symbol :: rest =>
    if isBlank symbol then allUpTo steps rest
    else do
      let (token, left) ← next (symbol :: rest)
      let others ← allUpTo steps left
      return token :: others

/-- The words of a text. -/
def all (text : List Symbol) : Option (List JsonToken) := allUpTo text.length text

end JsonToken

end RingWallet
