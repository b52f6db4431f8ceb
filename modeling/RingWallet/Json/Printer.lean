import RingWallet.Json.Tree

/-!
# Writing JSON text

The pretty form has one item a line, indented by two blanks a level, and one blank behind a colon.
The compact form has no blanks at all. Only quotes, backslashes and control characters are escaped.
-/

set_option autoImplicit false

namespace RingWallet.Json

/-- The written form of a character inside quotes. -/
def escapeChar (c : Char) : List Char :=
  if c = '"' then ['\\', '"']
  else if c = '\\' then ['\\', '\\']
  else if c = '\x08' then ['\\', 'b']
  else if c = '\x0c' then ['\\', 'f']
  else if c = '\n' then ['\\', 'n']
  else if c = '\r' then ['\\', 'r']
  else if c = '\t' then ['\\', 't']
  else if c.toNat < 32 then
    ['\\', 'u', '0', '0', Text.hexDigit (c.toNat / 16), Text.hexDigit (c.toNat % 16)]
  else [c]

/-- A text between quotes. -/
def quote (text : String) : List Char := '"' :: (text.toList.flatMap escapeChar ++ ['"'])

/-- A whole number. Floating-point numbers have no printed form here and are written as null. -/
def numberChars : JsonNumber → List Char
  | .natural n => (toString n.toNat).toList
  | .negative n => (toString n.toInt).toList
  | .real _ => "null".toList

/-- The start of a line at a level. -/
def newLine (level : Nat) : List Char := '\n' :: List.replicate (2 * level) ' '

mutual

/-- The pretty form of a value that stands at a level. -/
def prettyChars (level : Nat) : Json → List Char
  | null => "null".toList
  | bool true => "true".toList
  | bool false => "false".toList
  | number value => numberChars value
  | string text => quote text
  | array [] => "[]".toList
  | array (item :: rest) =>
    '[' :: (newLine (level + 1) ++ prettyChars (level + 1) item ++ prettyItems (level + 1) rest
      ++ newLine level ++ [']'])
  | object [] => ['{', '}']
  | object ((name, value) :: rest) =>
    '{' :: (newLine (level + 1) ++ quote name ++ [':', ' '] ++ prettyChars (level + 1) value
      ++ prettyFields (level + 1) rest ++ newLine level ++ ['}'])

/-- The pretty form of the items behind the first. -/
def prettyItems (level : Nat) : List Json → List Char
  | [] => []
  | item :: rest => ',' :: (newLine level ++ prettyChars level item ++ prettyItems level rest)

/-- The pretty form of the fields behind the first. -/
def prettyFields (level : Nat) : List (String × Json) → List Char
  | [] => []
  | (name, value) :: rest =>
    ',' :: (newLine level ++ quote name ++ [':', ' '] ++ prettyChars level value
      ++ prettyFields level rest)

end

/-- The pretty form of a value. -/
def pretty (value : Json) : String := String.ofList (prettyChars 0 value)

mutual

/-- The compact form of a value. -/
def compactChars : Json → List Char
  | null => "null".toList
  | bool true => "true".toList
  | bool false => "false".toList
  | number value => numberChars value
  | string text => quote text
  | array [] => ['[', ']']
  | array (item :: rest) => '[' :: (compactChars item ++ compactItems rest)
  | object [] => ['{', '}']
  | object ((name, value) :: rest) =>
    '{' :: (quote name ++ ':' :: (compactChars value ++ compactFields rest))

/-- The compact form of the items behind the first, with the closing bracket. -/
def compactItems : List Json → List Char
  | [] => [']']
  | item :: rest => ',' :: (compactChars item ++ compactItems rest)

/-- The compact form of the fields behind the first, with the closing brace. -/
def compactFields : List (String × Json) → List Char
  | [] => ['}']
  | (name, value) :: rest =>
    ',' :: (quote name ++ ':' :: (compactChars value ++ compactFields rest))

end

/-- The compact form of a value. -/
def compact (value : Json) : String := String.ofList (compactChars value)

end RingWallet.Json
