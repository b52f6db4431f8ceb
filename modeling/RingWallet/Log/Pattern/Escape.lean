import RingWallet.Log.Pattern
import RingWallet.Text.Blank

/-!
# Escapes in patterns

Behind a backslash stands a sign that would otherwise mean something, a letter for a character that
is hard to write, a character's number, or a letter for a set or a place. Under the flag `x` a
pattern may be spaced out: blanks and comments between its parts are passed over.
-/

set_option autoImplicit false

namespace RingWallet.Log.Pattern

/-! ## Blanks between parts -/

/-- What follows blanks and comments; a comment starts with `#` and ends with its line. -/
def behindBlanks (inComment : Bool) : List Char → List Char
  | [] => []
  | c :: rest =>
    if inComment then behindBlanks (c != '\n') rest
    else if Text.isBlank c then behindBlanks false rest
    else if c = '#' then behindBlanks true rest
    else c :: rest

/-- What follows blanks and comments where a pattern is spaced out. -/
def behindSpace (isSpaced : Bool) (text : List Char) : List Char :=
  if isSpaced then behindBlanks false text else text

theorem length_behindBlanks_le (inComment : Bool) (text : List Char) :
    (behindBlanks inComment text).length ≤ text.length := by
  induction text generalizing inComment with
  | nil => simp [behindBlanks]
  | cons c rest ih =>
    unfold behindBlanks
    split
    · exact Nat.le_succ_of_le (ih _)
    · split
      · exact Nat.le_succ_of_le (ih _)
      · split
        · exact Nat.le_succ_of_le (ih _)
        · exact Nat.le_refl _

theorem length_behindSpace_le (isSpaced : Bool) (text : List Char) :
    (behindSpace isSpaced text).length ≤ text.length := by
  unfold behindSpace
  split
  · exact length_behindBlanks_le false text
  · exact Nat.le_refl _

/-! ## Escapes -/

/-- The value of a hexadecimal digit. -/
def hexDigit? (c : Char) : Option Nat :=
  if '0' ≤ c ∧ c ≤ '9' then some (c.toNat - '0'.toNat)
  else if 'a' ≤ c ∧ c ≤ 'f' then some (c.toNat - 'a'.toNat + 10)
  else if 'A' ≤ c ∧ c ≤ 'F' then some (c.toNat - 'A'.toNat + 10)
  else none

/-- Reads a number of hexadecimal digits behind the number read so far. -/
def hexNumber (isSpaced : Bool) : (digits : Nat) → (soFar : Nat) → List Char →
    Option (Nat × List Char)
  | 0, soFar, text => some (soFar, text)
  | _ + 1, _, [] => none
  | digits + 1, soFar, c :: rest => do
    let digit ← hexDigit? c
    hexNumber isSpaced digits (soFar * 16 + digit) (behindSpace isSpaced rest)

/-- Reads the character with a number of hexadecimal digits. -/
def hexChar (isSpaced : Bool) (digits : Nat) (text : List Char) :
    Option (PatternChar × List Char) := do
  let (code, rest) ← hexNumber isSpaced digits 0 (behindSpace isSpaced text)
  if code.isValidChar then some (⟨Char.ofNat code, digits == 2⟩, rest) else none

/-- Whether a character stands for itself behind a backslash: every ASCII character that is no
letter, no digit and no angle bracket. -/
def standsForItself (c : Char) : Bool :=
  decide (c.toNat < 128) && !c.isAlphanum && c != '<' && c != '>'

/-- The character that a letter stands for behind a backslash. -/
def escapedChar? : Char → Option Char
  | 'a' => some '\x07'
  | 'f' => some '\x0c'
  | 'n' => some '\n'
  | 'r' => some '\r'
  | 't' => some '\t'
  | 'v' => some '\x0b'
  | _ => none

/-- The pattern that a letter or an angle bracket stands for behind a backslash. Classes by Unicode
property are not among them, for want of tables. -/
def escapedPattern? : Char → Option Pattern
  | 'd' | 's' | 'w' => some (.lettered false)
  | 'D' | 'S' | 'W' => some (.lettered true)
  | 'A' | 'z' => some .anchor
  | 'b' | 'B' | '<' | '>' => some .wordBoundary
  | _ => none

/-- Reads what follows a backslash. -/
def escape (isSpaced : Bool) : List Char → Option (Pattern × List Char)
  | [] => none
  | 'x' :: rest => (hexChar isSpaced 2 rest).map fun (char, rest) => (.single char, rest)
  | 'u' :: rest => (hexChar isSpaced 4 rest).map fun (char, rest) => (.single char, rest)
  | 'U' :: rest => (hexChar isSpaced 8 rest).map fun (char, rest) => (.single char, rest)
  | c :: rest =>
    if standsForItself c then some (.single ⟨c, false⟩, rest)
    else match escapedChar? c with
      | some char => some (.single ⟨char, false⟩, rest)
      | none => (escapedPattern? c).map fun pattern => (pattern, rest)

end RingWallet.Log.Pattern
