import RingWallet.Log.Pattern.Escape

/-!
# Sets of characters in patterns

A set stands between square brackets and may be complemented by a `^` at its start. It lists
characters, ranges, named sets and further sets; the operators `&&`, `--` and `~~` bind weaker than
listing and group to the left. The sets that are still open are kept on a stack, innermost first
(`ClassLevel`).
-/

set_option autoImplicit false

namespace RingWallet.Log.Pattern

/-- A set that is being read. -/
structure ClassLevel where
  isNegated : Bool
  /-- What stands in front of the last operator. -/
  left? : Option CharClass
  /-- What was listed since, last first. -/
  items : List CharClass

namespace ClassLevel

/-- A level with one more item. -/
def add (level : ClassLevel) (item : CharClass) : ClassLevel :=
  { level with items := item :: level.items }

/-- The set of everything listed since the last operator. -/
def listed (level : ClassLevel) : CharClass :=
  match level.items with
  | [] => .empty
  | [item] => item
  | items => .union items.reverse

/-- The set read so far. -/
def inner (level : ClassLevel) : CharClass :=
  match level.left? with
  | none => level.listed
  | some left => .combined left level.listed

/-- A level behind an operator. -/
def behindOperator (level : ClassLevel) : ClassLevel :=
  { level with left? := some level.inner, items := [] }

end ClassLevel

/-- The names of the named sets. -/
def classNames : List String := [
  "alnum", "alpha", "ascii", "blank", "cntrl", "digit", "graph", "lower", "print", "punct", "space",
  "upper", "word", "xdigit"]

/-- Reads a named set behind its opening bracket: `:`, perhaps `^`, the name and `:]`. -/
def namedClass : List Char → Option (CharClass × List Char)
  | ':' :: rest =>
    let (isNegated, rest) := match rest with
      | '^' :: rest => (true, rest)
      | rest => (false, rest)
    match rest.dropWhile (· != ':') with
    | ':' :: ']' :: left =>
      if classNames.any (·.toList == rest.takeWhile (· != ':')) then
        some (.named isNegated, left)
      else none
    | _ => none
  | _ => none

/-- Reads hyphens at the start of a set, which stand for themselves. -/
def leadingHyphens (isSpaced : Bool) (level : ClassLevel) : List Char → ClassLevel × List Char
  | '-' :: rest =>
    have := length_behindSpace_le isSpaced rest
    leadingHyphens isSpaced (level.add (.single ⟨'-', false⟩)) (behindSpace isSpaced rest)
  | text => (level, text)
termination_by text => text.length

/-- Reads the start of a set behind its opening bracket. A closing bracket that comes first stands
for itself. -/
def openClass (isSpaced : Bool) (text : List Char) : Option (ClassLevel × List Char) :=
  let text := behindSpace isSpaced text
  let (isNegated, text) := match text with
    | '^' :: rest => (true, behindSpace isSpaced rest)
    | text => (false, text)
  let (level, text) := leadingHyphens isSpaced ⟨isNegated, none, []⟩ text
  match text with
  | [] => none
  | ']' :: rest =>
    if level.items.isEmpty then
      match behindSpace isSpaced rest with
      | [] => none
      | rest => some (level.add (.single ⟨']', false⟩), rest)
    else some (level, text)
  | _ => some (level, text)

/-- Reads one item of a set in front of a possible range. -/
def classItem (isSpaced : Bool) : List Char → Option (Pattern × List Char)
  | [] => none
  | '\\' :: rest => escape isSpaced rest
  | c :: rest => some (.single ⟨c, false⟩, rest)

/-- The set that an item stands for; a place is none. -/
def classOfItem? : Pattern → Option CharClass
  | .single char => some (.single char)
  | .lettered isNegated => some (.lettered isNegated)
  | _ => none

/-- The next sign behind a hyphen; where a pattern is spaced out, blanks and one `#` in front of it
do not count. -/
def signBehind? (isSpaced : Bool) (text : List Char) : Option Char :=
  if !isSpaced then text.head?
  else match text.dropWhile Text.isBlank with
    | '#' :: rest => (rest.dropWhile Text.isBlank).head?
    | rest => rest.head?

/-- Reads an item or a range of a set. A hyphen in front of a closing bracket or of another hyphen
makes no range. -/
def classRange (isSpaced : Bool) (text : List Char) : Option (CharClass × List Char) := do
  let (first, rest) ← classItem isSpaced text
  match behindSpace isSpaced rest with
  | [] => none
  | '-' :: rest =>
    let sign? := signBehind? isSpaced rest
    if sign? = some ']' ∨ sign? = some '-' then return (← classOfItem? first, '-' :: rest)
    match first, ← classItem isSpaced (behindSpace isSpaced rest) with
    | .single first, (.single last, rest) =>
      if first.char.toNat ≤ last.char.toNat then some (.range first last, rest) else none
    | _, _ => none
  | rest => return (← classOfItem? first, rest)

/-- Reads one step of the innermost open set, whose outer sets are given. A finished set is the
result where it has no outer set. -/
def classStep (isSpaced : Bool) (level : ClassLevel) (outer : List ClassLevel) :
    List Char → Option (Sum Pattern (ClassLevel × List ClassLevel) × List Char)
  | [] => none
  | '[' :: rest =>
    match namedClass rest with
    | some (item, rest) => some (.inr (level.add item, outer), rest)
    | none => do
      let (inner, rest) ← openClass isSpaced rest
      return (.inr (inner, level :: outer), rest)
  | ']' :: rest =>
    match outer with
    | [] => some (.inl (.bracketed level.isNegated level.inner), rest)
    | parent :: outer =>
      some (.inr (parent.add (.bracketed level.isNegated level.inner), outer), rest)
  | '&' :: '&' :: rest | '-' :: '-' :: rest | '~' :: '~' :: rest =>
    some (.inr (level.behindOperator, outer), rest)
  | text => do
    let (item, rest) ← classRange isSpaced text
    return (.inr (level.add item, outer), rest)

/-- Reads the rest of a set. The first argument bounds the number of steps; the length of the text
is always enough. -/
def classUpTo (isSpaced : Bool) : (steps : Nat) → ClassLevel → List ClassLevel → List Char →
    Option (Pattern × List Char)
  | 0, _, _, _ => none
  | steps + 1, level, outer, text => do
    match ← classStep isSpaced level outer (behindSpace isSpaced text) with
    | (.inl pattern, rest) => return (pattern, rest)
    | (.inr (level, outer), rest) => classUpTo isSpaced steps level outer rest

/-- Reads a set behind its opening bracket. -/
def charClass (isSpaced : Bool) (text : List Char) : Option (Pattern × List Char) := do
  let (level, rest) ← openClass isSpaced text
  classUpTo isSpaced rest.length level [] rest

end RingWallet.Log.Pattern
