/-!
# Patterns

A directive can ask for the value of a field by a pattern, a regular expression. Such a directive
speaks of spans, and the wallet records none, so no value is ever matched. But a directive is only
read if a matcher can be built from its pattern. A `Pattern` therefore keeps what that depends on
and leaves out the rest, such as the operator of a repetition.

Matchers have no tables of character properties. Characters can be listed, and whatever needs a
table is there for single bytes only, behind the flag `-u`: ignoring case, the classes `\d`, `\s`
and `\w`, and word boundaries. Byte by byte a pattern must not match outside ASCII, so complements
and the dot are not there (`Pattern.modeBehind?`).
-/

set_option autoImplicit false

namespace RingWallet.Log

/-- A character of a pattern. -/
structure PatternChar where
  char : Char
  /-- Whether it is written by two hexadecimal digits, and is a byte where bytes are matched. -/
  isByte : Bool
  deriving DecidableEq

/-- A set of characters, as it is written between square brackets. -/
inductive CharClass
  | empty
  | single (char : PatternChar)
  | range (first last : PatternChar)
  /-- A set with a name, such as `[:alpha:]`. -/
  | named (isNegated : Bool)
  /-- One of the sets `\d`, `\s` and `\w`. -/
  | lettered (isNegated : Bool)
  | bracketed (isNegated : Bool) (inner : CharClass)
  /-- All sets together; there are two at least. -/
  | union (parts : List CharClass)
  /-- What an operator such as `&&` makes of two sets. -/
  | combined (left right : CharClass)

/-- A pattern. -/
inductive Pattern
  | empty
  | single (char : PatternChar)
  /-- Any character. -/
  | dot
  /-- The start or the end of a text or line. -/
  | anchor
  /-- A place where a word starts or ends, or a place where none does. -/
  | wordBoundary
  /-- One of the sets `\d`, `\s` and `\w`. -/
  | lettered (isNegated : Bool)
  | bracketed (isNegated : Bool) (inner : CharClass)
  /-- Flags for what follows. -/
  | setFlags (flags : List Char)
  | group (flags : List Char) (inner : Pattern)
  | repetition (inner : Pattern)
  /-- Several patterns to choose from; there are two at least. -/
  | choice (branches : List Pattern)
  /-- Patterns one behind the other; there are two at least. -/
  | sequence (parts : List Pattern)

/-! ## Nesting -/

mutual

/-- How deep a set of characters is nested. -/
def CharClass.depth : CharClass → Nat
  | .bracketed _ inner => inner.depth + 1
  | .union parts => CharClass.depthOfAll parts + 1
  | .combined left right => max left.depth right.depth + 1
  | .empty | .single _ | .range _ _ | .named _ | .lettered _ => 0

/-- How deep the deepest of some sets of characters is nested. -/
def CharClass.depthOfAll : List CharClass → Nat
  | [] => 0
  | part :: rest => max part.depth (CharClass.depthOfAll rest)

end

namespace Pattern

mutual

/-- How deep a pattern is nested. -/
def depth : Pattern → Nat
  | bracketed _ inner => inner.depth + 1
  | group _ inner | repetition inner => inner.depth + 1
  | choice parts | sequence parts => depthOfAll parts + 1
  | empty | single _ | dot | anchor | wordBoundary | lettered _ | setFlags _ => 0

/-- How deep the deepest of some patterns is nested. -/
def depthOfAll : List Pattern → Nat
  | [] => 0
  | part :: rest => max part.depth (depthOfAll rest)

end

/-- The deepest nesting of a pattern that can be read. -/
def maxDepth : Nat := 250

end Pattern

/-! ## What can be built -/

/-- How characters are matched. -/
structure MatchMode where
  ignoresCase : Bool
  /-- Whether characters are matched and not bytes. -/
  isUnicode : Bool
  deriving DecidableEq

namespace MatchMode

/-- The mode at the start of a pattern. -/
def standard : MatchMode := ⟨false, true⟩

/-- What flags say about one flag; flags behind a minus sign are taken away. -/
def flag? (flags : List Char) (flag : Char) : Option Bool :=
  if flags.contains flag then some ((flags.takeWhile (· != '-')).contains flag) else none

/-- The mode under further flags. -/
def under (mode : MatchMode) (flags : List Char) : MatchMode :=
  ⟨(flag? flags 'i').getD mode.ignoresCase, (flag? flags 'u').getD mode.isUnicode⟩

end MatchMode

/-- Whether a character lies in ASCII. -/
def PatternChar.isAscii (char : PatternChar) : Bool := decide (char.char.toNat < 128)

mutual

/-- Whether a matcher can be built from a set of characters. Where case is ignored among all
characters, only a set that is put together without a single character can do without a table; it
holds nothing or everything, and case makes no difference to that. -/
def CharClass.isBuildable (mode : MatchMode) : CharClass → Bool
  | .empty => true
  | .single char => if mode.isUnicode then !mode.ignoresCase else char.isAscii
  | .range first last =>
    if mode.isUnicode then !mode.ignoresCase else first.isAscii && last.isAscii
  | .named isNegated => if mode.isUnicode then !mode.ignoresCase else !isNegated
  | .lettered isNegated => !mode.isUnicode && !isNegated
  | .bracketed isNegated inner =>
    (mode.isUnicode || !isNegated) && inner.isBuildable mode
  | .union parts => CharClass.areBuildable mode parts
  | .combined left right => left.isBuildable mode && right.isBuildable mode

/-- Whether a matcher can be built from each of some sets of characters. -/
def CharClass.areBuildable (mode : MatchMode) : List CharClass → Bool
  | [] => true
  | part :: rest => part.isBuildable mode && CharClass.areBuildable mode rest

end

namespace Pattern

mutual

/-- The mode behind a pattern that is read in a mode; nothing if no matcher can be built from it.
Flags hold up to the end of the group they stand in. -/
def modeBehind? (mode : MatchMode) : Pattern → Option MatchMode
  | empty | anchor => some mode
  | single char =>
    if (if mode.isUnicode then !mode.ignoresCase else char.isAscii || !char.isByte) then some mode
    else none
  | dot => if mode.isUnicode then some mode else none
  | wordBoundary => if mode.isUnicode then none else some mode
  | lettered isNegated => if mode.isUnicode || isNegated then none else some mode
  | bracketed isNegated inner =>
    if inner.isBuildable mode && (mode.isUnicode || !isNegated) then some mode else none
  | setFlags flags => some (mode.under flags)
  | group flags inner => (modeBehind? (mode.under flags) inner).map fun _ => mode
  | repetition inner => modeBehind? mode inner
  | choice parts | sequence parts => modeBehindAll? mode parts

/-- The mode behind patterns that are read one after the other. -/
def modeBehindAll? (mode : MatchMode) : List Pattern → Option MatchMode
  | [] => some mode
  | part :: rest => (modeBehind? mode part).bind fun mode => modeBehindAll? mode rest

end

/-- Whether a matcher can be built from a pattern. -/
def isBuildable (pattern : Pattern) : Bool := (modeBehind? .standard pattern).isSome

end Pattern

end RingWallet.Log
