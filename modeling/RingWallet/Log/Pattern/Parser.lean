import RingWallet.Log.Pattern.Class
import RingWallet.Text.Alphabetic
import RingWallet.Text.Numeric

/-!
# Reading patterns

A pattern is a choice of sequences of repeated parts, and groups hold patterns again. Groups that
are still open are kept on a stack, innermost first (`OpenGroup`). A group may carry flags or a
name, and no name is given twice. There is no braced repetition, since a directive ends its fields
at the first closing brace, and a brace that opens one is an error.
-/

set_option autoImplicit false

namespace RingWallet.Log.Pattern

/-- A group that is being read, and what stands in front of it. -/
structure OpenGroup where
  flags : List Char
  /-- The parts in front of the group, last first. -/
  parts : List Pattern
  /-- The branches in front of those parts, last first. -/
  branches : List Pattern
  /-- Whether the pattern around the group is spaced out. -/
  isSpaced : Bool

/-- How far a pattern is read. -/
structure Progress where
  isSpaced : Bool
  /-- The parts of the branch that is being read, last first. -/
  parts : List Pattern
  /-- The branches in front of it, last first. -/
  branches : List Pattern
  groups : List OpenGroup
  /-- The names given to groups. -/
  names : List (List Char)

namespace Progress

/-- Nothing is read yet. -/
def start : Progress := ⟨false, [], [], [], []⟩

/-- A pattern with one more part. -/
def add (progress : Progress) (part : Pattern) : Progress :=
  { progress with parts := part :: progress.parts }

/-- The branch that is being read. -/
def branch (progress : Progress) : Pattern :=
  match progress.parts with
  | [] => .empty
  | [part] => part
  | parts => .sequence parts.reverse

/-- The pattern of the innermost open group, or the whole pattern. -/
def inner (progress : Progress) : Pattern :=
  match progress.branches with
  | [] => progress.branch
  | branches => .choice (progress.branch :: branches).reverse

/-- A pattern behind the sign for a choice. -/
def nextBranch (progress : Progress) : Progress :=
  { progress with parts := [], branches := progress.branch :: progress.branches }

/-- A pattern behind the start of a group. -/
def openGroup (progress : Progress) (flags : List Char) : Progress :=
  { progress with
    isSpaced := (MatchMode.flag? flags 'x').getD progress.isSpaced
    parts := []
    branches := []
    groups := ⟨flags, progress.parts, progress.branches, progress.isSpaced⟩ :: progress.groups }

/-- A pattern behind the end of a group. -/
def closeGroup (progress : Progress) : Option Progress :=
  match progress.groups with
  | [] => none
  | opened :: groups => some {
      progress with
      isSpaced := opened.isSpaced
      parts := .group opened.flags progress.inner :: opened.parts
      branches := opened.branches
      groups }

/-- A pattern whose last part is repeated; there must be one, and flags are none. -/
def repeatLast (progress : Progress) : Option Progress :=
  match progress.parts with
  | [] | .setFlags _ :: _ => none
  | part :: parts => some { progress with parts := .repetition part :: parts }

end Progress

/-! ## Groups -/

/-- Whether flags are known ones, each given once, and none is missing behind the minus sign. -/
def areFlags (flags : List Char) : Bool :=
  flags.all ['i', 'm', 's', 'R', 'U', 'u', 'x', '-'].contains
    && decide flags.Nodup && flags.getLast? != some '-'

/-- Whether a group may have a name. -/
def isGroupName : List Char → Bool
  | [] => false
  | first :: rest =>
    (first == '_' || Text.isAlphabetic first)
      && rest.all fun c =>
        c == '_' || c == '.' || c == '[' || c == ']' || Text.isAlphabetic c || Text.isNumeric c

/-- Reads the name of a group behind its opening angle bracket. -/
def namedGroup (progress : Progress) (text : List Char) : Option (Progress × List Char) :=
  let name := text.takeWhile (· != '>')
  match text.dropWhile (· != '>') with
  | '>' :: rest =>
    if isGroupName name && !progress.names.contains name then
      some (({ progress with names := name :: progress.names } : Progress).openGroup [], rest)
    else none
  | _ => none

/-- Reads flags, for a group or for what follows. -/
def flagged (progress : Progress) (text : List Char) : Option (Progress × List Char) :=
  let flags := text.takeWhile fun c => c != ':' && c != ')'
  if !areFlags flags then none
  else match text.dropWhile fun c => c != ':' && c != ')' with
    | ':' :: rest => some (progress.openGroup flags, rest)
    | ')' :: rest =>
      if flags.isEmpty then none
      else
        let isSpaced := (MatchMode.flag? flags 'x').getD progress.isSpaced
        some (({ progress with isSpaced } : Progress).add (.setFlags flags), rest)
    | _ => none

/-- Reads the start of a group behind its opening bracket. -/
def groupStart (progress : Progress) (text : List Char) : Option (Progress × List Char) :=
  match behindSpace progress.isSpaced text with
  | '?' :: 'P' :: '<' :: rest => namedGroup progress rest
  | '?' :: '<' :: rest => namedGroup progress rest
  | '?' :: rest => flagged progress rest
  | rest => some (progress.openGroup [], rest)

/-! ## Patterns -/

/-- Reads one step of a pattern. -/
def step (progress : Progress) : List Char → Option (Progress × List Char)
  | [] => none
  | '(' :: rest => groupStart progress rest
  | ')' :: rest => progress.closeGroup.map (·, rest)
  | '|' :: rest => some (progress.nextBranch, rest)
  | '[' :: rest =>
    (charClass progress.isSpaced rest).map fun (part, rest) => (progress.add part, rest)
  | '?' :: '?' :: rest | '*' :: '?' :: rest | '+' :: '?' :: rest
  | '?' :: rest | '*' :: rest | '+' :: rest => progress.repeatLast.map (·, rest)
  | '\x7b' :: _ => none
  | '\\' :: rest =>
    (escape progress.isSpaced rest).map fun (part, rest) => (progress.add part, rest)
  | '.' :: rest => some (progress.add .dot, rest)
  | '^' :: rest | '$' :: rest => some (progress.add .anchor, rest)
  | c :: rest => some (progress.add (.single ⟨c, false⟩), rest)

/-- Reads the rest of a pattern. The first argument bounds the number of steps; the length of the
text is always enough. -/
def readUpTo : (steps : Nat) → Progress → List Char → Option Progress
  | steps, progress, text =>
    match behindSpace progress.isSpaced text, steps with
    | [], _ => some progress
    | _, 0 => none
    | text, steps + 1 => do
      let (progress, rest) ← step progress text
      readUpTo steps progress rest

/-- Reads a pattern. -/
def ofText? (text : List Char) : Option Pattern := do
  let progress ← readUpTo text.length .start text
  if progress.groups.isEmpty && decide (progress.inner.depth ≤ maxDepth) then some progress.inner
  else none

end RingWallet.Log.Pattern
