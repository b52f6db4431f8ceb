import RingWallet.Log.FieldValue
import RingWallet.Log.Level
import RingWallet.Text.Pieces
import RingWallet.Text.Slice

/-!
# Filter directives

A filter is written as directives between commas:

```text
level    target    target=level    target[span]=level    [span{field,field=value}]=level
```

A directive without a level shows everything. One that names a span, or the value of a field, speaks
of spans alone. Blanks around a directive are passed over when its parts are told apart, but they
are not cut off: places are counted behind the leading blanks and the parts are taken from the whole
text, so blanks around a directive end up inside its parts. Places are counted in bytes of UTF-8.
-/

set_option autoImplicit false

namespace RingWallet.Log

/-- A field that a directive asks for. -/
structure FieldMatch where
  name : List Char
  hasValue : Bool
  deriving DecidableEq

/-- One directive of a filter. -/
structure Directive where
  verbosity : Verbosity
  target? : Option (List Char)
  span? : Option (List Char)
  fields : List FieldMatch
  deriving DecidableEq

namespace Directive

/-- The directive that shows everything up to a verbosity. -/
def ofVerbosity (verbosity : Verbosity) : Directive := ⟨verbosity, none, none, []⟩

/-- The directive that shows everything. -/
def everything : Directive := ofVerbosity (.upTo .trace)

/-! ## Reading -/

/-- Which part of a directive a place belongs to, and where the part began. -/
inductive Part
  | start
  | levelOrTarget (since : Nat)
  | span (since : Nat)
  | field (since : Nat)
  | behindFields
  | behindSpan
  | level (since : Nat)
  deriving DecidableEq

/-- Whether a directive can start with a character. -/
def canStart (c : Char) : Bool :=
  Text.isAlphabetic c || Text.isNumeric c || c == '-' || c == ':' || c == '_'

/-- The field that a text asks for, by name or by name and value. What follows a second equals sign
does not count. -/
def fieldOf? (text : List Char) : Option FieldMatch :=
  let name := text.takeWhile (· != '=')
  if text.isEmpty then none
  else match text.dropWhile (· != '=') with
    | [] => some ⟨name, false⟩
    | _ :: rest =>
      if isFieldValue (rest.takeWhile (· != '=')) then some ⟨name, true⟩ else none

/-- The verbosity behind an equals sign; nothing there means everything. -/
def verbosityOf? (text : List Char) : Option Verbosity :=
  if text.isEmpty then some (.upTo .trace) else Verbosity.ofText? text

/-- A directive for a target. -/
def withTarget (directive : Directive) (target : List Char) : Directive :=
  { directive with target? := some target }

/-- A directive for a span in front of fields; without a name it is for any span. -/
def withSpan (directive : Directive) (name : List Char) : Directive :=
  { directive with span? := if name.isEmpty then none else some name }

/-- Reads one character: the part that follows, and the directive read so far. -/
def step (text : List Char) (place : Nat) (c : Char) (part : Part) (found : Directive) :
    Option (Part × Directive) :=
  match part with
  | .start =>
    if c = '[' then some (.span (place + 1), found)
    else if canStart c then some (.levelOrTarget place, found)
    else none
  | .levelOrTarget since =>
    if c = '=' then some (.level (place + 1), found.withTarget (Text.slice text since place))
    else if c = '[' then some (.span (place + 1), found.withTarget (Text.slice text since place))
    else some (part, found)
  | .span since =>
    if c = ']' then some (.behindSpan, { found with span? := Text.slice text since place })
    else if c = '\x7b' then
      some (.field (place + 1), found.withSpan (Text.slice text since place))
    else some (part, found)
  | .field since =>
    if c = '\x7d' then
      (fieldOf? (Text.slice text since place)).map fun field =>
        (.behindFields, { found with fields := found.fields ++ [field] })
    else some (part, found)
  | .behindFields => if c = ']' then some (.behindSpan, found) else none
  | .behindSpan => if c = '=' then some (.level (place + 1), found) else none
  | .level _ => some (part, found)

/-- Reads characters from a place on. -/
def scan (text : List Char) : (place : Nat) → List Char → Part → Directive →
    Option (Part × Directive)
  | _, [], part, found => some (part, found)
  | place, c :: rest, part, found =>
    match step text place c part found with
    | some (part, found) => scan text (place + c.utf8Size) rest part found
    | none => none

/-- The directive at the end of a text. A lone word is a level if it names one, or else a target. -/
def finish (text : List Char) (part : Part) (found : Directive) : Option Directive :=
  match part with
  | .levelOrTarget since =>
    let word := Text.sliceFrom text since
    match Verbosity.ofText? word with
    | some verbosity => some { found with verbosity, target? := none }
    | none => some { found with verbosity := .upTo .trace, target? := some word }
  | .level since =>
    (verbosityOf? (Text.sliceFrom text since)).map fun verbosity => { found with verbosity }
  | .behindSpan => some found
  | .start | .span _ | .field _ | .behindFields => none

/-- The text without the blanks around it. -/
def trim (text : List Char) : List Char :=
  (((text.dropWhile Text.isBlank).reverse).dropWhile Text.isBlank).reverse

/-- Reads one directive. -/
def ofText? (text : List Char) : Option Directive := do
  let (part, found) ← scan text 0 (trim text) .start everything
  finish text part found

/-- Reads the directives of a filter; empty ones are passed over. -/
def listOfText? (text : List Char) : Option (List Directive) :=
  ((Text.pieces ',' text).filter (!·.isEmpty)).mapM ofText?

/-- Whether a directive speaks of spans alone. -/
def isOfSpans (directive : Directive) : Bool :=
  directive.span?.isSome || directive.fields.any (·.hasValue)

end Directive

end RingWallet.Log
