import RingWallet.Log.Directive

/-!
# Which events are shown

Of the directives that fit an event the most specific decides: the one with the longest target, then
the one with the most fields, then the one whose field names come last in order. If the same target
and fields are given twice, the later directive counts. A filter without directives shows errors
only.
-/

set_option autoImplicit false

namespace RingWallet.Log

/-- An event: its level, the place of the program it comes from, and the names of its fields. -/
structure Event where
  level : Level
  target : String
  fields : List String
  deriving DecidableEq

namespace Event

/-- The start of an event's line in a log. -/
def line (event : Event) : String := event.level.label ++ " " ++ event.target

/-- A seed was drawn. -/
def seedGenerated : Event :=
  ⟨.debug, "abel_wallet::crypto::seed", ["message", "scheme", "level"]⟩

/-- An account was made. -/
def accountCreated : Event := ⟨.info, "abel_wallet::account", ["message", "level", "kind"]⟩

/-- A seed-backed account was offered an output of another privacy level. -/
def levelMismatch : Event :=
  ⟨.trace, "abel_wallet::account::root_seed", ["message", "txo_level", "account_level"]⟩

/-- A serial number was shown with a ring that does not list its coin. -/
def ringMismatch : Event := ⟨.warn, "abel_wallet::tracker", ["message", "coin_id", "txid"]⟩

/-- The events that a wallet records. -/
def all : List Event := [seedGenerated, accountCreated, levelMismatch, ringMismatch]

end Event

namespace Directive

/-- Whether a directive speaks of an event. -/
def fits (directive : Directive) (event : Event) : Bool :=
  !directive.isOfSpans
    && directive.target?.all (·.isPrefixOf event.target.toList)
    && directive.fields.all fun field => event.fields.any (·.toList == field.name)

/-- The length of a target in bytes, above that of a directive without target. -/
def targetWeight (directive : Directive) : Nat :=
  match directive.target? with
  | none => 0
  | some target => Text.byteLength target + 1

/-- The names of the fields that a directive asks for. -/
def fieldNames (directive : Directive) : List (List Char) := directive.fields.map (·.name)

/-- Whether a text comes before another in code point order. -/
def textPrecedes (a b : List Char) : Bool := a.lex b fun c d => decide (c.toNat < d.toNat)

/-- Whether a directive is at least as specific as another. -/
def isAsSpecificAs (a b : Directive) : Bool :=
  if a.targetWeight ≠ b.targetWeight then decide (b.targetWeight < a.targetWeight)
  else if a.fields.length ≠ b.fields.length then decide (b.fields.length < a.fields.length)
  else !a.fieldNames.lex b.fieldNames textPrecedes

/-- The more specific of two directives; the second if they are alike. -/
def moreSpecific (a b : Directive) : Directive := if b.isAsSpecificAs a then b else a

end Directive

/-- The directives that decide which events are shown. -/
structure Filter where
  directives : List Directive
  deriving DecidableEq

namespace Filter

/-- The filter of some directives; without any it shows errors only. -/
def ofDirectives (directives : List Directive) : Filter :=
  ⟨if directives.isEmpty then [.ofVerbosity (.upTo .error)] else directives⟩

/-- The filter that shows everything up to a verbosity. -/
def ofVerbosity (verbosity : Verbosity) : Filter := ⟨[.ofVerbosity verbosity]⟩

/-- The filter that holds where none is written or what is written cannot be read. -/
def standard : Filter := ofVerbosity (.upTo .info)

/-- The filter that a setting writes; there may be no such setting. -/
def ofSetting (setting? : Option String) : Filter :=
  match setting?.bind fun setting => Directive.listOfText? setting.toList with
  | some directives => ofDirectives directives
  | none => standard

/-- The directive that decides on an event. -/
def decisive? (filter : Filter) (event : Event) : Option Directive :=
  match filter.directives.filter (·.fits event) with
  | [] => none
  | first :: rest => some (rest.foldl Directive.moreSpecific first)

/-- Whether an event is shown. -/
def shows (filter : Filter) (event : Event) : Bool :=
  (filter.decisive? event).any (·.verbosity.shows event.level)

end Filter

end RingWallet.Log
