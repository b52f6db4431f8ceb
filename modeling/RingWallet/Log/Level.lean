/-!
# Log levels

An event has one of five levels. A verbosity says which levels are shown: none, or all up to one.
A verbosity is named by the level it ends at, in either case, or by the level's number; an empty
name stands for errors only.
-/

set_option autoImplicit false

namespace RingWallet.Log

/-- The level of an event. -/
inductive Level
  | error
  | warn
  | info
  | debug
  | trace
  deriving DecidableEq, Repr

/-- Which levels are shown. -/
inductive Verbosity
  | off
  | upTo (level : Level)
  deriving DecidableEq, Repr

namespace Level

/-- The number of a level, from the gravest on. -/
def rank : Level → Nat
  | error => 1
  | warn => 2
  | info => 3
  | debug => 4
  | trace => 5

/-- The name in front of a log line. -/
def label : Level → String
  | error => "ERROR"
  | warn => "WARN"
  | info => "INFO"
  | debug => "DEBUG"
  | trace => "TRACE"

end Level

namespace Verbosity

/-- The number of levels shown. -/
def rank : Verbosity → Nat
  | off => 0
  | upTo level => level.rank

/-- Whether events of a level are shown. -/
def shows (verbosity : Verbosity) (level : Level) : Bool := decide (level.rank ≤ verbosity.rank)

/-- Every verbosity, by number. -/
def all : List Verbosity := [off, upTo .error, upTo .warn, upTo .info, upTo .debug, upTo .trace]

/-- The name of a verbosity. -/
def name : Verbosity → String
  | off => "off"
  | upTo .error => "error"
  | upTo .warn => "warn"
  | upTo .info => "info"
  | upTo .debug => "debug"
  | upTo .trace => "trace"

/-- The number that decimal digits make, perhaps behind a plus sign. -/
def ofDigits? (text : List Char) : Option Nat :=
  let digits := match text with
    | '+' :: rest => rest
    | other => other
  if digits.isEmpty || !digits.all Char.isDigit then none
  else some (digits.foldl (fun n c => n * 10 + (c.toNat - '0'.toNat)) 0)

/-- The verbosity with a given number or name. -/
def ofText? (text : List Char) : Option Verbosity :=
  if text.isEmpty then some (upTo .error)
  else match (ofDigits? text).bind (all[·]?) with
  | some verbosity => some verbosity
  | none => all.find? fun verbosity => verbosity.name.toList == text.map Char.toLower

end Verbosity

end RingWallet.Log
