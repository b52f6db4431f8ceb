import RingWallet.Inspect.Error

/-!
# Views of a log

A log is tried out by programs that run one after the other: each sets its log up twice and then
records one event of every kind. What is shown is the outcome of each set-up and, in the end, the
file and the console.
-/

set_option autoImplicit false

namespace RingWallet

/-- A program that sets its log up twice, beside the console and the file of earlier ones. -/
def Log.State.tryOut (setting? : Option String) (first second : Config) (state : State) :
    (Except SetupError Unit × Except SetupError Unit) × State :=
  let (one, state) := setUp setting? first (.fresh state.console state.file?)
  let (two, state) := setUp setting? second state
  ((one, two), Event.all.foldl emit state)

/-- The programs that run one after the other, with the outcomes of their set-ups. -/
def Log.State.tryOutTimes (setting? : Option String) (first second : Config) :
    (count : Nat) → State → List (Except SetupError Unit × Except SetupError Unit) × State
  | 0, state => ([], state)
  | count + 1, state =>
    let (outcome, state) := tryOut setting? first second state
    let (others, state) := tryOutTimes setting? first second count state
    (outcome :: others, state)

namespace Inspect

/-- The outcome of a set-up in one word. -/
def setupOutcome : Except Log.SetupError Unit → Json
  | .ok () => .string "ok"
  | .error error => .string error.kind

/-- What a number of programs with a log leave behind. -/
def logTrial (setting? : Option String) (first second : Log.Config) (count : Nat) : Json :=
  let (outcomes, state) := Log.State.tryOutTimes setting? first second count (.fresh [] none)
  .object [
    ("runs", .array (outcomes.map fun outcome =>
      .array [setupOutcome outcome.1, setupOutcome outcome.2])),
    ("file", view state.file?), ("stderr", view state.console)]

end Inspect

end RingWallet
