import RingWallet.Log.FilePath
import RingWallet.Log.Filter

/-!
# Setting up a log

A program sets its log up once: a filter and the places that shown events are written to. A set-up
without any place does nothing. A file is opened before anything is installed, so a set-up that
comes too late still creates its file.
-/

set_option autoImplicit false

namespace RingWallet.Log

/-- What a log is set up with. -/
structure Config where
  /-- The verbosity; without it the surrounding setting decides. -/
  verbosity? : Option Verbosity
  console : Bool
  /-- The file to append to. -/
  file? : Option String
  deriving DecidableEq

/-- A log set-up with console output only. -/
def Config.forConsole (verbosity : Verbosity) : Config := ⟨some verbosity, true, none⟩

/-- What an installed log does with events. -/
structure Sink where
  filter : Filter
  toConsole : Bool
  toFile : Bool
  deriving DecidableEq

/-- Why a log cannot be set up. -/
inductive SetupError
  | fileNotOpened
  | alreadyInstalled
  deriving DecidableEq, Repr

/-- The log of a running program: what is installed, what was written to the console and, once the
file exists, to the file. -/
structure State where
  sink? : Option Sink
  console : List String
  file? : Option (List String)
  deriving DecidableEq

namespace State

/-- A program that has not set up its log, with a log file left by an earlier one. -/
def fresh (console : List String) (file? : Option (List String)) : State := ⟨none, console, file?⟩

/-- Opens the file of a set-up, which creates it. -/
def openFile (state : State) : Option String → Except SetupError State
  | none => .ok state
  | some path =>
    if FilePath.leadsToFile path.toList then .ok { state with file? := some (state.file?.getD []) }
    else .error .fileNotOpened

/-- Sets the log up, under the surrounding setting of the filter. -/
def setUp (setting? : Option String) (config : Config) (state : State) :
    Except SetupError Unit × State :=
  if !config.console && config.file?.isNone then (.ok (), state)
  else match state.openFile config.file? with
  | .error e => (.error e, state)
  | .ok opened =>
    if opened.sink?.isSome then (.error .alreadyInstalled, opened)
    else
      let filter := match config.verbosity? with
        | some verbosity => .ofVerbosity verbosity
        | none => .ofSetting setting?
      (.ok (), { opened with sink? := some ⟨filter, config.console, config.file?.isSome⟩ })

/-- Writes an event where the installed log shows it. -/
def emit (state : State) (event : Event) : State :=
  match state.sink? with
  | none => state
  | some sink =>
    if sink.filter.shows event then
      { state with
        console := if sink.toConsole then state.console ++ [event.line] else state.console
        file? := if sink.toFile then state.file?.map (· ++ [event.line]) else state.file? }
    else state

end State

end RingWallet.Log
