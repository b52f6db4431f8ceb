import RingWallet.Text.Pieces
import RingWallet.Text.Slice

/-!
# Paths of log files

A path leads from the working directory through further directories, which are made where they are
missing, to a file. It is walked part by part: a part that is empty or `.` stays in place, `..`
leads out, and any other part is a name.
-/

set_option autoImplicit false

namespace RingWallet.Log.FilePath

/-- A place as the names that lead to it, the last first; a `..` leads out of the working
directory. -/
abbrev Place := List (List Char)

/-- The place that a part of a path leads to. -/
def enter (place : Place) (part : List Char) : Place :=
  if part == [] || part == ['.'] then place
  else if part == ['.', '.'] then
    match place with
    | [] => [part]
    | name :: outer => if name == ['.', '.'] then part :: place else outer
  else part :: place

/-- The places behind each part of a path. -/
def places (place : Place) : List (List Char) → List Place
  | [] => []
  | part :: rest => enter place part :: places (enter place part) rest

/-- Whether a part of a path is a name. -/
def isName (part : List Char) : Bool :=
  !(part == [] || part == ['.'] || part == ['.', '.'])

/-- The most bytes that a part of a path has. -/
def maxPartLength : Nat := 255

/-- The most bytes that a path has. -/
def maxLength : Nat := 4095

/-- Whether a path can be that of a file: its last part is a name, no part and not the whole is too
long, no character is null, and the place is none of the directories on the way. -/
def leadsToFile (path : List Char) : Bool :=
  let parts := Text.pieces '/' path
  let way := places [] parts.dropLast
  isName (parts.getLastD [])
    && decide (Text.byteLength path ≤ maxLength)
    && parts.all (fun part => decide (Text.byteLength part ≤ maxPartLength))
    && !path.contains '\x00'
    && !way.contains (enter (way.getLastD []) (parts.getLastD []))

end RingWallet.Log.FilePath
