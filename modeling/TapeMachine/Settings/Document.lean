import TapeMachine.Json
import TapeMachine.Settings

/-! Settings are an object, whose unknown keys are ignored and whose known keys may stand once, or
an array that gives them by position. What is left out keeps its default. -/

namespace TapeMachine.Settings

def readMode? (pieces : List JsonPiece) : Option ReportMode :=
  (JsonPiece.text? pieces).bind fun text => ReportMode.ofName? (String.ofList text)

/-- A report mode is its name, or an object that gives the name a null. -/
def readReport? : Json → Option ReportMode
  | .string pieces => readMode? pieces
  | .object [(key, .null)] => readMode? key
  | _ => none

/-- A memory limit is a 64-bit number spelled by digits alone. -/
def readLimit? : Json → Option Nat
  | .number spelling => (Text.digits? spelling).filter (· < Text.wordBound)
  | _ => none

structure Given where
  report : Option ReportMode := none
  memoryLimit : Option Nat := none

def Given.add (g : Given) (key : List Char) (value : Json) : Option Given :=
  if key = "report".toList then
    if g.report.isSome then none
    else (readReport? value).map fun mode => { g with report := some mode }
  else if key = "memory_limit".toList then
    if g.memoryLimit.isSome then none
    else (readLimit? value).map fun limit => { g with memoryLimit := some limit }
  else some g

def Given.addAll (g : Given) : List (List JsonPiece × Json) → Option Given
  | [] => some g
  | (key, value) :: rest => do
    let key ← JsonPiece.text? key
    let g ← g.add key value
    g.addAll rest

def Given.settings (g : Given) : Settings :=
  let base : Settings := {}
  { report := g.report.getD base.report, memoryLimit := g.memoryLimit.getD base.memoryLimit }

def ofJson? : Json → Option Settings
  | .object entries => (Given.addAll {} entries).map Given.settings
  | .array [] => some {}
  | .array [report] => (readReport? report).map fun report => { report }
  | .array [report, limit] => do
    let report ← readReport? report
    let memoryLimit ← readLimit? limit
    return { report, memoryLimit }
  | _ => none

def parseJson? (text : String) : Option Settings := (Json.parse? text).bind ofJson?

end TapeMachine.Settings
