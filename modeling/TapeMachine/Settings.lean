import TapeMachine.Error
import TapeMachine.Text.Blank
import TapeMachine.Text.Decimal

/-! What a finished machine reports, and how many cells it may use. -/

namespace TapeMachine

inductive ReportMode where
  | output
  | memory
  | both
  deriving DecidableEq, Repr

namespace ReportMode

def name : ReportMode → String
  | output => "output"
  | memory => "memory"
  | both => "both"

def ofName? (text : String) : Option ReportMode :=
  if text = "output" then some output
  else if text = "memory" then some memory
  else if text = "both" then some both
  else none

/-- Reads a mode, whatever the blanks around it and the case of its ASCII letters. -/
def parse (text : String) : Except Error ReportMode :=
  let plain := String.ofList ((Text.trim text.toList).map Char.toLower)
  match ofName? plain with
  | some mode => .ok mode
  | none => .error (.unknownReportMode plain)

end ReportMode

structure Settings where
  report : ReportMode := .output
  memoryLimit : Nat := 16777216
  deriving DecidableEq, Repr

namespace Settings

/-- Settings from the values of two environment variables; one that is missing or cannot be read
leaves the default. -/
def ofEnvironment (report memoryLimit : Option String) : Settings :=
  let base : Settings := {}
  let limit := memoryLimit.bind fun text => Text.natural64? text.toList
  { report := (report.bind fun text => (ReportMode.parse text).toOption).getD base.report
    memoryLimit := limit.getD base.memoryLimit }

def json (s : Settings) : String :=
  "\x7b\"report\":\"" ++ s.report.name ++ "\",\"memory_limit\":" ++
    Text.decimalText s.memoryLimit ++ "\x7d"

end Settings

end TapeMachine
