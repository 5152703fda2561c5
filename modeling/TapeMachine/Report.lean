import TapeMachine.Cell
import TapeMachine.Settings

/-! What a machine answers when it has stopped: its output, its tape, or both. -/

namespace TapeMachine

inductive Report where
  | output (values : Array Cell)
  | memory (cells : Array Cell)
  | both (cells values : Array Cell)
  deriving DecidableEq, Repr

namespace Report

def build (mode : ReportMode) (cells values : Array Cell) : Report :=
  match mode with
  | .output => output values
  | .memory => memory cells
  | .both => both cells values

def output? : Report → Option (Array Cell)
  | output values => some values
  | memory _ => none
  | both _ values => some values

def memory? : Report → Option (Array Cell)
  | output _ => none
  | memory cells => some cells
  | both cells _ => some cells

def last? (r : Report) : Option Cell := r.output?.bind Array.back?

def jsonCells (cells : Array Cell) : String :=
  "[" ++ ",".intercalate (cells.toList.map fun cell => Text.decimalText cell.toInt) ++ "]"

def json : Report → String
  | output values => jsonCells values
  | memory cells => jsonCells cells
  | both cells values =>
    "\x7b\"memory\":" ++ jsonCells cells ++ ",\"output\":" ++ jsonCells values ++ "\x7d"

end Report

end TapeMachine
