import TapeMachine.Cell
import TapeMachine.Digest
import TapeMachine.Error
import TapeMachine.Text.Blank
import TapeMachine.Text.Decimal

/-! A program is a list of cells, written as integers separated by commas. Blanks around a token are
ignored when a text is read; the rendered text is canonical and is what a fingerprint identifies. -/

namespace TapeMachine

structure Program where
  cells : List Cell
  deriving DecidableEq, Repr

namespace Program

def cell? (token : List Char) : Option Cell := (Text.integer? token).bind Cell.ofInt?

def tokens (text : List Char) : List (List Char) := (text.splitOn ',').map Text.trim

/-- Reads tokens numbered from `index`; the first one that is not a cell is the error. -/
def readTokens (index : Nat) : List (List Char) → Except Error (List Cell)
  | [] => .ok []
  | token :: rest =>
    match cell? token with
    | none => .error (.malformedProgram index (String.ofList token))
    | some cell => (readTokens (index + 1) rest).map (cell :: ·)

def parse (text : String) : Except Error Program :=
  (readTokens 0 (tokens (Text.trim text.toList))).map Program.mk

def render (p : Program) : List Char :=
  [','].intercalate (p.cells.map fun cell => Text.decimal cell.toInt)

def text (p : Program) : String := String.ofList p.render

/-- Identifies a program by a hash of its canonical text. -/
def identifier (hash : List UInt8 → List UInt8) (p : Program) : String :=
  "b3:" ++ Digest.hex (hash p.text.toUTF8.toList)

def fingerprint (p : Program) : String := p.identifier Digest.digest

@[simp] theorem cell?_decimal (cell : Cell) : cell? (Text.decimal cell.toInt) = some cell := by
  simp [cell?]

end Program

end TapeMachine
