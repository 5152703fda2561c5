import TapeMachine.Text.Decimal
import TapeMachine.Text.Quoted

/-! A fault stops a running machine for good. The other errors refuse a request: a text that is not
a program, settings that are not known, a circuit that cannot answer. -/

namespace TapeMachine

inductive Fault where
  | illegalOpcode (opcode : Int) (ip : Nat)
  | illegalMode (digit : Int) (ip : Nat)
  | insufficientParameters (opcode : Int) (ip : Nat)
  | negativeAddress (address : Int) (ip : Nat)
  | memoryLimit (address limit : Nat)
  deriving DecidableEq, Repr

inductive Error where
  /-- A token of a program text is not a cell; `index` counts tokens from zero. -/
  | malformedProgram (index : Nat) (token : String)
  | fault (fault : Fault)
  | unknownNode (index : Nat)
  | noOutput (index : Nat)
  | unknownReportMode (text : String)
  | emptyCircuit
  | noPhases
  deriving DecidableEq, Repr

open Text (decimalText quoted)

def Fault.message : Fault → String
  | illegalOpcode opcode ip =>
    "illegal opcode " ++ decimalText opcode ++ " at ip " ++ decimalText ip
  | illegalMode digit ip =>
    "illegal parameter mode " ++ decimalText digit ++ " at ip " ++ decimalText ip
  | insufficientParameters opcode ip =>
    "insufficient parameters for opcode " ++ decimalText opcode ++ " at ip " ++ decimalText ip
  | negativeAddress address ip =>
    "negative address " ++ decimalText address ++ " at ip " ++ decimalText ip
  | memoryLimit address limit =>
    "memory limit: address " ++ decimalText address ++ " exceeds " ++ decimalText limit ++ " cells"

def Error.message : Error → String
  | malformedProgram index token =>
    "malformed program: token " ++ decimalText index ++ " (" ++ quoted token ++
      ") is not an integer"
  | fault f => f.message
  | unknownNode index => "circuit: unknown instance " ++ decimalText index
  | noOutput index => "circuit: instance " ++ decimalText index ++ " produced no output"
  | unknownReportMode text => "config: unknown report mode: " ++ text
  | emptyCircuit => "config: circuit has no instances"
  | noPhases => "config: no phase settings"

def Error.isFatal : Error → Bool
  | fault _ => true
  | _ => false

end TapeMachine
