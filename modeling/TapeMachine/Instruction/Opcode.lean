import TapeMachine.Error

/-! The two lowest decimal digits of an instruction word give its opcode; the digits above them give
the modes of its parameters, lowest first. -/

namespace TapeMachine

inductive Opcode where
  | add
  | mul
  /-- Take a value from the input. -/
  | input
  | output
  | jumpIfTrue
  | jumpIfFalse
  | lessThan
  | equals
  /-- Move the base of relative addresses. -/
  | rebase
  | halt
  deriving DecidableEq, Repr

namespace Opcode

def code : Opcode → Nat
  | add => 1
  | mul => 2
  | input => 3
  | output => 4
  | jumpIfTrue => 5
  | jumpIfFalse => 6
  | lessThan => 7
  | equals => 8
  | rebase => 9
  | halt => 99

def arity : Opcode → Nat
  | add | mul | lessThan | equals => 3
  | jumpIfTrue | jumpIfFalse => 2
  | input | output | rebase => 1
  | halt => 0

def all : List Opcode :=
  [add, mul, input, output, jumpIfTrue, jumpIfFalse, lessThan, equals, rebase, halt]

def ofCode? (code : Int) : Option Opcode := all.find? fun opcode => opcode.code = code

def ofCode (code : Int) (ip : Nat) : Except Fault Opcode :=
  match ofCode? code with
  | some opcode => .ok opcode
  | none => .error (.illegalOpcode code ip)

theorem ofCode?_eq_some_iff (code : Int) (opcode : Opcode) :
    ofCode? code = some opcode ↔ code = opcode.code := by
  constructor
  · intro h
    have found := List.find?_some h
    exact (of_decide_eq_true found).symm
  · rintro rfl
    cases opcode <;> rfl

end Opcode

inductive Mode where
  | positional
  | immediate
  | relative
  deriving DecidableEq, Repr

namespace Mode

def digit : Mode → Nat
  | positional => 0
  | immediate => 1
  | relative => 2

def all : List Mode := [positional, immediate, relative]

def ofDigit? (digit : Int) : Option Mode := all.find? fun mode => mode.digit = digit

def ofDigit (digit : Int) (ip : Nat) : Except Fault Mode :=
  match ofDigit? digit with
  | some mode => .ok mode
  | none => .error (.illegalMode digit ip)

end Mode

end TapeMachine
