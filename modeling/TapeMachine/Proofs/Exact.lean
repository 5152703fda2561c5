import Mathlib.Algebra.Ring.Int.Defs
import Mathlib.Algebra.Ring.Nat
import TapeMachine.Program

/-! The machine over the unbounded integers, as a yardstick for the engine. Memory is a function on
all integers, zero where nothing was written, beside the length of the tape. Each number is computed
exactly, and each parameter is found by a formula of its own: its slot is `ip + 1 + k` and its mode
the digit of the instruction word at `10 ^ (2 + k)`. -/

namespace TapeMachine

inductive Ending where
  | halted
  /-- The instruction pointer ran off the end of the tape. -/
  | exhausted
  | failed (fault : Fault)
  deriving DecidableEq, Repr

inductive Standing where
  | running
  /-- At an input instruction, with no input left. -/
  | suspended
  | stopped (ending : Ending)
  deriving DecidableEq, Repr

inductive Move where
  | store (address value : Int)
  | input (address : Int)
  | output (value : Int)
  | jump (target : Nat)
  | skip
  | rebase (delta : Int)
  | halt
  deriving DecidableEq, Repr

def Move.width : Move → Nat
  | store _ _ => 4
  | input _ | output _ | rebase _ => 2
  | jump _ | skip => 3
  | halt => 1

structure ExactEngine where
  memory : Int → Int
  length : Nat
  ip : Nat
  base : Int
  /-- Instructions completed. -/
  steps : Nat

namespace ExactEngine

def ofProgram (program : List Int) : ExactEngine where
  memory a := if a < 0 then 0 else program[a.toNat]?.getD 0
  length := program.length
  ip := 0
  base := 0
  steps := 0

variable (r : ExactEngine)

def word : Int := r.memory r.ip

def opcode : Nat := r.word.toNat % 100

def slot (k : Nat) : Nat := r.ip + 1 + k

/-- The mode digit of the parameter `k`. -/
def mode (k : Nat) : Int := r.word / 10 ^ (2 + k) % 10

/-- The address that the parameter `k` denotes. An immediate one denotes its own slot. -/
def place (k : Nat) : Except Fault Int :=
  if r.length ≤ r.slot k then .error (.insufficientParameters (r.word % 100) r.ip)
  else if r.mode k = 0 then .ok (r.memory (r.slot k))
  else if r.mode k = 1 then .ok (r.slot k)
  else if r.mode k = 2 then .ok (r.memory (r.slot k) + r.base)
  else .error (.illegalMode (r.mode k) r.ip)

def operand (k : Nat) : Except Fault Int := (r.place k).map r.memory

def binary (f : Int → Int → Int) : Except Fault Move := do
  let a ← r.operand 0
  let b ← r.operand 1
  let address ← r.place 2
  return .store address (f a b)

def branch (taken : Int → Bool) : Except Fault Move := do
  let condition ← r.operand 0
  let target ← r.operand 1
  if taken condition then
    if target < 0 then throw (.negativeAddress target r.ip) else return .jump target.toNat
  else return .skip

def moveOf : Nat → Except Fault Move
  | 1 => r.binary (· + ·)
  | 2 => r.binary (· * ·)
  | 3 => (r.place 0).map .input
  | 4 => (r.operand 0).map .output
  | 5 => r.branch (· != 0)
  | 6 => r.branch (· == 0)
  | 7 => r.binary fun a b => if a < b then 1 else 0
  | 8 => r.binary fun a b => if a = b then 1 else 0
  | 9 => (r.operand 0).map .rebase
  | 99 => .ok .halt
  | code => .error (.illegalOpcode code r.ip)

def move : Except Fault Move :=
  if r.word < 0 then .error (.illegalOpcode r.word r.ip) else r.moveOf r.opcode

def arity : Nat → Nat
  | 1 | 2 | 7 | 8 => 3
  | 5 | 6 => 2
  | 3 | 4 | 9 => 1
  | _ => 0

/-- The relative addresses among the parameters from `k` on, up to the first one refused. -/
def relatives (k : Nat) : Nat → List Int
  | 0 => []
  | count + 1 =>
    match r.place k with
    | .error _ => []
    | .ok address => (if r.mode k = 2 then [address] else []) ++ relatives (k + 1) count

/-- The numbers that the instruction computes: relative addresses, and the result of a sum, a
product, a comparison or a change of base. -/
def computed : List Int :=
  r.relatives 0 (arity r.opcode) ++
    match r.move with
    | .ok (.store _ value) => [value]
    | .ok (.rebase delta) => [r.base + delta]
    | _ => []

/-- Sets a cell; a tape that ends before it grows to hold it. -/
def write (address value : Int) : ExactEngine :=
  { r with
    memory := fun a => if a = address then value else r.memory a
    length := if r.length ≤ address then (address + 1).toNat else r.length }

def goto (ip : Nat) : ExactEngine := { r with ip, steps := r.steps + 1 }

def advance (width : Nat) : ExactEngine := r.goto (r.ip + width)

end ExactEngine

structure ExactMachine extends ExactEngine where
  input : List Int
  output : List Int
  ending : Option Ending

namespace ExactMachine

def start (program : List Int) (input : List Int) : ExactMachine :=
  { ExactEngine.ofProgram program with input, output := [], ending := none }

variable (r : ExactMachine)

def perform (move : Move) : ExactMachine :=
  match move with
  | .store address value =>
    { r with toExactEngine := (r.write address value).advance move.width }
  | .input address =>
    match r.input with
    | [] => r
    | value :: rest =>
      { r with toExactEngine := (r.write address value).advance move.width, input := rest }
  | .output value =>
    { r with toExactEngine := r.advance move.width, output := r.output ++ [value] }
  | .jump target => { r with toExactEngine := r.goto target }
  | .skip => { r with toExactEngine := r.advance move.width }
  | .rebase delta =>
    { r with toExactEngine := { r.advance move.width with base := r.base + delta } }
  | .halt => { r with toExactEngine := r.goto r.ip, ending := some .halted }

variable {r} in
theorem perform_input_nil {address : Int} (empty : r.input = []) :
    r.perform (.input address) = r := by
  simp [perform, empty]

variable {r} in
theorem perform_input_cons {address value : Int} {rest : List Int} (front : r.input = value :: rest) :
    r.perform (.input address) =
      { r with toExactEngine := (r.write address value).advance 2, input := rest } := by
  simp [perform, front, Move.width]

def step : ExactMachine :=
  if r.ending.isSome then r
  else if r.length ≤ r.ip then { r with ending := some .exhausted }
  else
    match r.move with
    | .error fault => { r with ending := some (.failed fault) }
    | .ok move => r.perform move

/-- The machine after `n` steps. A step that has to wait or comes after the end changes nothing. -/
def after : Nat → ExactMachine
  | 0 => r
  | n + 1 => (after n).step

def Going : Prop := r.ending = none ∧ r.ip < r.length

instance : Decidable r.Going := inferInstanceAs (Decidable (_ ∧ _))

def standing : Standing :=
  match r.ending with
  | some ending => .stopped ending
  | none =>
    match r.move, r.input with
    | .ok (.input _), [] => if r.ip < r.length then .suspended else .running
    | _, _ => .running

end ExactMachine

end TapeMachine
