import TapeMachine.Instruction.Cursor

/-! An instruction is resolved into an action before anything is changed: its parameters are pulled
and looked up, and the first one that is refused is the fault. -/

namespace TapeMachine

/-- An instruction with its parameters resolved. -/
inductive Action where
  | store (address value : Cell)
  /-- Store the next input value. -/
  | input (address : Cell)
  | output (value : Cell)
  | jump (target : Nat)
  | skip
  | rebase (delta : Cell)
  | halt
  deriving DecidableEq, Repr

structure Instruction where
  action : Action
  width : Nat
  deriving DecidableEq, Repr

namespace Cursor

def combine (m : Memory) (c : Cursor) (f : Cell → Cell → Cell) : Except Fault Instruction := do
  let a ← c.value m
  let b ← c.next.value m
  let address ← c.next.next.address m
  return ⟨.store address (f a b), c.next.next.next.width⟩

/-- A condition and a target; the target counts only if the jump is taken. -/
def branch (m : Memory) (c : Cursor) (taken : Cell → Bool) : Except Fault Instruction := do
  let condition ← c.value m
  let value ← c.next.value m
  if taken condition then
    let target ← c.target value
    return ⟨.jump target, c.next.next.width⟩
  else
    return ⟨.skip, c.next.next.width⟩

def instruction (m : Memory) (c : Cursor) : Except Fault Instruction :=
  match c.opcode with
  | .add => c.combine m Cell.satAdd
  | .mul => c.combine m Cell.satMul
  | .lessThan => c.combine m fun a b => Cell.ofBool (a < b)
  | .equals => c.combine m fun a b => Cell.ofBool (a == b)
  | .input => (c.address m).map fun address => ⟨.input address, c.next.width⟩
  | .output => (c.value m).map fun value => ⟨.output value, c.next.width⟩
  | .jumpIfTrue => c.branch m (· != 0)
  | .jumpIfFalse => c.branch m (· == 0)
  | .rebase => (c.value m).map fun delta => ⟨.rebase delta, c.next.width⟩
  | .halt => .ok ⟨.halt, c.width⟩

end Cursor

end TapeMachine
