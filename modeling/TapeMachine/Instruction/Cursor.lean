import TapeMachine.Instruction.Opcode
import TapeMachine.Memory

/-! A cursor stands in the instruction at `ip` and yields its parameters one at a time. Each pull
uses the next slot and the next mode digit, and the mode is positional once the digits run out. A
refused pull leaves the cursor where it was. -/

namespace TapeMachine

structure Cursor where
  opcode : Opcode
  ip : Nat
  base : Cell
  /-- The mode digits not yet used, the next one lowest. -/
  modes : Nat
  used : Nat
  deriving DecidableEq, Repr

namespace Cursor

def start (m : Memory) (ip : Nat) (base : Cell) : Except Fault Cursor :=
  let word := (m.cell ip).toInt
  if word < 0 then .error (.illegalOpcode word ip)
  else
    match Opcode.ofCode (word % 100) ip with
    | .error fault => .error fault
    | .ok opcode => .ok ⟨opcode, ip, base, word.toNat / 100, 0⟩

/-- Cells taken up so far: the word and the parameters pulled. -/
def width (c : Cursor) : Nat := 1 + c.used

def slot (c : Cursor) : Nat := c.ip + 1 + c.used

def next (c : Cursor) : Cursor := { c with modes := c.modes / 10, used := c.used + 1 }

/-- The mode of the next parameter, if it has a slot on the tape. -/
def mode (m : Memory) (c : Cursor) : Except Fault Mode :=
  if m.size ≤ c.slot then .error (.insufficientParameters c.opcode.code c.ip)
  else Mode.ofDigit (c.modes % 10 : Nat) c.ip

def valueBy (m : Memory) (c : Cursor) : Mode → Cell
  | .immediate => m.cell c.slot
  | .positional => m.read (m.cell c.slot)
  | .relative => m.read ((m.cell c.slot).satAdd c.base)

/-- The next slot as a destination; an immediate one is the slot itself. -/
def addressBy (m : Memory) (c : Cursor) : Mode → Cell
  | .immediate => Int64.ofNat c.slot
  | .positional => m.cell c.slot
  | .relative => (m.cell c.slot).satAdd c.base

def value (m : Memory) (c : Cursor) : Except Fault Cell := (c.mode m).map (c.valueBy m)

def address (m : Memory) (c : Cursor) : Except Fault Cell := (c.mode m).map (c.addressBy m)

def target (c : Cursor) (value : Cell) : Except Fault Nat :=
  if value < 0 then .error (.negativeAddress value.toInt c.ip) else .ok value.toNatClampNeg

inductive Use where
  | value
  | address
  deriving DecidableEq, Repr

def peek (m : Memory) (c : Cursor) : Use → Except Fault Cell
  | .value => c.value m
  | .address => c.address m

/-- Pulls the next parameter; a refused pull does not move the cursor. -/
def pull (m : Memory) (c : Cursor) (use : Use) : Except Fault Cell × Cursor :=
  match c.peek m use with
  | .ok cell => (.ok cell, c.next)
  | .error fault => (.error fault, c)

@[simp] theorem slot_next (c : Cursor) : c.next.slot = c.slot + 1 := by
  simp [slot, next]; omega

@[simp] theorem width_next (c : Cursor) : c.next.width = c.width + 1 := by
  simp [width, next]; omega

end Cursor

end TapeMachine
