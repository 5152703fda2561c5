import TapeMachine.Program
import Std.Data.ExtTreeMap

/-! A growing tape of cells at the addresses from zero, and a sparse store of detached cells at
negative addresses. Cells never written read as zero. One limit covers both: the tape may not grow
to an address at or above it, and no new detached cell is made once the two together reach it. Room
is never short here: a real tape cannot hold more than about 2 ^ 60 cells, and a write beyond that
would end the program before the limit could refuse it. -/

namespace TapeMachine

structure Memory where
  cells : Array Cell
  detached : Std.ExtTreeMap Cell Cell
  limit : Nat
  deriving DecidableEq

namespace Memory

def ofProgram (p : Program) (limit : Nat) : Memory := ⟨p.cells.toArray, ∅, limit⟩

def size (m : Memory) : Nat := m.cells.size

/-- The tape cell at a position, zero beyond the end. -/
def cell (m : Memory) (position : Nat) : Cell := m.cells[position]?.getD 0

def read (m : Memory) (address : Cell) : Cell :=
  if address < 0 then m.detached[address]?.getD 0 else m.cell address.toNatClampNeg

def cellRefusal? (m : Memory) (position : Nat) : Option Fault :=
  if m.size ≤ position ∧ m.limit ≤ position then some (.memoryLimit position m.limit) else none

/-- The position that a refused write at a negative address is reported at. -/
def unplaced : Nat := Text.wordBound - 1

def refusal? (m : Memory) (address : Cell) : Option Fault :=
  if address < 0 then
    if address ∉ m.detached ∧ m.limit ≤ m.size + m.detached.size then
      some (.memoryLimit unplaced m.limit)
    else none
  else m.cellRefusal? address.toNatClampNeg

/-- The tape with one cell set, filled up with zeros to hold it. -/
def setCell (m : Memory) (position : Nat) (value : Cell) : Memory :=
  { m with cells := (m.cells.rightpad (position + 1) 0).setIfInBounds position value }

def set (m : Memory) (address value : Cell) : Memory :=
  if address < 0 then { m with detached := m.detached.insert address value }
  else m.setCell address.toNatClampNeg value

def writeCell (m : Memory) (position : Nat) (value : Cell) : Except Fault Memory :=
  match m.cellRefusal? position with
  | some fault => .error fault
  | none => .ok (m.setCell position value)

def write (m : Memory) (address value : Cell) : Except Fault Memory :=
  match m.refusal? address with
  | some fault => .error fault
  | none => .ok (m.set address value)

@[simp] theorem limit_set (m : Memory) (address value : Cell) :
    (m.set address value).limit = m.limit := by
  unfold set setCell; split <;> rfl

@[simp] theorem size_setCell (m : Memory) (position : Nat) (value : Cell) :
    (m.setCell position value).size = max m.size (position + 1) := by
  simp [setCell, size, Array.rightpad]; omega

theorem cell_setCell (m : Memory) (position other : Nat) (value : Cell) :
    (m.setCell position value).cell other = if other = position then value else m.cell other := by
  simp only [setCell, cell, Array.rightpad, Array.getElem?_setIfInBounds, Array.getElem?_append,
    Array.getElem?_replicate, Array.size_append, Array.size_replicate]
  by_cases same : other = position
  · subst same
    rw [if_pos rfl, if_pos rfl, if_pos (by omega)]
    rfl
  · rw [if_neg (Ne.symm same), if_neg same]
    split
    · rfl
    · rename_i outside
      rw [Array.getElem?_eq_none (by omega)]
      split <;> rfl

end Memory

end TapeMachine
