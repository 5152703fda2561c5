import TapeMachine.Instruction

/-! Memory and registers of one machine. A step resolves the instruction at the instruction pointer
and carries it out; one that is refused or has to wait leaves the engine as it was. -/

namespace TapeMachine

structure Engine where
  memory : Memory
  ip : Nat
  base : Cell
  /-- Instructions completed. The count has no bound; 64 bits would last for any run in practice. -/
  steps : Nat
  deriving DecidableEq

/-- What a step did, as seen from outside the engine. -/
inductive Effect where
  | quiet
  /-- The front input value was taken and stored. -/
  | took (value : Cell)
  | emitted (value : Cell)
  | halted
  /-- The instruction pointer is past the end of the tape. -/
  | exhausted
  /-- The instruction needs an input value and there is none. -/
  | blocked
  /-- The instruction was refused; `taken` is the input value lost with it, if any. -/
  | failed (fault : Fault) (taken : Option Cell)
  deriving DecidableEq, Repr

namespace Engine

def ofProgram (p : Program) (limit : Nat) : Engine := ⟨Memory.ofProgram p limit, 0, 0, 0⟩

def fetch (e : Engine) : Except Fault Instruction :=
  match Cursor.start e.memory e.ip e.base with
  | .ok cursor => cursor.instruction e.memory
  | .error fault => .error fault

/-- Completes an instruction by continuing at `ip`. -/
def goto (e : Engine) (ip : Nat) : Engine := { e with ip, steps := e.steps + 1 }

def storeEffect : Option Cell → Effect
  | none => .quiet
  | some value => .took value

/-- Completes an instruction by a write, unless memory refuses it. -/
def store (e : Engine) (width : Nat) (address value : Cell) (taken : Option Cell) :
    Engine × Effect :=
  match e.memory.refusal? address with
  | some fault => (e, .failed fault taken)
  | none =>
    let ⟨memory, ip, base, steps⟩ := e
    (⟨memory.set address value, ip + width, base, steps + 1⟩, storeEffect taken)

def perform (e : Engine) (i : Instruction) (front : Option Cell) : Engine × Effect :=
  match i.action with
  | .store address value => e.store i.width address value none
  | .input address =>
    match front with
    | none => (e, .blocked)
    | some value => e.store i.width address value (some value)
  | .output value => (e.goto (e.ip + i.width), .emitted value)
  | .jump target => (e.goto target, .quiet)
  | .skip => (e.goto (e.ip + i.width), .quiet)
  | .rebase delta => ({ e.goto (e.ip + i.width) with base := e.base.satAdd delta }, .quiet)
  | .halt => (e.goto e.ip, .halted)

def step (e : Engine) (front : Option Cell) : Engine × Effect :=
  if e.memory.size ≤ e.ip then (e, .exhausted)
  else
    match e.fetch with
    | .error fault => (e, .failed fault none)
    | .ok i => e.perform i front

/-- A refused store changes nothing. -/
theorem store_of_fault {e : Engine} {address : Cell} {fault : Fault}
    (h : e.memory.refusal? address = some fault) (width : Nat) (value : Cell)
    (taken : Option Cell) : e.store width address value taken = (e, .failed fault taken) := by
  simp [store, h]

theorem store_of_admitted {e : Engine} {address : Cell} (h : e.memory.refusal? address = none)
    (width : Nat) (value : Cell) (taken : Option Cell) :
    e.store width address value taken =
      (⟨e.memory.set address value, e.ip + width, e.base, e.steps + 1⟩, storeEffect taken) := by
  simp [store, h]

end Engine

end TapeMachine
