import TapeMachine.Machine

/-! Whatever befalls a machine is a list of acts, its own steps among them. To its memory, such a
history is a list of attempted writes. -/

namespace TapeMachine

inductive Write where
  | cell (position : Nat) (value : Cell)
  | signed (address value : Cell)
  deriving DecidableEq, Repr

namespace Memory

/-- The memory after a write, unchanged if the write is refused. -/
def attempt (m : Memory) : Write → Memory
  | .cell position value => (m.writeCell position value).toOption.getD m
  | .signed address value => (m.write address value).toOption.getD m

def attempts (m : Memory) (writes : List Write) : Memory := writes.foldl attempt m

@[simp] theorem attempts_nil (m : Memory) : m.attempts [] = m := rfl

@[simp] theorem attempts_cons (m : Memory) (w : Write) (writes : List Write) :
    m.attempts (w :: writes) = (m.attempt w).attempts writes := rfl

theorem attempts_append (m : Memory) (first second : List Write) :
    m.attempts (first ++ second) = (m.attempts first).attempts second := List.foldl_append

end Memory

namespace Engine

def write? (e : Engine) (front : Option Cell) : Option Write :=
  if e.memory.size ≤ e.ip then none
  else
    match e.fetch with
    | .error _ => none
    | .ok i =>
      match i.action with
      | .store address value => some (.signed address value)
      | .input address => front.map (.signed address)
      | _ => none

theorem memory_store (e : Engine) (width : Nat) (address value : Cell) (taken : Option Cell) :
    (e.store width address value taken).1.memory = e.memory.attempt (.signed address value) := by
  cases refused : e.memory.refusal? address with
  | none => simp [store_of_admitted refused, Memory.attempt, Memory.write, refused, Except.toOption]
  | some fault => simp [store_of_fault refused, Memory.attempt, Memory.write, refused,
      Except.toOption]

/-- All that a step does to the memory is the write that it attempts. -/
theorem memory_step (e : Engine) (front : Option Cell) :
    (e.step front).1.memory = e.memory.attempts (e.write? front).toList := by
  unfold step write?
  by_cases ended : e.memory.size ≤ e.ip
  · simp [ended]
  simp only [ended, if_false]
  cases e.fetch with
  | error fault => rfl
  | ok i =>
    simp only [perform]
    cases i.action with
    | store address value => exact memory_store e i.width address value none
    | input address =>
      cases front with
      | none => rfl
      | some value => exact memory_store e i.width address value (some value)
    | _ => rfl

end Engine

namespace Machine

inductive Act where
  | step
  | start
  | supply (values : List Cell)
  | take
  | emit (value : Cell)
  | subscribe (listener : Listener)
  | unsubscribe (id : Nat)
  deriving DecidableEq, Repr

def act (x : Machine) : Act → Machine
  | .step => x.step.1
  | .start => x.start
  | .supply values => x.supply values
  | .take => x.tryTake.1
  | .emit value => x.emit value
  | .subscribe listener => (x.subscribe listener).1
  | .unsubscribe id => (x.unsubscribe id).1

def perform (x : Machine) (acts : List Act) : Machine := acts.foldl act x

def attempted (x : Machine) : Act → List Write
  | .step => if x.phase.isTerminal then [] else (x.engine.write? x.pending.head?).toList
  | _ => []

def writes (x : Machine) : List Act → List Write
  | [] => []
  | a :: acts => x.attempted a ++ (x.act a).writes acts

theorem engine_absorb (x : Machine) (effect : Effect) : (x.absorb effect).1.engine = x.engine := by
  cases effect with
  | failed fault taken => cases taken <;> rfl
  | _ => rfl

theorem memory_act (x : Machine) (a : Act) :
    (x.act a).engine.memory = x.engine.memory.attempts (x.attempted a) := by
  cases a with
  | step =>
    cases going : x.phase.isTerminal with
    | true => simp [act, attempted, step_of_isTerminal going, going]
    | false =>
      simp only [act, attempted, step_of_not_isTerminal going, going, engine_absorb]
      exact Engine.memory_step _ _
  | _ => rfl

theorem memory_perform (x : Machine) (acts : List Act) :
    (x.perform acts).engine.memory = x.engine.memory.attempts (x.writes acts) := by
  induction acts generalizing x with
  | nil => rfl
  | cons a acts ih =>
    rw [writes, Memory.attempts_append, ← memory_act]
    exact ih (x.act a)

end Machine

end TapeMachine
