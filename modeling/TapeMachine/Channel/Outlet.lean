import TapeMachine.Cell
import TapeMachine.Text.Decimal

/-! An append-only stream of output values with an ordered list of subscribers. A value is appended
first, and then each subscriber is called once, in order of registration. The calls made are kept,
so what a subscriber saw can be asked for later. -/

namespace TapeMachine

inductive Listener where
  /-- Only the call itself is of interest. -/
  | record (tag : String)
  /-- Put it into the input beside the outlet. -/
  | loop
  /-- Put it into the input of a node of the circuit. -/
  | forward (node : Nat)
  deriving DecidableEq, Repr

structure Subscriber where
  id : Nat
  listener : Listener
  deriving DecidableEq, Repr

/-- One call of a subscriber; `length` is the length of the stream during the call. -/
structure Call where
  subscriber : Subscriber
  value : Cell
  index : Nat
  length : Nat
  deriving DecidableEq, Repr

structure Outlet where
  values : Array Cell := #[]
  subscribers : List Subscriber := []
  /-- Ids are counted without a bound, so none comes up twice. -/
  nextId : Nat := 0
  calls : Array Call := #[]
  deriving DecidableEq, Repr

namespace Outlet

def length (o : Outlet) : Nat := o.values.size

def last? (o : Outlet) : Option Cell := o.values.back?

def subscribe (o : Outlet) (listener : Listener) : Outlet × Nat :=
  ({ o with subscribers := o.subscribers ++ [⟨o.nextId, listener⟩], nextId := o.nextId + 1 },
    o.nextId)

/-- Removes the subscriber with an id; false if there is none. -/
def unsubscribe (o : Outlet) (id : Nat) : Outlet × Bool :=
  let rest := o.subscribers.filter (·.id != id)
  ({ o with subscribers := rest }, rest.length != o.subscribers.length)

def emit (o : Outlet) (value : Cell) : Outlet :=
  let ⟨values, subscribers, nextId, calls⟩ := o
  let index := values.size
  let values := values.push value
  let length := values.size
  ⟨values, subscribers, nextId, calls ++ subscribers.map (Call.mk · value index length)⟩

/-- How many times a value goes into the input beside the outlet. -/
def loops (o : Outlet) : Nat := o.subscribers.countP (·.listener = .loop)

def targets (o : Outlet) : List Nat :=
  o.subscribers.filterMap fun s => match s.listener with
    | .forward node => some node
    | _ => none

def recordsFrom (o : Outlet) (position : Nat) : List (String × Call) :=
  (o.calls.toList.drop position).filterMap fun call => match call.subscriber.listener with
    | .record tag => some (tag, call)
    | _ => none

def describe (o : Outlet) : String :=
  let values := o.values.toList.map fun value => Text.decimalText value.toInt
  "OutputStream \x7b values: [" ++ ", ".intercalate values ++ "], subscribers: " ++
    Text.decimalText o.subscribers.length ++ " \x7d"

@[simp] theorem values_emit (o : Outlet) (value : Cell) :
    (o.emit value).values = o.values.push value := rfl

@[simp] theorem subscribers_emit (o : Outlet) (value : Cell) :
    (o.emit value).subscribers = o.subscribers := rfl

@[simp] theorem calls_emit (o : Outlet) (value : Cell) :
    (o.emit value).calls =
      o.calls ++ o.subscribers.map (Call.mk · value o.values.size (o.values.size + 1)) := by
  simp [emit]

end Outlet

end TapeMachine
