import TapeMachine.Cell
import TapeMachine.Text.Decimal

/-! A queue of input values with at most one receiver kept waiting. New input wakes a registered
receiver, or else leaves a single permit, which the next receiver to find the queue empty uses up
before it waits. The permit may be stale, so a receiver always looks at the queue again. -/

namespace TapeMachine

inductive Receiver where
  | absent
  /-- Not polled yet. -/
  | created
  | registered
  | woken
  deriving DecidableEq, Repr

structure Inbox where
  values : List Cell := []
  permit : Bool := false
  receiver : Receiver := .absent
  deriving DecidableEq, Repr

inductive Poll where
  | absent
  | pending
  | value (value : Cell)
  deriving DecidableEq, Repr

namespace Inbox

/-- Wakes the registered receiver, or stores the permit. -/
def notify (b : Inbox) : Inbox :=
  match b.receiver with
  | .registered => { b with receiver := .woken }
  | _ => { b with permit := true }

/-- Appends values and signals them; no values are no signal. -/
def supply (b : Inbox) (values : List Cell) : Inbox :=
  if values = [] then b else { b with values := b.values ++ values }.notify

def push (b : Inbox) (value : Cell) : Inbox := b.supply [value]

def tryTake (b : Inbox) : Inbox × Option Cell :=
  match b.values with
  | [] => (b, none)
  | value :: rest => ({ b with values := rest }, some value)

/-- Takes the front value; if there is none, uses up a permit and looks again, or gives up. -/
def take (b : Inbox) : Inbox × Option Cell :=
  match b.tryTake with
  | (b', some value) => (b', some value)
  | (_, none) => if b.permit then take { b with permit := false } else (b, none)
  termination_by b.permit.toNat
  decreasing_by simp_all

/-- Gives up the kept receiver; one already woken passes its wake-up on. -/
def drop (b : Inbox) : Inbox :=
  match b.receiver with
  | .woken => { b with receiver := .absent }.notify
  | _ => { b with receiver := .absent }

def wait (b : Inbox) : Inbox := { b.drop with receiver := .created }

def poll (b : Inbox) : Inbox × Poll :=
  match b.receiver with
  | .absent => (b, .absent)
  | .registered => (b, .pending)
  | .created | .woken =>
    match b.take with
    | (b, some value) => ({ b with receiver := .absent }, .value value)
    | (b, none) => ({ b with receiver := .registered }, .pending)

def describe (b : Inbox) : String :=
  "InputQueue \x7b pending: " ++ Text.decimalText b.values.length ++ " \x7d"

end Inbox

end TapeMachine
