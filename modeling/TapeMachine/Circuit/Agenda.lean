import TapeMachine.Circuit

/-! The schedule that a circuit is run by. Nodes stand in a queue, at first all of them in order.
The front one runs until it stops or needs input that is not there, and then leaves the queue. A
value that reaches a waiting node puts it at the back of the queue, once. -/

namespace TapeMachine

structure Agenda where
  circuit : Circuit
  /-- The nodes that may run, the front one running. -/
  ready : List Nat
  /-- The nodes that wait for input. -/
  waiting : List Nat
  deriving DecidableEq

inductive Verdict where
  /-- Every node has halted or exhausted its tape. -/
  | completed
  /-- No node can run, and some wait for input. -/
  | deadlocked
  | failed (fault : Fault)
  /-- The turns allowed were used up. -/
  | unfinished
  deriving DecidableEq, Repr

namespace Agenda

def ofCircuit (c : Circuit) : Agenda := ⟨c.start, List.range c.size, []⟩

/-- Moves a node to the back of the queue if it is waiting. -/
def wake (a : Agenda) (i : Nat) : Agenda :=
  if i ∈ a.waiting then { a with ready := a.ready ++ [i], waiting := a.waiting.erase i } else a

/-- One step of the front node, or its departure from the queue. -/
def turn (a : Agenda) : Agenda × Option Verdict :=
  match a with
  | ⟨circuit, [], waiting⟩ =>
    (⟨circuit, [], waiting⟩, some (if waiting = [] then .completed else .deadlocked))
  | ⟨circuit, i :: rest, waiting⟩ =>
    match circuit.advance i with
    | (circuit, .emitted _) =>
      let targets := Circuit.targets circuit.nodes i
      (targets.foldl wake ⟨circuit, i :: rest, waiting⟩, none)
    | (circuit, .blocked) => (⟨circuit, rest, waiting ++ [i]⟩, none)
    | (circuit, .stopped) =>
      match circuit.fault? i with
      | some fault => (⟨circuit, i :: rest, waiting⟩, some (.failed fault))
      | none => (⟨circuit, rest, waiting⟩, none)
    | (circuit, _) => (⟨circuit, i :: rest, waiting⟩, none)

def go : Nat → Agenda → Agenda × Verdict
  | 0, a => (a, .unfinished)
  | fuel + 1, a =>
    match a.turn with
    | (a, some verdict) => (a, verdict)
    | (a, none) => go fuel a

end Agenda

inductive Outcome (α : Type) where
  | done (value : α)
  | failed (error : Error)
  | deadlock
  /-- The turns allowed were used up. -/
  | unfinished
  deriving DecidableEq, Repr

namespace Circuit

/-- Runs every node until all have stopped, one has failed or none can go on, for at most `fuel`
turns. -/
def run (fuel : Nat) (c : Circuit) : Circuit × Verdict :=
  match Agenda.go fuel (.ofCircuit c) with
  | (a, verdict) => (a.circuit, verdict)

def finish (fuel : Nat) (c : Circuit) : Circuit × Outcome (List Machine) :=
  match c.run fuel with
  | (c, .completed) => (c, .done c.nodes)
  | (c, .deadlocked) => (c, .deadlock)
  | (c, .failed fault) => (c, .failed (.fault fault))
  | (c, .unfinished) => (c, .unfinished)

/-- The node whose last output is the signal: the chosen one, or else the last. -/
def signalNode (c : Circuit) : Nat := c.tap.getD (c.size - 1)

def signalOf (nodes : List Machine) (i : Nat) : Outcome Cell :=
  match nodes[i]?.bind (·.outlet.last?) with
  | some value => .done value
  | none => .failed (.noOutput i)

def signal (fuel : Nat) (c : Circuit) : Circuit × Outcome Cell :=
  if c.nodes = [] then (c, .failed .emptyCircuit)
  else
    let tap := c.signalNode
    match c.finish fuel with
    | (c, .done nodes) => (c, signalOf nodes tap)
    | (c, .failed error) => (c, .failed error)
    | (c, .deadlock) => (c, .deadlock)
    | (c, .unfinished) => (c, .unfinished)

end Circuit

end TapeMachine
