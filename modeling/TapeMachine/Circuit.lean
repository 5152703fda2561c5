import TapeMachine.Machine

/-! Machines wired together: each value that the source of an edge emits goes, in order of emission,
into the pending input of its destination. `advance` lets one node take one step, so a list of node
indices is an interleaving of the whole circuit. -/

namespace TapeMachine

structure Circuit where
  nodes : List Machine := []
  /-- Source and destination of each edge, in order of connection. -/
  edges : List (Nat × Nat) := []
  /-- The node whose last output is the signal of the circuit, if one was chosen. -/
  tap : Option Nat := none
  deriving DecidableEq

namespace Circuit

def size (c : Circuit) : Nat := c.nodes.length

def add (c : Circuit) (x : Machine) : Circuit := { c with nodes := c.nodes ++ [x] }

def node (c : Circuit) (i : Nat) : Except Error Machine :=
  match c.nodes[i]? with
  | some x => .ok x
  | none => .error (.unknownNode i)

/-- Forwards all that `source` emits into the input of `target`; `target` is looked up first. -/
def connect (c : Circuit) (source target : Nat) : Except Error Circuit := do
  let _ ← c.node target
  let _ ← c.node source
  return { c with
    nodes := c.nodes.modify source fun x => (x.subscribe (.forward target)).1
    edges := c.edges ++ [(source, target)] }

def seed (c : Circuit) (i : Nat) (values : List Cell) : Except Error Circuit := do
  let _ ← c.node i
  return { c with nodes := c.nodes.modify i (·.supply values) }

def chooseTap (c : Circuit) (i : Nat) : Except Error Circuit := do
  let _ ← c.node i
  return { c with tap := some i }

def stepNode : Nat → List Machine → List Machine × Event
  | _, [] => ([], .stopped)
  | 0, x :: rest =>
    match x.step with
    | (x, event) => (x :: rest, event)
  | i + 1, x :: rest =>
    match stepNode i rest with
    | (rest, event) => (x :: rest, event)

/-- The nodes that take what the node at `i` emits, once for each edge, in order. -/
def targets (nodes : List Machine) (i : Nat) : List Nat :=
  match nodes[i]? with
  | some x => x.outlet.targets
  | none => []

def deliver (nodes : List Machine) (value : Cell) (targets : List Nat) : List Machine :=
  targets.foldl (fun nodes target => nodes.modify target (·.push value)) nodes

/-- One step of the node at `i`, what it emits being delivered at once. -/
def advance (c : Circuit) (i : Nat) : Circuit × Event :=
  let ⟨nodes, edges, tap⟩ := c
  match stepNode i nodes with
  | (nodes, .emitted value) =>
    (⟨deliver nodes value (targets nodes i), edges, tap⟩, .emitted value)
  | (nodes, event) => (⟨nodes, edges, tap⟩, event)

def fault? (c : Circuit) (i : Nat) : Option Fault := c.nodes[i]?.bind (·.phase.fault?)

def start (c : Circuit) : Circuit := { c with nodes := c.nodes.map Machine.start }

def describe (c : Circuit) : String :=
  let edges := c.edges.map fun (source, target) =>
    "(" ++ Text.decimalText source ++ ", " ++ Text.decimalText target ++ ")"
  let tap := match c.tap with
    | none => "None"
    | some i => "Some(" ++ Text.decimalText i ++ ")"
  "Circuit \x7b nodes: [" ++ ", ".intercalate (c.nodes.map Machine.describe) ++ "], edges: [" ++
    ", ".intercalate edges ++ "], tap: " ++ tap ++ " \x7d"

theorem stepNode_of_getElem? {nodes : List Machine} {i : Nat} {x : Machine}
    (h : nodes[i]? = some x) : stepNode i nodes = (nodes.set i x.step.1, x.step.2) := by
  induction nodes generalizing i with
  | nil => simp at h
  | cons y rest ih =>
    cases i with
    | zero =>
      simp only [List.getElem?_cons_zero, Option.some.injEq] at h
      subst h
      rfl
    | succ i =>
      rw [List.getElem?_cons_succ] at h
      simp [stepNode, ih h]

theorem stepNode_of_length_le {nodes : List Machine} {i : Nat} (h : nodes.length ≤ i) :
    stepNode i nodes = (nodes, .stopped) := by
  induction nodes generalizing i with
  | nil => cases i <;> rfl
  | cons y rest ih =>
    cases i with
    | zero => simp at h
    | succ i => simp [stepNode, ih (Nat.le_of_succ_le_succ h)]

@[simp] theorem length_deliver (nodes : List Machine) (value : Cell) (targets : List Nat) :
    (deliver nodes value targets).length = nodes.length := by
  induction targets generalizing nodes with
  | nil => rfl
  | cons target rest ih =>
    show (deliver (nodes.modify target _) value rest).length = _
    rw [ih, List.length_modify]

end Circuit

end TapeMachine
