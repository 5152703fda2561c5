import Mathlib.Data.List.Induction
import TapeMachine.Proofs.Bank
import TapeMachine.Proofs.Conservation
import TapeMachine.Proofs.Wakeup

/-! A circuit is put together by requests, and one that names a node it does not have is refused.
The record of edges is only a record, and what forwards a value is a listener of its source. Over
all requests, refused ones among them, the two agree, so a run that completes has a node for each
index and finds its tap. -/

namespace TapeMachine

/-- The outlet has the listeners of another one, and behind them those that forward to some
nodes. -/
def Outlet.Forwards (o base : Outlet) (targets : List Nat) : Prop :=
  ∃ forwards, o.subscribers = base.subscribers ++ forwards ∧
    forwards.map (·.listener) = targets.map .forward

/-- A machine comes from another by its own steps and by input that is put into it. -/
inductive Machine.Becomes (x : Machine) : Machine → Prop where
  | refl : Becomes x x
  | step {y : Machine} : Becomes x y → Becomes x y.step.1
  | supply {y : Machine} {values : List Cell} : Becomes x y → Becomes x (y.supply values)

namespace Circuit

inductive Request where
  | add (x : Machine)
  | connect (source target : Nat)
  | seed (i : Nat) (values : List Cell)
  | chooseTap (i : Nat)
  deriving DecidableEq

namespace Request

/-- The nodes that a request names, in the order in which they are looked up. -/
def named : Request → List Nat
  | add _ => []
  | connect source target => [target, source]
  | seed i _ => [i]
  | chooseTap i => [i]

def added : Request → List Machine
  | add x => [x]
  | connect .. | seed .. | chooseTap _ => []

def edges : Request → List (Nat × Nat)
  | connect source target => [(source, target)]
  | add _ | seed .. | chooseTap _ => []

end Request

/-- A refused request leaves the caller with the circuit that there was. -/
def settle (c : Circuit) : Except Error Circuit → Circuit × Option Error
  | .ok next => (next, none)
  | .error e => (c, some e)

def serve (c : Circuit) : Request → Circuit × Option Error
  | .add x => (c.add x, none)
  | .connect source target => c.settle (c.connect source target)
  | .seed i values => c.settle (c.seed i values)
  | .chooseTap i => c.settle (c.chooseTap i)

def built (requests : List Request) : Circuit :=
  requests.foldl (fun c request => (c.serve request).1) {}

/-- Work on a circuit in place. What has been changed before an error stays changed. -/
abbrev Building (α : Type) := ExceptT Error (StateM Circuit) α

namespace Building

def look (i : Nat) : Building Machine := ExceptT.mk fun c => (c.node i, c)

def change (f : Circuit → Circuit) : Building Unit := ExceptT.mk fun c => (.ok (), f c)

theorem run_look_bind {α : Type} (i : Nat) (work : Machine → Building α) (c : Circuit) :
    (look i >>= work).run.run c = match c.node i with
      | .ok x => (work x).run.run c
      | .error e => (.error e, c) := by
  show ExceptT.bindCont work (c.node i) c = _
  cases c.node i <;> rfl

end Building

open Building in
def Request.inPlace : Request → Building Unit
  | add x => change (·.add x)
  | connect source target => do
    let _ ← look target
    let _ ← look source
    change fun c => { c with
      nodes := c.nodes.modify source fun x => (x.subscribe (.forward target)).1 }
    change fun c => { c with edges := c.edges ++ [(source, target)] }
  | seed i values => do
    let _ ← look i
    change fun c => { c with nodes := c.nodes.modify i (·.supply values) }
  | chooseTap i => do
    let _ ← look i
    change fun c => { c with tap := some i }

variable {c : Circuit}

theorem node_of_le {i : Nat} (outside : c.size ≤ i) : c.node i = .error (.unknownNode i) := by
  rw [node, List.getElem?_eq_none outside]

def refusal? (c : Circuit) (r : Request) : Option Error :=
  (r.named.find? (c.size ≤ ·)).map .unknownNode

theorem serve_refusal (c : Circuit) (r : Request) : (c.serve r).2 = c.refusal? r := by
  cases r with
  | add x => rfl
  | connect source target =>
    by_cases reached : target < c.size
    · by_cases inside : source < c.size
      · rw [serve, connect_of_lt inside reached]
        simp [settle, refusal?, Request.named, inside, reached]
      · obtain ⟨y, at_target⟩ := node_of_lt reached
        have outside := Nat.le_of_not_lt inside
        simp [serve, connect, at_target, node_of_le outside, bind, Except.bind, settle, refusal?,
          Request.named, reached, outside]
    · have outside := Nat.le_of_not_lt reached
      simp [serve, connect, node_of_le outside, bind, Except.bind, settle, refusal?,
        Request.named, outside]
  | seed i values =>
    by_cases inside : i < c.size
    · rw [serve, seed_of_lt inside]
      simp [settle, refusal?, Request.named, inside]
    · have outside := Nat.le_of_not_lt inside
      simp [serve, seed, node_of_le outside, bind, Except.bind, settle, refusal?,
        Request.named, outside]
  | chooseTap i =>
    by_cases inside : i < c.size
    · obtain ⟨x, found⟩ := node_of_lt inside
      simp [serve, chooseTap, found, bind, Except.bind, pure, Except.pure, settle, refusal?,
        Request.named, inside]
    · have outside := Nat.le_of_not_lt inside
      simp [serve, chooseTap, node_of_le outside, bind, Except.bind, settle, refusal?,
        Request.named, outside]

/-- All that a request can come to: a refusal that leaves everything as it is, or one of the four
changes. -/
theorem serve_cases (c : Circuit) (r : Request) :
    (r.added = [] ∧ ∃ e, c.serve r = (c, some e)) ∨ ∃ next, c.serve r = (next, none) ∧
      ((∃ x, r = .add x ∧ next = c.add x) ∨
        (∃ source target, r = .connect source target ∧ c.connect source target = .ok next) ∨
        (∃ i values, r = .seed i values ∧ c.seed i values = .ok next) ∨
        ∃ i, r = .chooseTap i ∧ c.chooseTap i = .ok next) := by
  cases r with
  | add x => exact .inr ⟨c.add x, rfl, .inl ⟨x, rfl, rfl⟩⟩
  | connect source target =>
    rw [serve]
    cases connected : c.connect source target with
    | error e => exact .inl ⟨rfl, e, rfl⟩
    | ok next => exact .inr ⟨next, rfl, .inr (.inl ⟨source, target, rfl, connected⟩)⟩
  | seed i values =>
    rw [serve]
    cases seeded : c.seed i values with
    | error e => exact .inl ⟨rfl, e, rfl⟩
    | ok next => exact .inr ⟨next, rfl, .inr (.inr (.inl ⟨i, values, rfl, seeded⟩))⟩
  | chooseTap i =>
    rw [serve]
    cases chosen : c.chooseTap i with
    | error e => exact .inl ⟨rfl, e, rfl⟩
    | ok next => exact .inr ⟨next, rfl, .inr (.inr (.inr ⟨i, rfl, chosen⟩))⟩

theorem serve_of_refused {r : Request} {e : Error} (refused : (c.serve r).2 = some e) :
    (c.serve r).1 = c := by
  obtain ⟨-, e, served⟩ | ⟨next, served, -⟩ := serve_cases c r
  · rw [served]
  · rw [served] at refused
    cases refused

theorem edges_serve {r : Request} (granted : (c.serve r).2 = none) :
    (c.serve r).1.edges = c.edges ++ r.edges := by
  obtain ⟨-, e, served⟩ | ⟨next, served, change⟩ := serve_cases c r
  · rw [served] at granted
    cases granted
  · rw [served]
    rcases change with ⟨x, rfl, rfl⟩ | ⟨source, target, rfl, connected⟩ |
      ⟨i, values, rfl, seeded⟩ | ⟨i, rfl, chosen⟩
    · exact (List.append_nil _).symm
    · rw [(connect_ok connected).2.2]
      rfl
    · rw [seed_ok seeded]
      exact (List.append_nil _).symm
    · rw [chooseTap_ok chosen]
      exact (List.append_nil _).symm

/-- Carried out in place a request comes to the same: it is refused before it has changed
anything. -/
theorem run_inPlace (c : Circuit) (r : Request) :
    r.inPlace.run.run c = ((c.serve r).2.elim (.ok ()) .error, (c.serve r).1) := by
  cases r with
  | add x => rfl
  | connect source target =>
    rw [Request.inPlace, Building.run_look_bind, serve, connect]
    cases c.node target with
    | error e => rfl
    | ok y =>
      simp only [Building.run_look_bind]
      cases c.node source <;> rfl
  | seed i values =>
    rw [Request.inPlace, Building.run_look_bind, serve, seed]
    cases c.node i <;> rfl
  | chooseTap i =>
    rw [Request.inPlace, Building.run_look_bind, serve, chooseTap]
    cases c.node i <;> rfl

/-- The record of a circuit under construction: it has the machines that were added, its edges and
its tap are nodes of it, and each machine has got a listener for each edge that leaves it. -/
structure Recorded (c : Circuit) (machines : List Machine) : Prop where
  size : c.size = machines.length
  edges : ∀ edge ∈ c.edges, edge.1 < c.size ∧ edge.2 < c.size
  tap : ∀ i ∈ c.tap, i < c.size
  forwards : ∀ (i : Nat) (x y : Machine), machines[i]? = some x → c.nodes[i]? = some y →
    y.outlet.Forwards x.outlet (c.destinations i)

theorem recorded_empty : Recorded {} [] where
  size := rfl
  edges := by simp
  tap := by simp
  forwards := by simp

variable {machines : List Machine}

theorem Recorded.add (recorded : c.Recorded machines) (x : Machine) :
    (c.add x).Recorded (machines ++ [x]) := by
  have grown : (c.add x).size = c.size + 1 := by simp [Circuit.size, Circuit.add]
  refine ⟨by simp [grown, recorded.size], ?_, ?_, ?_⟩
  · intro edge member
    have inside := recorded.edges edge member
    omega
  · intro i chosen
    have inside := recorded.tap i chosen
    omega
  · intro i y z first second
    rw [Circuit.add, List.getElem?_append, ← Circuit.size] at second
    rw [List.getElem?_append, ← recorded.size] at first
    by_cases inside : i < c.size
    · rw [if_pos inside] at first second
      exact recorded.forwards i y z first second
    · rw [if_neg inside] at first second
      obtain rfl : y = z := Option.some.inj (first.symm.trans second)
      have none_leaves : c.destinations i = [] := by
        rw [destinations, List.map_eq_nil_iff, List.filter_eq_nil_iff]
        intro edge member leaves
        have known := (recorded.edges edge member).1
        simp only [decide_eq_true_eq] at leaves
        omega
      exact ⟨[], by simp, by simp [show (c.add x).destinations i = _ from none_leaves]⟩

theorem Recorded.connect {next : Circuit} {source target : Nat} (recorded : c.Recorded machines)
    (connected : c.connect source target = .ok next) : next.Recorded machines := by
  obtain ⟨inside, reached, rfl⟩ := connect_ok connected
  have same_size {f : Machine → Machine} {edges : List (Nat × Nat)} :
      (Circuit.mk (c.nodes.modify source f) edges c.tap).size = c.size := by simp [Circuit.size]
  refine ⟨same_size.trans recorded.size, ?_, ?_, ?_⟩
  · intro edge member
    rw [same_size]
    rcases List.mem_append.mp member with old | latest
    · exact recorded.edges edge old
    · rw [List.mem_singleton.mp latest]
      exact ⟨inside, reached⟩
  · intro i chosen
    rw [same_size]
    exact recorded.tap i chosen
  · intro i x z first second
    rw [List.getElem?_modify] at second
    obtain ⟨y, node, rfl⟩ := Option.map_eq_some_iff.mp second
    obtain ⟨forwards, listeners, targets⟩ := recorded.forwards i x y first node
    by_cases leaves : source = i
    · subst leaves
      refine ⟨forwards ++ [⟨y.outlet.nextId, .forward target⟩], ?_, ?_⟩
      · simp [Machine.subscribe, Outlet.subscribe, listeners]
      · simp [destinations, List.filter_append, targets]
    · refine ⟨forwards, by simpa [leaves] using listeners, ?_⟩
      rw [targets]
      simp [destinations, List.filter_append, leaves]

theorem Recorded.seed {next : Circuit} {i : Nat} {values : List Cell}
    (recorded : c.Recorded machines) (seeded : c.seed i values = .ok next) :
    next.Recorded machines := by
  have same_size : next.size = c.size := by simp [seed_ok seeded, Circuit.size]
  obtain rfl := seed_ok seeded
  refine ⟨same_size.trans recorded.size, ?_, ?_, ?_⟩
  · rw [same_size]
    exact recorded.edges
  · rw [same_size]
    exact recorded.tap
  · intro j x z first second
    rw [List.getElem?_modify] at second
    obtain ⟨y, node, rfl⟩ := Option.map_eq_some_iff.mp second
    obtain ⟨forwards, listeners, targets⟩ := recorded.forwards j x y first node
    exact ⟨forwards, by split <;> exact listeners, targets⟩

theorem Recorded.chooseTap {next : Circuit} {i : Nat} (recorded : c.Recorded machines)
    (chosen : c.chooseTap i = .ok next) : next.Recorded machines := by
  have inside : i < c.size := by
    rcases Nat.lt_or_ge i c.size with inside | outside
    · exact inside
    · rw [Circuit.chooseTap, node_of_le outside] at chosen
      cases chosen
  obtain rfl := chooseTap_ok chosen
  refine ⟨recorded.size, recorded.edges, ?_, recorded.forwards⟩
  rintro j ⟨⟩
  exact inside

/-- A request keeps the record, whether it is refused or not. -/
theorem Recorded.serve (recorded : c.Recorded machines) (r : Request) :
    (c.serve r).1.Recorded (machines ++ r.added) := by
  obtain ⟨none_added, e, served⟩ | ⟨next, served, change⟩ := serve_cases c r
  · rw [served, none_added, List.append_nil]
    exact recorded
  · rw [served]
    rcases change with ⟨x, rfl, rfl⟩ | ⟨source, target, rfl, connected⟩ |
      ⟨i, values, rfl, seeded⟩ | ⟨i, rfl, chosen⟩
    · exact recorded.add x
    · rw [Request.added, List.append_nil]
      exact recorded.connect connected
    · rw [Request.added, List.append_nil]
      exact recorded.seed seeded
    · rw [Request.added, List.append_nil]
      exact recorded.chooseTap chosen

theorem built_concat (requests : List Request) (r : Request) :
    built (requests ++ [r]) = ((built requests).serve r).1 := by
  rw [built, List.foldl_append]
  rfl

theorem recorded_built (requests : List Request) :
    (built requests).Recorded (requests.flatMap Request.added) := by
  induction requests using List.reverseRecOn with
  | nil => exact recorded_empty
  | append_singleton requests r ih =>
    rw [built_concat, List.flatMap_append, List.flatMap_singleton]
    exact ih.serve r

theorem Interleaving.becomes {schedule : List Nat} {c final : Circuit}
    (run : Interleaving schedule c final) {i : Nat} {base x : Machine}
    (node : c.nodes[i]? = some x) (before : base.Becomes x) :
    ∃ y, final.nodes[i]? = some y ∧ base.Becomes y := by
  induction run generalizing x with
  | nil => exact ⟨x, node, before⟩
  | @cons j schedule c final _ _ ih =>
    refine ih (x := (if i = j then x.step.1 else x).supply (c.arrivals j i)) ?_ ?_
    · rw [nodes_advance, node, Option.map_some]
    · split
      · exact before.step.supply
      · exact before.supply

/-- The finished nodes, each put into the slot of its index as it comes in. What is left empty is
dropped at the end. -/
def collect (nodes : List Machine) (order : List Nat) : List Machine :=
  (order.foldl (fun slots i => slots.set i nodes[i]?) (List.replicate nodes.length none)).filterMap
    id

theorem collect_of_perm {nodes : List Machine} {order : List Nat}
    (once : order.Perm (List.range nodes.length)) : collect nodes order = nodes := by
  -- For any slots to begin with, since the induction sets one before it goes on.
  have filled (order : List Nat) (slots : List (Option Machine)) (j : Nat) :
      (order.foldl (fun slots i => slots.set i nodes[i]?) slots)[j]? =
        if j ∈ order ∧ j < slots.length then some nodes[j]? else slots[j]? := by
    induction order generalizing slots with
    | nil => simp
    | cons i order ih =>
      rw [List.foldl_cons, ih, List.length_set, List.getElem?_set]
      by_cases same : i = j
      · subst same
        by_cases inside : i < slots.length <;> simp [inside]
      · simp [same, Ne.symm same]
  have all_filled : order.foldl (fun slots i => slots.set i nodes[i]?)
      (List.replicate nodes.length none) = nodes.map some := by
    apply List.ext_getElem?
    intro j
    simp only [filled, once.mem_iff, List.mem_range, List.length_replicate, and_self,
      List.getElem?_map]
    by_cases inside : j < nodes.length <;> simp [inside]
  rw [collect, all_filled, List.filterMap_map]
  exact List.filterMap_some

theorem Recorded.signalNode (recorded : c.Recorded machines) (occupied : c.nodes ≠ []) :
    c.signalNode < c.size := by
  have some_node : 0 < c.size := List.length_pos_iff.mpr occupied
  rw [Circuit.signalNode]
  cases chosen : c.tap with
  | none => exact Nat.sub_lt some_node Nat.one_pos
  | some i => exact recorded.tap i chosen

/-- A run that completes has come to an empty agenda, and its nodes are the answer. -/
theorem go_of_finish {fuel : Nat} {d : Circuit} {nodes : List Machine}
    (finished : c.finish fuel = (d, .done nodes)) :
    ∃ a, Agenda.go fuel (.ofCircuit c) = (a, .completed) ∧ d = a.circuit ∧ nodes = d.nodes := by
  rw [finish, run] at finished
  generalize Agenda.go fuel (.ofCircuit c) = result at finished
  obtain ⟨a, verdict⟩ := result
  cases verdict with
  | completed =>
    obtain ⟨rfl, answer⟩ := Prod.mk.inj finished
    cases answer
    exact ⟨a, rfl, rfl, rfl⟩
  | _ => cases finished

end Circuit

namespace Agenda

variable {c : Circuit} {a b : Agenda} {fuel : Nat}

/-- The front node, if the turn from one state to the other was its last. -/
def departed (a b : Agenda) : List Nat :=
  a.ready.head?.toList.filter (· ∉ b.ready ++ b.waiting)

def departures : Nat → Agenda → List Nat
  | 0, _ => []
  | fuel + 1, a =>
    match a.turn with
    | (_, some _) => []
    | (b, none) => departed a b ++ departures fuel b

theorem perm_departed (sound : a.Sound) (turned : a.turn = (b, none)) :
    (departed a b ++ (b.ready ++ b.waiting)).Perm (a.ready ++ a.waiting) := by
  obtain ⟨circuit, ready, waiting⟩ := a
  obtain ⟨i, rest, ready_eq, step⟩ := turn_cases sound turned
  obtain rfl : ready = i :: rest := ready_eq
  -- A node that is still queued or waiting has not departed.
  have stays (still : (b.ready ++ b.waiting).Perm (i :: rest ++ waiting)) :
      (departed ⟨circuit, i :: rest, waiting⟩ b ++ (b.ready ++ b.waiting)).Perm
        (i :: rest ++ waiting) := by
    have member : i ∈ b.ready ++ b.waiting := still.mem_iff.mpr (by simp)
    have none_departed : departed ⟨circuit, i :: rest, waiting⟩ b = [] := by
      rw [departed, List.head?_cons, Option.toList_some]
      exact List.filter_cons_of_neg (by simpa only [decide_eq_true_eq, not_not] using member)
    rw [none_departed]
    exact still
  rcases step with ⟨-, rfl⟩ | ⟨-, -, -, -, rfl⟩ | ⟨-, -, -, rfl⟩
  · exact stays (perm_foldl_wake ..)
  · refine stays ?_
    rw [← List.append_assoc]
    exact List.perm_append_singleton i _
  · have absent : i ∉ rest ++ waiting := (List.nodup_cons.mp sound.once).1
    have gone : departed ⟨circuit, i :: rest, waiting⟩ ⟨circuit, rest, waiting⟩ = [i] := by
      simp only [departed, List.head?_cons, Option.toList_some]
      rw [List.filter_cons_of_pos (by simpa using absent), List.filter_nil]
    rw [gone]
    exact .refl _

theorem turn_completed (completed : a.turn = (b, some .completed)) :
    b = a ∧ a.ready = [] ∧ a.waiting = [] := by
  obtain ⟨circuit, ready, waiting⟩ := a
  cases ready with
  | nil =>
    obtain ⟨rfl, verdict⟩ := Prod.mk.inj completed
    split at verdict
    · exact ⟨rfl, rfl, ‹_›⟩
    · cases verdict
  | cons i rest =>
    rw [turn] at completed
    generalize circuit.advance i = result at completed
    obtain ⟨next, event⟩ := result
    cases event with
    | stopped => cases fault : next.fault? i <;> simp [fault] at completed
    | _ => cases completed

/-- Along a run that completes, each node that is queued or waits departs once. -/
theorem perm_departures (sound : a.Sound) (completed : go fuel a = (b, .completed)) :
    (departures fuel a).Perm (a.ready ++ a.waiting) := by
  induction fuel generalizing a with
  | zero => cases completed
  | succ fuel ih =>
    rw [go] at completed
    rw [departures]
    rcases turned : a.turn with ⟨next, _ | verdict⟩
    · rw [turned] at completed
      have later := ih (sound.turn turned) completed
      exact (later.append_left _).trans (perm_departed sound turned)
    · rw [turned] at completed
      obtain ⟨rfl, rfl⟩ := Prod.mk.inj completed
      obtain ⟨-, ready, waiting⟩ := turn_completed turned
      rw [ready, waiting]
      exact .refl _

theorem Reached.completed (reached : Reached c a)
    (completed : Agenda.go fuel a = (b, .completed)) :
    Reached c b ∧ b.ready = [] ∧ b.waiting = [] := by
  induction fuel generalizing a with
  | zero => cases completed
  | succ fuel ih =>
    rw [Agenda.go] at completed
    rcases turned : a.turn with ⟨next, _ | verdict⟩
    · rw [turned] at completed
      exact ih (reached.turn turned) completed
    · rw [turned] at completed
      obtain ⟨rfl, rfl⟩ := Prod.mk.inj completed
      obtain ⟨rfl, ready, waiting⟩ := turn_completed turned
      exact ⟨reached, ready, waiting⟩

end Agenda

namespace Circuit

variable {c d : Circuit} {fuel : Nat} {nodes : List Machine}

/-- The nodes of a completed run are those of the circuit, index by index, each come to its end; the
slots for them are all filled. -/
theorem nodes_of_finish (finished : c.finish fuel = (d, .done nodes)) :
    nodes.length = c.size ∧
    (∀ (i : Nat) (x : Machine), c.nodes[i]? = some x →
      ∃ y : Machine, nodes[i]? = some y ∧ y.Finished ∧ x.start.Becomes y) ∧
    (Agenda.departures fuel (.ofCircuit c)).Perm (List.range c.size) ∧
    ∀ order, order.Perm (List.range c.size) → collect d.nodes order = nodes := by
  obtain ⟨a, completed, rfl, rfl⟩ := go_of_finish finished
  obtain ⟨reached, ready, waiting⟩ := Agenda.Reached.start.completed completed
  have size : a.circuit.nodes.length = c.size := reached.size
  have order := Agenda.perm_departures (Agenda.sound_ofCircuit c) completed
  rw [Agenda.ofCircuit, List.append_nil] at order
  refine ⟨size, fun i x node => ?_, order, fun order once => collect_of_perm (size ▸ once)⟩
  obtain ⟨schedule, run⟩ := reached.interleaving
  have started : c.start.nodes[i]? = some x.start := by
    rw [Circuit.start, List.getElem?_map, node, Option.map_some]
  obtain ⟨y, after, becomes⟩ := run.becomes started .refl
  have inside := (List.getElem?_eq_some_iff.mp after).1
  obtain ⟨z, same, done⟩ := reached.settled i inside (by simp [ready, waiting])
  rw [after] at same
  exact ⟨y, after, Option.some.inj same ▸ done, becomes⟩

/-- The signal of a completed run is looked up at a node that there is. -/
theorem signal_of_finish (finished : c.finish fuel = (d, .done nodes)) (occupied : c.nodes ≠ [])
    (inside : c.signalNode < c.size) :
    ∃ y : Machine, nodes[c.signalNode]? = some y ∧
      (c.signal fuel).2 = y.outlet.last?.elim (.failed (.noOutput c.signalNode)) .done := by
  have found : c.signalNode < nodes.length := by
    rw [(nodes_of_finish finished).1]
    exact inside
  have node : nodes[c.signalNode]? = some nodes[c.signalNode] := List.getElem?_eq_getElem found
  refine ⟨_, node, ?_⟩
  simp only [signal, if_neg occupied, finished, signalOf, node, Option.bind_some]
  cases nodes[c.signalNode].outlet.last? <;> rfl

/-- Whatever is asked for, a circuit under construction has the machines that were added to it, and
each has got a listener for each recorded edge that leaves it, in the order of the record; edges
and tap are nodes of the circuit. A request is refused for the first unknown node that it names,
before it has changed anything. So a completed run has one node for each index, in order, and finds
its tap, be it chosen or the last node. -/
theorem wiring_consistent (requests : List Request) :
    let c := built requests
    let machines := requests.flatMap Request.added
    ((∀ edge ∈ c.edges, edge.1 < c.size ∧ edge.2 < c.size) ∧ (∀ i ∈ c.tap, i < c.size) ∧
      (c.nodes ≠ [] → c.signalNode < c.size)) ∧
    (c.size = machines.length ∧ ∀ (i : Nat) (x y : Machine), machines[i]? = some x →
      c.nodes[i]? = some y → y.outlet.Forwards x.outlet (c.destinations i)) ∧
    (∀ before r rest, requests = before ++ r :: rest →
      let now := built before
      (now.serve r).2 = (r.named.find? (now.size ≤ ·)).map .unknownNode ∧
      (∀ e, (now.serve r).2 = some e → r.inPlace.run.run now = (.error e, now)) ∧
      ((now.serve r).2 = none → r.inPlace.run.run now = (.ok (), (now.serve r).1) ∧
        (now.serve r).1.edges = now.edges ++ r.edges)) ∧
    ∀ fuel d nodes, c.finish fuel = (d, .done nodes) →
      nodes.length = c.size ∧
      (∀ (i : Nat) (x : Machine), c.nodes[i]? = some x →
        ∃ y : Machine, nodes[i]? = some y ∧ y.Finished ∧ x.start.Becomes y) ∧
      (Agenda.departures fuel (.ofCircuit c)).Perm (List.range c.size) ∧
      (∀ order, order.Perm (List.range c.size) → collect d.nodes order = nodes) ∧
      (c.nodes ≠ [] → ∃ y : Machine, nodes[c.signalNode]? = some y ∧
        (c.signal fuel).2 = y.outlet.last?.elim (.failed (.noOutput c.signalNode)) .done) := by
  intro c machines
  have recorded : c.Recorded machines := recorded_built requests
  refine ⟨⟨recorded.edges, recorded.tap, recorded.signalNode⟩,
    ⟨recorded.size, recorded.forwards⟩, ?_, ?_⟩
  · rintro before r rest - now
    refine ⟨serve_refusal now r, fun e refused => ?_, fun granted => ⟨?_, edges_serve granted⟩⟩
    · rw [run_inPlace, refused, serve_of_refused refused]
      rfl
    · rw [run_inPlace, granted]
      rfl
  · intro fuel d nodes finished
    obtain ⟨length, becomes, order, collected⟩ := nodes_of_finish finished
    exact ⟨length, becomes, order, collected, fun occupied =>
      signal_of_finish finished occupied (recorded.signalNode occupied)⟩

/-- A value goes along two edges to a node that takes one of them, and four requests are refused on
the way. The source departs first. -/
theorem wiring_consistent_refusals :
    let reader := Machine.create ⟨[3, 0, 99]⟩ {}
    let writer := Machine.create ⟨[104, 5, 99]⟩ {}
    let requests : List Request := [.add reader, .connect 0 1, .add writer, .connect 1 0,
      .connect 5 4, .seed 2 [1], .chooseTap 2, .connect 1 0]
    let c := built requests
    let d := (c.finish 10).1
    (c.edges = [(1, 0), (1, 0)] ∧ c.finish 10 = (d, .done d.nodes)) ∧
    ((built (requests.take 4)).serve (.connect 5 4)).2 = some (.unknownNode 4) ∧
    (Request.connect 5 4).inPlace.run.run (built (requests.take 4)) =
      (.error (.unknownNode 4), built (requests.take 4)) ∧
    (∃ y : Machine, c.nodes[1]? = some y ∧ y.outlet.Forwards writer.outlet [0, 0]) ∧
    Agenda.departures 10 (.ofCircuit c) = [1, 0] ∧
    collect d.nodes [1, 0] = d.nodes ∧ d.nodes.length = 2 ∧
    ∃ y : Machine, d.nodes[1]? = some y ∧
      (c.signal 10).2 = y.outlet.last?.elim (.failed (.noOutput 1)) .done := by
  intro reader writer requests c d
  obtain ⟨-, ⟨-, forwards⟩, served, completed⟩ := wiring_consistent requests
  have premises : c.edges = [(1, 0), (1, 0)] ∧ c.finish 10 = (d, .done d.nodes) := by
    decide +kernel
  obtain ⟨length, -, once, collected, tap⟩ := completed 10 d d.nodes premises.2
  have order : Agenda.departures 10 (.ofCircuit c) = [1, 0] := by decide +kernel
  have refused : ((built (requests.take 4)).serve (.connect 5 4)).2 = some (.unknownNode 4) :=
    (served (requests.take 4) (.connect 5 4) _ rfl).1.trans (by decide +kernel)
  have unchanged := (served (requests.take 4) (.connect 5 4) _ rfl).2.1 _ refused
  have inside : 1 < c.nodes.length := by decide +kernel
  have leaves : c.destinations 1 = [0, 0] := by decide +kernel
  have last : c.signalNode = 1 := by decide +kernel
  have occupied : c.nodes ≠ [] := List.ne_nil_of_length_pos (Nat.zero_lt_of_lt inside)
  rw [order] at once
  rw [last] at tap
  refine ⟨premises, refused, unchanged, ⟨c.nodes[1], List.getElem?_eq_getElem inside, ?_⟩, order,
    collected [1, 0] once, ?_, tap occupied⟩
  · rw [← leaves]
    exact forwards 1 writer _ (by rfl) (List.getElem?_eq_getElem inside)
  · rw [length]
    decide +kernel

end Circuit

end TapeMachine
