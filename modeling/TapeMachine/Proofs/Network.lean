import TapeMachine.Proofs.Readiness
import TapeMachine.Proofs.Station

/-! A circuit whose nodes read from inboxes. Nobody keeps a list of those that wait: a value that is
pushed into an inbox wakes the receiver that is registered there, and this is what puts a node back
into the queue. The agenda of the circuit shows such a network, and the two take the same turns. -/

namespace TapeMachine

namespace Agenda

def withNodes (a : Agenda) (nodes : List Machine) : Agenda :=
  { a with circuit.nodes := nodes }

theorem wake_withNodes (a : Agenda) (nodes : List Machine) (i : Nat) :
    (a.withNodes nodes).wake i = (a.wake i).withNodes nodes := by
  unfold wake withNodes
  split <;> rfl

end Agenda

structure Network where
  stations : List Station
  ready : List Nat

namespace Network

def ofCircuit (c : Circuit) : Network where
  stations := c.start.nodes.map .ofMachine
  ready := List.range c.size

def waits (n : Network) (i : Nat) : Bool :=
  n.stations[i]?.any (·.inbox.receiver = .registered)

/-- Puts a value into the inbox of a node, and the node into the queue if it is woken by that. -/
def push (value : Cell) (n : Network) (i : Nat) : Network where
  stations := n.stations.modify i (·.supply [value])
  ready := if n.waits i then n.ready ++ [i] else n.ready

/-- The node at `i` has stepped, at the front of the queue: it goes on there or leaves it. -/
def resolve (stations : List Station) (i : Nat) (rest : List Nat) :
    Station × Event → Network × Option Verdict
  | (s, .emitted value) =>
    (s.machine.outlet.targets.foldl (push value) ⟨stations.set i s, i :: rest⟩, none)
  | (s, .blocked) => (⟨stations.set i s, rest⟩, none)
  | (s, .stopped) =>
    match s.machine.phase.fault? with
    | some fault => (⟨stations.set i s, i :: rest⟩, some (.failed fault))
    | none => (⟨stations.set i s, rest⟩, none)
  | (s, .moved) | (s, .took _) => (⟨stations.set i s, i :: rest⟩, none)

def turn (n : Network) : Network × Option Verdict :=
  match n with
  | ⟨stations, []⟩ =>
    (n, some (if stations.any (·.inbox.receiver = .registered) then .deadlocked else .completed))
  | ⟨stations, i :: rest⟩ =>
    match stations[i]? with
    | none => (⟨stations, rest⟩, none)
    | some s => resolve stations i rest s.step

inductive Reached (c : Circuit) : Network → Prop where
  | start : Reached c (ofCircuit c)
  | turn {n m : Network} : Reached c n → n.turn = (m, none) → Reached c m

/-- The agenda shows the network: its nodes have the values of the inboxes pending, and those that
wait are those with a registered receiver. -/
structure Shows (n : Network) (a : Agenda) : Prop where
  nodes : a.circuit.nodes = n.stations.map Station.view
  ready : a.ready = n.ready
  waiting : ∀ i, i ∈ a.waiting ↔ n.waits i
  once : a.waiting.Nodup
  sound : ∀ s ∈ n.stations, s.Sound

variable {n : Network} {a : Agenda}

theorem shows_ofCircuit (c : Circuit) : (ofCircuit c).Shows (.ofCircuit c) where
  nodes := by
    rw [ofCircuit, Agenda.ofCircuit, List.map_map]
    exact (List.map_id'' (fun x => Station.view_ofMachine x) _).symm
  ready := rfl
  waiting i := by
    rw [waits, ofCircuit, List.getElem?_map]
    cases c.start.nodes[i]? <;> simp [Agenda.ofCircuit, Station.absent_ofMachine]
  once := List.nodup_nil
  sound s member := by
    obtain ⟨x, -, rfl⟩ := List.mem_map.mp member
    exact Station.sound_ofMachine x

theorem waits_push (value : Cell) (n : Network) (i j : Nat) :
    (n.push value i).waits j ↔ n.waits j ∧ j ≠ i := by
  rw [waits, waits, push, List.getElem?_modify]
  by_cases same : i = j
  · subst same
    cases n.stations[i]? with
    | none => simp
    | some s => simp [s.unregistered_supply value]
  · simp [same, Ne.symm same]

theorem nodes_modify (stations : List Station) (values : List Cell) (i : Nat) :
    (stations.modify i (·.supply values)).map Station.view =
      (stations.map Station.view).modify i (·.supply values) := by
  apply List.ext_getElem?
  intro j
  rw [List.getElem?_map, List.getElem?_modify, List.getElem?_modify, List.getElem?_map]
  cases stations[j]? with
  | none => simp
  | some s => split <;> simp [Station.view, Station.supply, Machine.supply]

theorem Shows.push (shows : n.Shows a) (value : Cell) (i : Nat) :
    (n.push value i).Shows
      ((a.wake i).withNodes (a.circuit.nodes.modify i (·.push value))) where
  nodes := by
    rw [Network.push, nodes_modify, ← shows.nodes]
    rfl
  ready := by
    show (a.wake i).ready = _
    rw [Agenda.wake, Network.push, ← shows.ready]
    by_cases waits : i ∈ a.waiting
    · rw [if_pos waits, if_pos ((shows.waiting i).mp waits)]
    · rw [if_neg waits, if_neg (mt (shows.waiting i).mpr waits)]
  waiting j := by
    show j ∈ (a.wake i).waiting ↔ _
    rw [waits_push, ← shows.waiting, Agenda.wake]
    split
    · rw [shows.once.mem_erase_iff, and_comm]
    · rename_i absent
      refine ⟨fun member => ⟨member, ?_⟩, And.left⟩
      rintro rfl
      exact absent member
  once := by
    show (a.wake i).waiting.Nodup
    rw [Agenda.wake]
    split
    · exact shows.once.erase i
    · exact shows.once
  sound s member := by
    obtain ⟨j, found⟩ := List.mem_iff_getElem?.mp member
    rw [Network.push, List.getElem?_modify] at found
    obtain ⟨t, before, rfl⟩ := Option.map_eq_some_iff.mp found
    have sound := shows.sound t (List.mem_of_getElem? before)
    split
    · exact sound.supply [value]
    · exact sound

/-- All values are delivered before the first node is woken, or each node is woken as its value
comes: it is the same. -/
theorem Shows.deliver (shows : n.Shows a) (value : Cell) (targets : List Nat) :
    (targets.foldl (Network.push value) n).Shows
      (targets.foldl Agenda.wake
        (a.withNodes (Circuit.deliver a.circuit.nodes value targets))) := by
  induction targets generalizing n a with
  | nil => exact shows
  | cons i rest ih =>
    rw [List.foldl_cons, List.foldl_cons, Agenda.wake_withNodes]
    exact ih (shows.push value i)

/-- The front node has stepped; `ready` is the queue after that, and `waiting` says of it whether
its receiver is registered now. -/
theorem Shows.set (shows : n.Shows a) {i : Nat} {s : Station} (sound : s.Sound)
    (ready waiting : List Nat) (once : waiting.Nodup)
    (others : ∀ j, j ≠ i → (j ∈ waiting ↔ j ∈ a.waiting))
    (own : i ∈ waiting ↔ s.inbox.receiver = .registered) (inside : i < n.stations.length) :
    Shows ⟨n.stations.set i s, ready⟩
      ⟨{ a.circuit with nodes := a.circuit.nodes.set i s.view }, ready, waiting⟩ where
  nodes := by rw [List.map_set, ← shows.nodes]
  ready := rfl
  waiting j := by
    rw [waits]
    by_cases same : j = i
    · subst same
      rw [List.getElem?_set_self inside, own]
      simp
    · rw [others j same, shows.waiting, waits, List.getElem?_set_ne (Ne.symm same)]
  once := once
  sound t member := by
    rcases List.mem_or_eq_of_mem_set member with before | rfl
    · exact shows.sound t before
    · exact sound

theorem Shows.none_waits_iff (shows : n.Shows a) :
    a.waiting = [] ↔ n.stations.any (·.inbox.receiver = .registered) = false := by
  rw [List.eq_nil_iff_forall_not_mem, List.any_eq_false]
  constructor
  · intro none_waits s member
    obtain ⟨i, found⟩ := List.mem_iff_getElem?.mp member
    have unregistered := mt (shows.waiting i).mpr (none_waits i)
    rwa [waits, found] at unregistered
  · intro unregistered i member
    have waits := (shows.waiting i).mp member
    rw [Network.waits] at waits
    cases found : n.stations[i]? with
    | none => simp [found] at waits
    | some s => exact unregistered s (List.mem_of_getElem? found) (by rwa [found] at waits)

/-- The front node does the same to the network as to the agenda, whether it goes on, waits or
stops. -/
theorem Shows.resolve {stations : List Station} {c : Circuit} {i : Nat} {rest waiting : List Nat}
    (shows : Shows ⟨stations, i :: rest⟩ ⟨c, i :: rest, waiting⟩) (unwaiting : i ∉ waiting)
    {s : Station} (found : stations[i]? = some s) :
    (resolve stations i rest s.step).1.Shows (Agenda.turn ⟨c, i :: rest, waiting⟩).1 ∧
      (Network.resolve stations i rest s.step).2 = (Agenda.turn ⟨c, i :: rest, waiting⟩).2 := by
  have node : c.nodes[i]? = some s.view := by
    rw [shows.nodes, List.getElem?_map, found]
    rfl
  have own (y : Machine) : (c.nodes.set i y)[i]? = some y :=
    List.getElem?_set_self (List.getElem?_eq_some_iff.mp node).1
  have inside : i < stations.length := (List.getElem?_eq_some_iff.mp found).1
  have sound := shows.sound s (List.mem_of_getElem? found)
  have shown := sound.view_step
  have registered := sound.registered_iff
  have next := sound.step
  rw [Agenda.turn, Circuit.advance_of_getElem? node, ← shown]
  generalize s.step = result at shown registered next ⊢
  obtain ⟨t, event⟩ := result
  have stepped (ready : List Nat) (unblocked : event ≠ .blocked) :
      Shows ⟨stations.set i t, ready⟩
        ⟨{ c with nodes := c.nodes.set i t.view }, ready, waiting⟩ :=
    shows.set next ready waiting shows.once (fun j _ => Iff.rfl)
      (by simp [unwaiting, registered, unblocked]) inside
  cases event with
  | emitted value =>
    have reached : s.view.outlet.targets = t.machine.outlet.targets := by
      rw [← Machine.targets_step s.view, ← shown]
      rfl
    have here : Circuit.targets (Circuit.deliver (c.nodes.set i t.view) value
        t.machine.outlet.targets) i = t.machine.outlet.targets := by
      rw [Circuit.targets, Circuit.getElem?_deliver, own]
      rfl
    rw [reached]
    simp only [Event.output, List.foldl_cons, List.foldl_nil, here]
    exact ⟨(stepped (i :: rest) (by simp)).deliver value t.machine.outlet.targets, rfl⟩
  | blocked =>
    refine ⟨shows.set next rest (waiting ++ [i]) ?_ ?_ (by simp [registered]) inside, rfl⟩
    · exact (List.perm_append_singleton i waiting).nodup_iff.mpr
        (List.nodup_cons.mpr ⟨unwaiting, shows.once⟩)
    · intro j different
      show j ∈ waiting ++ [i] ↔ j ∈ waiting
      rw [List.mem_append, List.mem_singleton, or_iff_left different]
  | stopped =>
    have here : Circuit.fault? ⟨c.nodes.set i t.view, c.edges, c.tap⟩ i =
        t.machine.phase.fault? := by
      rw [Circuit.fault?, own]
      rfl
    simp only [Event.output, List.foldl_nil, here, Network.resolve]
    cases t.machine.phase.fault? with
    | some fault => exact ⟨stepped (i :: rest) (by simp), rfl⟩
    | none => exact ⟨stepped rest (by simp), rfl⟩
  | _ => exact ⟨stepped _ (by simp), rfl⟩

/-- A turn of the network is a turn of the agenda that shows it. -/
theorem Shows.turn (shows : n.Shows a) (sound : a.Sound) :
    n.turn.1.Shows a.turn.1 ∧ n.turn.2 = a.turn.2 := by
  obtain ⟨stations, queue⟩ := n
  obtain ⟨c, ready, waiting⟩ := a
  obtain rfl : ready = queue := shows.ready
  cases ready with
  | nil =>
    have same : waiting = [] ↔ stations.any (·.inbox.receiver = .registered) = false :=
      shows.none_waits_iff
    refine ⟨shows, ?_⟩
    rw [Network.turn, Agenda.turn]
    cases some_wait : stations.any (·.inbox.receiver = .registered) with
    | false =>
      rw [if_pos (same.mpr some_wait)]
      rfl
    | true =>
      have waits : waiting ≠ [] := by simp [same, some_wait]
      rw [if_neg waits]
      rfl
  | cons i rest =>
    have inside : i < stations.length := by
      have known : i < c.nodes.length := sound.known i List.mem_cons_self
      rw [shows.nodes] at known
      simpa using known
    obtain ⟨s, found⟩ : ∃ s, stations[i]? = some s := ⟨_, List.getElem?_eq_getElem inside⟩
    have unwaiting : i ∉ waiting := (List.nodup_cons.mp sound.once).1 ∘ List.mem_append_right rest
    rw [Network.turn, found]
    exact shows.resolve unwaiting found

end Network

end TapeMachine
