import TapeMachine.Proofs.Interleaving

/-! The record of edges and the subscriptions that do the forwarding are kept apart. In a circuit
put together by its own requests they agree, and no step changes either. -/

namespace TapeMachine.Circuit

/-- Circuits put together from machines whose listeners feed no input, by edges, seeds and a
choice of the tap. -/
inductive Assembled : Circuit → Prop where
  | empty : Assembled {}
  | add {c : Circuit} {x : Machine} : Assembled c → x.outlet.targets = [] → x.outlet.loops = 0 →
      Assembled (c.add x)
  | connect {c next : Circuit} {source target : Nat} : Assembled c →
      c.connect source target = .ok next → Assembled next
  | seed {c next : Circuit} {i : Nat} {values : List Cell} : Assembled c →
      c.seed i values = .ok next → Assembled next
  | chooseTap {c next : Circuit} {i : Nat} : Assembled c → c.chooseTap i = .ok next → Assembled next

def destinations (c : Circuit) (i : Nat) : List Nat := (c.edges.filter (·.1 = i)).map (·.2)

def incoming (c : Circuit) (d : Nat) : List (Nat × Nat) := c.edges.filter (·.2 = d)

/-- What a node emits goes along its edges and nowhere else. -/
structure Wired (c : Circuit) : Prop where
  targets : ∀ (i : Nat) (x : Machine), c.nodes[i]? = some x → x.outlet.targets = c.destinations i
  quiet : ∀ (i : Nat) (x : Machine), c.nodes[i]? = some x → x.outlet.loops = 0
  known : ∀ edge ∈ c.edges, edge.1 < c.size ∧ edge.2 < c.size

theorem node_eq_ok_iff (c : Circuit) (i : Nat) (x : Machine) :
    c.node i = .ok x ↔ c.nodes[i]? = some x := by
  cases node : c.nodes[i]? <;> simp [Circuit.node, node]

theorem connect_ok {c next : Circuit} {source target : Nat}
    (connected : c.connect source target = .ok next) :
    source < c.size ∧ target < c.size ∧ next = { c with
      nodes := c.nodes.modify source fun x => (x.subscribe (.forward target)).1
      edges := c.edges ++ [(source, target)] } := by
  cases at_target : c.node target with
  | error e => simp [connect, at_target, bind, Except.bind] at connected
  | ok y =>
    cases at_source : c.node source with
    | error e => simp [connect, at_target, at_source, bind, Except.bind] at connected
    | ok x =>
      have inside := (List.getElem?_eq_some_iff.mp ((node_eq_ok_iff ..).mp at_source)).1
      have reached := (List.getElem?_eq_some_iff.mp ((node_eq_ok_iff ..).mp at_target)).1
      refine ⟨inside, reached, ?_⟩
      simp only [connect, at_target, at_source, bind, Except.bind, pure, Except.pure,
        Except.ok.injEq] at connected
      exact connected.symm

theorem seed_ok {c next : Circuit} {i : Nat} {values : List Cell}
    (seeded : c.seed i values = .ok next) :
    next = { c with nodes := c.nodes.modify i (·.supply values) } := by
  cases found : c.node i with
  | error e => simp [seed, found, bind, Except.bind] at seeded
  | ok x =>
    simp only [seed, found, bind, Except.bind, pure, Except.pure, Except.ok.injEq] at seeded
    exact seeded.symm

theorem chooseTap_ok {c next : Circuit} {i : Nat} (chosen : c.chooseTap i = .ok next) :
    next = { c with tap := some i } := by
  cases found : c.node i with
  | error e => simp [chooseTap, found, bind, Except.bind] at chosen
  | ok x =>
    simp only [chooseTap, found, bind, Except.bind, pure, Except.pure, Except.ok.injEq] at chosen
    exact chosen.symm

@[simp] theorem targets_subscribe_forward (o : Outlet) (target : Nat) :
    (o.subscribe (.forward target)).1.targets = o.targets ++ [target] := by
  simp [Outlet.subscribe, Outlet.targets]

@[simp] theorem loops_subscribe_forward (o : Outlet) (target : Nat) :
    (o.subscribe (.forward target)).1.loops = o.loops := by
  simp [Outlet.subscribe, Outlet.loops]

/-- Wiring looks at nothing of the nodes but who listens to them. -/
theorem Wired.transfer {c next : Circuit} (wired : c.Wired) (edges : next.edges = c.edges)
    (size : next.size = c.size)
    (outlets : ∀ (i : Nat) (y : Machine), next.nodes[i]? = some y →
      ∃ x : Machine, c.nodes[i]? = some x ∧ y.outlet.subscribers = x.outlet.subscribers) :
    next.Wired where
  targets i y node := by
    obtain ⟨x, before, same⟩ := outlets i y node
    rw [destinations, edges, ← destinations, ← wired.targets i x before]
    simp [Outlet.targets, same]
  quiet i y node := by
    obtain ⟨x, before, same⟩ := outlets i y node
    rw [← wired.quiet i x before]
    simp [Outlet.loops, same]
  known := by rw [edges, size]; exact wired.known

/-- Whatever is done to a node, it stays wired as it was unless a listener comes or goes that feeds
an input: it may be given input, emit a value or get a listener that only records. -/
theorem Wired.modify {c : Circuit} (wired : c.Wired) (i : Nat) {f : Machine → Machine}
    (targets : ∀ x, (f x).outlet.targets = x.outlet.targets)
    (loops : ∀ x, (f x).outlet.loops = x.outlet.loops) :
    Wired { c with nodes := c.nodes.modify i f } := by
  have lookup (j : Nat) (y : Machine) (node : (c.nodes.modify i f)[j]? = some y) :
      ∃ x, c.nodes[j]? = some x ∧ y.outlet.targets = x.outlet.targets ∧
        y.outlet.loops = x.outlet.loops := by
    rw [List.getElem?_modify] at node
    obtain ⟨x, before, rfl⟩ := Option.map_eq_some_iff.mp node
    refine ⟨x, before, ?_⟩
    split
    · exact ⟨targets x, loops x⟩
    · exact ⟨rfl, rfl⟩
  refine ⟨fun j y node => ?_, fun j y node => ?_, fun edge member => ?_⟩
  · obtain ⟨x, before, same, -⟩ := lookup j y node
    exact same.trans (wired.targets j x before)
  · obtain ⟨x, before, -, same⟩ := lookup j y node
    exact same.trans (wired.quiet j x before)
  · simpa [size] using wired.known edge member

theorem Wired.add {c : Circuit} {x : Machine} (wired : c.Wired) (unheard : x.outlet.targets = [])
    (quiet : x.outlet.loops = 0) : (c.add x).Wired where
  targets i y node := by
    simp only [Circuit.add, List.getElem?_append] at node
    split at node
    · exact wired.targets i y node
    · rename_i outside
      have none_leaves : c.edges.filter (·.1 = i) = [] := by
        apply List.filter_eq_nil_iff.mpr
        intro edge member leaves
        have inside := (wired.known edge member).1
        simp only [decide_eq_true_eq] at leaves
        exact outside (leaves ▸ inside)
      rw [List.mem_singleton.mp (List.mem_of_getElem? node), unheard]
      simp [destinations, Circuit.add, none_leaves]
  quiet i y node := by
    simp only [Circuit.add, List.getElem?_append] at node
    split at node
    · exact wired.quiet i y node
    · rw [List.mem_singleton.mp (List.mem_of_getElem? node), quiet]
  known edge member := by
    have inside := wired.known edge member
    simp only [size, Circuit.add, List.length_append, List.length_singleton] at inside ⊢
    omega

theorem Wired.connect {c next : Circuit} {source target : Nat} (wired : c.Wired)
    (connected : c.connect source target = .ok next) : next.Wired := by
  obtain ⟨inside, reached, rfl⟩ := connect_ok connected
  have lookup (i : Nat) (y : Machine)
      (node : (c.nodes.modify source fun x => (x.subscribe (.forward target)).1)[i]? = some y) :
      ∃ x, c.nodes[i]? = some x ∧
        y = if source = i then (x.subscribe (.forward target)).1 else x := by
    rw [List.getElem?_modify] at node
    obtain ⟨x, before, rfl⟩ := Option.map_eq_some_iff.mp node
    exact ⟨x, before, rfl⟩
  refine ⟨?_, ?_, ?_⟩
  · intro i y node
    obtain ⟨x, before, rfl⟩ := lookup i y node
    have old := wired.targets i x before
    by_cases same : source = i
    · subst same
      simp [Machine.subscribe, old, destinations, List.filter_append]
    · simp [same, old, destinations, List.filter_append]
  · intro i y node
    obtain ⟨x, before, rfl⟩ := lookup i y node
    have old := wired.quiet i x before
    by_cases same : source = i <;> simp [same, Machine.subscribe, old]
  · intro edge member
    rw [List.mem_append, List.mem_singleton] at member
    simp only [size, List.length_modify]
    rcases member with old | rfl
    · exact wired.known edge old
    · exact ⟨inside, reached⟩

/-- The record of edges of a circuit put together by its requests is what is forwarded. -/
theorem Assembled.wired {c : Circuit} (built : c.Assembled) : c.Wired := by
  induction built with
  | empty => exact ⟨by simp, by simp, by simp⟩
  | add _ unheard quiet wired => exact wired.add unheard quiet
  | connect _ connected wired => exact wired.connect connected
  | seed _ seeded wired =>
    rw [seed_ok seeded]
    exact wired.modify _ (fun _ => rfl) fun _ => rfl
  | chooseTap _ chosen wired =>
    rw [chooseTap_ok chosen]
    exact wired.transfer rfl rfl fun i y node => ⟨y, node, rfl⟩

theorem Wired.start {c : Circuit} (wired : c.Wired) : c.start.Wired := by
  refine wired.transfer rfl (by simp [size, Circuit.start]) ?_
  intro i y node
  simp only [Circuit.start, List.getElem?_map] at node
  obtain ⟨x, before, rfl⟩ := Option.map_eq_some_iff.mp node
  exact ⟨x, before, rfl⟩

theorem Wired.advance {c : Circuit} (wired : c.Wired) (i : Nat) : (c.advance i).1.Wired := by
  refine wired.transfer (edges_advance c i) (size_advance c i) ?_
  intro j y node
  rw [nodes_advance] at node
  obtain ⟨x, before, rfl⟩ := Option.map_eq_some_iff.mp node
  refine ⟨x, before, ?_⟩
  rw [Machine.outlet_supply]
  split <;> simp

theorem Wired.execute {c : Circuit} (wired : c.Wired) (schedule : List Nat) :
    (c.execute schedule).Wired := by
  induction schedule generalizing c with
  | nil => exact wired
  | cons i rest ih => exact ih (wired.advance i)

theorem arrivals_eq {c : Circuit} (wired : c.Wired) (i d : Nat) :
    c.arrivals i d =
      (c.advance i).2.output.flatMap (List.replicate ((c.incoming d).countP (·.1 = i))) := by
  cases node : c.nodes[i]? with
  | none => simp [arrivals, node, event_advance_of_none node, Event.output]
  | some x =>
    have copies : x.outlet.targets.count d = (c.incoming d).countP (·.1 = i) := by
      rw [wired.targets i x node, destinations, incoming, List.count_eq_countP, List.countP_map,
        List.countP_filter, List.countP_filter]
      apply List.countP_congr
      intro edge _
      simp [and_comm]
    simp only [arrivals, node, event_advance node, copies]

end TapeMachine.Circuit
