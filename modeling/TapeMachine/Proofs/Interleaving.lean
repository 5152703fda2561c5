import TapeMachine.Circuit
import TapeMachine.Proofs.Stepping

/-! A schedule names the nodes that step, one after another. `nodes_advance` says all that the step
of one node does to each node: the node itself steps, and every node gets what arrives there. In an
`Interleaving` only nodes that can step are named. -/

namespace TapeMachine.Circuit

/-- What the step of the node at `i` puts into the input of the node at `j`. -/
def arrivals (c : Circuit) (i j : Nat) : List Cell :=
  match c.nodes[i]? with
  | some x => x.step.2.output.flatMap (List.replicate (x.outlet.targets.count j))
  | none => []

theorem getElem?_deliver (nodes : List Machine) (value : Cell) (targets : List Nat) (j : Nat) :
    (deliver nodes value targets)[j]? =
      nodes[j]?.map (·.supply (List.replicate (targets.count j) value)) := by
  induction targets generalizing nodes with
  | nil => simp [deliver]
  | cons target rest ih =>
    show (deliver (nodes.modify target (·.push value)) value rest)[j]? = _
    rw [ih, List.getElem?_modify]
    by_cases same : target = j
    · subst same
      cases nodes[target]? <;> simp [Machine.push, List.replicate_succ]
    · simp [same]

theorem advance_of_getElem? {c : Circuit} {i : Nat} {x : Machine} (node : c.nodes[i]? = some x) :
    c.advance i =
      (⟨x.step.2.output.foldl (fun nodes value => deliver nodes value x.outlet.targets)
        (c.nodes.set i x.step.1), c.edges, c.tap⟩, x.step.2) := by
  have inside : i < c.nodes.length := (List.getElem?_eq_some_iff.mp node).1
  have reached : targets (c.nodes.set i x.step.1) i = x.outlet.targets := by
    simp [targets, inside]
  simp only [advance, stepNode_of_getElem? node]
  cases x.step.2 <;> simp [Event.output, reached]

theorem advance_of_length_le {c : Circuit} {i : Nat} (outside : c.nodes.length ≤ i) :
    c.advance i = (c, .stopped) := by
  simp [advance, stepNode_of_length_le outside]

theorem event_advance {c : Circuit} {i : Nat} {x : Machine} (node : c.nodes[i]? = some x) :
    (c.advance i).2 = x.step.2 := by
  rw [advance_of_getElem? node]

theorem event_advance_of_none {c : Circuit} {i : Nat} (missing : c.nodes[i]? = none) :
    (c.advance i).2 = .stopped := by
  rw [advance_of_length_le (List.getElem?_eq_none_iff.mp missing)]

@[simp] theorem edges_advance (c : Circuit) (i : Nat) : (c.advance i).1.edges = c.edges := by
  cases node : c.nodes[i]? with
  | some x => rw [advance_of_getElem? node]
  | none => rw [advance_of_length_le (List.getElem?_eq_none_iff.mp node)]

@[simp] theorem tap_advance (c : Circuit) (i : Nat) : (c.advance i).1.tap = c.tap := by
  cases node : c.nodes[i]? with
  | some x => rw [advance_of_getElem? node]
  | none => rw [advance_of_length_le (List.getElem?_eq_none_iff.mp node)]

/-- The step of one node, seen at each node: it steps if it is the one, and is then given what
arrives. -/
theorem nodes_advance (c : Circuit) (i j : Nat) :
    (c.advance i).1.nodes[j]? =
      c.nodes[j]?.map fun y => (if j = i then y.step.1 else y).supply (c.arrivals i j) := by
  cases node : c.nodes[i]? with
  | none =>
    have outside := List.getElem?_eq_none_iff.mp node
    rw [advance_of_length_le outside]
    by_cases same : j = i
    · subst same; simp [node]
    · simp [same, arrivals, node]
  | some x =>
    have inside : i < c.nodes.length := (List.getElem?_eq_some_iff.mp node).1
    have stepped : (c.nodes.set i x.step.1)[j]? =
        c.nodes[j]?.map fun y => if j = i then y.step.1 else y := by
      by_cases same : j = i
      · subst same; rw [node, List.getElem?_set_self inside]; simp
      · simp [same, Ne.symm same]
    rw [advance_of_getElem? node]
    simp only [arrivals, node]
    cases x.step.2 with
    | emitted value =>
      simp only [Event.output, List.foldl_cons, List.foldl_nil, getElem?_deliver, stepped,
        List.flatMap_cons, List.flatMap_nil, List.append_nil, Option.map_map]
      rfl
    | _ => simp [Event.output, stepped]

@[simp] theorem size_advance (c : Circuit) (i : Nat) : (c.advance i).1.size = c.size := by
  cases node : c.nodes[i]? with
  | none => rw [advance_of_length_le (List.getElem?_eq_none_iff.mp node)]
  | some x =>
    rw [advance_of_getElem? node]
    cases x.step.2 <;> simp [size, Event.output]

def execute (c : Circuit) : List Nat → Circuit
  | [] => c
  | i :: schedule => (c.advance i).1.execute schedule

def trace (c : Circuit) : List Nat → List (Nat × Event)
  | [] => []
  | i :: schedule => (i, (c.advance i).2) :: (c.advance i).1.trace schedule

def CanAdvance (c : Circuit) (i : Nat) : Prop := ∃ x, c.nodes[i]? = some x ∧ x.Active

def Stopped (c : Circuit) (i : Nat) : Prop := ∃ x, c.nodes[i]? = some x ∧ x.phase.isTerminal

def Quiescent (c : Circuit) : Prop := ∀ i, ¬c.CanAdvance i

def Unfailed (c : Circuit) : Prop := ∀ i, c.fault? i = none

/-- The nodes named by a schedule step one after another, each of them able to. -/
inductive Interleaving : List Nat → Circuit → Circuit → Prop where
  | nil {c : Circuit} : Interleaving [] c c
  | cons {i : Nat} {schedule : List Nat} {c final : Circuit} : c.CanAdvance i →
      Interleaving schedule (c.advance i).1 final → Interleaving (i :: schedule) c final

theorem canAdvance_iff_active {c : Circuit} {i : Nat} {x : Machine} (node : c.nodes[i]? = some x) :
    c.CanAdvance i ↔ x.Active := by
  simp [CanAdvance, node]

theorem advance_of_not_canAdvance {c : Circuit} {i : Nat} (idle : ¬c.CanAdvance i) :
    (c.advance i).1 = c := by
  cases node : c.nodes[i]? with
  | none => rw [advance_of_length_le (List.getElem?_eq_none_iff.mp node)]
  | some x =>
    have still : ¬x.Active := mt (canAdvance_iff_active node).mpr idle
    rw [advance_of_getElem? node, Machine.step_of_not_active still]
    have same : c.nodes.set i x = c.nodes := by
      obtain ⟨inside, rfl⟩ := List.getElem?_eq_some_iff.mp node
      exact List.set_getElem_self inside
    cases x.phase.isTerminal <;> simp [Event.output, same]

theorem stopped_advance {c : Circuit} {d : Nat} (stopped : c.Stopped d) (i : Nat) :
    (c.advance i).1.Stopped d := by
  obtain ⟨x, node, done⟩ := stopped
  rw [Stopped, nodes_advance, node]
  refine ⟨_, rfl, ?_⟩
  rw [Machine.phase_supply]
  split
  · rw [Machine.phase_step_of_isTerminal done, done]
  · exact done

theorem canAdvance_iff (c : Circuit) (i : Nat) :
    c.CanAdvance i ↔ (c.advance i).2 ≠ .blocked ∧ (c.advance i).2 ≠ .stopped := by
  constructor
  · rintro ⟨x, node, active⟩
    rw [event_advance node]
    exact Machine.step_of_active active
  · rintro ⟨unblocked, unstopped⟩
    cases node : c.nodes[i]? with
    | none => exact absurd (event_advance_of_none node) unstopped
    | some x =>
      refine ⟨x, node, Classical.byContradiction fun idle => ?_⟩
      rw [event_advance node, Machine.step_of_not_active idle] at unblocked unstopped
      cases x.phase.isTerminal <;> simp_all

instance (c : Circuit) (i : Nat) : Decidable (c.CanAdvance i) :=
  decidable_of_iff' _ (canAdvance_iff c i)

instance (c : Circuit) (i : Nat) : Decidable (c.Stopped i) :=
  decidable_of_iff (c.nodes[i]?.any (·.phase.isTerminal)) (Option.any_eq_true _ _)

theorem quiescent_iff (c : Circuit) : c.Quiescent ↔ ∀ i, i < c.size → ¬c.CanAdvance i := by
  refine ⟨fun quiescent i _ => quiescent i, fun idle i able => ?_⟩
  obtain ⟨x, node, active⟩ := able
  exact idle i (List.getElem?_eq_some_iff.mp node).1 ⟨x, node, active⟩

instance (c : Circuit) : Decidable c.Quiescent := decidable_of_iff' _ (quiescent_iff c)

theorem unfailed_iff (c : Circuit) : c.Unfailed ↔ ∀ i, i < c.size → c.fault? i = none := by
  refine ⟨fun unfailed i _ => unfailed i, fun fine i => ?_⟩
  by_cases inside : i < c.size
  · exact fine i inside
  · rw [fault?, List.getElem?_eq_none (Nat.le_of_not_lt inside)]
    rfl

instance (c : Circuit) : Decidable c.Unfailed := decidable_of_iff' _ (unfailed_iff c)

theorem interleaving_cons_iff (i : Nat) (schedule : List Nat) (c final : Circuit) :
    Interleaving (i :: schedule) c final ↔
      c.CanAdvance i ∧ Interleaving schedule (c.advance i).1 final := by
  constructor
  · rintro (_ | ⟨able, later⟩)
    exact ⟨able, later⟩
  · rintro ⟨able, later⟩
    exact .cons able later

theorem interleaving_nil_iff (c final : Circuit) : Interleaving [] c final ↔ c = final := by
  constructor
  · rintro ⟨⟩
    rfl
  · rintro rfl
    exact .nil

instance decidableInterleaving : (schedule : List Nat) → (c final : Circuit) →
    Decidable (Interleaving schedule c final)
  | [], c, final => decidable_of_iff' _ (interleaving_nil_iff c final)
  | i :: schedule, c, final =>
    have := decidableInterleaving schedule (c.advance i).1 final
    decidable_of_iff' _ (interleaving_cons_iff i schedule c final)

end TapeMachine.Circuit
