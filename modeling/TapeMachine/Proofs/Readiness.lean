import TapeMachine.Circuit.Agenda
import TapeMachine.Proofs.Confluence

/-! Every node is in the queue, or waits for input it does not have, or has stopped. So an agenda
that comes to an empty queue is at rest, and its run is one of the interleavings of the circuit. -/

namespace TapeMachine

namespace Circuit

def verdict (c : Circuit) : Verdict :=
  if c.nodes.all (·.phase.isTerminal) then .completed else .deadlocked

end Circuit

namespace Agenda

theorem circuit_wake (a : Agenda) (i : Nat) : (a.wake i).circuit = a.circuit := by
  unfold wake
  split <;> rfl

theorem perm_wake (a : Agenda) (i : Nat) :
    ((a.wake i).ready ++ (a.wake i).waiting).Perm (a.ready ++ a.waiting) := by
  unfold wake
  split
  · rename_i member
    simp only [List.append_assoc, List.singleton_append]
    exact (List.perm_cons_erase member).symm.append_left a.ready
  · exact .refl _

theorem mem_waiting_wake {a : Agenda} {i j : Nat} (once : (a.ready ++ a.waiting).Nodup)
    (member : j ∈ (a.wake i).waiting) : j ∈ a.waiting ∧ j ≠ i := by
  have distinct : a.waiting.Nodup := (List.nodup_append.mp once).2.1
  unfold wake at member
  split at member
  · obtain ⟨different, before⟩ := distinct.mem_erase_iff.mp member
    exact ⟨before, different⟩
  · rename_i absent
    exact ⟨member, fun same => absent (same ▸ member)⟩

theorem circuit_foldl_wake (a : Agenda) (targets : List Nat) :
    (targets.foldl wake a).circuit = a.circuit := by
  induction targets generalizing a with
  | nil => rfl
  | cons i rest ih => exact (ih _).trans (circuit_wake a i)

theorem perm_foldl_wake (a : Agenda) (targets : List Nat) :
    ((targets.foldl wake a).ready ++ (targets.foldl wake a).waiting).Perm
      (a.ready ++ a.waiting) := by
  induction targets generalizing a with
  | nil => exact .refl _
  | cons i rest ih => exact (ih _).trans (perm_wake a i)

theorem mem_waiting_foldl_wake {a : Agenda} {targets : List Nat} {j : Nat}
    (once : (a.ready ++ a.waiting).Nodup) (member : j ∈ (targets.foldl wake a).waiting) :
    j ∈ a.waiting ∧ j ∉ targets := by
  induction targets generalizing a with
  | nil => exact ⟨member, List.not_mem_nil⟩
  | cons i rest ih =>
    obtain ⟨before, absent⟩ := ih ((perm_wake a i).nodup_iff.mpr once) member
    obtain ⟨earlier, different⟩ := mem_waiting_wake once before
    refine ⟨earlier, ?_⟩
    rw [List.mem_cons, not_or]
    exact ⟨different, absent⟩

/-- Where the nodes are: each at most once in the queue or among the waiting, those that wait
without input, all others stopped. -/
structure Sound (a : Agenda) : Prop where
  once : (a.ready ++ a.waiting).Nodup
  known : ∀ i ∈ a.ready ++ a.waiting, i < a.circuit.size
  waits : ∀ i ∈ a.waiting, ∃ x, a.circuit.nodes[i]? = some x ∧ x.phase.isTerminal = false ∧ x.Awaits
  rests : ∀ i, i < a.circuit.size → i ∉ a.ready ++ a.waiting → a.circuit.Stopped i

theorem sound_ofCircuit (c : Circuit) : (ofCircuit c).Sound where
  once := by simp [ofCircuit, List.nodup_range]
  known := by simp [ofCircuit, Circuit.start, Circuit.size]
  waits := by simp [ofCircuit]
  rests i inside absent := by
    have member : i ∈ List.range c.size := by
      simpa [ofCircuit, Circuit.start, Circuit.size] using inside
    exact absurd (List.mem_append_left _ member) absent

variable {c : Circuit} {i : Nat} {rest waiting : List Nat}

theorem turn_of_canAdvance (able : c.CanAdvance i) :
    turn ⟨c, i :: rest, waiting⟩ =
      (((c.advance i).2.output.flatMap fun _ => Circuit.targets (c.advance i).1.nodes i).foldl wake
        ⟨(c.advance i).1, i :: rest, waiting⟩, none) := by
  obtain ⟨x, node, active⟩ := able
  obtain ⟨unblocked, unstopped⟩ := Machine.step_of_active active
  rw [← Circuit.event_advance node] at unblocked unstopped
  rw [turn]
  generalize c.advance i = result at unblocked unstopped
  obtain ⟨next, event⟩ := result
  cases event with
  | blocked => exact absurd rfl unblocked
  | stopped => exact absurd rfl unstopped
  | emitted value => simp [Event.output]
  | _ => rfl

theorem turn_of_awaits {x : Machine} (node : c.nodes[i]? = some x)
    (going : x.phase.isTerminal = false) (awaits : x.Awaits) :
    turn ⟨c, i :: rest, waiting⟩ = (⟨c, rest, waiting ++ [i]⟩, none) := by
  have idle : ¬c.CanAdvance i := by
    rw [Circuit.canAdvance_iff_active node]
    exact fun active => active.2 awaits
  have event : (c.advance i).2 = .blocked := by
    rw [Circuit.event_advance node, Machine.step_of_awaits going awaits]
  have result : c.advance i = (c, .blocked) :=
    Prod.ext (Circuit.advance_of_not_canAdvance idle) event
  rw [turn, result]

theorem turn_of_stopped {x : Machine} (node : c.nodes[i]? = some x)
    (stopped : x.phase.isTerminal) (unfailed : c.fault? i = none) :
    turn ⟨c, i :: rest, waiting⟩ = (⟨c, rest, waiting⟩, none) := by
  have idle : ¬c.CanAdvance i := by
    rw [Circuit.canAdvance_iff_active node]
    exact fun active => by simp [active.1] at stopped
  have event : (c.advance i).2 = .stopped := by
    rw [Circuit.event_advance node, Machine.step_of_isTerminal stopped]
  have result : c.advance i = (c, .stopped) :=
    Prod.ext (Circuit.advance_of_not_canAdvance idle) event
  rw [turn, result]
  simp only [unfailed]

theorem turn_of_failed {x : Machine} {fault : Fault} (node : c.nodes[i]? = some x)
    (failed : x.phase.fault? = some fault) :
    turn ⟨c, i :: rest, waiting⟩ = (⟨c, i :: rest, waiting⟩, some (.failed fault)) := by
  have stopped : x.phase.isTerminal := by
    cases phase : x.phase <;> simp_all [Phase.fault?, Phase.isTerminal, Phase.result?]
  have idle : ¬c.CanAdvance i := by
    rw [Circuit.canAdvance_iff_active node]
    exact fun active => by simp [active.1] at stopped
  have event : (c.advance i).2 = .stopped := by
    rw [Circuit.event_advance node, Machine.step_of_isTerminal stopped]
  have result : c.advance i = (c, .stopped) :=
    Prod.ext (Circuit.advance_of_not_canAdvance idle) event
  have found : c.fault? i = some fault := by rw [Circuit.fault?, node, Option.bind_some, failed]
  rw [turn, result]
  simp only [found]

theorem Sound.advance (sound : Sound ⟨c, i :: rest, waiting⟩) (able : c.CanAdvance i) :
    (turn ⟨c, i :: rest, waiting⟩).1.Sound := by
  rw [turn_of_canAdvance able]
  generalize woken_eq : ((c.advance i).2.output.flatMap fun _ =>
    Circuit.targets (c.advance i).1.nodes i) = woken
  have once : ((i :: rest) ++ waiting).Nodup := sound.once
  have perm := perm_foldl_wake ⟨(c.advance i).1, i :: rest, waiting⟩ woken
  have circuit := circuit_foldl_wake ⟨(c.advance i).1, i :: rest, waiting⟩ woken
  refine ⟨?_, ?_, ?_, ?_⟩
  · exact perm.nodup_iff.mpr once
  · intro j member
    rw [circuit, Circuit.size_advance]
    exact sound.known j (perm.mem_iff.mp member)
  · intro j member
    obtain ⟨before, unwoken⟩ := mem_waiting_foldl_wake (a := ⟨(c.advance i).1, i :: rest, waiting⟩)
      once member
    obtain ⟨y, node, going, awaits⟩ := sound.waits j before
    have different : j ≠ i := by
      rintro rfl
      exact ((Circuit.canAdvance_iff_active node).mp able).2 awaits
    -- A node that still waits after the step is none of those that it sent to.
    have nothing : c.arrivals i j = [] := by
      obtain ⟨x, found, active⟩ := able
      have reached : Circuit.targets (c.advance i).1.nodes i = x.outlet.targets := by
        simp [Circuit.targets, Circuit.nodes_advance, found]
      rw [reached, Circuit.event_advance found] at woken_eq
      simp only [Circuit.arrivals, found]
      cases event : x.step.2 with
      | emitted value =>
        have absent : j ∉ x.outlet.targets := by
          simpa [← woken_eq, event, Event.output] using unwoken
        simp [List.count_eq_zero_of_not_mem absent]
      | _ => rfl
    refine ⟨y, ?_, going, awaits⟩
    rw [circuit, Circuit.nodes_advance, node]
    simp [different, nothing]
  · intro j inside absent
    rw [circuit] at inside ⊢
    rw [Circuit.size_advance] at inside
    exact Circuit.stopped_advance (sound.rests j inside fun member =>
      absent (perm.mem_iff.mpr member)) i

theorem Sound.blocked {x : Machine} (sound : Sound ⟨c, i :: rest, waiting⟩)
    (node : c.nodes[i]? = some x) (going : x.phase.isTerminal = false) (awaits : x.Awaits) :
    Sound ⟨c, rest, waiting ++ [i]⟩ := by
  have perm : (rest ++ (waiting ++ [i])).Perm (i :: rest ++ waiting) := by
    rw [← List.append_assoc]
    exact List.perm_append_singleton i (rest ++ waiting)
  refine ⟨perm.nodup_iff.mpr sound.once, ?_, ?_, ?_⟩
  · intro j member
    exact sound.known j (perm.mem_iff.mp member)
  · intro j member
    rcases List.mem_append.mp member with before | now
    · exact sound.waits j before
    · obtain rfl := List.mem_singleton.mp now
      exact ⟨x, node, going, awaits⟩
  · intro j inside absent
    exact sound.rests j inside fun member => absent (perm.mem_iff.mpr member)

theorem Sound.stopped {x : Machine} (sound : Sound ⟨c, i :: rest, waiting⟩)
    (node : c.nodes[i]? = some x) (stopped : x.phase.isTerminal) : Sound ⟨c, rest, waiting⟩ := by
  refine ⟨(List.nodup_cons.mp sound.once).2, ?_, sound.waits, ?_⟩
  · intro j member
    exact sound.known j (List.mem_cons_of_mem i member)
  · intro j inside absent
    by_cases same : j = i
    · subst same
      exact ⟨x, node, stopped⟩
    · apply sound.rests j inside
      intro member
      rcases List.mem_cons.mp member with now | before
      · exact same now
      · exact absent before

/-- With an empty queue no node can step, and the verdict is that of the circuit. -/
theorem Sound.empty (sound : Sound ⟨c, [], waiting⟩) :
    c.Quiescent ∧ (turn ⟨c, [], waiting⟩).2 = some c.verdict := by
  constructor
  · intro i able
    by_cases member : i ∈ waiting
    · obtain ⟨x, node, -, awaits⟩ := sound.waits i member
      exact ((Circuit.canAdvance_iff_active node).mp able).2 awaits
    · have inside : i < c.size := by
        obtain ⟨x, node, -⟩ := able
        exact (List.getElem?_eq_some_iff.mp node).1
      obtain ⟨x, node, stopped⟩ := sound.rests i inside member
      have active : x.Active := (Circuit.canAdvance_iff_active node).mp able
      simp [active.1] at stopped
  · rw [turn, Circuit.verdict]
    cases waiting with
    | nil =>
      have done : c.nodes.all (·.phase.isTerminal) = true := by
        rw [List.all_eq_true]
        intro x member
        obtain ⟨i, inside, rfl⟩ := List.mem_iff_getElem.mp member
        obtain ⟨y, found, stopped⟩ := sound.rests i inside List.not_mem_nil
        rw [List.getElem?_eq_getElem inside] at found
        rw [Option.some.inj found]
        exact stopped
      rw [done]
      rfl
    | cons i waiting =>
      obtain ⟨x, node, going, -⟩ := sound.waits i List.mem_cons_self
      have some_wait : ¬c.nodes.all (·.phase.isTerminal) = true := by
        intro done
        rw [List.all_eq_true] at done
        have stopped := done x (List.mem_of_getElem? node)
        simp [going] at stopped
      rw [if_neg some_wait]
      rfl

end Agenda

end TapeMachine
