import Mathlib.Logic.ExistsUnique
import TapeMachine.Proofs.Decoding
import TapeMachine.Proofs.Network

/-! What holds in every state that the agenda passes through. A node is queued, suspended or
finished, and never two of these. One that a value has woken keeps its instruction while it stands
in the queue, and takes a value when its turn comes. So an empty queue means that all nodes are
done, or that none of those left can ever go on. -/

namespace TapeMachine

namespace Engine

theorem word_of_reads {e : Engine} (reads : e.Reads) : 0 ≤ e.word ∧ e.word % 100 = 3 := by
  obtain ⟨-, address, width, fetched⟩ := reads
  obtain ⟨opcode, member, positive, code, -⟩ := fetch_ok fetched
  rw [List.mem_singleton.mp member] at code
  exact ⟨positive, code⟩

end Engine

namespace Machine

structure Poised (x : Machine) : Prop where
  going : x.phase.isTerminal = false
  reads : x.engine.Reads
  fed : x.pending ≠ []

theorem Poised.active {x : Machine} (poised : x.Poised) : x.Active :=
  ⟨poised.going, fun awaits => poised.fed awaits.2⟩

theorem Poised.supply {x : Machine} (poised : x.Poised) (values : List Cell) :
    (x.supply values).Poised := by
  refine ⟨poised.going, poised.reads, ?_⟩
  rw [pending_supply]
  exact List.append_ne_nil_of_left_ne_nil poised.fed values

/-- A machine with input for its instruction takes a value, and completes the instruction or
fails. -/
theorem Poised.step {x : Machine} (poised : x.Poised) :
    (∃ value ∈ x.pending.head?, x.step.2 = .took value) ∧
      (x.step.1.engine.steps = x.engine.steps + 1 ∨ x.step.1.phase.fault?.isSome) := by
  obtain ⟨going, ⟨inside, address, width, fetched⟩, fed⟩ := poised
  obtain ⟨value, rest, pending⟩ := List.exists_cons_of_ne_nil fed
  have stepped := Engine.step_of_fetch_input inside fetched (some value)
  rw [step_of_not_isTerminal going, pending, List.head?_cons, stepped, Option.elim_some]
  cases refused : x.engine.memory.refusal? address with
  | some fault =>
    rw [Engine.store_of_fault refused]
    exact ⟨⟨value, rfl, rfl⟩, .inr rfl⟩
  | none =>
    rw [Engine.store_of_admitted refused]
    exact ⟨⟨value, rfl, rfl⟩, .inl rfl⟩

/-- What a step never changes. -/
def identity (x : Machine) : String × Program × Settings := (x.label, x.program, x.settings)

@[simp] theorem identity_supply (x : Machine) (values : List Cell) :
    (x.supply values).identity = x.identity := rfl

@[simp] theorem identity_step (x : Machine) : x.step.1.identity = x.identity := by
  cases going : x.phase.isTerminal with
  | true => rw [step_of_isTerminal going]
  | false =>
    rw [step_of_not_isTerminal going]
    cases effect : (x.engine.step x.pending.head?).2 with
    | failed fault taken => cases taken <;> rfl
    | _ => rfl

def Finished (x : Machine) : Prop :=
  ∃ report, x.phase = .halted report ∨ x.phase = .exhausted report

theorem finished_iff (x : Machine) : x.Finished ↔ x.phase.isTerminal ∧ x.phase.fault? = none := by
  unfold Finished
  cases x.phase <;> simp [Phase.isTerminal, Phase.result?, Phase.fault?]

theorem Finished.supply {x : Machine} (finished : x.Finished) (values : List Cell) :
    (x.supply values).Finished := finished

end Machine

namespace Circuit

variable {c next final : Circuit} {schedule more : List Nat}

theorem Interleaving.append (first : Interleaving schedule c next)
    (second : Interleaving more next final) : Interleaving (schedule ++ more) c final := by
  induction first with
  | nil => exact second
  | cons able _ ih => exact .cons able (ih second)

theorem identities_advance (c : Circuit) (i : Nat) :
    (c.advance i).1.nodes.map Machine.identity = c.nodes.map Machine.identity := by
  apply List.ext_getElem?
  intro j
  rw [List.getElem?_map, List.getElem?_map, nodes_advance, Option.map_map]
  apply Option.map_congr
  intro x _
  rw [Function.comp_apply, Machine.identity_supply]
  split
  · exact Machine.identity_step x
  · rfl

theorem Interleaving.identities (run : Interleaving schedule c final) :
    final.nodes.map Machine.identity = c.nodes.map Machine.identity := by
  induction run with
  | nil => rfl
  | @cons i rest c final _ _ ih => exact ih.trans (identities_advance c i)

theorem Quiescent.execute (quiescent : c.Quiescent) (schedule : List Nat) :
    c.execute schedule = c := by
  induction schedule with
  | nil => rfl
  | cons i rest ih =>
    rw [Circuit.execute, advance_of_not_canAdvance (quiescent i)]
    exact ih

end Circuit

namespace Agenda

variable {c : Circuit} {a b d : Agenda} {i : Nat}

/-- The states that the agenda of a circuit passes through. -/
inductive Reached (c : Circuit) : Agenda → Prop where
  | start : Reached c (ofCircuit c)
  | turn {a b : Agenda} : Reached c a → a.turn = (b, none) → Reached c b

/-- Turns lead from one state to another, none of them a turn of the node at `i`. -/
inductive Defers (i : Nat) (a : Agenda) : Agenda → Prop where
  | here : Defers i a a
  | turn {b d : Agenda} : Defers i a b → b.ready.head? ≠ some i → b.turn = (d, none) → Defers i a d

/-- All that a turn without a verdict can be: a step of the front node, its suspension or its
departure. -/
theorem turn_cases (sound : a.Sound) (turned : a.turn = (b, none)) :
    ∃ i rest, a.ready = i :: rest ∧
      ((a.circuit.CanAdvance i ∧ b =
          ((a.circuit.advance i).2.output.flatMap fun _ =>
            Circuit.targets (a.circuit.advance i).1.nodes i).foldl wake
            ⟨(a.circuit.advance i).1, i :: rest, a.waiting⟩) ∨
        (∃ x, a.circuit.nodes[i]? = some x ∧ x.phase.isTerminal = false ∧ x.Awaits ∧
          b = ⟨a.circuit, rest, a.waiting ++ [i]⟩) ∨
        ∃ x, a.circuit.nodes[i]? = some x ∧ x.Finished ∧ b = ⟨a.circuit, rest, a.waiting⟩) := by
  obtain ⟨c, ready, waiting⟩ := a
  cases ready with
  | nil => simp [turn] at turned
  | cons i rest =>
    refine ⟨i, rest, rfl, ?_⟩
    obtain ⟨x, node⟩ : ∃ x, c.nodes[i]? = some x :=
      ⟨_, List.getElem?_eq_getElem (sound.known i List.mem_cons_self)⟩
    by_cases able : c.CanAdvance i
    · rw [turn_of_canAdvance able] at turned
      exact .inl ⟨able, (Prod.mk.inj turned).1.symm⟩
    cases going : x.phase.isTerminal with
    | false =>
      have awaits : x.Awaits := Classical.byContradiction fun fed =>
        able ((Circuit.canAdvance_iff_active node).mpr ⟨going, fed⟩)
      rw [turn_of_awaits node going awaits] at turned
      exact .inr (.inl ⟨x, node, going, awaits, (Prod.mk.inj turned).1.symm⟩)
    | true =>
      cases failed : x.phase.fault? with
      | none =>
        have unfailed : c.fault? i = none := by rw [Circuit.fault?, node, Option.bind_some, failed]
        rw [turn_of_stopped node going unfailed] at turned
        have done : x.Finished := (x.finished_iff).mpr ⟨going, failed⟩
        exact .inr (.inr ⟨x, node, done, (Prod.mk.inj turned).1.symm⟩)
      | some fault =>
        rw [turn_of_failed node failed] at turned
        cases turned

theorem Sound.turn (sound : a.Sound) (turned : a.turn = (b, none)) : b.Sound := by
  obtain ⟨c, ready, waiting⟩ := a
  obtain ⟨i, rest, rfl, ⟨able, -⟩ | ⟨x, node, going, awaits, rfl⟩ | ⟨x, node, done, rfl⟩⟩ :=
    turn_cases sound turned
  · have after := sound.advance able
    rw [turned] at after
    exact after
  · exact sound.blocked node going awaits
  · exact sound.stopped node ((x.finished_iff).mp done).1

/-- A turn of another node does nothing to a node but put values into its input. -/
theorem node_of_turn (sound : a.Sound) (turned : a.turn = (b, none)) {j : Nat} {x : Machine}
    (node : a.circuit.nodes[j]? = some x) (deferred : a.ready.head? ≠ some j) :
    ∃ values, b.circuit.nodes[j]? = some (x.supply values) := by
  obtain ⟨i, rest, ready, step⟩ := turn_cases sound turned
  have different : j ≠ i := by
    rintro rfl
    exact deferred (by rw [ready]; rfl)
  rcases step with ⟨-, rfl⟩ | ⟨-, -, -, -, rfl⟩ | ⟨-, -, -, rfl⟩
  · refine ⟨a.circuit.arrivals i j, ?_⟩
    rw [circuit_foldl_wake, Circuit.nodes_advance, node, Option.map_some, if_neg different]
  · exact ⟨[], by rw [node, Machine.supply_nil]⟩
  · exact ⟨[], by rw [node, Machine.supply_nil]⟩

theorem size_turn (sound : a.Sound) (turned : a.turn = (b, none)) :
    b.circuit.size = a.circuit.size := by
  obtain ⟨i, rest, -, ⟨-, rfl⟩ | ⟨-, -, -, -, rfl⟩ | ⟨-, -, -, rfl⟩⟩ := turn_cases sound turned
  · rw [circuit_foldl_wake, Circuit.size_advance]
  · rfl
  · rfl

/-- The nodes that have left the queue for good have halted or exhausted their tapes. -/
def Settled (a : Agenda) : Prop :=
  ∀ i, i < a.circuit.size → i ∉ a.ready ++ a.waiting →
    ∃ x, a.circuit.nodes[i]? = some x ∧ x.Finished

theorem Settled.turn (settled : a.Settled) (sound : a.Sound) (turned : a.turn = (b, none)) :
    b.Settled := by
  intro j inside absent
  rw [size_turn sound turned] at inside
  by_cases before : j ∈ a.ready ++ a.waiting
  · -- It was the front node, and has left.
    obtain ⟨i, rest, ready, ⟨-, rfl⟩ | ⟨x, -, -, -, rfl⟩ | ⟨x, node, done, rfl⟩⟩ :=
      turn_cases sound turned
    · rw [ready] at before
      have perm := perm_foldl_wake ⟨(a.circuit.advance i).1, i :: rest, a.waiting⟩
        ((a.circuit.advance i).2.output.flatMap fun _ =>
          Circuit.targets (a.circuit.advance i).1.nodes i)
      exact absurd (perm.mem_iff.mpr before) absent
    · simp only [ready, List.cons_append, List.mem_cons, List.mem_append] at before absent
      grind
    · obtain rfl : j = i := by
        simp only [ready, List.cons_append, List.mem_cons, List.mem_append] at before absent
        grind
      exact ⟨x, node, done⟩
  · obtain ⟨x, node, done⟩ := settled j inside before
    have deferred : a.ready.head? ≠ some j := fun front =>
      before (List.mem_append_left _ (List.mem_of_head? front))
    obtain ⟨values, after⟩ := node_of_turn sound turned node deferred
    exact ⟨_, after, done.supply values⟩

theorem Reached.sound (reached : Reached c a) : a.Sound := by
  induction reached with
  | start => exact sound_ofCircuit c
  | turn _ turned ih => exact ih.turn turned

theorem Reached.settled (reached : Reached c a) : a.Settled := by
  induction reached with
  | start =>
    intro i inside absent
    exact absurd (by simpa [ofCircuit, Circuit.size, Circuit.start] using inside) absent
  | turn before turned ih => exact ih.turn before.sound turned

theorem Reached.interleaving (reached : Reached c a) :
    ∃ schedule, Circuit.Interleaving schedule c.start a.circuit := by
  induction reached with
  | start => exact ⟨[], .nil⟩
  | @turn a b before turned ih =>
    obtain ⟨schedule, run⟩ := ih
    obtain ⟨i, rest, -, ⟨able, rfl⟩ | ⟨-, -, -, -, rfl⟩ | ⟨-, -, -, rfl⟩⟩ :=
      turn_cases before.sound turned
    · rw [circuit_foldl_wake]
      exact ⟨schedule ++ [i], run.append (.cons able .nil)⟩
    · exact ⟨schedule, run⟩
    · exact ⟨schedule, run⟩

/-- A run of the agenda that has come to a state goes on from there. -/
theorem Reached.go (reached : Reached c a) :
    ∃ turns, ∀ fuel, Agenda.go (fuel + turns) (ofCircuit c) = Agenda.go fuel a := by
  induction reached with
  | start => exact ⟨0, fun fuel => rfl⟩
  | turn _ turned ih =>
    obtain ⟨turns, same⟩ := ih
    refine ⟨turns + 1, fun fuel => ?_⟩
    rw [show fuel + (turns + 1) = fuel + 1 + turns by omega, same, Agenda.go, turned]

theorem Defers.reached (defers : Defers i a b) (reached : Reached c a) : Reached c b := by
  induction defers with
  | here => exact reached
  | turn _ _ turned ih => exact ih.turn turned

/-- While its turn is put off, a node only gets more input. -/
theorem Defers.node (defers : Defers i a b) (reached : Reached c a) {x : Machine}
    (node : a.circuit.nodes[i]? = some x) :
    ∃ values, b.circuit.nodes[i]? = some (x.supply values) := by
  induction defers with
  | here => exact ⟨[], by rw [node, Machine.supply_nil]⟩
  | turn before deferred turned ih =>
    obtain ⟨values, found⟩ := ih
    obtain ⟨more, after⟩ := node_of_turn (before.reached reached).sound turned found deferred
    exact ⟨values ++ more, by rw [after, Machine.supply_supply]⟩

theorem mem_waiting_foldl_wake_of_not_mem {targets : List Nat} (waits : i ∈ a.waiting)
    (missed : i ∉ targets) : i ∈ (targets.foldl wake a).waiting := by
  induction targets generalizing a with
  | nil => exact waits
  | cons j rest ih =>
    rw [List.mem_cons, not_or] at missed
    apply ih _ missed.2
    unfold wake
    split
    · exact (List.mem_erase_of_ne missed.1).mpr waits
    · exact waits

/-- A node that a turn takes out of the waiting ones stands in the queue and has got a value. -/
theorem woken (sound : a.Sound) (turned : a.turn = (b, none)) (waits : i ∈ a.waiting)
    (moved : i ∉ b.waiting) : i ∈ b.ready ∧ ∃ x values, a.circuit.nodes[i]? = some x ∧
      values ≠ [] ∧ b.circuit.nodes[i]? = some (x.supply values) ∧ (x.supply values).Poised := by
  obtain ⟨x, node, going, awaits⟩ := sound.waits i waits
  obtain ⟨front, rest, ready, step⟩ := turn_cases sound turned
  rcases step with ⟨able, rfl⟩ | ⟨-, -, -, -, rfl⟩ | ⟨-, -, -, rfl⟩
  · have perm := perm_foldl_wake ⟨(a.circuit.advance front).1, front :: rest, a.waiting⟩
      ((a.circuit.advance front).2.output.flatMap fun _ =>
        Circuit.targets (a.circuit.advance front).1.nodes front)
    have queued := List.mem_append.mp (perm.mem_iff.mpr (List.mem_append_right _ waits))
    refine ⟨queued.resolve_right moved, x, a.circuit.arrivals front i, node, ?_⟩
    have different : i ≠ front := by
      rintro rfl
      exact ((Circuit.canAdvance_iff_active node).mp able).2 awaits
    have some_arrive : a.circuit.arrivals front i ≠ [] := by
      intro none_arrive
      refine moved (mem_waiting_foldl_wake_of_not_mem
        (a := ⟨(a.circuit.advance front).1, front :: rest, a.waiting⟩) waits ?_)
      obtain ⟨y, found, -⟩ := able
      simp only [Circuit.event_advance found, Circuit.targets, Circuit.nodes_advance, found]
      simp only [Circuit.arrivals, found] at none_arrive
      cases event : y.step.2 <;> simp_all [Event.output, List.count_eq_zero]
    refine ⟨some_arrive, ?_, going, awaits.1, ?_⟩
    · rw [circuit_foldl_wake, Circuit.nodes_advance, node, Option.map_some, if_neg different]
    · rw [Machine.pending_supply]
      exact List.append_ne_nil_of_right_ne_nil _ some_arrive
  · exact absurd (List.mem_append_left _ waits) moved
  · exact absurd waits moved

inductive Place where
  | queued
  | suspended
  | finished
  deriving DecidableEq, Repr

/-- Where a node is. It is finished once it has left the queue and does not wait. -/
def At (a : Agenda) (i : Nat) : Place → Prop
  | .queued => i ∈ a.ready
  | .suspended => i ∈ a.waiting
  | .finished => i ∉ a.ready ++ a.waiting ∧ ∃ x, a.circuit.nodes[i]? = some x ∧ x.Finished

theorem exists_unique_place (sound : a.Sound) (settled : a.Settled) (inside : i < a.circuit.size) :
    ∃! place, a.At i place := by
  have apart : i ∈ a.ready → i ∉ a.waiting := fun queued waits =>
    (List.nodup_append.mp sound.once).2.2 i queued i waits rfl
  by_cases queued : i ∈ a.ready
  · refine ⟨.queued, queued, ?_⟩
    rintro (_ | _ | _) there
    · rfl
    · exact absurd there (apart queued)
    · exact absurd (List.mem_append_left _ queued) there.1
  by_cases waits : i ∈ a.waiting
  · refine ⟨.suspended, waits, ?_⟩
    rintro (_ | _ | _) there
    · exact absurd there queued
    · rfl
    · exact absurd (List.mem_append_right _ waits) there.1
  have absent : i ∉ a.ready ++ a.waiting := by
    rw [List.mem_append, not_or]
    exact ⟨queued, waits⟩
  refine ⟨.finished, ⟨absent, settled i inside absent⟩, ?_⟩
  rintro (_ | _ | _) there
  · exact absurd there queued
  · exact absurd there waits
  · rfl

theorem Reached.size (reached : Reached c a) : a.circuit.size = c.size := by
  induction reached with
  | start => simp [ofCircuit, Circuit.size, Circuit.start]
  | turn before turned ih => rw [size_turn before.sound turned, ih]

theorem Reached.identities (reached : Reached c a) :
    a.circuit.nodes.map Machine.identity = c.nodes.map Machine.identity := by
  obtain ⟨schedule, run⟩ := reached.interleaving
  rw [run.identities, Circuit.start, List.map_map]
  rfl

/-- What the agenda passes through is shown by a network that is run in the same way. -/
theorem Reached.network (reached : Reached c a) : ∃ n, Network.Reached c n ∧ n.Shows a := by
  induction reached with
  | start => exact ⟨_, .start, Network.shows_ofCircuit c⟩
  | @turn a b before turned ih =>
    obtain ⟨n, passed, shows⟩ := ih
    obtain ⟨next, onward⟩ := shows.turn before.sound
    rw [turned] at next onward
    exact ⟨n.turn.1, .turn passed (Prod.ext rfl onward), next⟩

/-- A poised node at the front of the queue takes a value in its turn. -/
theorem turn_of_poised (rest waiting : List Nat) {x : Machine} (node : c.nodes[i]? = some x)
    (poised : x.Poised) :
    ∃ value b y, value ∈ x.pending.head? ∧ (c.advance i).2 = .took value ∧
      turn ⟨c, i :: rest, waiting⟩ = (b, none) ∧ b.circuit.nodes[i]? = some y ∧
      (y.engine.steps = x.engine.steps + 1 ∨ y.phase.fault?.isSome) := by
  obtain ⟨⟨value, front, took⟩, moved⟩ := poised.step
  have able : c.CanAdvance i := (Circuit.canAdvance_iff_active node).mpr poised.active
  have event : (c.advance i).2 = .took value := by rw [Circuit.event_advance node, took]
  refine ⟨value, _, x.step.1.supply (c.arrivals i i), front, event, turn_of_canAdvance able, ?_, ?_⟩
  · rw [circuit_foldl_wake, Circuit.nodes_advance, node, Option.map_some, if_pos rfl]
  · exact moved

/-- With an empty queue the run is over: all nodes are finished, or those that wait wait forever. -/
theorem Reached.finish_of_ready_nil (reached : Reached c a) (empty : a.ready = []) :
    a.circuit.Quiescent ∧ ∃ enough, ∀ fuel, enough ≤ fuel → c.finish fuel =
      (a.circuit, if a.waiting = [] then .done a.circuit.nodes else .deadlock) := by
  obtain ⟨circuit, ready, waiting⟩ := a
  obtain rfl : ready = [] := empty
  refine ⟨reached.sound.empty.1, ?_⟩
  obtain ⟨turns, same⟩ := reached.go
  refine ⟨turns + 1, fun fuel more => ?_⟩
  obtain ⟨extra, rfl⟩ : ∃ extra, fuel = extra + 1 + turns := ⟨fuel - turns - 1, by omega⟩
  rw [Circuit.finish, Circuit.run, same, Agenda.go, Agenda.turn]
  by_cases none_wait : waiting = []
  · simp [none_wait]
  · simp [none_wait]

/-- In every state that the agenda passes through, each node has one place; those that wait stand at
an input instruction without input; and one that is woken takes a value in its next turn. With an
inbox for each node, the nodes that wait are those whose receivers are registered, and it is these
receivers that the values wake. If the
queue becomes empty, either all nodes have halted or exhausted their tapes and are the answer, in
their order, or the answer is a deadlock and nothing can move any more. -/
theorem no_lost_wakeup (c : Circuit) (a : Agenda) (reached : Reached c a) :
    a.ready.Nodup ∧ (∀ i, i < c.size → ∃! place, a.At i place) ∧
    (∃ n, Network.Reached c n ∧ n.Shows a) ∧
    (∀ i ∈ a.waiting, ∃ x, a.circuit.nodes[i]? = some x ∧ x.phase.isTerminal = false ∧
      x.pending = [] ∧ x.engine.ip < x.engine.memory.size ∧ 0 ≤ x.engine.word ∧
      x.engine.word % 100 = 3) ∧
    (∀ i ∈ a.waiting, ∀ b, a.turn = (b, none) → i ∉ b.waiting →
      i ∈ b.ready ∧ ∀ d, Defers i b d → d.ready.head? = some i →
        ∃ x y value next, a.circuit.nodes[i]?.map (·.engine) = some x.engine ∧
          d.circuit.nodes[i]? = some x ∧ value ∈ x.pending.head? ∧
          (d.circuit.advance i).2 = .took value ∧ d.turn = (next, none) ∧
          next.circuit.nodes[i]? = some y ∧
          (y.engine.steps = x.engine.steps + 1 ∨ y.phase.fault?.isSome)) ∧
    (a.ready = [] →
      (a.waiting = [] ∧ (∀ x ∈ a.circuit.nodes, x.Finished) ∧
        a.circuit.nodes.map Machine.identity = c.nodes.map Machine.identity ∧
        ∃ enough, ∀ fuel, enough ≤ fuel →
          c.finish fuel = (a.circuit, .done a.circuit.nodes)) ∨
      (a.waiting ≠ [] ∧ a.circuit.Quiescent ∧
        (∀ schedule, a.circuit.execute schedule = a.circuit) ∧
        ∃ enough, ∀ fuel, enough ≤ fuel → c.finish fuel = (a.circuit, .deadlock))) := by
  have sound := reached.sound
  have settled := reached.settled
  refine ⟨(List.nodup_append.mp sound.once).1, fun i inside => ?_, reached.network,
    fun i waits => ?_, ?_, ?_⟩
  · exact exists_unique_place sound settled (by rw [reached.size]; exact inside)
  · obtain ⟨x, node, going, reads, empty⟩ := sound.waits i waits
    exact ⟨x, node, going, empty, reads.1, Engine.word_of_reads reads⟩
  · intro i waits b turned moved
    obtain ⟨queued, x, values, node, -, after, poised⟩ := woken sound turned waits moved
    refine ⟨queued, fun d defers front => ?_⟩
    obtain ⟨more, found⟩ := defers.node (reached.turn turned) after
    obtain ⟨circuit, ready, waiting⟩ := d
    obtain ⟨rest, rfl⟩ : ∃ rest, ready = i :: rest := List.head?_eq_some_iff.mp front
    obtain ⟨value, next, y, first, took, turned, later, done⟩ :=
      turn_of_poised rest waiting found (poised.supply more)
    exact ⟨_, y, value, next, by rw [node]; rfl, found, first, took, turned, later, done⟩
  · intro empty
    obtain ⟨quiescent, enough, finish⟩ := reached.finish_of_ready_nil empty
    by_cases none_wait : a.waiting = []
    · simp only [none_wait, if_true] at finish
      refine .inl ⟨none_wait, fun x member => ?_, reached.identities, enough, finish⟩
      obtain ⟨i, inside, rfl⟩ := List.mem_iff_getElem.mp member
      obtain ⟨y, found, done⟩ := settled i inside (by simp [empty, none_wait])
      rw [List.getElem?_eq_getElem inside] at found
      rw [Option.some.inj found]
      exact done
    · simp only [none_wait, if_false] at finish
      exact .inr ⟨none_wait, quiescent, quiescent.execute, enough, finish⟩

/-- The first node waits for the second, which sends it a value and halts. -/
theorem no_lost_wakeup_pair :
    let reader := Machine.create ⟨[3, 0, 99]⟩ {}
    let writer := Machine.create ⟨[104, 5, 99]⟩ {}
    let c := (((({} : Circuit).add reader).add writer).connect 1 0).toOption.getD {}
    let a := (ofCircuit c).turn.1
    let b := a.turn.1
    let d := b.turn.1.turn.1
    let last := d.turn.1.turn.1.turn.1
    (Reached c a ∧ a.turn = (b, none) ∧ Defers 0 b d ∧ Reached c last) ∧
    (a.waiting = [0] ∧ b.ready = [1, 0] ∧ d.ready = [0] ∧ last.ready = []) ∧
    (∃ value, (d.circuit.advance 0).2 = .took value) ∧
    ∃ enough, ∀ fuel, enough ≤ fuel → c.finish fuel = (last.circuit, .done last.circuit.nodes) := by
  intro reader writer c a b d last
  have next {z : Agenda} (onward : z.turn.2 = none) : z.turn = (z.turn.1, none) :=
    Prod.ext rfl onward
  have suspended : Reached c a := .turn .start (next (by decide +kernel))
  have turned : a.turn = (b, none) := next (by decide +kernel)
  have halts : b.turn = (b.turn.1, none) := next (by decide +kernel)
  have leaves : b.turn.1.turn = (d, none) := next (by decide +kernel)
  have puts_off : Defers 0 b d :=
    .turn (.turn .here (by decide +kernel) halts) (by decide +kernel) leaves
  have ended : Reached c last :=
    (((puts_off.reached (suspended.turn turned)).turn (next (by decide +kernel))).turn
      (next (by decide +kernel))).turn (next (by decide +kernel))
  have queues : a.waiting = [0] ∧ b.ready = [1, 0] ∧ d.ready = [0] ∧ last.ready = [] := by
    decide +kernel
  refine ⟨⟨suspended, turned, puts_off, ended⟩, queues, ?_, ?_⟩
  · obtain ⟨-, -, -, -, woken, -⟩ := no_lost_wakeup c a suspended
    have waits : 0 ∈ a.waiting := by rw [queues.1]; exact List.mem_cons_self
    have front : d.ready.head? = some 0 := by rw [queues.2.2.1]; rfl
    obtain ⟨x, y, value, after, -, -, -, took, -⟩ :=
      (woken 0 waits b turned (by decide +kernel)).2 d puts_off front
    exact ⟨value, took⟩
  · obtain ⟨-, -, -, -, -, resting⟩ := no_lost_wakeup c last ended
    have none_wait : last.waiting = [] := by decide +kernel
    rcases resting queues.2.2.2 with ⟨-, -, -, finish⟩ | ⟨waits, -⟩
    · exact finish
    · exact absurd none_wait waits

end Agenda

end TapeMachine
