import TapeMachine.Proofs.Bank
import TapeMachine.Proofs.Conservation
import TapeMachine.Proofs.Decoding

/-! In a bank of any size and at every moment of a run, whatever the order of steps, what an
amplifier has taken and what it still has is its phase, then the initial signal if it is the first
one, and then all that its predecessor has emitted. -/

namespace TapeMachine

theorem Merges.eq_nil {α : Type} {merged : List α} (merges : Merges [] merged) : merged = [] := by
  cases merges with
  | nil => rfl
  | cons front => cases front

/-- Where one edge leads to a node, what the source of it has emitted comes behind what the node had
at the start; where none does, nothing comes. -/
theorem Circuit.taken_append_pending_of_source {c : Circuit} (wired : c.Wired) {d : Nat}
    (inside : d < c.size) {source : Option Nat}
    (incoming : c.incoming d = source.toList.map (·, d)) (schedule : List Nat) :
    taken (c.trace schedule) d ++ (c.execute schedule).pending d =
      c.pending d ++ source.elim [] (emitted (c.trace schedule)) := by
  have merges := merges_received wired schedule d
  rw [incoming] at merges
  rw [taken_append_pending wired schedule d inside]
  cases source with
  | none => rw [merges.eq_nil]; rfl
  | some s => rw [merges.single]; rfl

namespace Amplifiers

open Circuit (taken)

def predecessor (n : Nat) (topology : Topology) (i : Nat) : Option Nat :=
  if 0 < i then some (i - 1) else if topology = .ring then some (n - 1) else none

theorem assembled_foldlM {α : Type} {work : Circuit → α → Except Error Circuit}
    (keeps : ∀ c item next, c.Assembled → work c item = .ok next → next.Assembled)
    {items : List α} {c last : Circuit} (built : c.Assembled)
    (worked : items.foldlM work c = .ok last) : last.Assembled := by
  induction items generalizing c with
  | nil =>
    cases worked
    exact built
  | cons item items ih =>
    obtain ⟨next, first, rest⟩ := (bind_eq_ok_iff ..).mp worked
    exact ih (keeps c item next built first) rest

variable {program : Program} {phases : List Cell} {topology : Topology} {settings : Settings}
  {c : Circuit}

/-- A bank is put together by requests like any other circuit. -/
theorem assembled_bank (banked : bank program phases topology settings = .ok c) : c.Assembled := by
  obtain ⟨first, seeded_eq, rest⟩ := (bind_eq_ok_iff ..).mp banked
  obtain ⟨second, wired_eq, last⟩ := (bind_eq_ok_iff ..).mp rest
  obtain ⟨linked, chained, closed⟩ := (bind_eq_ok_iff ..).mp wired_eq
  have seeded : first.Assembled := by
    refine assembled_foldlM (fun c item next built seeded => ?_) .empty seeded_eq
    exact .seed (.add built rfl rfl) seeded
  have chain : linked.Assembled :=
    assembled_foldlM (fun c i next built connected => .connect built connected) seeded chained
  have wired : second.Assembled := by
    split at closed
    · exact .connect chain closed
    · cases closed
      exact chain
  split at last
  · exact .seed wired last
  · cases last
    exact wired

theorem filter_succ_links (m d : Nat) :
    ((List.range m).map fun i => (i, i + 1)).filter (·.2 = d) =
      if 0 < d ∧ d ≤ m then [(d - 1, d)] else [] := by
  induction m with
  | zero => simp; omega
  | succ m ih =>
    rw [List.range_succ, List.map_append, List.filter_append, ih]
    by_cases latest : m + 1 = d
    · subst latest
      simp
    · have same : (0 < d ∧ d ≤ m + 1) ↔ 0 < d ∧ d ≤ m := by omega
      simp [same, latest]

theorem incoming_bank {n d : Nat} (edges : c.edges = links n topology) (inside : d < n) :
    c.incoming d = (predecessor n topology d).toList.map (·, d) := by
  rw [Circuit.incoming, edges, links, List.filter_append, filter_succ_links, predecessor]
  by_cases later : 0 < d
  · have reached : 0 < d ∧ d ≤ n - 1 := by omega
    have not_first : ¬0 = d := by omega
    rw [if_pos reached, if_pos later]
    split <;> simp [not_first]
  · obtain rfl : d = 0 := by omega
    by_cases ring : topology = .ring <;> simp [ring, inside]

theorem forwardTo_eq (x : Machine) (targets : List Nat) :
    ∃ o : Outlet, o.values = x.outlet.values ∧ x.forwardTo targets = { x with outlet := o } := by
  induction targets generalizing x with
  | nil => exact ⟨x.outlet, rfl, rfl⟩
  | cons target rest ih =>
    obtain ⟨o, values, listened⟩ := ih (x.subscribe (.forward target)).1
    exact ⟨o, values, listened⟩

/-- An amplifier of a bank is new but for who listens to it and what it is given to read. -/
theorem exists_of_bank (banked : bank program phases topology settings = .ok c) {i : Nat}
    {x : Machine} (node : c.nodes[i]? = some x) :
    ∃ phase o, phases[i]? = some phase ∧ o.values = #[] ∧
      x = ({ amplifier program settings i with outlet := o } : Machine).supply (seeds i phase) := by
  obtain ⟨d, same, -, -, -, nodes⟩ := getElem?_bank program phases topology settings
  obtain rfl : c = d := Except.ok.inj (banked.symm.trans same)
  rw [nodes] at node
  obtain ⟨phase, at_phase, rfl⟩ := Option.map_eq_some_iff.mp node
  obtain ⟨o, values, listened⟩ := forwardTo_eq (amplifier program settings i)
    (successors phases.length topology i)
  exact ⟨phase, o, at_phase, values, by rw [listened]⟩

theorem pending_bank (banked : bank program phases topology settings = .ok c)
    (size : c.size = phases.length) {i : Nat} {phase : Cell} (at_phase : phases[i]? = some phase) :
    c.pending i = seeds i phase := by
  have inside : i < c.nodes.length := by
    rw [← Circuit.size, size]
    exact (List.getElem?_eq_some_iff.mp at_phase).1
  have node : c.nodes[i]? = some c.nodes[i] := List.getElem?_eq_getElem inside
  obtain ⟨phase', o, same, -, fresh⟩ := exists_of_bank banked node
  obtain rfl : phase = phase' := Option.some.inj (at_phase.symm.trans same)
  rw [Circuit.pending, node, Option.map_some, Option.getD_some, fresh]
  rfl

theorem output_bank (banked : bank program phases topology settings = .ok c) (s : Nat) :
    c.output s = [] := by
  rw [Circuit.output]
  cases node : c.nodes[s]? with
  | none => rfl
  | some x =>
    obtain ⟨-, o, -, values, rfl⟩ := exists_of_bank banked node
    simp [values]

/-- A bank is always put together, of new machines and with the edges of its topology. At every
moment of its run, what an amplifier has taken and what it still has is its phase and all that the
one before it has emitted. For the first one, the initial signal stands between its phase and what
comes back to it in a ring. -/
theorem taken_append_pending_bank (program : Program) (phases : List Cell) (topology : Topology)
    (settings : Settings) :
    let n := phases.length
    ∃ c, bank program phases topology settings = .ok c ∧ c.size = n ∧
      c.edges = (List.range (n - 1)).map (fun i => (i, i + 1)) ++
        (if topology = .ring ∧ 0 < n then [(n - 1, 0)] else []) ∧
      (∀ (i : Nat) (x : Machine), c.nodes[i]? = some x → x.label = label i ∧
        x.program = program ∧ x.settings = settings ∧ x.phase = .ready ∧
        x.engine = .ofProgram program settings.memoryLimit ∧ x.outlet.values = #[]) ∧
      ∀ schedule,
        let steps := c.start.trace schedule
        let reached := c.start.execute schedule
        ∀ i phase, phases[i]? = some phase →
          taken steps i ++ reached.pending i =
            if 0 < i then phase :: reached.output (i - 1)
            else [phase, 0] ++ if topology = .ring then reached.output (n - 1) else [] := by
  intro n
  obtain ⟨c, banked, size, edges, -, -⟩ := getElem?_bank program phases topology settings
  refine ⟨c, banked, size, edges, fun i x node => ?_, ?_⟩
  · obtain ⟨phase, o, -, values, rfl⟩ := exists_of_bank banked node
    exact ⟨rfl, rfl, rfl, rfl, rfl, values⟩
  · intro schedule steps reached i phase at_phase
    have wired : c.start.Wired := (assembled_bank banked).wired.start
    have inside : i < n := (List.getElem?_eq_some_iff.mp at_phase).1
    have within : i < c.start.size := by
      rw [Circuit.size, Circuit.start, List.length_map, ← Circuit.size, size]
      exact inside
    have balance := Circuit.taken_append_pending_of_source wired within
      (show c.start.incoming i = _ from incoming_bank edges inside) schedule
    rw [Circuit.pending_start, pending_bank banked size at_phase] at balance
    have output (s : Nat) : reached.output s = Circuit.emitted steps s := by
      rw [Circuit.output_execute, Circuit.output_start, output_bank banked, List.nil_append]
    rw [balance, output, output, predecessor, seeds]
    by_cases later : 0 < i
    · have not_first : i ≠ 0 := by omega
      simp only [if_pos later, if_neg not_first]
      rfl
    · have first : i = 0 := by omega
      simp only [if_neg later, if_pos first]
      split <;> rfl

/-- A single amplifier that feeds itself takes its phase and the initial signal, and then finds the
value that it has emitted. -/
theorem taken_append_pending_bank_loop :
    let program : Program := ⟨[3, 9, 3, 9, 104, 7, 99, 0, 0, 0]⟩
    let c := (bank program [4] .ring {}).toOption.getD {}
    let steps := c.start.trace [0, 0, 0]
    bank program [4] .ring {} = .ok c ∧ c.edges = [(0, 0)] ∧ taken steps 0 = [4, 0] ∧
      taken steps 0 ++ (c.start.execute [0, 0, 0]).pending 0 = [4, 0, 7] := by
  intro program c steps
  obtain ⟨d, banked, -, edges, -, reads⟩ := taken_append_pending_bank program [4] .ring {}
  obtain rfl : c = d := by simp only [c, banked, Except.toOption, Option.getD_some]
  have output : (c.start.execute [0, 0, 0]).output (([4] : List Cell).length - 1) = [7] := by
    decide +kernel
  have read := reads [0, 0, 0] 0 4 rfl
  rw [if_neg (Nat.lt_irrefl 0), if_pos rfl, output] at read
  exact ⟨banked, edges, by decide +kernel, read⟩

end Amplifiers

end TapeMachine
