import TapeMachine.Amplifiers
import TapeMachine.Proofs.Wiring

/-! A bank is always put together. Each amplifier is a new machine that holds its phase, the first
one the initial signal behind it, and is heard by its successor only. -/

namespace TapeMachine

namespace Machine

def forwardTo (x : Machine) (targets : List Nat) : Machine :=
  targets.foldl (fun x target => (x.subscribe (.forward target)).1) x

@[simp] theorem forwardTo_nil (x : Machine) : x.forwardTo [] = x := by
  simp [forwardTo]

@[simp] theorem forwardTo_supply (x : Machine) (targets : List Nat) (values : List Cell) :
    (x.supply values).forwardTo targets = (x.forwardTo targets).supply values := by
  induction targets generalizing x with
  | nil => rfl
  | cons target rest ih => exact ih (x.subscribe (.forward target)).1

end Machine

namespace Circuit

theorem node_of_lt {c : Circuit} {i : Nat} (inside : i < c.size) : ∃ x, c.node i = .ok x :=
  ⟨c.nodes[i], (node_eq_ok_iff ..).mpr (List.getElem?_eq_getElem inside)⟩

theorem connect_of_lt {c : Circuit} {source target : Nat} (from_inside : source < c.size)
    (to_inside : target < c.size) : c.connect source target = .ok { c with
      nodes := c.nodes.modify source (·.forwardTo [target])
      edges := c.edges ++ [(source, target)] } := by
  obtain ⟨x, at_source⟩ := node_of_lt from_inside
  obtain ⟨y, at_target⟩ := node_of_lt to_inside
  simp only [connect, at_target, at_source, bind, Except.bind, pure, Except.pure]
  rfl

theorem seed_of_lt {c : Circuit} {i : Nat} (inside : i < c.size) (values : List Cell) :
    c.seed i values = .ok { c with nodes := c.nodes.modify i (·.supply values) } := by
  obtain ⟨x, found⟩ := node_of_lt inside
  simp only [seed, found, bind, Except.bind, pure, Except.pure]

end Circuit

namespace Amplifiers

def successors (n : Nat) (topology : Topology) (i : Nat) : List Nat :=
  if i + 1 < n then [i + 1] else if topology = .ring then [0] else []

def links (n : Nat) (topology : Topology) : List (Nat × Nat) :=
  (List.range (n - 1)).map (fun i => (i, i + 1)) ++
    if topology = .ring ∧ 0 < n then [(n - 1, 0)] else []

def seeds (i : Nat) (phase : Cell) : List Cell := if i = 0 then [phase, 0] else [phase]

variable {c : Circuit}

theorem foldlM_seed (program : Program) (settings : Settings) (phases : List Cell) (c : Circuit) :
    (phases.zipIdx c.size).foldlM
        (fun c (phase, i) => (c.add (amplifier program settings i)).seed i [phase]) c =
      .ok { c with nodes := c.nodes ++
        (phases.zipIdx c.size).map fun (phase, i) => (amplifier program settings i).supply [phase] } := by
  induction phases generalizing c with
  | nil => simp [pure, Except.pure]
  | cons phase rest ih =>
    have added : c.size < (c.add (amplifier program settings c.size)).size := by
      simp [Circuit.size, Circuit.add]
    have seeded : (c.add (amplifier program settings c.size)).seed c.size [phase] =
        .ok { c with nodes := c.nodes ++ [(amplifier program settings c.size).supply [phase]] } := by
      rw [Circuit.seed_of_lt added]
      simp [Circuit.add, Circuit.size, List.modify_eq_take_drop]
    have next := ih { c with nodes := c.nodes ++ [(amplifier program settings c.size).supply [phase]] }
    simp only [Circuit.size, List.length_append, List.length_singleton] at next
    simp only [List.zipIdx_cons, List.foldlM_cons, seeded, bind, Except.bind]
    rw [Circuit.size, next]
    simp

theorem getElem?_seeded (program : Program) (phases : List Cell) (settings : Settings) :
    ∃ c, seeded program phases settings = .ok c ∧ c.size = phases.length ∧ c.edges = [] ∧
      c.tap = none ∧
      ∀ i, c.nodes[i]? = phases[i]?.map fun phase => (amplifier program settings i).supply [phase] := by
  refine ⟨_, foldlM_seed program settings phases {}, ?_, rfl, rfl, fun i => ?_⟩
  · simp [Circuit.size]
  · simp only [Circuit.size, List.length_nil, List.nil_append, List.getElem?_map,
      List.getElem?_zipIdx, Option.map_map]
    rw [Nat.zero_add]
    rfl

/-- The first `k` edges from each node to the next. -/
theorem foldlM_connect {k : Nat} (enough : k < c.size ∨ k = 0) :
    ∃ d, (List.range k).foldlM (fun c i => c.connect i (i + 1)) c = .ok d ∧ d.size = c.size ∧
      d.edges = c.edges ++ (List.range k).map (fun i => (i, i + 1)) ∧ d.tap = c.tap ∧
      ∀ j : Nat, d.nodes[j]? = c.nodes[j]?.map (·.forwardTo (if j < k then [j + 1] else [])) := by
  induction k with
  | zero => exact ⟨c, rfl, rfl, by simp, rfl, by simp⟩
  | succ k ih =>
    obtain ⟨d, connected, size, edges, tap, nodes⟩ := ih (by omega)
    have linked : (List.range (k + 1)).foldlM (fun c i => c.connect i (i + 1)) c =
        d.connect k (k + 1) := by
      rw [List.range_succ, List.foldlM_append, connected]
      exact bind_pure (d.connect k (k + 1))
    rw [Circuit.connect_of_lt (by omega) (by omega)] at linked
    refine ⟨_, linked, ?_, ?_, tap, fun j => ?_⟩
    · simp only [Circuit.size, List.length_modify]
      exact size
    · simp [edges, List.range_succ]
    · simp only [List.getElem?_modify, nodes]
      rcases Nat.lt_trichotomy j k with before | rfl | after
      · have other : k ≠ j := by omega
        simp [before, Nat.lt_succ_of_lt before, other]
      · simp
      · have other : k ≠ j := by omega
        have outside : ¬j < k ∧ ¬j < k + 1 := by omega
        simp [outside, other]

theorem getElem?_wired (topology : Topology) (unheard : c.edges = []) :
    ∃ d, wired c topology = .ok d ∧ d.size = c.size ∧ d.edges = links c.size topology ∧
      d.tap = c.tap ∧
      ∀ i : Nat, d.nodes[i]? = c.nodes[i]?.map (·.forwardTo (successors c.size topology i)) := by
  obtain ⟨d, connected, size, edges, tap, nodes⟩ :=
    foldlM_connect (c := c) (k := c.size - 1) (by omega)
  rw [unheard, List.nil_append] at edges
  have beyond (i : Nat) (outside : ¬i < c.size) : c.nodes[i]? = none :=
    List.getElem?_eq_none (Nat.le_of_not_lt outside)
  by_cases closed : topology = .ring ∧ 0 < c.size
  · have linked : wired c topology = d.connect (c.size - 1) 0 := by
      simp only [wired, connected, bind, Except.bind, if_pos closed]
    rw [Circuit.connect_of_lt (by omega) (by omega)] at linked
    refine ⟨_, linked, ?_, ?_, tap, fun i => ?_⟩
    · simp only [Circuit.size, List.length_modify]
      exact size
    · simp only [links, if_pos closed, edges]
    · simp only [List.getElem?_modify, nodes, successors]
      by_cases inside : i < c.size
      · by_cases last : i + 1 < c.size
        · have others : i < c.size - 1 ∧ c.size - 1 ≠ i := by omega
          simp [last, others]
        · have others : ¬i < c.size - 1 ∧ c.size - 1 = i := by omega
          simp [last, others, closed.1]
      · simp [beyond i inside]
  · refine ⟨d, ?_, size, ?_, tap, fun i => ?_⟩
    · simp only [wired, connected, bind, Except.bind, if_neg closed, pure, Except.pure]
    · simp only [links, if_neg closed, edges, List.append_nil]
    · rw [nodes, successors]
      by_cases inside : i < c.size
      · have chain : topology ≠ .ring := fun ring => closed ⟨ring, by omega⟩
        have same : i < c.size - 1 ↔ i + 1 < c.size := by omega
        simp only [same, chain, if_false]
      · simp [beyond i inside]

/-- A bank of any size is put together, with the links of its topology and with the phases and the
initial signal where they belong. -/
theorem getElem?_bank (program : Program) (phases : List Cell) (topology : Topology)
    (settings : Settings) :
    ∃ c, bank program phases topology settings = .ok c ∧ c.size = phases.length ∧
      c.edges = links phases.length topology ∧ c.tap = none ∧
      ∀ i, c.nodes[i]? = phases[i]?.map fun phase =>
        ((amplifier program settings i).forwardTo (successors phases.length topology i)).supply
          (seeds i phase) := by
  obtain ⟨c, seeded_eq, size, unheard, no_tap, nodes⟩ := getElem?_seeded program phases settings
  obtain ⟨d, wired_eq, same_size, edges, tap, wired_nodes⟩ := getElem?_wired topology unheard
  rw [size] at same_size edges wired_nodes
  rw [no_tap] at tap
  have listed (i : Nat) : d.nodes[i]? = phases[i]?.map fun phase =>
      ((amplifier program settings i).forwardTo (successors phases.length topology i)).supply
        [phase] := by
    rw [wired_nodes, nodes, Option.map_map]
    apply Option.map_congr
    intro phase _
    exact Machine.forwardTo_supply ..
  by_cases empty : 0 < d.size
  · have seeded_first : bank program phases topology settings = d.seed 0 [0] := by
      simp only [bank, seeded_eq, bind, Except.bind, wired_eq, if_pos empty]
    rw [Circuit.seed_of_lt empty] at seeded_first
    refine ⟨_, seeded_first, ?_, edges, tap, fun i => ?_⟩
    · simp only [Circuit.size, List.length_modify]
      exact same_size
    · simp only [List.getElem?_modify, listed, seeds]
      cases i with
      | zero => cases phases[0]? <;> simp
      | succ i => simp
  · refine ⟨d, ?_, same_size, edges, tap, fun i => ?_⟩
    · simp only [bank, seeded_eq, bind, Except.bind, wired_eq, if_neg empty, pure, Except.pure]
    · have none_at : phases[i]? = none := List.getElem?_eq_none (by omega)
      rw [listed, none_at]
      rfl

end Amplifiers

end TapeMachine
