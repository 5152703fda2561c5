import TapeMachine.Proofs.Wiring

/-! In a circuit where no node is fed by two others, a step of one node neither hinders nor changes
a step that another can take. An interleaving that comes to rest can therefore take any step first
that is possible at its start, and in the end all interleavings are the same up to their order. -/

namespace TapeMachine.Circuit

def SingleSource (c : Circuit) : Prop :=
  ∀ first ∈ c.edges, ∀ second ∈ c.edges, first.2 = second.2 → first.1 = second.1

instance (c : Circuit) : Decidable c.SingleSource :=
  inferInstanceAs (Decidable (∀ first ∈ c.edges, ∀ second ∈ c.edges, _))

theorem singleSource_advance {c : Circuit} (single : c.SingleSource) (i : Nat) :
    (c.advance i).1.SingleSource := by
  rw [SingleSource, edges_advance]
  exact single

theorem edge_of_arrivals {c : Circuit} (wired : c.Wired) {i k : Nat} (some : c.arrivals i k ≠ []) :
    (i, k) ∈ c.edges := by
  rw [arrivals_eq wired] at some
  have positive : 0 < (c.incoming k).countP (·.1 = i) := by
    apply Nat.pos_of_ne_zero
    intro zero
    apply some
    rw [zero]
    simp
  obtain ⟨edge, member, source⟩ := List.countP_pos_iff.mp positive
  obtain ⟨known, target⟩ := List.mem_filter.mp member
  simp only [decide_eq_true_eq] at source target
  rw [← source, ← target]
  exact known

theorem arrivals_comm {c : Circuit} (wired : c.Wired) (single : c.SingleSource) {i j : Nat}
    (different : i ≠ j) (k : Nat) :
    c.arrivals i k ++ c.arrivals j k = c.arrivals j k ++ c.arrivals i k := by
  by_cases first : c.arrivals i k = []
  · rw [first, List.append_nil, List.nil_append]
  by_cases second : c.arrivals j k = []
  · rw [second, List.append_nil, List.nil_append]
  exact absurd (single _ (edge_of_arrivals wired first) _ (edge_of_arrivals wired second) rfl)
    different

theorem canAdvance_advance {c : Circuit} {i j : Nat} (different : i ≠ j) (able : c.CanAdvance j) :
    (c.advance i).1.CanAdvance j := by
  obtain ⟨y, node, active⟩ := able
  refine ⟨y.supply (c.arrivals i j), ?_, Machine.active_supply active _⟩
  rw [nodes_advance, node, Option.map_some, if_neg (Ne.symm different)]

theorem arrivals_advance {c : Circuit} (wired : c.Wired) {i j : Nat} (different : i ≠ j)
    (able : c.CanAdvance j) (k : Nat) : (c.advance i).1.arrivals j k = c.arrivals j k := by
  obtain ⟨y, node, active⟩ := able
  have after : (c.advance i).1.nodes[j]? = some (y.supply (c.arrivals i j)) := by
    rw [nodes_advance, node, Option.map_some, if_neg (Ne.symm different)]
  simp only [arrivals, node, after, Machine.step_supply (wired.quiet j y node) active,
    Machine.outlet_supply]

theorem nodes_advance_advance {c : Circuit} (wired : c.Wired) {i j : Nat} (different : i ≠ j)
    (able : c.CanAdvance j) (k : Nat) :
    ((c.advance i).1.advance j).1.nodes[k]? = c.nodes[k]?.map fun y =>
      (if k = i ∨ k = j then y.step.1 else y).supply (c.arrivals i k ++ c.arrivals j k) := by
  rw [nodes_advance, nodes_advance, Option.map_map, arrivals_advance wired different able]
  cases node : c.nodes[k]? with
  | none => rfl
  | some y =>
    simp only [Option.map_some, Function.comp_apply]
    by_cases second : k = j
    · subst second
      have active : y.Active := (canAdvance_iff_active node).mp able
      simp only [if_neg (Ne.symm different), or_true, if_true,
        Machine.step_supply (wired.quiet k y node) active, Machine.supply_supply]
    · simp only [second, or_false, if_false, Machine.supply_supply]

theorem advance_comm {c : Circuit} (wired : c.Wired) (single : c.SingleSource) {i j : Nat}
    (different : i ≠ j) (first : c.CanAdvance i) (second : c.CanAdvance j) :
    ((c.advance i).1.advance j).1 = ((c.advance j).1.advance i).1 := by
  have nodes : ((c.advance i).1.advance j).1.nodes = ((c.advance j).1.advance i).1.nodes := by
    apply List.ext_getElem?
    intro k
    rw [nodes_advance_advance wired different second,
      nodes_advance_advance wired (Ne.symm different) first, arrivals_comm wired single different]
    simp only [or_comm]
  have edges : ((c.advance i).1.advance j).1.edges = ((c.advance j).1.advance i).1.edges := by
    simp only [edges_advance]
  have tap : ((c.advance i).1.advance j).1.tap = ((c.advance j).1.advance i).1.tap := by
    simp only [tap_advance]
  calc ((c.advance i).1.advance j).1
    _ = ⟨((c.advance i).1.advance j).1.nodes, ((c.advance i).1.advance j).1.edges,
          ((c.advance i).1.advance j).1.tap⟩ := rfl
    _ = ((c.advance j).1.advance i).1 := by rw [nodes, edges, tap]

variable {c final reached : Circuit} {schedule other : List Nat}

/-- A step that is possible now is taken sooner or later, and may as well be taken first. -/
theorem Interleaving.exchange (run : Interleaving schedule c final) (quiescent : final.Quiescent)
    (wired : c.Wired) (single : c.SingleSource) {j : Nat} (able : c.CanAdvance j) :
    j ∈ schedule ∧ Interleaving (schedule.erase j) (c.advance j).1 final := by
  -- The first step of the run commutes with that of `j`, which stays possible after it.
  induction run with
  | nil => exact absurd able (quiescent j)
  | @cons i rest c final first later ih =>
    by_cases same : i = j
    · subst same
      exact ⟨List.mem_cons_self, by rwa [List.erase_cons_head]⟩
    · obtain ⟨member, moved⟩ := ih quiescent (wired.advance i) (singleSource_advance single i)
        (canAdvance_advance same able)
      refine ⟨List.mem_cons_of_mem i member, ?_⟩
      rw [List.erase_cons_tail (by simpa using same)]
      rw [advance_comm wired single same first able] at moved
      exact .cons (canAdvance_advance (Ne.symm same) first) moved

/-- Whatever has been done of one interleaving, the rest of another that comes to rest leads from
there to the same end. -/
theorem Interleaving.residual (run : Interleaving schedule c final) (quiescent : final.Quiescent)
    (wired : c.Wired) (single : c.SingleSource) (begun : Interleaving other c reached) :
    ∃ rest, Interleaving rest reached final ∧ schedule.Perm (other ++ rest) := by
  induction begun generalizing schedule with
  | nil => exact ⟨schedule, run, .refl _⟩
  | @cons j others c reached able _ ih =>
    obtain ⟨member, moved⟩ := run.exchange quiescent wired single able
    obtain ⟨rest, leads, same⟩ := ih moved (wired.advance j) (singleSource_advance single j)
    exact ⟨rest, leads, (List.perm_cons_erase member).trans (.cons j same)⟩

theorem Interleaving.nil_of_quiescent (run : Interleaving schedule c final)
    (quiescent : c.Quiescent) : schedule = [] ∧ final = c := by
  cases run with
  | nil => exact ⟨rfl, rfl⟩
  | cons able _ => exact absurd able (quiescent _)

theorem fault?_advance {i : Nat} {fault : Fault} (failed : c.fault? i = some fault) (j : Nat) :
    (c.advance j).1.fault? i = some fault := by
  obtain ⟨x, node, fails⟩ := Option.bind_eq_some_iff.mp failed
  rw [fault?, nodes_advance, node, Option.map_some, Option.bind_some, Machine.phase_supply]
  split
  · exact Machine.fault_step fails
  · exact fails

theorem Interleaving.unfailed (run : Interleaving schedule c final) (unfailed : final.Unfailed) :
    c.Unfailed := by
  induction run with
  | nil => exact unfailed
  | @cons j rest c final _ _ ih =>
    intro i
    cases failed : c.fault? i with
    | none => rfl
    | some fault =>
      have later := ih unfailed i
      rw [fault?_advance failed j] at later
      cases later

end TapeMachine.Circuit
