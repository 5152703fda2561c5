import TapeMachine.Proofs.Readiness

/-! If one interleaving of a circuit comes to rest without a failure, so do all, in the same state;
the agenda, which is one of them, comes to rest there too. -/

namespace TapeMachine

open Circuit (Interleaving)

namespace Agenda

def Settles (a : Agenda) (final : Circuit) : Prop :=
  ∃ enough, ∀ fuel, enough ≤ fuel →
    (go fuel a).1.circuit = final ∧ (go fuel a).2 = final.verdict

theorem settles_of_turn {a b : Agenda} {final : Circuit} (turned : a.turn = (b, none))
    (later : b.Settles final) : a.Settles final := by
  obtain ⟨enough, settled⟩ := later
  refine ⟨enough + 1, fun fuel more => ?_⟩
  obtain ⟨fuel, rfl⟩ : ∃ less, fuel = less + 1 := ⟨fuel - 1, by omega⟩
  simp only [go, turned]
  exact settled fuel (by omega)

/-- An agenda comes to rest where some interleaving of its circuit does: a turn either takes a step
that the interleaving has still to take, or shortens the queue. -/
theorem settles_of_interleaving (c : Circuit) (ready waiting schedule : List Nat) {final : Circuit}
    (sound : Sound ⟨c, ready, waiting⟩) (wired : c.Wired) (single : c.SingleSource)
    (run : Interleaving schedule c final) (quiescent : final.Quiescent)
    (unfailed : final.Unfailed) : Settles ⟨c, ready, waiting⟩ final := by
  cases ready with
  | nil =>
    obtain ⟨resting, verdict⟩ := sound.empty
    obtain ⟨-, rfl⟩ := run.nil_of_quiescent resting
    refine ⟨1, fun fuel positive => ?_⟩
    obtain ⟨fuel, rfl⟩ : ∃ less, fuel = less + 1 := ⟨fuel - 1, by omega⟩
    simp only [turn, Option.some.injEq] at verdict
    simp only [go, turn, verdict, and_self]
  | cons i rest =>
    have inside : i < c.size := sound.known i List.mem_cons_self
    have node : c.nodes[i]? = some c.nodes[i] := List.getElem?_eq_getElem inside
    by_cases able : c.CanAdvance i
    · obtain ⟨member, moved⟩ := run.exchange quiescent wired single able
      have shorter : (schedule.erase i).length < schedule.length := by
        rw [List.length_erase_of_mem member]
        have positive := List.length_pos_of_mem member
        omega
      have after := sound.advance able
      rw [turn_of_canAdvance able] at after
      refine settles_of_turn (turn_of_canAdvance able) ?_
      generalize woken_eq : ((c.advance i).2.output.flatMap fun _ =>
        Circuit.targets (c.advance i).1.nodes i) = woken at after
      have circuit := circuit_foldl_wake ⟨(c.advance i).1, i :: rest, waiting⟩ woken
      generalize woken.foldl wake ⟨(c.advance i).1, i :: rest, waiting⟩ = a at after circuit
      obtain ⟨_, ready, waiting⟩ := a
      obtain rfl : _ = (c.advance i).1 := circuit
      exact settles_of_interleaving _ ready waiting (schedule.erase i) after (wired.advance i)
        (Circuit.singleSource_advance single i) moved quiescent unfailed
    · -- The front node leaves the queue, and the circuit stays as it is.
      cases going : c.nodes[i].phase.isTerminal with
      | true =>
        refine settles_of_turn (turn_of_stopped node going (run.unfailed unfailed i)) ?_
        exact settles_of_interleaving c rest waiting schedule (sound.stopped node going) wired single
          run quiescent unfailed
      | false =>
        have awaits : c.nodes[i].Awaits :=
          Classical.byContradiction fun fed =>
            able ((Circuit.canAdvance_iff_active node).mpr ⟨going, fed⟩)
        refine settles_of_turn (turn_of_awaits node going awaits) ?_
        exact settles_of_interleaving c rest (waiting ++ [i]) schedule
          (sound.blocked node going awaits) wired single run quiescent unfailed
termination_by (schedule.length, ready.length)

end Agenda

namespace Circuit

/-- An endless interleaving begins with interleavings of every length. -/
theorem exists_interleaving_of_endless (states : Nat → Circuit) (picks : Nat → Nat)
    (steps : ∀ n, (states n).CanAdvance (picks n) ∧
      states (n + 1) = ((states n).advance (picks n)).1) (n : Nat) :
    ∃ schedule, schedule.length = n ∧ Interleaving schedule (states 0) (states n) := by
  induction n generalizing states picks with
  | zero => exact ⟨[], rfl, .nil⟩
  | succ n ih =>
    obtain ⟨schedule, length, later⟩ :=
      ih (fun n => states (n + 1)) (fun n => picks (n + 1)) fun n => steps (n + 1)
    obtain ⟨able, next⟩ := steps 0
    refine ⟨picks 0 :: schedule, by rw [List.length_cons, length], .cons able ?_⟩
    rw [← next]
    exact later

/-- If some interleaving of a circuit with one source for each input comes to rest and nothing has
failed, then every interleaving is finite, fails nowhere, lets each node take as many steps and
comes to rest in the same state, and so does the run by the agenda. -/
theorem schedule_independence (c : Circuit) (built : c.Assembled) (single : c.SingleSource)
    (schedule : List Nat) (final : Circuit) (run : Interleaving schedule c.start final)
    (quiescent : final.Quiescent) (unfailed : final.Unfailed) :
    (∀ other reached, Interleaving other c.start reached →
      other.length ≤ schedule.length ∧ reached.Unfailed ∧
        ∃ rest, Interleaving rest reached final) ∧
    (∀ (states : Nat → Circuit) (picks : Nat → Nat), states 0 = c.start →
      ¬∀ n, (states n).CanAdvance (picks n) ∧
        states (n + 1) = ((states n).advance (picks n)).1) ∧
    (∀ other reached, Interleaving other c.start reached → reached.Quiescent →
      reached = final ∧ ∀ i, other.count i = schedule.count i) ∧
    ∃ enough, ∀ fuel, enough ≤ fuel → c.finish fuel =
      (final, if final.nodes.all (·.phase.isTerminal) then .done final.nodes else .deadlock) := by
  have wired : c.start.Wired := built.wired.start
  have alone : c.start.SingleSource := single
  have bounded : ∀ other reached, Interleaving other c.start reached →
      other.length ≤ schedule.length := by
    intro other reached begun
    obtain ⟨rest, -, same⟩ := run.residual quiescent wired alone begun
    rw [same.length_eq, List.length_append]
    omega
  refine ⟨?_, ?_, ?_, ?_⟩
  · intro other reached begun
    obtain ⟨rest, leads, -⟩ := run.residual quiescent wired alone begun
    exact ⟨bounded other reached begun, leads.unfailed unfailed, rest, leads⟩
  · intro states picks initial endless
    obtain ⟨other, length, begun⟩ :=
      exists_interleaving_of_endless states picks endless (schedule.length + 1)
    rw [initial] at begun
    have short := bounded other _ begun
    omega
  · intro other reached begun resting
    obtain ⟨rest, leads, same⟩ := run.residual quiescent wired alone begun
    obtain ⟨rfl, rfl⟩ := leads.nil_of_quiescent resting
    refine ⟨rfl, fun i => ?_⟩
    rw [same.count_eq, List.append_nil]
  · obtain ⟨enough, settled⟩ := Agenda.settles_of_interleaving c.start (List.range c.size) []
      schedule (Agenda.sound_ofCircuit c) wired alone run quiescent unfailed
    refine ⟨enough, fun fuel more => ?_⟩
    obtain ⟨circuit, verdict⟩ := settled fuel more
    have result : c.run fuel = (final, final.verdict) := Prod.ext circuit verdict
    rw [finish, result, Circuit.verdict]
    cases final.nodes.all (·.phase.isTerminal) <;> rfl

/-- Two nodes that feed each other: each takes a number, sends on one less and halts. What the
second sends stays pending at the first. -/
theorem schedule_independence_ring :
    let x := Machine.create ⟨[3, 9, 101, -1, 9, 10, 4, 10, 99]⟩ {}
    let pair := (({} : Circuit).add x).add x
    let half := (pair.connect 0 1).toOption.getD {}
    let ring := (half.connect 1 0).toOption.getD {}
    let c := (ring.seed 0 [2]).toOption.getD {}
    let schedule := [0, 0, 0, 1, 0, 1, 1, 1]
    let final := c.start.execute schedule
    (c.Assembled ∧ c.SingleSource ∧ Interleaving schedule c.start final ∧ final.Quiescent ∧
      final.Unfailed) ∧
    (final.nodes.map fun node => (node.pending, node.outlet.values)) = [([0], #[1]), ([], #[0])] ∧
    ∀ other reached, Interleaving other c.start reached → reached.Quiescent → reached = final := by
  intro x pair half ring c schedule final
  have built : c.Assembled :=
    .seed (.connect (.connect (.add (.add .empty rfl rfl) rfl rfl)
      (rfl : pair.connect 0 1 = Except.ok half)) (rfl : half.connect 1 0 = Except.ok ring))
      (rfl : ring.seed 0 [2] = Except.ok c)
  have single : c.SingleSource := by decide
  have run : Interleaving schedule c.start final := by decide +kernel
  have quiescent : final.Quiescent := by decide +kernel
  have unfailed : final.Unfailed := by decide +kernel
  refine ⟨⟨built, single, run, quiescent, unfailed⟩, by decide +kernel, ?_⟩
  intro other reached begun resting
  exact ((schedule_independence c built single schedule final run quiescent unfailed).2.2.1
    other reached begun resting).1

end Circuit

end TapeMachine
