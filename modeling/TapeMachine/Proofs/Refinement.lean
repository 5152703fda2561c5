import TapeMachine.Proofs.ExactDecoding
import TapeMachine.Proofs.Stepping

/-! As long as no number leaves the range of a cell and memory refuses no write, a machine does what
the exact machine does, step by step, and looks the same from outside. -/

namespace TapeMachine

open Cell (InRange)

def Fault.isMemoryLimit : Fault → Bool
  | memoryLimit _ _ => true
  | _ => false

def Phase.ending? : Phase → Option Ending
  | ready | running => none
  | halted _ => some .halted
  | exhausted _ => some .exhausted
  | failed fault => some (.failed fault)

theorem Phase.isTerminal_eq (p : Phase) : p.isTerminal = p.ending?.isSome := by
  cases p <;> rfl

namespace Machine

def after (x : Machine) : Nat → Machine
  | 0 => x
  | n + 1 => (x.after n).step.1

def standing (x : Machine) : Standing :=
  match x.phase.ending? with
  | some ending => .stopped ending
  | none => if x.step.2 = .blocked then .suspended else .running

/-- The relation with the exact machine that every step keeps. -/
structure Refines (x : Machine) (r : ExactMachine) : Prop where
  engine : x.engine.Follows r.toExactEngine
  input : x.pending.map Int64.toInt = r.input
  output : x.outlet.values.toList.map Int64.toInt = r.output
  quiet : x.outlet.loops = 0
  ending : x.phase.ending? = r.ending

variable {x : Machine} {r : ExactMachine}

theorem isMemoryLimit_of_refusal {m : Memory} {address : Cell} {fault : Fault}
    (refused : m.refusal? address = some fault) : fault.isMemoryLimit := by
  unfold Memory.refusal? Memory.cellRefusal? at refused
  split at refused
  all_goals
    split at refused
    · cases refused
      rfl
    · cases refused

theorem store_of_unlimited {e e' : Engine} {effect : Effect} {width : Nat} {address value : Cell}
    {taken : Option Cell} (stored : e.store width address value taken = (e', effect))
    (unlimited : ∀ fault taken, effect = .failed fault taken → fault.isMemoryLimit = false) :
    e' = ⟨e.memory.set address value, e.ip + width, e.base, e.steps + 1⟩ ∧
      effect = Engine.storeEffect taken := by
  cases refused : e.memory.refusal? address with
  | none =>
    rw [Engine.store_of_admitted refused] at stored
    cases stored
    exact ⟨rfl, rfl⟩
  | some fault =>
    rw [Engine.store_of_fault refused] at stored
    cases stored
    have limited := isMemoryLimit_of_refusal refused
    rw [unlimited fault taken rfl] at limited
    cases limited

theorem phase_absorb_failed (x : Machine) (fault : Fault) (taken : Option Cell) :
    (x.absorb (.failed fault taken)).1.phase = .failed fault := by
  cases taken <;> rfl

/-- Both machines carry out the same instruction. -/
theorem Refines.perform {i : Instruction} {move : Move} (refines : x.Refines r)
    (makes : i.Makes move) (base : ∀ delta, move = .rebase delta → InRange (r.base + delta))
    {e : Engine} {effect : Effect} (performed : x.engine.perform i x.pending.head? = (e, effect))
    (unlimited : ∀ fault taken, effect = .failed fault taken → fault.isMemoryLimit = false) :
    ({ x with engine := e }.absorb effect).1.Refines (r.perform move) := by
  obtain ⟨follows, input, output, quiet, ending⟩ := refines
  obtain ⟨action, width⟩ := i
  obtain ⟨rfl, rfl⟩ : action.exact = move ∧ width = move.width := makes
  cases action with
  | store address value =>
    obtain ⟨rfl, rfl⟩ := store_of_unlimited performed unlimited
    exact ⟨follows.set address value 4, input, output, quiet, ending⟩
  | input address =>
    by_cases empty : x.pending = []
    · rw [empty] at performed
      cases performed
      rw [Action.exact, ExactMachine.perform_input_nil (by rw [← input, empty]; rfl)]
      exact ⟨follows, input, output, quiet, ending⟩
    · obtain ⟨value, rest, pending⟩ := List.exists_cons_of_ne_nil empty
      rw [pending] at performed
      obtain ⟨rfl, rfl⟩ := store_of_unlimited performed unlimited
      rw [Action.exact, ExactMachine.perform_input_cons (by rw [← input, pending]; rfl)]
      refine ⟨follows.set address value 2, ?_, output, quiet, ending⟩
      exact congrArg (·.tail.map Int64.toInt) pending
  | output value =>
    cases performed
    refine ⟨follows.advance 2, ?_, ?_, quiet, ending⟩
    · show (x.pending ++ List.replicate x.outlet.loops value).map Int64.toInt = r.input
      rw [quiet, List.replicate_zero, List.append_nil, input]
    · show (x.outlet.values.push value).toList.map Int64.toInt = r.output ++ [value.toInt]
      rw [Array.toList_push, List.map_append, output]
      rfl
  | jump target =>
    cases performed
    exact ⟨follows.goto target, input, output, quiet, ending⟩
  | skip =>
    cases performed
    exact ⟨follows.advance 3, input, output, quiet, ending⟩
  | rebase delta =>
    cases performed
    have fits := base delta.toInt rfl
    rw [← follows.base] at fits
    refine ⟨{ follows.advance 2 with base := ?_ }, input, output, quiet, ending⟩
    show (x.engine.base.satAdd delta).toInt = r.base + delta.toInt
    rw [Cell.toInt_satAdd, Cell.clamp_of_le fits.1 fits.2, follows.base]
  | halt =>
    cases performed
    exact ⟨{ follows.goto r.ip with ip := follows.ip }, input, output, quiet, rfl⟩

theorem Refines.step (refines : x.Refines r) (fits : r.Going → ∀ a ∈ r.computed, InRange a)
    (unlimited : x.step.1.phase.fault?.any Fault.isMemoryLimit = false) :
    x.step.1.Refines r.step := by
  have ⟨follows, input, output, quiet, ending⟩ := refines
  unfold ExactMachine.step
  by_cases stopped : r.ending.isSome
  · have terminal : x.phase.isTerminal := by
      rw [Phase.isTerminal_eq, ending]
      exact stopped
    rw [if_pos stopped, step_of_isTerminal terminal]
    exact refines
  have going : x.phase.isTerminal = false := by
    rw [Phase.isTerminal_eq, ending]
    exact Bool.eq_false_iff.mpr stopped
  rw [if_neg stopped]
  rw [step_of_not_isTerminal going, Engine.step, follows.length, follows.ip] at unlimited ⊢
  by_cases outside : r.length ≤ r.ip
  · rw [if_pos outside, if_pos outside]
    exact ⟨follows, input, output, quiet, rfl⟩
  rw [if_neg outside] at unlimited ⊢
  rw [if_neg outside]
  have inside : r.ip < r.length := Nat.lt_of_not_le outside
  have near := fits ⟨by simpa using stopped, inside⟩
  have alike := Engine.fetch_alike follows inside near
  cases fetched : x.engine.fetch with
  | error fault =>
    rw [fetched] at alike
    generalize r.move = move at alike
    cases alike
    exact ⟨follows, input, output, quiet, rfl⟩
  | ok i =>
    rw [fetched] at alike unlimited
    cases moves : r.move with
    | error fault =>
      rw [moves] at alike
      cases alike
    | ok move =>
      rw [moves] at alike
      obtain ⟨-⟩ | ⟨makes⟩ := alike
      refine refines.perform makes (fun delta same => ?_) rfl fun fault taken failed => ?_
      · exact near _ (List.mem_append_right _ (by simp [moves, same]))
      · rw [failed, phase_absorb_failed] at unlimited
        exact unlimited

theorem Refines.after (refines : x.Refines r) {n : Nat}
    (fits : ∀ k < n, (r.after k).Going → ∀ a ∈ (r.after k).computed, InRange a)
    (unlimited : ∀ k < n, (x.after (k + 1)).phase.fault?.any Fault.isMemoryLimit = false) :
    (x.after n).Refines (r.after n) := by
  induction n with
  | zero => exact refines
  | succ n ih =>
    have before := ih (fun k less => fits k (by omega)) fun k less => unlimited k (by omega)
    exact before.step (fits n (by omega)) (unlimited n (by omega))

theorem step_blocked_iff (going : x.phase.isTerminal = false) : x.step.2 = .blocked ↔ x.Awaits := by
  constructor
  · intro blocked
    by_contra fed
    exact (step_of_active ⟨going, fed⟩).1 blocked
  · intro awaits
    rw [step_of_awaits going awaits]

theorem Refines.standing (refines : x.Refines r) : x.standing = r.standing := by
  unfold Machine.standing ExactMachine.standing
  rw [refines.ending]
  cases ending : r.ending with
  | some ending => rfl
  | none =>
    have going : x.phase.isTerminal = false := by
      rw [Phase.isTerminal_eq, refines.ending, ending]
      rfl
    have reads := Engine.reads_iff refines.engine
    have empty : x.pending = [] ↔ r.input = [] := by
      rw [← refines.input, List.map_eq_nil_iff]
    by_cases awaits : x.Awaits
    · obtain ⟨inside, a, moves⟩ := reads.mp awaits.1
      simp only [(step_blocked_iff going).mpr awaits, moves, empty.mp awaits.2, inside, if_true]
    · simp only [mt (step_blocked_iff going).mp awaits, if_false]
      split
      next a moves none =>
        have outside : ¬r.ip < r.length := fun inside =>
          awaits ⟨reads.mpr ⟨inside, a, moves⟩, empty.mpr none⟩
        rw [if_neg outside]
      · rfl

/-- A machine and the exact machine look the same from outside. -/
structure Agrees (x : Machine) (r : ExactMachine) : Prop where
  ip : x.engine.ip = r.ip
  base : x.engine.base.toInt = r.base
  steps : x.engine.steps = r.steps
  length : x.engine.memory.size = r.length
  memory : ∀ address : Cell, (x.engine.memory.read address).toInt = r.memory address.toInt
  output : x.outlet.values.toList.map Int64.toInt = r.output
  input : x.pending.map Int64.toInt = r.input
  standing : x.standing = r.standing

theorem Refines.agrees (refines : x.Refines r) : x.Agrees r where
  ip := refines.engine.ip
  base := refines.engine.base
  steps := refines.engine.steps
  length := refines.engine.length
  memory := refines.engine.memory
  output := refines.output
  input := refines.input
  standing := refines.standing

def launch (program : Program) (settings : Settings) (input : List Cell) : Machine :=
  ((create program settings).supply input).start

def launchExact (program : Program) (input : List Cell) : ExactMachine :=
  .start (program.cells.map Int64.toInt) (input.map Int64.toInt)

theorem refines_launch {program : Program} (addressable : InRange program.cells.length)
    (settings : Settings) (input : List Cell) :
    (launch program settings input).Refines (launchExact program input) :=
  ⟨Engine.follows_ofProgram addressable settings.memoryLimit, rfl, rfl, rfl, rfl⟩

/-- A machine and the exact machine agree after any number of steps, if until then no number that
the exact machine has computed is out of range and memory has refused no write. The positions of
the program itself have to be in range too. -/
theorem refines_exact (program : Program) (settings : Settings) (input : List Cell) (n : Nat)
    (addressable : InRange program.cells.length)
    (fits : ∀ k < n, ((launchExact program input).after k).Going →
      ∀ a ∈ ((launchExact program input).after k).computed, InRange a)
    (unlimited : ∀ k < n, ((launch program settings input).after (k + 1)).phase.fault?.any
      Fault.isMemoryLimit = false) :
    ((launch program settings input).after n).Agrees ((launchExact program input).after n) := by
  have refines := (refines_launch addressable settings input).after fits unlimited
  exact refines.agrees

/-- A program that reads into a negative relative address, multiplies what it finds there, writes
it out, stores into a slot of its own and then waits for input. -/
theorem refines_exact_detached :
    let program : Program := ⟨[109, -3, 203, 1, 2102, 3, 1, 20, 4, 20, 11101, 1, 1, 0, 3, 0]⟩
    let x := launch program {} [7]
    let r := launchExact program [7]
    (InRange program.cells.length ∧
      (∀ k < 6, (r.after k).Going → ∀ a ∈ (r.after k).computed, InRange a) ∧
      ∀ k < 6, (x.after (k + 1)).phase.fault?.any Fault.isMemoryLimit = false) ∧
    ((r.after 6).memory (-2) = 7 ∧ (r.after 6).memory 13 = 2 ∧ (r.after 6).length = 21 ∧
      (r.after 6).output = [21] ∧ (r.after 6).standing = .suspended) ∧
    (x.after 6).Agrees (r.after 6) := by
  intro program x r
  have addressable : InRange program.cells.length := by decide
  have fits : ∀ k < 6, (r.after k).Going → ∀ a ∈ (r.after k).computed, InRange a := by
    decide +kernel
  have unlimited : ∀ k < 6, (x.after (k + 1)).phase.fault?.any Fault.isMemoryLimit = false := by
    decide +kernel
  refine ⟨⟨addressable, fits, unlimited⟩, by decide +kernel, ?_⟩
  exact refines_exact program {} [7] 6 addressable fits unlimited

end Machine

end TapeMachine
