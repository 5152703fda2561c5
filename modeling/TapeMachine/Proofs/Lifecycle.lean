import TapeMachine.Proofs.Record
import TapeMachine.Proofs.Decoding

/-! The phase of a machine tells where its engine stands: a halted one at a halt instruction, an
exhausted one past the end of its tape, one whose run was given up at an input instruction, and one
that is ready at the very start. A machine that has stopped stays so, with the result that it
stopped with. -/

namespace TapeMachine

namespace Engine

variable {e : Engine}

/-- The word at the instruction pointer is an input instruction, and its destination resolves. -/
def AtInput (e : Engine) : Prop :=
  ∃ cursor address, Cursor.start e.memory e.ip e.base = .ok cursor ∧ cursor.opcode = .input ∧
    cursor.address e.memory = .ok address

theorem Reads.atInput (reads : e.Reads) : e.AtInput := by
  obtain ⟨-, address, width, fetched⟩ := reads
  unfold fetch at fetched
  split at fetched
  · rename_i cursor started
    obtain ⟨opcode, -⟩ := Cursor.instruction_ok fetched
    have input : cursor.opcode = .input := List.mem_singleton.mp opcode
    simp only [Cursor.instruction, input, map_eq_ok_iff] at fetched
    obtain ⟨resolved, address, -⟩ := fetched
    exact ⟨cursor, resolved, started, input, address⟩
  · cases fetched

theorem store_goes_on (e : Engine) (width : Nat) (address value : Cell) (taken : Option Cell) :
    (e.store width address value taken).2 ≠ .halted ∧
      (e.store width address value taken).2 ≠ .exhausted := by
  cases refused : e.memory.refusal? address with
  | some fault => rw [store_of_fault refused]; simp
  | none => rw [store_of_admitted refused]; cases taken <;> simp [storeEffect]

theorem action_of_halted {i : Instruction} {front : Option Cell}
    (halted : (e.perform i front).2 = .halted) : i.action = .halt := by
  obtain ⟨action, width⟩ := i
  cases action with
  | halt => rfl
  | store address value => exact absurd halted (store_goes_on ..).1
  | input address =>
    cases front with
    | none => cases halted
    | some value => exact absurd halted (store_goes_on ..).1
  | _ => cases halted

theorem perform_ne_exhausted (e : Engine) (i : Instruction) (front : Option Cell) :
    (e.perform i front).2 ≠ .exhausted := by
  obtain ⟨action, width⟩ := i
  cases action with
  | store address value => exact (store_goes_on ..).2
  | input address =>
    cases front with
    | none => simp [perform]
    | some value => exact (store_goes_on ..).2
  | _ => simp [perform]

/-- A step that halts leaves the engine at a halt instruction. -/
theorem word_of_halted {front : Option Cell} (halted : (e.step front).2 = .halted) :
    0 ≤ (e.step front).1.word ∧ (e.step front).1.word % 100 = 99 := by
  by_cases outside : e.memory.size ≤ e.ip
  · rw [step, if_pos outside] at halted
    cases halted
  rw [step, if_neg outside] at halted ⊢
  cases fetched : e.fetch with
  | error fault => rw [fetched] at halted; cases halted
  | ok i =>
    rw [fetched] at halted
    obtain ⟨opcode, kind, positive, code, -⟩ := fetch_ok fetched
    have action := action_of_halted halted
    rw [action] at kind
    obtain rfl : opcode = .halt := List.mem_singleton.mp kind
    simp only [perform, action]
    exact ⟨positive, code⟩

/-- A step that finds the tape ended leaves the engine past its end. -/
theorem size_le_of_exhausted {front : Option Cell} (exhausted : (e.step front).2 = .exhausted) :
    (e.step front).1.memory.size ≤ (e.step front).1.ip := by
  by_cases outside : e.memory.size ≤ e.ip
  · rw [step, if_pos outside]
    exact outside
  rw [step, if_neg outside] at exhausted
  cases fetched : e.fetch with
  | error fault => rw [fetched] at exhausted; cases exhausted
  | ok i =>
    rw [fetched] at exhausted
    exact absurd exhausted (perform_ne_exhausted e i front)

end Engine

namespace Machine

variable {x : Machine}

/-- A machine that has stopped without a fault stands where it could not go on. -/
structure Stands (x : Machine) : Prop where
  halted : ∀ report, x.phase = .halted report → 0 ≤ x.engine.word ∧ x.engine.word % 100 = 99
  exhausted : ∀ report, x.phase = .exhausted report → x.engine.memory.size ≤ x.engine.ip

/-- What the phase of a machine between two calls says about its engine. -/
structure Settled (first : Engine) (x : Machine) : Prop extends Stands x where
  running : x.phase = .running → x.engine.AtInput
  ready : x.phase = .ready → x.engine = first

theorem stands_of_not_isTerminal (going : x.phase.isTerminal = false) : x.Stands := by
  constructor
  all_goals
    intro report phase
    rw [phase] at going
    cases going

theorem Stands.step (stands : x.Stands) : x.step.1.Stands := by
  cases going : x.phase.isTerminal with
  | true => rw [step_of_isTerminal going]; exact stands
  | false =>
    rw [step_of_not_isTerminal going]
    cases effect : (x.engine.step x.pending.head?).2 with
    | halted => exact ⟨fun _ _ => Engine.word_of_halted effect, fun _ phase => nomatch phase⟩
    | exhausted =>
      exact ⟨fun _ phase => (nomatch phase), fun _ _ => Engine.size_le_of_exhausted effect⟩
    | failed fault taken =>
      cases taken <;> exact ⟨fun _ phase => (nomatch phase), fun _ phase => (nomatch phase)⟩
    | _ => exact stands_of_not_isTerminal going

theorem Stands.go (stands : x.Stands) (fuel : Nat) : (go fuel x).1.Stands := by
  induction fuel generalizing x with
  | zero => exact stands
  | succ fuel ih =>
    by_cases active : x.Active
    · rw [go_of_active active]
      exact ih stands.step
    · rw [go_of_not_active active]
      exact stands

theorem Stands.start (stands : x.Stands) : x.start.Stands := by
  by_cases ready : x.phase = .ready
  · apply stands_of_not_isTerminal
    rw [Machine.start, ready]
    rfl
  · rw [(start_eq_self_iff x).mpr ready]
    exact stands

variable {first : Engine}

theorem Settled.run (settled : x.Settled first) {fuel : Nat}
    (ended : (x.run fuel).2 ≠ .unfinished) : (x.run fuel).1.Settled first := by
  obtain ⟨idle, -⟩ := go_ended ended
  refine ⟨settled.toStands.start.go fuel, fun running => ?_, fun ready => ?_⟩
  · have going : (x.run fuel).1.phase.isTerminal = false := by rw [running]; rfl
    have awaits : (x.run fuel).1.Awaits := Classical.byContradiction fun fed => idle ⟨going, fed⟩
    exact awaits.1.atInput
  · exact absurd ready ((start_eq_self_iff _).mp (start_run fuel x))

theorem Settled.call (settled : x.Settled first) {c : Call}
    (ended : (x.call c).2 ≠ .ran .unfinished) : (x.call c).1.Settled first := by
  cases c with
  | run fuel => exact settled.run fun unfinished => ended (congrArg Reply.ran unfinished)
  | _ => exact ⟨⟨settled.halted, settled.exhausted⟩, settled.running, settled.ready⟩

theorem Settled.serve (settled : x.Settled first) {calls : List Call}
    (ended : .ran .unfinished ∉ x.replies calls) : (x.serve calls).Settled first := by
  induction calls generalizing x with
  | nil => exact settled
  | cons c calls ih =>
    obtain ⟨now, later⟩ := not_or.mp (mt List.mem_cons.mpr ended)
    exact ih (settled.call (Ne.symm now)) later

theorem settled_create (program : Program) (settings : Settings) :
    (create program settings).Settled (Engine.ofProgram program settings.memoryLimit) :=
  ⟨stands_of_not_isTerminal rfl, fun running => (nomatch running), fun _ => rfl⟩

/-- The life of a machine, for any program, any settings and any calls whose runs all came to an
end or were given up where they waited. With status and stored result kept apart it is the same
life, and the two agree after each call. -/
theorem lifecycle (program : Program) (settings : Settings) (calls : List Call)
    (ended : .ran .unfinished ∉ (create program settings).replies calls) :
    let x := (create program settings).serve calls
    let r := (create program settings).record.serve calls
    (r = x.record ∧ r.status.isTerminal = r.terminal.isSome ∧
      (r.status = .failed ↔ ∃ fault, r.terminal = some (.error fault))) ∧
      (x.phase.result?.isSome ↔ x.phase.name ∈ ["Halted", "Exhausted", "Failed"]) ∧
      ((∃ fault, x.phase.result? = some (.error fault)) ↔ x.phase.name = "Failed") ∧
      (∀ fault, x.phase.result? = some (.error fault) → (Error.fault fault).isFatal) ∧
      x.Settled (Engine.ofProgram program settings.memoryLimit) ∧
      ∀ result, x.phase.result? = some result → ∀ later,
        let y := x.serve later
        y.engine = x.engine ∧ y.phase = x.phase ∧
          ∀ fuel, y.run (fuel + 1) = (y, .ofResult result) := by
  intro x r
  have same : r = x.record := record_serve ended
  refine ⟨?_, ?_, ?_, fun _ _ => rfl, (settled_create program settings).serve ended, ?_⟩
  · rw [same]
    exact ⟨rfl, x.isTerminal_status, x.failed_status_iff⟩
  · cases x.phase <;> simp [Phase.result?, Phase.name]
  · cases x.phase <;> simp [Phase.result?, Phase.name]
  · intro result stored later
    have stopped : x.phase.isTerminal := by simp [Phase.isTerminal, stored]
    obtain ⟨engine, phase⟩ := serve_of_isTerminal stopped later
    exact ⟨engine, phase, run_of_result (by rw [phase]; exact stored)⟩

/-- A program that passes one value on. Its first run waits and is given up; what is emitted beside
it counts until it has halted and not after. -/
theorem lifecycle_echo :
    let fresh := create ⟨[3, 0, 4, 0, 99]⟩ {}
    let calls := [.run 9, .emit 7, .push 9, .run 9]
    let x := fresh.serve calls
    let y := x.serve [.emit 8, .push 3, .run 1]
    .ran .unfinished ∉ fresh.replies calls ∧
      x.phase = .halted (.output #[7, 9]) ∧ (fresh.record.serve calls).status = .halted ∧
      x.Settled fresh.engine ∧
      y.engine = x.engine ∧ y.phase = x.phase ∧ y.run 1 = (y, .finished (.output #[7, 9])) := by
  intro fresh calls x y
  have ended : .ran .unfinished ∉ fresh.replies calls := by decide +kernel
  have halted : x.phase = .halted (.output #[7, 9]) := by decide +kernel
  have stored : x.phase.result? = some (.ok (.output #[7, 9])) := by rw [halted]; rfl
  obtain ⟨⟨same, -⟩, -, -, -, settled, kept⟩ := lifecycle ⟨[3, 0, 4, 0, 99]⟩ {} calls ended
  obtain ⟨engine, phase, replay⟩ := kept _ stored [.emit 8, .push 3, .run 1]
  have status : (fresh.record.serve calls).status = .halted := by
    rw [same, status_record]
    exact congrArg Phase.status halted
  exact ⟨ended, halted, status, settled, engine, phase, replay 0⟩

end Machine

end TapeMachine
