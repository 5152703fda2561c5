import TapeMachine.Machine

/-! What a step depends on and what it can change. The front of the input is looked at by an input
instruction only, so a machine that is not held up by an empty input steps in the same way whatever
is put behind its pending values. -/

namespace TapeMachine

namespace Effect

def taken? : Effect → Option Cell
  | took value => some value
  | failed _ taken => taken
  | _ => none

end Effect

namespace Event

def taken : Event → List Cell
  | took value => [value]
  | _ => []

def output : Event → List Cell
  | emitted value => [value]
  | _ => []

end Event

namespace Engine

/-- The next instruction takes an input value. -/
def Reads (e : Engine) : Prop :=
  e.ip < e.memory.size ∧ ∃ address width, e.fetch = .ok ⟨.input address, width⟩

theorem store_taken? (e : Engine) (width : Nat) (address value : Cell) (taken : Option Cell) :
    (e.store width address value taken).2.taken? = taken := by
  cases refused : e.memory.refusal? address with
  | some fault => rw [store_of_fault refused]; rfl
  | none => rw [store_of_admitted refused]; cases taken <;> rfl

theorem store_ne_blocked (e : Engine) (width : Nat) (address value : Cell) (taken : Option Cell) :
    (e.store width address value taken).2 ≠ .blocked := by
  cases refused : e.memory.refusal? address with
  | some fault => rw [store_of_fault refused]; simp
  | none => rw [store_of_admitted refused]; cases taken <;> simp [storeEffect]

theorem step_of_fetch_input {e : Engine} {address : Cell} {width : Nat} (inside : e.ip < e.memory.size)
    (fetched : e.fetch = .ok ⟨.input address, width⟩) (front : Option Cell) :
    e.step front = front.elim (e, .blocked)
      fun value => e.store width address value (some value) := by
  simp only [step, Nat.not_le.mpr inside, if_false, fetched, perform]
  cases front <;> rfl

/-- An instruction that takes no input does not look at it, nor does it wait. -/
theorem step_of_not_reads {e : Engine} (reads : ¬e.Reads) (front : Option Cell) :
    e.step front = e.step none ∧ (e.step front).2 ≠ .blocked ∧ (e.step front).2.taken? = none := by
  by_cases outside : e.memory.size ≤ e.ip
  · simp [step, outside, Effect.taken?]
  cases fetched : e.fetch with
  | error fault => simp [step, outside, fetched, Effect.taken?]
  | ok i =>
    obtain ⟨action, width⟩ := i
    have same (front : Option Cell) : e.step front = e.perform ⟨action, width⟩ front := by
      simp only [step, outside, if_false, fetched]
    rw [same, same]
    cases action with
    | input address => exact absurd ⟨Nat.not_le.mp outside, address, width, fetched⟩ reads
    | store address value =>
      exact ⟨rfl, store_ne_blocked e width address value none, store_taken? e width address value none⟩
    | _ => simp [perform, Effect.taken?]

theorem step_blocked_iff (e : Engine) (front : Option Cell) :
    (e.step front).2 = .blocked ↔ e.Reads ∧ front = none := by
  by_cases reads : e.Reads
  · obtain ⟨inside, address, width, fetched⟩ := id reads
    rw [step_of_fetch_input inside fetched]
    cases front with
    | none => simp [reads]
    | some value => simp [store_ne_blocked]
  · simp [reads, (step_of_not_reads reads front).2.1]

theorem front_of_taken? {e : Engine} {front : Option Cell} {value : Cell}
    (taken : (e.step front).2.taken? = some value) : front = some value := by
  by_cases reads : e.Reads
  · obtain ⟨inside, address, width, fetched⟩ := reads
    rw [step_of_fetch_input inside fetched] at taken
    cases front with
    | none => simp [Effect.taken?] at taken
    | some front => simpa [store_taken?] using taken
  · rw [(step_of_not_reads reads front).2.2] at taken
    cases taken

theorem step_of_blocked {e : Engine} {front : Option Cell} (blocked : (e.step front).2 = .blocked) :
    (e.step front).1 = e := by
  obtain ⟨⟨inside, address, width, fetched⟩, rfl⟩ := (step_blocked_iff e front).mp blocked
  rw [step_of_fetch_input inside fetched]
  rfl

end Engine

namespace Machine

/-- The machine stands at an input instruction and has no input for it. -/
def Awaits (x : Machine) : Prop := x.engine.Reads ∧ x.pending = []

/-- The machine can take a step: it has not stopped, and it does not wait for input. -/
def Active (x : Machine) : Prop := x.phase.isTerminal = false ∧ ¬x.Awaits

@[simp] theorem supply_nil (x : Machine) : x.supply [] = x := by
  simp [supply]

@[simp] theorem supply_supply (x : Machine) (first second : List Cell) :
    (x.supply first).supply second = x.supply (first ++ second) := by
  simp [supply]

@[simp] theorem phase_supply (x : Machine) (values : List Cell) :
    (x.supply values).phase = x.phase := rfl

@[simp] theorem outlet_supply (x : Machine) (values : List Cell) :
    (x.supply values).outlet = x.outlet := rfl

@[simp] theorem pending_supply (x : Machine) (values : List Cell) :
    (x.supply values).pending = x.pending ++ values := rfl

theorem absorb_supply (x : Machine) (effect : Effect) (values : List Cell)
    (quiet : x.outlet.loops = 0) (front : effect.taken? ≠ none → x.pending ≠ []) :
    (x.supply values).absorb effect =
      ((x.absorb effect).1.supply values, (x.absorb effect).2) := by
  have tail (taken : effect.taken? ≠ none) :
      (x.pending ++ values).tail = x.pending.tail ++ values :=
    List.tail_append_of_ne_nil (front taken)
  cases effect with
  | took value => simp [absorb, supply, tail (by simp [Effect.taken?])]
  | emitted value => simp [absorb, supply, emit, quiet]
  | failed fault taken =>
    cases taken with
    | none => rfl
    | some value => simp [absorb, supply, tail (by simp [Effect.taken?])]
  | _ => rfl

/-- An active machine steps in the same way whatever is put behind its pending input. -/
theorem step_supply {x : Machine} (quiet : x.outlet.loops = 0) (active : x.Active)
    (values : List Cell) : (x.supply values).step = (x.step.1.supply values, x.step.2) := by
  obtain ⟨going, fed⟩ := active
  have same : x.engine.step (x.pending ++ values).head? = x.engine.step x.pending.head? := by
    by_cases reads : x.engine.Reads
    · obtain ⟨value, rest, pending⟩ :=
        List.exists_cons_of_ne_nil fun empty => fed ⟨reads, empty⟩
      rw [pending]
      rfl
    · rw [(Engine.step_of_not_reads reads _).1, (Engine.step_of_not_reads reads x.pending.head?).1]
  rw [step_of_not_isTerminal going, step_of_not_isTerminal (x := x.supply values) going]
  simp only [pending_supply]
  rw [show (x.supply values).engine = x.engine from rfl, same]
  refine absorb_supply { x with engine := (x.engine.step x.pending.head?).1 } _ values quiet ?_
  intro taken empty
  obtain ⟨value, found⟩ := Option.ne_none_iff_exists'.mp taken
  have front := Engine.front_of_taken? found
  simp only at empty
  simp [empty] at front

theorem step_of_awaits {x : Machine} (going : x.phase.isTerminal = false) (awaits : x.Awaits) :
    x.step = (x, .blocked) := by
  have blocked : (x.engine.step x.pending.head?).2 = .blocked :=
    (Engine.step_blocked_iff ..).mpr ⟨awaits.1, by simp [awaits.2]⟩
  rw [step_of_not_isTerminal going, Engine.step_of_blocked blocked, blocked]
  rfl

theorem step_of_active {x : Machine} (active : x.Active) :
    x.step.2 ≠ .blocked ∧ x.step.2 ≠ .stopped := by
  obtain ⟨going, fed⟩ := active
  have unblocked : (x.engine.step x.pending.head?).2 ≠ .blocked := by
    intro blocked
    obtain ⟨reads, empty⟩ := (Engine.step_blocked_iff ..).mp blocked
    exact fed ⟨reads, List.head?_eq_none_iff.mp empty⟩
  rw [step_of_not_isTerminal going]
  generalize (x.engine.step x.pending.head?).2 = effect at unblocked
  cases effect with
  | blocked => exact absurd rfl unblocked
  | failed fault taken => cases taken <;> simp [absorb]
  | _ => simp [absorb]

theorem step_of_not_active {x : Machine} (idle : ¬x.Active) :
    x.step = (x, if x.phase.isTerminal then .stopped else .blocked) := by
  cases going : x.phase.isTerminal with
  | true => rw [step_of_isTerminal going]; rfl
  | false =>
    have awaits : x.Awaits := by
      by_cases awaits : x.Awaits
      · exact awaits
      · exact absurd ⟨going, awaits⟩ idle
    rw [step_of_awaits going awaits]
    rfl

theorem active_supply {x : Machine} (active : x.Active) (values : List Cell) :
    (x.supply values).Active := by
  refine ⟨active.1, fun awaits => active.2 ⟨awaits.1, ?_⟩⟩
  exact (List.append_eq_nil_iff.mp awaits.2).1

@[simp] theorem subscribers_step (x : Machine) :
    x.step.1.outlet.subscribers = x.outlet.subscribers := by
  cases going : x.phase.isTerminal with
  | true => rw [step_of_isTerminal going]
  | false =>
    rw [step_of_not_isTerminal going]
    cases effect : (x.engine.step x.pending.head?).2 with
    | failed fault taken => cases taken <;> rfl
    | _ => rfl

@[simp] theorem loops_step (x : Machine) : x.step.1.outlet.loops = x.outlet.loops := by
  simp [Outlet.loops]

@[simp] theorem targets_step (x : Machine) : x.step.1.outlet.targets = x.outlet.targets := by
  simp [Outlet.targets]

theorem taken_append_pending_step (x : Machine) (quiet : x.outlet.loops = 0) :
    x.step.2.taken ++ x.step.1.pending = x.pending := by
  cases going : x.phase.isTerminal with
  | true => rw [step_of_isTerminal going]; rfl
  | false =>
    rw [step_of_not_isTerminal going]
    have front (value : Cell) (taken : (x.engine.step x.pending.head?).2.taken? = some value) :
        value :: x.pending.tail = x.pending := by
      obtain ⟨rest, pending⟩ := List.head?_eq_some_iff.mp (Engine.front_of_taken? taken)
      rw [pending]
      rfl
    cases effect : (x.engine.step x.pending.head?).2 with
    | took value => exact front value (by simp [effect, Effect.taken?])
    | emitted value => simp [absorb, emit, Event.taken, quiet]
    | failed fault taken =>
      cases taken with
      | none => rfl
      | some value => exact front value (by simp [effect, Effect.taken?])
    | _ => rfl

theorem values_step (x : Machine) :
    x.step.1.outlet.values.toList = x.outlet.values.toList ++ x.step.2.output := by
  cases going : x.phase.isTerminal with
  | true => rw [step_of_isTerminal going]; simp [Event.output]
  | false =>
    rw [step_of_not_isTerminal going]
    cases effect : (x.engine.step x.pending.head?).2 with
    | failed fault taken => cases taken <;> simp [absorb, Event.output]
    | _ => simp [absorb, emit, Event.output]

theorem phase_step_of_isTerminal {x : Machine} (stopped : x.phase.isTerminal) :
    x.step.1.phase = x.phase := by
  rw [step_of_isTerminal stopped]

theorem fault_step {x : Machine} {fault : Fault} (failed : x.phase.fault? = some fault) :
    x.step.1.phase.fault? = some fault := by
  have stopped : x.phase.isTerminal := by
    cases phase : x.phase <;> simp_all [Phase.fault?, Phase.isTerminal, Phase.result?]
  rw [phase_step_of_isTerminal stopped, failed]

end Machine

end TapeMachine
