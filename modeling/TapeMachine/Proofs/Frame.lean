import TapeMachine.Proofs.Failure
import TapeMachine.Proofs.History

/-! `Engine.Executes` says all that a completed instruction does. From it follows what each
instruction leaves alone: memory changes at the destination only, and the base, the pending input
and the stream of outputs each have one opcode that changes them. So the instructions that a run
completes account for its steps, its outputs and the input that it has consumed. -/

namespace TapeMachine

def Effect.completes : Effect → Bool
  | quiet | took _ | emitted _ | halted => true
  | exhausted | blocked | failed _ _ => false

def Opcode.destination? : Opcode → Option Nat
  | add | mul | lessThan | equals => some 2
  | input => some 0
  | output | jumpIfTrue | jumpIfFalse | rebase | halt => none

/-- The address that an instruction with this opcode writes to, if it writes. -/
def Site.destination? (s : Site) (opcode : Opcode) : Option Cell :=
  opcode.destination?.map s.place

/-- What a completed instruction with an opcode makes of the engine, and its effect. -/
inductive Engine.Executes (e : Engine) (front : Option Cell) : Opcode → Engine → Effect → Prop
  | store {opcode : Opcode} (value : Cell) (stores : opcode ∈ [.add, .mul, .lessThan, .equals]) :
    Executes e front opcode
      ⟨e.memory.set (e.site.place 2) value, e.ip + 4, e.base, e.steps + 1⟩ .quiet
  | input {value : Cell} (available : front = some value) :
    Executes e front .input
      ⟨e.memory.set (e.site.place 0) value, e.ip + 2, e.base, e.steps + 1⟩ (.took value)
  | output : Executes e front .output (e.goto (e.ip + 2)) (.emitted (e.site.operand 0))
  | jump {opcode : Opcode} (jumps : e.site.Jumps opcode) (high : ¬e.site.operand 1 < 0) :
    Executes e front opcode (e.goto (e.site.operand 1).toNatClampNeg) .quiet
  | skip {opcode : Opcode} (branches : opcode ∈ [.jumpIfTrue, .jumpIfFalse])
    (stays : ¬e.site.Jumps opcode) : Executes e front opcode (e.goto (e.ip + 3)) .quiet
  | rebase :
    Executes e front .rebase
      { e.goto (e.ip + 2) with base := e.base.satAdd (e.site.operand 0) } .quiet
  | halt : Executes e front .halt (e.goto e.ip) .halted

namespace Engine

variable {e e' : Engine} {front : Option Cell} {opcode : Opcode} {effect : Effect}

/-- An instruction that is fetched has an opcode and all its parameters. -/
theorem resolve_of_fetch {i : Instruction} (fetched : e.fetch = .ok i) :
    ∃ opcode, e.site.Names opcode ∧ (∀ k < opcode.arity, e.site.Supplies k) ∧
      e.site.resolve opcode = .ok i.action ∧ i.width = 1 + opcode.arity := by
  have impossible {fault : Fault} (refused : e.fetch = .error fault) : False := by
    rw [refused] at fetched
    cases fetched
  rcases e.word_cases with negative | ⟨positive, unknown⟩ | ⟨opcode, named⟩
  · exact (impossible (fetch_of_negative negative)).elim
  · exact (impossible (fetch_of_unknown positive unknown)).elim
  rcases e.site.supplies_or_first_lacks opcode.arity with
    supplied | ⟨k, below, before, fault, lacking⟩
  · rw [fetch_of_supplies named supplied] at fetched
    obtain ⟨action, resolved, rfl⟩ := (map_eq_ok_iff ..).mp fetched
    exact ⟨opcode, named, supplied, resolved, rfl⟩
  · exact (impossible (fetch_of_lacks named below before lacking)).elim

/-- A completed step carries out what its instruction resolves to. -/
theorem step_of_completes (done : (e.step front).2.completes) :
    ∃ opcode action, e.site.Names opcode ∧ (∀ k < opcode.arity, e.site.Supplies k) ∧
      e.site.resolve opcode = .ok action ∧
      e.step front = e.perform ⟨action, 1 + opcode.arity⟩ front := by
  have inside : e.ip < e.memory.size := by
    apply Nat.lt_of_not_le
    intro outside
    rw [step, if_pos outside] at done
    cases done
  cases fetched : e.fetch with
  | error fault =>
    rw [step_of_fetch_error inside fetched] at done
    cases done
  | ok i =>
    obtain ⟨action, width⟩ := i
    obtain ⟨opcode, named, supplied, resolved, rfl⟩ := resolve_of_fetch fetched
    exact ⟨opcode, action, named, supplied, resolved, step_of_fetch_ok inside fetched front⟩

theorem store_of_completes {width : Nat} {address value : Cell} {taken : Option Cell}
    (done : (e.store width address value taken).2.completes) :
    e.store width address value taken =
      (⟨e.memory.set address value, e.ip + width, e.base, e.steps + 1⟩, storeEffect taken) := by
  cases refused : e.memory.refusal? address with
  | none => exact store_of_admitted refused width value taken
  | some fault =>
    rw [store_of_fault refused] at done
    cases done

theorem executes_store {value : Cell} (stores : opcode ∈ [.add, .mul, .lessThan, .equals])
    (done : (e.store 4 (e.site.place 2) value none).2.completes) :
    e.Executes front opcode (e.store 4 (e.site.place 2) value none).1
      (e.store 4 (e.site.place 2) value none).2 := by
  rw [store_of_completes done]
  exact .store value stores

theorem executes_input {value : Cell} (available : front = some value)
    (done : (e.store 2 (e.site.place 0) value (some value)).2.completes) :
    e.Executes front .input (e.store 2 (e.site.place 0) value (some value)).1
      (e.store 2 (e.site.place 0) value (some value)).2 := by
  rw [store_of_completes done]
  exact .input available

theorem executes_jump {taken : Bool} {action : Action}
    (resolved : e.site.jump taken = .ok action)
    (branches : opcode ∈ [.jumpIfTrue, .jumpIfFalse]) (decides : taken ↔ e.site.Jumps opcode) :
    e.Executes front opcode (e.perform ⟨action, 3⟩ front).1 (e.perform ⟨action, 3⟩ front).2 := by
  unfold Site.jump at resolved
  by_cases chosen : taken
  · rw [if_pos chosen] at resolved
    by_cases low : e.site.operand 1 < 0
    · rw [if_pos low] at resolved
      cases resolved
    · rw [if_neg low] at resolved
      cases resolved
      exact .jump (decides.mp chosen) low
  · rw [if_neg chosen] at resolved
    cases resolved
    exact .skip branches (mt decides.mpr chosen)

theorem executes_of_completes (done : (e.step front).2.completes) :
    ∃ opcode e' effect, e.step front = (e', effect) ∧ e.site.Names opcode ∧
      (∀ k < opcode.arity, e.site.Supplies k) ∧ e.Executes front opcode e' effect := by
  obtain ⟨opcode, action, named, supplied, resolved, stepped⟩ := step_of_completes done
  rw [stepped] at done
  refine ⟨opcode, _, _, stepped, named, supplied, ?_⟩
  cases opcode with
  | add | mul | lessThan | equals =>
    cases resolved
    exact executes_store (by simp) done
  | input =>
    cases resolved
    cases front with
    | none => cases done
    | some value => exact executes_input rfl done
  | output =>
    cases resolved
    exact .output
  | jumpIfTrue => exact executes_jump resolved (by simp) (by simp [Site.Jumps])
  | jumpIfFalse => exact executes_jump resolved (by simp) (by simp [Site.Jumps])
  | rebase =>
    cases resolved
    exact .rebase
  | halt =>
    cases resolved
    exact .halt

theorem store_of_not_completes {width : Nat} {address value : Cell} {taken : Option Cell}
    (undone : (e.store width address value taken).2.completes = false) :
    (e.store width address value taken).1 = e := by
  cases refused : e.memory.refusal? address with
  | some fault => rw [store_of_fault refused]
  | none =>
    rw [store_of_admitted refused] at undone
    cases taken <;> cases undone

/-- A step that completes no instruction leaves the engine as it was. -/
theorem step_of_not_completes (undone : (e.step front).2.completes = false) :
    (e.step front).1 = e := by
  by_cases outside : e.memory.size ≤ e.ip
  · rw [step, if_pos outside]
  have inside := Nat.lt_of_not_le outside
  cases fetched : e.fetch with
  | error fault => rw [step_of_fetch_error inside fetched]
  | ok i =>
    obtain ⟨action, width⟩ := i
    rw [step_of_fetch_ok inside fetched] at undone ⊢
    cases action with
    | store address value => exact store_of_not_completes undone
    | input address =>
      cases front with
      | none => rfl
      | some value => exact store_of_not_completes undone
    | _ => cases undone

/-- What an instruction with an opcode may change in the engine. -/
structure Frame (e : Engine) (opcode : Opcode) (e' : Engine) : Prop where
  memory : ∀ address, e'.memory.read address ≠ e.memory.read address →
    opcode ∈ [.add, .mul, .lessThan, .equals, .input] ∧
      e.site.destination? opcode = some address
  size_le : e.memory.size ≤ e'.memory.size
  growth : e'.memory.size ≠ e.memory.size →
    ∃ address, e.site.destination? opcode = some address ∧ (e.memory.size : Int) ≤ address.toInt
  base : e'.base ≠ e.base → opcode = .rebase
  steps : e'.steps = e.steps + 1
  halted : opcode = .halt → e'.ip = e.ip
  jumped : e.site.Jumps opcode → (e'.ip : Int) = (e.site.operand 1).toInt
  advanced : opcode ≠ .halt → ¬e.site.Jumps opcode → e'.ip = e.ip + 1 + opcode.arity

theorem frame_set {address : Cell} (writes : opcode ∈ [.add, .mul, .lessThan, .equals, .input])
    (destination : e.site.destination? opcode = some address) (value : Cell) :
    e.Frame opcode
      ⟨e.memory.set address value, e.ip + 1 + opcode.arity, e.base, e.steps + 1⟩ where
  memory other changed := by
    refine ⟨writes, ?_⟩
    rw [Memory.read_set] at changed
    split at changed
    next same => rw [destination, same]
    next => exact absurd rfl changed
  size_le := by
    rw [Memory.size_set]
    exact Nat.le_max_left ..
  growth changed := by
    refine ⟨address, destination, ?_⟩
    rw [Memory.size_set] at changed
    omega
  base changed := absurd rfl changed
  steps := rfl
  halted same := by
    subst same
    simp at writes
  jumped jumps := by
    rcases jumps with ⟨rfl, -⟩ | ⟨rfl, -⟩ <;> simp at writes
  advanced _ _ := rfl

/-- The frame of an instruction that does not write to memory. -/
theorem frame_of_memory_eq (memory : e'.memory = e.memory)
    (base : e'.base ≠ e.base → opcode = .rebase) (steps : e'.steps = e.steps + 1)
    (halted : opcode = .halt → e'.ip = e.ip)
    (jumped : e.site.Jumps opcode → (e'.ip : Int) = (e.site.operand 1).toInt)
    (advanced : opcode ≠ .halt → ¬e.site.Jumps opcode → e'.ip = e.ip + 1 + opcode.arity) :
    e.Frame opcode e' where
  memory address changed := absurd (by rw [memory]) changed
  size_le := by rw [memory]
  growth changed := absurd (by rw [memory]) changed
  base := base
  steps := steps
  halted := halted
  jumped := jumped
  advanced := advanced

theorem Executes.frame (executes : e.Executes front opcode e' effect) : e.Frame opcode e' := by
  cases executes with
  | store value stores =>
    simp only [List.mem_cons, List.not_mem_nil, or_false] at stores
    rcases stores with rfl | rfl | rfl | rfl <;> exact frame_set (by simp) rfl value
  | @input value available => exact frame_set (by simp) rfl value
  | output =>
    exact frame_of_memory_eq rfl (absurd rfl) rfl nofun (by simp [Site.Jumps]) fun _ _ => rfl
  | jump jumps high =>
    -- a target below zero is refused, so the clamp does nothing
    have positive := mt Cell.lt_zero_iff.mpr high
    refine frame_of_memory_eq rfl (absurd rfl) rfl ?_ (fun _ => ?_) fun _ stays =>
      absurd jumps stays
    · rintro rfl
      simp [Site.Jumps] at jumps
    · show ((e.site.operand 1).toNatClampNeg : Int) = _
      rw [Cell.toNatClampNeg_eq]
      omega
  | skip branches stays =>
    simp only [List.mem_cons, List.not_mem_nil, or_false] at branches
    rcases branches with rfl | rfl <;>
      exact frame_of_memory_eq rfl (absurd rfl) rfl nofun (absurd · stays) fun _ _ => rfl
  | rebase =>
    exact frame_of_memory_eq rfl (fun _ => rfl) rfl nofun (by simp [Site.Jumps]) fun _ _ => rfl
  | halt =>
    exact frame_of_memory_eq rfl (absurd rfl) rfl (fun _ => rfl) (by simp [Site.Jumps]) (absurd rfl)

end Engine

namespace Machine

variable {x : Machine} {opcode : Opcode}

def Completes (x : Machine) : Prop :=
  x.phase.isTerminal = false ∧ (x.engine.step x.pending.head?).2.completes

instance (x : Machine) : Decidable x.Completes := inferInstanceAs (Decidable (_ ∧ _))

structure Frame (x : Machine) (opcode : Opcode) (y : Machine) : Prop where
  engine : x.engine.Frame opcode y.engine
  taken : opcode = .input → ∃ value, x.pending = value :: y.pending
  pending : opcode ≠ .input → y.pending = x.pending
  emitted : opcode = .output →
    y.outlet.values.toList = x.outlet.values.toList ++ [x.engine.site.operand 0] ∧
      y.outlet.subscribers = x.outlet.subscribers
  outlet : opcode ≠ .output → y.outlet = x.outlet

theorem frame_of_silent {e' : Engine} {effect : Effect}
    (silent : effect = .quiet ∨ effect = .halted) (frame : x.engine.Frame opcode e')
    (input : opcode ≠ .input) (output : opcode ≠ .output) :
    x.Frame opcode ({ x with engine := e' }.absorb effect).1 := by
  rcases silent with rfl | rfl <;>
    exact ⟨frame, (absurd · input), fun _ => rfl, (absurd · output), fun _ => rfl⟩

theorem frame_of_input {e' : Engine} {value : Cell} (available : x.pending.head? = some value)
    (frame : x.engine.Frame .input e') :
    x.Frame .input ({ x with engine := e' }.absorb (.took value)).1 := by
  obtain ⟨rest, front⟩ := List.head?_eq_some_iff.mp available
  refine ⟨frame, fun _ => ⟨value, ?_⟩, absurd rfl, nofun, fun _ => rfl⟩
  show x.pending = value :: x.pending.tail
  rw [front]
  rfl

/-- A value that no subscriber puts back leaves the pending input alone. -/
theorem frame_of_output {e' : Engine} (quiet : x.outlet.loops = 0)
    (frame : x.engine.Frame .output e') :
    x.Frame .output ({ x with engine := e' }.absorb (.emitted (x.engine.site.operand 0))).1 := by
  refine ⟨frame, nofun, fun _ => ?_, fun _ => ⟨Array.toList_push .., rfl⟩, absurd rfl⟩
  show x.pending ++ List.replicate x.outlet.loops _ = x.pending
  rw [quiet, List.replicate_zero, List.append_nil]

theorem frame_of_executes {e' : Engine} {effect : Effect} (quiet : x.outlet.loops = 0)
    (executes : x.engine.Executes x.pending.head? opcode e' effect) :
    x.Frame opcode ({ x with engine := e' }.absorb effect).1 := by
  have frame := executes.frame
  cases executes with
  | store value stores =>
    refine frame_of_silent (.inl rfl) frame ?_ ?_
    all_goals
      rintro rfl
      simp at stores
  | input available => exact frame_of_input available frame
  | output => exact frame_of_output quiet frame
  | jump jumps high =>
    refine frame_of_silent (.inl rfl) frame ?_ ?_
    all_goals
      rintro rfl
      simp [Site.Jumps] at jumps
  | skip branches stays =>
    refine frame_of_silent (.inl rfl) frame ?_ ?_
    all_goals
      rintro rfl
      simp at branches
  | rebase => exact frame_of_silent (.inl rfl) frame nofun nofun
  | halt => exact frame_of_silent (.inr rfl) frame nofun nofun

theorem frame_of_completes (quiet : x.outlet.loops = 0) (completes : x.Completes) :
    ∃ opcode, x.engine.site.Names opcode ∧ (∀ k < opcode.arity, x.engine.site.Supplies k) ∧
      x.Frame opcode x.step.1 := by
  obtain ⟨going, done⟩ := completes
  obtain ⟨opcode, e', effect, stepped, named, supplied, executes⟩ :=
    Engine.executes_of_completes done
  refine ⟨opcode, named, supplied, ?_⟩
  rw [step_of_not_isTerminal going, stepped]
  exact frame_of_executes quiet executes

/-- A step that completes no instruction leaves the engine and the outlet as they were. Of the
pending input it may have lost the front, to a read whose write was refused. -/
theorem step_of_not_completes (undone : ¬x.Completes) :
    x.step.1.engine = x.engine ∧ x.step.1.outlet = x.outlet := by
  cases going : x.phase.isTerminal with
  | true =>
    rw [step_of_isTerminal going]
    exact ⟨rfl, rfl⟩
  | false =>
    have idle : (x.engine.step x.pending.head?).2.completes = false :=
      Bool.eq_false_iff.mpr fun done => undone ⟨going, done⟩
    have still := Engine.step_of_not_completes idle
    rw [step_of_not_isTerminal going, engine_absorb, still]
    refine ⟨rfl, ?_⟩
    cases effect : (x.engine.step x.pending.head?).2 with
    | exhausted | blocked => rfl
    | failed fault taken => cases taken <;> rfl
    | _ =>
      rw [effect] at idle
      cases idle

end Machine

def Engine.opcode? (e : Engine) : Option Opcode :=
  if e.word < 0 then none else Opcode.ofCode? (e.word % 100)

theorem Engine.opcode?_of_names {e : Engine} {opcode : Opcode} (named : e.site.Names opcode) :
    e.opcode? = some opcode := by
  have positive : ¬e.word < 0 := Int.not_lt.mpr named.1
  rw [opcode?, if_neg positive]
  exact (Opcode.ofCode?_eq_some_iff ..).mpr named.2

namespace Machine

variable {x : Machine}

def gather {β : Type} (f : Machine → Act → List β) (x : Machine) : List Act → List β
  | [] => []
  | a :: acts => f x a ++ gather f (x.act a) acts

/-- The opcode of the instruction that an act completes, if it does, as a list. -/
def executed (x : Machine) : Act → List Opcode
  | .step => if x.Completes then x.engine.opcode?.toList else []
  | _ => []

/-- The values by which a step of the machine makes the stream longer. -/
def emits (x : Machine) : Act → List Cell
  | .step => x.step.1.outlet.values.toList.drop x.outlet.length
  | _ => []

/-- The values by which a completed step makes the pending input shorter. -/
def consumes (x : Machine) : Act → List Cell
  | .step =>
    if x.Completes then x.pending.take (x.pending.length - x.step.1.pending.length) else []
  | _ => []

/-- The instructions that a history completes account for its outputs, for the input consumed by
completed steps and for the steps counted. -/
structure Accounts (x : Machine) (acts : List Act) : Prop where
  outputs : (x.gather emits acts).length = (x.gather executed acts).count .output
  inputs : (x.gather consumes acts).length = (x.gather executed acts).count .input
  steps : (x.perform acts).engine.steps = x.engine.steps + (x.gather executed acts).length

theorem accounts_step (quiet : x.outlet.loops = 0) : x.Accounts [.step] := by
  by_cases completes : x.Completes
  · obtain ⟨opcode, named, -, frame⟩ := frame_of_completes quiet completes
    have done : x.gather executed [.step] = [opcode] := by
      simp [gather, executed, completes, Engine.opcode?_of_names named]
    refine ⟨?_, ?_, ?_⟩
    · rw [done]
      by_cases writes : opcode = .output
      · simp [gather, emits, writes, (frame.emitted writes).1, Outlet.length]
      · simp [gather, emits, writes, frame.outlet writes, Outlet.length]
    · rw [done]
      by_cases reads : opcode = .input
      · obtain ⟨value, taken⟩ := frame.taken reads
        simp [gather, consumes, completes, reads, taken]
      · simp [gather, consumes, reads, frame.pending reads]
    · rw [done]
      exact frame.engine.steps
  · obtain ⟨engine, outlet⟩ := step_of_not_completes completes
    have done : x.gather executed [.step] = [] := by simp [gather, executed, completes]
    refine ⟨?_, ?_, ?_⟩
    · rw [done]
      simp [gather, emits, outlet, Outlet.length]
    · rw [done]
      simp [gather, consumes, completes]
    · rw [done]
      exact congrArg Engine.steps engine

theorem accounts_single (quiet : x.outlet.loops = 0) (a : Act) : x.Accounts [a] := by
  cases a with
  | step => exact accounts_step quiet
  | _ => exact ⟨rfl, rfl, rfl⟩

theorem Accounts.cons {a : Act} {acts : List Act} (first : x.Accounts [a])
    (rest : (x.act a).Accounts acts) : x.Accounts (a :: acts) := by
  have split {β : Type} (f : Machine → Act → List β) :
      x.gather f (a :: acts) = x.gather f [a] ++ (x.act a).gather f acts := by
    simp [gather]
  refine ⟨?_, ?_, ?_⟩
  · rw [split, split, List.length_append, List.count_append, first.outputs, rest.outputs]
  · rw [split, split, List.length_append, List.count_append, first.inputs, rest.inputs]
  · have now : (x.act a).engine.steps = _ := first.steps
    have later : (x.perform (a :: acts)).engine.steps = _ := rest.steps
    rw [split, List.length_append, later, now, Nat.add_assoc]

theorem loops_act (quiet : x.outlet.loops = 0) {a : Act} (plain : a ≠ .subscribe .loop) :
    (x.act a).outlet.loops = 0 := by
  cases a with
  | step => exact (loops_step x).trans quiet
  | subscribe listener =>
    have other : listener ≠ .loop := fun same => plain (congrArg Act.subscribe same)
    simpa [act, subscribe, Outlet.subscribe, Outlet.loops, other] using quiet
  | unsubscribe id =>
    refine Nat.le_zero.mp (Nat.le_trans ?_ (Nat.le_of_eq quiet))
    exact List.Sublist.countP_le List.filter_sublist
  | _ => exact quiet

theorem accounts {acts : List Act} (quiet : x.outlet.loops = 0) (plain : .subscribe .loop ∉ acts) :
    x.Accounts acts := by
  induction acts generalizing x with
  | nil => exact ⟨rfl, rfl, rfl⟩
  | cons a acts ih =>
    obtain ⟨first, others⟩ := not_or.mp (mt List.mem_cons.mpr plain)
    exact (accounts_single quiet a).cons (ih (loops_act quiet (Ne.symm first)) others)

/-- A completed instruction changes memory at its destination only, lets the tape grow only to hold
it, and moves the base, the pending input, the stream and the instruction pointer only as its opcode
does; no subscriber of the machine may put values into its own input. Over any history the
instructions completed then account for the outputs, the input consumed and the steps. -/
theorem step_frame (x : Machine) (quiet : x.outlet.loops = 0) :
    (x.Completes → ∃ opcode, x.engine.site.Names opcode ∧
      (∀ k < opcode.arity, x.engine.site.Supplies k) ∧ x.Frame opcode x.step.1) ∧
    ∀ acts : List Act, .subscribe .loop ∉ acts → x.Accounts acts :=
  ⟨frame_of_completes quiet, fun _ => accounts quiet⟩

/-- A program that reads a value into a cell behind its end, writes it out and halts. -/
theorem step_frame_echo :
    let x := (create ⟨[3, 20, 4, 20, 99]⟩ {}).supply [7, 8]
    let acts : List Act := [.start, .step, .supply [9], .step, .step, .step]
    x.outlet.loops = 0 ∧ x.Completes ∧ x.Frame .input x.step.1 ∧
      (x.engine.site.destination? .input = some 20 ∧ x.step.1.engine.memory.size = 21) ∧
      .subscribe .loop ∉ acts ∧ x.Accounts acts ∧
      x.gather executed acts = [.input, .output, .halt] := by
  intro x acts
  have quiet : x.outlet.loops = 0 := rfl
  have completes : x.Completes := by decide +kernel
  have plain : .subscribe .loop ∉ acts := by decide
  obtain ⟨framed, accounted⟩ := step_frame x quiet
  obtain ⟨opcode, named, -, frame⟩ := framed completes
  obtain rfl : opcode = .input := named.unique (by decide +kernel)
  exact ⟨quiet, completes, frame, by decide +kernel, plain, accounted acts plain,
    by decide +kernel⟩

end Machine

end TapeMachine
