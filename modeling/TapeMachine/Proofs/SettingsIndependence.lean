import Mathlib.Data.List.Forall2
import TapeMachine.Proofs.Budget
import TapeMachine.Proofs.Calls
import TapeMachine.Proofs.Refinement

/-! The mode of reports shapes the answer of a finished machine and nothing else, and the memory
limit only decides which writes are refused. So two machines with one program go on alike, whatever
is asked of them, until the one with the smaller limit fails for want of memory. -/

namespace TapeMachine

namespace Memory

def withLimit (m : Memory) (limit : Nat) : Memory := { m with limit }

variable {m : Memory} {limit : Nat}

theorem cellRefusal?_withLimit (le : m.limit ≤ limit) {position : Nat}
    (admitted : m.cellRefusal? position = none) :
    (m.withLimit limit).cellRefusal? position = none := by
  simp only [cellRefusal?, ite_eq_right_iff, reduceCtorEq, imp_false] at admitted ⊢
  rintro ⟨outside, above⟩
  exact admitted ⟨outside, Nat.le_trans le above⟩

/-- A write that is admitted is admitted under every larger limit. -/
theorem refusal?_withLimit (le : m.limit ≤ limit) {address : Cell}
    (admitted : m.refusal? address = none) : (m.withLimit limit).refusal? address = none := by
  unfold refusal? at admitted ⊢
  split
  next negative =>
    simp only [if_pos negative, ite_eq_right_iff, reduceCtorEq, imp_false] at admitted ⊢
    rintro ⟨missing, full⟩
    exact admitted ⟨missing, Nat.le_trans le full⟩
  next positive =>
    rw [if_neg positive] at admitted
    exact cellRefusal?_withLimit le admitted

theorem set_withLimit (m : Memory) (limit : Nat) (address value : Cell) :
    (m.withLimit limit).set address value = (m.set address value).withLimit limit := by
  unfold set
  split <;> rfl

end Memory

namespace Engine

def withLimit (e : Engine) (limit : Nat) : Engine :=
  { e with memory := e.memory.withLimit limit }

variable {e : Engine} {limit : Nat}

/-- Resolving an instruction does not look at the limit. -/
theorem fetch_withLimit (e : Engine) (limit : Nat) : (e.withLimit limit).fetch = e.fetch := rfl

theorem reads_withLimit_iff (e : Engine) (limit : Nat) : (e.withLimit limit).Reads ↔ e.Reads :=
  Iff.rfl

theorem store_withLimit (le : e.memory.limit ≤ limit) {width : Nat} {address value : Cell}
    {taken : Option Cell} (unlimited : ∀ fault, (e.store width address value taken).2 =
      .failed fault taken → fault.isMemoryLimit = false) :
    (e.withLimit limit).store width address value taken =
      ((e.store width address value taken).1.withLimit limit,
        (e.store width address value taken).2) := by
  cases refused : e.memory.refusal? address with
  | some fault =>
    have limited := Machine.isMemoryLimit_of_refusal refused
    rw [unlimited fault (by rw [store_of_fault refused])] at limited
    cases limited
  | none =>
    have admitted : (e.withLimit limit).memory.refusal? address = none :=
      Memory.refusal?_withLimit le refused
    rw [store_of_admitted refused, store_of_admitted admitted]
    simp only [withLimit, Memory.set_withLimit]

/-- Unless memory refuses a write, a step is the same under every larger limit. -/
theorem step_withLimit (le : e.memory.limit ≤ limit) {front : Option Cell}
    (unlimited : ∀ fault taken, (e.step front).2 = .failed fault taken →
      fault.isMemoryLimit = false) :
    (e.withLimit limit).step front = ((e.step front).1.withLimit limit, (e.step front).2) := by
  by_cases outside : e.memory.size ≤ e.ip
  · have outside' : (e.withLimit limit).memory.size ≤ (e.withLimit limit).ip := outside
    rw [step, if_pos outside', step, if_pos outside]
  have inside : ¬(e.withLimit limit).memory.size ≤ (e.withLimit limit).ip := outside
  rw [step, if_neg inside, fetch_withLimit]
  rw [step, if_neg outside] at unlimited ⊢
  cases fetched : e.fetch with
  | error fault => rfl
  | ok i =>
    obtain ⟨action, width⟩ := i
    simp only [fetched, perform] at unlimited ⊢
    cases action with
    | store address value => exact store_withLimit le fun fault => unlimited fault none
    | input address =>
      cases front with
      | none => rfl
      | some value => exact store_withLimit le fun fault => unlimited fault (some value)
    | _ => rfl

end Engine

/-- Reports on the same tape and the same output, each in its own mode. -/
def Report.Alike (mode mode' : ReportMode) (r r' : Report) : Prop :=
  ∃ cells values, r = build mode cells values ∧ r' = build mode' cells values

inductive Phase.Alike (mode mode' : ReportMode) : Phase → Phase → Prop
  | ready : Alike mode mode' .ready .ready
  | running : Alike mode mode' .running .running
  | halted {r r' : Report} (same : r.Alike mode mode' r') : Alike mode mode' (.halted r) (.halted r')
  | exhausted {r r' : Report} (same : r.Alike mode mode' r') :
    Alike mode mode' (.exhausted r) (.exhausted r')
  | failed (fault : Fault) : Alike mode mode' (.failed fault) (.failed fault)

theorem Phase.Alike.isTerminal_eq {mode mode' : ReportMode} {p p' : Phase}
    (alike : p.Alike mode mode' p') : p'.isTerminal = p.isTerminal := by
  cases alike <;> rfl

theorem Phase.Alike.start {mode mode' : ReportMode} {p p' : Phase}
    (alike : p.Alike mode mode' p') : p.start.Alike mode mode' p'.start := by
  cases alike with
  | ready => exact .running
  | running => exact .running
  | halted same => exact .halted same
  | exhausted same => exact .exhausted same
  | failed fault => exact .failed fault

inductive Answer.Alike (mode mode' : ReportMode) : Answer → Answer → Prop
  | finished {r r' : Report} (same : r.Alike mode mode' r') :
    Alike mode mode' (.finished r) (.finished r')
  | failed (fault : Fault) : Alike mode mode' (.failed fault) (.failed fault)
  | pending : Alike mode mode' .pending .pending
  | unfinished : Alike mode mode' .unfinished .unfinished

namespace Machine

/-- Only the answer of a run may depend on the mode of reports. -/
def Reply.Alike (mode mode' : ReportMode) : Reply → Reply → Prop
  | .ran a, .ran a' => a.Alike mode mode' a'
  | reply, reply' => reply = reply'

def outOfMemory (x : Machine) : Bool := x.phase.fault?.any Fault.isMemoryLimit

/-- Machines with settings of their own that are the same in all else: tape, detached cells,
registers and steps, pending input, outlet, and phase. -/
structure Twins (s s' : Settings) (x x' : Machine) : Prop where
  settings : x.settings = s ∧ x'.settings = s'
  limit : x.engine.memory.limit = s.memoryLimit
  engine : x'.engine = x.engine.withLimit s'.memoryLimit
  pending : x'.pending = x.pending
  outlet : x'.outlet = x.outlet
  phase : x.phase.Alike s.report s'.report x'.phase

variable {s s' : Settings} {x x' : Machine}

namespace Twins

theorem active_iff (twins : Twins s s' x x') : x'.Active ↔ x.Active := by
  simp only [Active, Awaits, twins.phase.isTerminal_eq, twins.engine, twins.pending,
    Engine.reads_withLimit_iff]

theorem answer (twins : Twins s s' x x') : x.answer.Alike s.report s'.report x'.answer := by
  have alike := twins.phase
  unfold Machine.answer
  generalize x.phase = phase at alike
  generalize x'.phase = phase' at alike
  cases alike with
  | ready => exact .pending
  | running => exact .pending
  | halted same => exact .finished same
  | exhausted same => exact .finished same
  | failed fault => exact .failed fault

theorem report (twins : Twins s s' x x') : x.report.Alike s.report s'.report x'.report := by
  obtain ⟨⟨rfl, rfl⟩, -, engine, -, outlet, -⟩ := twins
  refine ⟨x.engine.memory.cells, x.outlet.values, rfl, ?_⟩
  rw [Machine.report, engine, outlet]
  rfl

theorem start (twins : Twins s s' x x') : Twins s s' x.start x'.start :=
  { twins with phase := twins.phase.start }

theorem supply (twins : Twins s s' x x') (values : List Cell) :
    Twins s s' (x.supply values) (x'.supply values) :=
  { twins with pending := congrArg (· ++ values) twins.pending }

theorem emit (twins : Twins s s' x x') (value : Cell) :
    Twins s s' (x.emit value) (x'.emit value) where
  settings := twins.settings
  limit := twins.limit
  engine := twins.engine
  pending := by simp only [Machine.emit, twins.pending, twins.outlet]
  outlet := congrArg (Outlet.emit · value) twins.outlet
  phase := twins.phase

theorem absorb (twins : Twins s s' x x') (effect : Effect) :
    Twins s s' (x.absorb effect).1 (x'.absorb effect).1 := by
  have tail : x'.pending.tail = x.pending.tail := congrArg List.tail twins.pending
  cases effect with
  | quiet => exact twins
  | took value => exact { twins with pending := tail }
  | emitted value => exact twins.emit value
  | halted => exact { twins with phase := .halted twins.report }
  | exhausted => exact { twins with phase := .exhausted twins.report }
  | blocked => exact twins
  | failed fault taken =>
    cases taken with
    | none => exact { twins with phase := .failed fault }
    | some value => exact { twins with pending := tail, phase := .failed fault }

end Twins

theorem isTerminal_of_outOfMemory (failed : x.outOfMemory) : x.phase.isTerminal := by
  cases phase : x.phase <;> simp_all [outOfMemory, Phase.fault?, Phase.isTerminal, Phase.result?]

theorem outOfMemory_absorb_failed (x : Machine) (fault : Fault) (taken : Option Cell) :
    (x.absorb (.failed fault taken)).1.outOfMemory = fault.isMemoryLimit := by
  rw [outOfMemory, phase_absorb_failed]
  rfl

theorem Twins.step (twins : Twins s s' x x') (le : s.memoryLimit ≤ s'.memoryLimit)
    (within : x.step.1.outOfMemory = false) : Twins s s' x.step.1 x'.step.1 := by
  cases going : x.phase.isTerminal with
  | true =>
    rw [step_of_isTerminal going, step_of_isTerminal (twins.phase.isTerminal_eq.trans going)]
    exact twins
  | false =>
    rw [step_of_not_isTerminal going] at within ⊢
    have unlimited (fault : Fault) (taken : Option Cell)
        (failed : (x.engine.step x.pending.head?).2 = .failed fault taken) :
        fault.isMemoryLimit = false := by
      rwa [failed, outOfMemory_absorb_failed] at within
    have same : x'.engine.step x'.pending.head? =
        ((x.engine.step x.pending.head?).1.withLimit s'.memoryLimit,
          (x.engine.step x.pending.head?).2) := by
      rw [twins.engine, twins.pending]
      exact Engine.step_withLimit (by rw [twins.limit]; exact le) unlimited
    have limit : (x.engine.step x.pending.head?).1.memory.limit = s.memoryLimit := by
      rw [Engine.memory_step, Memory.limit_attempts, twins.limit]
    have stepped : Twins s s' { x with engine := (x.engine.step x.pending.head?).1 }
        { x' with engine := (x.engine.step x.pending.head?).1.withLimit s'.memoryLimit } :=
      ⟨twins.settings, limit, rfl, twins.pending, twins.outlet, twins.phase⟩
    rw [step_of_not_isTerminal (twins.phase.isTerminal_eq.trans going), same]
    exact stepped.absorb _

theorem Twins.go (twins : Twins s s' x x') (le : s.memoryLimit ≤ s'.memoryLimit) (fuel : Nat)
    (within : (go fuel x).1.outOfMemory = false) :
    Twins s s' (go fuel x).1 (go fuel x').1 ∧
      (go fuel x).2.Alike s.report s'.report (go fuel x').2 := by
  induction fuel generalizing x x' with
  | zero => exact ⟨twins, .unfinished⟩
  | succ fuel ih =>
    by_cases active : x.Active
    · rw [go_of_active active] at within ⊢
      rw [go_of_active (twins.active_iff.mpr active)]
      -- A failure in this step would still be there at the end.
      have still : x.step.1.outOfMemory = false := by
        cases failed : x.step.1.outOfMemory with
        | false => rfl
        | true =>
          rw [go_of_isTerminal (isTerminal_of_outOfMemory failed), failed] at within
          cases within
      exact ih (twins.step le still) within
    · rw [go_of_not_active active, go_of_not_active (mt twins.active_iff.mp active)]
      exact ⟨twins, twins.answer⟩

theorem Twins.call (twins : Twins s s' x x') (le : s.memoryLimit ≤ s'.memoryLimit) (c : Call)
    (within : (x.call c).1.outOfMemory = false) :
    Twins s s' (x.call c).1 (x'.call c).1 ∧
      (x.call c).2.Alike s.report s'.report (x'.call c).2 := by
  cases c with
  | supply values => exact ⟨twins.supply values, rfl⟩
  | push value => exact ⟨twins.supply [value], rfl⟩
  | take =>
    refine ⟨{ twins with pending := congrArg List.tail twins.pending }, ?_⟩
    exact congrArg (fun pending => Reply.taken pending.head?) twins.pending.symm
  | run fuel => exact twins.start.go le fuel within
  | emit value =>
    refine ⟨twins.emit value, ?_⟩
    exact congrArg (fun outlet => Reply.emitted outlet.length) twins.outlet.symm
  | subscribe listener =>
    refine ⟨{ twins with outlet := congrArg (fun o => (o.subscribe listener).1) twins.outlet }, ?_⟩
    exact congrArg (fun o => Reply.subscribed (o.subscribe listener).2) twins.outlet.symm
  | unsubscribe id =>
    refine ⟨{ twins with outlet := congrArg (fun o => (o.unsubscribe id).1) twins.outlet }, ?_⟩
    exact congrArg (fun o => Reply.unsubscribed (o.unsubscribe id).2) twins.outlet.symm

theorem Twins.serve (twins : Twins s s' x x') (le : s.memoryLimit ≤ s'.memoryLimit)
    (calls : List Call) (within : (x.serve calls).outOfMemory = false) :
    Twins s s' (x.serve calls) (x'.serve calls) ∧
      List.Forall₂ (Reply.Alike s.report s'.report) (x.replies calls) (x'.replies calls) := by
  induction calls generalizing x x' with
  | nil => exact ⟨twins, .nil⟩
  | cons c calls ih =>
    have still : (x.call c).1.outOfMemory = false := by
      cases failed : (x.call c).1.outOfMemory with
      | false => rfl
      | true =>
        obtain ⟨-, phase⟩ := serve_of_isTerminal (isTerminal_of_outOfMemory failed) calls
        rw [serve_cons, outOfMemory, phase] at within
        exact absurd failed (ne_of_eq_of_ne within Bool.false_ne_true)
    obtain ⟨next, reply⟩ := twins.call le c still
    obtain ⟨last, replies⟩ := ih next within
    exact ⟨last, .cons reply replies⟩

theorem twins_create (program : Program) (s s' : Settings) :
    Twins s s' (create program s) (create program s') :=
  ⟨⟨rfl, rfl⟩, rfl, rfl, rfl, rfl, .ready⟩

/-- Settings show only where memory runs out. As long as the machine with the smaller limit has not
failed for want of memory, two machines with one program are twins after all calls and give the same
replies, but for the mode of reports. A run that ends otherwise under the smaller limit ends in the
same way under the larger. -/
theorem twins_serve (program : Program) (s s' : Settings) (le : s.memoryLimit ≤ s'.memoryLimit)
    (calls : List Call) :
    let x := (create program s).serve calls
    let x' := (create program s').serve calls
    x.outOfMemory = false →
      Twins s s' x x' ∧
      List.Forall₂ (Reply.Alike s.report s'.report) ((create program s).replies calls)
        ((create program s').replies calls) ∧
      ∀ fuel, (x.run fuel).2 ≠ .unfinished →
        (∀ fault, (x.run fuel).2 = .failed fault → fault.isMemoryLimit = false) →
        (x.run fuel).2.Alike s.report s'.report (x'.run fuel).2 ∧
          Twins s s' (x.run fuel).1 (x'.run fuel).1 := by
  intro x x' within
  obtain ⟨twins, replies⟩ := (twins_create program s s').serve le calls within
  refine ⟨twins, replies, fun fuel ended unlimited => ?_⟩
  have answered : (x.run fuel).2 = (x.run fuel).1.answer := (go_ended ended).2
  have still : (x.run fuel).1.outOfMemory = false := by
    cases phase : (x.run fuel).1.phase with
    | failed fault =>
      rw [outOfMemory, phase]
      exact unlimited fault (by rw [answered, Machine.answer, phase]; rfl)
    | _ => rw [outOfMemory, phase]; rfl
  exact (twins.start.go le fuel still).symm

/-- A program of nine cells that makes a detached one, waits, and grows its tape to twelve. Room for
twelve does not let it be told from one with room for a hundred. -/
theorem twins_serve_twelve :
    let program : Program := ⟨[1101, 0, 7, -1, 3, 11, 4, 11, 99]⟩
    let s : Settings := { memoryLimit := 12 }
    let s' : Settings := { report := .both, memoryLimit := 100 }
    let calls := [.subscribe (.record "log"), .run 10, .push 42]
    let x := (create program s).serve calls
    let x' := (create program s').serve calls
    s.memoryLimit ≤ s'.memoryLimit ∧ x.outOfMemory = false ∧
      (x.run 10).2 = .finished (.output #[42]) ∧
      Twins s s' x x' ∧
      List.Forall₂ (Reply.Alike s.report s'.report) ((create program s).replies calls)
        ((create program s').replies calls) ∧
      (x.run 10).2.Alike s.report s'.report (x'.run 10).2 ∧
      Twins s s' (x.run 10).1 (x'.run 10).1 := by
  intro program s s' calls x x'
  have le : s.memoryLimit ≤ s'.memoryLimit := by decide
  have within : x.outOfMemory = false := by decide +kernel
  have finished : (x.run 10).2 = .finished (.output #[42]) := by decide +kernel
  obtain ⟨twins, replies, runs⟩ := twins_serve program s s' le calls within
  exact ⟨le, within, finished, twins, replies,
    runs 10 (by rw [finished]; simp) (by rw [finished]; simp)⟩

end Machine

end TapeMachine
