import TapeMachine.Proofs.Calls

/-! A machine whose status and stored result are two fields, each set in its own place: the status
when a run begins and when its loop is left, the result after the report has been built. Served the
same calls, it goes through the same states as the machine that has one phase for both. -/

namespace TapeMachine

inductive Status where
  | ready
  | running
  | halted
  | exhausted
  | failed
  deriving DecidableEq, Repr

def Status.isTerminal : Status → Bool
  | ready | running => false
  | halted | exhausted | failed => true

def Phase.status : Phase → Status
  | ready => .ready
  | running => .running
  | halted _ => .halted
  | exhausted _ => .exhausted
  | failed _ => .failed

structure Record where
  label : String
  program : Program
  settings : Settings
  engine : Engine
  pending : List Cell
  outlet : Outlet
  status : Status
  terminal : Option (Except Fault Report)

namespace Record

inductive Exit where
  | stopped (status : Status)
  | failed (fault : Fault)
  | pending
  | unfinished

def emit (r : Record) (value : Cell) : Record :=
  { r with
    pending := r.pending ++ List.replicate r.outlet.loops value
    outlet := r.outlet.emit value }

def execute : Nat → Record → Record × Exit
  | 0, r => (r, .unfinished)
  | fuel + 1, r =>
    match r.engine.step r.pending.head? with
    | (engine, .quiet) => execute fuel { r with engine }
    | (engine, .took _) => execute fuel { r with engine, pending := r.pending.tail }
    | (engine, .emitted value) => execute fuel ({ r with engine }.emit value)
    | (engine, .halted) => ({ r with engine }, .stopped .halted)
    | (engine, .exhausted) => ({ r with engine }, .stopped .exhausted)
    | (engine, .blocked) => ({ r with engine }, .pending)
    | (engine, .failed fault none) => ({ r with engine }, .failed fault)
    | (engine, .failed fault (some _)) =>
      ({ r with engine, pending := r.pending.tail }, .failed fault)

def report (r : Record) : Report :=
  .build r.settings.report r.engine.memory.cells r.outlet.values

def store (r : Record) (result : Except Fault Report) : Record × Answer :=
  ({ r with terminal := some result }, .ofResult result)

def conclude : Record × Exit → Record × Answer
  | (r, .stopped status) =>
    let r := { r with status }
    r.store (.ok r.report)
  | (r, .failed fault) => { r with status := .failed }.store (.error fault)
  | (r, .pending) => (r, .pending)
  | (r, .unfinished) => (r, .unfinished)

/-- A stored result is the answer at once; otherwise the loop is entered. -/
def run (fuel : Nat) (r : Record) : Record × Answer :=
  match r.terminal with
  | some result => (r, .ofResult result)
  | none => conclude (execute fuel { r with status := .running })

def call (r : Record) : Machine.Call → Record × Machine.Reply
  | .supply values => ({ r with pending := r.pending ++ values }, .done)
  | .push value => ({ r with pending := r.pending ++ [value] }, .done)
  | .take => ({ r with pending := r.pending.tail }, .taken r.pending.head?)
  | .run fuel => ((r.run fuel).1, .ran (r.run fuel).2)
  | .emit value => (r.emit value, .emitted r.outlet.length)
  | .subscribe listener =>
    ({ r with outlet := (r.outlet.subscribe listener).1 },
      .subscribed (r.outlet.subscribe listener).2)
  | .unsubscribe id =>
    ({ r with outlet := (r.outlet.unsubscribe id).1 }, .unsubscribed (r.outlet.unsubscribe id).2)

def serve (r : Record) (calls : List Machine.Call) : Record :=
  calls.foldl (fun r c => (r.call c).1) r

end Record

namespace Machine

/-- The machine with its phase taken apart. -/
def record (x : Machine) : Record where
  label := x.label
  program := x.program
  settings := x.settings
  engine := x.engine
  pending := x.pending
  outlet := x.outlet
  status := x.phase.status
  terminal := x.phase.result?

@[simp] theorem status_record (x : Machine) : x.record.status = x.phase.status := rfl

@[simp] theorem terminal_record (x : Machine) : x.record.terminal = x.phase.result? := rfl

variable {x : Machine}

theorem isTerminal_status (x : Machine) :
    x.record.status.isTerminal = x.record.terminal.isSome := by
  rw [status_record, terminal_record]
  cases x.phase <;> rfl

theorem failed_status_iff (x : Machine) :
    x.record.status = .failed ↔ ∃ fault, x.record.terminal = some (.error fault) := by
  rw [status_record, terminal_record]
  cases x.phase <;> simp [Phase.status, Phase.result?]

theorem go_of_stored {fuel : Nat} {result : Except Fault Report}
    (stored : x.phase.result? = some result) (ended : (go fuel x).2 ≠ .unfinished) :
    go fuel x = (x, .ofResult result) := by
  cases fuel with
  | zero => exact absurd rfl ended
  | succ fuel => exact go_of_result stored fuel

theorem run_of_stored {fuel : Nat} {result : Except Fault Report}
    (stored : x.phase.result? = some result) (ended : (x.run fuel).2 ≠ .unfinished) :
    x.run fuel = (x, .ofResult result) := by
  have stopped : x.phase.isTerminal := by simp [Phase.isTerminal, stored]
  rw [run, start_of_isTerminal stopped] at ended ⊢
  exact go_of_stored stored ended

/-- The loop of a machine that has been set going ends as the loop of its record does. -/
theorem conclude_execute {fuel : Nat} (running : x.phase = .running)
    (ended : (go fuel x).2 ≠ .unfinished) :
    Record.conclude (Record.execute fuel x.record) = ((go fuel x).1.record, (go fuel x).2) := by
  induction fuel generalizing x with
  | zero => exact absurd rfl ended
  | succ fuel ih =>
    obtain ⟨label, program, settings, engine, pending, outlet, phase⟩ := x
    obtain rfl : phase = .running := running
    rw [go, step_of_not_isTerminal rfl] at ended ⊢
    simp only [record, Record.execute]
    generalize engine.step pending.head? = result at ended ⊢
    obtain ⟨engine, effect⟩ := result
    -- A machine that has stopped takes one more step to notice; its record has left the loop.
    have noticed {y : Machine} {result : Except Fault Report}
        (stored : y.phase.result? = some result) (ended : (go fuel y).2 ≠ .unfinished) :
        (y.record, Answer.ofResult result) = ((go fuel y).1.record, (go fuel y).2) := by
      rw [go_of_stored stored ended]
    cases effect with
    | quiet => exact ih rfl ended
    | took value => exact ih rfl ended
    | emitted value => exact ih rfl ended
    | blocked => rfl
    | halted => exact noticed rfl ended
    | exhausted => exact noticed rfl ended
    | failed fault taken =>
      cases taken with
      | none => exact noticed rfl ended
      | some value => exact noticed rfl ended

theorem record_start (unstored : x.phase.result? = none) :
    x.start.phase = .running ∧
      x.start.record = { x.record with status := .running, terminal := none } := by
  obtain ⟨label, program, settings, engine, pending, outlet, phase⟩ := x
  cases phase with
  | ready | running => exact ⟨rfl, rfl⟩
  | halted | exhausted | failed => cases unstored

theorem record_run {fuel : Nat} (ended : (x.run fuel).2 ≠ .unfinished) :
    x.record.run fuel = ((x.run fuel).1.record, (x.run fuel).2) := by
  cases stored : x.phase.result? with
  | some result =>
    rw [run_of_stored stored ended, Record.run, terminal_record, stored]
  | none =>
    obtain ⟨running, started⟩ := record_start stored
    have looped := conclude_execute running ended
    rw [started] at looped
    rw [Record.run, terminal_record, stored]
    exact looped

/-- A call to the record is the call to the machine. -/
theorem record_call {c : Call} (ended : (x.call c).2 ≠ .ran .unfinished) :
    x.record.call c = ((x.call c).1.record, (x.call c).2) := by
  cases c with
  | run fuel =>
    rw [Record.call, record_run fun unfinished => ended (congrArg Reply.ran unfinished)]
    rfl
  | _ => rfl

theorem record_serve {calls : List Call} (ended : .ran .unfinished ∉ x.replies calls) :
    x.record.serve calls = (x.serve calls).record := by
  induction calls generalizing x with
  | nil => rfl
  | cons c calls ih =>
    obtain ⟨now, later⟩ := not_or.mp (mt List.mem_cons.mpr ended)
    rw [serve_cons, ← ih later, Record.serve, List.foldl_cons, record_call (Ne.symm now)]
    rfl

end Machine

end TapeMachine
