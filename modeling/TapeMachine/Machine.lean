import TapeMachine.Engine
import TapeMachine.Channel.Outlet
import TapeMachine.Report

/-! A machine is an engine with its pending input, its outlet, its settings and the phase of its
life. It runs its program at most once. A run goes on until the machine stops or needs an input
value that is not there; a stopped machine keeps its result and answers with it ever after. -/

namespace TapeMachine

/-- The life of a machine. Waiting for input counts as running. -/
inductive Phase where
  | ready
  | running
  | halted (report : Report)
  /-- The instruction pointer ran off the end of the tape. -/
  | exhausted (report : Report)
  | failed (fault : Fault)
  deriving DecidableEq, Repr

namespace Phase

def name : Phase → String
  | ready => "Ready"
  | running => "Running"
  | halted _ => "Halted"
  | exhausted _ => "Exhausted"
  | failed _ => "Failed"

/-- The result that a stopped machine keeps. -/
def result? : Phase → Option (Except Fault Report)
  | ready | running => none
  | halted report | exhausted report => some (.ok report)
  | failed fault => some (.error fault)

def fault? : Phase → Option Fault
  | failed fault => some fault
  | _ => none

def isTerminal (p : Phase) : Bool := p.result?.isSome

def start : Phase → Phase
  | ready => running
  | phase => phase

end Phase

structure Machine where
  label : String
  program : Program
  settings : Settings
  engine : Engine
  pending : List Cell
  outlet : Outlet
  phase : Phase
  deriving DecidableEq

inductive Event where
  | moved
  /-- An input value was taken, whether or not it could be stored. -/
  | took (value : Cell)
  | emitted (value : Cell)
  /-- Nothing, for want of input. -/
  | blocked
  /-- Nothing, for the machine has stopped. -/
  | stopped
  deriving DecidableEq, Repr

inductive Answer where
  | finished (report : Report)
  | failed (fault : Fault)
  | pending
  /-- The steps allowed were used up. -/
  | unfinished
  deriving DecidableEq, Repr

namespace Machine

def create (program : Program) (settings : Settings) : Machine where
  label := "vm"
  program
  settings
  engine := Engine.ofProgram program settings.memoryLimit
  pending := []
  outlet := {}
  phase := .ready

/-- A machine for the program in a text, with the default memory limit. -/
def ofText (text : String) (report : ReportMode) : Except Error Machine :=
  (Program.parse text).map (create · { report })

def supply (x : Machine) (values : List Cell) : Machine :=
  { x with pending := x.pending ++ values }

def push (x : Machine) (value : Cell) : Machine := x.supply [value]

/-- Takes the front input value, as a reader outside the run would. -/
def tryTake (x : Machine) : Machine × Option Cell :=
  ({ x with pending := x.pending.tail }, x.pending.head?)

/-- Emits a value; each looping subscriber puts it into the pending input. -/
def emit (x : Machine) (value : Cell) : Machine :=
  { x with
    pending := x.pending ++ List.replicate x.outlet.loops value
    outlet := x.outlet.emit value }

def report (x : Machine) : Report :=
  .build x.settings.report x.engine.memory.cells x.outlet.values

def subscribe (x : Machine) (listener : Listener) : Machine × Nat :=
  let (outlet, id) := x.outlet.subscribe listener
  ({ x with outlet }, id)

def unsubscribe (x : Machine) (id : Nat) : Machine × Bool :=
  let (outlet, found) := x.outlet.unsubscribe id
  ({ x with outlet }, found)

def start (x : Machine) : Machine := { x with phase := x.phase.start }

def absorb (x : Machine) : Effect → Machine × Event
  | .quiet => (x, .moved)
  | .took value => ({ x with pending := x.pending.tail }, .took value)
  | .emitted value => (x.emit value, .emitted value)
  | .halted => ({ x with phase := .halted x.report }, .moved)
  | .exhausted => ({ x with phase := .exhausted x.report }, .moved)
  | .blocked => (x, .blocked)
  | .failed fault none => ({ x with phase := .failed fault }, .moved)
  | .failed fault (some value) =>
    ({ x with pending := x.pending.tail, phase := .failed fault }, .took value)

/-- One instruction, or the discovery that the tape has ended. -/
def step (x : Machine) : Machine × Event :=
  if x.phase.isTerminal then (x, .stopped)
  else
    let ⟨label, program, settings, engine, pending, outlet, phase⟩ := x
    match engine.step pending.head? with
    | (engine, effect) =>
      (⟨label, program, settings, engine, pending, outlet, phase⟩ : Machine).absorb effect

def answer (x : Machine) : Answer :=
  match x.phase.result? with
  | some (.ok report) => .finished report
  | some (.error fault) => .failed fault
  | none => .pending

def go : Nat → Machine → Machine × Answer
  | 0, x => (x, .unfinished)
  | fuel + 1, x =>
    match x.step with
    | (x, .blocked) => (x, .pending)
    | (x, .stopped) => (x, x.answer)
    | (x, _) => go fuel x

/-- Runs until the machine stops or waits, for at most `fuel` steps. -/
def run (fuel : Nat) (x : Machine) : Machine × Answer := go fuel x.start

/-- One run that is given a chunk of input each time it waits, while there are chunks. Also gives
the number of values emitted before each wait that was served. -/
def runFed (fuel : Nat) (x : Machine) (chunks : List (List Cell)) :
    Machine × Answer × List Nat :=
  match x.run fuel, chunks with
  | (x, .pending), chunk :: rest =>
    let emitted := x.outlet.length
    let (x, answer, waits) := runFed fuel (x.supply chunk) rest
    (x, answer, emitted :: waits)
  | (x, answer), _ => (x, answer, [])
  termination_by structural chunks

def describe (x : Machine) : String :=
  "Instance \x7b label: " ++ Text.quoted x.label ++ ", status: " ++ x.phase.name ++ ", ip: " ++
    Text.decimalText x.engine.ip ++ ", relative_base: " ++ Text.decimalText x.engine.base.toInt ++
    ", steps: " ++ Text.decimalText x.engine.steps ++ " \x7d"

theorem step_of_isTerminal {x : Machine} (h : x.phase.isTerminal) : x.step = (x, .stopped) := by
  simp [step, h]

theorem step_of_not_isTerminal {x : Machine} (h : x.phase.isTerminal = false) :
    x.step = { x with engine := (x.engine.step x.pending.head?).1 }.absorb
      (x.engine.step x.pending.head?).2 := by
  simp [step, h]

end Machine

end TapeMachine
