import TapeMachine.Proofs.Station

/-! A run that waits for input may be given up and started again later, or kept and polled again
once there is more input. Neither shows: a machine dealt with in any such way ends as one run does
that had all the input from the start. -/

namespace TapeMachine

namespace Machine

theorem answer_ne_unfinished (x : Machine) : x.answer ≠ .unfinished := by
  unfold answer
  split <;> simp

theorem answer_eq_pending_iff (x : Machine) : x.answer = .pending ↔ x.phase.isTerminal = false := by
  cases phase : x.phase <;> simp [answer, phase, Phase.result?, Phase.isTerminal]

theorem go_of_active {x : Machine} (active : x.Active) (fuel : Nat) :
    go (fuel + 1) x = go fuel x.step.1 := by
  obtain ⟨unblocked, unstopped⟩ := step_of_active active
  rw [go]
  generalize x.step = result at unblocked unstopped
  obtain ⟨y, event⟩ := result
  cases event with
  | blocked => exact absurd rfl unblocked
  | stopped => exact absurd rfl unstopped
  | _ => rfl

theorem go_of_not_active {x : Machine} (idle : ¬x.Active) (fuel : Nat) :
    go (fuel + 1) x = (x, x.answer) := by
  rw [go, step_of_not_active idle]
  cases going : x.phase.isTerminal with
  | true => rfl
  | false => exact congrArg (Prod.mk x) ((answer_eq_pending_iff x).mpr going).symm

theorem go_ended {fuel : Nat} {x : Machine} (ended : (go fuel x).2 ≠ .unfinished) :
    ¬(go fuel x).1.Active ∧ (go fuel x).2 = (go fuel x).1.answer := by
  induction fuel generalizing x with
  | zero => exact absurd rfl ended
  | succ fuel ih =>
    by_cases active : x.Active
    · rw [go_of_active active] at ended ⊢
      exact ih ended
    · rw [go_of_not_active active]
      exact ⟨active, rfl⟩

theorem go_succ {fuel : Nat} {x : Machine} (ended : (go fuel x).2 ≠ .unfinished) :
    go (fuel + 1) x = go fuel x := by
  induction fuel generalizing x with
  | zero => exact absurd rfl ended
  | succ fuel ih =>
    by_cases active : x.Active
    · rw [go_of_active active] at ended
      rw [go_of_active active, go_of_active active, ih ended]
    · rw [go_of_not_active active, go_of_not_active active]

@[simp] theorem loops_go (fuel : Nat) (x : Machine) :
    (go fuel x).1.outlet.loops = x.outlet.loops := by
  induction fuel generalizing x with
  | zero => rfl
  | succ fuel ih =>
    by_cases active : x.Active
    · rw [go_of_active active, ih, loops_step]
    · rw [go_of_not_active active]

/-- Input that was still to come can be put off to the end of a run: the run ends without it, and
a second run takes it up. -/
theorem go_supply {fuel : Nat} {x : Machine} {values : List Cell} (quiet : x.outlet.loops = 0)
    (ended : (go fuel (x.supply values)).2 ≠ .unfinished) :
    (go fuel x).2 ≠ .unfinished ∧
      go fuel ((go fuel x).1.supply values) = go fuel (x.supply values) := by
  induction fuel generalizing x with
  | zero => exact absurd rfl ended
  | succ fuel ih =>
    by_cases active : x.Active
    · have next : go (fuel + 1) (x.supply values) = go fuel (x.step.1.supply values) := by
        rw [go_of_active (active_supply active values), step_supply quiet active]
      rw [next] at ended ⊢
      obtain ⟨first, second⟩ := ih (by rw [loops_step, quiet]) ended
      rw [go_of_active active]
      refine ⟨first, ?_⟩
      -- The second run is one step shorter than it may be.
      rw [go_succ (by rw [second]; exact ended), second]
    · rw [go_of_not_active active]
      exact ⟨answer_ne_unfinished x, rfl⟩

@[simp] theorem start_supply (x : Machine) (values : List Cell) :
    (x.supply values).start = x.start.supply values := rfl

@[simp] theorem start_start (x : Machine) : x.start.start = x.start := by
  cases phase : x.phase <;> simp [start, phase, Phase.start]

theorem start_eq_self_iff (x : Machine) : x.start = x ↔ x.phase ≠ .ready := by
  cases x with
  | mk label program settings engine pending outlet phase =>
    cases phase <;> simp [start, Phase.start]

theorem start_step {x : Machine} (started : x.start = x) : x.step.1.start = x.step.1 := by
  rw [start_eq_self_iff] at started ⊢
  cases going : x.phase.isTerminal with
  | true => rwa [phase_step_of_isTerminal going]
  | false =>
    rw [step_of_not_isTerminal going]
    cases effect : (x.engine.step x.pending.head?).2 with
    | failed fault taken => cases taken <;> simp [absorb]
    | _ => simp [absorb, emit, started]

theorem start_go {fuel : Nat} {x : Machine} (started : x.start = x) :
    (go fuel x).1.start = (go fuel x).1 := by
  induction fuel generalizing x with
  | zero => exact started
  | succ fuel ih =>
    by_cases active : x.Active
    · rw [go_of_active active]
      exact ih (start_step started)
    · rw [go_of_not_active active]
      exact started

@[simp] theorem start_run (fuel : Nat) (x : Machine) : (x.run fuel).1.start = (x.run fuel).1 :=
  start_go (start_start x)

@[simp] theorem loops_run (fuel : Nat) (x : Machine) :
    (x.run fuel).1.outlet.loops = x.outlet.loops :=
  loops_go fuel x.start

theorem run_supply {fuel : Nat} {x : Machine} {values : List Cell} (quiet : x.outlet.loops = 0)
    (ended : ((x.supply values).run fuel).2 ≠ .unfinished) :
    (x.run fuel).2 ≠ .unfinished ∧
      ((x.run fuel).1.supply values).run fuel = (x.supply values).run fuel := by
  unfold run at ended ⊢
  rw [start_supply] at ended ⊢
  obtain ⟨first, second⟩ := go_supply (x := x.start) quiet ended
  refine ⟨first, ?_⟩
  rw [start_supply, start_go (start_start x), second]

/-- Carries out an instruction that was resolved before the machine had to wait. -/
def proceed (x : Machine) (i : Instruction) : Machine × Event :=
  { x with engine := (x.engine.perform i x.pending.head?).1 }.absorb
    (x.engine.perform i x.pending.head?).2

/-- Polls a kept run: it goes on in the instruction it waited in, which is not resolved again. -/
def resume : Nat → Machine → Instruction → Machine × Answer
  | 0, x, _ => (x, .unfinished)
  | fuel + 1, x, i =>
    match x.proceed i with
    | (x, .blocked) => (x, .pending)
    | (x, .stopped) => (x, x.answer)
    | (x, _) => go fuel x

structure StandsAt (x : Machine) (i : Instruction) : Prop where
  running : x.phase = .running
  inside : x.engine.ip < x.engine.memory.size
  fetched : x.engine.fetch = .ok i

/-- Resolving the instruction again gives what a kept run has in hand. -/
theorem resume_eq_go {x : Machine} {i : Instruction} (going : x.phase.isTerminal = false)
    (inside : x.engine.ip < x.engine.memory.size) (fetched : x.engine.fetch = .ok i)
    (fuel : Nat) : x.resume fuel i = go fuel x := by
  have same : x.step = x.proceed i := by
    rw [step_of_not_isTerminal going, proceed]
    simp only [Engine.step, Nat.not_le.mpr inside, if_false, fetched]
  cases fuel with
  | zero => rfl
  | succ fuel =>
    obtain ⟨⟨y, event⟩, proceeded⟩ : ∃ result, x.proceed i = result := ⟨_, rfl⟩
    rw [proceeded] at same
    cases event <;> simp only [resume, go, same, proceeded]

theorem resume_eq_run {x : Machine} {i : Instruction} (stands : x.StandsAt i) (fuel : Nat) :
    x.resume fuel i = x.run fuel := by
  have going : x.phase.isTerminal = false := by rw [stands.running]; rfl
  have started : x.start = x := (start_eq_self_iff x).mpr (by simp [stands.running])
  rw [run, started, resume_eq_go going stands.inside stands.fetched]

theorem standsAt_supply {x : Machine} {i : Instruction} (stands : x.StandsAt i)
    (values : List Cell) : (x.supply values).StandsAt i :=
  ⟨stands.running, stands.inside, stands.fetched⟩

theorem run_standsAt {fuel : Nat} {x : Machine} (waits : (x.run fuel).2 = .pending) {i : Instruction}
    (fetched : (x.run fuel).1.engine.fetch.toOption = some i) : (x.run fuel).1.StandsAt i := by
  have ended : (go fuel x.start).2 ≠ .unfinished := by
    show (x.run fuel).2 ≠ _
    simp [waits]
  obtain ⟨idle, answered⟩ := go_ended ended
  change ¬(x.run fuel).1.Active at idle
  have going : (x.run fuel).1.phase.isTerminal = false :=
    (answer_eq_pending_iff _).mp (answered.symm.trans waits)
  have started := (start_eq_self_iff _).mp (start_run fuel x)
  have awaits : (x.run fuel).1.Awaits := Classical.byContradiction fun fed => idle ⟨going, fed⟩
  obtain ⟨⟨inside, address, width, resolved⟩, -⟩ := awaits
  refine ⟨?_, inside, ?_⟩
  · cases phase : (x.run fuel).1.phase <;>
      simp_all [Phase.isTerminal, Phase.result?]
  · rw [resolved] at fetched ⊢
    exact congrArg Except.ok (Option.some.inj fetched)

theorem isTerminal_of_stopped {x : Machine} (stopped : x.step.2 = .stopped) :
    x.phase.isTerminal := by
  by_cases active : x.Active
  · exact absurd stopped (step_of_active active).2
  · cases going : x.phase.isTerminal with
    | true => rfl
    | false => rw [step_of_not_active active, going] at stopped; cases stopped

end Machine

/-- A run of a station that waits has left its receiver in the inbox. -/
theorem Station.Sound.registered_go {s : Station} (sound : s.Sound) {fuel : Nat}
    (waits : (s.go fuel).2 = .pending) : (s.go fuel).1.inbox.receiver = .registered := by
  induction fuel generalizing s with
  | zero => cases waits
  | succ fuel ih =>
    have next := sound.step
    have registered := sound.registered_iff
    have shown := sound.view_step
    rw [Station.go] at waits ⊢
    generalize s.step = result at next registered shown waits ⊢
    obtain ⟨t, event⟩ := result
    cases event with
    | blocked => exact registered.mpr rfl
    | stopped =>
      have stopped : t.view.phase.isTerminal := by
        have before := Machine.isTerminal_of_stopped (x := s.view) (by rw [← shown])
        rw [Machine.step_of_isTerminal before] at shown
        rw [(Prod.mk.inj shown).1]
        exact before
      have going := (Machine.answer_eq_pending_iff t.machine).mp waits
      rw [show t.machine.phase = t.view.phase from rfl, stopped] at going
      cases going
    | _ => exact ih next waits

structure Session where
  machine : Machine
  /-- The instruction that a run waits in, if the caller has kept the run. -/
  kept : Option Instruction := none
  /-- What each run came to when it was started or polled. -/
  answers : List Answer := []

namespace Session

/-- What the caller can do. A run that waits is kept; to start another gives it up. -/
inductive Act where
  | supply (values : List Cell)
  | push (value : Cell)
  | run
  | poll
  deriving DecidableEq, Repr

def Act.input : Act → List Cell
  | supply values => values
  | push value => [value]
  | run | poll => []

def supplied (acts : List Act) : List Cell := acts.flatMap Act.input

def note (s : Session) (result : Machine × Answer) : Session where
  machine := result.1
  kept := if result.2 = .pending then result.1.engine.fetch.toOption else none
  answers := s.answers ++ [result.2]

/-- One act, each run being allowed `fuel` steps. There is nothing to poll if no run is kept. -/
def act (fuel : Nat) (s : Session) : Act → Session
  | .supply values => { s with machine := s.machine.supply values }
  | .push value => { s with machine := s.machine.push value }
  | .run => s.note (s.machine.run fuel)
  | .poll =>
    match s.kept with
    | none => s
    | some i => s.note (s.machine.resume fuel i)

def perform (fuel : Nat) (s : Session) (acts : List Act) : Session := acts.foldl (act fuel) s

def Runs (s : Session) (a : Act) : Prop := a = .run ∨ a = .poll ∧ s.kept ≠ none

/-- What holds of a session on the way to the result of a single run with all the input, while
`rest` is the input still to come. -/
structure Tracks (fuel : Nat) (result : Machine × Answer) (rest : List Cell) (s : Session) :
    Prop where
  quiet : s.machine.outlet.loops = 0
  kept : ∀ i, s.kept = some i → s.machine.StandsAt i
  ended : .unfinished ∉ s.answers
  ahead : (s.machine.supply rest).run fuel = result

variable {fuel : Nat} {result : Machine × Answer} {rest : List Cell} {s : Session}

theorem tracks_supply (values : List Cell) (tracks : Tracks fuel result (values ++ rest) s) :
    Tracks fuel result rest { s with machine := s.machine.supply values } where
  quiet := tracks.quiet
  kept i kept := Machine.standsAt_supply (tracks.kept i kept) values
  ended := tracks.ended
  ahead := by rw [Machine.supply_supply]; exact tracks.ahead

theorem tracks_run (tracks : Tracks fuel result rest s) (ended : result.2 ≠ .unfinished) :
    Tracks fuel result rest (s.note (s.machine.run fuel)) := by
  have ahead := tracks.ahead
  obtain ⟨first, second⟩ := Machine.run_supply tracks.quiet (by rw [ahead]; exact ended)
  refine ⟨?_, ?_, ?_, second.trans ahead⟩
  · show (s.machine.run fuel).1.outlet.loops = 0
    rw [Machine.loops_run, tracks.quiet]
  · intro i kept
    simp only [note] at kept
    split at kept
    · rename_i waits
      exact Machine.run_standsAt waits kept
    · cases kept
  · simp only [note, List.mem_append, List.mem_singleton]
    rintro (earlier | now)
    · exact tracks.ended earlier
    · exact first now.symm

theorem act_of_runs (tracks : Tracks fuel result rest s) {a : Act} (runs : s.Runs a) :
    s.act fuel a = s.note (s.machine.run fuel) := by
  rcases runs with rfl | ⟨rfl, kept⟩
  · rfl
  · obtain ⟨i, kept⟩ := Option.ne_none_iff_exists'.mp kept
    simp only [act, kept]
    rw [Machine.resume_eq_run (tracks.kept i kept)]

theorem tracks_act (a : Act) (tracks : Tracks fuel result (a.input ++ rest) s)
    (ended : result.2 ≠ .unfinished) : Tracks fuel result rest (s.act fuel a) := by
  cases a with
  | supply values => exact tracks_supply values tracks
  | push value => exact tracks_supply [value] tracks
  | run => exact tracks_run tracks ended
  | poll =>
    cases kept : s.kept with
    | none => simp only [act, kept]; exact tracks
    | some i =>
      rw [act_of_runs tracks (.inr ⟨rfl, by simp [kept]⟩)]
      exact tracks_run tracks ended

theorem tracks_perform (acts : List Act) (tracks : Tracks fuel result (supplied acts ++ rest) s)
    (ended : result.2 ≠ .unfinished) : Tracks fuel result rest (s.perform fuel acts) := by
  induction acts generalizing s with
  | nil => exact tracks
  | cons a acts ih =>
    refine ih (tracks_act a ?_ ended)
    rw [← List.append_assoc]
    exact tracks

/-- A station in the hands of a caller. The receiver in its inbox is that of the kept run. -/
structure Desk where
  station : Station
  answers : List Answer := []

namespace Desk

/-- The station with its machine shown and the receiver as the instruction that waits. -/
def session (d : Desk) : Session where
  machine := d.station.view
  kept := if d.station.inbox.receiver = .absent then none
    else d.station.machine.engine.fetch.toOption
  answers := d.answers

/-- The receiver is given up with a run that does not wait. -/
def note (d : Desk) : Station × Answer → Desk
  | (s, .pending) => ⟨s, d.answers ++ [.pending]⟩
  | (s, answer) => ⟨{ s with inbox := s.inbox.drop }, d.answers ++ [answer]⟩

def act (fuel : Nat) (d : Desk) : Act → Desk
  | .supply values => { d with station := d.station.supply values }
  | .push value => { d with station := d.station.supply [value] }
  | .run => d.note (Station.go fuel ⟨d.station.machine.start, d.station.inbox.drop⟩)
  | .poll => if d.station.inbox.receiver = .absent then d else d.note (d.station.go fuel)

def perform (fuel : Nat) (d : Desk) (acts : List Act) : Desk := acts.foldl (act fuel) d

variable {d : Desk}

theorem session_note {t : Station} {answer : Answer}
    (waits : answer = .pending → t.inbox.receiver = .registered) :
    (d.note (t, answer)).session = d.session.note (t.view, answer) := by
  cases answer with
  | pending => simp [session, note, Session.note, waits rfl, Station.view]
  | _ => simp [session, note, Session.note, Inbox.receiver_drop, Station.view]

theorem session_note_go {t : Station} (sound : t.Sound) :
    (d.note (t.go fuel)).session = d.session.note (Machine.go fuel t.view) := by
  rw [← sound.view_go]
  exact session_note sound.registered_go

theorem sound_note {t : Station} (sound : t.Sound) (answer : Answer) :
    (d.note (t, answer)).station.Sound := by
  cases answer with
  | pending => exact sound
  | _ => exact sound.drop t.machine sound.empty

theorem sound_act (sound : d.station.Sound) (fuel : Nat) (a : Act) :
    (d.act fuel a).station.Sound := by
  cases a with
  | supply values => exact sound.supply values
  | push value => exact sound.supply [value]
  | run => exact sound_note ((sound.drop d.station.machine.start sound.empty).go fuel) _
  | poll =>
    rw [act]
    split
    · exact sound
    · exact sound_note (sound.go fuel) _

/-- The caller cannot tell a desk from a session. -/
theorem session_act (sound : d.station.Sound) (fuel : Nat) (a : Act) :
    (d.act fuel a).session = d.session.act fuel a := by
  have supplied (values : List Cell) :
      ({ d with station := d.station.supply values } : Desk).session =
        { d.session with machine := d.session.machine.supply values } := by
    have kept : (d.station.inbox.supply values).receiver = .absent ↔
        d.station.inbox.receiver = .absent := by
      rw [Inbox.receiver_supply]
      split
      · rename_i woken
        simp [woken.1]
      · rfl
    simp only [session, Station.supply, Station.view, Machine.supply, Inbox.values_supply, kept]
  cases a with
  | supply values => exact supplied values
  | push value => exact supplied [value]
  | run =>
    rw [act, session_note_go (sound.drop d.station.machine.start sound.empty)]
    have shown : Station.view ⟨d.station.machine.start, d.station.inbox.drop⟩ =
        d.session.machine.start := by
      simp [Station.view, session, Machine.start]
    rw [shown]
    rfl
  | poll =>
    by_cases none_kept : d.station.inbox.receiver = .absent
    · simp [act, Session.act, session, none_kept]
    · obtain ⟨going, inside, address, width, fetched⟩ := sound.stands none_kept
      have kept : d.session.kept = some ⟨.input address, width⟩ := by
        simp [session, none_kept, fetched, Except.toOption]
      rw [act, if_neg none_kept, session_note_go sound]
      simp only [Session.act, kept]
      rw [Machine.resume_eq_go (x := d.session.machine) going inside fetched]
      rfl

theorem session_perform (sound : d.station.Sound) (fuel : Nat) (acts : List Act) :
    (d.perform fuel acts).session = d.session.perform fuel acts ∧
      (d.perform fuel acts).station.Sound := by
  induction acts generalizing d with
  | nil => exact ⟨rfl, sound⟩
  | cons a acts ih =>
    obtain ⟨shown, later⟩ := ih (sound_act sound fuel a)
    rw [session_act sound] at shown
    exact ⟨shown, later⟩

theorem session_ofMachine (x : Machine) :
    Desk.session { station := .ofMachine x } = { machine := x } := by
  rw [session, Station.view_ofMachine, Station.absent_ofMachine]
  rfl

end Desk

/-- However the input is cut up, and wherever runs are given up or kept while they wait, every run
ends, and the last one leaves the machine and the answer of a single run with all the input. The
same acts on a machine that reads from an inbox, where a kept run is a receiver that new input
wakes, look no different to the caller. -/
theorem perform_eq_run (x : Machine) (acts : List Act) (last : Act) (fuel : Nat)
    (quiet : x.outlet.loops = 0) (runs : (perform fuel { machine := x } acts).Runs last)
    (ended : ((x.supply (supplied acts)).run fuel).2 ≠ .unfinished) :
    let s := perform fuel { machine := x } (acts ++ [last])
    let d := Desk.perform fuel { station := .ofMachine x } (acts ++ [last])
    s.machine = ((x.supply (supplied acts)).run fuel).1 ∧
      s.answers.getLast? = some ((x.supply (supplied acts)).run fuel).2 ∧
      .unfinished ∉ s.answers ∧ d.session = s ∧ d.station.inbox.Used := by
  have start : Tracks fuel ((x.supply (supplied acts)).run fuel) (supplied acts ++ [])
      { machine := x } :=
    ⟨quiet, by simp, by simp, by rw [List.append_nil]⟩
  have tracks := tracks_perform acts start ended
  have ahead := tracks.ahead
  rw [Machine.supply_nil] at ahead
  have final := tracks_run tracks ended
  intro s d
  have unfold : s = (perform fuel { machine := x } acts).note
      ((x.supply (supplied acts)).run fuel) := by
    simp only [s, perform, List.foldl_append, List.foldl_cons, List.foldl_nil]
    rw [← ahead]
    exact act_of_runs tracks runs
  rw [ahead, ← unfold] at final
  obtain ⟨same, sound⟩ := Desk.session_perform (d := { station := .ofMachine x })
    (Station.sound_ofMachine x) fuel (acts ++ [last])
  rw [Desk.session_ofMachine] at same
  refine ⟨?_, ?_, final.ended, same, sound.used⟩ <;> simp [unfold, note]

/-- A program that adds two inputs, fed while its run is kept. In the end the run is either given
up for a new one or polled once more. -/
theorem perform_eq_run_sum :
    let x := Machine.create ⟨[3, 11, 3, 12, 1, 11, 12, 13, 4, 13, 99]⟩ {}
    let acts := [.run, .push 30, .poll, .supply [12, 5]]
    let s := perform 10 { machine := x } (acts ++ [.run])
    let t := perform 10 { machine := x } (acts ++ [.poll])
    let kept := Desk.perform 10 { station := .ofMachine x } acts
    let d := Desk.perform 10 { station := .ofMachine x } (acts ++ [.poll])
    x.outlet.loops = 0 ∧ (perform 10 { machine := x } acts).Runs .run ∧
      (perform 10 { machine := x } acts).Runs .poll ∧
      ((x.supply (supplied acts)).run 10).2 = .finished (.output #[42]) ∧
      (s.machine = ((x.supply (supplied acts)).run 10).1 ∧
        s.answers.getLast? = some ((x.supply (supplied acts)).run 10).2 ∧
        .unfinished ∉ s.answers) ∧
      t.machine = ((x.supply (supplied acts)).run 10).1 ∧
      t.answers = [.pending, .pending, .finished (.output #[42])] ∧
      (kept.station.inbox.receiver = .woken ∧ d.session = t) := by
  intro x acts s t kept d
  have finished : ((x.supply (supplied acts)).run 10).2 = .finished (.output #[42]) := by
    decide +kernel
  have ended : ((x.supply (supplied acts)).run 10).2 ≠ .unfinished := by
    rw [finished]
    simp
  have waits : (perform 10 { machine := x } acts).Runs .poll := .inr ⟨rfl, by decide +kernel⟩
  obtain ⟨machine, answer, ended_all, -⟩ := perform_eq_run x acts .run 10 rfl (.inl rfl) ended
  obtain ⟨polled, -, -, shown, -⟩ := perform_eq_run x acts .poll 10 rfl waits ended
  exact ⟨rfl, .inl rfl, waits, finished, ⟨machine, answer, ended_all⟩, polled,
    by decide +kernel, by decide +kernel, shown⟩

end Session

end TapeMachine
