import TapeMachine.Proofs.Suspension

/-! A caller supplies input to a machine or takes it back, runs the machine, emits values beside it
and subscribes to what is emitted. The calls are served one by one, and each has its reply. A
machine that has stopped serves all of them and stays as it is, its input and its outlet apart. -/

namespace TapeMachine

def Answer.ofResult : Except Fault Report → Answer
  | .ok report => finished report
  | .error fault => failed fault

namespace Machine

/-- A run is given up where it has to wait, and where it has taken `fuel` steps. -/
inductive Call where
  | supply (values : List Cell)
  | push (value : Cell)
  | take
  | run (fuel : Nat)
  | emit (value : Cell)
  | subscribe (listener : Listener)
  | unsubscribe (id : Nat)
  deriving DecidableEq, Repr

inductive Reply where
  | done
  | taken (value : Option Cell)
  | ran (answer : Answer)
  /-- The index of an emitted value in the stream. -/
  | emitted (index : Nat)
  | subscribed (id : Nat)
  | unsubscribed (found : Bool)
  deriving DecidableEq, Repr

def call (x : Machine) : Call → Machine × Reply
  | .supply values => (x.supply values, .done)
  | .push value => (x.push value, .done)
  | .take => (x.tryTake.1, .taken x.tryTake.2)
  | .run fuel => ((x.run fuel).1, .ran (x.run fuel).2)
  | .emit value => (x.emit value, .emitted x.outlet.length)
  | .subscribe listener => ((x.subscribe listener).1, .subscribed (x.subscribe listener).2)
  | .unsubscribe id => ((x.unsubscribe id).1, .unsubscribed (x.unsubscribe id).2)

def serve (x : Machine) (calls : List Call) : Machine := calls.foldl (fun x c => (x.call c).1) x

def replies (x : Machine) : List Call → List Reply
  | [] => []
  | c :: calls => (x.call c).2 :: (x.call c).1.replies calls

variable {x : Machine}

theorem serve_cons (x : Machine) (c : Call) (calls : List Call) :
    x.serve (c :: calls) = (x.call c).1.serve calls := rfl

theorem not_active_of_isTerminal (stopped : x.phase.isTerminal) : ¬x.Active := by
  intro active
  rw [active.1] at stopped
  cases stopped

theorem start_of_isTerminal (stopped : x.phase.isTerminal) : x.start = x := by
  apply (start_eq_self_iff x).mpr
  intro ready
  rw [ready] at stopped
  cases stopped

theorem go_of_isTerminal (stopped : x.phase.isTerminal) (fuel : Nat) : (go fuel x).1 = x := by
  cases fuel with
  | zero => rfl
  | succ fuel => rw [go_of_not_active (not_active_of_isTerminal stopped)]

theorem answer_of_result {result : Except Fault Report} (stored : x.phase.result? = some result) :
    x.answer = .ofResult result := by
  cases result <;> simp [answer, stored, Answer.ofResult]

theorem go_of_result {result : Except Fault Report} (stored : x.phase.result? = some result)
    (fuel : Nat) : go (fuel + 1) x = (x, .ofResult result) := by
  have stopped : x.phase.isTerminal := by simp [Phase.isTerminal, stored]
  rw [go_of_not_active (not_active_of_isTerminal stopped), answer_of_result stored]

/-- A run of a stopped machine answers with the stored result and leaves everything as it is. -/
theorem run_of_result {result : Except Fault Report} (stored : x.phase.result? = some result)
    (fuel : Nat) : x.run (fuel + 1) = (x, .ofResult result) := by
  have stopped : x.phase.isTerminal := by simp [Phase.isTerminal, stored]
  rw [run, start_of_isTerminal stopped, go_of_result stored]

/-- Of a stopped machine, a call may change the pending input and the outlet only. -/
theorem call_of_isTerminal (stopped : x.phase.isTerminal) (c : Call) :
    (x.call c).1.engine = x.engine ∧ (x.call c).1.phase = x.phase := by
  cases c with
  | run fuel =>
    have same : (x.run fuel).1 = x := by
      rw [run, start_of_isTerminal stopped, go_of_isTerminal stopped]
    simp only [call, same, and_self]
  | _ => exact ⟨rfl, rfl⟩

theorem serve_of_isTerminal (stopped : x.phase.isTerminal) (calls : List Call) :
    (x.serve calls).engine = x.engine ∧ (x.serve calls).phase = x.phase := by
  induction calls generalizing x with
  | nil => exact ⟨rfl, rfl⟩
  | cons c calls ih =>
    obtain ⟨engine, phase⟩ := call_of_isTerminal stopped c
    obtain ⟨engines, phases⟩ := ih (x := (x.call c).1) (by rw [phase]; exact stopped)
    exact ⟨engines.trans engine, phases.trans phase⟩

end Machine

end TapeMachine
