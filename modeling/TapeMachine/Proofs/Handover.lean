import TapeMachine.Proofs.Delivery

/-! Delivery with nothing done at a stroke. A supplier appends its values and signals them later; a
receiver looks at the queue and, having found it empty, waits only later. Between any two such moves
others may move. A signal that comes after the look and before the wait is stored as the permit, and
this is why no value is slept on. -/

namespace TapeMachine

inductive Stage where
  | absent
  | looking
  /-- It has found nothing and does not wait yet. -/
  | missed
  | registered
  | woken
  deriving DecidableEq, Repr

structure Handover where
  values : List Cell := []
  permit : Bool := false
  stage : Stage := .absent
  /-- The supplies whose signal is still to come. -/
  owed : Nat := 0
  deriving DecidableEq, Repr

namespace Handover

inductive Move where
  | append (values : List Cell)
  | signal
  /-- Somebody else takes the front value. -/
  | steal
  | enter
  | look
  | wait
  | rouse
  | leave
  deriving DecidableEq, Repr

def Move.appended : Move → List Cell
  | append values => values
  | _ => []

def notify (h : Handover) : Handover :=
  match h.stage with
  | .registered => { h with stage := .woken }
  | _ => { h with permit := true }

/-- A move, with the value that it obtains. A move that is not open changes nothing. -/
def move (h : Handover) : Move → Handover × Option Cell
  | .append values =>
    (if values = [] then h else { h with values := h.values ++ values, owed := h.owed + 1 }, none)
  | .signal => (if h.owed = 0 then h else { h with owed := h.owed - 1 }.notify, none)
  | .steal => ({ h with values := h.values.tail }, h.values.head?)
  | .enter => (if h.stage = .absent then { h with stage := .looking } else h, none)
  | .look =>
    if h.stage = .looking then
      match h.values with
      | [] => ({ h with stage := .missed }, none)
      | value :: rest => ({ h with values := rest, stage := .absent }, some value)
    else (h, none)
  | .wait =>
    (if h.stage = .missed then
      if h.permit then { h with permit := false, stage := .looking }
      else { h with stage := .registered }
    else h, none)
  | .rouse => (if h.stage = .woken then { h with stage := .looking } else h, none)
  | .leave =>
    -- A wake-up that has not been used is passed on.
    (if h.stage = .woken then { h with stage := .absent }.notify else { h with stage := .absent },
      none)

def after (h : Handover) (moves : List Move) : Handover := moves.foldl (fun h m => (h.move m).1) h

def obtained (h : Handover) : List Move → List Cell
  | [] => []
  | m :: moves => (h.move m).2.toList ++ (h.move m).1.obtained moves

variable {h : Handover}

@[simp] theorem values_notify (h : Handover) : h.notify.values = h.values := by
  unfold notify
  split <;> rfl

theorem move_balance (h : Handover) (m : Move) :
    (h.move m).2.toList ++ (h.move m).1.values = h.values ++ m.appended := by
  cases m with
  | append values => by_cases empty : values = [] <;> simp [move, Move.appended, empty]
  | steal => cases values : h.values <;> simp [move, Move.appended, values]
  | look =>
    rw [move]
    split
    · cases h.values <;> simp [Move.appended]
    · simp [Move.appended]
  | wait =>
    simp only [move, Move.appended]
    split
    · split <;> simp
    · simp
  | _ => simp only [move, Move.appended]; split <;> simp

theorem obtained_append_values (h : Handover) (moves : List Move) :
    h.obtained moves ++ (h.after moves).values = h.values ++ moves.flatMap Move.appended := by
  induction moves generalizing h with
  | nil => simp [obtained, after]
  | cons m moves ih =>
    rw [obtained, after, List.foldl_cons, List.append_assoc]
    rw [show List.foldl _ _ moves = (h.move m).1.after moves from rfl, ih, ← List.append_assoc,
      move_balance, List.flatMap_cons, List.append_assoc]

/-- A receiver that has missed values has them signalled to it, now or later, and one that waits has
none that are not about to be signalled. -/
structure Sound (h : Handover) : Prop where
  missed : h.stage = .missed → h.values ≠ [] → h.permit ∨ 0 < h.owed
  registered : h.stage = .registered → h.permit = false ∧ (h.values = [] ∨ 0 < h.owed)

theorem sound_of_stage (unmissed : h.stage ≠ .missed) (unregistered : h.stage ≠ .registered) :
    h.Sound :=
  ⟨fun missed => absurd missed unmissed, fun registered => absurd registered unregistered⟩

theorem sound_notify (h : Handover) : h.notify.Sound := by
  rw [notify]
  cases stage : h.stage with
  | registered => exact sound_of_stage (by simp) (by simp)
  | _ => exact ⟨fun _ _ => .inl rfl, by simp⟩

theorem Sound.wait (sound : h.Sound) (missed : h.stage = .missed) (unsent : h.permit = false) :
    Sound { h with stage := .registered } where
  missed := by simp
  registered _ := by
    refine ⟨unsent, ?_⟩
    by_cases empty : h.values = []
    · exact .inl empty
    · have signalled := sound.missed missed empty
      rw [unsent] at signalled
      exact .inr (signalled.resolve_left Bool.false_ne_true)

theorem Sound.move (sound : h.Sound) (m : Move) : (h.move m).1.Sound := by
  cases m with
  | append values =>
    rw [Handover.move]
    split
    · exact sound
    · exact ⟨fun _ _ => .inr (Nat.succ_pos _),
        fun registered => ⟨(sound.registered registered).1, .inr (Nat.succ_pos _)⟩⟩
  | signal =>
    rw [Handover.move]
    split
    · exact sound
    · exact sound_notify _
  | steal =>
    refine ⟨fun missed left => sound.missed missed ?_, fun registered => ?_⟩
    · exact fun empty => left (by simp [Handover.move, empty])
    · refine ⟨(sound.registered registered).1, (sound.registered registered).2.imp_left ?_⟩
      exact fun empty => by simp [Handover.move, empty]
  | look =>
    rw [Handover.move]
    split
    · cases values : h.values with
      | nil => exact ⟨fun _ left => absurd rfl left, by simp⟩
      | cons value rest => exact sound_of_stage (by simp) (by simp)
    · exact sound
  | wait =>
    rw [Handover.move]
    split
    · rename_i missed
      cases permit : h.permit with
      | true => exact sound_of_stage (by simp) (by simp)
      | false => simpa [permit] using sound.wait missed permit
    · exact sound
  | leave =>
    rw [Handover.move]
    split
    · exact sound_of_stage (by simp [Handover.notify]) (by simp [Handover.notify])
    · exact sound_of_stage (by simp) (by simp)
  | enter | rouse =>
    rw [Handover.move]
    split
    · exact sound_of_stage (by simp) (by simp)
    · exact sound

theorem sound_new : ({} : Handover).Sound := sound_of_stage (by simp) (by simp)

theorem Sound.after (sound : h.Sound) (moves : List Move) : (h.after moves).Sound := by
  induction moves generalizing h with
  | nil => exact sound
  | cons m moves ih => exact ih (sound.move m)

theorem after_append (h : Handover) (moves more : List Move) :
    h.after (moves ++ more) = (h.after moves).after more := List.foldl_append

theorem obtained_append (h : Handover) (moves more : List Move) :
    h.obtained (moves ++ more) = h.obtained moves ++ (h.after moves).obtained more := by
  induction moves generalizing h with
  | nil => rfl
  | cons m moves ih =>
    rw [List.cons_append, obtained, obtained, ih, List.append_assoc]
    rfl

theorem after_cons (h : Handover) (m : Move) (moves : List Move) :
    h.after (m :: moves) = (h.move m).1.after moves := rfl

@[simp] theorem owed_notify (h : Handover) : h.notify.owed = h.owed := by
  unfold notify
  split <;> rfl

theorem absent_notify (h : Handover) : h.notify.stage = .absent ↔ h.stage = .absent := by
  unfold notify
  split <;> simp_all

/-- The signals that are owed leave the values alone, and the receiver where it is or awake. -/
theorem after_signals {n : Nat} (owed : h.owed = n) :
    let g := h.after (List.replicate n .signal)
    g.values = h.values ∧ g.owed = 0 ∧ (g.stage = .absent ↔ h.stage = .absent) ∧
      ∀ moves, h.obtained (List.replicate n .signal ++ moves) = g.obtained moves := by
  induction n generalizing h with
  | zero => exact ⟨rfl, owed, Iff.rfl, fun _ => rfl⟩
  | succ n ih =>
    have signal : h.move .signal = ({ h with owed := n }.notify, none) := by
      simp [move, owed]
    obtain ⟨values, done, absent, later⟩ := ih (h := { h with owed := n }.notify) (by simp)
    rw [List.replicate_succ, after_cons, signal]
    refine ⟨by simpa using values, done, absent.trans (absent_notify _), fun moves => ?_⟩
    rw [List.cons_append, obtained, signal]
    exact later moves

/-- A receiver that is there when there are values gets the front one, once the signals that are
owed have come: it wakes, or uses the permit, or just looks. -/
theorem Sound.obtains (sound : h.Sound) (here : h.stage ≠ .absent) {value : Cell}
    {rest : List Cell} (front : h.values = value :: rest) :
    h.obtained (List.replicate h.owed .signal ++ [.rouse, .wait, .look]) = [value] := by
  obtain ⟨values, none_owed, absent, later⟩ := after_signals (h := h) rfl
  have settled : (h.after (List.replicate h.owed .signal)).Sound := sound.after _
  rw [later]
  generalize h.after (List.replicate h.owed .signal) = g at values none_owed absent settled
  rw [front] at values
  have occupied : g.values ≠ [] := by simp [values]
  cases stage : g.stage with
  | absent => exact absurd (absent.mp stage) here
  | looking => simp [obtained, Handover.move, stage, values]
  | missed =>
    have permit : g.permit := (settled.missed stage occupied).resolve_right (by simp [none_owed])
    simp [obtained, Handover.move, stage, permit, values]
  | registered =>
    obtain ⟨-, empty | owed⟩ := settled.registered stage
    · exact absurd empty occupied
    · simp [none_owed] at owed
  | woken => simp [obtained, Handover.move, stage, values]

end Handover

namespace Inbox

def apart (b : Inbox) : Handover where
  values := b.values
  permit := b.permit
  stage := match b.receiver with
    | .absent => .absent
    | .created => .looking
    | .registered => .registered
    | .woken => .woken

/-- An act that nobody comes between, as moves. A second receiver beside the kept one has none. -/
def Act.moves : Act → List Handover.Move
  | supply values => [.append values, .signal]
  | push value => [.append [value], .signal]
  | tryTake => [.steal]
  | take => []
  | wait => [.leave, .enter]
  | poll => [.rouse, .look, .wait, .look, .wait]
  | drop => [.leave]

theorem apart_notify (b : Inbox) : b.notify.apart = b.apart.notify := by
  obtain ⟨values, permit, receiver⟩ := b
  cases receiver <;> rfl

theorem moves_supply (b : Inbox) (added : List Cell) :
    b.apart.after [.append added, .signal] = (b.supply added).apart ∧
      b.apart.obtained [.append added, .signal] = [] := by
  by_cases empty : added = []
  · simp [Handover.after, Handover.obtained, Handover.move, apart, supply, empty]
  · rw [supply, if_neg empty, apart_notify]
    simp [Handover.after, Handover.obtained, Handover.move, apart, empty]

theorem apart_drop (b : Inbox) : b.drop.apart = (b.apart.move .leave).1 := by
  obtain ⟨values, permit, receiver⟩ := b
  cases receiver <;> rfl

theorem moves_poll (b : Inbox) :
    b.apart.after Act.poll.moves = b.poll.1.apart ∧
      b.apart.obtained Act.poll.moves = b.poll.2.value?.toList := by
  cases state : b.receiver with
  | absent | registered =>
    simp [Act.moves, Handover.after, Handover.obtained, Handover.move, apart, poll, state,
      Poll.value?]
  | created | woken =>
    rw [poll_of_entering (by simp [state])]
    cases values : b.values with
    | nil =>
      rw [take_of_nil values]
      cases permit : b.permit <;>
        simp [Act.moves, Handover.after, Handover.obtained, Handover.move, apart, settle, state,
          values, permit, Poll.value?]
    | cons value rest =>
      rw [take_of_cons values]
      simp [Act.moves, Handover.after, Handover.obtained, Handover.move, apart, settle, state,
        values, Poll.value?]

theorem moves_act (b : Inbox) {act : Act} (single : act ≠ .take) :
    b.apart.after act.moves = (b.act act).1.apart ∧
      b.apart.obtained act.moves = (b.act act).2.toList := by
  cases act with
  | take => exact absurd rfl single
  | supply values => exact b.moves_supply values
  | push value => exact b.moves_supply [value]
  | tryTake =>
    cases values : b.values <;>
      simp [Act.moves, apart, Handover.after, Handover.obtained, Handover.move, Inbox.act, tryTake,
        values]
  | wait =>
    obtain ⟨values, permit, receiver⟩ := b
    cases receiver <;> exact ⟨rfl, rfl⟩
  | poll => exact b.moves_poll
  | drop => exact ⟨b.apart_drop.symm, rfl⟩

/-- A list of acts is one of the orders in which their moves can come. -/
theorem moves_after (b : Inbox) {acts : List Act} (single : ∀ act ∈ acts, act ≠ .take) :
    b.apart.after (acts.flatMap Act.moves) = (b.after acts).apart ∧
      b.apart.obtained (acts.flatMap Act.moves) = b.obtained acts := by
  induction acts generalizing b with
  | nil => exact ⟨rfl, rfl⟩
  | cons act acts ih =>
    obtain ⟨first, later⟩ := List.forall_mem_cons.mp single
    obtain ⟨state, brought⟩ := moves_act b first
    obtain ⟨states, all⟩ := ih (b.act act).1 later
    rw [List.flatMap_cons, Handover.after_append, Handover.obtained_append, state, states, brought,
      all]
    exact ⟨rfl, rfl⟩

/-- Whatever is done with a new inbox, the values obtained and those still in it are the values
supplied, in their order. A receiver that looks finds the front value, and misses only if there is
none; one that waits has nothing in the inbox, and is woken by the first value to come. No receiver
goes round its loop more than twice, however stale its permit. Nor does it matter that an act takes
several moves that others may come between: values are kept as well, and a receiver that is there
gets the front one by its own moves once the signals have come. -/
theorem exactly_once (acts : List Act) :
    let new : Inbox := {}
    let b := new.after acts
    let fresh : Handover := {}
    new.obtained acts ++ b.values = acts.flatMap Act.supplied ∧
    (b.receiver = .registered → b.values = [] ∧ b.permit = false) ∧
    (b.tryTake.2 = b.values.head? ∧ b.take.2 = b.values.head?) ∧
    (b.receiver ≠ .absent →
      (b.poll.2 = .pending ↔ b.values = []) ∧ ∀ value ∈ b.values.head?, b.poll.2 = .value value) ∧
    (∃ rounds ≤ 2, ∀ n result, Rounds b n result ↔ n = rounds ∧ result = b.take) ∧
    (b.receiver ≠ .absent →
      ∃ rounds ≤ 2, ∀ n result, Polled b n result ↔ n = rounds ∧ result = b.poll) ∧
    (∀ moves, let h := fresh.after moves
      fresh.obtained moves ++ h.values = moves.flatMap Handover.Move.appended ∧ h.Sound ∧
        ∀ value rest, h.stage ≠ .absent → h.values = value :: rest →
          h.obtained (List.replicate h.owed .signal ++ [.rouse, .wait, .look]) = [value]) ∧
    ((∀ act ∈ acts, act ≠ .take) → fresh.after (acts.flatMap Act.moves) = b.apart ∧
      fresh.obtained (acts.flatMap Act.moves) = new.obtained acts) ∧
    ∀ before later, acts = before ++ .poll :: later → (new.after before).poll.2 = .pending →
      (∀ act ∈ later, act.isAside) →
      b.receiver = if later.flatMap Act.supplied = [] then .registered else .woken := by
  intro new b fresh
  have attended : b.Attended := attended_new.after acts
  refine ⟨obtained_append_values new acts, attended, ⟨tryTake_answer b, take_answer b⟩,
    fun kept => ?_, ?_, polled_iff, fun moves => ?_, new.moves_after, ?_⟩
  · rw [attended.poll kept]
    cases b.values <;> simp
  · exact ⟨_, by split <;> omega, rounds_iff⟩
  · have sound : (fresh.after moves).Sound := Handover.sound_new.after moves
    exact ⟨Handover.obtained_append_values fresh moves, sound, fun _ _ here => sound.obtains here⟩
  · rintro before later rfl pending aside
    have split_run : b = (new.after before).poll.1.after later := by
      simp only [b, after, List.foldl_append, List.foldl_cons, Inbox.act]
    rw [split_run]
    exact receiver_after (registered_of_pending pending) aside

/-- The value that woke the kept receiver is taken by somebody else, a woken receiver is given up
and leaves a stale permit behind, and the next one uses it up and waits. Apart from that, a value
that comes just after a receiver has looked is signalled by the permit. -/
theorem exactly_once_stale :
    let new : Inbox := {}
    let before : List Act :=
      [.wait, .poll, .push 5, .tryTake, .poll, .push 6, .drop, .take, .wait]
    let later : List Act := [.supply [], .push 7, .tryTake]
    let b := new.after (before ++ .poll :: later)
    let h := ({} : Handover).after [.enter, .look, .append [8], .signal, .append [9]]
    ((new.after before).permit ∧ (new.after before).poll.2 = .pending ∧
      ∀ act ∈ later, act.isAside) ∧
    new.obtained (before ++ .poll :: later) ++ b.values = [5, 6, 7] ∧
    (b.receiver = .woken ∧ b.poll.2 = .pending) ∧
    h.permit ∧ h.obtained [.signal, .rouse, .wait, .look] = [8] := by
  intro new before later b h
  obtain ⟨balance, -, -, polled, -, -, apart, -, woken⟩ := exactly_once (before ++ .poll :: later)
  obtain ⟨-, -, obtains⟩ := apart [.enter, .look, .append [8], .signal, .append [9]]
  have premises : (new.after before).permit ∧ (new.after before).poll.2 = .pending ∧
      ∀ act ∈ later, act.isAside := by decide +kernel
  have woken_again : b.receiver = .woken := woken before later rfl premises.2.1 premises.2.2
  have nothing_left : b.values = [] := by decide +kernel
  refine ⟨premises, balance, ⟨woken_again, ?_⟩, rfl, obtains 8 [9] (by decide) rfl⟩
  exact (polled (by rw [woken_again]; decide)).1.mpr nothing_left

end Inbox

end TapeMachine
