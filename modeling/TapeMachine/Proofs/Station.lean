import TapeMachine.Proofs.Delivery
import TapeMachine.Proofs.Stepping

/-! A machine beside the inbox that its input really comes from. An input instruction polls the
receiver of the inbox, which stays there while the instruction waits; all other instructions leave
the inbox alone. What a station does is what its machine does with the values of the inbox pending,
so for a single machine the queue is all that needs to be looked at. -/

namespace TapeMachine

structure Station where
  /-- Its own pending input is empty between steps. -/
  machine : Machine
  inbox : Inbox

theorem Engine.taken?_of_reads {e : Engine} (reads : e.Reads) (front : Option Cell) :
    (e.step front).2.taken? = front := by
  obtain ⟨inside, address, width, fetched⟩ := reads
  rw [step_of_fetch_input inside fetched]
  cases front with
  | none => rfl
  | some value => exact store_taken? e width address value (some value)

namespace Machine

/-- A value that a step takes is all the input it looks at; what lies behind it stays in front of
what the step adds. -/
theorem absorb_hand (x : Machine) (effect : Effect) (rest : List Cell)
    (hand : x.pending = effect.taken?.toList) :
    (x.supply rest).absorb effect =
      ({ (x.absorb effect).1 with pending := rest ++ (x.absorb effect).1.pending },
        (x.absorb effect).2) := by
  cases effect with
  | halted | exhausted => simp [absorb, supply, report, hand, Effect.taken?]
  | failed fault taken => cases taken <;> simp [absorb, supply, hand, Effect.taken?]
  | _ => simp [absorb, supply, emit, hand, Effect.taken?]

theorem step_of_hand {x : Machine} (going : x.phase.isTerminal = false) (rest : List Cell)
    (same : x.engine.step (x.pending ++ rest).head? = x.engine.step x.pending.head?)
    (hand : x.pending = (x.engine.step x.pending.head?).2.taken?.toList) :
    (x.supply rest).step = ({ x.step.1 with pending := rest ++ x.step.1.pending }, x.step.2) := by
  rw [step_of_not_isTerminal going, step_of_not_isTerminal (x := x.supply rest) going]
  simp only [pending_supply]
  rw [show (x.supply rest).engine = x.engine from rfl, same]
  exact absorb_hand { x with engine := (x.engine.step x.pending.head?).1 } _ rest hand

end Machine

namespace Inbox

variable {b : Inbox}

/-- Polls the kept receiver, or a new one if there is none. -/
def receive (b : Inbox) : Inbox × Poll :=
  if b.receiver = .absent then b.wait.poll else b.poll

/-- The inbox is what some list of acts has made of a new one. -/
def Used (b : Inbox) : Prop := ∃ acts, b = ({} : Inbox).after acts

theorem Used.attended (used : b.Used) : b.Attended := by
  obtain ⟨acts, rfl⟩ := used
  exact attended_new.after acts

theorem Used.act (used : b.Used) (act : Act) : (b.act act).1.Used := by
  obtain ⟨acts, rfl⟩ := used
  exact ⟨acts ++ [act], by simp [after]⟩

theorem Used.pushes (used : b.Used) (values : List Cell) : (values.foldl push b).Used := by
  induction values generalizing b with
  | nil => exact used
  | cons value rest ih => exact ih (used.act (.push value))

theorem Used.receive (used : b.Used) : b.receive.1.Used := by
  unfold Inbox.receive
  split
  · exact (used.act .wait).act .poll
  · exact used.act .poll

theorem values_pushes (b : Inbox) (values : List Cell) :
    (values.foldl push b).values = b.values ++ values := by
  induction values generalizing b with
  | nil => simp
  | cons value rest ih => rw [List.foldl_cons, ih, push, values_supply]; simp

theorem receiver_pushes (absent : b.receiver = .absent) (values : List Cell) :
    (values.foldl push b).receiver = .absent := by
  induction values generalizing b with
  | nil => exact absent
  | cons value rest ih =>
    apply ih
    rw [push, receiver_supply, absent]
    rfl

theorem wait_of_absent (absent : b.receiver = .absent) :
    b.wait = { b with receiver := .created } := by
  simp [wait, drop, absent]

/-- What is taken does not depend on where the receiver stood. -/
theorem settle_take (b : Inbox) (receiver : Receiver) :
    settle { b with receiver }.take = settle b.take := by
  obtain ⟨values, permit, before⟩ := b
  cases values with
  | nil =>
    rw [take_of_nil (b := ⟨[], permit, receiver⟩) rfl, take_of_nil (b := ⟨[], permit, before⟩) rfl]
    rfl
  | cons value rest =>
    rw [take_of_cons (b := ⟨value :: rest, permit, receiver⟩) rfl,
      take_of_cons (b := ⟨value :: rest, permit, before⟩) rfl]
    rfl

/-- Kept or new, a receiver that does not wait looks at the values, and is then gone or waits. -/
theorem receive_of_unregistered (unregistered : b.receiver ≠ .registered) :
    b.receive = settle b.take := by
  rw [receive]
  cases state : b.receiver with
  | absent => rw [if_pos rfl, wait_of_absent state, poll_of_entering (.inl rfl), settle_take]
  | registered => exact absurd state unregistered
  | created | woken => rw [if_neg (by simp), poll_of_entering (by simp [state])]

theorem Attended.receive_of_nil (attended : b.Attended) (empty : b.values = []) :
    b.receive = ({ b with permit := false, receiver := .registered }, .pending) := by
  by_cases registered : b.receiver = .registered
  · obtain ⟨values, permit, receiver⟩ := b
    obtain rfl : receiver = .registered := registered
    obtain rfl : permit = false := (attended rfl).2
    rfl
  · rw [receive_of_unregistered registered, take_of_nil empty]
    rfl

theorem Attended.receive_of_cons (attended : b.Attended) {value : Cell} {rest : List Cell}
    (front : b.values = value :: rest) :
    b.receive = ({ b with values := rest, receiver := .absent }, .value value) := by
  have unregistered : b.receiver ≠ .registered := fun registered => by
    simp [(attended registered).1] at front
  rw [receive_of_unregistered unregistered, take_of_cons front]
  rfl

end Inbox

namespace Station

variable {s : Station}

def ofMachine (x : Machine) : Station := ⟨{ x with pending := [] }, ({} : Inbox).supply x.pending⟩

/-- The machine with the values of the inbox pending. -/
def view (s : Station) : Machine := { s.machine with pending := s.inbox.values }

def supply (s : Station) (values : List Cell) : Station :=
  { s with inbox := s.inbox.supply values }

/-- What the machine has put into its own input goes into the inbox, value by value. -/
def settle (inbox : Inbox) : Machine × Event → Station × Event
  | (x, event) => (⟨{ x with pending := [] }, x.pending.foldl Inbox.push inbox⟩, event)

def step (s : Station) : Station × Event :=
  match s.machine.step with
  | (x, .blocked) =>
    match s.inbox.receive with
    | (inbox, .value value) => settle inbox (x.supply [value]).step
    | (inbox, _) => (⟨x, inbox⟩, .blocked)
  | result => settle s.inbox result

def go : Nat → Station → Station × Answer
  | 0, s => (s, .unfinished)
  | fuel + 1, s =>
    match s.step with
    | (s, .blocked) => (s, .pending)
    | (s, .stopped) => (s, s.machine.answer)
    | (s, _) => go fuel s

/-- Between steps. A receiver that is kept belongs to the input instruction that the machine
stands at. -/
structure Sound (s : Station) : Prop where
  empty : s.machine.pending = []
  used : s.inbox.Used
  stands : s.inbox.receiver ≠ .absent → s.machine.phase.isTerminal = false ∧ s.machine.engine.Reads

theorem view_ofMachine (x : Machine) : (ofMachine x).view = x := by
  simp [view, ofMachine]

theorem absent_ofMachine (x : Machine) : (ofMachine x).inbox.receiver = .absent := by
  rw [ofMachine, Inbox.receiver_supply]
  rfl

theorem sound_ofMachine (x : Machine) : (ofMachine x).Sound where
  empty := rfl
  used := ⟨[.supply x.pending], rfl⟩
  stands kept := absurd (absent_ofMachine x) kept

theorem view_settle (inbox : Inbox) (result : Machine × Event) :
    (settle inbox result).1.view =
      { result.1 with pending := inbox.values ++ result.1.pending } := by
  obtain ⟨x, event⟩ := result
  simp [settle, view, Inbox.values_pushes]

@[simp] theorem event_settle (inbox : Inbox) (result : Machine × Event) :
    (settle inbox result).2 = result.2 := rfl

theorem inbox_settle (inbox : Inbox) (result : Machine × Event) :
    (settle inbox result).1.inbox = result.1.pending.foldl Inbox.push inbox := rfl

theorem Sound.view_eq_supply (sound : s.Sound) : s.view = s.machine.supply s.inbox.values := by
  simp [view, Machine.supply, sound.empty]

theorem sound_settle {inbox : Inbox} (used : inbox.Used) (absent : inbox.receiver = .absent)
    (result : Machine × Event) : (settle inbox result).1.Sound where
  empty := rfl
  used := used.pushes result.1.pending
  stands kept := absurd (Inbox.receiver_pushes absent result.1.pending) kept

/-- All that a step of a station can be. A machine that goes on without input leaves the inbox
alone; one that reads takes the front value, and if there is none its receiver stays. -/
theorem Sound.step_cases (sound : s.Sound) :
    (s.inbox.receiver = .absent ∧ s.machine.step.2 ≠ .blocked ∧
        (s.machine.phase.isTerminal = false → ¬s.machine.engine.Reads) ∧
        s.step = settle s.inbox s.machine.step) ∨
      s.machine.phase.isTerminal = false ∧ s.machine.engine.Reads ∧
        ((∃ value rest, s.inbox.values = value :: rest ∧
            s.step = settle { s.inbox with values := rest, receiver := .absent }
              (s.machine.supply [value]).step) ∨
          s.inbox.values = [] ∧
            s.step = (⟨s.machine, { s.inbox with permit := false, receiver := .registered }⟩,
              .blocked)) := by
  by_cases wants : s.machine.phase.isTerminal = false ∧ s.machine.engine.Reads
  · obtain ⟨going, reads⟩ := wants
    have blocked : s.machine.step = (s.machine, .blocked) :=
      Machine.step_of_awaits going ⟨reads, sound.empty⟩
    refine .inr ⟨going, reads, ?_⟩
    cases values : s.inbox.values with
    | nil =>
      refine .inr ⟨rfl, ?_⟩
      simp only [step, blocked, sound.used.attended.receive_of_nil values]
    | cons value rest =>
      refine .inl ⟨value, rest, rfl, ?_⟩
      simp only [step, blocked, sound.used.attended.receive_of_cons values]
  · have absent : s.inbox.receiver = .absent :=
      Classical.byContradiction fun kept => wants (sound.stands kept)
    have unblocked : s.machine.step.2 ≠ .blocked := by
      cases going : s.machine.phase.isTerminal with
      | true => rw [Machine.step_of_isTerminal going]; simp
      | false => exact (Machine.step_of_active ⟨going, fun awaits => wants ⟨going, awaits.1⟩⟩).1
    refine .inl ⟨absent, unblocked, fun going reads => wants ⟨going, reads⟩, ?_⟩
    rw [step]
    generalize s.machine.step = result at unblocked
    obtain ⟨x, event⟩ := result
    cases event with
    | blocked => exact absurd rfl unblocked
    | _ => rfl

/-- Whatever the receiver was doing, it does not wait after a value has come. -/
theorem unregistered_supply (s : Station) (value : Cell) :
    (s.supply [value]).inbox.receiver ≠ .registered := by
  rw [supply, Inbox.receiver_supply]
  split
  · simp
  · rename_i unwoken
    exact fun registered => unwoken ⟨registered, by simp⟩

theorem Sound.supply (sound : s.Sound) (values : List Cell) : (s.supply values).Sound where
  empty := sound.empty
  used := sound.used.act (.supply values)
  stands kept := by
    apply sound.stands
    intro absent
    rw [Station.supply, Inbox.receiver_supply, absent] at kept
    exact kept rfl

theorem Sound.drop (sound : s.Sound) (x : Machine) (empty : x.pending = []) :
    Sound ⟨x, s.inbox.drop⟩ where
  empty := empty
  used := sound.used.act .drop
  stands kept := absurd s.inbox.receiver_drop kept

theorem Sound.step (sound : s.Sound) : s.step.1.Sound := by
  have received := sound.used.receive
  rcases sound.step_cases with ⟨absent, -, -, stepped⟩ |
    ⟨going, reads, ⟨value, rest, front, stepped⟩ | ⟨none_left, stepped⟩⟩
  · rw [stepped]
    exact sound_settle sound.used absent s.machine.step
  · rw [sound.used.attended.receive_of_cons front] at received
    rw [stepped]
    exact sound_settle received rfl _
  · rw [sound.used.attended.receive_of_nil none_left] at received
    rw [stepped]
    exact ⟨sound.empty, received, fun _ => ⟨going, reads⟩⟩

/-- A step of a station is the step of the machine that it shows. -/
theorem Sound.view_step (sound : s.Sound) : (s.step.1.view, s.step.2) = s.view.step := by
  rw [sound.view_eq_supply]
  rcases sound.step_cases with ⟨-, -, unread, stepped⟩ |
    ⟨going, reads, ⟨value, rest, front, stepped⟩ | ⟨none_left, stepped⟩⟩
  · rw [stepped, view_settle, event_settle]
    cases going : s.machine.phase.isTerminal with
    | true =>
      rw [Machine.step_of_isTerminal going, Machine.step_of_isTerminal (by exact going)]
      simp [Machine.supply, sound.empty]
    | false =>
      have same (front : Option Cell) := Engine.step_of_not_reads (unread going) front
      rw [Machine.step_of_hand going s.inbox.values]
      · rw [(same _).1, (same s.machine.pending.head?).1]
      · rw [(same _).2.2, sound.empty]
        rfl
  · rw [stepped, view_settle, event_settle, front]
    have hand : (s.machine.supply [value]).pending = [value] := by
      rw [Machine.pending_supply, sound.empty, List.nil_append]
    have apart : s.machine.supply (value :: rest) = (s.machine.supply [value]).supply rest := by
      rw [Machine.supply_supply]
      rfl
    rw [apart, Machine.step_of_hand (x := s.machine.supply [value]) going rest]
    · rw [hand]
      rfl
    · rw [hand]
      exact congrArg Option.toList (Engine.taken?_of_reads reads (some value)).symm
  · rw [stepped, none_left, Machine.supply_nil, Machine.step_of_awaits going ⟨reads, sound.empty⟩]
    simp only [view, none_left, ← sound.empty]

/-- The receiver waits after exactly those steps that the machine was held up in. -/
theorem Sound.registered_iff (sound : s.Sound) :
    s.step.1.inbox.receiver = .registered ↔ s.step.2 = .blocked := by
  rcases sound.step_cases with ⟨absent, unblocked, -, stepped⟩ |
    ⟨going, reads, ⟨value, rest, front, stepped⟩ | ⟨none_left, stepped⟩⟩
  · have gone := Inbox.receiver_pushes absent s.machine.step.1.pending
    rw [stepped, event_settle, inbox_settle, gone]
    simp [unblocked]
  · have active : (s.machine.supply [value]).Active :=
      ⟨going, fun awaits => by simp [Machine.Awaits] at awaits⟩
    have gone := Inbox.receiver_pushes
      (b := { s.inbox with values := rest, receiver := .absent }) rfl
      (s.machine.supply [value]).step.1.pending
    rw [stepped, event_settle, inbox_settle, gone]
    simp [(Machine.step_of_active active).1]
  · rw [stepped]
    simp

theorem Sound.go (sound : s.Sound) (fuel : Nat) : (go fuel s).1.Sound := by
  induction fuel generalizing s with
  | zero => exact sound
  | succ fuel ih =>
    have next := sound.step
    rw [Station.go]
    generalize s.step = result at next ⊢
    obtain ⟨t, event⟩ := result
    cases event with
    | blocked | stopped => exact next
    | _ => exact ih next

theorem Sound.view_go (sound : s.Sound) (fuel : Nat) :
    ((Station.go fuel s).1.view, (Station.go fuel s).2) = Machine.go fuel s.view := by
  induction fuel generalizing s with
  | zero => rfl
  | succ fuel ih =>
    have next := sound.step
    rw [Station.go, Machine.go, ← sound.view_step]
    generalize s.step = result at next ⊢
    obtain ⟨t, event⟩ := result
    cases event with
    | blocked | stopped => rfl
    | _ => exact ih next

end Station

end TapeMachine
