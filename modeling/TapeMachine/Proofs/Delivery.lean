import TapeMachine.Channel.Inbox

/-! The values of an inbox and the permit that signals them are kept apart and drift apart: a permit
outlives its value, and a receiver is woken for a value that somebody else takes. Whatever is done
with an inbox, each value is still handed out once and in order, and a receiver waits only while
there is nothing for it. -/

namespace TapeMachine

def Poll.value? : Poll → Option Cell
  | value v => some v
  | _ => none

namespace Inbox

/-- What is done with an inbox. `take` stands for a receiver that is polled once and given up, the
last three acts are about the kept one. -/
inductive Act where
  | supply (values : List Cell)
  | push (value : Cell)
  | tryTake
  | take
  | wait
  | poll
  | drop
  deriving DecidableEq, Repr

namespace Act

def supplied : Act → List Cell
  | supply values => values
  | push value => [value]
  | tryTake | take | wait | poll | drop => []

/-- The act does nothing with the kept receiver itself. -/
def isAside : Act → Bool
  | supply _ | push _ | tryTake | take => true
  | wait | poll | drop => false

end Act

def act (b : Inbox) : Act → Inbox × Option Cell
  | .supply values => (b.supply values, none)
  | .push value => (b.push value, none)
  | .tryTake => b.tryTake
  | .take => b.take
  | .wait => (b.wait, none)
  | .poll => (b.poll.1, b.poll.2.value?)
  | .drop => (b.drop, none)

def after (b : Inbox) (acts : List Act) : Inbox := acts.foldl (fun b act => (b.act act).1) b

def obtained (b : Inbox) : List Act → List Cell
  | [] => []
  | act :: acts => (b.act act).2.toList ++ (b.act act).1.obtained acts

/-- A receiver goes round its loop a number of times: each time it takes the front value, or finds
none and uses up a permit, or finds neither. -/
inductive Rounds : Inbox → Nat → Inbox × Option Cell → Prop where
  | found {b next : Inbox} {value : Cell} : b.tryTake = (next, some value) →
      Rounds b 1 (next, some value)
  | again {b : Inbox} {n : Nat} {result : Inbox × Option Cell} : b.tryTake.2 = none →
      b.permit = true → Rounds { b with permit := false } n result → Rounds b (n + 1) result
  | gaveUp {b : Inbox} : b.tryTake.2 = none → b.permit = false → Rounds b 1 (b, none)

def settle : Inbox × Option Cell → Inbox × Poll
  | (b, some value) => ({ b with receiver := .absent }, .value value)
  | (b, none) => ({ b with receiver := .registered }, .pending)

/-- A poll of the kept receiver, with the rounds that it takes. One that waits unwoken goes on
waiting; a new one and a woken one enter the loop. -/
inductive Polled : Inbox → Nat → Inbox × Poll → Prop where
  | waiting {b : Inbox} : b.receiver = .registered → Polled b 0 (b, .pending)
  | entered {b : Inbox} {n : Nat} {result : Inbox × Option Cell} :
      b.receiver = .created ∨ b.receiver = .woken → Rounds b n result → Polled b n (settle result)

variable {b : Inbox}

theorem after_cons (b : Inbox) (act : Act) (acts : List Act) :
    b.after (act :: acts) = (b.act act).1.after acts := rfl

@[simp] theorem values_notify (b : Inbox) : b.notify.values = b.values := by
  unfold notify
  split <;> rfl

@[simp] theorem values_drop (b : Inbox) : b.drop.values = b.values := by
  unfold drop
  split <;> simp

theorem receiver_drop (b : Inbox) : b.drop.receiver = .absent := by
  unfold drop
  split <;> rfl

@[simp] theorem values_supply (b : Inbox) (values : List Cell) :
    (b.supply values).values = b.values ++ values := by
  unfold supply
  split
  · rename_i empty
    rw [empty, List.append_nil]
  · simp

theorem receiver_supply (b : Inbox) (values : List Cell) :
    (b.supply values).receiver =
      if b.receiver = .registered ∧ values ≠ [] then .woken else b.receiver := by
  unfold supply notify
  by_cases empty : values = []
  · simp [empty]
  · cases b.receiver <;> simp [empty]

theorem tryTake_of_nil (empty : b.values = []) : b.tryTake = (b, none) := by
  rw [tryTake, empty]

theorem tryTake_of_cons {value : Cell} {rest : List Cell} (front : b.values = value :: rest) :
    b.tryTake = ({ b with values := rest }, some value) := by
  rw [tryTake, front]

theorem tryTake_answer (b : Inbox) : b.tryTake.2 = b.values.head? := by
  cases values : b.values with
  | nil => rw [tryTake_of_nil values]; rfl
  | cons value rest => rw [tryTake_of_cons values]; rfl

/-- A receiver that finds nothing leaves no permit behind. -/
theorem take_of_nil (empty : b.values = []) : b.take = ({ b with permit := false }, none) := by
  have unsignalled {b : Inbox} (empty : b.values = []) (unsent : b.permit = false) :
      b.take = (b, none) := by
    rw [take, tryTake_of_nil empty]
    simp only [unsent, Bool.false_eq_true, if_false]
  cases permit : b.permit with
  | false =>
    rw [unsignalled empty permit, ← permit]
  | true =>
    -- The permit is stale: the second look finds as little, and there is no other permit.
    rw [take, tryTake_of_nil empty]
    simp only [permit, if_true]
    exact unsignalled empty rfl

theorem take_of_cons {value : Cell} {rest : List Cell} (front : b.values = value :: rest) :
    b.take = ({ b with values := rest }, some value) := by
  rw [take, tryTake_of_cons front]

theorem take_answer (b : Inbox) : b.take.2 = b.values.head? := by
  cases values : b.values with
  | nil => rw [take_of_nil values]; rfl
  | cons value rest => rw [take_of_cons values]; rfl

theorem take_balance (b : Inbox) : b.take.2.toList ++ b.take.1.values = b.values := by
  cases values : b.values with
  | nil => rw [take_of_nil values]; exact values
  | cons value rest => rw [take_of_cons values]; rfl

theorem receiver_take (b : Inbox) : b.take.1.receiver = b.receiver := by
  cases values : b.values with
  | nil => rw [take_of_nil values]
  | cons value rest => rw [take_of_cons values]

theorem poll_of_entering (entering : b.receiver = .created ∨ b.receiver = .woken) :
    b.poll = settle b.take := by
  rcases found : b.take with ⟨next, _ | value⟩ <;>
    rcases entering with entering | entering <;>
    simp only [poll, entering, found, settle]

@[simp] theorem values_settle (result : Inbox × Option Cell) :
    (settle result).1.values = result.1.values := by
  rcases result with ⟨b, _ | value⟩ <;> rfl

@[simp] theorem value?_settle (result : Inbox × Option Cell) :
    (settle result).2.value? = result.2 := by
  rcases result with ⟨b, _ | value⟩ <;> rfl

theorem poll_of_registered (waits : b.receiver = .registered) : b.poll = (b, .pending) := by
  rw [poll, waits]

/-- The loop ends, after one round or two, and always in the same way. -/
theorem rounds_iff (n : Nat) (result : Inbox × Option Cell) :
    Rounds b n result ↔
      n = (if b.values = [] ∧ b.permit = true then 2 else 1) ∧ result = b.take := by
  constructor
  · intro rounds
    induction rounds with
    | @found b next value found =>
      have occupied : b.values ≠ [] := by
        intro empty
        rw [tryTake_of_nil empty] at found
        cases found
      rw [if_neg fun stale => occupied stale.1, take, found]
      exact ⟨rfl, rfl⟩
    | @again b n result missed stale _ ih =>
      have empty : b.values = [] := by rwa [tryTake_answer, List.head?_eq_none_iff] at missed
      have after_stale : ({ b with permit := false } : Inbox).take = b.take := by
        rw [take_of_nil empty, take_of_nil (b := { b with permit := false }) empty]
      rw [if_pos ⟨empty, stale⟩, ih.1, ih.2, after_stale, if_neg (by simp)]
      exact ⟨rfl, rfl⟩
    | @gaveUp b missed unsent =>
      have empty : b.values = [] := by rwa [tryTake_answer, List.head?_eq_none_iff] at missed
      rw [if_neg (by simp [unsent]), take_of_nil empty, ← unsent]
      exact ⟨rfl, rfl⟩
  · rintro ⟨rfl, rfl⟩
    cases values : b.values with
    | cons value rest =>
      rw [if_neg (by simp), take_of_cons values]
      exact .found (tryTake_of_cons values)
    | nil =>
      have missed : b.tryTake.2 = none := by rw [tryTake_of_nil values]
      have second : Rounds { b with permit := false } 1 ({ b with permit := false }, none) :=
        .gaveUp (by rw [tryTake_of_nil (b := { b with permit := false }) values]) rfl
      rw [take_of_nil values]
      cases permit : b.permit with
      | false =>
        have unchanged : { b with permit := false } = b := by rw [← permit]
        rw [unchanged] at second ⊢
        simpa using second
      | true => simpa using Rounds.again missed permit second

/-- A poll of the kept receiver ends, after at most two rounds, and always in the same way. -/
theorem polled_iff (kept : b.receiver ≠ .absent) :
    ∃ rounds ≤ 2, ∀ n result, Polled b n result ↔ n = rounds ∧ result = b.poll := by
  by_cases waits : b.receiver = .registered
  · refine ⟨0, by omega, fun n result => ?_⟩
    rw [poll_of_registered waits]
    constructor
    · rintro (_ | ⟨entering | entering, -⟩)
      · exact ⟨rfl, rfl⟩
      · rw [waits] at entering; cases entering
      · rw [waits] at entering; cases entering
    · rintro ⟨rfl, rfl⟩
      exact .waiting waits
  · have entering : b.receiver = .created ∨ b.receiver = .woken := by
      cases state : b.receiver <;> simp_all
    refine ⟨if b.values = [] ∧ b.permit = true then 2 else 1, by split <;> omega, ?_⟩
    intro n result
    rw [poll_of_entering entering]
    constructor
    · rintro (registered | ⟨-, rounds⟩)
      · exact absurd registered waits
      · obtain ⟨rfl, rfl⟩ := (rounds_iff ..).mp rounds
        exact ⟨rfl, rfl⟩
    · rintro ⟨rfl, rfl⟩
      exact .entered entering ((rounds_iff ..).mpr ⟨rfl, rfl⟩)

/-- An act adds its values at the back, and what a receiver obtains comes from the front. -/
theorem act_balance (b : Inbox) (act : Act) :
    (b.act act).2.toList ++ (b.act act).1.values = b.values ++ act.supplied := by
  cases act with
  | supply values => simp [Inbox.act, Act.supplied]
  | push value => simp [Inbox.act, Act.supplied, Inbox.push]
  | tryTake =>
    cases values : b.values with
    | nil => simp [Inbox.act, Act.supplied, tryTake_of_nil, values]
    | cons value rest => simp [Inbox.act, Act.supplied, tryTake_of_cons values]
  | take => rw [Inbox.act, take_balance, Act.supplied, List.append_nil]
  | wait => simp [Inbox.act, Act.supplied, Inbox.wait]
  | drop => simp [Inbox.act, Act.supplied]
  | poll =>
    rw [Act.supplied, List.append_nil]
    cases state : b.receiver with
    | absent => simp [Inbox.act, poll, state, Poll.value?]
    | registered => simp [Inbox.act, poll_of_registered state, Poll.value?]
    | created | woken =>
      rw [Inbox.act, poll_of_entering (by simp [state]), values_settle, value?_settle]
      exact take_balance b

theorem obtained_append_values (b : Inbox) (acts : List Act) :
    b.obtained acts ++ (b.after acts).values = b.values ++ acts.flatMap Act.supplied := by
  induction acts generalizing b with
  | nil => simp [obtained, after]
  | cons act acts ih =>
    rw [obtained, after_cons, List.append_assoc, ih, ← List.append_assoc, act_balance,
      List.flatMap_cons, List.append_assoc]

/-- A receiver is left waiting only if there is nothing for it, not even a permit. -/
def Attended (b : Inbox) : Prop := b.receiver = .registered → b.values = [] ∧ b.permit = false

theorem Attended.supply (attended : b.Attended) (values : List Cell) :
    (b.supply values).Attended := by
  intro registered
  rw [receiver_supply] at registered
  by_cases empty : values = []
  · rw [Inbox.supply, if_pos empty]
    exact attended (by simpa [empty] using registered)
  · split at registered
    · cases registered
    · rename_i unwoken
      exact absurd ⟨registered, empty⟩ unwoken

theorem Attended.act (attended : b.Attended) (act : Act) : (b.act act).1.Attended := by
  cases act with
  | supply values => exact attended.supply values
  | push value => exact attended.supply [value]
  | tryTake =>
    cases values : b.values with
    | nil =>
      rw [Inbox.act, tryTake_of_nil values]
      exact attended
    | cons value rest =>
      rw [Inbox.act, tryTake_of_cons values]
      intro registered
      rw [(attended registered).1] at values
      cases values
  | take =>
    intro registered
    rw [Inbox.act, receiver_take] at registered
    rw [Inbox.act, take_of_nil (attended registered).1]
    exact ⟨(attended registered).1, rfl⟩
  | wait => exact fun registered => nomatch registered
  | drop =>
    intro registered
    rw [Inbox.act, Inbox.drop] at registered
    split at registered <;> cases registered
  | poll =>
    cases state : b.receiver with
    | absent =>
      rw [Inbox.act, poll, state]
      exact attended
    | registered =>
      rw [Inbox.act, poll_of_registered state]
      exact attended
    | created | woken =>
      rw [Inbox.act, poll_of_entering (by simp [state])]
      cases values : b.values with
      | nil =>
        rw [take_of_nil values]
        exact fun _ => ⟨values, rfl⟩
      | cons value rest =>
        rw [take_of_cons values]
        exact fun registered => nomatch registered

theorem Attended.after (attended : b.Attended) (acts : List Act) : (b.after acts).Attended := by
  induction acts generalizing b with
  | nil => exact attended
  | cons act acts ih => exact ih (attended.act act)

theorem attended_new : ({} : Inbox).Attended := fun registered => nomatch registered

/-- A kept receiver that is polled gets the front value, and waits only if there is none. -/
theorem Attended.poll (attended : b.Attended) (kept : b.receiver ≠ .absent) :
    b.poll.2 = b.values.head?.elim .pending .value := by
  cases state : b.receiver with
  | absent => exact absurd state kept
  | registered =>
    rw [poll_of_registered state, (attended state).1]
    rfl
  | created | woken =>
    rw [poll_of_entering (by simp [state])]
    cases values : b.values with
    | nil => rw [take_of_nil values]; rfl
    | cons value rest => rw [take_of_cons values]; rfl

theorem receiver_act (b : Inbox) {act : Act} (aside : act.isAside) :
    (b.act act).1.receiver =
      if b.receiver = .registered ∧ act.supplied ≠ [] then .woken else b.receiver := by
  cases act with
  | supply values => exact receiver_supply b values
  | push value => exact receiver_supply b [value]
  | tryTake =>
    cases values : b.values with
    | nil => simp [Inbox.act, tryTake_of_nil values, Act.supplied]
    | cons value rest => simp [Inbox.act, tryTake_of_cons values, Act.supplied]
  | take => simp [Inbox.act, receiver_take, Act.supplied]
  | wait | poll | drop => cases aside

theorem receiver_after_of_woken (woken : b.receiver = .woken) {acts : List Act}
    (aside : ∀ act ∈ acts, act.isAside) : (b.after acts).receiver = .woken := by
  induction acts generalizing b with
  | nil => exact woken
  | cons act acts ih =>
    obtain ⟨first, later⟩ := List.forall_mem_cons.mp aside
    refine ih (b := (b.act act).1) ?_ later
    rw [receiver_act b first, woken]
    simp

/-- A receiver that waits is woken by the first value to come, and stays so. -/
theorem receiver_after (waits : b.receiver = .registered) {acts : List Act}
    (aside : ∀ act ∈ acts, act.isAside) :
    (b.after acts).receiver =
      if acts.flatMap Act.supplied = [] then .registered else .woken := by
  induction acts generalizing b with
  | nil => simpa [after] using waits
  | cons act acts ih =>
    obtain ⟨first, later⟩ := List.forall_mem_cons.mp aside
    have changed := receiver_act b first
    rw [after_cons, List.flatMap_cons]
    by_cases nothing : act.supplied = []
    · rw [nothing, List.nil_append]
      exact ih (b := (b.act act).1) (by rw [changed, waits]; simp [nothing]) later
    · rw [if_neg (by simp [nothing])]
      exact receiver_after_of_woken (by rw [changed, waits]; simp [nothing]) later

theorem registered_of_pending (pending : b.poll.2 = .pending) :
    b.poll.1.receiver = .registered := by
  cases state : b.receiver with
  | absent =>
    rw [poll, state] at pending
    cases pending
  | registered =>
    rw [poll_of_registered state]
    exact state
  | created | woken =>
    have entering : b.receiver = .created ∨ b.receiver = .woken := by simp [state]
    rw [poll_of_entering entering] at pending ⊢
    generalize b.take = result at pending ⊢
    rcases result with ⟨next, _ | value⟩
    · rfl
    · cases pending

end Inbox

end TapeMachine
