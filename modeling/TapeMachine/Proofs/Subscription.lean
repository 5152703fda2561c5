import Mathlib.Data.List.Induction
import TapeMachine.Channel.Outlet

/-! An outlet keeps its stream, its subscribers and the calls made to them side by side. Whoever
comes and goes, the calls of one subscriber are the part of the stream that was emitted while it was
subscribed, and ids single it out because none is given twice. -/

namespace TapeMachine.Outlet

inductive Act where
  | subscribe (listener : Listener)
  | unsubscribe (id : Nat)
  | emit (value : Cell)
  deriving DecidableEq, Repr

namespace Act

def emitted : Act → List Cell
  | emit value => [value]
  | subscribe _ | unsubscribe _ => []

def isSubscribe : Act → Bool
  | subscribe _ => true
  | unsubscribe _ | emit _ => false

end Act

def act (o : Outlet) : Act → Outlet
  | .subscribe listener => (o.subscribe listener).1
  | .unsubscribe id => (o.unsubscribe id).1
  | .emit value => o.emit value

def after (o : Outlet) (acts : List Act) : Outlet := acts.foldl act o

/-- What the calls of one subscriber have told it: values, each with its index. -/
def log (o : Outlet) (id : Nat) : List (Cell × Nat) :=
  (o.calls.toList.filter (·.subscriber.id = id)).map fun call => (call.value, call.index)

def registrations (acts : List Act) : Nat := acts.countP Act.isSubscribe

/-- A subscription has been made, with the number of earlier ones for its id, and has not been
given up since. -/
def Held (acts : List Act) (s : Subscriber) : Prop :=
  ∃ before rest, acts = before ++ .subscribe s.listener :: rest ∧
    s.id = registrations before ∧ .unsubscribe s.id ∉ rest

/-- Ids in order of registration, all of them given out before; so are the ids of all calls. -/
structure Numbered (o : Outlet) : Prop where
  ordered : o.subscribers.Pairwise (·.id < ·.id)
  given : ∀ s ∈ o.subscribers, s.id < o.nextId
  called : ∀ call ∈ o.calls.toList, call.subscriber.id < o.nextId

variable {o : Outlet}

theorem after_cons (o : Outlet) (act : Act) (acts : List Act) :
    o.after (act :: acts) = (o.act act).after acts := rfl

theorem after_append (o : Outlet) (before rest : List Act) :
    o.after (before ++ rest) = (o.after before).after rest := List.foldl_append

theorem after_concat (o : Outlet) (acts : List Act) (act : Act) :
    o.after (acts ++ [act]) = (o.after acts).act act := by
  rw [after_append]
  rfl

theorem after_subscribe (o : Outlet) (before : List Act) (listener : Listener) (rest : List Act) :
    o.after (before ++ .subscribe listener :: rest) =
      ((o.after before).subscribe listener).1.after rest := after_append ..

theorem values_act (o : Outlet) (act : Act) :
    (o.act act).values.toList = o.values.toList ++ act.emitted := by
  cases act with
  | subscribe listener => simp [Outlet.act, subscribe, Act.emitted]
  | unsubscribe id => simp [Outlet.act, unsubscribe, Act.emitted]
  | emit value => simp [Outlet.act, Act.emitted]

/-- The stream is appended to and is not touched otherwise. -/
theorem values_after (o : Outlet) (acts : List Act) :
    (o.after acts).values.toList = o.values.toList ++ acts.flatMap Act.emitted := by
  induction acts generalizing o with
  | nil => simp [after]
  | cons act acts ih =>
    rw [after_cons, ih, values_act, List.append_assoc, List.flatMap_cons]

theorem length_after (o : Outlet) (acts : List Act) :
    (o.after acts).length = o.length + (acts.flatMap Act.emitted).length := by
  rw [length, ← Array.length_toList, values_after, List.length_append, Array.length_toList, length]

theorem registrations_append (before rest : List Act) :
    registrations (before ++ rest) = registrations before + registrations rest :=
  List.countP_append

theorem nextId_act (o : Outlet) (act : Act) :
    (o.act act).nextId = o.nextId + registrations [act] := by
  cases act <;> rfl

theorem nextId_after (o : Outlet) (acts : List Act) :
    (o.after acts).nextId = o.nextId + registrations acts := by
  induction acts generalizing o with
  | nil => rfl
  | cons act acts ih =>
    rw [after_cons, ih, nextId_act, Nat.add_assoc, ← registrations_append]
    rfl

/-- Subscriptions are numbered in the order in which they are made. -/
theorem nextId_new (acts : List Act) : (({} : Outlet).after acts).nextId = registrations acts := by
  rw [nextId_after, Nat.zero_add]

theorem toList_calls_emit (o : Outlet) (value : Cell) :
    (o.emit value).calls.toList = o.calls.toList ++
      o.subscribers.map (Call.mk · value o.values.size (o.values.size + 1)) := by
  simp

theorem numbered_new : ({} : Outlet).Numbered where
  ordered := .nil
  given := by simp
  called := by simp

theorem Numbered.act (numbered : o.Numbered) (act : Act) : (o.act act).Numbered := by
  obtain ⟨ordered, given, called⟩ := numbered
  cases act with
  | subscribe listener =>
    refine ⟨?_, ?_, ?_⟩
    · refine List.pairwise_append.mpr ⟨ordered, List.pairwise_singleton .., ?_⟩
      intro s member new latest
      rw [List.mem_singleton.mp latest]
      exact given s member
    · intro s member
      rcases List.mem_append.mp member with old | latest
      · exact Nat.lt_succ_of_lt (given s old)
      · rw [List.mem_singleton.mp latest]
        exact Nat.lt_succ_self _
    · exact fun call made => Nat.lt_succ_of_lt (called call made)
  | unsubscribe id =>
    exact ⟨ordered.filter _, fun s member => given s (List.mem_filter.mp member).1, called⟩
  | emit value =>
    refine ⟨ordered, given, fun call made => ?_⟩
    rw [Outlet.act, toList_calls_emit] at made
    rcases List.mem_append.mp made with earlier | now
    · exact called call earlier
    · obtain ⟨s, member, rfl⟩ := List.mem_map.mp now
      exact given s member

theorem Numbered.after (numbered : o.Numbered) (acts : List Act) : (o.after acts).Numbered := by
  induction acts generalizing o with
  | nil => exact numbered
  | cons act acts ih => exact ih (numbered.act act)

/-- No other subscriber has the id of one. -/
theorem Numbered.split (numbered : o.Numbered) {s : Subscriber} (member : s ∈ o.subscribers) :
    ∃ front back, o.subscribers = front ++ s :: back ∧ ∀ t ∈ front ++ back, t.id ≠ s.id := by
  obtain ⟨front, back, listed⟩ := List.append_of_mem member
  refine ⟨front, back, listed, fun t other => ?_⟩
  have ordered := numbered.ordered
  rw [listed] at ordered
  obtain ⟨-, behind, before⟩ := List.pairwise_append.mp ordered
  rcases List.mem_append.mp other with earlier | later
  · exact Nat.ne_of_lt (before t earlier s List.mem_cons_self)
  · exact (Nat.ne_of_lt ((List.pairwise_cons.mp behind).1 t later)).symm

/-- Giving up a subscription removes it alone and keeps the others in order. -/
theorem Numbered.unsubscribe (numbered : o.Numbered) {s : Subscriber}
    (member : s ∈ o.subscribers) :
    (o.unsubscribe s.id).2 = true ∧ ∃ front back, o.subscribers = front ++ s :: back ∧
      (o.unsubscribe s.id).1 = { o with subscribers := front ++ back } := by
  obtain ⟨front, back, listed, others⟩ := numbered.split member
  have kept : o.subscribers.filter (·.id != s.id) = front ++ back := by
    have all_kept : (front ++ back).filter (·.id != s.id) = front ++ back :=
      List.filter_eq_self.mpr fun t other => by simpa using others t other
    rw [List.filter_append] at all_kept
    simp [listed, List.filter_append, all_kept]
  refine ⟨?_, front, back, listed, ?_⟩
  · show ((o.subscribers.filter (·.id != s.id)).length != o.subscribers.length) = true
    rw [kept, listed]
    simp
  · simp only [Outlet.unsubscribe, kept]

theorem unsubscribe_of_absent {id : Nat} (absent : ∀ s ∈ o.subscribers, s.id ≠ id) :
    o.unsubscribe id = (o, false) := by
  have kept : o.subscribers.filter (·.id != id) = o.subscribers :=
    List.filter_eq_self.mpr fun s member => by simpa using absent s member
  simp [Outlet.unsubscribe, kept]

theorem log_emit_of_absent {id : Nat} (absent : ∀ s ∈ o.subscribers, s.id ≠ id) (value : Cell) :
    (o.emit value).log id = o.log id := by
  have nothing : (o.subscribers.map (Call.mk · value o.values.size (o.values.size + 1))).filter
      (·.subscriber.id = id) = [] := by
    simpa [List.filter_eq_nil_iff] using absent
  rw [log, toList_calls_emit, List.filter_append, nothing, List.append_nil, log]

/-- Each subscriber is called once for a value. -/
theorem Numbered.log_emit (numbered : o.Numbered) {s : Subscriber} (member : s ∈ o.subscribers)
    (value : Cell) : (o.emit value).log s.id = o.log s.id ++ [(value, o.length)] := by
  obtain ⟨front, back, listed, others⟩ := numbered.split member
  have once : (o.subscribers.map (Call.mk · value o.values.size (o.values.size + 1))).filter
      (·.subscriber.id = s.id) = [⟨s, value, o.values.size, o.values.size + 1⟩] := by
    have none_else : (front ++ back).filter (·.id = s.id) = [] :=
      List.filter_eq_nil_iff.mpr fun t other => by simpa using others t other
    rw [List.filter_append] at none_else
    obtain ⟨front_nil, back_nil⟩ := List.append_eq_nil_iff.mp none_else
    rw [List.filter_map, listed]
    simp [Function.comp_def, List.filter_append, front_nil, back_nil]
  rw [log, toList_calls_emit, List.filter_append, once, List.map_append, log]
  rfl

/-- A subscriber that is gone is not called again: its id is not given out a second time. -/
theorem log_after_of_absent {id : Nat} (absent : ∀ s ∈ o.subscribers, s.id ≠ id)
    (given : id < o.nextId) (acts : List Act) : (o.after acts).log id = o.log id := by
  induction acts generalizing o with
  | nil => rfl
  | cons act acts ih =>
    have first : (o.act act).log id = o.log id := by
      cases act with
      | emit value => exact log_emit_of_absent absent value
      | _ => rfl
    rw [← first]
    refine ih ?_ ?_
    · cases act with
      | subscribe listener =>
        intro s member
        rcases List.mem_append.mp member with old | latest
        · exact absent s old
        · rw [List.mem_singleton.mp latest]
          exact (Nat.ne_of_lt given).symm
      | unsubscribe other => exact fun s member => absent s (List.mem_filter.mp member).1
      | emit value => exact absent
    · rw [nextId_act]
      exact Nat.lt_add_right _ given

/-- A subscriber is told all that is emitted until its subscription is given up, and no more. -/
theorem Numbered.log_after (numbered : o.Numbered) {s : Subscriber} (member : s ∈ o.subscribers)
    (acts : List Act) :
    (o.after acts).log s.id = o.log s.id ++
      ((acts.takeWhile (· ≠ .unsubscribe s.id)).flatMap Act.emitted).zipIdx o.length := by
  induction acts generalizing o with
  | nil => simp [Outlet.after]
  | cons act acts ih =>
    by_cases ends : act = .unsubscribe s.id
    · -- Nothing that follows can call it, for its id is not given out again.
      subst ends
      have absent : ∀ t ∈ (o.unsubscribe s.id).1.subscribers, t.id ≠ s.id := fun t kept => by
        simpa using (List.mem_filter.mp kept).2
      have silent := log_after_of_absent absent (numbered.given s member) acts
      simp only [List.takeWhile_cons, ne_eq, not_true_eq_false, decide_false, Bool.false_eq_true,
        if_false, List.flatMap_nil, List.zipIdx_nil, List.append_nil]
      exact silent
    · have still : s ∈ (o.act act).subscribers := by
        cases act with
        | subscribe listener => exact List.mem_append_left _ member
        | unsubscribe id =>
          have other : s.id ≠ id := fun same => ends (by rw [same])
          exact List.mem_filter.mpr ⟨member, by simpa using other⟩
        | emit value => exact member
      rw [after_cons, ih (numbered.act act) still]
      rw [List.takeWhile_cons_of_pos (by simpa using ends), List.flatMap_cons, List.zipIdx_append]
      cases act with
      | emit value =>
        rw [Outlet.act, numbered.log_emit member, List.append_assoc]
        simp [Act.emitted, length]
      | _ => rfl

/-- Calls are added at the end, each for a value that comes after those of the stream so far. -/
theorem calls_after (o : Outlet) (acts : List Act) :
    ∃ later, (o.after acts).calls.toList = o.calls.toList ++ later ∧
      ∀ call ∈ later, o.length ≤ call.index := by
  induction acts generalizing o with
  | nil => exact ⟨[], by simp [after], by simp⟩
  | cons act acts ih =>
    obtain ⟨later, calls, behind⟩ := ih (o.act act)
    rw [after_cons, calls]
    have grown : o.length ≤ (o.act act).length := by
      have step := length_after o [act]
      rw [after_cons] at step
      exact step ▸ Nat.le_add_right ..
    have later_behind : ∀ call ∈ later, o.length ≤ call.index := fun call made =>
      Nat.le_trans grown (behind call made)
    cases act with
    | emit value =>
      refine ⟨_, by rw [Outlet.act, toList_calls_emit, List.append_assoc], ?_⟩
      intro call made
      rcases List.mem_append.mp made with now | afterwards
      · obtain ⟨s, -, rfl⟩ := List.mem_map.mp now
        exact Nat.le_refl _
      · exact later_behind call afterwards
    | _ => exact ⟨later, rfl, later_behind⟩

/-- Each call was made when its value had just become the last of the stream. -/
def Prompt (o : Outlet) : Prop :=
  ∀ call ∈ o.calls.toList, call.length = call.index + 1 ∧ o.values[call.index]? = some call.value

theorem Prompt.after (prompt : o.Prompt) (acts : List Act) : (o.after acts).Prompt := by
  induction acts generalizing o with
  | nil => exact prompt
  | cons act acts ih =>
    refine ih ?_
    cases act with
    | emit value =>
      intro call made
      rw [Outlet.act, toList_calls_emit] at made
      rw [Outlet.act, values_emit, Array.getElem?_push]
      rcases List.mem_append.mp made with earlier | now
      · obtain ⟨length, found⟩ := prompt call earlier
        have inside := (Array.getElem?_eq_some_iff.mp found).1
        rw [if_neg (Nat.ne_of_lt inside)]
        exact ⟨length, found⟩
      · obtain ⟨s, -, rfl⟩ := List.mem_map.mp now
        exact ⟨rfl, by rw [if_pos rfl]⟩
    | _ => exact prompt

theorem append_singleton_eq_iff {acts before rest : List Act} {act one : Act} :
    acts ++ [act] = before ++ one :: rest ↔
      (before = acts ∧ one = act ∧ rest = []) ∨
        ∃ inner, rest = inner ++ [act] ∧ acts = before ++ one :: inner := by
  constructor
  · intro split
    rcases List.eq_nil_or_concat rest with rfl | ⟨inner, last, rfl⟩
    · obtain ⟨rfl, same⟩ := List.append_inj' split rfl
      exact .inl ⟨rfl, (List.cons.inj same).1.symm, rfl⟩
    · rw [List.concat_eq_append, ← List.cons_append, ← List.append_assoc] at split
      obtain ⟨rfl, same⟩ := List.append_inj' split rfl
      exact .inr ⟨inner, by rw [List.concat_eq_append, (List.cons.inj same).1], rfl⟩
  · rintro (⟨rfl, rfl, rfl⟩ | ⟨inner, rfl, rfl⟩)
    · rfl
    · simp

theorem held_concat_iff (acts : List Act) (act : Act) (s : Subscriber) :
    Held (acts ++ [act]) s ↔ (Held acts s ∧ act ≠ .unsubscribe s.id) ∨
      (act = .subscribe s.listener ∧ s.id = registrations acts) := by
  constructor
  · rintro ⟨before, rest, split, id, kept⟩
    rcases append_singleton_eq_iff.mp split with ⟨rfl, rfl, rfl⟩ | ⟨inner, rfl, rfl⟩
    · exact .inr ⟨rfl, id⟩
    · rw [List.mem_append, List.mem_singleton, not_or] at kept
      exact .inl ⟨⟨before, inner, rfl, id, kept.1⟩, Ne.symm kept.2⟩
  · rintro (⟨⟨before, rest, rfl, id, kept⟩, other⟩ | ⟨rfl, id⟩)
    · refine ⟨before, rest ++ [act], by simp, id, ?_⟩
      rw [List.mem_append, List.mem_singleton, not_or]
      exact ⟨kept, Ne.symm other⟩
    · exact ⟨acts, [], rfl, id, List.not_mem_nil⟩

/-- The subscribers of an outlet are the subscriptions that are held. -/
theorem mem_subscribers_after_iff (acts : List Act) (s : Subscriber) :
    s ∈ (({} : Outlet).after acts).subscribers ↔ Held acts s := by
  induction acts using List.reverseRecOn with
  | nil => simp [after, Held]
  | append_singleton acts act ih =>
    rw [after_concat, held_concat_iff, ← ih]
    cases act with
    | subscribe listener =>
      simp only [Outlet.act, subscribe, List.mem_append, List.mem_singleton, nextId_new]
      cases s
      simp [and_comm, eq_comm]
    | unsubscribe id =>
      have other : id = s.id ↔ s.id = id := eq_comm
      simp [Outlet.act, unsubscribe, other]
    | emit value =>
      rw [Outlet.act, subscribers_emit]
      simp

/-- What a new subscription is told from then on. -/
theorem Numbered.log_subscribe (numbered : o.Numbered) (listener : Listener) (acts : List Act) :
    ((o.subscribe listener).1.after acts).log o.nextId =
      ((acts.takeWhile (· ≠ .unsubscribe o.nextId)).flatMap Act.emitted).zipIdx o.length := by
  have unheard : (o.subscribe listener).1.log o.nextId = [] := by
    have none_made : o.calls.toList.filter (·.subscriber.id = o.nextId) = [] := by
      apply List.filter_eq_nil_iff.mpr
      intro call made
      simpa using Nat.ne_of_lt (numbered.called call made)
    rw [log, show (o.subscribe listener).1.calls = o.calls from rfl, none_made, List.map_nil]
  have member : (⟨o.nextId, listener⟩ : Subscriber) ∈ (o.subscribe listener).1.subscribers :=
    List.mem_append_right _ List.mem_cons_self
  have told := (numbered.act (.subscribe listener)).log_after member acts
  rw [show o.act (.subscribe listener) = (o.subscribe listener).1 from rfl, unheard,
    List.nil_append] at told
  exact told

/-- The stream while a subscription is held, numbered from where the stream stood before. -/
theorem slice_after (o : Outlet) (during ended : List Act) :
    ((o.after (during ++ ended)).values.toList.zipIdx.drop o.length).take
        ((o.after during).length - o.length) =
      (during.flatMap Act.emitted).zipIdx o.length := by
  rw [values_after, List.flatMap_append, ← List.append_assoc, List.zipIdx_append,
    List.zipIdx_append, List.append_assoc, length_after, Nat.add_sub_cancel_left]
  rw [List.drop_left' (by simp [length]), List.take_left' (by simp)]
  simp [length]

/-- Whoever comes and goes, a subscriber has been told the part of the stream that was emitted while
it was subscribed, in order and each value with its index, at the moment when the value had become
the last. A value goes to the subscriptions that are held, once to each and in their order, before
the next value. No id is given twice, and giving up a subscription removes it alone. The stream is
what was emitted. -/
theorem log_eq_slice (acts : List Act) :
    let new : Outlet := {}
    let o := new.after acts
    (∀ before listener rest, acts = before ++ .subscribe listener :: rest →
      let id := ((new.after before).subscribe listener).2
      let during := rest.takeWhile (· ≠ .unsubscribe id)
      let start := (new.after before).length
      let stop := (new.after (before ++ .subscribe listener :: during)).length
      o.log id = (o.values.toList.zipIdx.drop start).take (stop - start)) ∧
    (∀ call ∈ o.calls.toList,
      call.length = call.index + 1 ∧ o.values[call.index]? = some call.value) ∧
    (∀ before value rest, acts = before ++ .emit value :: rest →
      let called := (new.after before).subscribers
      let index := (new.after before).length
      called.Pairwise (·.id < ·.id) ∧ (∀ s, s ∈ called ↔ Held before s) ∧
      ∃ later, o.calls.toList = (new.after before).calls.toList ++
          called.map (⟨·, value, index, index + 1⟩) ++ later ∧
        ∀ call ∈ later, index < call.index) ∧
    (∀ before first between second rest,
      acts = before ++ .subscribe first :: (between ++ .subscribe second :: rest) →
      ((new.after before).subscribe first).2 <
        ((new.after (before ++ .subscribe first :: between)).subscribe second).2) ∧
    (∀ before id rest, acts = before ++ .unsubscribe id :: rest →
      let held := new.after before
      (∀ s, Held before s → s.id = id → (held.unsubscribe id).2 = true ∧
        ∃ front back, held.subscribers = front ++ s :: back ∧
          (held.unsubscribe id).1 = { held with subscribers := front ++ back }) ∧
      ((∀ s, Held before s → s.id ≠ id) → held.unsubscribe id = (held, false))) ∧
    ∀ before rest, acts = before ++ rest →
      o.values.toList = (new.after before).values.toList ++ rest.flatMap Act.emitted := by
  intro new o
  have numbered (before : List Act) : (new.after before).Numbered := numbered_new.after before
  have prompt : o.Prompt := Prompt.after (o := new) (fun call made => nomatch made) acts
  refine ⟨?_, prompt, ?_, ?_, ?_, ?_⟩
  · rintro before listener rest rfl id during start stop
    have told := (numbered before).log_subscribe listener rest
    have slice := slice_after ((new.after before).subscribe listener).1 during
      (rest.dropWhile (· ≠ .unsubscribe id))
    rw [List.takeWhile_append_dropWhile] at slice
    have whole : o = ((new.after before).subscribe listener).1.after rest := after_subscribe ..
    have stop_eq : stop = (((new.after before).subscribe listener).1.after during).length := by
      rw [← after_subscribe]
    rw [whole, stop_eq]
    exact told.trans slice.symm
  · rintro before value rest rfl called index
    have whole : o = ((new.after before).emit value).after rest := after_append ..
    obtain ⟨later, calls, behind⟩ := calls_after ((new.after before).emit value) rest
    refine ⟨(numbered before).ordered, mem_subscribers_after_iff before, later, ?_, ?_⟩
    · rw [whole, calls, toList_calls_emit]
      rfl
    · intro call made
      have beyond := behind call made
      rwa [length, values_emit, Array.size_push] at beyond
  · rintro before first between second rest rfl
    have ids (before : List Act) (listener : Listener) :
        ((new.after before).subscribe listener).2 = registrations before := nextId_new before
    have one_more : registrations (.subscribe first :: between) = registrations between + 1 :=
      List.countP_cons_of_pos rfl
    rw [ids, ids, registrations_append, one_more]
    omega
  · rintro before id rest rfl held
    constructor
    · rintro s subscribed rfl
      exact (numbered before).unsubscribe ((mem_subscribers_after_iff before s).mpr subscribed)
    · intro absent
      exact unsubscribe_of_absent fun s member =>
        absent s ((mem_subscribers_after_iff before s).mp member)
  · rintro before rest rfl
    rw [show o = (new.after before).after rest from after_append .., values_after]

/-- Two subscriptions that overlap, and a third that is made when the first has been given up. -/
theorem log_eq_slice_overlap :
    let new : Outlet := {}
    let acts : List Act := [.subscribe .loop, .emit 5, .subscribe (.record "b"), .emit 6,
      .unsubscribe 0, .emit 7, .subscribe .loop, .emit 8, .unsubscribe 1, .emit 9]
    let o := new.after acts
    (o.log 0 = [(5, 0), (6, 1)] ∧ o.log 1 = [(6, 1), (7, 2), (8, 3)] ∧
      o.log 2 = [(8, 3), (9, 4)]) ∧
    (∃ later, o.calls.toList = (new.after (acts.take 7)).calls.toList ++
      [⟨⟨1, .record "b"⟩, 8, 3, 4⟩, ⟨⟨2, .loop⟩, 8, 3, 4⟩] ++ later) ∧
    ((new.after (acts.take 4)).unsubscribe 0).2 = true ∧
    o.values.toList = [5, 6, 7, 8, 9] := by
  intro new acts o
  obtain ⟨slice, -, called, -, given_up, stream⟩ := log_eq_slice acts
  refine ⟨⟨?_, ?_, ?_⟩, ?_, ?_, ?_⟩
  · exact (slice [] .loop _ rfl).trans (by decide)
  · exact (slice (acts.take 2) (.record "b") _ rfl).trans (by decide)
  · exact (slice (acts.take 6) .loop _ rfl).trans (by decide)
  · obtain ⟨-, -, later, calls, -⟩ := called (acts.take 7) 8 _ rfl
    exact ⟨later, calls⟩
  · have held : Held (acts.take 4) ⟨0, .loop⟩ :=
      ⟨[], [.emit 5, .subscribe (.record "b"), .emit 6], rfl, rfl, by decide⟩
    exact ((given_up (acts.take 4) 0 _ rfl).1 _ held rfl).1
  · exact stream [] acts rfl

end TapeMachine.Outlet
