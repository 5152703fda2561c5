import TapeMachine.Proofs.Wiring

/-! Along every schedule, the values that a node has taken and those it still has are the ones it
had and the ones sent to it, in the order in which they were sent along each edge. -/

namespace TapeMachine

/-- `merged` takes all values of the streams, each stream from its front. -/
inductive Merges {α : Type} : List (List α) → List α → Prop where
  | nil {streams : List (List α)} : (∀ stream ∈ streams, stream = []) → Merges streams []
  | cons {streams : List (List α)} {k : Nat} {value : α} {rest merged : List α} :
      streams[k]? = some (value :: rest) → Merges (streams.set k rest) merged →
      Merges streams (value :: merged)

namespace Merges

variable {α β : Type}

theorem single {stream merged : List α} (merges : Merges [stream] merged) : merged = stream := by
  generalize streams_eq : [stream] = streams at merges
  induction merges generalizing stream with
  | nil empty =>
    subst streams_eq
    exact (empty stream List.mem_cons_self).symm
  | @cons streams k value rest merged front _ ih =>
    subst streams_eq
    obtain ⟨inside, same⟩ := List.getElem?_eq_some_iff.mp front
    simp only [List.length_singleton] at inside
    obtain rfl : k = 0 := by omega
    simp only [List.getElem_cons_zero] at same
    have tail : merged = rest := ih (by simp)
    rw [tail, same]

/-- The same value put in front of some of the streams goes in front of the merge, once for each. -/
theorem prepend {f : β → List α} (p : β → Bool) (value : α) (front : List (List α)) {xs : List β}
    {merged : List α} (merges : Merges (front ++ xs.map f) merged) :
    Merges (front ++ xs.map fun x => if p x then value :: f x else f x)
      (List.replicate (xs.countP p) value ++ merged) := by
  induction xs generalizing front with
  | nil => simpa using merges
  | cons x xs ih =>
    have rest := ih (front ++ [f x]) (by simpa using merges)
    rw [List.append_assoc, List.singleton_append] at rest
    cases holds : p x with
    | false => simpa [holds] using rest
    | true =>
      rw [List.countP_cons_of_pos holds, List.replicate_succ]
      have first : (front ++ (x :: xs).map fun x => if p x then value :: f x else f x)[front.length]? =
          some (value :: f x) := by simp [holds]
      refine .cons first ?_
      simpa [holds] using rest

end Merges

namespace Circuit

def pending (c : Circuit) (i : Nat) : List Cell := (c.nodes[i]?.map (·.pending)).getD []

def output (c : Circuit) (i : Nat) : List Cell :=
  (c.nodes[i]?.map (·.outlet.values.toList)).getD []

def taken (steps : List (Nat × Event)) (d : Nat) : List Cell :=
  steps.flatMap fun step => if step.1 = d then step.2.taken else []

def emitted (steps : List (Nat × Event)) (s : Nat) : List Cell :=
  steps.flatMap fun step => if step.1 = s then step.2.output else []

theorem taken_cons (i : Nat) (event : Event) (steps : List (Nat × Event)) (d : Nat) :
    taken ((i, event) :: steps) d = (if i = d then event.taken else []) ++ taken steps d := by
  simp [taken]

theorem emitted_cons (i : Nat) (event : Event) (steps : List (Nat × Event)) (s : Nat) :
    emitted ((i, event) :: steps) s = (if i = s then event.output else []) ++ emitted steps s := by
  simp [emitted]

def received (c : Circuit) (d : Nat) : List Nat → List Cell
  | [] => []
  | i :: schedule => c.arrivals i d ++ (c.advance i).1.received d schedule

theorem taken_append_pending_advance {c : Circuit} (wired : c.Wired) (i d : Nat) (node : d < c.size) :
    (if i = d then (c.advance i).2.taken else []) ++ (c.advance i).1.pending d =
      c.pending d ++ c.arrivals i d := by
  have found : c.nodes[d]? = some c.nodes[d] := List.getElem?_eq_getElem node
  simp only [pending, nodes_advance, found, Option.map_some, Option.getD_some,
    Machine.pending_supply, ← List.append_assoc]
  by_cases same : i = d
  · subst same
    simp only [if_true, event_advance found]
    rw [Machine.taken_append_pending_step _ (wired.quiet i _ found)]
  · simp [same, Ne.symm same]

theorem output_advance (c : Circuit) (i s : Nat) :
    (c.advance i).1.output s = c.output s ++ if i = s then (c.advance i).2.output else [] := by
  cases node : c.nodes[s]? with
  | none =>
    by_cases same : i = s
    · subst same
      simp [output, nodes_advance, node, event_advance_of_none node, Event.output]
    · simp [output, nodes_advance, node, same]
  | some x =>
    simp only [output, nodes_advance, node, Option.map_some, Option.getD_some,
      Machine.outlet_supply]
    by_cases same : i = s
    · subst same
      simp only [if_true, event_advance node, Machine.values_step]
    · simp [same, Ne.symm same]

theorem taken_append_pending {c : Circuit} (wired : c.Wired) (schedule : List Nat) (d : Nat)
    (node : d < c.size) :
    taken (c.trace schedule) d ++ (c.execute schedule).pending d =
      c.pending d ++ c.received d schedule := by
  induction schedule generalizing c with
  | nil => simp [taken, trace, execute, received]
  | cons i rest ih =>
    have first := taken_append_pending_advance wired i d node
    have later := ih (wired.advance i) (by rw [size_advance]; exact node)
    rw [trace, taken_cons, execute, received]
    rw [List.append_assoc, later, ← List.append_assoc, first, List.append_assoc]

theorem output_execute (c : Circuit) (schedule : List Nat) (s : Nat) :
    (c.execute schedule).output s = c.output s ++ emitted (c.trace schedule) s := by
  induction schedule generalizing c with
  | nil => simp [emitted, trace, execute]
  | cons i rest ih =>
    rw [execute, trace, emitted_cons, ih, output_advance, List.append_assoc]

theorem incoming_advance (c : Circuit) (i d : Nat) : (c.advance i).1.incoming d = c.incoming d := by
  rw [incoming, edges_advance, ← incoming]

theorem incoming_execute (c : Circuit) (schedule : List Nat) (d : Nat) :
    (c.execute schedule).incoming d = c.incoming d := by
  induction schedule generalizing c with
  | nil => rfl
  | cons i rest ih => exact (ih _).trans (incoming_advance c i d)

/-- What arrives at a node merges one stream for each edge that leads there. -/
theorem merges_received {c : Circuit} (wired : c.Wired) (schedule : List Nat) (d : Nat) :
    Merges ((c.incoming d).map fun edge => emitted (c.trace schedule) edge.1)
      (c.received d schedule) := by
  induction schedule generalizing c with
  | nil => exact .nil (by simp [emitted, trace])
  | cons i rest ih =>
    have later := ih (wired.advance i)
    rw [incoming_advance] at later
    simp only [received, trace, emitted_cons, arrivals_eq wired]
    cases (c.advance i).2 with
    | emitted value =>
      have merges := Merges.prepend (fun edge => edge.1 = i) value [] later
      have streams (edge : Nat × Nat) (tail : List Cell) :
          (if i = edge.1 then (Event.emitted value).output else []) ++ tail =
            if decide (edge.1 = i) = true then value :: tail else tail := by
        by_cases same : edge.1 = i
        · simp [same, Event.output]
        · simp [same, Ne.symm same]
      simp only [streams]
      simpa [Event.output] using merges
    | _ => simpa [Event.output] using later

theorem taken_of_stopped {c : Circuit} {d : Nat} (stopped : c.Stopped d) (schedule : List Nat) :
    taken (c.trace schedule) d = [] := by
  induction schedule generalizing c with
  | nil => rfl
  | cons i rest ih =>
    have later := ih (stopped_advance stopped i)
    rw [trace, taken_cons, later]
    obtain ⟨x, node, done⟩ := stopped
    by_cases same : i = d
    · subst same
      simp [event_advance node, Machine.step_of_isTerminal done, Event.taken]
    · simp [same]

@[simp] theorem pending_start (c : Circuit) (d : Nat) : c.start.pending d = c.pending d := by
  cases node : c.nodes[d]? <;> simp [pending, start, node, Machine.start]

@[simp] theorem output_start (c : Circuit) (d : Nat) : c.start.output d = c.output d := by
  cases node : c.nodes[d]? <;> simp [output, start, node, Machine.start]

/-- Nothing is lost, doubled or put out of order between the nodes, in whatever order they step:
what a node took and still has is what it had at the start, followed by a merge of what the source
of each incoming edge has emitted since. What is sent to a node that has stopped stays there. A
circuit that is put together by its requests is wired, and stays so whoever else listens. -/
theorem conservation (c : Circuit) (wiring : c.Wired) (schedule : List Nat) (d : Nat)
    (node : d < c.size) :
    let steps := c.start.trace schedule
    let reached := c.start.execute schedule
    (∀ s, reached.output s = c.output s ++ emitted steps s) ∧
    (∃ merged, Merges ((c.incoming d).map fun edge => emitted steps edge.1) merged ∧
      taken steps d ++ reached.pending d = c.pending d ++ merged) ∧
    (∀ s, c.incoming d = [(s, d)] →
      taken steps d ++ reached.pending d = c.pending d ++ emitted steps s) ∧
    (reached.Stopped d → ∀ later, ∃ merged,
      Merges ((c.incoming d).map fun edge => emitted (reached.trace later) edge.1) merged ∧
      taken (reached.trace later) d = [] ∧
      (reached.execute later).pending d = reached.pending d ++ merged) := by
  intro steps reached
  have wired : c.start.Wired := wiring.start
  have inside : d < c.start.size := by simpa [size, start] using node
  have balance := taken_append_pending wired schedule d inside
  rw [pending_start] at balance
  have merges := merges_received wired schedule d
  refine ⟨fun s => ?_, ⟨_, merges, balance⟩, fun s single => ?_, fun stopped later => ?_⟩
  · rw [output_execute, output_start]
  · have streams : c.start.incoming d = [(s, d)] := single
    rw [streams] at merges
    rw [balance, merges.single]
  · have size_eq : d < reached.size := by
      obtain ⟨x, found, -⟩ := stopped
      exact (List.getElem?_eq_some_iff.mp found).1
    have after := wired.execute schedule
    have held := taken_append_pending after later d size_eq
    have merged := merges_received after later d
    rw [incoming_execute] at merged
    have nothing := taken_of_stopped stopped later
    rw [nothing, List.nil_append] at held
    exact ⟨_, merged, nothing, held⟩

/-- Two edges from the first node and one from the second lead to the third, which takes one value
and halts. What the first emits is recorded as well. -/
theorem conservation_parallel :
    let first := Machine.create ⟨[104, 5, 104, 6, 99]⟩ {}
    let second := Machine.create ⟨[104, 7, 99]⟩ {}
    let last := Machine.create ⟨[3, 0, 99]⟩ {}
    let nodes := ((({} : Circuit).add first).add second).add last
    let one := (nodes.connect 0 2).toOption.getD {}
    let two := (one.connect 1 2).toOption.getD {}
    let three := (two.connect 0 2).toOption.getD {}
    let c := { three with nodes := three.nodes.modify 0 fun x => (x.subscribe (.record "log")).1 }
    let steps := c.start.trace [0, 1, 2, 0, 2]
    let reached := c.start.execute [0, 1, 2, 0, 2]
    (three.Assembled ∧ c.Wired ∧ 2 < c.size ∧ reached.Stopped 2) ∧
    (taken steps 2 = [5] ∧ reached.pending 2 = [5, 7, 6, 6]) ∧
    (∃ merged, Merges [emitted steps 0, emitted steps 1, emitted steps 0] merged ∧
      taken steps 2 ++ reached.pending 2 = c.pending 2 ++ merged) ∧
    ∀ later, taken (reached.trace later) 2 = [] := by
  intro first second last nodes one two three c steps reached
  have built : three.Assembled :=
    .connect (.connect (.connect (.add (.add (.add .empty rfl rfl) rfl rfl) rfl rfl)
      (rfl : nodes.connect 0 2 = Except.ok one)) (rfl : one.connect 1 2 = Except.ok two))
      (rfl : two.connect 0 2 = Except.ok three)
  have wired : c.Wired := by
    refine built.wired.modify 0 (fun x => ?_) fun x => ?_
    · simp [Machine.subscribe, Outlet.subscribe, Outlet.targets]
    · simp [Machine.subscribe, Outlet.subscribe, Outlet.loops]
  have node : 2 < c.size := by decide
  have stopped : reached.Stopped 2 := by decide +kernel
  obtain ⟨-, merge, -, rest⟩ := conservation c wired [0, 1, 2, 0, 2] 2 node
  refine ⟨⟨built, wired, node, stopped⟩, ⟨by decide +kernel, by decide +kernel⟩, merge, fun later => ?_⟩
  obtain ⟨-, -, nothing, -⟩ := rest stopped later
  exact nothing

end Circuit

end TapeMachine
