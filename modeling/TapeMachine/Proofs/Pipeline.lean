import TapeMachine.Proofs.Bank
import TapeMachine.Proofs.Readiness
import TapeMachine.Proofs.Suspension

/-! The agenda lets the front node run until it stops or has to wait. In a chain nothing ever comes
back to it, so each amplifier has all its input when its turn comes, and a chain comes to what its
amplifiers come to when each is run alone on all that the one before it has emitted. -/

namespace TapeMachine

namespace Machine

def bare (x : Machine) : Machine := { x with outlet := { values := x.outlet.values } }

theorem absorb_bare {x : Machine} (quiet : x.outlet.loops = 0) (effect : Effect) :
    x.bare.absorb effect = ((x.absorb effect).1.bare, (x.absorb effect).2) := by
  cases effect with
  | emitted value =>
    simp only [absorb, emit, quiet]
    simp [bare, Outlet.emit, Outlet.loops]
  | failed fault taken => cases taken <;> rfl
  | _ => rfl

/-- Who listens to a machine makes no difference to its steps. -/
theorem step_bare {x : Machine} (quiet : x.outlet.loops = 0) :
    x.bare.step = (x.step.1.bare, x.step.2) := by
  cases going : x.phase.isTerminal with
  | true => rw [step_of_isTerminal going, step_of_isTerminal (x := x.bare) going]
  | false =>
    rw [step_of_not_isTerminal going, step_of_not_isTerminal (x := x.bare) going]
    exact absorb_bare (x := { x with engine := (x.engine.step x.pending.head?).1 }) quiet _

theorem go_bare {x : Machine} (quiet : x.outlet.loops = 0) (fuel : Nat) :
    go fuel x.bare = ((go fuel x).1.bare, (go fuel x).2) := by
  induction fuel generalizing x with
  | zero => rfl
  | succ fuel ih =>
    by_cases active : x.Active
    · rw [go_of_active active, go_of_active (x := x.bare) active, step_bare quiet]
      exact ih (by rw [loops_step, quiet])
    · rw [go_of_not_active active, go_of_not_active (x := x.bare) active]
      rfl

@[simp] theorem loops_forwardTo (x : Machine) (targets : List Nat) :
    (x.forwardTo targets).outlet.loops = x.outlet.loops := by
  induction targets generalizing x with
  | nil => rfl
  | cons target rest ih =>
    refine (ih (x.subscribe (.forward target)).1).trans ?_
    exact Circuit.loops_subscribe_forward x.outlet target

@[simp] theorem targets_forwardTo (x : Machine) (targets : List Nat) :
    (x.forwardTo targets).outlet.targets = x.outlet.targets ++ targets := by
  induction targets generalizing x with
  | nil => simp
  | cons target rest ih =>
    refine (ih (x.subscribe (.forward target)).1).trans ?_
    simp [subscribe]

@[simp] theorem bare_forwardTo (x : Machine) (targets : List Nat) :
    (x.forwardTo targets).bare = x.bare := by
  induction targets generalizing x with
  | nil => rfl
  | cons target rest ih => exact ih (x.subscribe (.forward target)).1

end Machine

def Answer.fault? : Answer → Option Fault
  | failed fault => some fault
  | _ => none

namespace Circuit

/-- The circuit after the node at `i` has become `y` and sent `emitted` to each of `targets`. -/
structure Handed (i : Nat) (y : Machine) (targets : List Nat) (emitted : List Cell) (c d : Circuit) :
    Prop where
  size : d.size = c.size
  self : d.nodes[i]? = some y
  others : ∀ j, j ≠ i → d.nodes[j]? =
    c.nodes[j]?.map (·.supply (emitted.flatMap (List.replicate (targets.count j))))

theorem Handed.of_not_mem {i j : Nat} {y : Machine} {targets : List Nat} {emitted : List Cell}
    {c d : Circuit} (handed : Handed i y targets emitted c d) (different : j ≠ i)
    (missed : j ∉ targets) : d.nodes[j]? = c.nodes[j]? := by
  have nothing : emitted.flatMap (List.replicate 0) = [] :=
    List.flatMap_eq_nil_iff.mpr fun value _ => rfl
  rw [handed.others j different, List.count_eq_zero_of_not_mem missed, nothing]
  simp

end Circuit

namespace Agenda

variable {c : Circuit} {i : Nat} {rest waiting : List Nat} {x : Machine}

theorem foldl_wake_of_disjoint {a : Agenda} {targets : List Nat}
    (awake : ∀ target ∈ targets, target ∉ a.waiting) : targets.foldl wake a = a := by
  induction targets with
  | nil => rfl
  | cons target rest ih =>
    have same : a.wake target = a := if_neg (awake target List.mem_cons_self)
    rw [List.foldl_cons, same]
    exact ih fun later member => awake later (List.mem_cons_of_mem target member)

/-- What is left of a run once its front node has come to an answer. -/
def afterFront (more : Nat) (c : Circuit) (i : Nat) (rest waiting : List Nat) :
    Answer → Agenda × Verdict
  | .failed fault => (⟨c, i :: rest, waiting⟩, .failed fault)
  | .pending => go more ⟨c, rest, waiting ++ [i]⟩
  | _ => go more ⟨c, rest, waiting⟩

theorem afterFront_of_unfailed {answer : Answer} (unfailed : answer.fault? = none) (more : Nat)
    (c : Circuit) (i : Nat) (rest waiting : List Nat) :
    afterFront more c i rest waiting answer =
      go more ⟨c, rest, if answer = .pending then waiting ++ [i] else waiting⟩ := by
  cases answer with
  | failed fault => cases unfailed
  | _ => rfl

theorem go_of_not_active (node : c.nodes[i]? = some x) (idle : ¬x.Active) (more : Nat) :
    go (more + 1) ⟨c, i :: rest, waiting⟩ = afterFront more c i rest waiting x.answer := by
  cases going : x.phase.isTerminal with
  | false =>
    have awaits : x.Awaits := Classical.byContradiction fun fed => idle ⟨going, fed⟩
    rw [go, turn_of_awaits node going awaits, (x.answer_eq_pending_iff).mpr going]
    rfl
  | true =>
    cases failed : x.phase.fault? with
    | none =>
      have unfailed : c.fault? i = none := by rw [Circuit.fault?, node, Option.bind_some, failed]
      rw [go, turn_of_stopped node going unfailed, Machine.answer]
      cases phase : x.phase <;>
        simp_all [Phase.isTerminal, Phase.result?, Phase.fault?, afterFront]
    | some fault =>
      rw [go, turn_of_failed node failed, Machine.answer]
      cases phase : x.phase <;> simp_all [Phase.result?, Phase.fault?, afterFront]

theorem turn_of_disjoint (node : c.nodes[i]? = some x) (active : x.Active)
    (awake : ∀ target ∈ x.outlet.targets, target ∉ waiting) :
    turn ⟨c, i :: rest, waiting⟩ = (⟨(c.advance i).1, i :: rest, waiting⟩, none) := by
  have able : c.CanAdvance i := (Circuit.canAdvance_iff_active node).mpr active
  rw [turn_of_canAdvance able, foldl_wake_of_disjoint]
  intro target member
  obtain ⟨value, -, reached⟩ := List.mem_flatMap.mp member
  apply awake target
  simpa [Circuit.targets, Circuit.nodes_advance, node] using reached

/-- The front node runs as it would alone, if nothing it emits comes back to it or wakes another. -/
theorem go_front {fuel : Nat} (node : c.nodes[i]? = some x) (quiet : x.outlet.loops = 0)
    (onward : i ∉ x.outlet.targets) (awake : ∀ target ∈ x.outlet.targets, target ∉ waiting)
    (ended : (Machine.go fuel x).2 ≠ .unfinished) :
    ∃ turns d emitted, Circuit.Handed i (Machine.go fuel x).1 x.outlet.targets emitted c d ∧
      (Machine.go fuel x).1.outlet.values.toList = x.outlet.values.toList ++ emitted ∧
      ∀ more, go (more + turns) ⟨c, i :: rest, waiting⟩ =
        afterFront more d i rest waiting (Machine.go fuel x).2 := by
  induction fuel generalizing c x with
  | zero => exact absurd rfl ended
  | succ fuel ih =>
    by_cases active : x.Active
    · rw [Machine.go_of_active active] at ended ⊢
      have sent (j : Nat) : c.arrivals i j =
          x.step.2.output.flatMap (List.replicate (x.outlet.targets.count j)) := by
        simp only [Circuit.arrivals, node]
      have next : (c.advance i).1.nodes[i]? = some x.step.1 := by
        have nothing : c.arrivals i i = [] := by
          rw [sent, List.count_eq_zero_of_not_mem onward, List.flatMap_eq_nil_iff]
          exact fun value _ => rfl
        rw [Circuit.nodes_advance, node, nothing]
        simp
      rw [← Machine.targets_step x] at onward awake
      obtain ⟨turns, d, emitted, handed, values, later⟩ :=
        ih next (by rw [Machine.loops_step, quiet]) onward awake ended
      rw [Machine.targets_step] at handed awake
      refine ⟨turns + 1, d, x.step.2.output ++ emitted, ⟨?_, handed.self, ?_⟩, ?_, fun more => ?_⟩
      · rw [handed.size, Circuit.size_advance]
      · intro j different
        rw [handed.others j different, Circuit.nodes_advance, Option.map_map, sent]
        apply Option.map_congr
        intro z _
        simp [different]
      · rw [values, Machine.values_step, List.append_assoc]
      · rw [show more + (turns + 1) = more + turns + 1 by omega, go,
          turn_of_disjoint node active awake]
        exact later more
    · rw [Machine.go_of_not_active active]
      refine ⟨1, c, [], ⟨rfl, node, ?_⟩, (List.append_nil _).symm, go_of_not_active node active⟩
      intro j _
      simp

end Agenda

namespace Amplifiers

/-- What each amplifier comes to when it is run alone on its phase and the signals before it, the
first one being number `i`. -/
def pipeline (fuel : Nat) (program : Program) : Nat → List Cell → List Cell → List (Machine × Answer)
  | _, [], _ => []
  | i, phase :: phases, signals =>
    let result := ((amplifier program {} i).supply (phase :: signals)).run fuel
    result :: pipeline fuel program (i + 1) phases result.1.outlet.values.toList

/-- What a chain answers: the first fault, or a deadlock if an amplifier has to wait, or else the
last signal. -/
def conclude (results : List (Machine × Answer)) : Outcome Cell :=
  match results.findSome? (·.2.fault?) with
  | some fault => .failed (.fault fault)
  | none =>
    if ∃ result ∈ results, result.2 = .pending then .deadlock
    else
      match results.getLast?.bind (·.1.outlet.last?) with
      | some value => .done value
      | none => .failed (.noOutput (results.length - 1))

def link (program : Program) (n i : Nat) (input : List Cell) : Machine :=
  (((amplifier program {} i).forwardTo (successors n .chain i)).supply input).start

variable {program : Program} {fuel n : Nat}

theorem loops_link (i : Nat) (input : List Cell) : (link program n i input).outlet.loops = 0 :=
  Machine.loops_forwardTo (amplifier program {} i) (successors n .chain i)

theorem run_amplifier (n i : Nat) (input : List Cell) :
    ((amplifier program {} i).supply input).run fuel =
      ((Machine.go fuel (link program n i input)).1.bare,
        (Machine.go fuel (link program n i input)).2) := by
  have plain : ((amplifier program {} i).supply input).start = (link program n i input).bare := by
    have same := Machine.bare_forwardTo (amplifier program {} i) (successors n .chain i)
    calc ((amplifier program {} i).supply input).start
      _ = ((amplifier program {} i).bare.supply input).start := rfl
      _ = (link program n i input).bare := by rw [← same]; rfl
  rw [Machine.run, plain, Machine.go_bare (loops_link i input)]

theorem link_supply (i : Nat) (input more : List Cell) :
    (link program n i input).supply more = link program n i (input ++ more) := by
  simp only [link, ← Machine.start_supply, Machine.supply_supply]

theorem targets_link (i : Nat) (input : List Cell) :
    (link program n i input).outlet.targets = if i + 1 < n then [i + 1] else [] := by
  simp only [link, Machine.start, Machine.outlet_supply, Machine.targets_forwardTo, successors]
  rfl

/-- The verdict of an agenda in which `waiting` wait already, given what the rest comes to. -/
def verdict (waiting : List Nat) (results : List (Machine × Answer)) : Verdict :=
  match results.findSome? (·.2.fault?) with
  | some fault => .failed fault
  | none =>
    if waiting = [] ∧ ∀ result ∈ results, result.2 ≠ .pending then .completed else .deadlocked

theorem verdict_cons {answer : Answer} (unfailed : answer.fault? = none) (waiting : List Nat)
    (i : Nat) (x : Machine) (results : List (Machine × Answer)) :
    verdict waiting ((x, answer) :: results) =
      verdict (if answer = .pending then waiting ++ [i] else waiting) results := by
  have same : (waiting = [] ∧ ∀ result ∈ (x, answer) :: results, result.2 ≠ .pending) ↔
      (if answer = .pending then waiting ++ [i] else waiting) = [] ∧
        ∀ result ∈ results, result.2 ≠ .pending := by
    by_cases waits : answer = .pending <;> simp [waits]
  simp only [verdict, List.findSome?_cons, unfailed, same]

@[simp] theorem values_link (i : Nat) (input : List Cell) :
    (link program n i input).outlet.values = #[] :=
  congrArg (·.outlet.values)
    (Machine.bare_forwardTo (amplifier program {} i) (successors n .chain i))

/-- The nodes of a chain from `k` on stand as at the start, but that the first of them has also got
`signals`. -/
structure Untouched (program : Program) (n k : Nat) (phases signals : List Cell) (c : Circuit) :
    Prop where
  size : c.size = n
  total : k + phases.length = n
  front : ∀ phase ∈ phases.head?, c.nodes[k]? = some (link program n k (phase :: signals))
  later : ∀ j phase, 0 < j → phases[j]? = some phase →
    c.nodes[k + j]? = some (link program n (k + j) [phase])

theorem Untouched.next {k : Nat} {phase : Cell} {phases signals emitted : List Cell} {y : Machine}
    {c d : Circuit} (untouched : Untouched program n k (phase :: phases) signals c)
    (handed : Circuit.Handed k y (if k + 1 < n then [k + 1] else []) emitted c d) :
    Untouched program n (k + 1) phases emitted d := by
  have total : k + (phases.length + 1) = n := untouched.total
  refine ⟨handed.size.trans untouched.size, by omega, fun first member => ?_, ?_⟩
  · obtain ⟨rest, rfl⟩ := List.head?_eq_some_iff.mp member
    have inside : k + 1 < n := by simp only [List.length_cons] at total; omega
    have node := untouched.later 1 first (by omega) rfl
    have once : emitted.flatMap (List.replicate 1) = emitted := List.flatMap_singleton' emitted
    rw [handed.others (k + 1) (by omega), node, if_pos inside, List.count_singleton_self, once,
      Option.map_some, link_supply]
    rfl
  · intro j later positive found
    have missed : k + (j + 1) ∉ if k + 1 < n then [k + 1] else [] := by
      split <;> simp
      omega
    rw [show k + 1 + j = k + (j + 1) by omega, handed.of_not_mem (by omega) missed]
    exact untouched.later (j + 1) later (by omega) found

/-- When its turn comes, an amplifier of a chain runs as it would alone, and the next one is left
with all its input. -/
theorem go_link {k : Nat} {phase : Cell} {phases signals : List Cell} {c : Circuit}
    {waiting : List Nat} (untouched : Untouched program n k (phase :: phases) signals c)
    (behind : ∀ i ∈ waiting, i < k) {result : Machine × Answer}
    (alone : ((amplifier program {} k).supply (phase :: signals)).run fuel = result)
    (ended : result.2 ≠ .unfinished) :
    ∃ turns d, Untouched program n (k + 1) phases result.1.outlet.values.toList d ∧
      (∀ j, j < k → d.nodes[j]? = c.nodes[j]?) ∧
      d.nodes[k]?.map (·.outlet.values) = some result.1.outlet.values ∧
      ∀ more, Agenda.go (more + turns) ⟨c, List.range' k (phases.length + 1), waiting⟩ =
        Agenda.afterFront more d k (List.range' (k + 1) phases.length) waiting result.2 := by
  rw [run_amplifier n] at alone
  subst alone
  have node := untouched.front phase rfl
  have ahead : ∀ target ∈ (link program n k (phase :: signals)).outlet.targets, k < target := by
    rw [targets_link]
    intro target member
    split at member
    · rw [List.mem_singleton.mp member]
      exact Nat.lt_succ_self k
    · cases member
  obtain ⟨turns, d, emitted, handed, values, front⟩ :=
    Agenda.go_front node (loops_link k (phase :: signals))
      (fun back => Nat.lt_irrefl k (ahead k back))
      (fun target member waits => Nat.lt_asymm (ahead target member) (behind target waits)) ended
  have emitted_eq : emitted =
      (Machine.go fuel (link program n k (phase :: signals))).1.outlet.values.toList := by
    rw [values, values_link]
    rfl
  rw [targets_link, emitted_eq] at handed
  refine ⟨turns, d, untouched.next handed, fun j small => ?_, ?_, front⟩
  · apply handed.of_not_mem (by omega)
    split <;> simp
    omega
  · rw [handed.self]
    rfl

/-- The agenda of a chain takes the amplifiers one after another, each to its end. -/
theorem go_chain {k : Nat} {phases signals : List Cell} {c : Circuit} {waiting : List Nat}
    (untouched : Untouched program n k phases signals c) (behind : ∀ i ∈ waiting, i < k)
    (ended : ∀ result ∈ pipeline fuel program k phases signals, result.2 ≠ .unfinished) :
    let results := pipeline fuel program k phases signals
    ∃ turns a, (∀ more, Agenda.go (more + turns) ⟨c, List.range' k phases.length, waiting⟩ =
        (a, verdict waiting results)) ∧
      (results.findSome? (·.2.fault?) = none →
        (∀ j, j < k → a.circuit.nodes[j]? = c.nodes[j]?) ∧
        ∀ j result, results[j]? = some result →
          a.circuit.nodes[k + j]?.map (·.outlet.values) = some result.1.outlet.values) := by
  induction phases generalizing k signals c waiting with
  | nil =>
    refine ⟨1, ⟨c, [], waiting⟩, fun more => ?_, fun _ => ⟨fun j _ => rfl, by simp [pipeline]⟩⟩
    by_cases none_wait : waiting = [] <;>
      simp [Agenda.go, Agenda.turn, verdict, pipeline, none_wait]
  | cons phase phases ih =>
    obtain ⟨result, alone⟩ : ∃ result,
      ((amplifier program {} k).supply (phase :: signals)).run fuel = result := ⟨_, rfl⟩
    simp only [pipeline, alone] at ended ⊢
    obtain ⟨turns, d, after, before, self, front⟩ :=
      go_link untouched behind alone (ended result List.mem_cons_self)
    rw [List.length_cons]
    cases failed : result.2.fault? with
    | some fault =>
      refine ⟨turns, ⟨d, k :: List.range' (k + 1) phases.length, waiting⟩, fun more => ?_, ?_⟩
      · rw [front more, verdict, List.findSome?_cons, failed]
        cases answer : result.2 <;> simp_all [Agenda.afterFront, Answer.fault?]
      · simp [failed]
    | none =>
      have behind_next : ∀ i ∈ (if result.2 = .pending then waiting ++ [k] else waiting),
          i < k + 1 := by
        intro i member
        split at member
        · rcases List.mem_append.mp member with earlier | now
          · exact Nat.lt_succ_of_lt (behind i earlier)
          · rw [List.mem_singleton.mp now]
            exact Nat.lt_succ_self k
        · exact Nat.lt_succ_of_lt (behind i member)
      obtain ⟨later, a, rest, nodes⟩ := ih after behind_next
        fun result member => ended result (List.mem_cons_of_mem _ member)
      refine ⟨later + turns, a, fun more => ?_, fun unfailed => ?_⟩
      · rw [← Nat.add_assoc, front, Agenda.afterFront_of_unfailed failed, rest,
          ← verdict_cons failed]
      · rw [List.findSome?_cons, failed] at unfailed
        obtain ⟨kept, listed⟩ := nodes unfailed
        refine ⟨fun j small => ?_, fun j other found => ?_⟩
        · rw [kept j (by omega), before j small]
        · cases j with
          | zero =>
            obtain rfl := Option.some.inj found
            rw [Nat.add_zero, kept k (Nat.lt_succ_self k), self]
          | succ j =>
            rw [show k + (j + 1) = k + 1 + j by omega]
            exact listed j other found

theorem length_pipeline (fuel : Nat) (program : Program) (k : Nat) (phases signals : List Cell) :
    (pipeline fuel program k phases signals).length = phases.length := by
  induction phases generalizing k signals with
  | nil => rfl
  | cons phase phases ih => simp [pipeline, ih]

def reply (nodes : List Machine) (i : Nat) : Verdict → Outcome Cell
  | .completed => Circuit.signalOf nodes i
  | .deadlocked => .deadlock
  | .failed fault => .failed (.fault fault)
  | .unfinished => .unfinished

theorem signal_of_run {c final : Circuit} {turns : Nat} {verdict : Verdict} (inhabited : 0 < c.size)
    (no_tap : c.tap = none) (run : c.run turns = (final, verdict)) :
    (c.signal turns).2 = reply final.nodes (c.size - 1) verdict := by
  have some_nodes : c.nodes ≠ [] := List.ne_nil_of_length_pos inhabited
  have last : c.signalNode = c.size - 1 := by rw [Circuit.signalNode, no_tap]; rfl
  simp only [Circuit.signal, if_neg some_nodes, Circuit.finish, run, last]
  cases verdict <;> rfl

theorem reply_verdict {nodes : List Machine} {results : List (Machine × Answer)}
    (same : results.findSome? (·.2.fault?) = none →
      nodes[results.length - 1]?.bind (·.outlet.last?) =
        results.getLast?.bind (·.1.outlet.last?)) :
    reply nodes (results.length - 1) (verdict [] results) = conclude results := by
  unfold verdict conclude
  cases failed : results.findSome? (·.2.fault?) with
  | some fault => rfl
  | none =>
    by_cases waits : ∃ result ∈ results, result.2 = .pending
    · have stuck : ¬([] = ([] : List Nat) ∧ ∀ result ∈ results, result.2 ≠ .pending) := by
        obtain ⟨result, member, pending⟩ := waits
        exact fun done => done.2 result member pending
      dsimp only
      rw [if_pos waits, if_neg stuck]
      rfl
    · have done : [] = ([] : List Nat) ∧ ∀ result ∈ results, result.2 ≠ .pending :=
        ⟨rfl, fun result member pending => waits ⟨result, member, pending⟩⟩
      dsimp only
      rw [if_neg waits, if_pos done, ← same failed]
      rfl

/-- A chain of amplifiers comes to what they come to one after another, each run alone on its phase
and all that the one before it has emitted, the first one on its phase and zero. Without phases
there is no circuit to run. -/
theorem chain_eq_pipeline (program : Program) :
    (∀ turns, signal turns program [] .chain = .failed .emptyCircuit) ∧
    ∀ (fuel : Nat) (phases : List Cell), phases ≠ [] →
      (∀ result ∈ pipeline fuel program 0 phases [0], result.2 ≠ .unfinished) →
      ∃ enough, ∀ turns, enough ≤ turns →
        signal turns program phases .chain = conclude (pipeline fuel program 0 phases [0]) := by
  refine ⟨fun turns => rfl, fun fuel phases some_phases ended => ?_⟩
  obtain ⟨c, built, size, -, no_tap, nodes⟩ := getElem?_bank program phases .chain {}
  have positive : 0 < phases.length := List.length_pos_iff.mpr some_phases
  have started (i : Nat) (phase : Cell) (found : phases[i]? = some phase) :
      c.start.nodes[i]? = some (link program phases.length i (seeds i phase)) := by
    simp only [Circuit.start, List.getElem?_map, nodes, found]
    rfl
  have untouched : Untouched program phases.length 0 phases [0] c.start := by
    refine ⟨by simpa [Circuit.size, Circuit.start] using size, by simp, fun phase member => ?_, ?_⟩
    · rw [List.head?_eq_getElem?] at member
      exact started 0 phase member
    · intro j phase later found
      rw [Nat.zero_add, started j phase found, seeds, if_neg (by omega)]
  have none_behind : ∀ i ∈ ([] : List Nat), i < 0 := by simp
  obtain ⟨enough, a, run, listed⟩ := go_chain untouched none_behind ended
  refine ⟨enough, fun turns more => ?_⟩
  obtain ⟨extra, rfl⟩ : ∃ extra, turns = extra + enough := ⟨turns - enough, by omega⟩
  have ran : c.run (extra + enough) =
      (a.circuit, verdict [] (pipeline fuel program 0 phases [0])) := by
    rw [Circuit.run, Agenda.ofCircuit, size, List.range_eq_range', run]
  have length := length_pipeline fuel program 0 phases [0]
  simp only [signal, built]
  rw [signal_of_run (by omega) no_tap ran, size, ← length, reply_verdict]
  intro unfailed
  obtain ⟨result, last⟩ : ∃ result, (pipeline fuel program 0 phases [0]).getLast? = some result :=
    ⟨_, List.getLast?_eq_some_getLast (List.ne_nil_of_length_pos (by omega))⟩
  have values := (listed unfailed).2 _ result (List.getLast?_eq_getElem?.symm.trans last)
  rw [Nat.zero_add] at values
  obtain ⟨y, found, same⟩ := Option.map_eq_some_iff.mp values
  rw [found, last, Option.bind_some, Option.bind_some, Outlet.last?, same]
  rfl

/-- Five amplifiers that each read a phase and a signal and write ten times the signal plus the
phase. -/
theorem chain_eq_pipeline_digits :
    let program : Program := ⟨[3, 15, 3, 16, 1002, 16, 10, 16, 1, 16, 15, 15, 4, 15, 99, 0, 0]⟩
    let results := pipeline 10 program 0 [4, 3, 2, 1, 0] [0]
    (∀ result ∈ results, result.2 ≠ .unfinished) ∧ conclude results = .done 43210 ∧
      ∃ enough, ∀ turns, enough ≤ turns →
        signal turns program [4, 3, 2, 1, 0] .chain = .done 43210 := by
  intro program results
  have ended : ∀ result ∈ results, result.2 ≠ .unfinished := by decide +kernel
  have digits : conclude results = .done 43210 := by decide +kernel
  refine ⟨ended, digits, ?_⟩
  rw [← digits]
  exact (chain_eq_pipeline program).2 10 [4, 3, 2, 1, 0] (by simp) ended

end Amplifiers

end TapeMachine
