import TapeMachine.Proofs.Resolution
import TapeMachine.Proofs.Stepping

/-! A step fails for the first of these reasons that applies: the word is not an instruction, one of
its parameters has no slot or no mode, a jump leads to a negative position, or memory has no room
for the destination. A failed step changes nothing, but for the input value that an input
instruction has taken by then. -/

namespace TapeMachine

namespace Site

def Jumps (s : Site) (opcode : Opcode) : Prop :=
  (opcode = .jumpIfTrue ∧ s.operand 0 ≠ 0) ∨ (opcode = .jumpIfFalse ∧ s.operand 0 = 0)

variable {s : Site} {opcode : Opcode}

theorem jump_eq_error {taken : Bool} {fault : Fault} (refused : s.jump taken = .error fault) :
    taken = true ∧ s.operand 1 < 0 ∧ fault = .negativeAddress (s.operand 1).toInt s.ip := by
  unfold jump at refused
  split at refused
  · split at refused <;> cases refused
    exact ⟨‹_›, ‹_›, rfl⟩
  · cases refused

theorem resolve_of_jumps (jumps : s.Jumps opcode) : s.resolve opcode = s.jump true := by
  rcases jumps with ⟨rfl, condition⟩ | ⟨rfl, condition⟩
  · rw [resolve, bne_iff_ne.mpr condition]
  · rw [resolve, beq_iff_eq.mpr condition]

theorem resolve_eq_error {fault : Fault} (refused : s.resolve opcode = .error fault) :
    s.Jumps opcode ∧ s.operand 1 < 0 ∧ fault = .negativeAddress (s.operand 1).toInt s.ip := by
  cases opcode with
  | jumpIfTrue =>
    obtain ⟨taken, low, same⟩ := jump_eq_error refused
    exact ⟨.inl ⟨rfl, by simpa using taken⟩, low, same⟩
  | jumpIfFalse =>
    obtain ⟨taken, low, same⟩ := jump_eq_error refused
    exact ⟨.inr ⟨rfl, by simpa using taken⟩, low, same⟩
  | _ => cases refused

theorem jump_eq_ok {taken : Bool} {action : Action} (resolved : s.jump taken = .ok action) :
    action = .skip ∨ ∃ target, action = .jump target := by
  unfold jump at resolved
  split at resolved
  · split at resolved <;> cases resolved
    exact .inr ⟨_, rfl⟩
  · cases resolved
    exact .inl rfl

theorem resolve_eq_store {address value : Cell}
    (resolved : s.resolve opcode = .ok (.store address value)) :
    opcode ∈ [.add, .mul, .lessThan, .equals] ∧ address = s.place 2 := by
  cases opcode with
  | add | mul | lessThan | equals =>
    cases resolved
    simp
  | jumpIfTrue | jumpIfFalse =>
    rcases jump_eq_ok resolved with impossible | ⟨target, impossible⟩ <;> cases impossible
  | _ => cases resolved

theorem resolve_eq_input {address : Cell} (resolved : s.resolve opcode = .ok (.input address)) :
    opcode = .input ∧ address = s.place 0 := by
  cases opcode with
  | input =>
    cases resolved
    exact ⟨rfl, rfl⟩
  | jumpIfTrue | jumpIfFalse =>
    rcases jump_eq_ok resolved with impossible | ⟨target, impossible⟩ <;> cases impossible
  | _ => cases resolved

end Site

/-- The reasons for which the next step fails, in the order of their rank: each one says that those
before it do not apply. The queue is the pending input, before the step and after. -/
inductive Engine.Fails (e : Engine) (queue : List Cell) : Fault → List Cell → Prop
  | negative (negative : e.word < 0) : Fails e queue (.illegalOpcode e.word e.ip) queue
  | unknown (positive : 0 ≤ e.word) (unknown : ∀ opcode : Opcode, e.word % 100 ≠ opcode.code) :
    Fails e queue (.illegalOpcode (e.word % 100) e.ip) queue
  | parameter {opcode : Opcode} {k : Nat} {fault : Fault} (named : e.site.Names opcode)
    (below : k < opcode.arity) (before : ∀ j < k, e.site.Supplies j)
    (lacking : e.site.Lacks k fault) : Fails e queue fault queue
  | target {opcode : Opcode} (named : e.site.Names opcode)
    (supplied : ∀ k < opcode.arity, e.site.Supplies k) (jumps : e.site.Jumps opcode)
    (low : e.site.operand 1 < 0) :
    Fails e queue (.negativeAddress (e.site.operand 1).toInt e.ip) queue
  | store {opcode : Opcode} (named : e.site.Names opcode)
    (supplied : ∀ k < opcode.arity, e.site.Supplies k)
    (stores : opcode ∈ [.add, .mul, .lessThan, .equals])
    (refused : e.memory.Refuses (e.site.place 2)) :
    Fails e queue (.memoryLimit (Memory.reported (e.site.place 2)) e.memory.limit) queue
  | input {value : Cell} {rest : List Cell} (named : e.site.Names .input)
    (supplied : e.site.Supplies 0) (available : queue = value :: rest)
    (refused : e.memory.Refuses (e.site.place 0)) :
    Fails e queue (.memoryLimit (Memory.reported (e.site.place 0)) e.memory.limit) rest

namespace Engine

variable {e : Engine} {queue rest : List Cell} {fault : Fault}

theorem word_cases (e : Engine) :
    e.word < 0 ∨ (0 ≤ e.word ∧ ∀ opcode : Opcode, e.word % 100 ≠ opcode.code) ∨
      ∃ opcode, e.site.Names opcode := by
  by_cases negative : e.word < 0
  · exact .inl negative
  · have positive := Int.not_lt.mp negative
    by_cases known : ∃ opcode : Opcode, e.word % 100 = opcode.code
    · obtain ⟨opcode, code⟩ := known
      exact .inr (.inr ⟨opcode, positive, code⟩)
    · exact .inr (.inl ⟨positive, not_exists.mp known⟩)

theorem step_of_fetch_error (inside : e.ip < e.memory.size) (refused : e.fetch = .error fault)
    (front : Option Cell) : e.step front = (e, .failed fault none) := by
  simp only [step, Nat.not_le.mpr inside, if_false, refused]

theorem step_of_fetch_ok {i : Instruction} (inside : e.ip < e.memory.size)
    (fetched : e.fetch = .ok i) (front : Option Cell) : e.step front = e.perform i front := by
  simp only [step, Nat.not_le.mpr inside, if_false, fetched]

theorem store_of_refuses {address : Cell} (refused : e.memory.Refuses address) (width : Nat)
    (value : Cell) (taken : Option Cell) :
    e.store width address value taken =
      (e, .failed (.memoryLimit (Memory.reported address) e.memory.limit) taken) := by
  apply store_of_fault
  rw [Memory.refusal?_eq, if_pos refused]

/-- Each of the reasons makes the step fail, and the engine stays as it was. -/
theorem Fails.step (fails : e.Fails queue fault rest) (inside : e.ip < e.memory.size) :
    ∃ taken, e.step queue.head? = (e, .failed fault taken) ∧ queue = taken.toList ++ rest := by
  cases fails with
  | negative negative =>
    exact ⟨none, step_of_fetch_error inside (fetch_of_negative negative) _, rfl⟩
  | unknown positive unknown =>
    exact ⟨none, step_of_fetch_error inside (fetch_of_unknown positive unknown) _, rfl⟩
  | parameter named below before lacking =>
    exact ⟨none, step_of_fetch_error inside (fetch_of_lacks named below before lacking) _, rfl⟩
  | target named supplied jumps low =>
    have refused : e.fetch = .error (.negativeAddress (e.site.operand 1).toInt e.ip) := by
      rw [fetch_of_supplies named supplied, Site.resolve_of_jumps jumps, Site.jump, if_pos rfl,
        if_pos low]
      rfl
    exact ⟨none, step_of_fetch_error inside refused _, rfl⟩
  | @store opcode named supplied stores refused =>
    obtain ⟨value, resolved⟩ :
        ∃ value, e.site.resolve opcode = .ok (.store (e.site.place 2) value) := by
      simp only [List.mem_cons, List.not_mem_nil, or_false] at stores
      rcases stores with rfl | rfl | rfl | rfl <;> exact ⟨_, rfl⟩
    have fetched := fetch_of_supplies named supplied
    rw [resolved] at fetched
    refine ⟨none, ?_, rfl⟩
    rw [step_of_fetch_ok inside fetched]
    exact store_of_refuses refused ..
  | @input value rest named supplied available refused =>
    have fetched := fetch_of_supplies named fun k below => by
      obtain rfl : k = 0 := Nat.lt_one_iff.mp below
      exact supplied
    refine ⟨some value, ?_, available⟩
    rw [available, step_of_fetch_ok inside fetched]
    exact store_of_refuses refused ..

/-- What has been fetched fails only for want of memory. -/
theorem perform_failed {i : Instruction} {front taken : Option Cell}
    (failed : (e.perform i front).2 = .failed fault taken) :
    ∃ address, e.memory.Refuses address ∧
      fault = .memoryLimit (Memory.reported address) e.memory.limit ∧
      ((∃ value, i.action = .store address value) ∨
        ∃ value, i.action = .input address ∧ front = some value) := by
  have stored {address value : Cell} {given : Option Cell}
      (failed : (e.store i.width address value given).2 = .failed fault taken) :
      e.memory.Refuses address ∧
        fault = .memoryLimit (Memory.reported address) e.memory.limit := by
    by_cases refused : e.memory.Refuses address
    · rw [store_of_refuses refused] at failed
      cases failed
      exact ⟨refused, rfl⟩
    · have admitted : e.memory.refusal? address = none := by
        rw [Memory.refusal?_eq, if_neg refused]
      rw [store_of_admitted admitted] at failed
      cases given <;> cases failed
  unfold perform at failed
  split at failed
  next address value action =>
    obtain ⟨refused, same⟩ := stored failed
    exact ⟨address, refused, same, .inl ⟨value, action⟩⟩
  next address action =>
    split at failed
    · cases failed
    next value =>
      obtain ⟨refused, same⟩ := stored failed
      exact ⟨address, refused, same, .inr ⟨value, action, rfl⟩⟩
  all_goals cases failed

/-- A step that fails does so for one of the reasons. -/
theorem fails_of_step {taken : Option Cell} (inside : e.ip < e.memory.size)
    (failed : (e.step queue.head?).2 = .failed fault taken) : ∃ rest, e.Fails queue fault rest := by
  have known {reason : Fault} (refused : e.fetch = .error reason) : reason = fault := by
    rw [step_of_fetch_error inside refused] at failed
    cases failed
    rfl
  -- split in the order of the ranks, so that a case knows that those before it do not apply
  rcases e.word_cases with negative | ⟨positive, unknown⟩ | ⟨opcode, named⟩
  · obtain rfl := known (fetch_of_negative negative)
    exact ⟨queue, .negative negative⟩
  · obtain rfl := known (fetch_of_unknown positive unknown)
    exact ⟨queue, .unknown positive unknown⟩
  rcases e.site.supplies_or_first_lacks opcode.arity with
    supplied | ⟨k, below, before, reason, lacking⟩
  swap
  · obtain rfl := known (fetch_of_lacks named below before lacking)
    exact ⟨queue, .parameter named below before lacking⟩
  have fetched := fetch_of_supplies named supplied
  cases resolved : e.site.resolve opcode with
  | error reason =>
    rw [resolved] at fetched
    obtain rfl := known fetched
    obtain ⟨jumps, low, rfl⟩ := Site.resolve_eq_error resolved
    exact ⟨queue, .target named supplied jumps low⟩
  | ok action =>
    rw [resolved] at fetched
    rw [step_of_fetch_ok inside fetched] at failed
    obtain ⟨address, refused, rfl, ⟨value, same⟩ | ⟨value, same, front⟩⟩ := perform_failed failed
    · obtain rfl : action = .store address value := same
      obtain ⟨stores, rfl⟩ := Site.resolve_eq_store resolved
      exact ⟨queue, .store named supplied stores refused⟩
    · obtain rfl : action = .input address := same
      obtain ⟨rfl, rfl⟩ := Site.resolve_eq_input resolved
      obtain ⟨rest, available⟩ := List.head?_eq_some_iff.mp front
      exact ⟨rest, .input named (supplied 0 (by decide)) available refused⟩

/-- A limit that is a 64-bit number does not exceed the position that a refusal reports. -/
theorem Fails.limit_le {address limit : Nat} (fails : e.Fails queue (.memoryLimit address limit) rest)
    (fits : e.memory.limit < Text.wordBound) : limit = e.memory.limit ∧ limit ≤ address := by
  have reported {a : Cell} (refused : e.memory.Refuses a) :
      e.memory.limit ≤ Memory.reported a := by
    unfold Memory.reported Memory.unplaced
    split
    · omega
    next high =>
      have positive := mt Cell.lt_zero_iff.mpr high
      rcases refused with ⟨-, -, beyond⟩ | ⟨negative, -⟩
      · rw [Cell.toNatClampNeg_eq]
        omega
      · exact absurd negative positive
  cases fails with
  | parameter named below before lacking => cases lacking
  | store named supplied stores refused => exact ⟨rfl, reported refused⟩
  | input named supplied available refused => exact ⟨rfl, reported refused⟩

theorem Fails.rest_eq_or (fails : e.Fails queue fault rest) :
    rest = queue ∨ ∃ value, queue = value :: rest := by
  cases fails with
  | input named supplied available refused => exact .inr ⟨_, available⟩
  | _ => exact .inl rfl

/-- A value is lost by an input instruction that finds memory full, and by no other failure. -/
theorem Fails.queue_eq_cons_iff (fails : e.Fails queue fault rest) :
    (∃ value, queue = value :: rest) ↔
      e.site.Names .input ∧ ∃ address limit, fault = .memoryLimit address limit := by
  have whole : ¬∃ value, rest = value :: rest := by
    rintro ⟨value, same⟩
    simpa using congrArg List.length same
  cases fails with
  | input named supplied available refused =>
    exact iff_of_true ⟨_, available⟩ ⟨named, _, _, rfl⟩
  | store named supplied stores refused =>
    refine iff_of_false whole ?_
    rintro ⟨reads, -⟩
    obtain rfl := named.unique reads
    simp at stores
  | parameter named below before lacking =>
    refine iff_of_false whole ?_
    rintro ⟨-, address, limit, same⟩
    cases lacking <;> cases same
  | _ =>
    refine iff_of_false whole ?_
    rintro ⟨-, address, limit, same⟩
    cases same

end Engine

namespace Machine

variable {x : Machine} {fault : Fault} {rest : List Cell}

theorem step_of_fails (going : x.phase.isTerminal = false)
    (inside : x.engine.ip < x.engine.memory.size) (fails : x.engine.Fails x.pending fault rest) :
    x.step.1 = { x with pending := rest, phase := .failed fault } := by
  obtain ⟨taken, stepped, queue⟩ := fails.step inside
  rw [step_of_not_isTerminal going, stepped]
  cases taken with
  | none => simp [absorb, queue]
  | some value => simp [absorb, queue]

theorem failed_of_step (going : x.phase.isTerminal = false) (failed : x.step.1.phase = .failed fault) :
    ∃ taken, (x.engine.step x.pending.head?).2 = .failed fault taken := by
  rw [step_of_not_isTerminal going] at failed
  have unstopped : x.phase ≠ .failed fault := by
    intro same
    rw [same] at going
    cases going
  cases effect : (x.engine.step x.pending.head?).2 with
  | failed reason taken =>
    rw [effect] at failed
    cases taken <;> cases failed <;> exact ⟨_, rfl⟩
  | halted | exhausted =>
    rw [effect] at failed
    cases failed
  | _ =>
    rw [effect] at failed
    exact absurd failed unstopped

/-- On the tape, a step fails exactly for the reasons listed, with the fault of the one that applies.
It then leaves all but the phase as it was, and the pending input too, unless an input instruction
has taken a value that memory has no room for. A limit is exceeded by a position not below it. -/
theorem step_failed_iff (x : Machine) (going : x.phase.isTerminal = false)
    (inside : x.engine.ip < x.engine.memory.size) :
    (∀ fault, x.step.1.phase = .failed fault ↔ ∃ rest, x.engine.Fails x.pending fault rest) ∧
    (∀ fault rest, x.engine.Fails x.pending fault rest →
      x.step.1 = { x with pending := rest, phase := .failed fault } ∧
        (rest = x.pending ∨ ∃ value, x.pending = value :: rest) ∧
        ((∃ value, x.pending = value :: rest) ↔
          x.engine.site.Names .input ∧ ∃ address limit, fault = .memoryLimit address limit)) ∧
    ∀ address limit rest, x.engine.Fails x.pending (.memoryLimit address limit) rest →
      x.engine.memory.limit < Text.wordBound →
      limit = x.engine.memory.limit ∧ limit ≤ address := by
  refine ⟨fun fault => ⟨fun failed => ?_, fun ⟨rest, fails⟩ => ?_⟩, fun fault rest fails => ?_,
    fun address limit rest fails fits => fails.limit_le fits⟩
  · obtain ⟨taken, effect⟩ := failed_of_step going failed
    exact Engine.fails_of_step inside effect
  · rw [step_of_fails going inside fails]
  · exact ⟨step_of_fails going inside fails, fails.rest_eq_or, fails.queue_eq_cons_iff⟩

/-- With room for ten cells, a value is taken for position twenty and lost. -/
theorem step_failed_iff_full :
    let x := (create ⟨[3, 20, 99]⟩ { memoryLimit := 10 }).supply [7, 8]
    x.phase.isTerminal = false ∧ x.engine.ip < x.engine.memory.size ∧
      x.engine.memory.limit < Text.wordBound ∧
      x.step.1 = { x with pending := [8], phase := .failed (.memoryLimit 20 10) } ∧
      x.step.1.phase = .failed (.memoryLimit 20 10) ∧ 10 = x.engine.memory.limit ∧ 10 ≤ 20 := by
  intro x
  have going : x.phase.isTerminal = false := rfl
  have inside : x.engine.ip < x.engine.memory.size := by decide
  have fits : x.engine.memory.limit < Text.wordBound := by decide
  have place : Memory.reported (x.engine.site.place 0) = 20 := by decide +kernel
  have fails : x.engine.Fails x.pending (.memoryLimit 20 10) [8] := by
    rw [← place]
    exact .input (by decide +kernel) (by decide +kernel) rfl (by decide +kernel)
  obtain ⟨reasons, leaves, limited⟩ := step_failed_iff x going inside
  exact ⟨going, inside, fits, (leaves _ _ fails).1, (reasons _).mpr ⟨_, fails⟩,
    limited 20 10 [8] fails fits⟩

end Machine

end TapeMachine
