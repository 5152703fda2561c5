import TapeMachine.Proofs.History

/-! The tape and the detached cells share one limit. A detached cell is made only if both together
leave room for it, but the tape may grow up to the limit whatever is detached. So each of them stays
within the limit, and both together do exactly as long as no write lets the tape grow into the room
that the detached cells take. -/

namespace TapeMachine

/-- The tape position of a write; at a negative address there is none. -/
def Write.position? : Write → Option Nat
  | cell position _ => some position
  | signed address _ => if address < 0 then none else some address.toNatClampNeg

namespace Memory

def used (m : Memory) : Nat := m.size + m.detached.size

/-- The write makes the tape grow within the limit, but past what the detached cells leave of it. -/
def Oversteps (m : Memory) (w : Write) : Prop :=
  ∃ position ∈ w.position?, m.size ≤ position ∧ position < m.limit ∧
    m.limit < position + 1 + m.detached.size

instance (m : Memory) (w : Write) : Decidable (m.Oversteps w) :=
  inferInstanceAs (Decidable (∃ position ∈ w.position?, _))

/-- One of the writes oversteps in the memory that it finds. -/
def Overdrawn (m : Memory) : List Write → Prop
  | [] => False
  | w :: writes => m.Oversteps w ∨ (m.attempt w).Overdrawn writes

instance decidableOverdrawn (m : Memory) : (writes : List Write) → Decidable (m.Overdrawn writes)
  | [] => inferInstanceAs (Decidable False)
  | w :: writes =>
    have := (m.attempt w).decidableOverdrawn writes
    inferInstanceAs (Decidable (m.Oversteps w ∨ (m.attempt w).Overdrawn writes))

theorem attempt_cell (m : Memory) (position : Nat) (value : Cell) :
    m.attempt (.cell position value) =
      if m.size ≤ position ∧ m.limit ≤ position then m else m.setCell position value := by
  simp only [attempt, writeCell, cellRefusal?]
  by_cases refused : m.size ≤ position ∧ m.limit ≤ position
  · rw [if_pos refused, if_pos refused]
    rfl
  · rw [if_neg refused, if_neg refused]
    rfl

theorem attempt_signed_of_nonneg (m : Memory) {address : Cell} (positive : ¬address < 0)
    (value : Cell) :
    m.attempt (.signed address value) = m.attempt (.cell address.toNatClampNeg value) := by
  simp only [attempt, write, writeCell, refusal?, set, if_neg positive]

theorem attempt_signed_of_neg (m : Memory) {address : Cell} (negative : address < 0)
    (value : Cell) :
    m.attempt (.signed address value) =
      if address ∉ m.detached ∧ m.limit ≤ m.size + m.detached.size then m
      else { m with detached := m.detached.insert address value } := by
  simp only [attempt, write, refusal?, set, if_pos negative]
  by_cases refused : address ∉ m.detached ∧ m.limit ≤ m.size + m.detached.size
  · rw [if_pos refused, if_pos refused]
    rfl
  · rw [if_neg refused, if_neg refused]
    rfl

@[simp] theorem limit_attempt (m : Memory) (w : Write) : (m.attempt w).limit = m.limit := by
  have on_tape (position : Nat) (value : Cell) :
      (m.attempt (.cell position value)).limit = m.limit := by
    rw [attempt_cell]
    split <;> rfl
  cases w with
  | cell position value => exact on_tape position value
  | signed address value =>
    by_cases negative : address < 0
    · rw [attempt_signed_of_neg m negative]
      split <;> rfl
    · rw [attempt_signed_of_nonneg m negative]
      exact on_tape _ value

theorem attempt_of_position? (m : Memory) {w : Write} {position : Nat}
    (found : w.position? = some position) :
    (m.attempt w).detached = m.detached ∧
      (m.attempt w).size = if m.limit ≤ position then m.size else max m.size (position + 1) := by
  obtain ⟨value, same⟩ : ∃ value, m.attempt w = m.attempt (.cell position value) := by
    cases w with
    | cell place value =>
      obtain rfl : place = position := Option.some.inj found
      exact ⟨value, rfl⟩
    | signed address value =>
      by_cases negative : address < 0
      · simp [Write.position?, negative] at found
      · simp only [Write.position?, if_neg negative, Option.some.injEq] at found
        rw [← found]
        exact ⟨value, attempt_signed_of_nonneg m negative value⟩
  rw [same, attempt_cell]
  by_cases refused : m.size ≤ position ∧ m.limit ≤ position
  · rw [if_pos refused, if_pos refused.2]
    exact ⟨rfl, rfl⟩
  · rw [if_neg refused, size_setCell]
    refine ⟨rfl, ?_⟩
    split <;> omega

theorem attempt_of_no_position (m : Memory) {w : Write} (nowhere : w.position? = none) :
    (m.attempt w).size = m.size ∧
      ((m.attempt w).detached.size = m.detached.size ∨
        m.used < m.limit ∧ (m.attempt w).detached.size = m.detached.size + 1) := by
  cases w with
  | cell position value => simp [Write.position?] at nowhere
  | signed address value =>
    have negative : address < 0 := by
      apply Classical.byContradiction
      intro positive
      simp [Write.position?, positive] at nowhere
    rw [attempt_signed_of_neg m negative]
    by_cases refused : address ∉ m.detached ∧ m.limit ≤ m.size + m.detached.size
    · rw [if_pos refused]
      exact ⟨rfl, .inl rfl⟩
    · rw [if_neg refused]
      refine ⟨rfl, ?_⟩
      simp only [Std.ExtTreeMap.size_insert, Std.ExtTreeMap.contains_iff_mem]
      by_cases present : address ∈ m.detached
      · exact .inl (if_pos present)
      · have room : m.used < m.limit := Nat.lt_of_not_le fun full => refused ⟨present, full⟩
        exact .inr ⟨room, if_neg present⟩

theorem used_le_used_attempt (m : Memory) (w : Write) : m.used ≤ (m.attempt w).used := by
  unfold used
  cases found : w.position? with
  | some position =>
    obtain ⟨detached, size⟩ := m.attempt_of_position? found
    rw [detached, size]
    split <;> omega
  | none =>
    obtain ⟨size, detached⟩ := m.attempt_of_no_position found
    omega

theorem used_attempt_le_iff {m : Memory} (within : m.used ≤ m.limit) (w : Write) :
    (m.attempt w).used ≤ m.limit ↔ ¬m.Oversteps w := by
  unfold Oversteps
  cases found : w.position? with
  | some position =>
    obtain ⟨detached, size⟩ := m.attempt_of_position? found
    simp only [Option.mem_def, Option.some.injEq, exists_eq_left']
    unfold used at within ⊢
    rw [detached, size]
    split <;> omega
  | none =>
    obtain ⟨size, detached⟩ := m.attempt_of_no_position found
    simp only [Option.mem_def, reduceCtorEq, false_and, exists_false, not_false_eq_true, iff_true]
    unfold used at within detached ⊢
    omega

@[simp] theorem limit_attempts (m : Memory) (writes : List Write) :
    (m.attempts writes).limit = m.limit := by
  induction writes generalizing m with
  | nil => rfl
  | cons w writes ih => rw [attempts_cons, ih, limit_attempt]

theorem used_le_used_attempts (m : Memory) (writes : List Write) :
    m.used ≤ (m.attempts writes).used := by
  induction writes generalizing m with
  | nil => exact Nat.le_refl _
  | cons w writes ih => exact Nat.le_trans (m.used_le_used_attempt w) (ih (m.attempt w))

/-- Along a list of writes the memory stays within its limit exactly if none of them oversteps. -/
theorem used_attempts_le_iff {m : Memory} (within : m.used ≤ m.limit) (writes : List Write) :
    (m.attempts writes).used ≤ m.limit ↔ ¬m.Overdrawn writes := by
  induction writes generalizing m with
  | nil => simpa [Overdrawn] using within
  | cons w writes ih =>
    rw [attempts_cons, Overdrawn, not_or, ← used_attempt_le_iff within w]
    by_cases still : (m.attempt w).used ≤ m.limit
    · have later := ih (m := m.attempt w) (by rw [limit_attempt]; exact still)
      rw [limit_attempt] at later
      simp only [later, still, true_and]
    · -- Past the limit for once, past it for good.
      have more := (m.attempt w).used_le_used_attempts writes
      simp only [still, false_and, iff_false]
      omega

/-- Neither store outgrows the limit, and the detached cells leave room for a tape of `length`. -/
structure Bounded (m : Memory) (length : Nat) : Prop where
  grown : length ≤ m.size
  tape : m.size ≤ m.limit
  detached : length + m.detached.size ≤ m.limit

theorem Bounded.attempt {m : Memory} {length : Nat} (bounded : m.Bounded length) (w : Write) :
    (m.attempt w).Bounded length := by
  obtain ⟨grown, tape, detached⟩ := bounded
  cases found : w.position? with
  | some position =>
    obtain ⟨same, size⟩ := m.attempt_of_position? found
    refine ⟨?_, ?_, ?_⟩
    · rw [size]
      split <;> omega
    · rw [limit_attempt, size]
      split <;> omega
    · rw [limit_attempt, same]
      exact detached
  | none =>
    obtain ⟨size, growth⟩ := m.attempt_of_no_position found
    unfold used at growth
    refine ⟨?_, ?_, ?_⟩
    · rw [size]
      exact grown
    · rw [limit_attempt, size]
      exact tape
    · rw [limit_attempt]
      omega

theorem Bounded.attempts {m : Memory} {length : Nat} (bounded : m.Bounded length)
    (writes : List Write) : (m.attempts writes).Bounded length := by
  induction writes generalizing m with
  | nil => exact bounded
  | cons w writes ih => exact ih (bounded.attempt w)

theorem bounded_ofProgram (program : Program) {limit : Nat} (fits : program.cells.length ≤ limit) :
    (ofProgram program limit).Bounded program.cells.length := by
  constructor <;> simp [ofProgram, size, fits]

/-- Whatever is written to the memory of a program that fits, both stores together stay within the
limit exactly if no write oversteps, and neither store outgrows it in any case. The same holds of
the memory of a machine and the writes that it attempts, whatever befalls it. -/
theorem used_le_limit_iff (program : Program) (settings : Settings)
    (fits : program.cells.length ≤ settings.memoryLimit) :
    let initial := ofProgram program settings.memoryLimit
    (∀ writes : List Write,
      let m := initial.attempts writes
      (m.used ≤ settings.memoryLimit ↔ ¬initial.Overdrawn writes) ∧
        m.limit = settings.memoryLimit ∧ m.Bounded program.cells.length) ∧
    ∀ acts : List Machine.Act,
      let x := Machine.create program settings
      let m := (x.perform acts).engine.memory
      (m.used ≤ settings.memoryLimit ↔ ¬initial.Overdrawn (x.writes acts)) ∧
        m.limit = settings.memoryLimit ∧ m.Bounded program.cells.length := by
  intro initial
  have bounded : initial.Bounded program.cells.length := bounded_ofProgram program fits
  have within : initial.used ≤ initial.limit := by
    simpa [used, initial, ofProgram] using bounded.tape
  have written (writes : List Write) :=
    And.intro (used_attempts_le_iff within writes)
      (And.intro (limit_attempts initial writes) (bounded.attempts writes))
  refine ⟨written, fun acts => ?_⟩
  intro x m
  have memory : m = initial.attempts (x.writes acts) := Machine.memory_perform x acts
  rw [memory]
  exact written (x.writes acts)

/-- With room for eleven cells, a program of nine cells that makes one at a negative address and
one behind its end stays within the limit. -/
theorem used_le_limit_iff_eleven :
    let program : Program := ⟨[1101, 0, 7, -1, 1101, 0, 8, 9, 99]⟩
    let settings : Settings := { memoryLimit := 11 }
    let x := Machine.create program settings
    let acts := [.start, .step, .step, .step]
    program.cells.length ≤ settings.memoryLimit ∧
      ¬(ofProgram program settings.memoryLimit).Overdrawn (x.writes acts) ∧
      (x.perform acts).engine.memory.used ≤ settings.memoryLimit := by
  intro program settings x acts
  have fits : program.cells.length ≤ settings.memoryLimit := by decide
  have thrifty : ¬(ofProgram program settings.memoryLimit).Overdrawn (x.writes acts) := by
    decide +kernel
  exact ⟨fits, thrifty, ((used_le_limit_iff program settings fits).2 acts).1.mpr thrifty⟩

/-- With room for ten, the tape grows to ten cells beside the one that is detached. Two detached
cells do not keep a tape of two from growing to all the four cells that there is room for. -/
theorem used_gt_limit_ten :
    let x := Machine.create ⟨[1101, 0, 7, -1, 1101, 0, 8, 9, 99]⟩ { memoryLimit := 10 }
    let reached := (x.perform [.start, .step, .step, .step]).engine.memory
    let m := (ofProgram ⟨[1, 2]⟩ 4).attempts [.signed (-1) 1, .signed (-2) 2, .cell 3 9]
    (reached.limit = 10 ∧ reached.size = 10 ∧ reached.detached.size = 1 ∧ ¬reached.used ≤ 10) ∧
      m.limit = 4 ∧ m.size = 4 ∧ m.detached.size = 2 ∧ ¬m.used ≤ 4 := by
  decide +kernel

end Memory

end TapeMachine
