import TapeMachine.Proofs.Parameters

/-! What an instruction asks for, from the formulas for its parameters. An instruction that lacks
one of its parameters is refused for the first one that it lacks. -/

namespace TapeMachine

namespace Site

/-- The parameter `k` has a slot on the tape and a mode. -/
def Supplies (s : Site) (k : Nat) : Prop := s.slot k < s.memory.size ∧ s.digit k ≤ 2

instance (s : Site) (k : Nat) : Decidable (s.Supplies k) := inferInstanceAs (Decidable (_ ∧ _))

inductive Lacks (s : Site) (k : Nat) : Fault → Prop
  | slot (outside : s.memory.size ≤ s.slot k) :
    Lacks s k (.insufficientParameters (s.word % 100) s.ip)
  | mode (inside : s.slot k < s.memory.size) (large : 2 < s.digit k) :
    Lacks s k (.illegalMode (s.digit k) s.ip)

/-- The address that the parameter `k` denotes. An immediate one denotes its own slot. -/
def place (s : Site) (k : Nat) : Cell :=
  if s.digit k = 0 then s.raw k
  else if s.digit k = 1 then Int64.ofNat (s.slot k)
  else (s.raw k).satAdd s.base

def operand (s : Site) (k : Nat) : Cell :=
  if s.digit k = 1 then s.raw k else s.memory.read (s.place k)

def jump (s : Site) (taken : Bool) : Except Fault Action :=
  if taken then
    if s.operand 1 < 0 then .error (.negativeAddress (s.operand 1).toInt s.ip)
    else .ok (.jump (s.operand 1).toNatClampNeg)
  else .ok .skip

def resolve (s : Site) : Opcode → Except Fault Action
  | .add => .ok (.store (s.place 2) ((s.operand 0).satAdd (s.operand 1)))
  | .mul => .ok (.store (s.place 2) ((s.operand 0).satMul (s.operand 1)))
  | .lessThan => .ok (.store (s.place 2) (Cell.ofBool (s.operand 0 < s.operand 1)))
  | .equals => .ok (.store (s.place 2) (Cell.ofBool (s.operand 0 == s.operand 1)))
  | .input => .ok (.input (s.place 0))
  | .output => .ok (.output (s.operand 0))
  | .jumpIfTrue => s.jump (s.operand 0 != 0)
  | .jumpIfFalse => s.jump (s.operand 0 == 0)
  | .rebase => .ok (.rebase (s.operand 0))
  | .halt => .ok .halt

variable {s : Site} {opcode : Opcode} {k : Nat} {fault : Fault}

theorem supplies_or_lacks (s : Site) (k : Nat) : s.Supplies k ∨ ∃ fault, s.Lacks k fault := by
  by_cases outside : s.memory.size ≤ s.slot k
  · exact .inr ⟨_, .slot outside⟩
  · have inside := Nat.lt_of_not_le outside
    by_cases large : 2 < s.digit k
    · exact .inr ⟨_, .mode inside large⟩
    · exact .inl ⟨inside, Int.not_lt.mp large⟩

/-- A parameter that can be had is pulled, as a value and as an address. -/
theorem yields_of_supplies (named : s.Names opcode) (supplied : s.Supplies k) :
    (s.cursor opcode k).Yields s.memory (s.operand k) (s.place k) := by
  obtain ⟨inside, known⟩ := supplied
  have rule := rule_cursor named k
  have positive : 0 ≤ s.digit k := Int.emod_nonneg _ (by decide)
  unfold operand place
  rcases (by omega : s.digit k = 0 ∨ s.digit k = 1 ∨ s.digit k = 2) with digit | digit | digit
  · simpa [digit] using rule.positional inside digit
  · simpa [digit] using rule.immediate inside digit
  · simpa [digit] using rule.relative inside digit

theorem pull_of_lacks (named : s.Names opcode) (lacking : s.Lacks k fault) (use : Cursor.Use) :
    (s.cursor opcode k).pull s.memory use = (.error fault, s.cursor opcode k) := by
  have rule := rule_cursor named k
  cases lacking with
  | slot outside => exact rule.outside outside use
  | mode inside large => exact rule.illegal inside large use

theorem value_of_supplies (named : s.Names opcode) (supplied : s.Supplies k) :
    (s.cursor opcode k).value s.memory = .ok (s.operand k) := by
  have pulled := (yields_of_supplies named supplied).1
  exact (Cursor.fst_pull ..).symm.trans (congrArg Prod.fst pulled)

theorem address_of_supplies (named : s.Names opcode) (supplied : s.Supplies k) :
    (s.cursor opcode k).address s.memory = .ok (s.place k) := by
  have pulled := (yields_of_supplies named supplied).2
  exact (Cursor.fst_pull ..).symm.trans (congrArg Prod.fst pulled)

theorem peek_of_lacks (named : s.Names opcode) (lacking : s.Lacks k fault) (use : Cursor.Use) :
    (s.cursor opcode k).peek s.memory use = .error fault :=
  (Cursor.fst_pull ..).symm.trans (congrArg Prod.fst (pull_of_lacks named lacking use))

theorem combine_of_supplies (named : s.Names opcode) (supplied : ∀ k < 3, s.Supplies k)
    (f : Cell → Cell → Cell) :
    (s.cursor opcode 0).combine s.memory f =
      .ok ⟨.store (s.place 2) (f (s.operand 0) (s.operand 1)), 4⟩ := by
  have first := value_of_supplies named (supplied 0 (by decide))
  have second := value_of_supplies named (supplied 1 (by decide))
  have third := address_of_supplies named (supplied 2 (by decide))
  simp only [Cursor.combine, next_cursor, first, second, third]
  rfl

theorem combine_of_lacks (named : s.Names opcode) (below : k < 3)
    (before : ∀ j < k, s.Supplies j) (lacking : s.Lacks k fault) (f : Cell → Cell → Cell) :
    (s.cursor opcode 0).combine s.memory f = .error fault := by
  have value : (s.cursor opcode k).value s.memory = .error fault :=
    peek_of_lacks named lacking .value
  have address : (s.cursor opcode k).address s.memory = .error fault :=
    peek_of_lacks named lacking .address
  simp only [Cursor.combine, next_cursor]
  rcases (by omega : k = 0 ∨ k = 1 ∨ k = 2) with rfl | rfl | rfl
  · rw [value]
    rfl
  · rw [value_of_supplies named (before 0 (by decide)), value]
    rfl
  · rw [value_of_supplies named (before 0 (by decide)),
      value_of_supplies named (before 1 (by decide)), address]
    rfl

theorem branch_of_supplies (named : s.Names opcode) (supplied : ∀ k < 2, s.Supplies k)
    (taken : Cell → Bool) :
    (s.cursor opcode 0).branch s.memory taken =
      (s.jump (taken (s.operand 0))).map (⟨·, 3⟩) := by
  have first := value_of_supplies named (supplied 0 (by decide))
  have second := value_of_supplies named (supplied 1 (by decide))
  simp only [Cursor.branch, next_cursor, first, second]
  unfold jump
  by_cases chosen : taken (s.operand 0) = true
  · by_cases low : s.operand 1 < 0
    · simp [chosen, low, Cursor.target, bind, Except.bind, Except.map]
      rfl
    · simp [chosen, low, Cursor.target, bind, Except.bind, Except.map]
      rfl
  · simp [chosen, bind, Except.bind, Except.map]
    rfl

theorem branch_of_lacks (named : s.Names opcode) (below : k < 2)
    (before : ∀ j < k, s.Supplies j) (lacking : s.Lacks k fault) (taken : Cell → Bool) :
    (s.cursor opcode 0).branch s.memory taken = .error fault := by
  have value : (s.cursor opcode k).value s.memory = .error fault :=
    peek_of_lacks named lacking .value
  simp only [Cursor.branch, next_cursor]
  rcases (by omega : k = 0 ∨ k = 1) with rfl | rfl
  · rw [value]
    rfl
  · rw [value_of_supplies named (before 0 (by decide)), value]
    rfl

theorem instruction_of_supplies (named : s.Names opcode)
    (supplied : ∀ k < opcode.arity, s.Supplies k) :
    (s.cursor opcode 0).instruction s.memory =
      (s.resolve opcode).map (⟨·, 1 + opcode.arity⟩) := by
  cases opcode with
  | add | mul | lessThan | equals => exact combine_of_supplies named supplied _
  | jumpIfTrue | jumpIfFalse => exact branch_of_supplies named supplied _
  | input =>
    exact congrArg (Except.map _) (address_of_supplies named (supplied 0 (by decide)))
  | output | rebase =>
    exact congrArg (Except.map _) (value_of_supplies named (supplied 0 (by decide)))
  | halt => rfl

theorem instruction_of_lacks (named : s.Names opcode) (below : k < opcode.arity)
    (before : ∀ j < k, s.Supplies j) (lacking : s.Lacks k fault) :
    (s.cursor opcode 0).instruction s.memory = .error fault := by
  cases opcode with
  | add | mul | lessThan | equals => exact combine_of_lacks named below before lacking _
  | jumpIfTrue | jumpIfFalse => exact branch_of_lacks named below before lacking _
  | input =>
    obtain rfl : k = 0 := Nat.lt_one_iff.mp below
    exact congrArg (Except.map _) (peek_of_lacks named lacking .address)
  | output | rebase =>
    obtain rfl : k = 0 := Nat.lt_one_iff.mp below
    exact congrArg (Except.map _) (peek_of_lacks named lacking .value)
  | halt => exact absurd below (Nat.not_lt_zero k)

/-- If not all of the first `n` parameters can be had, there is a first one that cannot. -/
theorem supplies_or_first_lacks (s : Site) (n : Nat) :
    (∀ k < n, s.Supplies k) ∨
      ∃ k < n, (∀ j < k, s.Supplies j) ∧ ∃ fault, s.Lacks k fault := by
  induction n with
  | zero => exact .inl fun k below => absurd below (Nat.not_lt_zero k)
  | succ n ih =>
    rcases ih with supplied | ⟨k, below, before, lacking⟩
    · rcases s.supplies_or_lacks n with last | lacking
      · refine .inl fun k below => ?_
        rcases Nat.lt_succ_iff_lt_or_eq.mp below with earlier | rfl
        · exact supplied k earlier
        · exact last
      · exact .inr ⟨n, Nat.lt_succ_self n, supplied, lacking⟩
    · exact .inr ⟨k, Nat.lt_succ_of_lt below, before, lacking⟩

end Site

namespace Engine

variable {e : Engine} {opcode : Opcode} {k : Nat} {fault : Fault}

def site (e : Engine) : Site := ⟨e.memory, e.ip, e.base⟩

theorem fetch_of_negative (negative : e.word < 0) :
    e.fetch = .error (.illegalOpcode e.word e.ip) := by
  have low : (e.memory.cell e.ip).toInt < 0 := negative
  simp only [fetch, Cursor.start, low, if_true]
  rfl

theorem fetch_of_unknown (positive : 0 ≤ e.word)
    (unknown : ∀ opcode : Opcode, e.word % 100 ≠ opcode.code) :
    e.fetch = .error (.illegalOpcode (e.word % 100) e.ip) := by
  have high : ¬(e.memory.cell e.ip).toInt < 0 := Int.not_lt.mpr positive
  have none : Opcode.ofCode? ((e.memory.cell e.ip).toInt % 100) = none := by
    cases found : Opcode.ofCode? ((e.memory.cell e.ip).toInt % 100) with
    | none => rfl
    | some opcode => exact absurd ((Opcode.ofCode?_eq_some_iff ..).mp found) (unknown opcode)
  simp only [fetch, Cursor.start, high, if_false, Opcode.ofCode, none]
  rfl

theorem fetch_of_names (named : e.site.Names opcode) :
    e.fetch = (e.site.cursor opcode 0).instruction e.memory := by
  have started : Cursor.start e.memory e.ip e.base = .ok (e.site.cursor opcode 0) :=
    (e.site.start_eq_ok_iff _).mpr ⟨named, rfl⟩
  rw [fetch, started]

theorem fetch_of_supplies (named : e.site.Names opcode)
    (supplied : ∀ k < opcode.arity, e.site.Supplies k) :
    e.fetch = (e.site.resolve opcode).map (⟨·, 1 + opcode.arity⟩) :=
  (fetch_of_names named).trans (Site.instruction_of_supplies named supplied)

theorem fetch_of_lacks (named : e.site.Names opcode) (below : k < opcode.arity)
    (before : ∀ j < k, e.site.Supplies j) (lacking : e.site.Lacks k fault) :
    e.fetch = .error fault :=
  (fetch_of_names named).trans (Site.instruction_of_lacks named below before lacking)

end Engine

end TapeMachine
