import TapeMachine.Engine

/-! If the instruction at the instruction pointer resolves, its word is not negative, the two lowest
digits are the code of an opcode, and the opcode fixes the kind of the action and the number of
cells that the instruction takes up. -/

namespace TapeMachine

theorem bind_eq_ok_iff {ε α β : Type} (x : Except ε α) (f : α → Except ε β) (b : β) :
    (x >>= f) = .ok b ↔ ∃ a, x = .ok a ∧ f a = .ok b := by
  cases x <;> simp [bind, Except.bind]

theorem map_eq_ok_iff {ε α β : Type} (x : Except ε α) (f : α → β) (b : β) :
    x.map f = .ok b ↔ ∃ a, x = .ok a ∧ f a = b := by
  cases x <;> simp [Except.map]

theorem Mode.ofDigit_of_illegal {digit : Int} (ip : Nat) (h0 : digit ≠ 0) (h1 : digit ≠ 1)
    (h2 : digit ≠ 2) : Mode.ofDigit digit ip = .error (.illegalMode digit ip) := by
  have none : Mode.ofDigit? digit = none := by
    simp [Mode.ofDigit?, Mode.all, Mode.digit, h0.symm, h1.symm, h2.symm]
  rw [Mode.ofDigit, none]

def Action.opcodes : Action → List Opcode
  | store _ _ => [.add, .mul, .lessThan, .equals]
  | input _ => [.input]
  | output _ => [.output]
  | jump _ | skip => [.jumpIfTrue, .jumpIfFalse]
  | rebase _ => [.rebase]
  | halt => [.halt]

namespace Cursor

variable {m : Memory} {c : Cursor} {i : Instruction}

theorem start_eq_ok_iff (m : Memory) (ip : Nat) (base : Cell) (c : Cursor) :
    start m ip base = .ok c ↔ 0 ≤ (m.cell ip).toInt ∧ (m.cell ip).toInt % 100 = c.opcode.code ∧
      c = ⟨c.opcode, ip, base, (m.cell ip).toInt.toNat / 100, 0⟩ := by
  simp only [start, Opcode.ofCode]
  by_cases negative : (m.cell ip).toInt < 0
  · simp only [if_pos negative, reduceCtorEq, false_iff, not_and]
    intro positive
    omega
  · rw [if_neg negative]
    constructor
    · intro started
      cases found : Opcode.ofCode? ((m.cell ip).toInt % 100) with
      | none => simp [found] at started
      | some opcode =>
        simp only [found, Except.ok.injEq] at started
        subst started
        exact ⟨by omega, (Opcode.ofCode?_eq_some_iff _ _).mp found, rfl⟩
    · rintro ⟨-, code, same⟩
      rw [(Opcode.ofCode?_eq_some_iff _ _).mpr code, same]

theorem combine_ok {f : Cell → Cell → Cell} (resolved : c.combine m f = .ok i) :
    ∃ a b address, c.value m = .ok a ∧ c.next.value m = .ok b ∧ c.next.next.address m = .ok address ∧
      i = ⟨.store address (f a b), c.width + 3⟩ := by
  simp only [combine, bind_eq_ok_iff, pure, Except.pure, Except.ok.injEq] at resolved
  obtain ⟨a, first, b, second, address, third, rfl⟩ := resolved
  exact ⟨a, b, address, first, second, third, by simp⟩

theorem branch_ok {taken : Cell → Bool} (resolved : c.branch m taken = .ok i) :
    ∃ condition value, c.value m = .ok condition ∧ c.next.value m = .ok value ∧
      ((taken condition = true ∧ ∃ target, c.target value = .ok target ∧
          i = ⟨.jump target, c.width + 2⟩) ∨
        (taken condition = false ∧ i = ⟨.skip, c.width + 2⟩)) := by
  simp only [branch, bind_eq_ok_iff] at resolved
  obtain ⟨condition, first, value, second, chosen⟩ := resolved
  refine ⟨condition, value, first, second, ?_⟩
  cases decision : taken condition with
  | true =>
    simp only [decision, if_true, bind_eq_ok_iff, pure, Except.pure, Except.ok.injEq] at chosen
    obtain ⟨target, found, rfl⟩ := chosen
    exact .inl ⟨rfl, target, found, by simp⟩
  | false =>
    simp only [decision, pure, Except.pure] at chosen
    cases chosen
    exact .inr ⟨rfl, by simp⟩

/-- The opcode of a resolved instruction fixes the kind of its action and its width. -/
theorem instruction_ok (resolved : c.instruction m = .ok i) :
    c.opcode ∈ i.action.opcodes ∧ i.width = c.width + c.opcode.arity := by
  unfold instruction at resolved
  split at resolved
  case h_1 opcode | h_2 opcode | h_3 opcode | h_4 opcode =>
    obtain ⟨a, b, address, -, -, -, rfl⟩ := combine_ok resolved
    rw [opcode]
    exact ⟨by simp [Action.opcodes], rfl⟩
  case h_7 opcode | h_8 opcode =>
    obtain ⟨condition, value, -, -, ⟨-, target, -, rfl⟩ | ⟨-, rfl⟩⟩ := branch_ok resolved
    all_goals
      rw [opcode]
      exact ⟨by simp [Action.opcodes], rfl⟩
  case h_5 opcode | h_6 opcode | h_9 opcode =>
    obtain ⟨cell, -, rfl⟩ := (map_eq_ok_iff ..).mp resolved
    rw [opcode]
    exact ⟨by simp [Action.opcodes], width_next c⟩
  case h_10 opcode =>
    cases resolved
    rw [opcode]
    exact ⟨by simp [Action.opcodes], rfl⟩

end Cursor

namespace Engine

def word (e : Engine) : Int := (e.memory.cell e.ip).toInt

theorem fetch_ok {e : Engine} {i : Instruction} (fetched : e.fetch = .ok i) :
    ∃ opcode ∈ i.action.opcodes, 0 ≤ e.word ∧ e.word % 100 = opcode.code ∧
      i.width = 1 + opcode.arity := by
  unfold fetch at fetched
  split at fetched
  · rename_i cursor started
    obtain ⟨positive, code, same⟩ := (Cursor.start_eq_ok_iff ..).mp started
    obtain ⟨member, width⟩ := Cursor.instruction_ok fetched
    refine ⟨cursor.opcode, member, positive, code, ?_⟩
    rw [width, same]
    rfl
  · cases fetched

end Engine

end TapeMachine
