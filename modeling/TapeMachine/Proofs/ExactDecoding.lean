import TapeMachine.Proofs.Addressing
import TapeMachine.Proofs.Decoding
import TapeMachine.Proofs.Exact
import TapeMachine.Proofs.Stepping

/-! An engine that holds the same numbers as the exact machine resolves the same instruction, as
long as the numbers computed on the way are in the range of a cell. Parameters are compared one by
one: two computations that may fail are related if they fail alike or give related results. -/

namespace TapeMachine

open Cell (InRange)

/-- Two computations fail alike, or give related results. -/
inductive Alike {α β : Type} (related : α → β → Prop) : Except Fault α → Except Fault β → Prop
  | error (fault : Fault) : Alike related (.error fault) (.error fault)
  | ok {a : α} {b : β} (same : related a b) : Alike related (.ok a) (.ok b)

namespace Alike

variable {α β γ δ : Type} {related : α → β → Prop} {results : γ → δ → Prop}
  {x : Except Fault α} {y : Except Fault β}

theorem bind {f : α → Except Fault γ} {g : β → Except Fault δ} (alike : Alike related x y)
    (next : ∀ a b, y = .ok b → related a b → Alike results (f a) (g b)) :
    Alike results (x >>= f) (y >>= g) := by
  cases alike with
  | error fault => exact .error fault
  | ok same => exact next _ _ rfl same

theorem map {f : α → γ} {g : β → δ} (alike : Alike related x y)
    (next : ∀ a b, y = .ok b → related a b → results (f a) (g b)) :
    Alike results (x.map f) (y.map g) := by
  cases alike with
  | error fault => exact .error fault
  | ok same => exact .ok (next _ _ rfl same)

theorem exists_ok_iff (alike : Alike related x y) : (∃ a, x = .ok a) ↔ ∃ b, y = .ok b := by
  cases alike with
  | error fault => simp
  | ok same => simp

end Alike

/-- Registers and memory hold the same numbers as those of the exact machine. -/
structure Engine.Follows (e : Engine) (r : ExactEngine) : Prop where
  ip : e.ip = r.ip
  base : e.base.toInt = r.base
  steps : e.steps = r.steps
  length : e.memory.size = r.length
  memory : ∀ address : Cell, (e.memory.read address).toInt = r.memory address.toInt
  bounded : ∀ position < r.length, InRange position

structure Cursor.Reading (c : Cursor) (r : ExactEngine) (k : Nat) : Prop where
  positive : 0 ≤ r.word
  code : r.word % 100 = c.opcode.code
  ip : c.ip = r.ip
  base : c.base.toInt = r.base
  modes : c.modes = r.word.toNat / 10 ^ (2 + k)
  used : c.used = k

namespace Engine.Follows

variable {e : Engine} {r : ExactEngine} {c : Cursor} {k : Nat}

theorem cell (follows : e.Follows r) {position : Nat} (inside : position < r.length) :
    (e.memory.cell position).toInt = r.memory position := by
  have fits := follows.bounded position inside
  rw [← Memory.read_ofNat _ fits, follows.memory, Cell.toInt_ofNat fits]

theorem word (follows : e.Follows r) (inside : r.ip < r.length) : e.word = r.word := by
  rw [Engine.word, follows.ip, follows.cell inside]
  rfl

theorem reading_start (follows : e.Follows r) (inside : r.ip < r.length)
    (started : Cursor.start e.memory e.ip e.base = .ok c) : c.Reading r 0 := by
  obtain ⟨positive, code, same⟩ := (Cursor.start_eq_ok_iff ..).mp started
  rw [← Engine.word, follows.word inside] at positive code same
  rw [same]
  exact ⟨positive, code, follows.ip, follows.base, rfl, rfl⟩

end Engine.Follows

namespace Cursor

variable {e : Engine} {r : ExactEngine} {c : Cursor} {k : Nat}

theorem Reading.next (reading : c.Reading r k) : c.next.Reading r (k + 1) where
  positive := reading.positive
  code := reading.code
  ip := reading.ip
  base := reading.base
  modes := by
    rw [Cursor.next, reading.modes, Nat.div_div_eq_div_mul, ← Nat.pow_succ]
    rfl
  used := by rw [Cursor.next, reading.used]

theorem Reading.opcode (reading : c.Reading r k) : r.opcode = c.opcode.code := by
  have := reading.code
  have := reading.positive
  unfold ExactEngine.opcode
  omega

theorem Reading.slot (reading : c.Reading r k) : c.slot = r.slot k := by
  rw [Cursor.slot, ExactEngine.slot, reading.ip, reading.used]

theorem Reading.digit (reading : c.Reading r k) : ((c.modes % 10 : Nat) : Int) = r.mode k := by
  rw [reading.modes, ExactEngine.mode]
  push_cast [Int.toNat_of_nonneg reading.positive]
  rfl

theorem mode_of_outside (reading : c.Reading r k) (follows : e.Follows r)
    (outside : r.length ≤ r.slot k) :
    c.mode e.memory = .error (.insufficientParameters (r.word % 100) r.ip) := by
  rw [mode, if_pos (by rw [follows.length, reading.slot]; exact outside), reading.code, reading.ip]

theorem mode_of_inside (reading : c.Reading r k) (follows : e.Follows r)
    (inside : r.slot k < r.length) : c.mode e.memory = Mode.ofDigit (r.mode k) r.ip := by
  rw [mode, if_neg (by rw [follows.length, reading.slot]; omega), reading.digit, reading.ip]

/-- A destination is resolved alike, whether or not it is in range. -/
theorem address_alike (reading : c.Reading r k) (follows : e.Follows r) :
    Alike (fun address a => InRange a → address.toInt = a) (c.address e.memory) (r.place k) := by
  unfold address ExactEngine.place
  by_cases outside : r.length ≤ r.slot k
  · rw [mode_of_outside reading follows outside, if_pos outside]
    exact .error _
  · have inside : r.slot k < r.length := Nat.lt_of_not_le outside
    have raw := follows.cell inside
    rw [mode_of_inside reading follows inside, if_neg outside]
    by_cases h0 : r.mode k = 0
    · rw [if_pos h0, h0]
      refine .ok fun _ => ?_
      rw [addressBy, reading.slot, raw]
    rw [if_neg h0]
    by_cases h1 : r.mode k = 1
    · rw [if_pos h1, h1]
      refine .ok fun fits => ?_
      rw [addressBy, reading.slot, Cell.toInt_ofNat fits]
    rw [if_neg h1]
    by_cases h2 : r.mode k = 2
    · rw [if_pos h2, h2]
      refine .ok fun fits => ?_
      rw [← raw, ← reading.base] at fits ⊢
      rw [addressBy, reading.slot, Cell.toInt_satAdd, Cell.clamp_of_le fits.1 fits.2]
    · rw [if_neg h2, Mode.ofDigit_of_illegal _ h0 h1 h2]
      exact .error _

theorem value_eq (reading : c.Reading r k) (follows : e.Follows r) :
    c.value e.memory = (c.address e.memory).map e.memory.read := by
  by_cases outside : r.length ≤ r.slot k
  · rw [value, address, mode_of_outside reading follows outside]
    rfl
  · have fits : InRange c.slot := by
      rw [reading.slot]
      exact follows.bounded _ (Nat.lt_of_not_le outside)
    rw [value, address]
    cases c.mode e.memory with
    | error fault => rfl
    | ok mode =>
      cases mode with
      | immediate => exact congrArg Except.ok (Memory.read_ofNat _ fits).symm
      | positional => rfl
      | relative => rfl

theorem value_alike (reading : c.Reading r k) (follows : e.Follows r)
    (fits : ∀ a, r.place k = .ok a → InRange a) :
    Alike (fun value a => value.toInt = a) (c.value e.memory) (r.operand k) := by
  rw [value_eq reading follows]
  refine (address_alike reading follows).map fun address a resolved same => ?_
  rw [follows.memory, same (fits a resolved)]

end Cursor

namespace ExactEngine

variable {e : Engine} {r : ExactEngine} {k count : Nat}

theorem inRange_of_place (follows : e.Follows r) (near : ∀ a ∈ r.relatives k (count + 1), InRange a)
    {a : Int} (resolved : r.place k = .ok a) : InRange a := by
  simp only [relatives, resolved] at near
  unfold place at resolved
  split at resolved
  · cases resolved
  next outside =>
    have inside : r.slot k < r.length := Nat.lt_of_not_le outside
    split at resolved
    · cases resolved
      rw [← follows.cell inside]
      exact Cell.inRange_toInt _
    split at resolved
    · cases resolved
      exact follows.bounded _ inside
    split at resolved
    next relative => exact near a (by simp [relative])
    · cases resolved

theorem near_succ (near : ∀ a ∈ r.relatives k (count + 1), InRange a) {a : Int}
    (resolved : r.place k = .ok a) : ∀ b ∈ r.relatives (k + 1) count, InRange b := by
  simp only [relatives, resolved] at near
  exact fun b member => near b (List.mem_append_right _ member)

end ExactEngine

def Action.exact : Action → Move
  | store address value => .store address.toInt value.toInt
  | input address => .input address.toInt
  | output value => .output value.toInt
  | jump target => .jump target
  | skip => .skip
  | rebase delta => .rebase delta.toInt
  | halt => .halt

def Instruction.Makes (i : Instruction) (move : Move) : Prop :=
  i.action.exact = move ∧ i.width = move.width

namespace Cursor

variable {e : Engine} {r : ExactEngine} {c : Cursor}

theorem Reading.width {k : Nat} (reading : c.Reading r k) : c.width = 1 + k := by
  rw [Cursor.width, reading.used]

/-- Pulls a value on both sides and hands on what is known of the parameters behind it. -/
theorem bind_value_alike {α β : Type} {results : α → β → Prop} {k count : Nat}
    {f : Cell → Except Fault α} {g : Int → Except Fault β} (reading : c.Reading r k)
    (follows : e.Follows r) (near : ∀ a ∈ r.relatives k (count + 1), InRange a)
    (next : ∀ value : Cell, r.operand k = .ok value.toInt →
      (∀ a ∈ r.relatives (k + 1) count, InRange a) → Alike results (f value) (g value.toInt)) :
    Alike results (c.value e.memory >>= f) (r.operand k >>= g) := by
  have fits (a) (resolved : r.place k = .ok a) := ExactEngine.inRange_of_place follows near resolved
  refine (value_alike reading follows fits).bind ?_
  rintro value _ pulled rfl
  obtain ⟨a, resolved, -⟩ := (map_eq_ok_iff ..).mp pulled
  exact next value pulled (ExactEngine.near_succ near resolved)

theorem combine_alike {f : Cell → Cell → Cell} {g : Int → Int → Int} (reading : c.Reading r 0)
    (follows : e.Follows r) (near : ∀ a ∈ r.relatives 0 3, InRange a)
    (result : ∀ address value, r.binary g = .ok (.store address value) → InRange value)
    (same : ∀ a b : Cell, InRange (g a.toInt b.toInt) → (f a b).toInt = g a.toInt b.toInt) :
    Alike Instruction.Makes (c.combine e.memory f) (r.binary g) := by
  refine bind_value_alike reading follows near fun a first near => ?_
  refine bind_value_alike reading.next follows near fun b second near => ?_
  refine (address_alike reading.next.next follows).bind fun address z third toInt_address => ?_
  have stored : r.binary g = .ok (.store z (g a.toInt b.toInt)) := by
    rw [ExactEngine.binary, first, second, third]
    rfl
  have inside := ExactEngine.inRange_of_place follows near third
  refine .ok ⟨?_, reading.next.next.next.width⟩
  rw [Action.exact, toInt_address inside, same a b (result z _ stored)]

theorem branch_alike {taken : Cell → Bool} {taken' : Int → Bool} (reading : c.Reading r 0)
    (follows : e.Follows r) (near : ∀ a ∈ r.relatives 0 2, InRange a)
    (same : ∀ a : Cell, taken a = taken' a.toInt) :
    Alike Instruction.Makes (c.branch e.memory taken) (r.branch taken') := by
  refine bind_value_alike reading follows near fun a first near => ?_
  refine bind_value_alike reading.next follows near fun b second near => ?_
  rw [← same]
  cases taken a with
  | false => exact .ok ⟨rfl, reading.next.next.width⟩
  | true =>
    rw [if_pos rfl, if_pos rfl, target, reading.ip]
    by_cases negative : b < 0
    · rw [if_pos negative, if_pos (Cell.lt_zero_iff.mp negative)]
      exact .error _
    · rw [if_neg negative, if_neg (mt Cell.lt_zero_iff.mpr negative)]
      exact .ok ⟨rfl, reading.next.next.width⟩

theorem toInt_ofBool_lt (a b : Cell) :
    (Cell.ofBool (a < b)).toInt = if a.toInt < b.toInt then 1 else 0 := by
  by_cases less : a < b
  · rw [if_pos (Int64.lt_iff_toInt_lt.mp less), decide_eq_true less]
    rfl
  · rw [if_neg (mt Int64.lt_iff_toInt_lt.mpr less), decide_eq_false less]
    rfl

theorem toInt_ofBool_eq (a b : Cell) :
    (Cell.ofBool (a == b)).toInt = if a.toInt = b.toInt then 1 else 0 := by
  by_cases same : a = b
  · rw [if_pos (congrArg _ same), beq_iff_eq.mpr same]
    rfl
  · rw [if_neg (mt Int64.toInt_inj.mp same), beq_eq_false_iff_ne.mpr same]
    rfl

theorem beq_zero_eq (a : Cell) : (a == 0) = (a.toInt == 0) := by
  rw [Bool.eq_iff_iff, beq_iff_eq, beq_iff_eq]
  exact Int64.toInt_inj.symm

/-- An instruction is resolved alike if the numbers that it computes are in range. -/
theorem instruction_alike (reading : c.Reading r 0) (follows : e.Follows r)
    (fits : ∀ a ∈ r.computed, InRange a) :
    Alike Instruction.Makes (c.instruction e.memory) r.move := by
  have near : ∀ a ∈ r.relatives 0 (ExactEngine.arity r.opcode), InRange a := fun a member =>
    fits a (List.mem_append_left _ member)
  have stored (address value) (moves : r.move = .ok (.store address value)) : InRange value :=
    fits value (List.mem_append_right _ (by simp [moves]))
  rw [ExactEngine.move, if_neg (Int.not_lt.mpr reading.positive)] at stored ⊢
  rw [reading.opcode] at near stored ⊢
  have first (near : ∀ a ∈ r.relatives 0 1, InRange a) :=
    value_alike reading follows fun _ => ExactEngine.inRange_of_place follows near
  unfold instruction
  generalize c.opcode = opcode at near stored ⊢
  cases opcode with
  | add =>
    exact combine_alike reading follows near stored fun a b fits =>
      (Cell.toInt_satAdd a b).trans (Cell.clamp_of_le fits.1 fits.2)
  | mul =>
    exact combine_alike reading follows near stored fun a b fits =>
      (Cell.toInt_satMul a b).trans (Cell.clamp_of_le fits.1 fits.2)
  | lessThan =>
    exact combine_alike reading follows near stored fun a b _ => toInt_ofBool_lt a b
  | equals =>
    exact combine_alike reading follows near stored fun a b _ => toInt_ofBool_eq a b
  | jumpIfTrue =>
    exact branch_alike reading follows near fun a => congrArg not (beq_zero_eq a)
  | jumpIfFalse => exact branch_alike reading follows near beq_zero_eq
  | input =>
    refine (address_alike reading follows).map fun address a resolved same => ⟨?_, ?_⟩
    · rw [Action.exact, same (ExactEngine.inRange_of_place follows near resolved)]
    · exact reading.next.width
  | output =>
    exact (first near).map fun value a _ same =>
      ⟨congrArg Move.output same, reading.next.width⟩
  | rebase =>
    exact (first near).map fun value a _ same =>
      ⟨congrArg Move.rebase same, reading.next.width⟩
  | halt => exact .ok ⟨rfl, reading.width⟩

end Cursor

namespace ExactEngine

variable {r : ExactEngine}

theorem moveOf_of_unknown {code : Nat} (unknown : Opcode.ofCode? code = none) :
    r.moveOf code = .error (.illegalOpcode code r.ip) := by
  have distinct (opcode : Opcode) : code ≠ opcode.code := by
    intro same
    rw [same, (Opcode.ofCode?_eq_some_iff _ opcode).mpr rfl] at unknown
    cases unknown
  unfold moveOf
  split
  case h_1 => exact absurd rfl (distinct .add)
  case h_2 => exact absurd rfl (distinct .mul)
  case h_3 => exact absurd rfl (distinct .input)
  case h_4 => exact absurd rfl (distinct .output)
  case h_5 => exact absurd rfl (distinct .jumpIfTrue)
  case h_6 => exact absurd rfl (distinct .jumpIfFalse)
  case h_7 => exact absurd rfl (distinct .lessThan)
  case h_8 => exact absurd rfl (distinct .equals)
  case h_9 => exact absurd rfl (distinct .rebase)
  case h_10 => exact absurd rfl (distinct .halt)
  case h_11 => rfl

theorem moveOf_eq_input_iff {code : Nat} {a : Int} :
    r.moveOf code = .ok (.input a) ↔ code = 3 ∧ r.place 0 = .ok a := by
  constructor
  · intro moves
    unfold moveOf at moves
    split at moves
    case h_3 =>
      obtain ⟨address, resolved, same⟩ := (map_eq_ok_iff ..).mp moves
      cases same
      exact ⟨rfl, resolved⟩
    case h_1 | h_2 | h_7 | h_8 =>
      simp [binary, bind_eq_ok_iff, pure, Except.pure] at moves
    case h_5 | h_6 =>
      simp only [branch, bind_eq_ok_iff] at moves
      obtain ⟨condition, -, target, -, chosen⟩ := moves
      split at chosen
      · split at chosen <;> cases chosen
      · cases chosen
    case h_4 | h_9 =>
      obtain ⟨value, -, same⟩ := (map_eq_ok_iff ..).mp moves
      cases same
    case h_10 | h_11 => cases moves
  · rintro ⟨rfl, resolved⟩
    exact (map_eq_ok_iff ..).mpr ⟨a, resolved, rfl⟩

theorem move_eq_input_iff {a : Int} :
    r.move = .ok (.input a) ↔ 0 ≤ r.word ∧ r.opcode = 3 ∧ r.place 0 = .ok a := by
  unfold move
  split
  next negative =>
    constructor
    · intro moves
      cases moves
    · rintro ⟨positive, -⟩
      omega
  next positive => rw [moveOf_eq_input_iff, and_iff_right (Int.not_lt.mp positive)]

end ExactEngine

namespace Engine

variable {e : Engine} {r : ExactEngine}

theorem fetch_alike (follows : e.Follows r) (inside : r.ip < r.length)
    (fits : ∀ a ∈ r.computed, InRange a) : Alike Instruction.Makes e.fetch r.move := by
  unfold fetch
  cases started : Cursor.start e.memory e.ip e.base with
  | ok c => exact Cursor.instruction_alike (follows.reading_start inside started) follows fits
  | error fault =>
    have word : (e.memory.cell e.ip).toInt = r.word := follows.word inside
    simp only [Cursor.start, word] at started
    rw [follows.ip] at started
    by_cases negative : r.word < 0
    · rw [if_pos negative] at started
      cases started
      rw [ExactEngine.move, if_pos negative]
      exact .error _
    · have code : r.word % 100 = r.opcode := by
        unfold ExactEngine.opcode
        omega
      rw [if_neg negative, Opcode.ofCode, code] at started
      cases found : Opcode.ofCode? r.opcode with
      | some opcode => simp [found] at started
      | none =>
        simp only [found, Except.error.injEq] at started
        rw [ExactEngine.move, if_neg negative, ExactEngine.moveOf_of_unknown found, started]
        exact .error _

/-- Both sides stand at an input instruction, or neither does, whatever the range of the numbers. -/
theorem reads_iff (follows : e.Follows r) :
    e.Reads ↔ r.ip < r.length ∧ ∃ a, r.move = .ok (.input a) := by
  rw [Reads, follows.ip, follows.length]
  refine and_congr_right fun inside => ?_
  have word : (e.memory.cell e.ip).toInt = r.word := follows.word inside
  constructor
  · rintro ⟨address, width, fetched⟩
    unfold fetch at fetched
    split at fetched
    next c started =>
      have reading := follows.reading_start inside started
      obtain ⟨member, -⟩ := Cursor.instruction_ok fetched
      have opcode : c.opcode = .input := List.mem_singleton.mp member
      rw [Cursor.instruction, opcode] at fetched
      obtain ⟨address, resolved, -⟩ := (map_eq_ok_iff ..).mp fetched
      obtain ⟨a, place⟩ := (Cursor.address_alike reading follows).exists_ok_iff.mp ⟨_, resolved⟩
      refine ⟨a, ExactEngine.move_eq_input_iff.mpr ⟨reading.positive, ?_, place⟩⟩
      rw [reading.opcode, opcode]
      rfl
    · cases fetched
  · rintro ⟨a, moves⟩
    obtain ⟨positive, code, place⟩ := ExactEngine.move_eq_input_iff.mp moves
    have started : Cursor.start e.memory e.ip e.base =
        .ok ⟨.input, e.ip, e.base, (e.memory.cell e.ip).toInt.toNat / 100, 0⟩ := by
      refine (Cursor.start_eq_ok_iff ..).mpr ⟨by rwa [word], ?_, rfl⟩
      have remainder : r.word.toNat % 100 = 3 := code
      rw [word]
      show r.word % 100 = 3
      omega
    have reading := follows.reading_start inside started
    obtain ⟨address, resolved⟩ := (Cursor.address_alike reading follows).exists_ok_iff.mpr ⟨a, place⟩
    refine ⟨address, 2, ?_⟩
    rw [fetch, started]
    exact (map_eq_ok_iff ..).mpr ⟨address, resolved, rfl⟩

theorem follows_ofProgram {program : Program} (addressable : InRange program.cells.length)
    (limit : Nat) :
    (ofProgram program limit).Follows (.ofProgram (program.cells.map Int64.toInt)) where
  ip := rfl
  base := rfl
  steps := rfl
  length := by
    show program.cells.toArray.size = (program.cells.map Int64.toInt).length
    simp
  memory address := by
    show ((Memory.ofProgram program limit).read address).toInt =
      if address.toInt < 0 then 0
        else (program.cells.map Int64.toInt)[address.toNatClampNeg]?.getD 0
    rw [Memory.read_ofProgram, List.getElem?_map]
    by_cases low : address < 0
    · rw [if_pos low, if_pos (Cell.lt_zero_iff.mp low)]
      rfl
    · rw [if_neg low, if_neg (mt Cell.lt_zero_iff.mpr low)]
      cases program.cells[address.toNatClampNeg]? <;> rfl
  bounded position inside := by
    replace inside : position < (program.cells.map Int64.toInt).length := inside
    rw [List.length_map] at inside
    have limits := Cell.inRange_iff.mp addressable
    exact Cell.inRange_iff.mpr (by omega)

theorem Follows.goto (follows : e.Follows r) (target : Nat) :
    (e.goto target).Follows (r.goto target) :=
  ⟨rfl, follows.base, congrArg (· + 1) follows.steps, follows.length, follows.memory,
    follows.bounded⟩

theorem Follows.advance (follows : e.Follows r) (width : Nat) :
    (e.goto (e.ip + width)).Follows (r.advance width) := by
  rw [follows.ip]
  exact follows.goto (r.ip + width)

/-- Both sides complete a write. -/
theorem Follows.set (follows : e.Follows r) (address value : Cell) (width : Nat) :
    Follows ⟨e.memory.set address value, e.ip + width, e.base, e.steps + 1⟩
      ((r.write address.toInt value.toInt).advance width) where
  ip := congrArg (· + width) follows.ip
  base := follows.base
  steps := congrArg (· + 1) follows.steps
  length := by
    show (e.memory.set address value).size =
      if (r.length : Int) ≤ address.toInt then (address.toInt + 1).toNat else r.length
    rw [Memory.size_set, follows.length]
    split <;> omega
  memory other := by
    show ((e.memory.set address value).read other).toInt =
      if other.toInt = address.toInt then value.toInt else r.memory other.toInt
    simp only [Memory.read_set, Int64.toInt_inj]
    split
    · rfl
    · exact follows.memory other
  bounded position inside := by
    have limits := Cell.inRange_iff.mp (Cell.inRange_toInt address)
    replace inside : position <
      if (r.length : Int) ≤ address.toInt then (address.toInt + 1).toNat else r.length := inside
    split at inside
    · exact Cell.inRange_iff.mpr (by omega)
    · exact follows.bounded position inside

end Engine

end TapeMachine
