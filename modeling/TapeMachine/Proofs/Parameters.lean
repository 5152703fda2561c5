import Mathlib.Algebra.Order.Ring.Int
import Mathlib.Algebra.Ring.Nat
import TapeMachine.Proofs.Decoding
import TapeMachine.Proofs.SignedMap

/-! A cursor divides its word by ten each time a parameter is pulled. Each parameter also has a
formula of its own: the parameter `k` has the slot `ip + 1 + k` and the mode digit of the word at
`10 ^ (2 + k)`. Whatever is pulled and however often a pull is refused, the cursor keeps to the
formula, so the digits above those of the parameters pulled do not matter. -/

namespace TapeMachine

/-- Where an instruction stands: its memory, the position of its word, the base of its relative
addresses. -/
structure Site where
  memory : Memory
  ip : Nat
  base : Cell
  deriving DecidableEq

namespace Site

variable (s : Site)

def word : Int := (s.memory.cell s.ip).toInt

def slot (k : Nat) : Nat := s.ip + 1 + k

def raw (k : Nat) : Cell := s.memory.cell (s.slot k)

def digit (k : Nat) : Int := s.word / 10 ^ (2 + k) % 10

def Names (opcode : Opcode) : Prop := 0 ≤ s.word ∧ s.word % 100 = opcode.code

instance (opcode : Opcode) : Decidable (s.Names opcode) := inferInstanceAs (Decidable (_ ∧ _))

/-- The cursor that has come to the parameter `k`. -/
def cursor (opcode : Opcode) (k : Nat) : Cursor :=
  ⟨opcode, s.ip, s.base, s.word.toNat / 10 ^ (2 + k), k⟩

def withWord (word : Cell) : Site := { s with memory := s.memory.setCell s.ip word }

end Site

theorem digit_congr {w w' n k : Nat} (same : w % 10 ^ (2 + n) = w' % 10 ^ (2 + n)) (below : k < n) :
    w / 10 ^ (2 + k) % 10 = w' / 10 ^ (2 + k) % 10 := by
  have divides : 10 ^ (2 + k) * 10 ∣ 10 ^ (2 + n) := by
    rw [← Nat.pow_succ]
    exact Nat.pow_dvd_pow 10 (by omega)
  rw [← Nat.mod_mul_right_div_self, ← Nat.mod_mul_right_div_self, ← Nat.mod_mod_of_dvd w divides,
    ← Nat.mod_mod_of_dvd w' divides, same]

namespace Cursor

/-- The next pull gives this value or this address, whichever it is for, and moves on. -/
def Yields (m : Memory) (c : Cursor) (value address : Cell) : Prop :=
  c.pull m .value = (.ok value, c.next) ∧ c.pull m .address = (.ok address, c.next)

def pulls (m : Memory) (c : Cursor) : List Use → List (Except Fault Cell) × Cursor
  | [] => ([], c)
  | use :: uses =>
    let (answer, next) := c.pull m use
    let (answers, last) := next.pulls m uses
    (answer :: answers, last)

/-- The address at which the next pull looks for its value, if it does. -/
def lookup? (m : Memory) (c : Cursor) : Use → Option Cell
  | .address => none
  | .value =>
    match c.mode m with
    | .ok .positional => some (m.cell c.slot)
    | .ok .relative => some ((m.cell c.slot).satAdd c.base)
    | _ => none

def lookups (m : Memory) (c : Cursor) : List Use → List Cell
  | [] => []
  | use :: uses => (c.lookup? m use).toList ++ (c.pull m use).2.lookups m uses

theorem fst_pull (m : Memory) (c : Cursor) (use : Use) : (c.pull m use).1 = c.peek m use := by
  unfold pull
  split <;> simp_all

variable {m : Memory} {c : Cursor}

theorem pull_of_mode_error {fault : Fault} (refused : c.mode m = .error fault) (use : Use) :
    c.pull m use = (.error fault, c) := by
  cases use <;> simp [pull, peek, value, address, refused, Except.map]

theorem yields_of_mode {mode : Mode} (found : c.mode m = .ok mode) :
    c.Yields m (c.valueBy m mode) (c.addressBy m mode) := by
  constructor <;> simp [pull, peek, value, address, found, Except.map]

theorem Yields.pull {value address : Cell} (yields : c.Yields m value address) (use : Use) :
    ∃ cell, c.pull m use = (.ok cell, c.next) := by
  cases use with
  | value => exact ⟨value, yields.1⟩
  | address => exact ⟨address, yields.2⟩

/-- Whether a pull is refused does not depend on its use. -/
theorem refused_again {use : Use} {fault : Fault} (refused : (c.pull m use).1 = .error fault) :
    (c.pull m use).2 = c ∧ ∀ again, c.pull m again = (.error fault, c) := by
  cases found : c.mode m with
  | error other =>
    rw [pull_of_mode_error found] at refused ⊢
    cases refused
    exact ⟨rfl, pull_of_mode_error found⟩
  | ok mode =>
    obtain ⟨cell, pulled⟩ := (yields_of_mode found).pull use
    rw [pulled] at refused
    cases refused

end Cursor

namespace Site

variable {s : Site} {opcode : Opcode}

/-- Beyond the end of the tape there are only zeros, and zero has no opcode. -/
theorem Names.inside (named : s.Names opcode) : s.ip < s.memory.size := by
  apply Classical.byContradiction
  intro outside
  have beyond : s.memory.cells[s.ip]? = none := Array.getElem?_eq_none (Nat.le_of_not_lt outside)
  have zero : s.word = 0 := by simp [word, Memory.cell, beyond]
  have code := named.2
  rw [zero] at code
  cases opcode <;> cases code

theorem Names.unique {other : Opcode} (named : s.Names opcode) (named' : s.Names other) :
    opcode = other := by
  have found := (Opcode.ofCode?_eq_some_iff _ opcode).mpr named.2
  have found' := (Opcode.ofCode?_eq_some_iff _ other).mpr named'.2
  exact Option.some.inj (found.symm.trans found')

/-- A word has an opcode if and only if it can be decoded, and then the cursor is at its first
parameter. -/
theorem start_eq_ok_iff (s : Site) (c : Cursor) :
    Cursor.start s.memory s.ip s.base = .ok c ↔ s.Names c.opcode ∧ c = s.cursor c.opcode 0 := by
  rw [Cursor.start_eq_ok_iff, ← and_assoc]
  rfl

theorem width_cursor (s : Site) (opcode : Opcode) (k : Nat) :
    (s.cursor opcode k).width = 1 + k := rfl

theorem next_cursor (s : Site) (opcode : Opcode) (k : Nat) :
    (s.cursor opcode k).next = s.cursor opcode (k + 1) := by
  simp only [cursor, Cursor.next, Nat.div_div_eq_div_mul, ← Nat.pow_succ]
  rfl

theorem mode_cursor (named : s.Names opcode) (k : Nat) :
    (s.cursor opcode k).mode s.memory =
      if s.memory.size ≤ s.slot k then .error (.insufficientParameters (s.word % 100) s.ip)
      else Mode.ofDigit (s.digit k) s.ip := by
  have digit : ((s.word.toNat / 10 ^ (2 + k) % 10 : Nat) : Int) = s.digit k := by
    unfold Site.digit
    push_cast [Int.toNat_of_nonneg named.1]
    rfl
  rw [named.2, ← digit]
  rfl

/-- Cursors keep to the formula, whatever is pulled: each success moves on by one parameter. -/
theorem pulls_cursor (s : Site) (opcode : Opcode) (uses : List Cursor.Use) (k : Nat) :
    ((s.cursor opcode k).pulls s.memory uses).2 =
      s.cursor opcode (k + ((s.cursor opcode k).pulls s.memory uses).1.countP Except.isOk) := by
  induction uses generalizing k with
  | nil => rfl
  | cons use uses ih =>
    cases found : (s.cursor opcode k).mode s.memory with
    | error fault =>
      simp only [Cursor.pulls, Cursor.pull_of_mode_error found]
      simpa [List.countP_cons, Except.isOk, Except.toBool] using ih k
    | ok mode =>
      obtain ⟨cell, pulled⟩ := (Cursor.yields_of_mode found).pull use
      simp only [Cursor.pulls, pulled, next_cursor]
      simpa [List.countP_cons, Except.isOk, Except.toBool, Nat.add_assoc, Nat.add_comm 1]
        using ih (k + 1)

end Site

/-- The formula for the next pull of a cursor that has pulled `j` parameters. A refused pull leaves
the cursor as it was, and every later one is refused alike. -/
structure Cursor.Rule (s : Site) (j : Nat) (c : Cursor) : Prop where
  width : c.width = 1 + j
  outside : s.memory.size ≤ s.slot j → ∀ use,
    c.pull s.memory use = (.error (.insufficientParameters (s.word % 100) s.ip), c)
  illegal : s.slot j < s.memory.size → 2 < s.digit j → ∀ use,
    c.pull s.memory use = (.error (.illegalMode (s.digit j) s.ip), c)
  positional : s.slot j < s.memory.size → s.digit j = 0 →
    c.Yields s.memory (s.memory.read (s.raw j)) (s.raw j)
  immediate : s.slot j < s.memory.size → s.digit j = 1 →
    c.Yields s.memory (s.raw j) (Int64.ofNat (s.slot j))
  relative : s.slot j < s.memory.size → s.digit j = 2 →
    c.Yields s.memory (s.memory.read ((s.raw j).satAdd s.base)) ((s.raw j).satAdd s.base)
  refused : ∀ use fault, (c.pull s.memory use).1 = .error fault →
    (c.pull s.memory use).2 = c ∧ ∀ again, c.pull s.memory again = (.error fault, c)

namespace Site

variable {s : Site} {opcode : Opcode}

theorem rule_cursor (named : s.Names opcode) (j : Nat) : Cursor.Rule s j (s.cursor opcode j) := by
  have mode := s.mode_cursor named j
  have inside (fits : s.slot j < s.memory.size) :
      (s.cursor opcode j).mode s.memory = Mode.ofDigit (s.digit j) s.ip := by
    rw [mode, if_neg (Nat.not_le.mpr fits)]
  refine ⟨rfl, fun outside use => ?_, fun fits large use => ?_, fun fits digit => ?_,
    fun fits digit => ?_, fun fits digit => ?_, fun use fault => Cursor.refused_again⟩
  · apply Cursor.pull_of_mode_error
    rw [mode, if_pos outside]
  · apply Cursor.pull_of_mode_error
    rw [inside fits]
    exact Mode.ofDigit_of_illegal _ (by omega) (by omega) (by omega)
  all_goals
    rw [digit] at inside
    exact Cursor.yields_of_mode (inside fits)

@[simp] theorem word_withWord (s : Site) (word : Cell) : (s.withWord word).word = word.toInt := by
  simp [withWord, Site.word, Memory.cell_setCell]

@[simp] theorem raw_withWord (s : Site) (word : Cell) (k : Nat) :
    (s.withWord word).raw k = s.raw k := by
  have apart : s.slot k ≠ s.ip := by unfold slot; omega
  show (s.memory.setCell s.ip word).cell (s.slot k) = _
  rw [Memory.cell_setCell, if_neg apart]
  rfl

theorem size_withWord (inside : s.ip < s.memory.size) (word : Cell) :
    (s.withWord word).memory.size = s.memory.size := by
  simp only [withWord, Memory.size_setCell]
  omega

theorem read_withWord (s : Site) (word : Cell) {address : Cell} (apart : address.toInt ≠ s.ip) :
    (s.withWord word).memory.read address = s.memory.read address := by
  rw [withWord, Memory.read_setCell, if_neg apart.symm]

/-- The digits of two words agree as far as the words do. -/
theorem digit_withWord {word : Cell} {n k : Nat} (positive : 0 ≤ s.word) (positive' : 0 ≤ word.toInt)
    (congruent : word.toInt % 10 ^ (2 + n) = s.word % 10 ^ (2 + n)) (below : k < n) :
    (s.withWord word).digit k = s.digit k := by
  obtain ⟨w, known⟩ := Int.eq_ofNat_of_zero_le positive
  obtain ⟨w', known'⟩ := Int.eq_ofNat_of_zero_le positive'
  rw [known, known'] at congruent
  unfold digit
  rw [word_withWord, known, known']
  exact_mod_cast digit_congr (by exact_mod_cast congruent) below

theorem names_withWord {word : Cell} {n : Nat} (named : s.Names opcode) (positive : 0 ≤ word.toInt)
    (congruent : word.toInt % 10 ^ (2 + n) = s.word % 10 ^ (2 + n)) :
    (s.withWord word).Names opcode := by
  have divides : (100 : Int) ∣ 10 ^ (2 + n) := by
    rw [pow_add]
    exact Int.dvd_mul_right ..
  refine ⟨by rwa [word_withWord], ?_⟩
  rw [word_withWord, ← Int.emod_emod_of_dvd _ divides, congruent, Int.emod_emod_of_dvd _ divides]
  exact named.2

theorem addressBy_withWord (s : Site) (word : Cell) (k : Nat) (mode : Mode) :
    ((s.withWord word).cursor opcode k).addressBy (s.withWord word).memory mode =
      (s.cursor opcode k).addressBy s.memory mode := by
  have raw := s.raw_withWord word k
  cases mode with
  | positional => exact raw
  | immediate =>
    show Int64.ofNat ((s.withWord word).slot k) = Int64.ofNat (s.slot k)
    rfl
  | relative =>
    show ((s.withWord word).raw k).satAdd s.base = (s.raw k).satAdd s.base
    rw [raw]

theorem valueBy_withWord (word : Cell) {k : Nat} {mode : Mode}
    (found : (s.cursor opcode k).mode s.memory = .ok mode)
    (clear : ∀ address ∈ (s.cursor opcode k).lookup? s.memory .value, address.toInt ≠ s.ip) :
    ((s.withWord word).cursor opcode k).valueBy (s.withWord word).memory mode =
      (s.cursor opcode k).valueBy s.memory mode := by
  have raw := s.raw_withWord word k
  simp only [Cursor.lookup?, found] at clear
  cases mode with
  | positional =>
    have apart : (s.raw k).toInt ≠ s.ip := clear _ rfl
    show (s.withWord word).memory.read ((s.withWord word).raw k) = s.memory.read (s.raw k)
    rw [raw, read_withWord s word apart]
  | immediate => exact raw
  | relative =>
    have apart : ((s.raw k).satAdd s.base).toInt ≠ s.ip := clear _ rfl
    show (s.withWord word).memory.read (((s.withWord word).raw k).satAdd s.base) =
      s.memory.read ((s.raw k).satAdd s.base)
    rw [raw, read_withWord s word apart]

/-- With the same digit, a pull is the same before and after the word is replaced, unless it looks
at the word. -/
theorem pull_withWord {word : Cell} {k : Nat} (named : s.Names opcode)
    (named' : (s.withWord word).Names opcode) (digit : (s.withWord word).digit k = s.digit k)
    (use : Cursor.Use)
    (clear : ∀ address ∈ (s.cursor opcode k).lookup? s.memory use, address.toInt ≠ s.ip) :
    ∃ answer j, j ≤ k + 1 ∧ (s.cursor opcode k).pull s.memory use = (answer, s.cursor opcode j) ∧
      ((s.withWord word).cursor opcode k).pull (s.withWord word).memory use =
        (answer, (s.withWord word).cursor opcode j) := by
  have same : ((s.withWord word).cursor opcode k).mode (s.withWord word).memory =
      (s.cursor opcode k).mode s.memory := by
    rw [mode_cursor named', mode_cursor named, size_withWord named.inside, digit, named.2, named'.2]
    rfl
  cases found : (s.cursor opcode k).mode s.memory with
  | error fault =>
    exact ⟨.error fault, k, Nat.le_succ k, Cursor.pull_of_mode_error found use,
      Cursor.pull_of_mode_error (same.trans found) use⟩
  | ok mode =>
    obtain ⟨value, address⟩ := Cursor.yields_of_mode found
    obtain ⟨value', address'⟩ := Cursor.yields_of_mode (same.trans found)
    rw [next_cursor] at value address value' address'
    cases use with
    | value =>
      rw [valueBy_withWord word found clear] at value'
      exact ⟨_, k + 1, Nat.le_refl _, value, value'⟩
    | address =>
      rw [addressBy_withWord] at address'
      exact ⟨_, k + 1, Nat.le_refl _, address, address'⟩

/-- Pulls keep in step before and after the word is replaced: they give the same answers and come to
the same parameter, as long as no digit from `n` on is used. -/
theorem pulls_withWord {word : Cell} {n : Nat} (named : s.Names opcode)
    (positive : 0 ≤ word.toInt) (congruent : word.toInt % 10 ^ (2 + n) = s.word % 10 ^ (2 + n))
    (uses : List Cursor.Use) (k : Nat) (few : k + uses.length ≤ n)
    (clear : ∀ address ∈ (s.cursor opcode k).lookups s.memory uses, address.toInt ≠ s.ip) :
    ∃ answers j, (s.cursor opcode k).pulls s.memory uses = (answers, s.cursor opcode j) ∧
      ((s.withWord word).cursor opcode k).pulls (s.withWord word).memory uses =
        (answers, (s.withWord word).cursor opcode j) := by
  induction uses generalizing k with
  | nil => exact ⟨[], k, rfl, rfl⟩
  | cons use uses ih =>
    simp only [List.length_cons] at few
    have digit := digit_withWord named.1 positive congruent (k := k) (by omega)
    simp only [Cursor.lookups, List.mem_append, Option.mem_toList] at clear
    obtain ⟨answer, j, near, pulled, pulled'⟩ := pull_withWord named
      (names_withWord named positive congruent) digit use fun address seen => clear address (.inl seen)
    rw [pulled] at clear
    obtain ⟨answers, last, rest, rest'⟩ := ih j (by omega) fun address seen =>
      clear address (.inr seen)
    refine ⟨answer :: answers, last, ?_, ?_⟩
    · simp only [Cursor.pulls, pulled, rest]
    · simp only [Cursor.pulls, pulled', rest']

/-- Digits that a word does not have are zero. -/
theorem digit_eq_zero (positive : 0 ≤ s.word) {k : Nat} (short : s.word < 10 ^ (2 + k)) :
    s.digit k = 0 := by
  rw [digit, Int.ediv_eq_zero_of_lt positive short]
  rfl

end Site

/-- Decoding succeeds with a cursor that keeps to the formula after any pulls, the refused ones not
counted, and whose modes are positional once the digits run out. Relative addresses saturate. The
first `n` pulls depend on the lowest `2 + n` digits of the word only, unless one of them looks at
the word. -/
theorem Cursor.pulls_by_formula (s : Site) (c : Cursor)
    (started : Cursor.start s.memory s.ip s.base = .ok c) :
    (∀ uses : List Cursor.Use,
      Cursor.Rule s ((c.pulls s.memory uses).1.countP Except.isOk) (c.pulls s.memory uses).2) ∧
    (∀ k, s.word < 10 ^ (2 + k) → s.digit k = 0) ∧
    (∀ k, Cell.InRange (s.slot k) → (Int64.ofNat (s.slot k)).toInt = s.slot k) ∧
    (∀ k, ((s.raw k).satAdd s.base).toInt = Cell.clamp ((s.raw k).toInt + s.base.toInt)) ∧
    ∀ (n : Nat) (word : Cell),
      0 ≤ word.toInt → word.toInt % 10 ^ (2 + n) = s.word % 10 ^ (2 + n) →
      ∃ c', Cursor.start (s.withWord word).memory s.ip s.base = .ok c' ∧ c'.opcode = c.opcode ∧
        ∀ uses, uses.length ≤ n → (∀ address ∈ c.lookups s.memory uses, address.toInt ≠ s.ip) →
          (c'.pulls (s.withWord word).memory uses).1 = (c.pulls s.memory uses).1 ∧
            (c'.pulls (s.withWord word).memory uses).2.width =
              (c.pulls s.memory uses).2.width := by
  obtain ⟨named, same⟩ := (s.start_eq_ok_iff c).mp started
  generalize c.opcode = opcode at named same
  subst same
  refine ⟨fun uses => ?_, fun k => Site.digit_eq_zero named.1, fun k => Cell.toInt_ofNat,
    fun k => Cell.toInt_satAdd _ _, ?_⟩
  · have moved := s.pulls_cursor opcode uses 0
    rw [Nat.zero_add] at moved
    rw [moved]
    exact Site.rule_cursor named _
  · intro n word positive congruent
    have named' := Site.names_withWord named positive congruent
    refine ⟨(s.withWord word).cursor opcode 0,
      ((s.withWord word).start_eq_ok_iff _).mpr ⟨named', rfl⟩, rfl, ?_⟩
    intro uses few clear
    obtain ⟨answers, j, pulled, pulled'⟩ :=
      Site.pulls_withWord named positive congruent uses 0 (by omega) clear
    rw [pulled, pulled', Site.width_cursor, Site.width_cursor]
    exact ⟨rfl, rfl⟩

/-- Modes relative, immediate and relative, where the second relative address saturates, and then
none left; the tape ends after five parameters. The word `71201` differs from `21201` above the
digits of the first two. -/
theorem Cursor.pulls_by_formula_mixed :
    let s : Site := ⟨Memory.ofProgram ⟨[21201, 3, -1, 9223372036854775807, 99, 7]⟩ 10, 0, 1⟩
    let c : Cursor := ⟨.add, 0, 1, 212, 0⟩
    let uses : List Cursor.Use := [.value, .value, .address, .value, .value, .value, .address]
    Cursor.start s.memory s.ip s.base = .ok c ∧
      (c.pulls s.memory uses).1.map Except.toOption =
        [some 99, some (-1), some 9223372036854775807, some 0, some 0, none, none] ∧
      Cursor.Rule s 5 (c.pulls s.memory uses).2 ∧
      ((s.raw 2).satAdd s.base).toInt = Cell.clamp (9223372036854775807 + 1) ∧
      ∃ c', Cursor.start (s.withWord 71201).memory s.ip s.base = .ok c' ∧
        (c'.pulls (s.withWord 71201).memory [.value, .value]).1 =
          (c.pulls s.memory [.value, .value]).1 := by
  intro s c uses
  have started : Cursor.start s.memory s.ip s.base = .ok c :=
    (s.start_eq_ok_iff c).mpr (by decide +kernel)
  have five : (c.pulls s.memory uses).1.countP Except.isOk = 5 := by decide +kernel
  have looked : c.lookups s.memory [.value, .value] = [4] := by decide +kernel
  obtain ⟨rule, -, -, saturates, replaced⟩ := Cursor.pulls_by_formula s c started
  obtain ⟨c', started', -, pulled⟩ := replaced 2 71201 (by decide +kernel) (by decide +kernel)
  refine ⟨started, by decide +kernel, five ▸ rule uses, saturates 2, c', started', ?_⟩
  refine (pulled [.value, .value] (Nat.le_refl 2) ?_).1
  intro address member
  rw [looked, List.mem_singleton] at member
  subst member
  decide

end TapeMachine
