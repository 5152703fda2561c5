import Mathlib.Data.List.Forall2
import Mathlib.Logic.Relation
import Mathlib.Tactic.Ring
import TapeMachine.Proofs.Addressing
import TapeMachine.Proofs.CanonicalText
import TapeMachine.Proofs.Decoding

/-! A program text is a row of pieces with commas between them. Each piece is an integer in the
range of a cell, at most one sign and then digits, with blanks around it. What is not of this form
is refused for its first piece that is not an integer. Blanks at the ends of a text and next to its
commas do not matter. -/

namespace TapeMachine

namespace Text

/-- The text without the blanks at its two ends is `inner`. -/
structure Strips (text inner : List Char) : Prop where
  around : ∃ before after, text = before ++ inner ++ after ∧
    (∀ c ∈ before, isBlank c) ∧ ∀ c ∈ after, isBlank c
  first : ∀ c ∈ inner.head?, isBlank c = false
  last : ∀ c ∈ inner.getLast?, isBlank c = false

def placeValue : List Char → Nat
  | [] => 0
  | d :: ds => (d.toNat - '0'.toNat) * 10 ^ ds.length + placeValue ds

def IsDigits (text : List Char) : Prop := text ≠ [] ∧ ∀ d ∈ text, d.isDigit

/-- A written integer: digits after at most one sign. -/
inductive Denotes : List Char → Int → Prop
  | plain {digits : List Char} (written : IsDigits digits) : Denotes digits (placeValue digits)
  | plus {digits : List Char} (written : IsDigits digits) :
    Denotes ('+' :: digits) (placeValue digits)
  | minus {digits : List Char} (written : IsDigits digits) :
    Denotes ('-' :: digits) (-placeValue digits)

theorem ofDigitChars_eq (digits : List Char) (start : Nat) :
    Nat.ofDigitChars 10 digits start = start * 10 ^ digits.length + placeValue digits := by
  induction digits generalizing start with
  | nil => simp [Nat.ofDigitChars, placeValue]
  | cons d ds ih =>
    have step : Nat.ofDigitChars 10 (d :: ds) start =
        Nat.ofDigitChars 10 ds (10 * start + (d.toNat - '0'.toNat)) := rfl
    rw [step, ih, placeValue, List.length_cons]
    ring

theorem digits?_eq_some_iff (text : List Char) (n : Nat) :
    digits? text = some n ↔ IsDigits text ∧ n = placeValue text := by
  have value := ofDigitChars_eq text 0
  rw [Nat.zero_mul, Nat.zero_add] at value
  unfold digits? IsDigits
  simp only [List.all_eq_true, value]
  by_cases written : text ≠ [] ∧ ∀ d ∈ text, d.isDigit
  · rw [if_pos written, Option.some.injEq, and_iff_right written]
    exact eq_comm
  · rw [if_neg written]
    exact iff_of_false nofun fun stated => written stated.1

theorem sign_not_isDigits {sign : Char} (other : sign.isDigit = false) (rest : List Char) :
    ¬IsDigits (sign :: rest) := by
  rintro ⟨-, all⟩
  have digit := all sign List.mem_cons_self
  simp [other] at digit

theorem integer?_eq_some_iff (text : List Char) (x : Int) :
    integer? text = some x ↔ Denotes text x := by
  unfold integer?
  split
  next digits =>
    simp only [Option.map_eq_some_iff, digits?_eq_some_iff]
    constructor
    · rintro ⟨n, ⟨written, rfl⟩, rfl⟩
      exact .plus written
    · intro denotes
      cases denotes with
      | plain written => exact absurd written (sign_not_isDigits rfl _)
      | plus written => exact ⟨_, ⟨written, rfl⟩, rfl⟩
  next digits =>
    simp only [Option.map_eq_some_iff, digits?_eq_some_iff]
    constructor
    · rintro ⟨n, ⟨written, rfl⟩, rfl⟩
      exact .minus written
    · intro denotes
      cases denotes with
      | plain written => exact absurd written (sign_not_isDigits rfl _)
      | minus written => exact ⟨_, ⟨written, rfl⟩, rfl⟩
  next text notPlus notMinus =>
    simp only [Option.map_eq_some_iff, digits?_eq_some_iff]
    constructor
    · rintro ⟨n, ⟨written, rfl⟩, rfl⟩
      exact .plain written
    · intro denotes
      cases denotes with
      | plain written => exact ⟨_, ⟨written, rfl⟩, rfl⟩
      | plus written => exact absurd rfl (notPlus _)
      | minus written => exact absurd rfl (notMinus _)

theorem head_dropWhile (text : List Char) :
    ∀ c ∈ (text.dropWhile isBlank).head?, isBlank c = false := by
  intro c found
  have first := List.head?_dropWhile_not isBlank text
  rw [Option.mem_def] at found
  simpa only [found] using first

theorem strips_trim (text : List Char) : Strips text (trim text) := by
  refine ⟨exists_trim text, ?_, ?_⟩
  · intro c found
    apply head_dropWhile text
    rw [← trimEnd_append_takeWhile (text.dropWhile isBlank)]
    exact List.mem_head?_append_of_mem_head? found
  · intro c found
    apply head_dropWhile (text.dropWhile isBlank).reverse
    simpa [trim, trimEnd] using found

/-- Trimming is what removes the blanks at the ends, and nothing else does. -/
theorem strips_iff (text inner : List Char) : Strips text inner ↔ inner = trim text := by
  constructor
  · rintro ⟨⟨before, after, rfl, blank, blank'⟩, first, last⟩
    rw [trim_append_right blank', trim_append_left blank, trim_of_ends first last]
  · rintro rfl
    exact strips_trim text

end Text

namespace Program

open Text (Strips Denotes isBlank trim)

structure Splits (text : List Char) (pieces : List (List Char)) : Prop where
  inhabited : pieces ≠ []
  solid : ∀ piece ∈ pieces, ',' ∉ piece
  joined : [','].intercalate pieces = text

/-- A piece of text is an integer in the range of a cell, with blanks around it. -/
def Spells (piece : List Char) (x : Int) : Prop :=
  ∃ token, Strips piece token ∧ Denotes token x ∧ Cell.InRange x

theorem comma_not_mem_splitOn {text piece : List Char} (member : piece ∈ text.splitOn ',') :
    ',' ∉ piece := by
  induction text generalizing piece with
  | nil => simp_all
  | cons c rest ih =>
    rw [List.splitOn_cons_eq_if_modifyHead] at member
    split at member
    · rcases List.mem_cons.mp member with rfl | later
      · exact List.not_mem_nil
      · exact ih later
    next other =>
      obtain ⟨first, others, split⟩ := List.exists_cons_of_ne_nil (List.splitOn_ne_nil ',' rest)
      rw [split, List.modifyHead_cons] at member
      rw [split] at ih
      rcases List.mem_cons.mp member with rfl | later
      · have apart : ',' ≠ c := fun same => other (by rw [← same]; rfl)
        simpa [apart] using ih List.mem_cons_self
      · exact ih (List.mem_cons_of_mem _ later)

theorem splits_iff (text : List Char) (pieces : List (List Char)) :
    Splits text pieces ↔ pieces = text.splitOn ',' := by
  constructor
  · rintro ⟨inhabited, solid, rfl⟩
    exact (List.splitOn_intercalate ',' solid inhabited).symm
  · rintro rfl
    exact ⟨List.splitOn_ne_nil ',' text, fun _ => comma_not_mem_splitOn, List.intercalate_splitOn ','⟩

theorem cell?_trim_eq_some_iff (piece : List Char) (c : Cell) :
    cell? (trim piece) = some c ↔ Spells piece c.toInt := by
  unfold cell? Spells
  simp only [Option.bind_eq_some_iff, Cell.ofInt?_eq_some_iff, Text.integer?_eq_some_iff,
    Text.strips_iff]
  constructor
  · rintro ⟨x, denotes, rfl⟩
    exact ⟨_, rfl, denotes, c.inRange_toInt⟩
  · rintro ⟨token, rfl, denotes, -⟩
    exact ⟨_, denotes, rfl⟩

theorem exists_spells_iff (piece : List Char) :
    (∃ x, Spells piece x) ↔ ∃ c, cell? (trim piece) = some c := by
  simp only [cell?_trim_eq_some_iff]
  constructor
  · rintro ⟨x, token, strips, denotes, range⟩
    have value : (Int64.ofInt x).toInt = x := Int64.toInt_ofInt_of_le range.1 (Int.lt_add_one_iff.mpr range.2)
    exact ⟨Int64.ofInt x, token, strips, value.symm ▸ denotes, value.symm ▸ range⟩
  · rintro ⟨c, spells⟩
    exact ⟨_, spells⟩

theorem readTokens_eq_ok_iff (index : Nat) (tokens : List (List Char)) (cells : List Cell) :
    readTokens index tokens = .ok cells ↔
      List.Forall₂ (fun token cell => cell? token = some cell) tokens cells := by
  induction tokens generalizing index cells with
  | nil => cases cells <;> simp [readTokens]
  | cons token rest ih =>
    rw [readTokens]
    split
    next unread =>
      refine iff_of_false (fun impossible => ?_) fun all => ?_
      · cases impossible
      · cases all with
        | cons read _ => simp [unread] at read
    next cell read =>
      rw [map_eq_ok_iff]
      constructor
      · rintro ⟨others, later, rfl⟩
        exact .cons read ((ih ..).mp later)
      · intro all
        cases all with
        | cons read' later =>
          cases read.symm.trans read'
          exact ⟨_, (ih ..).mpr later, rfl⟩

/-- The reader stops at the first token that is not a cell, and counts the ones before it. -/
theorem readTokens_of_first {before after : List (List Char)} {token : List Char} (index : Nat)
    (good : ∀ other ∈ before, ∃ c, cell? other = some c) (unread : cell? token = none) :
    readTokens index (before ++ token :: after) =
      .error (.malformedProgram (index + before.length) (String.ofList token)) := by
  induction before generalizing index with
  | nil => simp [readTokens, unread]
  | cons other before ih =>
    obtain ⟨c, read⟩ := good other List.mem_cons_self
    have later := ih (index + 1) fun other member => good other (List.mem_cons_of_mem _ member)
    simp only [List.cons_append, readTokens, read, later, List.length_cons]
    rw [Nat.add_right_comm, Nat.add_assoc]
    rfl

theorem exists_first_of_readTokens {index : Nat} {tokens : List (List Char)} {error : Error}
    (failed : readTokens index tokens = .error error) :
    ∃ before token after, tokens = before ++ token :: after ∧
      (∀ other ∈ before, ∃ c, cell? other = some c) ∧ cell? token = none := by
  induction tokens generalizing index error with
  | nil => cases failed
  | cons token rest ih =>
    cases read : cell? token with
    | none => exact ⟨[], token, rest, rfl, by simp, read⟩
    | some c =>
      simp only [readTokens, read] at failed
      cases later : readTokens (index + 1) rest with
      | ok cells =>
        rw [later] at failed
        cases failed
      | error reason =>
        obtain ⟨before, bad, after, rfl, good, unread⟩ := ih later
        refine ⟨token :: before, bad, after, rfl, ?_, unread⟩
        simpa using ⟨⟨c, read⟩, good⟩

/-- A text with blanks added at one of its ends or next to one of its commas. -/
inductive Spaced : List Char → List Char → Prop
  | start {blanks : List Char} (blank : ∀ c ∈ blanks, isBlank c) (text : List Char) :
    Spaced text (blanks ++ text)
  | finish {blanks : List Char} (blank : ∀ c ∈ blanks, isBlank c) (text : List Char) :
    Spaced text (text ++ blanks)
  | before {blanks : List Char} (blank : ∀ c ∈ blanks, isBlank c) (text rest : List Char) :
    Spaced (text ++ ',' :: rest) (text ++ blanks ++ ',' :: rest)
  | after {blanks : List Char} (blank : ∀ c ∈ blanks, isBlank c) (text rest : List Char) :
    Spaced (text ++ ',' :: rest) (text ++ ',' :: (blanks ++ rest))

theorem Spaced.tokens_eq {text text' : List Char} (spaced : Spaced text text') :
    tokens text' = tokens text := by
  cases spaced with
  | start blank text => exact tokens_append_left blank text
  | finish blank text => exact tokens_append_right blank text
  | before blank text rest =>
    rw [tokens_append_comma, tokens_append_comma, tokens_append_right blank]
  | after blank text rest =>
    rw [tokens_append_comma, tokens_append_comma, tokens_append_left blank]

/-- Adding and removing blanks any number of times leaves the tokens as they are. -/
theorem tokens_eq_of_eqvGen {text text' : List Char}
    (respaced : Relation.EqvGen Spaced text text') : tokens text' = tokens text := by
  induction respaced with
  | rel _ _ spaced => exact spaced.tokens_eq
  | refl => rfl
  | symm _ _ _ ih => exact ih.symm
  | trans _ _ _ _ _ ih ih' => exact ih'.trans ih

/-- The text in front of a piece: the pieces before it, each with its comma. -/
def lead (before : List (List Char)) : List Char := before.flatMap (· ++ [','])

theorem count_lead {before : List (List Char)} (solid : ∀ piece ∈ before, ',' ∉ piece) :
    (lead before).count ',' = before.length := by
  induction before with
  | nil => rfl
  | cons piece before ih =>
    have none : piece.count ',' = 0 := List.count_eq_zero.mpr (solid piece List.mem_cons_self)
    have later := ih fun other member => solid other (List.mem_cons_of_mem _ member)
    rw [lead, List.flatMap_cons, List.count_append, List.count_append, none, ← lead, later]
    simp [Nat.add_comm]

theorem lead_append_isPrefix (before after : List (List Char)) (piece : List Char) :
    lead before ++ piece <+: [','].intercalate (before ++ piece :: after) := by
  induction before with
  | nil =>
    cases after with
    | nil => simp [lead]
    | cons next after => simp [lead]
  | cons first before ih =>
    rw [List.cons_append, List.intercalate_cons_of_ne_nil (by simp)]
    simpa [lead] using ih

theorem parse_eq_ok_iff (text : String) (p : Program) :
    parse text = .ok p ↔
      List.Forall₂ (fun piece cell => Spells piece cell.toInt) (text.toList.splitOn ',') p.cells := by
  rw [parse_eq, map_eq_ok_iff, tokens]
  simp only [readTokens_eq_ok_iff, List.forall₂_map_left_iff, cell?_trim_eq_some_iff]
  constructor
  · rintro ⟨cells, all, rfl⟩
    exact all
  · intro all
    exact ⟨p.cells, all, rfl⟩

theorem parse_eq_error_iff (text : String) (error : Error) :
    parse text = .error error ↔
      ∃ before piece after, text.toList.splitOn ',' = before ++ piece :: after ∧
        (∀ other ∈ before, ∃ x, Spells other x) ∧ (¬∃ x, Spells piece x) ∧
        error = .malformedProgram before.length (String.ofList (trim piece)) := by
  have failed : parse text = .error error ↔ readTokens 0 (tokens text.toList) = .error error := by
    rw [parse_eq]
    cases readTokens 0 (tokens text.toList) <;> simp [Except.map]
  have bad (piece : List Char) : cell? (trim piece) = none ↔ ¬∃ x, Spells piece x := by
    rw [exists_spells_iff]
    cases cell? (trim piece) <;> simp
  rw [failed, tokens]
  constructor
  · intro refused
    obtain ⟨before, token, after, same, good, unread⟩ := exists_first_of_readTokens refused
    obtain ⟨before, rest, split, rfl, same'⟩ := List.map_eq_append_iff.mp same
    obtain ⟨piece, after, rfl, rfl, rfl⟩ := List.map_eq_cons_iff.mp same'
    refine ⟨before, piece, after, split, ?_, (bad piece).mp unread, ?_⟩
    · intro other member
      exact (exists_spells_iff other).mpr (good _ (List.mem_map_of_mem member))
    · rw [same, readTokens_of_first 0 good unread, List.length_map, Nat.zero_add] at refused
      exact (Except.error.inj refused).symm
  · rintro ⟨before, piece, after, split, good, unread, rfl⟩
    rw [split, List.map_append, List.map_cons, readTokens_of_first 0 _ ((bad piece).mpr unread)]
    · rw [List.length_map, Nat.zero_add]
    · intro other member
      obtain ⟨earlier, inside, rfl⟩ := List.mem_map.mp member
      exact (exists_spells_iff earlier).mp (good earlier inside)

theorem exists_parse_iff (text : String) :
    (∃ p, parse text = .ok p) ↔ ∀ piece ∈ text.toList.splitOn ',', ∃ x, Spells piece x := by
  constructor
  · rintro ⟨p, read⟩
    have all := (parse_eq_ok_iff text p).mp read
    have each := all.imp fun piece cell spells =>
      And.intro (⟨_, spells⟩ : ∃ x, Spells piece x) spells
    exact ((List.forall₂_and_left _ _).mp each).1
  · intro good
    cases read : parse text with
    | ok p => exact ⟨p, rfl⟩
    | error error =>
      obtain ⟨before, piece, after, split, -, bad, -⟩ := (parse_eq_error_iff text error).mp read
      exact absurd (good piece (by simp [split])) bad

/-- Every text has its pieces between commas. It reads as a program exactly if each of them spells
an integer in the range of a cell, and then the cells are these integers. Otherwise the error names
the first piece that does not, trimmed, by the number of commas before it. Blanks added or removed
at the ends of the text or next to its commas change nothing. -/
theorem parse_grammar (text : String) :
    ∃ pieces, (∀ other, Splits text.toList other ↔ other = pieces) ∧
      ((∃ p, parse text = .ok p) ↔ ∀ piece ∈ pieces, ∃ x, Spells piece x) ∧
      (∀ p, parse text = .ok p ↔
        List.Forall₂ (fun piece cell => Spells piece cell.toInt) pieces p.cells) ∧
      (∀ error, parse text = .error error ↔
        ∃ before piece after token, pieces = before ++ piece :: after ∧
          (∀ other ∈ before, ∃ x, Spells other x) ∧ (¬∃ x, Spells piece x) ∧
          lead before ++ piece <+: text.toList ∧ Strips piece token ∧
          error = .malformedProgram ((lead before).count ',') (String.ofList token)) ∧
      ∀ text' : String, Relation.EqvGen Spaced text.toList text'.toList →
        parse text' = parse text := by
  refine ⟨text.toList.splitOn ',', fun other => splits_iff .., exists_parse_iff text,
    parse_eq_ok_iff text, fun error => ?_, fun text' respaced => ?_⟩
  · obtain ⟨-, solid, joined⟩ := (splits_iff text.toList _).mpr rfl
    have commas {before after : List (List Char)} {piece : List Char}
        (split : text.toList.splitOn ',' = before ++ piece :: after) :
        (lead before).count ',' = before.length := by
      apply count_lead
      intro other member
      exact solid other (by simp [split, member])
    rw [parse_eq_error_iff]
    constructor
    · rintro ⟨before, piece, after, split, good, bad, rfl⟩
      have place := lead_append_isPrefix before after piece
      rw [← split, joined] at place
      refine ⟨before, piece, after, trim piece, split, good, bad, place, Text.strips_trim piece, ?_⟩
      rw [commas split]
    · rintro ⟨before, piece, after, token, split, good, bad, -, strips, rfl⟩
      refine ⟨before, piece, after, split, good, bad, ?_⟩
      rw [commas split, (Text.strips_iff ..).mp strips]
  · rw [parse_eq, parse_eq, tokens_eq_of_eqvGen respaced]

/-- Blanks in front of a text and behind its comma, an ideographic space and a no-break space among
them, do not hide that the second piece is not an integer. -/
theorem parse_grammar_spaced :
    let text := String.ofList ['+', '0', '7', ',', '2', 'x']
    let text' := String.ofList ['\u3000', '+', '0', '7', ',', '\t', '\u00a0', '2', 'x']
    Relation.EqvGen Spaced text.toList text'.toList ∧
      parse text = .error (.malformedProgram 1 (String.ofList ['2', 'x'])) ∧
      parse text' = parse text := by
  intro text text'
  have behind :=
    @Spaced.after ['\t', '\u00a0'] (List.all_eq_true.mp rfl) ['+', '0', '7'] ['2', 'x']
  have front := @Spaced.start ['\u3000'] (List.all_eq_true.mp rfl)
    ['+', '0', '7', ',', '\t', '\u00a0', '2', 'x']
  have respaced : Relation.EqvGen Spaced text.toList text'.toList := by
    rw [String.toList_ofList, String.toList_ofList]
    exact .trans _ _ _ (.rel _ _ behind) (.rel _ _ front)
  have refused : parse text = .error (.malformedProgram 1 (String.ofList ['2', 'x'])) := by
    rw [parse, String.toList_ofList]
    rfl
  obtain ⟨pieces, -, -, -, -, same⟩ := parse_grammar text
  exact ⟨respaced, refused, same text' respaced⟩

end Program

end TapeMachine
