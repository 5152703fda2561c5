import TapeMachine.Proofs.Tokens

/-! The rendered text of a program reads back as the program, so no two programs share a text, and a
text that reads as a program has a canonical form that reads as the same one. Equal identifiers mean
equal programs as far as equal hashes mean equal texts. -/

namespace TapeMachine

namespace Text

theorem isBlank_of_isDigit {c : Char} (digit : c.isDigit) : isBlank c = false := by
  have bounds : 48 ≤ c.toNat ∧ c.toNat ≤ 57 := by
    simpa [Char.isDigit, UInt32.le_iff_toNat_le] using digit
  simp only [isBlank, Bool.or_eq_false_iff, Bool.and_eq_false_iff, decide_eq_false_iff_not,
    beq_eq_false_iff_ne]
  omega

theorem mem_decimal {x : Int} {c : Char} (member : c ∈ decimal x) : c = '-' ∨ c.isDigit := by
  cases x with
  | ofNat n => exact .inr (Nat.isDigit_of_mem_toDigits (by decide) (by decide) member)
  | negSucc n =>
    rcases List.mem_cons.mp member with rfl | digit
    · exact .inl rfl
    · exact .inr (Nat.isDigit_of_mem_toDigits (by decide) (by decide) digit)

theorem isBlank_of_mem_decimal {x : Int} {c : Char} (member : c ∈ decimal x) :
    isBlank c = false := by
  rcases mem_decimal member with rfl | digit
  · decide
  · exact isBlank_of_isDigit digit

theorem comma_not_mem_decimal (x : Int) : ',' ∉ decimal x := by
  intro member
  rcases mem_decimal member with same | digit
  · cases same
  · cases digit

theorem dropWhile_isBlank {text : List Char} (first : ∀ c ∈ text.head?, isBlank c = false) :
    text.dropWhile isBlank = text := by
  cases text with
  | nil => rfl
  | cons c rest => rw [List.dropWhile_cons_of_neg (by simp [first c rfl])]

/-- Text without blanks at its ends is trimmed. -/
theorem trim_of_ends {text : List Char} (first : ∀ c ∈ text.head?, isBlank c = false)
    (last : ∀ c ∈ text.getLast?, isBlank c = false) : trim text = text := by
  have reversed : ∀ c ∈ text.reverse.head?, isBlank c = false := by simpa using last
  rw [trim, dropWhile_isBlank first, trimEnd, dropWhile_isBlank reversed, List.reverse_reverse]

theorem trim_of_solid {text : List Char} (solid : ∀ c ∈ text, isBlank c = false) :
    trim text = text :=
  trim_of_ends (fun c found => solid c (List.mem_of_mem_head? found))
    fun c found => solid c (List.mem_of_getLast? found)

end Text

namespace Digest

theorem digitChar_inj {a b : Nat} (ha : a < 16) (hb : b < 16)
    (same : Nat.digitChar a = Nat.digitChar b) : a = b := by
  have all : ∀ a < 16, ∀ b < 16, Nat.digitChar a = Nat.digitChar b → a = b := by decide
  exact all a ha b hb same

/-- A row of bytes can be told from its hexadecimal digits. -/
theorem flatten_hexByte_inj {xs ys : List UInt8}
    (same : (xs.map hexByte).flatten = (ys.map hexByte).flatten) : xs = ys := by
  induction xs generalizing ys with
  | nil =>
    cases ys with
    | nil => rfl
    | cons y ys => cases same
  | cons x xs ih =>
    cases ys with
    | nil => cases same
    | cons y ys =>
      simp only [List.map_cons, List.flatten_cons, hexByte, List.cons_append, List.nil_append,
        List.cons.injEq] at same
      obtain ⟨high, low, rest⟩ := same
      have hx := x.toNat_lt
      have hy := y.toNat_lt
      have quotient := digitChar_inj (by omega) (by omega) high
      have remainder := digitChar_inj (by omega) (by omega) low
      obtain rfl : x = y := UInt8.toNat_inj.mp (by omega)
      rw [ih rest]

end Digest

namespace Program

open Text (decimal)

/-- The tokens of a rendered program are its cells in decimal. -/
theorem tokens_render {p : Program} (inhabited : p.cells ≠ []) :
    tokens p.render = p.cells.map fun cell => decimal cell.toInt := by
  have split : p.render.splitOn ',' = p.cells.map fun cell => decimal cell.toInt := by
    apply List.splitOn_intercalate
    · intro token member
      obtain ⟨cell, -, rfl⟩ := List.mem_map.mp member
      exact Text.comma_not_mem_decimal cell.toInt
    · simpa using inhabited
  rw [tokens, split, List.map_map]
  apply List.map_congr_left
  intro cell _
  exact Text.trim_of_solid fun c => Text.isBlank_of_mem_decimal

theorem readTokens_decimal (index : Nat) (cells : List Cell) :
    readTokens index (cells.map fun cell => decimal cell.toInt) = .ok cells := by
  induction cells generalizing index with
  | nil => rfl
  | cons cell cells ih =>
    simp only [List.map_cons, readTokens, cell?_decimal, ih]
    rfl

theorem parse_text {p : Program} (inhabited : p.cells ≠ []) : parse p.text = .ok p := by
  rw [parse_eq, text, String.toList_ofList, tokens_render inhabited, readTokens_decimal]
  rfl

/-- The text of the program without cells is not a program: its only token is empty. -/
theorem parse_text_nil : parse (text ⟨[]⟩) = .error (.malformedProgram 0 "") := rfl

theorem length_readTokens {index : Nat} {texts : List (List Char)} {cells : List Cell}
    (read : readTokens index texts = .ok cells) : cells.length = texts.length := by
  induction texts generalizing index cells with
  | nil => cases read; rfl
  | cons token rest ih =>
    rw [readTokens] at read
    split at read
    · cases read
    · cases later : readTokens (index + 1) rest with
      | error error => rw [later] at read; cases read
      | ok others =>
        rw [later] at read
        cases read
        rw [List.length_cons, List.length_cons, ih later]

/-- What a text reads as has a cell for each of its tokens, so at least one. -/
theorem ne_nil_of_parse {t : String} {p : Program} (read : parse t = .ok p) : p.cells ≠ [] := by
  rw [parse_eq] at read
  cases cells : readTokens 0 (tokens t.toList) with
  | error error => rw [cells] at read; cases read
  | ok found =>
    rw [cells] at read
    cases read
    have length := length_readTokens cells
    rw [tokens, List.length_map] at length
    rw [← List.length_pos_iff, length, List.length_pos_iff]
    exact List.splitOn_ne_nil ',' t.toList

theorem eq_of_parse_text {p q : Program} (read : parse p.text = .ok q) :
    p.cells ≠ [] ∧ p = q := by
  by_cases empty : p.cells = []
  · obtain rfl : p = ⟨[]⟩ := congrArg mk empty
    cases read
  · exact ⟨empty, Except.ok.inj ((parse_text empty).symm.trans read)⟩

theorem text_injective {p q : Program} (same : p.text = q.text) : p = q := by
  by_cases empty : p.cells = []
  · by_cases empty' : q.cells = []
    · exact congrArg mk (empty.trans empty'.symm)
    · exact absurd empty (eq_of_parse_text (same ▸ parse_text empty')).1
  · exact (eq_of_parse_text (same ▸ parse_text empty)).2.symm

/-- An identifier identifies a program as far as the hash tells canonical texts apart. -/
theorem eq_iff_identifier {hash : List UInt8 → List UInt8} {p q : Program}
    (collisionFree : hash p.text.toUTF8.toList = hash q.text.toUTF8.toList → p.text = q.text) :
    p = q ↔ p.identifier hash = q.identifier hash := by
  refine ⟨congrArg (identifier hash), fun same => text_injective (collisionFree ?_)⟩
  have digits := (String.append_right_inj "b3:").mp same
  exact Digest.flatten_hexByte_inj (String.ofList_inj.mp digits)

/-- The text of a program is canonical: it reads back as the program and as no other, it does not
change when it is read and written once more, and whatever the hash, it stands for the program
wherever hashes of different texts are different. Only the program without cells has a text that
does not read. -/
theorem text_canonical :
    (∀ p : Program, p.cells ≠ [] → parse p.text = .ok p) ∧
      (∃ error, parse (text ⟨[]⟩) = .error error) ∧
      (∀ p q : Program, p = q ↔ p.text = q.text) ∧
      (∀ t p, parse t = .ok p →
        parse p.text = .ok p ∧ (parse p.text).map text = .ok p.text) ∧
      (∀ (hash : List UInt8 → List UInt8) (p q : Program),
        (hash p.text.toUTF8.toList = hash q.text.toUTF8.toList → p.text = q.text) →
        (p = q ↔ p.identifier hash = q.identifier hash)) ∧
      ∀ p q : Program,
        (Digest.digest p.text.toUTF8.toList = Digest.digest q.text.toUTF8.toList →
          p.text = q.text) →
        (p = q ↔ p.fingerprint = q.fingerprint) := by
  refine ⟨fun p => parse_text, ⟨_, parse_text_nil⟩, fun p q => ⟨congrArg text, text_injective⟩,
    fun t p read => ?_, fun hash p q => eq_iff_identifier, fun p q => eq_iff_identifier⟩
  have again := parse_text (ne_nil_of_parse read)
  exact ⟨again, by rw [again]; rfl⟩

/-- Both ends of the range read back, and a text with blanks, signs and leading zeros has the
canonical form without them. The digests of the two texts differ. -/
theorem text_canonical_extremes :
    let p : Program := ⟨[-9223372036854775808, 0, 9223372036854775807]⟩
    let q : Program := ⟨[1, 0, -15, 99]⟩
    let t := " +1, 00,-015 ,99\n"
    p.cells ≠ [] ∧ parse p.text = .ok p ∧
      parse t = .ok q ∧ parse q.text = .ok q ∧
      Digest.digest p.text.toUTF8.toList ≠ Digest.digest q.text.toUTF8.toList ∧
      (p = q ↔ p.fingerprint = q.fingerprint) := by
  intro p q t
  have inhabited : p.cells ≠ [] := by decide
  have read : parse t = .ok q := by
    have value : (parse t).toOption = some q := by decide +kernel
    cases parsed : parse t with
    | error error => rw [parsed] at value; cases value
    | ok found => rw [parsed] at value; exact congrArg Except.ok (Option.some.inj value)
  have apart : Digest.digest p.text.toUTF8.toList ≠ Digest.digest q.text.toUTF8.toList := by
    decide +kernel
  obtain ⟨reads, -, -, rereads, -, identifies⟩ := text_canonical
  exact ⟨inhabited, reads p inhabited, read, (rereads t q read).1, apart,
    identifies p q fun collision => absurd collision apart⟩

end Program

end TapeMachine
