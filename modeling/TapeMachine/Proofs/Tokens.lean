import TapeMachine.Program

/-! Blanks at the ends of a text belong to its first and its last token, which are trimmed, so a
text has the same tokens with them and without them. -/

namespace TapeMachine

namespace Text

theorem trim_append_left {blanks : List Char} (blank : ∀ c ∈ blanks, isBlank c)
    (text : List Char) : trim (blanks ++ text) = trim text := by
  rw [trim, List.dropWhile_append_of_pos blank, ← trim]

theorem trimEnd_append {blanks : List Char} (blank : ∀ c ∈ blanks, isBlank c)
    (text : List Char) : trimEnd (text ++ blanks) = trimEnd text := by
  have reversed : ∀ c ∈ blanks.reverse, isBlank c := fun c member =>
    blank c (List.mem_reverse.mp member)
  rw [trimEnd, List.reverse_append, List.dropWhile_append_of_pos reversed, ← trimEnd]

theorem trim_append_right {blanks : List Char} (blank : ∀ c ∈ blanks, isBlank c)
    (text : List Char) : trim (text ++ blanks) = trim text := by
  unfold trim
  rw [List.dropWhile_append]
  split
  next empty =>
    rw [List.isEmpty_iff.mp empty, ← List.append_nil blanks, List.dropWhile_append_of_pos blank]
    rfl
  next => exact trimEnd_append blank _

theorem blank_of_mem_takeWhile (text : List Char) :
    ∀ c ∈ text.takeWhile isBlank, isBlank c = true :=
  List.all_eq_true.mp List.all_takeWhile

theorem trimEnd_append_takeWhile (text : List Char) :
    trimEnd text ++ (text.reverse.takeWhile isBlank).reverse = text := by
  rw [trimEnd, ← List.reverse_append, List.takeWhile_append_dropWhile, List.reverse_reverse]

/-- Trimming removes blanks from the two ends. -/
theorem exists_trim (text : List Char) : ∃ before after, text = before ++ trim text ++ after ∧
    (∀ c ∈ before, isBlank c) ∧ ∀ c ∈ after, isBlank c := by
  refine ⟨text.takeWhile isBlank, ((text.dropWhile isBlank).reverse.takeWhile isBlank).reverse,
    ?_, blank_of_mem_takeWhile text, ?_⟩
  · rw [List.append_assoc, trim, trimEnd_append_takeWhile, List.takeWhile_append_dropWhile]
  · intro c member
    exact blank_of_mem_takeWhile _ c (List.mem_reverse.mp member)

end Text

namespace Program

open Text (isBlank trim)

@[simp] theorem tokens_append_comma (text rest : List Char) :
    tokens (text ++ ',' :: rest) = tokens text ++ tokens rest := by
  simp only [tokens, List.splitOn_append_cons_self, List.map_append]

theorem tokens_of_not_mem {text : List Char} (solid : ',' ∉ text) : tokens text = [trim text] := by
  rw [tokens, List.splitOn_eq_singleton solid]
  rfl

theorem comma_not_mem_of_blank {blanks : List Char} (blank : ∀ c ∈ blanks, isBlank c) :
    ',' ∉ blanks := by
  intro member
  have impossible := blank ',' member
  revert impossible
  decide

theorem tokens_append_left {blanks : List Char} (blank : ∀ c ∈ blanks, isBlank c)
    (text : List Char) : tokens (blanks ++ text) = tokens text := by
  have solid := comma_not_mem_of_blank blank
  -- The blanks belong to the piece before the first comma.
  have single {piece : List Char} (clean : ',' ∉ piece) :
      tokens (blanks ++ piece) = tokens piece := by
    rw [tokens_of_not_mem (by simp [solid, clean]), tokens_of_not_mem clean,
      Text.trim_append_left blank]
  by_cases comma : ',' ∈ text
  · obtain ⟨piece, rest, rfl, clean⟩ := List.eq_append_cons_of_mem comma
    rw [← List.append_assoc, tokens_append_comma, tokens_append_comma, single clean]
  · exact single comma

theorem tokens_append_right {blanks : List Char} (blank : ∀ c ∈ blanks, isBlank c)
    (text : List Char) : tokens (text ++ blanks) = tokens text := by
  have solid := comma_not_mem_of_blank blank
  -- The blanks belong to the piece behind the last comma.
  have single {piece : List Char} (clean : ',' ∉ piece) :
      tokens (piece ++ blanks) = tokens piece := by
    rw [tokens_of_not_mem (by simp [solid, clean]), tokens_of_not_mem clean,
      Text.trim_append_right blank]
  by_cases comma : ',' ∈ text
  · obtain ⟨piece, rest, reversed, clean⟩ :=
      List.eq_append_cons_of_mem (List.mem_reverse.mpr comma)
    obtain rfl : text = rest.reverse ++ ',' :: piece.reverse := by
      rw [← List.reverse_reverse text, reversed]
      simp
    rw [List.append_assoc, List.cons_append, tokens_append_comma, tokens_append_comma,
      single (by simpa using clean)]
  · exact single comma

theorem tokens_trim (text : List Char) : tokens (trim text) = tokens text := by
  obtain ⟨before, after, whole, blank, blank'⟩ := Text.exists_trim text
  rw [whole, tokens_append_right blank', tokens_append_left blank, ← whole]

/-- Whether the whole text is trimmed first does not matter. -/
theorem parse_eq (text : String) : parse text = (readTokens 0 (tokens text.toList)).map mk := by
  rw [parse, tokens_trim]

end Program

end TapeMachine
