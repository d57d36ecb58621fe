/-
This file says what lines hold besides their line feeds. A line of a text has
its line feed at the end and nowhere else, and only the last line may lack it.
So the line feeds of a text count its lines, and a text that ends with a line
feed, or is empty, can be cut into lines without regard to what follows it. A
file of text is read as the lines of its text, with unified line ends.

Reading a file turns every end of a line into a line feed, so what is said here
about line feeds holds of every file of text that has been read.
-/

import MiniShell.Proofs.LineOrder

namespace MiniShell

namespace Text

/-! ### What a line holds -/

/-- What a line holds: its characters without the line feed that ends it. -/
def content (line : Text) : Text := if line.getLast? = some '\n' then line.dropLast else line

theorem content_terminated (text : Text) : (terminated text).content = text := by
  simp [content, terminated]

theorem content_of_unfed {line : Text} (noFeed : '\n' ∉ line) : line.content = line :=
  if_neg fun isFeed => noFeed (List.mem_of_getLast? isFeed)

/-- A line is complete, or it has no line feed at all. -/
theorem isLine_or_unfed {text line : Text} (member : line ∈ lines text) :
    IsLine line ∨ '\n' ∉ line := by
  obtain ⟨parts, last, areLines, noFeed, rfl⟩ := exists_parts text
  rw [lines_flatten_append areLines] at member
  rcases List.mem_append.mp member with isPart | isLast
  · exact Or.inl (areLines line isPart)
  · by_cases none : last = []
    · simp [none, lines] at isLast
    · rw [lines_unfed none noFeed, List.mem_singleton] at isLast
      exact Or.inr (isLast ▸ noFeed)

/-- Either way a line is what it holds, with or without a line feed behind. -/
theorem eq_content_of_mem_lines {text line : Text} (member : line ∈ lines text) :
    '\n' ∉ line.content ∧ (line = line.content.terminated ∨ line = line.content) := by
  rcases isLine_or_unfed member with ⟨front, rfl, noFeed⟩ | noFeed
  · rw [← terminated, content_terminated]
    exact ⟨noFeed, Or.inl rfl⟩
  · rw [content_of_unfed noFeed]
    exact ⟨noFeed, Or.inr rfl⟩

/-! ### Counting and cutting -/

/-- A text that ends a line, so that what follows it begins another one. -/
def EndsLine (text : Text) : Prop := text = [] ∨ text.getLast? = some '\n'

instance (text : Text) : Decidable text.EndsLine := inferInstanceAs (Decidable (_ ∨ _))

/-- A text that ends a line is made up of lines only. -/
theorem EndsLine.exists_parts {text : Text} (ends : text.EndsLine) :
    ∃ parts : List Text, (∀ part ∈ parts, IsLine part) ∧ text = parts.flatten := by
  obtain ⟨parts, last, areLines, noFeed, rfl⟩ := Text.exists_parts text
  by_cases none : last = []
  · exact ⟨parts, areLines, by rw [none, List.append_nil]⟩
  · rcases ends with isNil | isFeed
    · exact absurd (List.append_eq_nil_iff.mp isNil).2 none
    · rw [List.getLast?_append_of_ne_nil _ none] at isFeed
      exact absurd (List.mem_of_getLast? isFeed) noFeed

theorem EndsLine.lines_append {text : Text} (ends : text.EndsLine) (rest : Text) :
    lines (text ++ rest) = lines text ++ lines rest := by
  obtain ⟨parts, areLines, rfl⟩ := ends.exists_parts
  rw [lines_flatten_append areLines, lines_flatten areLines]

theorem count_feeds {parts : List Text} (areLines : ∀ part ∈ parts, IsLine part) :
    parts.flatten.count '\n' = parts.length := by
  induction parts with
  | nil => rfl
  | cons part parts inductionHypothesis =>
    obtain ⟨⟨front, rfl, noFeed⟩, others⟩ := List.forall_mem_cons.mp areLines
    rw [List.flatten_cons, List.count_append, inductionHypothesis others, List.count_append,
      List.count_eq_zero_of_not_mem noFeed, List.length_cons]
    simp [Nat.add_comm]

/-- A text has as many lines as line feeds, and one more where it ends without one. -/
theorem length_lines (text : Text) :
    (lines text).length = text.count '\n' + if text.EndsLine then 0 else 1 := by
  by_cases ends : text.EndsLine
  · obtain ⟨parts, areLines, rfl⟩ := ends.exists_parts
    rw [if_pos ends, lines_flatten areLines, count_feeds areLines]
    rfl
  · obtain ⟨parts, last, areLines, noFeed, rfl⟩ := Text.exists_parts text
    have some : last ≠ [] := by
      rintro rfl
      exact ends (by rw [List.append_nil]; exact flatten_ends areLines)
    rw [if_neg ends, lines_flatten_append areLines, lines_unfed some noFeed, List.length_append,
      List.count_append, count_feeds areLines, List.count_eq_zero_of_not_mem noFeed]
    rfl

end Text

/-! ### Files of text -/

/-- A path leads to a file that holds a text. -/
def Session.Shows (session : Session) (path text : Text) : Prop :=
  ∃ trail, session.LeadsTo path trail ∧
    session.files.get? trail = some (.file (Text.encode text))

theorem Session.Shows.holds {session : Session} {path text : Text}
    (shown : session.Shows path text) :
    ∃ trail, session.Holds path trail (Text.encode text)
      (Text.lines (Text.unifyNewlines text)) := by
  obtain ⟨trail, leads, found⟩ := shown
  exact ⟨trail, leads, found, text, Text.decode_encode text, rfl⟩

end MiniShell
