/-
This file says how texts are cut at marks: a text without marks is one part, a
text is cut at a mark into the parts before it and the parts behind it, and
texts that are joined with a mark between them are cut apart again. What is
dropped at the end of a text is dropped up to the first character that is kept.
Lines are cut behind their line feeds: together they are the text, and none of
them is empty.

These facts are shared by the proofs about paths, lists of ranges, the words of
an output and files of lines.
-/

import MiniShell.Text.Basic

namespace MiniShell.Text

/-! ### Marks -/

variable {isMark : Char → Bool}

theorem splitAt_eq_splitOnP (isMark : Char → Bool) (text : Text) :
    splitAt isMark text = text.splitOnP isMark := by
  induction text with
  | nil => rfl
  | cons character rest inductionHypothesis =>
    obtain ⟨part, parts, cut⟩ := List.exists_cons_of_ne_nil (List.splitOnP_ne_nil isMark rest)
    rw [splitAt, inductionHypothesis, List.splitOnP_cons_eq_if_modifyHead, cut]
    rfl

theorem splitAt_unmarked {text : Text} (unmarked : ∀ character ∈ text, isMark character = false) :
    splitAt isMark text = [text] := by
  rw [splitAt_eq_splitOnP]
  exact List.splitOnP_eq_singleton unmarked

theorem splitAt_append_mark {mark : Char} (isMarked : isMark mark = true) (text rest : Text) :
    splitAt isMark (text ++ mark :: rest) = splitAt isMark text ++ splitAt isMark rest := by
  simp only [splitAt_eq_splitOnP]
  exact List.splitOnP_append_cons text rest isMarked

/-- Texts that are joined with marks between them are cut apart again. -/
theorem splitAt_join {mark : Char} (isMarked : isMark mark = true) {texts : List Text}
    (nonempty : texts ≠ [])
    (unmarked : ∀ text ∈ texts, ∀ character ∈ text, isMark character = false) :
    splitAt isMark (join [mark] texts) = texts := by
  fun_induction join [mark] texts with
  | case1 => exact absurd rfl nonempty
  | case2 last => exact splitAt_unmarked (unmarked last (by simp))
  | case3 first second rest inductionHypothesis =>
    rw [List.append_assoc, List.singleton_append, splitAt_append_mark isMarked,
      splitAt_unmarked (unmarked first (by simp)),
      inductionHypothesis (List.cons_ne_nil _ _) fun text member =>
        unmarked text (List.mem_cons_of_mem _ member)]
    rfl

/-! ### Ends -/

variable {isDropped : Char → Bool}

theorem dropEnd_concat {last : Char} (dropped : isDropped last = true) (text : Text) :
    dropEnd isDropped (text ++ [last]) = dropEnd isDropped text := by
  induction text with
  | nil => simp [dropEnd, dropped]
  | cons character rest inductionHypothesis =>
    rw [List.cons_append, dropEnd, dropEnd, inductionHypothesis]

theorem dropEnd_of_kept {text : Text} (kept : ∀ character ∈ text, isDropped character = false) :
    dropEnd isDropped text = text := by
  induction text with
  | nil => rfl
  | cons character rest inductionHypothesis =>
    obtain ⟨first, others⟩ := List.forall_mem_cons.mp kept
    rw [dropEnd, inductionHypothesis others]
    cases rest with
    | nil => simp [first]
    | cons next rest => rfl

theorem trim_concat {last : Char} (dropped : isDropped last = true) (text : Text) :
    trim isDropped (text ++ [last]) = trim isDropped text := by
  rw [trim, trim, List.dropWhile_append]
  split
  · next none =>
    rw [List.isEmpty_iff.mp none]
    simp [dropped]
  · exact dropEnd_concat dropped _

theorem trim_of_kept {text : Text} (kept : ∀ character ∈ text, isDropped character = false) :
    trim isDropped text = text := by
  have begins : text.dropWhile isDropped = text := by
    cases text with
    | nil => rfl
    | cons first rest => exact List.dropWhile_cons_of_neg (by simp [kept first])
  rw [trim, begins, dropEnd_of_kept kept]

/-! ### Lines -/

theorem lines_ne_nil {text : Text} (nonempty : text ≠ []) : lines text ≠ [] := by
  cases text with
  | nil => exact absurd rfl nonempty
  | cons character rest =>
    rw [lines]
    split
    · exact List.cons_ne_nil _ _
    · split <;> exact List.cons_ne_nil _ _

/-- The lines of a text are together the text. -/
theorem flatten_lines (text : Text) : (lines text).flatten = text := by
  induction text with
  | nil => rfl
  | cons character rest inductionHypothesis =>
    rw [lines]
    split
    · rw [List.flatten_cons, inductionHypothesis, List.singleton_append]
    · cases cut : lines rest with
      | nil =>
        rw [cut, List.flatten_nil] at inductionHypothesis
        rw [← inductionHypothesis]
        rfl
      | cons line others =>
        rw [cut, List.flatten_cons] at inductionHypothesis
        rw [List.flatten_cons, List.cons_append, inductionHypothesis]

/-- No line is empty. -/
theorem ne_nil_of_mem_lines {text line : Text} (member : line ∈ lines text) : line ≠ [] := by
  induction text generalizing line with
  | nil => exact absurd member (by simp [lines])
  | cons character rest inductionHypothesis =>
    rw [lines] at member
    split at member
    · rcases List.mem_cons.mp member with rfl | later
      · exact List.cons_ne_nil _ _
      · exact inductionHypothesis later
    · split at member
      · rw [List.mem_singleton.mp member]
        exact List.cons_ne_nil _ _
      · rename_i line others cut
        rcases List.mem_cons.mp member with rfl | later
        · exact List.cons_ne_nil _ _
        · exact inductionHypothesis (by rw [cut]; exact List.mem_cons_of_mem _ later)

end MiniShell.Text
