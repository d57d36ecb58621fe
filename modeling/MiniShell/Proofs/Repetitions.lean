/-
This file says which lines are left when repetitions are dropped: the first one
of every longest run of lines that hold the same, or the same in lower case,
each with its line feed. A line is compared with the last one that was kept and
not with the one before it; that makes no difference, because the lines between
the two hold the same. No two neighbours of what is left hold the same, so
nothing is dropped when it is done again.
-/

import MiniShell.Proofs.DistinctLines
import MiniShell.Proofs.LineContents
import MiniShell.Proofs.LongestRuns

namespace MiniShell

/-! ### Lower case -/

namespace Text

/-- A line feed is neither a letter nor passed over in search for one. -/
theorem meetsCased_terminated (text : Text) : meetsCased text.terminated = meetsCased text := by
  have feed : inTable caseIgnorableBoundaries '\n' = false ∧
      inTable casedBoundaries '\n' = false := by
    decide +kernel
  induction text with
  | nil => simp [meetsCased, terminated, feed]
  | cons character rest inductionHypothesis =>
    unfold meetsCased at inductionHypothesis ⊢
    rw [terminated, List.cons_append, List.dropWhile_cons, List.dropWhile_cons]
    by_cases passed : inTable caseIgnorableBoundaries character = true
    · rw [if_pos passed, if_pos passed]
      exact inductionHypothesis
    · rw [if_neg passed, if_neg passed]

theorem lowerFrom_terminated (before text : Text) :
    lowerFrom before text.terminated = (lowerFrom before text).terminated := by
  induction text generalizing before with
  | nil =>
    have feed : lowerFrom before ['\n'] = [Char.ofNat (lowerCode '\n'.toNat)] := by
      simp [lowerFrom]
    have same : lowerCode '\n'.toNat = '\n'.toNat := by decide +kernel
    rw [terminated, List.nil_append, feed, same]
    rfl
  | cons character rest inductionHypothesis =>
    have further := inductionHypothesis (character :: before)
    have next := meetsCased_terminated rest
    rw [terminated] at further next
    rw [terminated, List.cons_append, lowerFrom, lowerFrom, further, next]
    simp [terminated]

end Text

namespace Command

/-- Lines compare as what they hold. -/
theorem comparable_terminated (ignoreCase : Bool) (text : Text) :
    comparable ignoreCase text.terminated = (comparable ignoreCase text).terminated := by
  cases ignoreCase with
  | false => rfl
  | true => exact Text.lowerFrom_terminated [] text

/-! ### Dropping repetitions -/

/-- Of a line of a text nothing but its line feed is dropped. -/
theorem bare_eq_content {text line : Text} (member : line ∈ Text.lines text) :
    bare line = line.content := by
  obtain ⟨noFeed, isLine | isOpen⟩ := Text.eq_content_of_mem_lines member
  · exact (congrArg bare isLine).trans (bare_terminated noFeed)
  · exact (congrArg bare isOpen).trans (bare_of_unfed noFeed)

theorem uniqueLines_terminated (ignoreCase : Bool) {contents : List Text} (some : contents ≠ [])
    (noFeed : ∀ content ∈ contents, '\n' ∉ content) :
    uniqueLines ignoreCase (contents.map Text.terminated) =
      .ok ((contents.destutter (Differ ignoreCase)).map Text.terminated) := by
  have held : (contents.map Text.terminated).map bare = contents := by
    rw [List.map_map]
    exact (List.map_congr_left fun content member => bare_terminated (noFeed content member)).trans
      (List.map_id contents)
  rw [uniqueLines_eq ignoreCase (by simpa using some), held]

/-- Dropping repetitions from the lines of a text keeps the first line of every longest run of lines
that hold the same, or the same in lower case, each with its line feed. No two neighbours of what is
left compare as equal, and dropping repetitions again changes nothing. -/
theorem uniqueLines_runs (ignoreCase : Bool) {text : Text} (nonempty : text ≠ []) :
    ∃ runs kept, LongestRuns (comparable ignoreCase) ((Text.lines text).map Text.content) runs ∧
      kept = (runs.filterMap List.head?).map Text.terminated ∧
      uniqueLines ignoreCase (Text.lines text) = .ok kept ∧
      kept.IsChain (Differ ignoreCase) ∧
      uniqueLines ignoreCase kept = .ok kept := by
  let contents := (Text.lines text).map Text.content
  have bared : (Text.lines text).map bare = contents :=
    List.map_congr_left fun line member => bare_eq_content member
  have some : contents ≠ [] := by simpa [contents] using Text.lines_ne_nil nonempty
  have noFeed : ∀ content ∈ contents.destutter (Differ ignoreCase), '\n' ∉ content := by
    intro content member
    obtain ⟨line, isLine, rfl⟩ :=
      List.mem_map.mp ((List.destutter_sublist _ contents).subset member)
    exact (Text.eq_content_of_mem_lines isLine).1
  obtain ⟨runs, areRuns⟩ := exists_longestRuns (comparable ignoreCase) contents
  have heads : contents.destutter (Differ ignoreCase) = runs.filterMap List.head? :=
    areRuns.destutter
  refine ⟨runs, _, areRuns, rfl, ?_, ?_, ?_⟩
  · rw [uniqueLines_eq ignoreCase (Text.lines_ne_nil nonempty), bared, heads]
  · rw [← heads, List.isChain_map]
    refine (List.isChain_destutter _ contents).imp fun first second differ same => differ ?_
    rw [comparable_terminated, comparable_terminated] at same
    exact Text.terminated_injective same
  · rw [← heads, uniqueLines_terminated ignoreCase (mt (List.destutter_eq_nil _).mp some) noFeed,
      List.destutter_idem]

/-- Two runs of two lines, the first of which differ in their letters only, and a last line without
a line feed. -/
theorem uniqueLines_runs_folded :
    let text := "Ab\naB\n\n\nab".toList
    text ≠ [] ∧ ∃ runs, LongestRuns (comparable true) ((Text.lines text).map Text.content) runs ∧
      (runs.filterMap List.head?).map Text.terminated =
        ["Ab\n".toList, "\n".toList, "ab\n".toList] ∧
      uniqueLines true ["Ab\n".toList, "\n".toList, "ab\n".toList] =
        .ok ["Ab\n".toList, "\n".toList, "ab\n".toList] := by
  intro text
  have nonempty : text ≠ [] := by decide
  obtain ⟨runs, kept, areRuns, heads, unique, -, again⟩ := uniqueLines_runs true nonempty
  have left : (uniqueLines true (Text.lines text)).toOption =
      some ["Ab\n".toList, "\n".toList, "ab\n".toList] := by
    decide +kernel
  rw [unique] at left
  obtain rfl := Option.some.inj left
  exact ⟨nonempty, runs, areRuns, heads.symm, again⟩

end Command

end MiniShell
