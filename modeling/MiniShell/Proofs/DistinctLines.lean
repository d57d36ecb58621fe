/-
This file says what is left of lines when those that equal the line before them
are dropped. This is the library's way of removing neighbours that do not
differ, applied to what the lines hold. In lines that are in order, equal ones
are neighbours, so each line is left once. Sorting a file and dropping
repetitions from its lines therefore lists the lines of the file, each of them
once and in strict order.

The two commands stand in one pipe, so the output of the first is put together
and cut into lines again before the second one sees it.
-/

import Mathlib.Data.List.Destutter
import MiniShell.Proofs.LineOrder

namespace MiniShell

open MiniShell.Action

/-! ### Dropping repetitions -/

namespace Text

theorem terminated_injective : Function.Injective terminated :=
  fun _ _ same => List.append_cancel_right same

theorem ended_ne_nil {text : Text} (nonempty : text ≠ []) : ended text ≠ [] := by
  rw [ended]
  split
  · exact nonempty
  · simp

end Text

namespace Command

/-- Two lines that are not the same. -/
abbrev Differ (ignoreCase : Bool) (first second : Text) : Prop :=
  comparable ignoreCase first ≠ comparable ignoreCase second

theorem changes_eq_destutter' (ignoreCase : Bool) (kept : Text) (lines : List Text) :
    kept :: changes ignoreCase kept lines = lines.destutter' (Differ ignoreCase) kept := by
  induction lines generalizing kept with
  | nil => rfl
  | cons line rest inductionHypothesis =>
    by_cases same : comparable ignoreCase line = comparable ignoreCase kept
    · have alike : ¬ Differ ignoreCase kept line := fun differ => differ same.symm
      rw [changes, if_pos same, inductionHypothesis kept, List.destutter'_cons_neg rest alike]
    · have differ : Differ ignoreCase kept line := Ne.symm same
      rw [changes, if_neg same, inductionHypothesis line, List.destutter'_cons_pos rest differ]

theorem uniqueLines_eq (ignoreCase : Bool) {lines : List Text} (some : lines ≠ []) :
    uniqueLines ignoreCase lines =
      .ok (((lines.map bare).destutter (Differ ignoreCase)).map Text.terminated) := by
  obtain ⟨line, rest, rfl⟩ := List.exists_cons_of_ne_nil some
  rw [List.map_cons, List.destutter_cons', ← changes_eq_destutter']
  rfl

theorem bare_of_unfed {text : Text} (noFeed : '\n' ∉ text) : bare text = text :=
  Text.trim_of_kept fun _ member => decide_eq_false fun isFeed => noFeed (isFeed ▸ member)

theorem bare_terminated {text : Text} (noFeed : '\n' ∉ text) : bare text.terminated = text :=
  (Text.trim_concat (by simp) text).trans (bare_of_unfed noFeed)

theorem terminated_bare {line : Text} (isLine : Text.IsLine line) :
    (bare line).terminated = line := by
  obtain ⟨text, rfl, noFeed⟩ := isLine
  exact congrArg Text.terminated (bare_terminated noFeed)

/-- Complete lines are compared as they are. -/
theorem uniqueLines_areLines {lines : List Text} (some : lines ≠ [])
    (areLines : ∀ line ∈ lines, Text.IsLine line) :
    uniqueLines false lines = .ok (lines.destutter (· ≠ ·)) := by
  have whole : (lines.map bare).map Text.terminated = lines := by
    rw [List.map_map]
    exact List.map_congr_left (fun line member => terminated_bare (areLines line member)) |>.trans
      (List.map_id lines)
  have dropped := List.map_destutter_ne (l := lines.map bare) Text.terminated_injective
  rw [whole] at dropped
  rw [uniqueLines_eq false some]
  exact congrArg Except.ok dropped

/-- Lines that are in order are left once each. -/
theorem destutter_sortLines (lines : List Text) :
    (sortLines false lines).destutter (· ≠ ·) = (sortLines false lines).dedup := by
  have ordered := (sortLines_ordered false lines).imp lineOrder_iff.mpr
  have antisymmetric : Std.Antisymm fun first second => lineOrder false first second = true :=
    ⟨fun _ _ => lineOrder_antisymm⟩
  exact ordered.destutter_eq_dedup

/-- The lines that are left of sorted ones stand in strict order. -/
theorem dedup_sortLines_strict (lines : List Text) :
    (sortLines false lines).dedup.Pairwise fun earlier later => earlier.codes < later.codes := by
  have ordered := List.Pairwise.sublist (List.dedup_sublist _) (sortLines_ordered false lines)
  refine (ordered.and (List.nodup_dedup _)).imp fun {earlier later} both => ?_
  have notAfter : Text.precedes later earlier = false := by
    rw [Bool.eq_false_iff, ne_eq, Text.precedes_iff]
    exact both.1
  exact Text.precedes_iff.mp (Text.precedes_of_ne both.2 notAfter)

end Command

/-! ### Sorting and dropping repetitions -/

theorem Script.render_piped_uniq (file : PlainWord) :
    (Script.piped (sortCall false file) (.uniq false)).render =
      "sort ".toList ++ file.text ++ " | uniq".toList := by
  rw [Script.render_piped]
  have sorts : Program.sort.word.text = "sort".toList := rfl
  have drops : Program.uniq.name = "uniq".toList := rfl
  simp [sortCall, Filter.arguments, Filter.program, Text.join, sorts, drops]

theorem start_uniq_ready {lines : List Text} (some : lines ≠ [])
    (areLines : ∀ line ∈ lines, Text.IsLine line) (session : Session) :
    ((Filter.uniq false).call.runOn { ready := lines.flatten }).start session =
      (.ok (lines.destutter (· ≠ ·)), session) := by
  have cut := Text.lines_flatten areLines
  refine start_runOn_ready (by rwa [cut]) (Catalog.run_name .uniq []) ?_ session
  simp only [cut, Command.uniqueLines_areLines some areLines]

/-- Sorting a file of text and dropping repetitions lists the lines of the file, with unified line
ends and the last one complete: each of them once, and in strict order. -/
theorem runLine_sort_uniq (file : PlainWord) (noDash : file.text.head? ≠ some '-')
    {session : Session} {trail : Trail} {content : List UInt8} {text : Text}
    (leads : session.LeadsTo file.text trail)
    (found : session.files.get? trail = some (.file content))
    (decoded : Text.decode content = .ok text) (nonempty : text ≠ []) :
    ∃ lines, (runLine ("sort ".toList ++ file.text ++ " | uniq".toList)).start session =
        (.ok lines, session) ∧
      (∀ line, line ∈ lines ↔ line ∈ Text.lines (Text.ended (Text.unifyNewlines text))) ∧
      (∀ line ∈ lines, Text.IsLine line) ∧
      lines.Pairwise fun earlier later => earlier.codes < later.codes := by
  have holds : session.Holds file.text trail content (Text.lines (Text.unifyNewlines text)) :=
    ⟨leads, found, text, decoded, rfl⟩
  let whole := Text.lines (Text.ended (Text.unifyNewlines text))
  have permuted := Command.sortLines_perm false whole
  have some : Command.sortLines false whole ≠ [] := fun none =>
    Text.lines_ne_nil (Text.ended_ne_nil (Text.unifyNewlines_ne_nil nonempty))
      (List.nil_perm.mp (none ▸ permuted))
  have areLines := isLine_sortLines false (Text.unifyNewlines text)
  have sorted := start_sortCall false noDash holds
  rw [(Command.close_lines _).1] at sorted
  refine ⟨(Command.sortLines false whole).dedup, ?_, fun line => ?_, fun line member => ?_,
    Command.dedup_sortLines_strict whole⟩
  · rw [runLine_of_render (Script.render_piped_uniq file), run_piped _ sorted some,
      start_uniq_ready some areLines, Command.destutter_sortLines]
  · rw [List.mem_dedup, permuted.mem_iff]
  · exact areLines line (List.mem_dedup.mp member)

/-- The last line repeats the first, but for its line feed. -/
theorem runLine_sort_uniq_open :
    let session := Command.textFile "b\na\r\nb".toList
    ∃ lines, (runLine "sort f | uniq".toList).start session = (.ok lines, session) ∧
      (∀ line, line ∈ lines ↔ line ∈ ["b\n".toList, "a\n".toList, "b\n".toList]) ∧
      lines.Pairwise fun earlier later => earlier.codes < later.codes := by
  intro session
  obtain ⟨lines, ran, same, -, strict⟩ := runLine_sort_uniq openFileName (by decide)
    (Command.textFile_leads "b\na\r\nb".toList) rfl (Text.decode_encode _) (by decide)
  exact ⟨lines, ran, same, strict⟩

end MiniShell
