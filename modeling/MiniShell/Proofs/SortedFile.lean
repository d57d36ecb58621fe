/-
This file says what is left of a file when its sorted lines are written to the
file itself. The lines are read before the file is emptied, so none is lost:
the file holds a permutation of them, in the order of their code points, each
with its line feed. Such a file is read back as the same lines, which are in
order already, so sorting it again writes the same bytes.

A last line without a line feed gets one before the lines are sorted. The
orders of lines and of reversed lines are treated as one, with the direction as
a parameter.
-/

import MiniShell.Proofs.NamedInput
import MiniShell.Proofs.TextOrder

namespace MiniShell

open MiniShell.Action

/-! ### Texts made up of lines -/

namespace Text

/-- A text with a line feed at its end and none before. -/
def IsLine (line : Text) : Prop := ∃ front, line = front ++ ['\n'] ∧ '\n' ∉ front

/-- A text with a line feed at its end, unless it has one or is empty. -/
def ended (text : Text) : Text :=
  if text = [] ∨ text.getLast? = some '\n' then text else text ++ ['\n']

theorem isLine_cons {character : Char} (noFeed : character ≠ '\n') {line : Text}
    (isLine : IsLine line) : IsLine (character :: line) := by
  obtain ⟨front, rfl, unfed⟩ := isLine
  exact ⟨character :: front, rfl, by simp [unfed, Ne.symm noFeed]⟩

theorem IsLine.ne_nil {line : Text} (isLine : IsLine line) : line ≠ [] := by
  obtain ⟨front, rfl, -⟩ := isLine
  simp

theorem IsLine.getLast? {line : Text} (isLine : IsLine line) : line.getLast? = some '\n' := by
  obtain ⟨front, rfl, -⟩ := isLine
  exact List.getLast?_concat

theorem IsLine.lines_append {line : Text} (isLine : IsLine line) (rest : Text) :
    lines (line ++ rest) = line :: lines rest := by
  obtain ⟨front, rfl, noFeed⟩ := isLine
  induction front with
  | nil => rw [List.nil_append, List.singleton_append, lines, if_pos rfl]
  | cons character front inductionHypothesis =>
    rw [List.mem_cons, not_or] at noFeed
    rw [List.cons_append, List.cons_append, lines, if_neg (Ne.symm noFeed.1),
      inductionHypothesis noFeed.2]

/-- Lines that are put together are cut apart again. -/
theorem lines_flatten_append {parts : List Text} (areLines : ∀ part ∈ parts, IsLine part)
    (rest : Text) : lines (parts.flatten ++ rest) = parts ++ lines rest := by
  induction parts with
  | nil => rfl
  | cons part parts inductionHypothesis =>
    obtain ⟨isLine, others⟩ := List.forall_mem_cons.mp areLines
    rw [List.flatten_cons, List.append_assoc, isLine.lines_append, inductionHypothesis others,
      List.cons_append]

theorem lines_flatten {parts : List Text} (areLines : ∀ part ∈ parts, IsLine part) :
    lines parts.flatten = parts := by
  have cut := lines_flatten_append areLines []
  rwa [List.append_nil, lines, List.append_nil] at cut

theorem flatten_ends {parts : List Text} (areLines : ∀ part ∈ parts, IsLine part) :
    parts.flatten = [] ∨ parts.flatten.getLast? = some '\n' := by
  rcases List.eq_nil_or_concat' parts with rfl | ⟨front, last, rfl⟩
  · exact Or.inl rfl
  · have isLine := areLines last (by simp)
    refine Or.inr ?_
    rw [List.flatten_concat, List.getLast?_append_of_ne_nil _ isLine.ne_nil, isLine.getLast?]

theorem lines_unfed {text : Text} (nonempty : text ≠ []) (noFeed : '\n' ∉ text) :
    lines text = [text] := by
  induction text with
  | nil => exact absurd rfl nonempty
  | cons character rest inductionHypothesis =>
    rw [List.mem_cons, not_or] at noFeed
    rw [lines, if_neg (Ne.symm noFeed.1)]
    by_cases last : rest = []
    · rw [last, lines]
    · rw [inductionHypothesis last noFeed.2]

/-- A text is made up of lines and a rest without a line feed. -/
theorem exists_parts (text : Text) : ∃ (parts : List Text) (last : Text),
    (∀ part ∈ parts, IsLine part) ∧ '\n' ∉ last ∧ text = parts.flatten ++ last := by
  induction text with
  | nil => exact ⟨[], [], by simp, by simp, rfl⟩
  | cons character rest inductionHypothesis =>
    obtain ⟨parts, last, areLines, noFeed, rfl⟩ := inductionHypothesis
    by_cases isFeed : character = '\n'
    · refine ⟨[character] :: parts, last, List.forall_mem_cons.mpr ⟨?_, areLines⟩, noFeed, rfl⟩
      exact ⟨[], by rw [isFeed]; rfl, by simp⟩
    · cases parts with
      | nil => exact ⟨[], character :: last, by simp, by simp [noFeed, Ne.symm isFeed], rfl⟩
      | cons part parts =>
        obtain ⟨isLine, others⟩ := List.forall_mem_cons.mp areLines
        exact ⟨(character :: part) :: parts, last,
          List.forall_mem_cons.mpr ⟨isLine_cons isFeed isLine, others⟩, noFeed, rfl⟩

end Text

namespace Command

theorem isClosed_of_areLines {lines : List Text} (areLines : ∀ line ∈ lines, Text.IsLine line) :
    IsClosed lines :=
  fun line isLast => (areLines line (List.mem_of_getLast? isLast)).getLast?

theorem close_of_areLines {lines : List Text} (areLines : ∀ line ∈ lines, Text.IsLine line) :
    close lines = lines :=
  close_of_isClosed (fun line member => (areLines line member).ne_nil)
    (isClosed_of_areLines areLines)

theorem close_concat (front : List Text) {line : Text} (nonempty : line ≠ [])
    (isOpen : line.getLast? ≠ some '\n') : close (front ++ [line]) = front ++ [line ++ ['\n']] := by
  obtain ⟨start, last, rfl⟩ := (List.eq_nil_or_concat' line).resolve_left nonempty
  have notFeed : ¬ last = '\n' := by simpa using isOpen
  simp [close, endLast]

/-- Giving the last line its line feed makes all lines of a text complete. -/
theorem close_lines (text : Text) :
    close (Text.lines text) = Text.lines (Text.ended text) ∧
      ∀ line ∈ Text.lines (Text.ended text), Text.IsLine line := by
  obtain ⟨parts, last, areLines, noFeed, rfl⟩ := Text.exists_parts text
  by_cases complete : last = []
  · have isEnded : Text.ended parts.flatten = parts.flatten :=
      if_pos (Text.flatten_ends areLines)
    rw [complete, List.append_nil, isEnded, Text.lines_flatten areLines]
    exact ⟨close_of_areLines areLines, areLines⟩
  · have unfed : ¬ (parts.flatten ++ last = [] ∨ (parts.flatten ++ last).getLast? = some '\n') := by
      rw [List.getLast?_append_of_ne_nil _ complete]
      rintro (isNil | isFeed)
      · exact complete (List.append_eq_nil_iff.mp isNil).2
      · exact noFeed (List.mem_of_getLast? isFeed)
    have closedLines : ∀ line ∈ parts ++ [last ++ ['\n']], Text.IsLine line := by
      intro line member
      rcases List.mem_append.mp member with earlier | isLast
      · exact areLines line earlier
      · exact ⟨last, List.mem_singleton.mp isLast, noFeed⟩
    have isEnded : Text.ended (parts.flatten ++ last) = (parts ++ [last ++ ['\n']]).flatten := by
      rw [Text.ended, if_neg unfed]
      simp
    rw [isEnded, Text.lines_flatten closedLines, Text.lines_flatten_append areLines,
      Text.lines_unfed complete noFeed]
    exact ⟨close_concat parts complete fun isFeed => noFeed (List.mem_of_getLast? isFeed),
      closedLines⟩

/-! ### Sorting -/

/-- Lines in the order of their code points, or in the reverse order. -/
def Ordered (reverse : Bool) (lines : List Text) : Prop :=
  lines.Pairwise fun earlier later =>
    if reverse then ¬ earlier.codes < later.codes else ¬ later.codes < earlier.codes

/-- The order by which lines are sorted. -/
def lineOrder (reverse : Bool) (first second : Text) : Bool :=
  if reverse then Text.atMost second first else Text.atMost first second

theorem sortLines_eq (reverse : Bool) (lines : List Text) :
    sortLines reverse lines = lines.mergeSort (lineOrder reverse) := by
  cases reverse <;> rfl

theorem lineOrder_iff {reverse : Bool} {first second : Text} :
    lineOrder reverse first second = true ↔
      if reverse then ¬ first.codes < second.codes else ¬ second.codes < first.codes := by
  cases reverse <;> exact Text.atMost_iff

theorem lineOrder_trans (reverse : Bool) (first second third : Text)
    (before : lineOrder reverse first second = true)
    (further : lineOrder reverse second third = true) : lineOrder reverse first third = true := by
  cases reverse with
  | false => exact Text.atMost_trans before further
  | true => exact Text.atMost_trans further before

theorem lineOrder_total (reverse : Bool) (first second : Text) :
    (lineOrder reverse first second || lineOrder reverse second first) = true := by
  cases reverse with
  | false => exact Text.atMost_total first second
  | true => exact Text.atMost_total second first

theorem sortLines_ordered (reverse : Bool) (lines : List Text) :
    Ordered reverse (sortLines reverse lines) := by
  rw [sortLines_eq]
  have sorted := List.pairwise_mergeSort (lineOrder_trans reverse) (lineOrder_total reverse) lines
  exact sorted.imp lineOrder_iff.mp

/-- What is in order is left as it is. -/
theorem sortLines_of_ordered {reverse : Bool} {lines : List Text}
    (ordered : Ordered reverse lines) : sortLines reverse lines = lines := by
  rw [sortLines_eq]
  exact List.mergeSort_of_pairwise (ordered.imp lineOrder_iff.mpr)

end Command

/-! ### Sorting into the file itself -/

/-- The call that sorts a file by its name. -/
def sortCall (reverse : Bool) (file : PlainWord) : Invocation :=
  ⟨Program.sort.word, (Filter.sort reverse).arguments ++ [file]⟩

/-- The call with its output redirected to the file. -/
def Script.sorting (reverse : Bool) (file : PlainWord) : Script :=
  ⟨⟨none, sortCall reverse file, [], some ⟨file, false⟩⟩, []⟩

theorem Script.render_sorting (reverse : Bool) (file : PlainWord) :
    (Script.sorting reverse file).render =
      "sort ".toList ++ (if reverse then "-r ".toList else []) ++ file.text ++ " > ".toList ++
        file.text := by
  have named : Program.sort.word.text = "sort".toList := rfl
  have flagged : (flag 'r' (by decide)).text = "-r".toList := rfl
  cases reverse <;>
    simp [Script.render, Script.sorting, Script.pipelines, Pipeline.render, Pipeline.stages,
      stagesFrom, Stage.render, Stage.texts, Stage.parts, Part.texts, Text.join, sortCall,
      Filter.arguments, named, flagged]

theorem sortCall_texts (reverse : Bool) (file : PlainWord) :
    (sortCall reverse file).arguments.map PlainWord.text =
      (Reader.sort reverse).options ++ [file.text] := by
  cases reverse <;> rfl

/-- A file that is sorted by its name. -/
theorem start_sortCall (reverse : Bool) {file : PlainWord} (noDash : file.text.head? ≠ some '-')
    {session : Session} {trail : Trail} {content : List UInt8} {lines : List Text}
    (holds : session.Holds file.text trail content lines) :
    (sortCall reverse file).run.start session =
      (.ok (Command.sortLines reverse (Command.close lines)), session) := by
  have notFlag : file.text ≠ ['-', 'r'] := fun isFlag => noDash (by rw [isFlag]; rfl)
  have noHelp : Entry.asksForHelp ((Reader.sort reverse).options ++ [file.text]) = false := by
    rw [(Reader.sort reverse).asksForHelp_options noDash]
    cases reverse <;> decide
  have ran : (Catalog.run Program.sort.name ((Reader.sort reverse).options ++ [file.text])).start
      { session with out := [] } =
      (.ok ⟨⟩, { session with out := Command.sortLines reverse (Command.close lines) }) := by
    rw [Catalog.run_name, noHelp, if_neg Bool.false_ne_true]
    show (Command.sort ((Reader.sort reverse).options ++ [file.text])).start _ = _
    rw [Command.sort_named reverse (fun _ => notFlag) file.nonempty,
      start_bind_ok (Command.start_endedLines (holds.withOut []).readLines)]
    rfl
  rw [← sortCall_texts] at ran
  exact start_run (sortCall reverse file) session ran

/-- The sorted text of a file. -/
def sortedText (reverse : Bool) (text : Text) : Text :=
  (Command.sortLines reverse (Text.lines (Text.ended (Text.unifyNewlines text)))).flatten

/-- Sorting a file of text into itself. -/
theorem start_sorting (reverse : Bool) {file : PlainWord} (noDash : file.text.head? ≠ some '-')
    {session : Session} {trail : Trail} {content : List UInt8} {text : Text}
    (leads : session.LeadsTo file.text trail)
    (found : session.files.get? trail = some (.file content))
    (decoded : Text.decode content = .ok text) :
    (Script.sorting reverse file).run.start session =
      (.ok [], session.withFiles
        (session.files.put trail (.file (Text.encode (sortedText reverse text))))) := by
  have holds : session.Holds file.text trail content (Text.lines (Text.unifyNewlines text)) :=
    ⟨leads, found, text, decoded, rfl⟩
  rw [Script.sorting, run_one, run_stage, stage_written,
    start_bind_ok (start_sortCall reverse noDash holds), (Command.close_lines _).1,
    start_bind_ok (writeFile_leads leads holds.free _)]
  rfl

section SortedText

variable (reverse : Bool) (text : Text)

theorem isLine_sortLines :
    ∀ line ∈ Command.sortLines reverse (Text.lines (Text.ended text)), Text.IsLine line :=
  fun line member => (Command.close_lines text).2 line
    ((Command.sortLines_perm reverse _).mem_iff.mp member)

theorem lines_sortedText : Text.lines (sortedText reverse text) =
    Command.sortLines reverse (Text.lines (Text.ended (Text.unifyNewlines text))) :=
  Text.lines_flatten (isLine_sortLines reverse _)

theorem noReturn_sortedText : '\r' ∉ sortedText reverse text := by
  intro member
  have permuted : (sortedText reverse text).Perm (Text.ended (Text.unifyNewlines text)) := by
    have flat := (Command.sortLines_perm reverse
      (Text.lines (Text.ended (Text.unifyNewlines text)))).flatten
    rwa [Text.flatten_lines] at flat
  have inText := permuted.mem_iff.mp member
  rw [Text.ended] at inText
  split at inText
  · exact Text.notMem_unifyNewlines text inText
  · rcases List.mem_append.mp inText with earlier | isFeed
    · exact Text.notMem_unifyNewlines text earlier
    · exact absurd isFeed (by decide)

/-- A sorted text is sorted already. -/
theorem sortedText_sortedText :
    sortedText reverse (sortedText reverse text) = sortedText reverse text := by
  have unified := Text.unifyNewlines_eq_iff.mpr (noReturn_sortedText reverse text)
  have isEnded : Text.ended (sortedText reverse text) = sortedText reverse text :=
    if_pos (Text.flatten_ends (isLine_sortLines reverse _))
  have ordered := Command.sortLines_ordered reverse
    (Text.lines (Text.ended (Text.unifyNewlines text)))
  rw [← lines_sortedText] at ordered
  rw [sortedText, unified, isEnded, Command.sortLines_of_ordered ordered, Text.flatten_lines]

end SortedText

/-- Sorting a file of text into itself. The file then holds the lines it held, with unified line
ends and the last one complete, in the order of their code points or in reverse order. Nothing else
changes, and doing it again changes nothing at all. -/
theorem runLine_sort_itself (reverse : Bool) (file : PlainWord)
    (noDash : file.text.head? ≠ some '-') {session : Session} {trail : Trail}
    {content : List UInt8} {text : Text} (leads : session.LeadsTo file.text trail)
    (found : session.files.get? trail = some (.file content))
    (decoded : Text.decode content = .ok text) :
    let line := "sort ".toList ++ (if reverse then "-r ".toList else []) ++ file.text ++
      " > ".toList ++ file.text
    ∃ sorted after, (runLine line).start session = (.ok [], after) ∧
      after.files.get? trail = some (.file (Text.encode sorted)) ∧
      (∀ other, other ≠ trail → after.files.standing other = session.files.standing other) ∧
      (Text.lines sorted).Perm (Text.lines (Text.ended (Text.unifyNewlines text))) ∧
      (∀ line ∈ Text.lines sorted, Text.IsLine line) ∧
      Command.Ordered reverse (Text.lines sorted) ∧
      (runLine line).start after = (.ok [], after) := by
  intro line
  have meaning : runLine line = (Script.sorting reverse file).run := by
    rw [← outputOfLine_render (interpret 0), Script.render_sorting]
    rfl
  have free := FileTree.not_hasDirectory_of_file found
  have stillFound := FileTree.get?_put_file found (.file (Text.encode (sortedText reverse text)))
  rw [meaning]
  refine ⟨sortedText reverse text, _, start_sorting reverse noDash leads found decoded, stillFound,
    fun other different => FileTree.standing_put free _ different, ?_, ?_, ?_, ?_⟩
  · rw [lines_sortedText]
    exact Command.sortLines_perm reverse _
  · rw [lines_sortedText]
    exact isLine_sortLines reverse _
  · rw [lines_sortedText]
    exact Command.sortLines_ordered reverse _
  · -- The second run puts the text at the same place that the first one has put there.
    have stillLeads := leads.withFiles fun _ =>
      FileTree.hasDirectory_put free (Text.encode (sortedText reverse text))
    rw [start_sorting reverse noDash stillLeads stillFound (Text.decode_encode _),
      sortedText_sortedText]
    exact congrArg (fun files => (Except.ok [], session.withFiles files))
      (FileTree.put_put session.files trail _ _)

/-- Two lines change places, and the last gets its line feed. -/
theorem runLine_sort_itself_open :
    openSession.LeadsTo openFileName.text ["f".toList] ∧
      ∃ sorted after, (runLine "sort f > f".toList).start openSession = (.ok [], after) ∧
        after.files.get? ["f".toList] = some (.file (Text.encode sorted)) ∧
        (Text.lines sorted).Perm ["b\n".toList, "a\n".toList] ∧
        Command.Ordered false (Text.lines sorted) ∧
        (runLine "sort f > f".toList).start after = (.ok [], after) := by
  have leads : openSession.LeadsTo openFileName.text ["f".toList] :=
    ⟨by decide, ⟨[], 0⟩, "f".toList, rfl, rfl, by decide, rfl⟩
  obtain ⟨sorted, after, ran, found, -, permuted, -, ordered, again⟩ :=
    runLine_sort_itself false openFileName (by decide) leads rfl (Text.decode_encode _)
  exact ⟨leads, sorted, after, ran, found, permuted, ordered, again⟩

end MiniShell
