/-
This file compares reading a file by its name with reading it from standard
input. A command that reads one file or standard input does the same with the
lines either way, with two exceptions: `sort` and `grep` add a missing last
line feed only to lines that come from a file by its name. So the two lines end
alike, and they put out the same unless the last line that would get the line
feed lacks it.

What comes before the reading and after it only writes, so it is enough to
compare what is read. Only `sed` writes into the file that it has read, which
its output does not show.
-/

import MiniShell.Proofs.CallLine
import MiniShell.Proofs.CutParts
import MiniShell.Proofs.TemporaryFile

namespace MiniShell

open MiniShell.Action

variable {lines : List Text} {session named fed : Session} {file : Text}

/-! ### The last line feed -/

namespace Command

/-- The last of the lines, if there is any, has its line feed. -/
def IsClosed (lines : List Text) : Prop := ∀ line ∈ lines.getLast?, line.getLast? = some '\n'

/-- The lines with a line feed at the end of the last one. -/
def close (lines : List Text) : List Text :=
  match endLast lines with
  | .ok ended => ended
  | .error _ => lines

/-- The last of some lines that are not empty. -/
theorem endLast_cases (some : lines ≠ []) (solid : ∀ line ∈ lines, line ≠ []) :
    (IsClosed lines ∧ endLast lines = .ok lines) ∨
      (¬ IsClosed lines ∧ ∃ front line, lines = front ++ [line] ∧
        endLast lines = .ok (front ++ [line ++ ['\n']])) := by
  obtain ⟨front, line, rfl⟩ := (List.eq_nil_or_concat' lines).resolve_left some
  have nonempty : line ≠ [] := solid line (by simp)
  obtain ⟨start, last, rfl⟩ := (List.eq_nil_or_concat' line).resolve_left nonempty
  by_cases isFeed : last = '\n'
  · subst isFeed
    exact Or.inl ⟨by simp [IsClosed], by simp [endLast]⟩
  · refine Or.inr ⟨by simp [IsClosed, isFeed], front, _, rfl, ?_⟩
    simp [endLast]

theorem close_of_isClosed (solid : ∀ line ∈ lines, line ≠ []) (isClosed : IsClosed lines) :
    close lines = lines := by
  by_cases none : lines = []
  · rw [none]
    rfl
  · rcases endLast_cases none solid with ⟨_, ended⟩ | ⟨isOpen, _⟩
    · rw [close, ended]
    · exact absurd isClosed isOpen

/-- Closing open lines makes their text longer. -/
theorem flatten_close (solid : ∀ line ∈ lines, line ≠ []) (isOpen : ¬ IsClosed lines) :
    (close lines).flatten = lines.flatten ++ ['\n'] := by
  have some : lines ≠ [] := by
    rintro rfl
    exact isOpen fun _ member => absurd member (by simp)
  rcases endLast_cases some solid with ⟨isClosed, _⟩ | ⟨_, front, line, rfl, ended⟩
  · exact absurd isClosed isOpen
  · rw [close, ended]
    simp

theorem start_endSomeOutput (solid : ∀ line ∈ session.out, line ≠ []) :
    endSomeOutput.start session = (.ok ⟨⟩, { session with out := close session.out }) := by
  by_cases none : session.out = []
  · have closed : close session.out = session.out := by
      rw [none]
      rfl
    rw [endSomeOutput, start_bind_ok (start_get _), if_pos none, closed]
    rfl
  · rw [endSomeOutput, start_bind_ok (start_get _), if_neg none, endOutput,
      start_bind_ok (start_get _), close]
    rcases endLast_cases none solid with ⟨_, ended⟩ | ⟨_, front, line, _, ended⟩ <;>
      simp [ended]

theorem start_fileLines {after : Session}
    (reads : (readLines file).start session = (.ok lines, after)) :
    (fileLines file).start session = (.ok lines, after) := by
  rw [fileLines, start_rephrase, reads]
  rfl

/-- Whether a line begins with a match. No line does if the pattern is flawed. -/
def matchesLine (pattern line : Text) : Bool :=
  match Pattern.Expression.ofText pattern with
  | .ok expression => expression.matchesStart line
  | .error _ => false

theorem matchingLines_eq {pattern : Text} {found : List Text}
    (searched : matchingLines pattern lines = .ok found) :
    found = lines.filter (matchesLine pattern) := by
  unfold matchingLines at searched
  split at searched
  · exact (Except.ok.inj searched).symm
  · cases compiled : Pattern.Expression.ofText pattern with
    | error flaw =>
      rw [compiled] at searched
      exact absurd searched (by simp [bind, Except.bind])
    | ok expression =>
      have same : matchesLine pattern = expression.matchesStart := by
        funext line
        rw [matchesLine, compiled]
      rw [compiled] at searched
      rw [same]
      exact (Except.ok.inj searched).symm

/-- The lines that match are among those that are searched. -/
theorem matchingLines_solid {pattern : Text} {found : List Text} (solid : ∀ line ∈ lines, line ≠ [])
    (searched : matchingLines pattern lines = .ok found) : ∀ line ∈ found, line ≠ [] := by
  intro line member
  rw [matchingLines_eq searched] at member
  exact solid line (List.mem_of_mem_filter member)

end Command

/-! ### Readers -/

/-- The commands that read one file or standard input, each with the options that may stand before
the name of the file. -/
inductive Reader
  | cat
  | head (count : Option Text)
  | tail (count : Option Text)
  | sort (reverse : Bool)
  | uniq (ignoreCase : Bool)
  | wc (flags : List Text)
  | cut (ranges : Text)
  | grep (pattern : Text)
  | sed (expression : Text)

namespace Reader

def program : Reader → Program
  | cat => .cat
  | head _ => .head
  | tail _ => .tail
  | sort _ => .sort
  | uniq _ => .uniq
  | wc _ => .wc
  | cut _ => .cut
  | grep _ => .grep
  | sed _ => .sed

def options : Reader → List Text
  | cat => []
  | head count | tail count => count.toList.flatMap fun count => [['-', 'n'], count]
  | sort reverse => if reverse then [['-', 'r']] else []
  | uniq ignoreCase => if ignoreCase then [['-', 'i']] else []
  | wc flags => flags.map ('-' :: ·)
  | cut ranges => [['-', 'b'], ranges]
  | grep pattern => [pattern]
  | sed expression => [expression]

/-- No line feed is missing where the reader would add one to the lines of a file. A reader that is
asked for help reads nothing. -/
def Unaffected (lines : List Text) : Reader → Prop
  | sort _ => Command.IsClosed lines
  | grep pattern => Entry.asksForHelp [pattern] = true ∨
      ∀ found, Command.matchingLines pattern lines = .ok found → Command.IsClosed found
  | _ => True

end Reader

/-! ### Reading the same lines in two ways -/

section Outcome

variable {Result : Type} {action : Action Result} {next : Result → Action Unit}

theorem outcome_bind (after : Session) {result : Result}
    (ran : action.start { session with out := [] } = (.ok result, { after with out := [] })) :
    (action >>= next).outcome session = (next result).outcome after := by
  rw [outcome, start_bind_ok ran]
  rfl

theorem outcome_bind_error {after : Session} {fault : Fault}
    (ran : action.start { session with out := [] } = (.error fault, after)) :
    (action >>= next).outcome session = .error fault := by
  rw [outcome, start_bind, ran]
  rfl

/-- What only writes has the same outcome in all sessions. -/
theorem WritesOnly.outcome_eq {action : Action Unit} (writes : WritesOnly action)
    (first second : Session) : action.outcome first = action.outcome second := by
  obtain ⟨result, out, ranFirst, ranSecond⟩ :=
    writes { first with out := [] } { second with out := [] } rfl
  rw [outcome, outcome, ranFirst, ranSecond]

end Outcome

/-- A file whose lines can be read by its name in one session, and from standard input in
another. -/
structure Served (file : Text) (lines : List Text) (named fed : Session) : Prop where
  nonempty : file ≠ []
  reads : (readLines file).start { named with out := [] } = (.ok lines, { named with out := [] })
  stands : named.surroundings.pathExists file = true
  writable : ∃ trail, named.LeadsTo file trail ∧ ¬ named.files.HasDirectory trail
  offers : ∃ inputs, someInputLines.start { fed with out := [] } =
    (.ok lines, { fed with inputs, out := [] })
  solid : ∀ line ∈ lines, line ≠ []

namespace Served

variable {next : List Text → Action Unit} (served : Served file lines named fed)
include served

theorem fileLines :
    (Command.fileLines file).start { named with out := [] } =
      (.ok lines, { named with out := [] }) :=
  Command.start_fileLines served.reads

theorem linesOf :
    (Command.linesOf file).start { named with out := [] } =
      (.ok lines, { named with out := [] }) := by
  rw [Command.linesOf, if_neg served.nonempty, served.fileLines]

theorem pathExists :
    (Action.pathExists file).start { named with out := [] } =
      (.ok true, { named with out := [] }) := by
  rw [Action.pathExists, start_bind_ok (start_get _)]
  exact congrArg (fun stands => (Except.ok stands, { named with out := [] })) served.stands

theorem outcome_input (writes : ∀ lines, WritesOnly (next lines)) :
    (someInputLines >>= next).outcome fed = (next lines).outcome named := by
  obtain ⟨inputs, read⟩ := served.offers
  rw [outcome_bind { fed with inputs } read]
  exact (writes lines).outcome_eq _ _

/-- What is done with the lines does not depend on where they come from. -/
theorem outcome_alike {reading : Action (List Text)}
    (reads : reading.start { named with out := [] } = (.ok lines, { named with out := [] }))
    (writes : ∀ lines, WritesOnly (next lines)) :
    (reading >>= next).outcome named = (someInputLines >>= next).outcome fed := by
  rw [outcome_bind named reads, served.outcome_input writes]

/-! ### The commands that agree -/

theorem cat (whole : Text.trimEnd file = file) :
    (Command.cat [file]).outcome named = (Command.cat []).outcome fed := by
  have byName : Command.cat [file] = (Command.fileLines file >>= fun lines => do
      emit lines
      Command.endSomeOutput) := by
    simp [Command.cat, Command.fileLines, whole]
  rw [byName]
  exact served.outcome_alike served.fileLines fun lines =>
    (WritesOnly.emit lines).bind fun _ => WritesOnly.endSomeOutput

theorem someLines (name : Text) (pick : Int → List Text → List Text) :
    (Command.someLines name pick [file]).outcome named =
      (Command.someLines name pick []).outcome fed :=
  served.outcome_alike served.linesOf fun _ => WritesOnly.emit _

theorem someLines_number (name : Text) (pick : Int → List Text → List Text) (count : Text) :
    (Command.someLines name pick ["-n".toList, count, file]).outcome named =
      (Command.someLines name pick ["-n".toList, count]).outcome fed := by
  simp only [Command.someLines, ne_eq, not_true, if_false]
  cases counted : Text.toInt count with
  | error cause => simp only [Action.number, counted]; rfl
  | ok number =>
    simp only [Action.number, counted, pure_bind]
    exact served.outcome_alike served.linesOf fun _ => WritesOnly.emit _

theorem uniq (notFlag : file ≠ "-i".toList) :
    (Command.uniq [file]).outcome named = (Command.uniq []).outcome fed := by
  simp only [Command.uniq, if_neg notFlag]
  exact served.outcome_alike served.fileLines fun lines => WritesOnly.uniqueLines false lines

theorem uniq_ignoreCase :
    (Command.uniq ["-i".toList, file]).outcome named =
      (Command.uniq ["-i".toList]).outcome fed :=
  served.outcome_alike served.fileLines fun lines => WritesOnly.uniqueLines true lines

theorem cut (ranges : Text) :
    (Command.cut ["-b".toList, ranges, file]).outcome named =
      (Command.cut ["-b".toList, ranges]).outcome fed := by
  refine served.outcome_alike served.fileLines fun lines => ?_
  refine WritesOnly.bind (WritesOnly.orThrow _) fun ranges =>
    WritesOnly.sequential.forM fun line _ => ?_
  exact (WritesOnly.orThrow _).bind fun _ => WritesOnly.emit _

theorem fileTally :
    (Command.fileTally file).start { named with out := [] } =
      (.ok (Tally.ofLines lines), { named with out := [] }) := by
  rw [Command.fileTally, start_bind_ok served.pathExists, if_pos rfl, start_bind_ok served.reads]
  rfl

/-- The tally of one file is not changed by adding it up. -/
theorem wc {arguments flags : List Text}
    (byName : Command.flagsAndFiles (arguments ++ [file]) = (flags, [file]))
    (byInput : Command.flagsAndFiles arguments = (flags, [])) :
    (Command.wc (arguments ++ [file])).outcome named = (Command.wc arguments).outcome fed := by
  have added : ∀ tally : Tally, Tally.zero.add tally = tally := fun tally => by
    simp [Tally.add, Tally.zero]
  have wcNamed : Command.wc (arguments ++ [file]) =
      (Command.fileTally file >>= Command.showTally flags) := by
    simp [Command.wc, byName, added]
  have wcFed : Command.wc arguments =
      (someInputLines >>= fun lines => Command.showTally flags (Tally.ofLines lines)) := by
    simp [Command.wc, byInput]
  rw [wcNamed, wcFed, outcome_bind named served.fileTally,
    served.outcome_input fun _ => WritesOnly.showTally _ _]

end Served

/-! ### Replacing in the file that is read -/

/-- Two runs that end alike and leave the same output. -/
def EndAlike {Result : Type} (first second : Except Fault Result × Session) : Prop :=
  first.1 = second.1 ∧ first.2.out = second.2.out

theorem EndAlike.outcome_eq {first second : Action Unit} {named fed : Session}
    (alike : EndAlike (first.start { named with out := [] })
      (second.start { fed with out := [] })) :
    first.outcome named = second.outcome fed := by
  rw [outcome, outcome, alike.1, alike.2]

theorem EndAlike.bind {Result Other : Type} {first second : Action Result}
    {next : Result → Action Other} (alike : EndAlike (first.start named) (second.start fed))
    (writes : ∀ result, WritesOnly (next result)) :
    EndAlike ((first >>= next).start named) ((second >>= next).start fed) := by
  rcases ranNamed : first.start named with ⟨result, after⟩
  rcases ranFed : second.start fed with ⟨other, last⟩
  rw [ranNamed, ranFed] at alike
  obtain ⟨rfl, written⟩ := alike
  rw [start_bind, start_bind, ranNamed, ranFed]
  cases result with
  | error fault => exact ⟨rfl, written⟩
  | ok result =>
    obtain ⟨ended, out, ranFirst, ranSecond⟩ := writes result after last written
    simp only [ranFirst, ranSecond]
    exact ⟨rfl, rfl⟩

/-- Writing the changed lines into a file does not show in the output. -/
theorem rewriting_alike (substitution : Command.Substitution) {path : Text} {trail : Trail}
    (lines : List Text) (leads : named.LeadsTo path trail) (free : ¬ named.files.HasDirectory trail)
    (written : named.out = fed.out) :
    EndAlike
      (Action.start (lines.forM fun line => do
        let changed ← Command.orFlaw (Command.substitute substitution line)
        appendFile path changed
        emit [changed]) named)
      (Action.start (lines.forM fun line => do
        emit [← Command.orFlaw (Command.substitute substitution line)]) fed) := by
  induction lines generalizing named fed with
  | nil => exact ⟨rfl, written⟩
  | cons line rest inductionHypothesis =>
    rw [List.forM_eq_forM, List.forM_cons, List.forM_cons]
    cases changes : Command.substitute substitution line with
    | error flaw => exact ⟨rfl, written⟩
    | ok changed =>
      have appended := appendFile_leads leads free changed
      simp only [Command.orFlaw, pure_bind]
      rw [bind_assoc, start_bind_ok appended]
      refine inductionHypothesis (leads.withFiles fun _ => FileTree.hasDirectory_put free _)
        (not_hasDirectory_put _ _ _) ?_
      exact congrArg (· ++ [changed]) written

theorem Served.sed (served : Served file lines named fed) (expression : Text) :
    (Command.sed [expression, file]).outcome named = (Command.sed [expression]).outcome fed := by
  simp only [Command.sed]
  cases meaning : Command.substitution? expression with
  | none =>
    simp only [Command.substitution, meaning]
    rfl
  | some substitution =>
    obtain ⟨trail, leads, free⟩ := served.writable
    obtain ⟨inputs, read⟩ := served.offers
    let emptied := named.withFiles (named.files.put trail (.file (Text.encode [])))
    have empties : (writeFile file []).start { named with out := [] } =
        (.ok ⟨⟩, { emptied with out := [] }) :=
      @writeFile_leads trail file { named with out := [] } leads free []
    simp only [Command.substitution, meaning, pure_bind, Command.substituteInFile]
    rw [outcome_bind named served.pathExists]
    simp only [Bool.not_true, Bool.false_eq_true, if_false]
    rw [outcome_bind named served.reads, outcome_bind emptied empties,
      outcome_bind { fed with inputs } read]
    refine EndAlike.outcome_eq (EndAlike.bind ?_ fun _ => WritesOnly.endOutput)
    exact rewriting_alike substitution lines
      (leads.withFiles fun _ => FileTree.hasDirectory_put free _) (not_hasDirectory_put _ _ _) rfl

/-! ### The commands that add a line feed -/

theorem Command.start_endedLines {after : Session}
    (reads : (readLines file).start session = (.ok lines, after)) :
    (endedLines file).start session = (.ok (close lines), after) := by
  rw [endedLines, start_bind_ok (start_fileLines reads), close]
  cases endLast lines <;> rfl

theorem Command.sort_named (reverse : Bool) (notFlag : reverse = false → file ≠ ['-', 'r'])
    (nonempty : file ≠ []) :
    sort ((Reader.sort reverse).options ++ [file]) =
      (endedLines file >>= fun lines => emit (sortLines reverse lines)) := by
  cases reverse with
  | false => simp [sort, Reader.options, notFlag rfl, nonempty]
  | true => simp [sort, Reader.options, nonempty]

namespace Served

variable (served : Served file lines named fed)
include served

/-- Sorting by name adds the last line feed before it sorts, and sorting standard input does not. -/
theorem sort (notFlag : file ≠ ['-', 'r']) (reverse : Bool) :
    (Command.sort ((Reader.sort reverse).options ++ [file])).outcome named =
        .ok (Command.sortLines reverse (Command.close lines)) ∧
      (Command.sort (Reader.sort reverse).options).outcome fed =
        .ok (Command.sortLines reverse lines) := by
  have byName := Command.sort_named reverse (fun _ => notFlag) served.nonempty
  have byInput : Command.sort (Reader.sort reverse).options =
      (someInputLines >>= fun lines => emit (Command.sortLines reverse lines)) := by
    cases reverse <;> simp [Command.sort, Reader.options]
  rw [byName, byInput, outcome_bind named (Command.start_endedLines served.reads),
    served.outcome_input fun _ => WritesOnly.emit _]
  exact ⟨rfl, rfl⟩

/-- A search by name adds a last line feed to what it has found, and a search in standard input does
not. A flawed pattern fails both. -/
theorem grep (pattern : Text) :
    (∃ found, Command.matchingLines pattern lines = .ok found ∧
      (Command.grep [pattern, file]).outcome named = .ok (Command.close found) ∧
      (Command.grep [pattern]).outcome fed = .ok found) ∨
    ∃ flaw, Command.matchingLines pattern lines = .error flaw ∧
      (Command.grep [pattern, file]).outcome named =
        .error (Command.searchFault pattern file (.pattern flaw)) ∧
      (Command.grep [pattern]).outcome fed = .error (.pattern flaw) := by
  have byName : Command.grep [pattern, file] = (do
      rephrase (Command.searchFault pattern file) do
        let lines ← readLines file
        emit (← Command.orFlaw (Command.matchingLines pattern lines))
      Command.endSomeOutput) := by
    simp [Command.grep, Command.searchFiles]
  have byInput : (Command.grep [pattern]).outcome fed =
      (Command.orFlaw (Command.matchingLines pattern lines) >>= emit).outcome named :=
    served.outcome_input fun _ => (WritesOnly.orFlaw _).bind fun _ => WritesOnly.emit _
  rw [byInput, byName]
  cases searched : Command.matchingLines pattern lines with
  | error flaw =>
    have failed : Action.start (rephrase (Command.searchFault pattern file) do
        let lines ← readLines file
        emit (← Command.orFlaw (Command.matchingLines pattern lines)))
        { named with out := [] } =
        (.error (Command.searchFault pattern file (.pattern flaw)), { named with out := [] }) := by
      rw [start_rephrase, start_bind_ok served.reads, searched]
      rfl
    exact Or.inr ⟨flaw, rfl, outcome_bind_error failed, rfl⟩
  | ok found =>
    have passed : Action.start (rephrase (Command.searchFault pattern file) do
        let lines ← readLines file
        emit (← Command.orFlaw (Command.matchingLines pattern lines)))
        { named with out := [] } = (.ok ⟨⟩, { named with out := found }) := by
      rw [start_rephrase, start_bind_ok served.reads, searched]
      rfl
    -- Only the search by name ends its output with a line break.
    have solid : ∀ line ∈ ({ named with out := found } : Session).out, line ≠ [] :=
      Command.matchingLines_solid served.solid searched
    refine Or.inl ⟨found, rfl, ?_, rfl⟩
    rw [outcome, start_bind_ok passed, Command.start_endSomeOutput solid]
    rfl

end Served

/-! ### Comparing the outcomes -/

/-- Two outcomes are both outputs or both faults. The outputs are the same under a condition, and
otherwise they do not even make up the same text. -/
structure Compare (condition : Prop) (named fed : Except Fault (List Text)) : Prop where
  endAlike : named.isOk = fed.isOk
  same : condition → named.toOption = fed.toOption
  differ : ¬ condition → named.toOption.map List.flatten ≠ fed.toOption.map List.flatten

theorem Compare.of_eq {condition : Prop} (holds : condition)
    {named fed : Except Fault (List Text)} (equal : named = fed) : Compare condition named fed where
  endAlike := by rw [equal]
  same _ := by rw [equal]
  differ fails := absurd holds fails

theorem Command.sortLines_perm (reverse : Bool) (lines : List Text) :
    (sortLines reverse lines).Perm lines := by
  unfold sortLines
  split <;> exact List.mergeSort_perm _ _

theorem length_flatten_sortLines (reverse : Bool) (lines : List Text) :
    (Command.sortLines reverse lines).flatten.length = lines.flatten.length := by
  rw [List.length_flatten, List.length_flatten]
  exact ((Command.sortLines_perm reverse lines).map List.length).sum_nat

namespace Served

/-- The name of a file behind flags is told apart from them. -/
theorem flagsAndFiles_dashes (flags : List Text) (noDash : file.head? ≠ some '-') :
    ∃ letters, Command.flagsAndFiles (flags.map ('-' :: ·)) = (letters, []) ∧
      Command.flagsAndFiles (flags.map ('-' :: ·) ++ [file]) = (letters, [file]) := by
  induction flags with
  | nil =>
    refine ⟨[], rfl, ?_⟩
    simp only [List.map_nil, List.nil_append, Command.flagsAndFiles]
    split
    · exact absurd rfl noDash
    · rfl
  | cons flag rest inductionHypothesis =>
    obtain ⟨letters, alone, followed⟩ := inductionHypothesis
    refine ⟨flag.map (fun letter => [letter]) ++ letters, ?_, ?_⟩
    · simp [Command.flagsAndFiles, alone]
    · simp [Command.flagsAndFiles, followed]

variable (served : Served file lines named fed)
include served

theorem compare_sort (notFlag : file ≠ ['-', 'r']) (reverse : Bool) :
    Compare (Command.IsClosed lines)
      ((Command.sort ((Reader.sort reverse).options ++ [file])).outcome named)
      ((Command.sort (Reader.sort reverse).options).outcome fed) := by
  obtain ⟨byName, byInput⟩ := served.sort notFlag reverse
  rw [byName, byInput]
  refine ⟨rfl, fun isClosed => ?_, fun isOpen equal => ?_⟩
  · rw [Command.close_of_isClosed served.solid isClosed]
  · have lengths := congrArg List.length (Option.some.inj equal)
    rw [length_flatten_sortLines, length_flatten_sortLines,
      Command.flatten_close served.solid isOpen] at lengths
    simp at lengths

theorem compare_grep (pattern : Text) :
    Compare
      (∀ found, Command.matchingLines pattern lines = .ok found → Command.IsClosed found)
      ((Command.grep [pattern, file]).outcome named) ((Command.grep [pattern]).outcome fed) := by
  rcases served.grep pattern with
    ⟨found, searched, byName, byInput⟩ | ⟨flaw, searched, byName, byInput⟩
  · have solid := Command.matchingLines_solid served.solid searched
    have condition : (∀ found, Command.matchingLines pattern lines = .ok found →
        Command.IsClosed found) ↔ Command.IsClosed found := by
      simp [searched]
    rw [condition, byName, byInput]
    refine ⟨rfl, fun isClosed => ?_, fun isOpen equal => ?_⟩
    · rw [Command.close_of_isClosed solid isClosed]
    · have lengths := congrArg List.length (Option.some.inj equal)
      rw [Command.flatten_close solid isOpen] at lengths
      simp at lengths
  · rw [byName, byInput]
    exact ⟨rfl, fun _ => rfl, fun fails => absurd (by simp [searched]) fails⟩

/-- Reading a file by name compares with reading it from standard input. -/
theorem compare_program (reader : Reader)
    (noDash : file.head? ≠ some '-') (whole : reader = .cat → Text.trimEnd file = file)
    (noHelp : Entry.asksForHelp reader.options = false) :
    Compare (reader.Unaffected lines)
      ((reader.program.run (reader.options ++ [file])).outcome named)
      ((reader.program.run reader.options).outcome fed) := by
  have notFlag : ∀ letter, file ≠ ['-', letter] := by
    rintro letter rfl
    exact noDash rfl
  match reader with
  | .cat => exact .of_eq trivial (served.cat (whole rfl))
  | .head none => exact .of_eq trivial (served.someLines "head" Command.firstLines)
  | .head (some count) =>
    exact .of_eq trivial (served.someLines_number "head" Command.firstLines count)
  | .tail none => exact .of_eq trivial (served.someLines "tail" Command.lastLines)
  | .tail (some count) =>
    exact .of_eq trivial (served.someLines_number "tail" Command.lastLines count)
  | .sort reverse => exact served.compare_sort (notFlag 'r') reverse
  | .uniq false => exact .of_eq trivial (served.uniq (notFlag 'i'))
  | .uniq true => exact .of_eq trivial served.uniq_ignoreCase
  | .wc flags =>
    obtain ⟨letters, alone, followed⟩ := flagsAndFiles_dashes flags noDash
    exact .of_eq trivial (served.wc followed alone)
  | .cut ranges => exact .of_eq trivial (served.cut ranges)
  | .grep pattern =>
    have condition : Reader.Unaffected lines (.grep pattern) ↔
        ∀ found, Command.matchingLines pattern lines = .ok found → Command.IsClosed found := by
      rw [Reader.Unaffected, show Entry.asksForHelp [pattern] = false from noHelp]
      simp
    rw [condition]
    exact served.compare_grep pattern
  | .sed expression => exact .of_eq trivial (served.sed expression)

end Served

/-- A program by its name in the catalog. -/
theorem Catalog.run_name (program : Program) (arguments : List Text) :
    Catalog.run program.name arguments =
      if Entry.asksForHelp arguments then emit [program.manual] else program.run arguments := by
  rw [Catalog.run, lookup_name]
  rfl

namespace Reader

theorem asksForHelp_options (reader : Reader) (noDash : file.head? ≠ some '-') :
    Entry.asksForHelp (reader.options ++ [file]) = Entry.asksForHelp reader.options := by
  cases options : reader.options with
  | nil =>
    have notHelp : ∀ rest, file ≠ '-' :: rest := by
      rintro rest rfl
      exact noDash rfl
    simp [Entry.asksForHelp, notHelp]
  | cons first rest => rfl

theorem unaffected_of_help (reader : Reader) (lines : List Text)
    (asks : Entry.asksForHelp reader.options = true) : reader.Unaffected lines := by
  cases reader with
  | sort reverse => cases reverse <;> exact absurd asks (by decide)
  | grep pattern => exact Or.inl asks
  | _ => trivial

/-- A reader by its name in the catalog compares in the same way. -/
theorem compare (reader : Reader) (served : Served file lines named fed)
    (noDash : file.head? ≠ some '-') (whole : reader = .cat → Text.trimEnd file = file) :
    Compare (reader.Unaffected lines)
      ((Catalog.run reader.program.name (reader.options ++ [file])).outcome named)
      ((Catalog.run reader.program.name reader.options).outcome fed) := by
  rw [Catalog.run_name, Catalog.run_name, reader.asksForHelp_options noDash]
  by_cases asks : Entry.asksForHelp reader.options = true
  · rw [if_pos asks, if_pos asks]
    exact .of_eq (reader.unaffected_of_help lines asks) rfl
  · rw [if_neg asks, if_neg asks]
    exact served.compare_program reader noDash whole (by simpa using asks)

end Reader

/-! ### The two command lines -/

/-- A file that can be opened and holds text is read by its name and from standard input. -/
theorem served_of_openFile {path : Text} {trail : Trail} {content : List UInt8} {text : Text}
    (opened : (openFile path).start session = (.ok (trail, content), session))
    (decoded : Text.decode content = .ok text) (nonempty : text ≠ []) :
    Served path (Text.lines (Text.unifyNewlines text)) session
      { session with inputs := Stream.ofFile trail :: session.inputs } := by
  obtain ⟨noNull, found⟩ := find_of_openFile opened
  obtain ⟨location, name, reached, stands, short, place, holds⟩ := find_file_inv found
  have leads : session.LeadsTo path trail := ⟨noNull, location, name, reached, stands, short, place⟩
  have some : Text.lines (Text.unifyNewlines text) ≠ [] :=
    Text.lines_ne_nil (Text.unifyNewlines_ne_nil nonempty)
  constructor
  case nonempty => exact leads.ne_nil
  case reads =>
    have reopened : (openFile path).start { session with out := [] } =
        (.ok (trail, content), { session with out := [] }) :=
      @openFile_leads trail path { session with out := [] } content leads holds
    rw [readLines, start_bind_ok reopened]
    simp only [decoded]
    rfl
  case stands => rw [Surroundings.pathExists, found]
  case writable =>
    refine ⟨trail, leads, ?_⟩
    rintro ⟨entries, directory⟩
    exact absurd (holds.symm.trans directory) (by simp)
  case offers =>
    obtain ⟨after, read⟩ := @someInputLines_of_offers
      { session with inputs := Stream.ofFile trail :: session.inputs } _ _ _ rfl
      (offers_decoded holds decoded)
    refine ⟨after :: session.inputs, (read []).trans ?_⟩
    rw [linesRead, if_neg some]
  case solid => exact fun line => Text.ne_nil_of_mem_lines

/-- Reading a file by its name agrees with reading it from standard input, up to a last line feed.
For every reader with its options, in whatever way the words are written, and every file that can be
opened and holds text: naming the file behind the words and redirecting standard input from it end
alike. Both give the same output where no line feed is missing that the reader would add, and
otherwise the texts differ. -/
theorem runLine_named_fed (reader : Reader) {line : FragmentLine}
    (words : line.words = reader.program.name :: reader.options) (file : PlainWord)
    (noDash : file.text.head? ≠ some '-')
    (whole : reader = .cat → Text.trimEnd file.text = file.text) {session : Session}
    {trail : Trail} {content : List UInt8} {text : Text}
    (opened : (openFile file.text).start session = (.ok (trail, content), session))
    (decoded : Text.decode content = .ok text) (nonempty : text ≠ []) :
    let named := ((runLine (line.written ++ ' ' :: file.text)).start session).1
    let fed := ((runLine (line.written ++ " < ".toList ++ file.text)).start session).1
    let lines := Text.lines (Text.unifyNewlines text)
    named.isOk = fed.isOk ∧
      (reader.Unaffected lines → named.toOption = fed.toOption) ∧
      (¬ reader.Unaffected lines →
        named.toOption.map List.flatten ≠ fed.toOption.map List.flatten) := by
  intro named fed lines
  have compared := reader.compare (served_of_openFile opened decoded nonempty) noDash whole
  rw [← runLine_named words file session, ← runLine_fed words opened] at compared
  exact ⟨compared.endAlike, compared.same, compared.differ⟩

/-- A session with a file of two lines, of which the last lacks its line feed. -/
def openSession : Session where
  files := .directory [("f".toList, .file (Text.encode "b\na".toList))]
  home := "/home".toList
  inputs := []

/-- The name of that file. -/
def openFileName : PlainWord := .ofText "f".toList (by decide)

theorem openSession_opens : (openFile openFileName.text).start openSession =
    (.ok (["f".toList], Text.encode "b\na".toList), openSession) :=
  openFile_leads ⟨by decide, ⟨[], 0⟩, "f".toList, rfl, rfl, by decide, rfl⟩ rfl

/-- The words of `sort -r`, with quotes around the dash. -/
def sortLine : FragmentLine where
  first := ⟨[.bare Program.sort.word], by simp⟩
  later :=
    [(⟨[' '], by simp, by simp⟩,
      ⟨[.single ['-'] (by simp), .bare (.ofText ['r'] (by decide))], by simp⟩)]

theorem runLine_named_fed_sort :
    let named := ((runLine "sort '-'r f".toList).start openSession).1
    let fed := ((runLine "sort '-'r < f".toList).start openSession).1
    ¬ (Reader.sort true).Unaffected (Text.lines (Text.unifyNewlines "b\na".toList)) ∧
      named.isOk = fed.isOk ∧
      named.toOption.map List.flatten ≠ fed.toOption.map List.flatten := by
  have affected : ¬ (Reader.sort true).Unaffected
      (Text.lines (Text.unifyNewlines "b\na".toList)) := by
    show ¬ Command.IsClosed ["b\n".toList, "a".toList]
    simp [Command.IsClosed]
  have words : sortLine.words = (Reader.sort true).program.name :: (Reader.sort true).options := by
    decide
  obtain ⟨alike, -, differ⟩ := runLine_named_fed (.sort true) words openFileName (by decide)
    (by simp) openSession_opens (Text.decode_encode _) (by decide)
  exact ⟨affected, alike, differ affected⟩

/-- A search in a file by its name gives the last line a line feed, and a search in standard input
does not. -/
theorem grep_closes_named :
    ((runLine "grep a f".toList).start openSession).1.toOption = some ["a\n".toList] ∧
      ((runLine "grep a < f".toList).start openSession).1.toOption = some ["a".toList] := by
  decide +kernel

end MiniShell
