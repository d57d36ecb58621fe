/-
This file proves that a filter sees nothing but its input. A filter is a
command without a file argument: it reads standard input to its end and writes
output. In two sessions that offer the same lines it ends alike and writes the
same, whatever the lines come from, and it changes no file. The proof follows
the commands: what comes before the reading and after it only writes.

An action that only writes does the same in every session, up to what had been
written before. Reading standard input is the one step that depends on more,
and all it depends on are the lines that are offered.
-/

import MiniShell.Proofs.Evaluation
import MiniShell.Proofs.Script

namespace MiniShell

open MiniShell.Action

/-! ### Actions that only write -/

section Writing

variable {Result Other : Type}

/-- An action that looks at nothing but the output written so far, and changes nothing else. -/
def WritesOnly (action : Action Result) : Prop :=
  ∀ first second : Session, first.out = second.out → ∃ result out,
    action.start first = (result, { first with out }) ∧
    action.start second = (result, { second with out })

namespace WritesOnly

theorem pure (result : Result) : WritesOnly (Pure.pure result) := by
  intro first second same
  exact ⟨.ok result, first.out, rfl, by rw [same]; rfl⟩

theorem throw (fault : Fault) : WritesOnly (throw fault : Action Result) := by
  intro first second same
  exact ⟨.error fault, first.out, rfl, by rw [same]; rfl⟩

theorem bind {action : Action Result} {next : Result → Action Other} (writes : WritesOnly action)
    (onward : ∀ result, WritesOnly (next result)) : WritesOnly (action >>= next) := by
  intro first second same
  obtain ⟨result, out, ranFirst, ranSecond⟩ := writes first second same
  rw [start_bind, start_bind, ranFirst, ranSecond]
  cases result with
  | error fault => exact ⟨.error fault, out, rfl, rfl⟩
  | ok result => exact onward result { first with out } { second with out } rfl

theorem emit (lines : List Text) : WritesOnly (Action.emit lines) := by
  intro first second same
  exact ⟨.ok ⟨⟩, first.out ++ lines, rfl, by rw [same]; rfl⟩

theorem sequential : Sequential fun Result (action : Action Result) =>
    WritesOnly action := ⟨pure, bind⟩

theorem endOutput : WritesOnly Command.endOutput := by
  intro first second same
  simp only [Command.endOutput, start_bind, start_get, ← same]
  cases Command.endLast first.out with
  | ok lines => exact ⟨.ok ⟨⟩, lines, rfl, rfl⟩
  | error fault => exact throw fault first second same

theorem endSomeOutput : WritesOnly Command.endSomeOutput := by
  intro first second same
  simp only [Command.endSomeOutput, start_bind, start_get, ← same]
  by_cases none : first.out = []
  · simp only [if_pos none]
    exact pure _ first second same
  · simp only [if_neg none]
    exact endOutput first second same

theorem number (text : Text) : WritesOnly (Action.number text) := by
  unfold Action.number
  cases Text.toInt text with
  | ok number => exact pure number
  | error cause => exact throw _

theorem orThrow (outcome : Except Fault Result) : WritesOnly (Command.orThrow outcome) := by
  cases outcome with
  | ok result => exact pure result
  | error fault => exact throw fault

theorem orFlaw (outcome : Except Pattern.Flaw Result) : WritesOnly (Command.orFlaw outcome) := by
  cases outcome with
  | ok result => exact pure result
  | error flaw => exact throw _

theorem substitution (expression : Text) : WritesOnly (Command.substitution expression) := by
  unfold Command.substitution
  cases Command.substitution? expression with
  | some substitution => exact pure substitution
  | none => exact throw _

theorem uniqueLines (ignoreCase : Bool) (lines : List Text) :
    WritesOnly (match Command.uniqueLines ignoreCase lines with
      | .ok unique => Action.emit unique
      | .error fault => MonadExcept.throw fault) := by
  cases Command.uniqueLines ignoreCase lines with
  | ok unique => exact emit unique
  | error fault => exact throw fault

theorem showCounters (tally : Tally) (flags : List Text) :
    WritesOnly (Command.showCounters tally flags) := by
  induction flags with
  | nil => exact pure PUnit.unit
  | cons flag rest inductionHypothesis =>
    unfold Command.showCounters
    cases Command.counter? tally flag with
    | none => exact throw _
    | some number => exact bind (emit _) fun _ => inductionHypothesis

theorem showTally (flags : List Text) (tally : Tally) :
    WritesOnly (Command.showTally flags tally) := by
  unfold Command.showTally
  by_cases none : flags = []
  · rw [if_pos none]
    exact emit _
  · rw [if_neg none]
    exact showCounters tally flags

end WritesOnly

end Writing

/-! ### Actions that read standard input to its end -/

/-- Two sessions in which the same output has been written and the same lines can be read. -/
structure Twins (first second : Session) : Prop where
  written : first.out = second.out
  read : ∃ result inputs others, ∀ out,
    someInputLines.start { first with out } = (result, { first with out, inputs }) ∧
    someInputLines.start { second with out } = (result, { second with out, inputs := others })

theorem Twins.withOutput {first second : Session} (twins : Twins first second)
    (out : List Text) : Twins { first with out } { second with out } :=
  ⟨rfl, twins.read⟩

/-- An action that ends alike and writes the same wherever the same lines can be read. It
changes nothing but the output and standard input. -/
def Filters (action : Action Unit) : Prop :=
  ∀ first second : Session, Twins first second → ∃ result out inputs others,
    action.start first = (result, { first with out, inputs }) ∧
    action.start second = (result, { second with out, inputs := others })

theorem WritesOnly.filters {action : Action Unit} (writes : WritesOnly action) :
    Filters action := by
  intro first second twins
  obtain ⟨result, out, ranFirst, ranSecond⟩ := writes first second twins.written
  exact ⟨result, out, first.inputs, second.inputs, ranFirst, ranSecond⟩

namespace Filters

theorem prepared {Result : Type} {action : Action Result} {next : Result → Action Unit}
    (writes : WritesOnly action) (onward : ∀ result, Filters (next result)) :
    Filters (action >>= next) := by
  intro first second twins
  obtain ⟨result, out, ranFirst, ranSecond⟩ := writes first second twins.written
  rw [start_bind, start_bind, ranFirst, ranSecond]
  cases result with
  | error fault => exact ⟨.error fault, out, first.inputs, second.inputs, rfl, rfl⟩
  | ok result => exact onward result _ _ (twins.withOutput out)

/-- An action that reads standard input once and then only writes is a filter. -/
theorem reading {next : List Text → Action Unit} (writes : ∀ lines, WritesOnly (next lines)) :
    Filters (someInputLines >>= next) := by
  intro first second twins
  obtain ⟨result, inputs, others, reads⟩ := twins.read
  obtain ⟨readFirst, readSecond⟩ := reads first.out
  have readSecond : someInputLines.start second = (result, { second with inputs := others }) := by
    rw [twins.written] at readSecond
    exact readSecond
  rw [start_bind, start_bind, show someInputLines.start first = _ from readFirst, readSecond]
  cases result with
  | error fault =>
    exact ⟨.error fault, first.out, inputs, others, rfl, by rw [twins.written]⟩
  | ok lines =>
    obtain ⟨result, out, ranFirst, ranSecond⟩ :=
      writes lines { first with inputs } { second with inputs := others } twins.written
    exact ⟨result, out, inputs, others, ranFirst, ranSecond⟩

/-! ### The commands -/

theorem cat : Filters (Command.cat []) := by
  simp only [Command.cat, if_true]
  exact reading fun lines => (WritesOnly.emit lines).bind fun _ => WritesOnly.endSomeOutput

theorem someLines (name : Text) (pick : Int → List Text → List Text) :
    Filters (Command.someLines name pick []) :=
  reading fun _ => WritesOnly.emit _

theorem someLines_number (name : Text) (pick : Int → List Text → List Text) (count : Text) :
    Filters (Command.someLines name pick ["-n".toList, count]) := by
  simp only [Command.someLines, ne_eq, not_true, if_false]
  exact prepared (WritesOnly.number count) fun _ => reading fun _ => WritesOnly.emit _

theorem sort : Filters (Command.sort []) :=
  reading fun _ => WritesOnly.emit _

theorem sort_reverse : Filters (Command.sort ["-r".toList]) :=
  reading fun _ => WritesOnly.emit _

theorem uniq : Filters (Command.uniq []) :=
  reading fun lines => WritesOnly.uniqueLines false lines

theorem uniq_ignoreCase : Filters (Command.uniq ["-i".toList]) :=
  reading fun lines => WritesOnly.uniqueLines true lines

theorem wc {arguments : List Text} (flagsOnly : (Command.flagsAndFiles arguments).2 = []) :
    Filters (Command.wc arguments) := by
  simp only [Command.wc, flagsOnly, if_true]
  exact reading fun lines => WritesOnly.showTally _ _

theorem cut (ranges : Text) : Filters (Command.cut ["-b".toList, ranges]) := by
  refine reading fun lines => WritesOnly.bind (WritesOnly.orThrow _) fun ranges => ?_
  exact WritesOnly.sequential.forM fun line _ =>
    (WritesOnly.orThrow _).bind fun _ => WritesOnly.emit _

theorem grep (pattern : Text) : Filters (Command.grep [pattern]) :=
  reading fun _ => (WritesOnly.orFlaw _).bind fun _ => WritesOnly.emit _

theorem sed (expression : Text) : Filters (Command.sed [expression]) := by
  refine prepared (WritesOnly.substitution expression) fun substitution => reading fun lines => ?_
  refine WritesOnly.bind (WritesOnly.sequential.forM fun line _ => ?_)
    fun _ => WritesOnly.endOutput
  exact (WritesOnly.orFlaw _).bind fun _ => WritesOnly.emit _

end Filters

/-! ### Filters as calls -/

/-- Letters after a dash. -/
structure FlagWord where
  letters : Text
  plain : ∀ letter ∈ letters, letter ∉ specialCharacters

def FlagWord.word (flags : FlagWord) : PlainWord where
  text := '-' :: flags.letters
  nonempty := by simp
  plain := by
    intro character member
    rcases List.mem_cons.mp member with dash | letter
    · rw [dash]
      decide
    · exact flags.plain character letter

/-- The flag of one letter. -/
def flag (letter : Char) (plain : letter ∉ specialCharacters) : PlainWord :=
  FlagWord.word ⟨[letter], by simpa using plain⟩

/-- The calls that read standard input to its end: commands without a file argument. -/
inductive Filter
  | cat
  | head (count : Option PlainWord)
  | tail (count : Option PlainWord)
  | sort (reverse : Bool)
  | uniq (ignoreCase : Bool)
  | wc (flags : List FlagWord)
  | cut (ranges : PlainWord)
  | grep (pattern : PlainWord)
  | sed (expression : PlainWord)

/-- The name of a command as a word. -/
def Program.word (program : Program) : PlainWord :=
  .ofText program.name (by cases program <;> decide)

namespace Filter

def program : Filter → Program
  | cat => .cat
  | head _ => .head
  | tail _ => .tail
  | sort _ => .sort
  | uniq _ => .uniq
  | wc _ => .wc
  | cut _ => .cut
  | grep _ => .grep
  | sed _ => .sed

def arguments : Filter → List PlainWord
  | cat => []
  | head count | tail count => count.toList.flatMap fun count => [flag 'n' (by decide), count]
  | sort reverse => if reverse then [flag 'r' (by decide)] else []
  | uniq ignoreCase => if ignoreCase then [flag 'i' (by decide)] else []
  | wc flags => flags.map FlagWord.word
  | cut ranges => [flag 'b' (by decide), ranges]
  | grep pattern => [pattern]
  | sed expression => [expression]

def call (filter : Filter) : Invocation := ⟨filter.program.word, filter.arguments⟩

end Filter

theorem lookup_name (program : Program) :
    Catalog.standard.lookup program.name = some (.helpful program) := by
  cases program <;> decide +kernel

theorem flagsAndFiles_flags (flags : List FlagWord) :
    (Command.flagsAndFiles (flags.map fun flags => flags.word.text)).2 = [] := by
  induction flags with
  | nil => rfl
  | cons flag rest inductionHypothesis => exact inductionHypothesis

/-- The program of every filter is made of writing and one reading of standard input. -/
theorem Filter.program_filters (filter : Filter) :
    Filters (filter.program.run (filter.arguments.map PlainWord.text)) := by
  match filter with
  | cat => exact Filters.cat
  | head none => exact Filters.someLines "head" Command.firstLines
  | head (some count) => exact Filters.someLines_number "head" Command.firstLines count.text
  | tail none => exact Filters.someLines "tail" Command.lastLines
  | tail (some count) => exact Filters.someLines_number "tail" Command.lastLines count.text
  | sort false => exact Filters.sort
  | sort true => exact Filters.sort_reverse
  | uniq false => exact Filters.uniq
  | uniq true => exact Filters.uniq_ignoreCase
  | wc flags =>
    refine Filters.wc ?_
    rw [arguments, List.map_map]
    exact flagsAndFiles_flags flags
  | cut ranges => exact Filters.cut ranges.text
  | grep pattern => exact Filters.grep pattern.text
  | sed expression => exact Filters.sed expression.text

/-- A filter sees nothing but its input. Asked for help, it does not even see that. -/
theorem Filter.filters (filter : Filter) :
    Filters (Catalog.run filter.call.name.text (filter.call.arguments.map PlainWord.text)) := by
  rw [Catalog.run, show Catalog.standard.lookup filter.call.name.text = _ from
    lookup_name filter.program]
  show Filters (if Entry.asksForHelp (filter.arguments.map PlainWord.text) then
    Action.emit [filter.program.manual]
    else filter.program.run (filter.arguments.map PlainWord.text))
  by_cases asks : Entry.asksForHelp (filter.arguments.map PlainWord.text) = true
  · rw [if_pos asks]
    exact (WritesOnly.emit _).filters
  · rw [if_neg asks]
    exact filter.program_filters

end MiniShell
