/-
This file says which lines of a file are left when its first lines are taken
and then the last ones of these. They form a window, told by the numbers of the
lines: it ends with the last line that the first command passes on, and it is
as long as the second command asks for, unless it reaches the beginning of the
file. Between the two commands the lines are put together and cut apart again;
that gives the same lines, because only the last line of a text may lack its
line feed.

Both commands get their numbers as words. The words are numerals, which are
read back as the numbers that they were written for.
-/

import MiniShell.Proofs.RangeUnion
import MiniShell.Proofs.SortedFile

namespace MiniShell

open MiniShell.Action

/-! ### Numerals as words -/

namespace Text

theorem digitValue?_of_isDigit {digit : Char} (isDigit : digit.isDigit = true) :
    digitValue? digit = some (digit.toNat - '0'.toNat) := by
  have bounds : 48 ≤ digit.toNat ∧ digit.toNat < 48 + 10 := by
    obtain ⟨least, most⟩ := Char.isDigit_iff_toNat.mp isDigit
    exact ⟨least, Nat.lt_succ_of_le most⟩
  have isZero : zeros.find? (fun first => first ≤ digit.toNat && digit.toNat < first + 10) =
      some 48 := by
    rw [zeros, List.find?_cons_of_pos (by simpa using bounds)]
  rw [digitValue?, isZero]
  rfl

theorem digitsValue_eq {digits : Text} (areDigits : ∀ digit ∈ digits, digit.isDigit = true)
    (value : Nat) : digitsValue value digits = Nat.ofDigitChars 10 digits value := by
  induction digits generalizing value with
  | nil => rfl
  | cons digit rest inductionHypothesis =>
    obtain ⟨isDigit, others⟩ := List.forall_mem_cons.mp areDigits
    have further := inductionHypothesis others (10 * value + (digit.toNat - '0'.toNat))
    rw [digitsValue, List.foldl_cons, digitValue?_of_isDigit isDigit, Option.getD_some]
    exact further

theorem ofNat_eq (number : Nat) : Text.ofNat number = Nat.toDigits 10 number := Nat.toList_repr

theorem isDigit_of_mem_ofNat {number : Nat} {digit : Char} (member : digit ∈ Text.ofNat number) :
    digit.isDigit = true := by
  rw [ofNat_eq] at member
  exact Nat.isDigit_of_mem_toDigits (by decide) (by decide) member

namespace Numeral

/-- The usual numeral of a number. -/
def ofNat (number : Nat) (short : (Text.ofNat number).length ≤ digitLimit) : Numeral where
  digits := Text.ofNat number
  nonempty := by
    rw [ofNat_eq]
    exact Nat.toDigits_ne_nil
  decimal digit member := by
    rw [isDecimal, digitValue?_of_isDigit (isDigit_of_mem_ofNat member)]
    rfl
  short

theorem value_ofNat (number : Nat) (short : (Text.ofNat number).length ≤ digitLimit) :
    (ofNat number short).value = number := by
  have value : digitsValue 0 (Text.ofNat number) = number := by
    rw [digitsValue_eq (fun _ => isDigit_of_mem_ofNat), ofNat_eq]
    exact Nat.ofDigitChars_toDigits (by decide) (by decide)
  exact value

/-- A numeral stands for itself on a command line. -/
def word (numeral : Numeral) : PlainWord where
  text := numeral.digits
  nonempty := numeral.nonempty
  plain := by
    have special : (specialCharacters.all fun character => !isDecimal character) = true := by
      decide
    intro character member isSpecial
    have notDecimal := List.all_eq_true.mp special character isSpecial
    rw [numeral.decimal character member] at notDecimal
    exact absurd notDecimal (by decide)

end Numeral

/-! ### The first lines of a text -/

/-- The first lines of a text are cut apart again when they are put together. -/
theorem lines_flatten_take (text : Text) (count : Nat) :
    lines ((lines text).take count).flatten = (lines text).take count := by
  induction text generalizing count with
  | nil => simp [lines]
  | cons character rest inductionHypothesis =>
    cases count with
    | zero => rfl
    | succ count =>
      by_cases isFeed : character = '\n'
      · have feed : IsLine [character] := ⟨[], by rw [isFeed]; rfl, by simp⟩
        rw [lines, if_pos isFeed, List.take_succ_cons, List.flatten_cons, feed.lines_append,
          inductionHypothesis]
      · rw [lines, if_neg isFeed]
        -- The character goes to the front of the first line of the rest, if there is one.
        cases cut : lines rest with
        | nil => simp [lines, isFeed]
        | cons line others =>
          have further := inductionHypothesis (count + 1)
          rw [cut, List.take_succ_cons, List.flatten_cons] at further
          rw [List.take_succ_cons, List.flatten_cons, List.cons_append, lines, if_neg isFeed,
            further]

end Text

namespace Command

/-- The lines whose numbers, counted from one, lie above one bound and not above another. -/
def numberedLines (above upTo : Int) (lines : List Text) : List Text :=
  ((lines.zipIdx 1).filter fun entry => above < entry.2 ∧ entry.2 ≤ upTo).map Prod.fst

/-- The lines between the bounds are those behind the ones that lie before them. -/
theorem numberedLines_append {above upTo : Int} (front middle back : List Text)
    (begins : ∀ number : Nat, 0 < number → (above < number ↔ front.length < number))
    (ends : ∀ number : Nat, number ≤ upTo ↔ number ≤ front.length + middle.length) :
    numberedLines above upTo (front ++ middle ++ back) = middle := by
  have before : (front.zipIdx 1).filter
      (fun entry => decide (above < entry.2 ∧ entry.2 ≤ upTo)) = [] := by
    refine List.filter_eq_nil_iff.mpr fun entry member => ?_
    obtain ⟨least, most, -⟩ := List.mem_zipIdx member
    rw [decide_eq_true_eq, begins entry.2 (by omega), ends]
    omega
  have between : (middle.zipIdx (1 + front.length)).filter
      (fun entry => decide (above < entry.2 ∧ entry.2 ≤ upTo)) =
      middle.zipIdx (1 + front.length) := by
    refine List.filter_eq_self.mpr fun entry member => ?_
    obtain ⟨least, most, -⟩ := List.mem_zipIdx member
    rw [decide_eq_true_eq, begins entry.2 (by omega), ends]
    omega
  have behind : (back.zipIdx (1 + (front ++ middle).length)).filter
      (fun entry => decide (above < entry.2 ∧ entry.2 ≤ upTo)) = [] := by
    refine List.filter_eq_nil_iff.mpr fun entry member => ?_
    obtain ⟨least, -, -⟩ := List.mem_zipIdx member
    rw [List.length_append] at least
    rw [decide_eq_true_eq, begins entry.2 (by omega), ends]
    omega
  rw [numberedLines, List.zipIdx_append, List.zipIdx_append, List.filter_append,
    List.filter_append, before, between, behind, List.nil_append, List.append_nil,
    List.zipIdx_map_fst]

/-- The last ones of the first lines. -/
theorem lastLines_firstLines (upTo count : Nat) (lines : List Text) :
    lastLines count (firstLines upTo lines) =
      numberedLines (min upTo lines.length - count) (min upTo lines.length) lines := by
  let first := lines.take upTo
  have length : first.length = min upTo lines.length := List.length_take
  have parts : first.take (first.length - count) ++ first.drop (first.length - count) ++
      lines.drop upTo = lines := by
    rw [List.take_append_drop, List.take_append_drop]
  have window := @numberedLines_append (min upTo lines.length - count) (min upTo lines.length)
    (first.take (first.length - count)) (first.drop (first.length - count)) (lines.drop upTo)
    (by intro number positive; rw [List.length_take]; omega)
    (by intro number; rw [List.length_take, List.length_drop]; omega)
  rw [parts] at window
  exact window.symm

end Command

/-! ### The two commands in a pipeline -/

/-- The call that takes the first lines of a file. -/
def headCall (count : Text.Numeral) (file : PlainWord) : Invocation :=
  ⟨Program.head.word, (Filter.head (some count.word)).arguments ++ [file]⟩

theorem Script.render_piped_tail (first last : Text.Numeral) (file : PlainWord) :
    (Script.piped (headCall first file) (.tail (some last.word))).render =
      "head -n ".toList ++ first.digits ++ ' ' :: file.text ++ " | tail -n ".toList ++
        last.digits := by
  rw [Script.render_piped]
  have heads : Program.head.word.text = "head".toList := rfl
  have tails : Program.tail.name = "tail".toList := rfl
  have flagged : (flag 'n' (by decide)).text = "-n".toList := rfl
  simp [headCall, Filter.arguments, Filter.program, Text.join, Text.Numeral.word, heads, tails,
    flagged]

/-- Picking lines by a number goes on once the number has been read. -/
theorem someLines_numeral (name : Text) (pick : Int → List Text → List Text)
    (count : Text.Numeral) :
    Command.someLines name pick ["-n".toList, count.digits] =
        (someInputLines >>= fun lines => emit (pick count.value lines)) ∧
      ∀ file : Text, file ≠ [] → Command.someLines name pick ["-n".toList, count.digits, file] =
        (Command.fileLines file >>= fun lines => emit (pick count.value lines)) := by
  have counted : Action.number count.digits = pure (count.value : Int) := by
    rw [Action.number, Text.toInt_numeral]
  constructor
  · simp [Command.someLines, counted, Command.linesOf]
  · intro file named
    simp [Command.someLines, counted, Command.linesOf, named]

/-- The first command puts out the first lines of the file. -/
theorem start_headCall (count : Text.Numeral) (file : PlainWord) {session : Session}
    {trail : Trail} {content : List UInt8} {lines : List Text}
    (holds : session.Holds file.text trail content lines) :
    (headCall count file).run.start session =
      (.ok (Command.firstLines count.value lines), session) := by
  have read := Command.start_fileLines (holds.withOut []).readLines
  have ran : (Catalog.run Program.head.name ["-n".toList, count.digits, file.text]).start
      { session with out := [] } =
      (.ok ⟨⟩, { session with out := Command.firstLines count.value lines }) := by
    rw [Catalog.run_name]
    show (Command.someLines "head" Command.firstLines
      ["-n".toList, count.digits, file.text]).start _ = _
    rw [(someLines_numeral _ _ count).2 file.text file.nonempty, start_bind_ok read]
    rfl
  exact start_run (headCall count file) session ran

theorem start_tail_ready (count : Text.Numeral) {lines : List Text} (nonempty : lines ≠ [])
    (cut : Text.lines lines.flatten = lines) (session : Session) :
    ((Filter.tail (some count.word)).call.runOn { ready := lines.flatten }).start session =
      (.ok (Command.lastLines count.value lines), session) := by
  have reads : Catalog.run Program.tail.name ["-n".toList, count.digits] =
      (someInputLines >>= fun lines => emit (Command.lastLines count.value lines)) := by
    rw [Catalog.run_name]
    exact (someLines_numeral "tail" Command.lastLines count).1
  exact start_runOn_ready (by rwa [cut]) reads (by rw [cut]) session

/-- Taking the first lines of a file of text and then the last ones of these gives a window: the
lines, as they are in the file but with unified line ends, whose numbers go up to the smaller of the
first number and the number of all lines, and lie above what is the second number below that. -/
theorem runLine_window (first last : Text.Numeral) (positive : 1 ≤ first.value)
    (file : PlainWord) {session : Session} {trail : Trail} {content : List UInt8} {text : Text}
    (leads : session.LeadsTo file.text trail)
    (found : session.files.get? trail = some (.file content))
    (decoded : Text.decode content = .ok text) (nonempty : text ≠ []) :
    let lines := Text.lines (Text.unifyNewlines text)
    (runLine ("head -n ".toList ++ first.digits ++ ' ' :: file.text ++ " | tail -n ".toList ++
        last.digits)).start session =
      (.ok (Command.numberedLines (min first.value lines.length - last.value)
        (min first.value lines.length) lines), session) := by
  intro lines
  have holds : session.Holds file.text trail content lines := ⟨leads, found, text, decoded, rfl⟩
  have taken : Command.firstLines first.value lines ≠ [] := by
    have someLines : lines ≠ [] := Text.lines_ne_nil (Text.unifyNewlines_ne_nil nonempty)
    rw [Command.firstLines, Int.toNat_natCast, ne_eq, List.take_eq_nil_iff]
    exact fun none => none.elim (by omega) someLines
  rw [runLine_of_render (Script.render_piped_tail first last file),
    run_piped _ (start_headCall first file holds) taken,
    start_tail_ready last taken (Text.lines_flatten_take _ _), Command.lastLines_firstLines]

/-- The second of two lines has no line feed, and the window reaches beyond it. -/
theorem runLine_window_open :
    (runLine "head -n 12 f | tail -n 01".toList).start openSession =
      (.ok ["a".toList], openSession) := by
  have leads : openSession.LeadsTo openFileName.text ["f".toList] :=
    ⟨by decide, ⟨[], 0⟩, "f".toList, rfl, rfl, by decide, rfl⟩
  exact runLine_window (.ofNat 12 (by decide)) (.ofText "01".toList (by decide))
    (by rw [Text.Numeral.value_ofNat]; decide) openFileName leads rfl (Text.decode_encode _)
    (by decide)

end MiniShell
