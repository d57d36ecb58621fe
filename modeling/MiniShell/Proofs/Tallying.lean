/-
This file says what is counted in files of text. The counts are made line by
line and added up file by file. Since a line feed is white space, no word
reaches over the end of a line, so the words of the lines are the words of the
text: its longest runs without white space. And since a text that ends a line
can be followed by any other, files that end their lines count as one file with
all of their texts in it.

The counts of texts add up when the texts are put one behind the other. For
words this needs that no word goes on in the next text, and this is where the
ends of lines come in.
-/

import MiniShell.Command.Counting
import MiniShell.Proofs.LineContents
import MiniShell.Proofs.LongestRuns

namespace MiniShell

open MiniShell.Action

/-! ### Words -/

namespace Text

/-- No word reaches over white space. -/
theorem words_append_space {space : Char} (isSpace : isSpace space = true) (text rest : Text) :
    words (text ++ space :: rest) = words text ++ words rest := by
  rw [words, splitAt_append_mark isSpace, List.filter_append]
  rfl

theorem words_cons_space {space : Char} (isSpace : isSpace space = true) (rest : Text) :
    words (space :: rest) = words rest :=
  words_append_space isSpace [] rest

theorem words_append_spaces {spaces : Text} (areSpaces : ∀ space ∈ spaces, isSpace space = true)
    (rest : Text) : words (spaces ++ rest) = words rest := by
  induction spaces with
  | nil => rfl
  | cons space spaces inductionHypothesis =>
    obtain ⟨isSpace, others⟩ := List.forall_mem_cons.mp areSpaces
    rw [List.cons_append, words_cons_space isSpace, inductionHypothesis others]

theorem words_solid {word : Text} (nonempty : word ≠ [])
    (solid : ∀ character ∈ word, isSpace character = false) : words word = [word] := by
  rw [words, splitAt_unmarked solid]
  simp [nonempty]

/-- A text without white space. -/
def isSolid (text : Text) : Bool := text.all fun character => !isSpace character

/-- The words of a text are its longest runs without white space. -/
theorem words_runs {text : Text} {runs : List Text} (areRuns : LongestRuns isSpace text runs) :
    words text = runs.filter isSolid := by
  induction areRuns with
  | nil => rfl
  | @cons first others rest runs alike stops further inductionHypothesis =>
    have whole : ∀ character ∈ first :: others, isSpace character = isSpace first :=
      List.forall_mem_cons.mpr ⟨rfl, alike⟩
    cases kind : isSpace first with
    | true =>
      have notSolid : isSolid (first :: others) = false := by simp [isSolid, kind]
      rw [words_append_spaces fun space member => (whole space member).trans kind,
        List.filter_cons_of_neg (by simp [notSolid]), inductionHypothesis]
    | false =>
      have solid : ∀ character ∈ first :: others, isSpace character = false :=
        fun character member => (whole character member).trans kind
      have isSolid : isSolid (first :: others) = true :=
        List.all_eq_true.mpr fun character member => by simp [solid character member]
      rw [List.filter_cons_of_pos isSolid, ← inductionHypothesis]
      cases rest with
      | nil =>
        rw [List.append_nil, words_solid (List.cons_ne_nil _ _) solid]
        rfl
      | cons next rest =>
        -- White space follows the run and ends the word.
        have space : isSpace next = true := by simpa [kind] using stops next rfl
        rw [words_append_space space, words_solid (List.cons_ne_nil _ _) solid,
          words_cons_space space]
        rfl

theorem words_isLine_append {line : Text} (isLine : IsLine line) (rest : Text) :
    words (line ++ rest) = words line ++ words rest := by
  obtain ⟨front, rfl, -⟩ := isLine
  have feed : isSpace '\n' = true := by decide
  rw [List.append_assoc, List.singleton_append, words_append_space feed, words_append_space feed]
  simp [words, splitAt]

/-- The words of a text are those of its lines. -/
theorem flatMap_words_lines (text : Text) : (lines text).flatMap words = words text := by
  obtain ⟨parts, last, areLines, noFeed, rfl⟩ := exists_parts text
  rw [lines_flatten_append areLines, List.flatMap_append]
  induction parts with
  | nil =>
    by_cases none : last = []
    · rw [none]
      rfl
    · simp [lines_unfed none noFeed]
  | cons part parts inductionHypothesis =>
    obtain ⟨isLine, others⟩ := List.forall_mem_cons.mp areLines
    rw [List.flatMap_cons, List.append_assoc, inductionHypothesis others, List.flatten_cons,
      List.append_assoc, words_isLine_append isLine]

/-! ### Texts that are put together -/

/-- A text is put together from others, each of which ends a line unless it is the last. -/
structure Joins (whole : Text) (texts : List Text) : Prop where
  ended : ∀ text ∈ texts.dropLast, text.EndsLine
  flatten : texts.flatten = whole

theorem Joins.lines_eq {whole : Text} {texts : List Text} (joins : whole.Joins texts) :
    lines whole = (texts.map lines).flatten := by
  obtain ⟨ended, rfl⟩ := joins
  induction texts with
  | nil => rfl
  | cons text rest inductionHypothesis =>
    cases rest with
    | nil => simp
    | cons next rest =>
      obtain ⟨ends, others⟩ := List.forall_mem_cons.mp ended
      rw [List.flatten_cons, ends.lines_append, inductionHypothesis others]
      rfl

/-- A text that ends with a line feed is read the same whatever follows it. -/
theorem unifyNewlines_fed {text : Text} (fed : text.getLast? = some '\n') :
    (unifyNewlines text).getLast? = some '\n' ∧
      ∀ rest, unifyNewlines (text ++ rest) = unifyNewlines text ++ unifyNewlines rest := by
  have longer {character : Char} {text : Text} (nonempty : text ≠ []) :
      (character :: text).getLast? = text.getLast? :=
    List.getLast?_append_of_ne_nil [character] nonempty
  fun_induction unifyNewlines text with
  | case1 => simp at fed
  | case2 text inductionHypothesis =>
    by_cases last : text = []
    · rw [last]
      exact ⟨rfl, fun _ => rfl⟩
    · rw [longer (List.cons_ne_nil _ _), longer last] at fed
      obtain ⟨stillFed, further⟩ := inductionHypothesis fed
      rw [longer (unifyNewlines_ne_nil last)]
      refine ⟨stillFed, fun rest => ?_⟩
      rw [List.cons_append, List.cons_append, unifyNewlines, further, List.cons_append]
  | case3 text notFeed inductionHypothesis =>
    cases text with
    | nil => simp at fed
    | cons next text =>
      have nonempty : next :: text ≠ [] := List.cons_ne_nil _ _
      rw [longer nonempty] at fed
      obtain ⟨stillFed, further⟩ := inductionHypothesis fed
      rw [longer (unifyNewlines_ne_nil nonempty)]
      refine ⟨stillFed, fun rest => ?_⟩
      -- A carriage return at the very end could be completed by what follows, but this text does
      -- not end with one.
      have stillNotFeed : ∀ others, next :: (text ++ rest) = '\n' :: others → False :=
        fun others equal => notFeed text (by rw [(List.cons.inj equal).1])
      rw [List.cons_append, List.cons_append, unifyNewlines.eq_3 _ stillNotFeed,
        ← List.cons_append, further, List.cons_append]
  | case4 character text notPair notReturn inductionHypothesis =>
    have alone (rest : Text) :
        unifyNewlines (character :: rest) = character :: unifyNewlines rest :=
      unifyNewlines.eq_4 character rest (fun _ equal _ => notReturn equal) notReturn
    by_cases last : text = []
    · rw [last] at fed ⊢
      exact ⟨fed, fun rest => alone rest⟩
    · rw [longer last] at fed
      obtain ⟨stillFed, further⟩ := inductionHypothesis fed
      rw [longer (unifyNewlines_ne_nil last)]
      exact ⟨stillFed, fun rest => by rw [List.cons_append, alone, further, List.cons_append]⟩

theorem EndsLine.unifyNewlines {text : Text} (ends : text.EndsLine) :
    (unifyNewlines text).EndsLine := by
  rcases ends with rfl | fed
  · exact Or.inl rfl
  · exact Or.inr (unifyNewlines_fed fed).1

theorem EndsLine.unifyNewlines_append {text : Text} (ends : text.EndsLine) (rest : Text) :
    Text.unifyNewlines (text ++ rest) = Text.unifyNewlines text ++ Text.unifyNewlines rest := by
  rcases ends with rfl | fed
  · rfl
  · exact (unifyNewlines_fed fed).2 rest

/-- Line ends can be unified before texts are put together or afterwards. -/
theorem Joins.unifyNewlines {whole : Text} {texts : List Text} (joins : whole.Joins texts) :
    (unifyNewlines whole).Joins (texts.map Text.unifyNewlines) := by
  obtain ⟨ended, rfl⟩ := joins
  refine ⟨fun text member => ?_, ?_⟩
  · rw [← List.map_dropLast] at member
    obtain ⟨raw, isRaw, rfl⟩ := List.mem_map.mp member
    exact (ended raw isRaw).unifyNewlines
  · induction texts with
    | nil => rfl
    | cons text rest inductionHypothesis =>
      cases rest with
      | nil => simp
      | cons next rest =>
        obtain ⟨ends, others⟩ := List.forall_mem_cons.mp ended
        rw [List.map_cons, List.flatten_cons, inductionHypothesis others,
          ← ends.unifyNewlines_append]
        rfl

end Text

/-! ### Tallies -/

namespace Tally

theorem ofLines_append (lines others : List Text) :
    ofLines (lines ++ others) = (ofLines lines).add (ofLines others) := by
  simp [ofLines, add]

/-- Tallies of lines add up to the tally of all the lines. -/
theorem foldl_add (lines : List Text) (lists : List (List Text)) :
    (lists.map ofLines).foldl add (ofLines lines) = ofLines (lines ++ lists.flatten) := by
  induction lists generalizing lines with
  | nil => simp
  | cons others rest inductionHypothesis =>
    rw [List.map_cons, List.foldl_cons, ← ofLines_append, inductionHypothesis, List.flatten_cons,
      List.append_assoc]

/-- The tally of the lines of a text, told by the text itself. -/
theorem ofLines_lines {text : Text} {runs : List Text}
    (areRuns : LongestRuns Text.isSpace text runs) :
    ofLines (Text.lines text) =
      ⟨text.count '\n' + (if text.EndsLine then 0 else 1), runs.countP Text.isSolid,
        text.length⟩ := by
  rw [ofLines, Text.length_lines, Text.flatMap_words_lines, Text.flatten_lines,
    Text.words_runs areRuns, List.countP_eq_length_filter]

/-- The three numbers of a tally, on a line each. -/
def report (tally : Tally) : List Text :=
  [tally.lines, tally.words, tally.characters].map Command.numberLine

end Tally

namespace Command

variable {session : Session}

theorem start_fileTally {name text : Text} (shown : session.Shows name text) :
    (fileTally name).start session =
      (.ok (Tally.ofLines (Text.lines (Text.unifyNewlines text))), session) := by
  obtain ⟨trail, holds⟩ := shown.holds
  have present : (pathExists name).start session = (.ok true, session) := by
    rw [← holds.pathExists]
    rfl
  rw [fileTally, start_bind_ok present, if_pos rfl, start_bind_ok holds.readLines]
  rfl

theorem start_mapM_fileTally {sources : List (Text × Text)}
    (shown : ∀ source ∈ sources, session.Shows source.1 source.2) :
    ((sources.map Prod.fst).mapM fileTally).start session =
      (.ok (sources.map fun source =>
        Tally.ofLines (Text.lines (Text.unifyNewlines source.2))), session) := by
  induction sources with
  | nil => rfl
  | cons source rest inductionHypothesis =>
    obtain ⟨first, others⟩ := List.forall_mem_cons.mp shown
    rw [List.map_cons, List.mapM_cons, start_bind_ok (start_fileTally first),
      start_bind_ok (inductionHypothesis others)]
    rfl

theorem flagsAndFiles_undashed {names : List Text}
    (noDash : ∀ name ∈ names, name.head? ≠ some '-') : flagsAndFiles names = ([], names) := by
  induction names with
  | nil => rfl
  | cons name rest inductionHypothesis =>
    obtain ⟨first, others⟩ := List.forall_mem_cons.mp noDash
    simp only [flagsAndFiles, inductionHypothesis others]
    split
    · exact absurd rfl first
    · rfl

/-- Counting files reports the tally of the text that they make up. -/
theorem start_wc {sources : List (Text × Text)} (nonempty : sources ≠ [])
    (noDash : ∀ source ∈ sources, source.1.head? ≠ some '-')
    (shown : ∀ source ∈ sources, session.Shows source.1 source.2) {whole : Text}
    (joins : whole.Joins (sources.map fun source => Text.unifyNewlines source.2)) :
    (wc (sources.map Prod.fst)).start session =
      (.ok ⟨⟩, { session with
        out := session.out ++ (Tally.ofLines (Text.lines whole)).report }) := by
  have names : flagsAndFiles (sources.map Prod.fst) = ([], sources.map Prod.fst) :=
    flagsAndFiles_undashed fun name member => by
      obtain ⟨source, isSource, rfl⟩ := List.mem_map.mp member
      exact noDash source isSource
  have total : (sources.map fun source =>
      Tally.ofLines (Text.lines (Text.unifyNewlines source.2))).foldl Tally.add Tally.zero =
      Tally.ofLines (Text.lines whole) := by
    have added := Tally.foldl_add []
      ((sources.map fun source => Text.unifyNewlines source.2).map Text.lines)
    rw [← joins.lines_eq, List.map_map, List.map_map] at added
    exact added
  rw [wc, names]
  simp only [List.map_eq_nil_iff, if_neg nonempty]
  rw [start_bind_ok (start_mapM_fileTally shown), total]
  rfl

/-- Files of text count as one file with all of their texts in it, if each of them ends a line
unless it is the last. Which texts these are, those that the files hold or those that are read from
them with unified line ends, makes no difference. The numbers are those of the text: its line feeds,
and one more where it ends without one, its longest runs without white space, and its characters. -/
theorem wc_joined {sources : List (Text × Text)} (nonempty : sources ≠ [])
    (noDash : ∀ source ∈ sources, source.1.head? ≠ some '-')
    (shown : ∀ source ∈ sources, session.Shows source.1 source.2) {whole : Text}
    (joins : whole.Joins (sources.map fun source => Text.unifyNewlines source.2) ∨
      ∃ held, held.Joins (sources.map Prod.snd) ∧ Text.unifyNewlines held = whole) :
    ∃ (runs : List Text) (tally : Tally), LongestRuns Text.isSpace whole runs ∧
      tally = ⟨whole.count '\n' + (if whole.EndsLine then 0 else 1), runs.countP Text.isSolid,
        whole.length⟩ ∧
      (wc (sources.map Prod.fst)).start session =
        (.ok ⟨⟩, { session with out := session.out ++ tally.report }) ∧
      ∀ (other : Session) (file text : Text), file.head? ≠ some '-' → other.Shows file text →
        Text.unifyNewlines text = whole →
        (wc [file]).start other = (.ok ⟨⟩, { other with out := other.out ++ tally.report }) := by
  have joinsRead : whole.Joins (sources.map fun source => Text.unifyNewlines source.2) := by
    rcases joins with asRead | ⟨held, asHeld, rfl⟩
    · exact asRead
    · have unified := asHeld.unifyNewlines
      rwa [List.map_map] at unified
  obtain ⟨runs, areRuns⟩ := exists_longestRuns Text.isSpace whole
  refine ⟨runs, _, areRuns, rfl, ?_, fun other file text fileNoDash fileShown isWhole => ?_⟩
  · rw [← Tally.ofLines_lines areRuns, start_wc nonempty noDash shown joinsRead]
  · have alone : whole.Joins [Text.unifyNewlines text] := ⟨by simp, by simpa using isWhole⟩
    rw [← Tally.ofLines_lines areRuns]
    exact start_wc (List.cons_ne_nil (file, text) [])
      (List.forall_mem_singleton.mpr fileNoDash) (List.forall_mem_singleton.mpr fileShown) alone

/-- A session with two files of text. -/
def textPair (first second : Text) : Session where
  files := .directory [("f".toList, .file (Text.encode first)),
    ("g".toList, .file (Text.encode second))]
  home := "/home".toList
  inputs := []

/-- The first file ends with a carriage return, which is read as the end of a line. -/
theorem wc_joined_return :
    let session := textPair "a b\r".toList "\nc".toList
    let other := textFile "a b\n\nc".toList
    (wc ["f".toList, "g".toList]).start session =
        (.ok ⟨⟩, { session with out := ["3\n".toList, "3\n".toList, "6\n".toList] }) ∧
      (wc ["f".toList]).start other =
        (.ok ⟨⟩, { other with out := ["3\n".toList, "3\n".toList, "6\n".toList] }) := by
  intro session other
  have shown : ∀ source ∈ [("f".toList, "a b\r".toList), ("g".toList, "\nc".toList)],
      session.Shows source.1 source.2 := by
    refine List.forall_mem_cons.mpr ⟨⟨["f".toList], ?_, rfl⟩,
      List.forall_mem_singleton.mpr ⟨["g".toList], ?_, rfl⟩⟩
    · exact ⟨by decide, ⟨[], 0⟩, "f".toList, rfl, rfl, by decide, rfl⟩
    · exact ⟨by decide, ⟨[], 0⟩, "g".toList, rfl, rfl, by decide, rfl⟩
  obtain ⟨runs, tally, areRuns, isTally, counted, joined⟩ := @wc_joined session _
    (List.cons_ne_nil _ _) (by decide) shown "a b\n\nc".toList (Or.inl ⟨by decide, by decide⟩)
  have words : runs.countP Text.isSolid = 3 := by
    rw [List.countP_eq_length_filter, ← Text.words_runs areRuns]
    decide
  rw [words] at isTally
  have numbers : tally.report = ["3\n".toList, "3\n".toList, "6\n".toList] := by
    rw [isTally]
    decide
  have alone := joined other "f".toList "a b\n\nc".toList (by decide)
    ⟨_, textFile_leads _, rfl⟩ (by decide)
  rw [numbers] at counted alone
  exact ⟨counted, alone⟩

end Command

end MiniShell
