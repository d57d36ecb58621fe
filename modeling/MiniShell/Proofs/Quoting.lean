/-
This file proves that quoting can be undone. A word is written as fragments
side by side: bare text, text in single quotes and text in double quotes, each
with the characters that it can hold. Words are written with blanks between
them. Such a line is read without a report, and the call that it stands for
gets the texts of the words: one argument for each word, with nothing split,
dropped or expanded.

Bare fragments side by side are cut off together, so the tokens of a word are
fewer than its fragments. A bare text that is still to be cut off is carried
along until a quote follows.
-/

import MiniShell.Proofs.Meaning
import MiniShell.Proofs.QuotedWords

namespace MiniShell

open MiniShell.Derivation

/-! ### Fragments, words and lines -/

/-- A part of a word as it is written. -/
inductive Fragment
  | bare (word : PlainWord)
  | single (text : Text) (ordinary : ∀ character ∈ text, character ∉ ['\n', '\''])
  | double (literal : Literal)

namespace Fragment

/-- What a fragment stands for. -/
def text : Fragment → Text
  | bare word => word.text
  | single text _ => text
  | double literal => literal.text

/-- A fragment with its quotes. -/
def written : Fragment → Text
  | bare word => word.text
  | single text _ => '\'' :: (text ++ ['\''])
  | double literal => '"' :: (literal.text ++ ['"'])

end Fragment

/-- A word: fragments side by side. -/
structure FragmentWord where
  fragments : List Fragment
  nonempty : fragments ≠ []

namespace FragmentWord

def text (word : FragmentWord) : Text := word.fragments.flatMap Fragment.text

def written (word : FragmentWord) : Text := word.fragments.flatMap Fragment.written

end FragmentWord

/-- Spaces and tabs between two words. -/
structure Gap where
  text : Text
  nonempty : text ≠ []
  blank : ∀ character ∈ text, character ∈ [' ', '\t']

/-- Words with gaps between them. -/
structure FragmentLine where
  first : FragmentWord
  later : List (Gap × FragmentWord)

namespace FragmentLine

def written (line : FragmentLine) : Text :=
  line.first.written ++ line.later.flatMap fun entry => entry.1.text ++ entry.2.written

/-- The texts of the words. -/
def words (line : FragmentLine) : List Text :=
  line.first.text :: line.later.map fun entry => entry.2.text

end FragmentLine

/-! ### The tokens of a word -/

/-- The token of bare text, if there is any. -/
def bareItems (bare : Text) : List Spelling := if bare = [] then [] else [(.unquoted, bare)]

/-- The tokens of fragments that follow bare text. -/
def fragmentItems (bare : Text) : List Fragment → List Spelling
  | [] => bareItems bare
  | .bare word :: rest => fragmentItems (bare ++ word.text) rest
  | .single text _ :: rest =>
    bareItems bare ++ (.singleQuoted, '\'' :: (text ++ ['\''])) :: fragmentItems [] rest
  | .double literal :: rest =>
    bareItems bare ++ (.doubleQuoted, '"' :: (literal.text ++ ['"'])) :: fragmentItems [] rest

/-- Text that is bare as a whole. -/
def IsBare (text : Text) : Prop := ∀ character ∈ text, character ∉ specialCharacters

theorem IsBare.nil : IsBare [] := fun _ member => absurd member (by simp)

theorem IsBare.append {text : Text} (isBare : IsBare text) (word : PlainWord) :
    IsBare (text ++ word.text) := by
  intro character member
  rcases List.mem_append.mp member with inText | inWord
  · exact isBare character inText
  · exact word.plain character inWord

theorem IsBare.mem_unquoted {text : Text} (isBare : IsBare text) (nonempty : text ≠ []) :
    text ∈ Kind.unquoted.language := by
  refine MiniShell.mem_unquoted.mpr ⟨nonempty, fun character member => ?_⟩
  refine (isPlain_iff character).mpr fun isSpecial => isBare character member ?_
  simp only [specialCharacters, List.mem_cons] at isSpecial ⊢
  tauto

theorem textOf_bareItems (bare : Text) : textOf (bareItems bare) = bare := by
  unfold bareItems
  split
  · simp [*]
  · simp

/-- The tokens are the written fragments. -/
theorem textOf_fragmentItems (bare : Text) (fragments : List Fragment) :
    textOf (fragmentItems bare fragments) = bare ++ fragments.flatMap Fragment.written := by
  fun_induction fragmentItems bare fragments with
  | case1 bare => rw [textOf_bareItems, List.flatMap_nil, List.append_nil]
  | case2 bare word rest inductionHypothesis =>
    rw [inductionHypothesis, List.flatMap_cons, List.append_assoc]
    rfl
  | case3 bare text ordinary rest inductionHypothesis =>
    rw [textOf_append, textOf_bareItems, textOf_cons, inductionHypothesis]
    rfl
  | case4 bare literal rest inductionHypothesis =>
    rw [textOf_append, textOf_bareItems, textOf_cons, inductionHypothesis]
    rfl

theorem bareItems_isPiece (bare : Text) : ∀ piece ∈ bareItems bare, piece.1.isPiece = true := by
  unfold bareItems
  split <;> simp [Kind.isPiece]

theorem fragmentItems_isPiece (bare : Text) (fragments : List Fragment) :
    ∀ piece ∈ fragmentItems bare fragments, piece.1.isPiece = true := by
  fun_induction fragmentItems bare fragments with
  | case1 bare => exact bareItems_isPiece bare
  | case2 bare word rest inductionHypothesis => exact inductionHypothesis
  | case3 bare text ordinary rest inductionHypothesis =>
    exact List.forall_mem_append.mpr ⟨bareItems_isPiece bare,
      List.forall_mem_cons.mpr ⟨rfl, inductionHypothesis⟩⟩
  | case4 bare literal rest inductionHypothesis =>
    exact List.forall_mem_append.mpr ⟨bareItems_isPiece bare,
      List.forall_mem_cons.mpr ⟨rfl, inductionHypothesis⟩⟩

/-! ### Cutting the line -/

/-- No character that could go on with bare text comes next. -/
def Stops (behind : Text) : Prop := ∀ first ∈ behind.head?, Lexeme.isPlain first = false

theorem stops_cons {first : Char} (notPlain : Lexeme.isPlain first = false) (rest : Text) :
    Stops (first :: rest) := by
  rintro other begins
  obtain rfl := Option.some.inj begins
  exact notPlain

theorem bareItems_fit {bare : Text} (isBare : IsBare bare) {behind : List Spelling}
    (stops : Stops (textOf behind)) (fits : Fits behind) : Fits (bareItems bare ++ behind) := by
  unfold bareItems
  split
  · exact fits
  · rename_i nonempty
    exact ⟨run_longest (fun _ => ofFirst_plain) (by decide) (fun _ => mem_unquoted)
      (isBare.mem_unquoted nonempty) stops, fits⟩

/-- Text in single quotes ends at its quote, whatever follows. -/
theorem single_longest {text : Text} (ordinary : ∀ character ∈ text, character ∉ ['\n', '\''])
    (behind : Text) : LongestToken .singleQuoted ('\'' :: (text ++ ['\'']))
      ('\'' :: (text ++ ['\'']) ++ behind) := by
  have whole : '\'' :: (text ++ ['\'']) ++ behind = '\'' :: (text ++ '\'' :: behind) := by simp
  rw [whole]
  exact cut_closed rfl (by decide) rfl ordinary behind

/-- Text in double quotes without back quotes ends at its quote, whatever follows. -/
theorem double_longest (literal : Literal) (behind : Text) :
    LongestToken .doubleQuoted ('"' :: (literal.text ++ ['"']))
      ('"' :: (literal.text ++ ['"']) ++ behind) := by
  have word : LongestToken .doubleQuoted (QuotedWord.mk literal []).text
      ((QuotedWord.mk literal []).text ++ behind) :=
    QuotedWord.longest fun isOpen => absurd isOpen (by simp [QuotedWord.staysOpen])
  simpa [QuotedWord.text, QuotedWord.body] using word

/-- The tokens of a word are cut apart again, with the bare text at hand in front of them. -/
theorem fragmentItems_fit {bare : Text} (isBare : IsBare bare) (fragments : List Fragment)
    {behind : List Spelling} (stops : Stops (textOf behind)) (fits : Fits behind) :
    Fits (fragmentItems bare fragments ++ behind) := by
  fun_induction fragmentItems bare fragments with
  | case1 bare => exact bareItems_fit isBare stops fits
  | case2 bare word rest inductionHypothesis => exact inductionHypothesis (isBare.append word)
  | case3 bare text ordinary rest inductionHypothesis =>
    rw [List.append_assoc, List.cons_append]
    exact bareItems_fit isBare (stops_cons (by decide) _)
      ⟨single_longest ordinary _, inductionHypothesis .nil⟩
  | case4 bare literal rest inductionHypothesis =>
    rw [List.append_assoc, List.cons_append]
    exact bareItems_fit isBare (stops_cons (by decide) _)
      ⟨double_longest literal _, inductionHypothesis .nil⟩

theorem FragmentWord.written_nonempty (word : FragmentWord) : word.written ≠ [] := by
  obtain ⟨fragment, rest, fragments⟩ := List.exists_cons_of_ne_nil word.nonempty
  cases fragment with
  | bare plain => simp [written, fragments, Fragment.written, plain.nonempty]
  | single text ordinary => simp [written, fragments, Fragment.written]
  | double literal => simp [written, fragments, Fragment.written]

/-- The pieces of a word. -/
def FragmentWord.pieces (word : FragmentWord) : Written where
  pieces := fragmentItems [] word.fragments
  nonempty := by
    intro nothing
    have text := textOf_fragmentItems [] word.fragments
    rw [nothing] at text
    exact word.written_nonempty text.symm
  arePieces := fragmentItems_isPiece [] word.fragments

/-- The row of arguments that a line is. -/
def FragmentLine.row (line : FragmentLine) : Row :=
  ⟨line.first.pieces, line.later.map fun entry => (entry.1.text, entry.2.pieces)⟩

theorem FragmentWord.textOf_pieces (word : FragmentWord) :
    textOf word.pieces.pieces = word.written := textOf_fragmentItems [] word.fragments

theorem FragmentLine.textOf_row (line : FragmentLine) : textOf line.row.items = line.written := by
  have later : ∀ entries : List (Gap × FragmentWord),
      textOf (Row.laterItems (entries.map fun entry => (entry.1.text, entry.2.pieces))) =
        entries.flatMap fun entry => entry.1.text ++ entry.2.written := by
    intro entries
    induction entries with
    | nil => rfl
    | cons entry rest inductionHypothesis =>
      rw [List.map_cons, Row.laterItems_cons, textOf_cons, textOf_append, inductionHypothesis,
        List.flatMap_cons, FragmentWord.textOf_pieces, List.append_assoc]
  rw [Row.items, textOf_append, row, later, FragmentWord.textOf_pieces, written]

/-- A written word begins with a quote or with a character that is not special. -/
theorem FragmentWord.exists_written (word : FragmentWord) : ∃ first rest,
    word.written = first :: rest ∧ (first ∈ ['\'', '"'] ∨ first ∉ specialCharacters) := by
  obtain ⟨fragment, others, fragments⟩ := List.exists_cons_of_ne_nil word.nonempty
  rw [written, fragments, List.flatMap_cons]
  cases fragment with
  | bare plain =>
    obtain ⟨first, tail, text⟩ := List.exists_cons_of_ne_nil plain.nonempty
    refine ⟨first, tail ++ others.flatMap Fragment.written, by simp [Fragment.written, text], ?_⟩
    exact Or.inr (plain.plain first (by simp [text]))
  | single text ordinary => exact ⟨_, _, rfl, Or.inl (by simp)⟩
  | double literal => exact ⟨_, _, rfl, Or.inl (by simp)⟩

/-- No written word begins with a blank. -/
theorem FragmentWord.written_begins (word : FragmentWord) (behind : Text) :
    ∀ first ∈ (word.written ++ behind).head?, Lexeme.isBlank first = false := by
  obtain ⟨first, rest, written, kind⟩ := word.exists_written
  rintro other begins
  rw [written] at begins
  obtain rfl := Option.some.inj begins
  rcases kind with isQuote | notSpecial
  · rcases List.mem_pair.mp isQuote with rfl | rfl <;> decide
  · simp [specialCharacters] at notSpecial
    simp [Lexeme.isBlank, notSpecial]

theorem Gap.mem_blank (gap : Gap) : gap.text ∈ Kind.blank.language :=
  MiniShell.mem_blank.mpr ⟨gap.nonempty, fun character member =>
    (isBlank_iff character).mpr (gap.blank character member)⟩

theorem Gap.stops (gap : Gap) (behind : Text) : Stops (gap.text ++ behind) := by
  obtain ⟨first, tail, text⟩ := List.exists_cons_of_ne_nil gap.nonempty
  rw [text]
  refine stops_cons ?_ _
  rcases List.mem_pair.mp (gap.blank first (by simp [text])) with rfl | rfl <;> decide

theorem laterItems_fit (later : List (Gap × FragmentWord)) {behind : List Spelling}
    (stops : Stops (textOf behind)) (fits : Fits behind) :
    Stops (textOf
      (Row.laterItems (later.map fun entry => (entry.1.text, entry.2.pieces)) ++ behind)) ∧
      Fits (Row.laterItems (later.map fun entry => (entry.1.text, entry.2.pieces)) ++ behind) := by
  induction later with
  | nil => exact ⟨stops, fits⟩
  | cons entry rest inductionHypothesis =>
    rw [List.map_cons, Row.laterItems_cons, List.cons_append, List.append_assoc]
    refine ⟨entry.1.stops _, blank_longest entry.1.mem_blank ?_, ?_⟩
    · rw [textOf_append, FragmentWord.textOf_pieces]
      exact entry.2.written_begins _
    · exact fragmentItems_fit .nil _ inductionHypothesis.1 inductionHypothesis.2

theorem Stops.nil : Stops [] := fun _ begins => absurd begins (by simp)

/-- A line of fragments fits before tokens that end its last word. -/
theorem FragmentLine.fits_before (line : FragmentLine) {behind : List Spelling}
    (stops : Stops (textOf behind)) (fits : Fits behind) : Fits (line.row.items ++ behind) := by
  obtain ⟨laterStops, laterFits⟩ := laterItems_fit line.later stops fits
  rw [Row.items, List.append_assoc]
  exact fragmentItems_fit .nil _ laterStops laterFits

theorem FragmentLine.fits (line : FragmentLine) : Fits line.row.items := by
  have whole : Fits (line.row.items ++ []) := line.fits_before Stops.nil trivial
  rwa [List.append_nil] at whole

/-! ### What the pieces stand for -/

/-- The text that pieces without stars and back quotes stand for. -/
inductive StandsFor : List Spelling → Text → Prop
  | nil : StandsFor [] []
  | bare {text rest : Text} {pieces : List Spelling} (noStar : '*' ∉ text)
      (others : StandsFor pieces rest) : StandsFor ((.unquoted, text) :: pieces) (text ++ rest)
  | single {text rest : Text} {pieces : List Spelling} (others : StandsFor pieces rest) :
      StandsFor ((.singleQuoted, '\'' :: (text ++ ['\''])) :: pieces) (text ++ rest)
  | double {rest : Text} {pieces : List Spelling} (literal : Literal)
      (others : StandsFor pieces rest) :
      StandsFor ((.doubleQuoted, '"' :: (literal.text ++ ['"'])) :: pieces) (literal.text ++ rest)

theorem bareItems_standFor {bare : Text} (isBare : IsBare bare) {pieces : List Spelling}
    {rest : Text} (others : StandsFor pieces rest) :
    StandsFor (bareItems bare ++ pieces) (bare ++ rest) := by
  unfold bareItems
  split
  · rename_i empty
    rw [empty]
    exact others
  · exact .bare (fun member => isBare '*' member (by simp [specialCharacters])) others

/-- The pieces of a word stand for the texts of its fragments, one after the other. -/
theorem fragmentItems_standFor {bare : Text} (isBare : IsBare bare) (fragments : List Fragment) :
    StandsFor (fragmentItems bare fragments) (bare ++ fragments.flatMap Fragment.text) := by
  fun_induction fragmentItems bare fragments with
  | case1 bare => simpa using bareItems_standFor isBare .nil
  | case2 bare word rest inductionHypothesis =>
    have further := inductionHypothesis (isBare.append word)
    rwa [List.append_assoc] at further
  | case3 bare text ordinary rest inductionHypothesis =>
    exact bareItems_standFor isBare (.single (inductionHypothesis .nil))
  | case4 bare literal rest inductionHypothesis =>
    exact bareItems_standFor isBare (.double literal (inductionHypothesis .nil))

theorem Segment.cut_nil (steps : Nat) : Segment.cut steps [] = [] := by
  cases steps <;> rfl

/-- Text in double quotes without back quotes has no segment but itself. -/
theorem Segment.ofText_literal (literal : Literal) :
    Segment.ofText ('"' :: (literal.text ++ ['"'])) =
      if literal.text = [] then [] else [.plain literal.text] := by
  have allPlain : ∀ character ∈ literal.text, isPlain character = true := fun character member => by
    have ordinary := literal.ordinary character member
    simp only [List.mem_cons, not_or] at ordinary
    simp [isPlain, ordinary]
  have quote : isPlain '"' = false := by decide
  cases text : literal.text with
  | nil => rfl
  | cons first rest =>
    rw [text] at allPlain
    have isPlainFirst := allPlain first (by simp)
    have restPlain : ∀ character ∈ rest, isPlain character = true := fun character member =>
      allPlain character (by simp [member])
    simp [ofText, cut, cut_nil, quote, isPlainFirst, List.takeWhile_append_of_pos restPlain,
      List.dropWhile_append_of_pos restPlain]

namespace Evaluator

variable (substitute : Substitute)

theorem quotedWords_single {token : Token} {text : Text}
    (spelled : token.spelling = (.singleQuoted, '\'' :: (text ++ ['\'']))) :
    quotedWords substitute (.node .quoted [.leaf token]) = pure [text] := by
  obtain ⟨kind, tokenText, mark⟩ := token
  obtain ⟨rfl, rfl⟩ := Prod.mk.inj spelled
  simp [quotedWords, Tree.children, Tree.isToken, Tree.text, Tree.textAll, unquoted]

theorem quotedWords_double {token : Token} {literal : Literal}
    (spelled : token.spelling = (.doubleQuoted, '"' :: (literal.text ++ ['"']))) :
    quotedWords substitute (.node .quoted [.leaf token]) = pure [literal.text] := by
  obtain ⟨kind, tokenText, mark⟩ := token
  obtain ⟨rfl, rfl⟩ := Prod.mk.inj spelled
  have segments := Segment.ofText_literal literal
  by_cases empty : literal.text = []
  · rw [if_pos empty] at segments
    simp [quotedWords, Tree.children, Tree.isToken, Tree.text, Tree.textAll, segments]
    rw [empty]
  · rw [if_neg empty] at segments
    simp [quotedWords, Tree.children, Tree.isToken, Tree.text, Tree.textAll, segments, segmentText]

theorem addPiece_bare {token : Token} {text : Text} (spelled : token.spelling = (.unquoted, text))
    (noStar : '*' ∉ text) (before : Text) :
    addPiece substitute ⟨[], before, []⟩ (pieceTree token) = pure ⟨[], before ++ text, []⟩ := by
  obtain ⟨kind, tokenText, mark⟩ := token
  obtain ⟨rfl, rfl⟩ := Prod.mk.inj spelled
  simp [addPiece, pieceTree, Kind.isQuoted, Tree.isNode, Tree.text, Draft.addText, noStar]

theorem addPiece_quoted {token : Token} {text : Text} (isQuoted : token.kind.isQuoted = true)
    (words : quotedWords substitute (.node .quoted [.leaf token]) = pure [text]) (before : Text) :
    addPiece substitute ⟨[], before, []⟩ (pieceTree token) = pure ⟨[], before ++ text, []⟩ := by
  simp [addPiece, pieceTree, isQuoted, Tree.isNode, words, Draft.addWords]

/-- Pieces add their text to the draft of an argument, which stays a single word. -/
theorem foldlM_addPiece {pieces : List Spelling} {text : Text} (standsFor : StandsFor pieces text)
    {tokens : List Token} (spelled : tokens.map Token.spelling = pieces) (before : Text) :
    (tokens.map pieceTree).foldlM (addPiece substitute) ⟨[], before, []⟩ =
      pure ⟨[], before ++ text, []⟩ := by
  induction standsFor generalizing tokens before with
  | nil =>
    obtain rfl := List.map_eq_nil_iff.mp spelled
    simp
  | bare noStar _ inductionHypothesis =>
    obtain ⟨token, others, rfl, tokenSpelled, further⟩ := List.map_eq_cons_iff.mp spelled
    rw [List.map_cons, List.foldlM_cons, addPiece_bare substitute tokenSpelled noStar, pure_bind,
      inductionHypothesis further, List.append_assoc]
  | single _ inductionHypothesis =>
    obtain ⟨token, others, rfl, tokenSpelled, further⟩ := List.map_eq_cons_iff.mp spelled
    have isQuoted : token.kind.isQuoted = true := by
      rw [show token.kind = .singleQuoted from congrArg Prod.fst tokenSpelled]
      rfl
    rw [List.map_cons, List.foldlM_cons, addPiece_quoted substitute isQuoted
      (quotedWords_single substitute tokenSpelled), pure_bind, inductionHypothesis further,
      List.append_assoc]
  | double literal _ inductionHypothesis =>
    obtain ⟨token, others, rfl, tokenSpelled, further⟩ := List.map_eq_cons_iff.mp spelled
    have isQuoted : token.kind.isQuoted = true := by
      rw [show token.kind = .doubleQuoted from congrArg Prod.fst tokenSpelled]
      rfl
    rw [List.map_cons, List.foldlM_cons, addPiece_quoted substitute isQuoted
      (quotedWords_double substitute tokenSpelled), pure_bind, inductionHypothesis further,
      List.append_assoc]

theorem visit_standsFor {argument : Argument} {text : Text}
    (standsFor : StandsFor argument.spelling text) :
    visit substitute argument.tree = addWords [text] := by
  have words : argumentWords substitute (argument.pieces.map pieceTree) = pure [text] := by
    rw [argumentWords, Draft.empty, foldlM_addPiece substitute standsFor rfl, pure_bind]
    rfl
  rw [visit_argument, words]
  rfl

/-- The words of arguments are noted in order. -/
theorem start_visitAll_row {texts : List Text} {later : List (Blank × Argument)}
    (standFor : List.Forall₂ (fun entry text => StandsFor entry.2.spelling text) later texts)
    {evaluation : Evaluation} {words : List Text} (reading : evaluation.words = [words]) :
    (visitAll substitute (atomTrees (later.map fun entry =>
      (some entry.1, Atom.argument entry.2)))).start evaluation =
        (.ok (), { evaluation with words := [words ++ texts] }) := by
  induction standFor generalizing evaluation words with
  | nil => simp [visitAll_nil, ← reading]
  | @cons entry text rest texts standsFor _ inductionHypothesis =>
    rw [List.map_cons, atomTrees_cons, visitAll_append, visitAll_append, visitAll_blank, pure_bind,
      visitAll_single, visit_atom, Atom.inner, visit_standsFor substitute standsFor,
      start_bind_ok (start_addWords reading), inductionHypothesis rfl, List.append_assoc]
    rfl

theorem start_visitAll_rowCall {text : Text} {texts : List Text} {first : Argument}
    {later : List (Blank × Argument)} (firstStands : StandsFor first.spelling text)
    (laterStand : List.Forall₂ (fun entry text => StandsFor entry.2.spelling text) later texts)
    {evaluation : Evaluation} (reading : evaluation.words = [[]]) :
    (visitAll substitute (rowCall first later).parts).start evaluation =
      (.ok (), { evaluation with words := [text :: texts] }) := by
  have parts : (rowCall first later).parts = first.tree :: atomTrees (later.map fun entry =>
      (some entry.1, Atom.argument entry.2)) := by simp [Call.parts, rowCall]
  let noted : Evaluation := { evaluation with words := [[text]] }
  have firstNoted : (addWords [text]).start evaluation = (.ok (), noted) := start_addWords reading
  have reads : noted.words = [[text]] := rfl
  rw [parts, visitAll_cons, visit_standsFor substitute firstStands, start_bind_ok firstNoted]
  exact start_visitAll_row substitute laterStand reads

end Evaluator

/-! ### The line -/

/-- The pieces of each argument stand for the text of its word. -/
theorem FragmentLine.arguments_standFor (line : FragmentLine) :
    List.Forall₂ StandsFor line.row.arguments line.words := by
  have word : ∀ word : FragmentWord, StandsFor word.pieces.pieces word.text := fun word =>
    fragmentItems_standFor .nil word.fragments
  refine .cons (word line.first) ?_
  rw [row, List.map_map, List.forall₂_map_left_iff, List.forall₂_map_right_iff, List.forall₂_same]
  exact fun entry _ => word entry.2

/-- A line of fragments is read to its end and without a report, and evaluating it runs one call
whose words are the texts of the words of the line. -/
theorem evaluateLine_fragments (line : FragmentLine) :
    (readLine line.written .command 0).reports = [] ∧
    (readLine line.written .command 0).unread = [] ∧
    ∀ (substitute : Evaluator.Substitute) (session : Session),
      evaluateLine substitute line.written session =
        (Evaluator.runCall .stackIndex line.words none).start { session, outputs := [[]] } := by
  obtain ⟨reports, unread, first, later, tree, spelled⟩ := readLine_row line.row line.fits
  rw [line.textOf_row] at reports unread tree
  refine ⟨reports, unread, fun substitute session => ?_⟩
  have standFor := line.arguments_standFor
  rw [← spelled, FragmentLine.words] at standFor
  obtain ⟨firstStands, laterStand⟩ := List.forall₂_cons.mp standFor
  rw [List.forall₂_map_left_iff] at laterStand
  rw [evaluateLine, tree, Command.tree, Evaluator.visit_command, Command.parts,
    Evaluator.visitAll_single, Evaluator.visit_call]
  have begun : Evaluator.beginCall.start { session } =
      (.ok (), { session, outputs := [[]], words := [[]] }) := rfl
  rw [Evaluator.start_bind_ok begun, Evaluator.start_bind_ok
    (Evaluator.start_visitAll_rowCall substitute firstStands laterStand rfl)]
  rfl

end MiniShell
