/-
This file reads lines that are one call with redirections in all the places
where they can stand: before the first word, between words and behind them,
with or without blanks around an operator. Words are written as fragments. A
word of the call stands for its text, but a word that names a file stands for
all that is written, quotes included; so the two readings of a word agree only
if it has no quotes.

The line is cut apart from its end on, because a word ends where nothing can go
on with it.
-/

import MiniShell.Proofs.Quoting

namespace MiniShell

open MiniShell.Derivation

/-! ### Lines with redirections -/

/-- What a redirection does with its file. -/
inductive FileUse
  | reading
  | writing
  | appending

/-- The operator that asks for a use. -/
def FileUse.operator : FileUse → Spelling
  | reading => (.less, ['<'])
  | writing => (.greater, ['>'])
  | appending => (.doubleGreater, ['>', '>'])

/-- The text of a gap that may be missing. -/
def gapText : Option Gap → Text
  | none => []
  | some gap => gap.text

/-- An operator and the word that names a file. -/
structure WordRedirection where
  use : FileUse
  gap : Option Gap
  file : FragmentWord

def WordRedirection.written (redirection : WordRedirection) : Text :=
  redirection.use.operator.2 ++ gapText redirection.gap ++ redirection.file.written

/-- What follows the first word of a call. Only a redirection can do without a gap. -/
inductive LinePart
  | word (gap : Gap) (word : FragmentWord)
  | redirection (gap : Option Gap) (redirection : WordRedirection)

def LinePart.written : LinePart → Text
  | word gap content => gap.text ++ content.written
  | redirection gap content => gapText gap ++ content.written

/-- The line of a call with redirections. -/
structure RedirectedLine where
  lead : Option Gap
  leading : List (WordRedirection × Gap)
  first : FragmentWord
  later : List LinePart
  trail : Option Gap

namespace RedirectedLine

def written (line : RedirectedLine) : Text :=
  gapText line.lead ++ line.leading.flatMap (fun entry => entry.1.written ++ entry.2.text) ++
    line.first.written ++ line.later.flatMap LinePart.written ++ gapText line.trail

end RedirectedLine

namespace LinePart

/-- What a part adds to the words of a call. -/
def words : LinePart → List Text
  | word _ content => [content.text]
  | redirection _ _ => []

def redirections : LinePart → List WordRedirection
  | word _ _ => []
  | redirection _ content => [content]

end LinePart

namespace WordRedirection

/-- The files that input comes from, when words name files in a given way. -/
def sources (name : FragmentWord → Text) (redirection : WordRedirection) : List Text :=
  match redirection.use with
  | .reading => [name redirection.file]
  | .writing => []
  | .appending => []

/-- The files that output goes to, when words name files in a given way. -/
def targets (name : FragmentWord → Text) (redirection : WordRedirection) : List Target :=
  match redirection.use with
  | .reading => []
  | .writing => [⟨name redirection.file, false⟩]
  | .appending => [⟨name redirection.file, true⟩]

end WordRedirection

namespace RedirectedLine

/-- The texts of the words of the call. -/
def words (line : RedirectedLine) : List Text :=
  line.first.text :: line.later.flatMap LinePart.words

def redirections (line : RedirectedLine) : List WordRedirection :=
  line.leading.map Prod.fst ++ line.later.flatMap LinePart.redirections

def sources (name : FragmentWord → Text) (line : RedirectedLine) : List Text :=
  line.redirections.flatMap (WordRedirection.sources name)

def targets (name : FragmentWord → Text) (line : RedirectedLine) : List Target :=
  line.redirections.flatMap (WordRedirection.targets name)

end RedirectedLine

/-! ### Cutting the line -/

/-- The token of a gap that may be missing. -/
def gapItems : Option Gap → List Spelling
  | none => []
  | some gap => [(.blank, gap.text)]

def WordRedirection.items (redirection : WordRedirection) : List Spelling :=
  redirection.use.operator :: (gapItems redirection.gap ++ redirection.file.pieces.pieces)

def LinePart.items : LinePart → List Spelling
  | word gap content => (.blank, gap.text) :: content.pieces.pieces
  | redirection gap content => gapItems gap ++ content.items

namespace RedirectedLine

def leadingItems (leading : List (WordRedirection × Gap)) : List Spelling :=
  leading.flatMap fun entry => entry.1.items ++ [(.blank, entry.2.text)]

def items (line : RedirectedLine) : List Spelling :=
  gapItems line.lead ++ (leadingItems line.leading ++ (line.first.pieces.pieces ++
    (line.later.flatMap LinePart.items ++ gapItems line.trail)))

end RedirectedLine

theorem textOf_gapItems (gap : Option Gap) : textOf (gapItems gap) = gapText gap := by
  cases gap with
  | none => rfl
  | some gap => simp [gapItems, gapText]

theorem WordRedirection.textOf_items (redirection : WordRedirection) :
    textOf redirection.items = redirection.written := by
  rw [items, textOf_cons, textOf_append, textOf_gapItems, FragmentWord.textOf_pieces, written,
    List.append_assoc]

theorem LinePart.textOf_items (part : LinePart) : textOf part.items = part.written := by
  cases part with
  | word gap word => rw [items, textOf_cons, FragmentWord.textOf_pieces, written]
  | redirection gap redirection =>
    rw [items, textOf_append, textOf_gapItems, redirection.textOf_items, written]

theorem textOf_flatMap {Part : Type} {items : Part → List Spelling} {written : Part → Text}
    (each : ∀ part, textOf (items part) = written part) (parts : List Part) :
    textOf (parts.flatMap items) = parts.flatMap written := by
  rw [textOf, List.flatMap_assoc]
  exact List.flatMap_congr fun part _ => each part

theorem RedirectedLine.textOf_items (line : RedirectedLine) :
    textOf line.items = line.written := by
  have leading : textOf (leadingItems line.leading) =
      line.leading.flatMap fun entry => entry.1.written ++ entry.2.text :=
    textOf_flatMap (fun entry => by rw [textOf_append, entry.1.textOf_items]; simp) _
  rw [items, textOf_append, textOf_append, textOf_append, textOf_append, textOf_gapItems, leading,
    FragmentWord.textOf_pieces, textOf_flatMap LinePart.textOf_items, textOf_gapItems, written]
  simp only [List.append_assoc]

/-- No blank comes next, and the rest is cut apart. -/
structure Clear (behind : List Spelling) : Prop where
  noBlank : ∀ first ∈ (textOf behind).head?, Lexeme.isBlank first = false
  fits : Fits behind

/-- Nothing that could go on with a word comes next, and the rest is cut apart. -/
structure Closed (behind : List Spelling) : Prop where
  stops : Stops (textOf behind)
  fits : Fits behind

theorem Clear.gap {behind : List Spelling} (clear : Clear behind) (gap : Gap) :
    Closed ((.blank, gap.text) :: behind) :=
  ⟨gap.stops _, blank_longest gap.mem_blank clear.noBlank, clear.fits⟩

theorem Clear.optionalGap {behind : List Spelling} (clear : Clear behind) (gap : Option Gap) :
    Fits (gapItems gap ++ behind) := by
  cases gap with
  | none => exact clear.fits
  | some gap => exact (clear.gap gap).fits

theorem FragmentWord.clear (word : FragmentWord) {behind : List Spelling}
    (closed : Closed behind) : Clear (word.pieces.pieces ++ behind) where
  noBlank := by
    rw [textOf_append, word.textOf_pieces]
    exact word.written_begins _
  fits := fragmentItems_fit .nil _ closed.stops closed.fits

namespace WordRedirection

/-- An operator is followed by a gap or by a word, so not by another angle. -/
theorem noAngle (redirection : WordRedirection) (behind : Text) :
    ∀ others, gapText redirection.gap ++ redirection.file.written ++ behind ≠ '>' :: others := by
  intro others equal
  cases isGap : redirection.gap with
  | none =>
    obtain ⟨first, rest, written, kind⟩ := redirection.file.exists_written
    rw [isGap, gapText, written] at equal
    obtain ⟨rfl, -⟩ := List.cons.inj equal
    exact kind.elim (by decide) (by decide)
  | some gap =>
    obtain ⟨first, rest, text⟩ := List.exists_cons_of_ne_nil gap.nonempty
    have blank := gap.blank first (by simp [text])
    rw [isGap, gapText, text] at equal
    obtain ⟨rfl, -⟩ := List.cons.inj equal
    exact absurd blank (by decide)

theorem operator_longest (redirection : WordRedirection) (behind : Text) :
    LongestToken redirection.use.operator.1 redirection.use.operator.2
      (redirection.written ++ behind) := by
  have alone := redirection.noAngle behind
  rw [written, List.append_assoc, List.append_assoc, ← List.append_assoc (gapText _)]
  cases redirection.use with
  | reading => exact cut_operator rfl (by decide) fun _ => Iff.rfl
  | writing => exact cut_oneAngle alone
  | appending => exact cut_twoAngles _

theorem clear (redirection : WordRedirection) {behind : List Spelling} (closed : Closed behind) :
    Clear (redirection.items ++ behind) := by
  have file := redirection.file.clear closed
  refine ⟨?_, ?_, ?_⟩
  · rw [textOf_append, redirection.textOf_items, written]
    cases redirection.use <;> simp [FileUse.operator, Lexeme.isBlank]
  · have longest := redirection.operator_longest (textOf behind)
    rwa [← redirection.textOf_items, ← textOf_append] at longest
  · show Fits (gapItems redirection.gap ++ redirection.file.pieces.pieces ++ behind)
    rw [List.append_assoc]
    exact file.optionalGap _

/-- Nothing that could go on with a word is an operator. -/
theorem closed (redirection : WordRedirection) {behind : List Spelling} (closed : Closed behind) :
    Closed (redirection.items ++ behind) := by
  refine ⟨?_, (redirection.clear closed).fits⟩
  rw [textOf_append, redirection.textOf_items, written]
  cases redirection.use <;> exact stops_cons (by decide) _

end WordRedirection

/-! ### Cutting the parts of the line -/

theorem closed_gapItems (gap : Option Gap) : Closed (gapItems gap) := by
  have nothing : Clear [] := ⟨fun _ begins => absurd begins (by simp), trivial⟩
  cases gap with
  | none => exact ⟨Stops.nil, trivial⟩
  | some gap => exact nothing.gap gap

theorem LinePart.closed (part : LinePart) {behind : List Spelling} (closed : Closed behind) :
    Closed (part.items ++ behind) := by
  cases part with
  | word gap content => exact (content.clear closed).gap gap
  | redirection gap content =>
    rw [items, List.append_assoc]
    cases gap with
    | none => exact content.closed closed
    | some gap => exact (content.clear closed).gap gap

theorem closed_flatMap (parts : List LinePart) {behind : List Spelling} (closed : Closed behind) :
    Closed (parts.flatMap LinePart.items ++ behind) := by
  induction parts with
  | nil => exact closed
  | cons part rest inductionHypothesis =>
    rw [List.flatMap_cons, List.append_assoc]
    exact part.closed inductionHypothesis

namespace RedirectedLine

theorem clear_leadingItems (leading : List (WordRedirection × Gap)) {behind : List Spelling}
    (clear : Clear behind) : Clear (leadingItems leading ++ behind) := by
  induction leading with
  | nil => exact clear
  | cons entry rest inductionHypothesis =>
    rw [leadingItems, List.flatMap_cons, List.append_assoc, List.append_assoc]
    exact entry.1.clear (inductionHypothesis.gap entry.2)

theorem fits (line : RedirectedLine) : Fits line.items := by
  have later := closed_flatMap line.later (closed_gapItems line.trail)
  exact (clear_leadingItems line.leading (line.first.clear later)).optionalGap line.lead

end RedirectedLine

/-! ### Reading the line -/

/-- The text of an argument is all that is written, quotes included. -/
theorem argument_text (argument : Argument) : argument.tree.text = textOf argument.spelling := by
  rw [Argument.tree, Tree.text, Argument.spelling]
  induction argument.pieces with
  | nil => rfl
  | cons piece rest inductionHypothesis =>
    rw [List.map_cons, Tree.textAll, pieceTree_text, inductionHypothesis]
    rfl

namespace Evaluator

/-- Takes note of a file and its use. -/
def noteFile (use : FileUse) (name : Text) : Evaluator Unit :=
  modify fun evaluation =>
    match use with
    | .reading => { evaluation with inputs := evaluation.inputs ++ [name] }
    | .writing => { evaluation with targets := evaluation.targets ++ [⟨name, false⟩] }
    | .appending => { evaluation with targets := evaluation.targets ++ [⟨name, true⟩] }

/-- A redirection takes note of its file by what is written for it. -/
theorem visit_redirection_spelled (substitute : Substitute) {redirection : Redirection}
    {use : FileUse} (spelled : redirection.operator.spelling = use.operator) :
    visit substitute redirection.tree = noteFile use (textOf redirection.target.spelling) := by
  obtain ⟨operator, isOperator, blank, target⟩ := redirection
  have operatorText : operator.text = use.operator.2 := congrArg Prod.snd spelled
  have noted : addRedirection (Redirection.mk operator isOperator blank target).parts =
      modify fun evaluation =>
        if operator.text = ['<'] then
          { evaluation with inputs := evaluation.inputs ++ [target.tree.text] }
        else
          { evaluation with
            targets := evaluation.targets ++ [⟨target.tree.text, operator.text ≠ ['>']⟩] } := by
    cases blank <;> rfl
  rw [visit_redirection, noted, operatorText, argument_text]
  cases use <;> rfl

end Evaluator

def WordRedirection.note (redirection : WordRedirection) : Evaluator Unit :=
  Evaluator.noteFile redirection.use redirection.file.written

def LinePart.note : LinePart → Evaluator Unit
  | word _ content => Evaluator.addWords [content.text]
  | redirection _ content => content.note

theorem exists_optional_blank (gap : Option Gap) {tokens : List Token}
    (spelled : tokens.map Token.spelling = gapItems gap) :
    ∃ blank : Option Blank, blankTokens blank = tokens := by
  cases gap with
  | none => exact ⟨none, (List.map_eq_nil_iff.mp spelled).symm⟩
  | some gap =>
    obtain ⟨blank, rest, rfl, blankSpelled, nothing⟩ := List.map_eq_cons_iff.mp spelled
    obtain rfl := List.map_eq_nil_iff.mp nothing
    exact ⟨some ⟨blank, congrArg Prod.fst blankSpelled⟩, rfl⟩

/-- The tokens of a word are an argument, which stands for the text of the word. -/
theorem FragmentWord.exists_argument (word : FragmentWord) {tokens : List Token}
    (spelled : tokens.map Token.spelling = word.pieces.pieces) :
    ∃ argument : Argument, argument.tokens = tokens ∧ textOf argument.spelling = word.written ∧
      ∀ substitute, Evaluator.visit substitute argument.tree =
        Evaluator.addWords [word.text] := by
  obtain ⟨argument, tokens, pieces⟩ := MiniShell.exists_argument word.pieces spelled
  have standsFor : StandsFor argument.spelling word.text := by
    rw [pieces]
    exact fragmentItems_standFor .nil word.fragments
  refine ⟨argument, tokens, by rw [pieces, word.textOf_pieces], fun substitute => ?_⟩
  exact Evaluator.visit_standsFor substitute standsFor

theorem WordRedirection.exists_redirection (redirection : WordRedirection) {tokens : List Token}
    (spelled : tokens.map Token.spelling = redirection.items) :
    ∃ derived : Redirection, derived.tokens = tokens ∧
      ∀ substitute, Evaluator.visit substitute derived.tree = redirection.note := by
  obtain ⟨operator, rest, rfl, operatorSpelled, further⟩ := List.map_eq_cons_iff.mp spelled
  obtain ⟨gapPart, filePart, rfl, gapSpelled, fileSpelled⟩ := List.map_eq_append_iff.mp further
  obtain ⟨blank, rfl⟩ := exists_optional_blank redirection.gap gapSpelled
  obtain ⟨argument, rfl, written, -⟩ := redirection.file.exists_argument fileSpelled
  have isOperator : operator.kind.isRedirection = true := by
    rw [show operator.kind = redirection.use.operator.1 from congrArg Prod.fst operatorSpelled]
    cases redirection.use <;> rfl
  refine ⟨⟨operator, isOperator, blank, argument⟩, rfl, fun substitute => ?_⟩
  rw [Evaluator.visit_redirection_spelled substitute operatorSpelled, written, note]

/-- The tokens of a part are an atom, with a blank before it if it is a word. -/
theorem LinePart.exists_atom (part : LinePart) {tokens : List Token}
    (spelled : tokens.map Token.spelling = part.items) :
    ∃ (blank : Option Blank) (atom : Atom), blankTokens blank ++ atom.tokens = tokens ∧
      (blank = none → atom.isRedirection = true) ∧
      ∀ substitute, Evaluator.visit substitute atom.tree = part.note := by
  cases part with
  | word gap content =>
    obtain ⟨blank, rest, rfl, blankSpelled, further⟩ := List.map_eq_cons_iff.mp spelled
    obtain ⟨argument, rfl, -, visited⟩ := content.exists_argument further
    refine ⟨some ⟨blank, congrArg Prod.fst blankSpelled⟩, .argument argument, rfl,
      fun noBlank => absurd noBlank (by simp), fun substitute => ?_⟩
    rw [Evaluator.visit_atom, Atom.inner, visited, note]
  | redirection gap content =>
    obtain ⟨gapPart, rest, rfl, gapSpelled, further⟩ := List.map_eq_append_iff.mp spelled
    obtain ⟨blank, rfl⟩ := exists_optional_blank gap gapSpelled
    obtain ⟨redirection, rfl, visited⟩ := content.exists_redirection further
    refine ⟨blank, .redirection redirection, rfl, fun _ => rfl, fun substitute => ?_⟩
    rw [Evaluator.visit_atom, Atom.inner, visited, note]

namespace RedirectedLine

/-- The redirections before the first word are derived, and they are noted in their order. -/
theorem exists_leading (leading : List (WordRedirection × Gap)) {tokens : List Token}
    (spelled : tokens.map Token.spelling = leadingItems leading) :
    ∃ derived, leadingTokens derived = tokens ∧
      ∀ substitute, Evaluator.visitAll substitute (leadingTrees derived) =
        (leading.map Prod.fst).forM WordRedirection.note := by
  induction leading generalizing tokens with
  | nil =>
    obtain rfl := List.map_eq_nil_iff.mp spelled
    refine ⟨[], rfl, fun substitute => ?_⟩
    rw [leadingTrees_nil, Evaluator.visitAll_nil]
    rfl
  | cons entry rest inductionHypothesis =>
    rw [leadingItems, List.flatMap_cons] at spelled
    obtain ⟨front, back, rfl, frontSpelled, backSpelled⟩ := List.map_eq_append_iff.mp spelled
    -- A redirection in front of the words is always followed by blanks.
    obtain ⟨own, gapPart, rfl, ownSpelled, gapSpelled⟩ := List.map_eq_append_iff.mp frontSpelled
    obtain ⟨blank, others, rfl, blankSpelled, nothing⟩ := List.map_eq_cons_iff.mp gapSpelled
    obtain rfl := List.map_eq_nil_iff.mp nothing
    obtain ⟨redirection, rfl, visited⟩ := entry.1.exists_redirection ownSpelled
    obtain ⟨derived, rfl, visitedRest⟩ := inductionHypothesis backSpelled
    refine ⟨(redirection, ⟨blank, congrArg Prod.fst blankSpelled⟩) :: derived, rfl,
      fun substitute => ?_⟩
    rw [leadingTrees_cons, Evaluator.visitAll_append, Evaluator.visitAll_cons,
      Evaluator.visitAll_single, Evaluator.visit_leaf, visited, visitedRest]
    rfl

/-- The tokens of a line are a tight call, and evaluating its parts takes note of all words and
redirections in the order in which they stand. -/
theorem exists_call (line : RedirectedLine) {tokens : List Token}
    (spelled : tokens.map Token.spelling = line.items) :
    ∃ call : Call, call.tokens = tokens ∧ call.Tight ∧
      ∀ substitute, Evaluator.visitAll substitute call.parts = (do
        (line.leading.map Prod.fst).forM WordRedirection.note
        Evaluator.addWords [line.first.text]
        line.later.forM LinePart.note) := by
  obtain ⟨leadPart, further, rfl, leadSpelled, further⟩ := List.map_eq_append_iff.mp spelled
  obtain ⟨frontPart, rest, rfl, frontSpelled, further⟩ := List.map_eq_append_iff.mp further
  obtain ⟨firstPart, rest, rfl, firstSpelled, further⟩ := List.map_eq_append_iff.mp further
  obtain ⟨laterPart, trailPart, rfl, laterSpelled, trailSpelled⟩ :=
    List.map_eq_append_iff.mp further
  obtain ⟨lead, rfl⟩ := exists_optional_blank line.lead leadSpelled
  obtain ⟨leading, rfl, visitedLeading⟩ := exists_leading line.leading frontSpelled
  obtain ⟨first, rfl, -, visitedFirst⟩ := line.first.exists_argument firstSpelled
  obtain ⟨atoms, rfl, tight, visitedAtoms⟩ :=
    exists_atoms_of_each LinePart.exists_atom line.later laterSpelled
  obtain ⟨trail, rfl⟩ := exists_optional_blank line.trail trailSpelled
  refine ⟨⟨lead, leading, first, atoms, trail⟩, by simp [Call.tokens], tight,
    fun substitute => ?_⟩
  rw [Call.parts, Evaluator.visitAll_append, Evaluator.visitAll_append, Evaluator.visitAll_append,
    Evaluator.visitAll_append, Evaluator.visitAll_blank, Evaluator.visitAll_blank, pure_bind,
    visitedLeading, Evaluator.visitAll_single, visitedFirst, visitedAtoms]
  simp only [bind_assoc, bind_pure_unit]

end RedirectedLine

/-! ### What is noted -/

/-- An evaluation with redirections noted by what is written for their files. -/
def Evaluation.withFiles (evaluation : Evaluation) (redirections : List WordRedirection) :
    Evaluation :=
  { evaluation with
    inputs := evaluation.inputs ++
      redirections.flatMap (WordRedirection.sources FragmentWord.written)
    targets := evaluation.targets ++
      redirections.flatMap (WordRedirection.targets FragmentWord.written) }

theorem Evaluation.withFiles_append (evaluation : Evaluation)
    (redirections others : List WordRedirection) :
    evaluation.withFiles (redirections ++ others) =
      (evaluation.withFiles redirections).withFiles others := by
  simp [withFiles]

theorem WordRedirection.start_note (redirection : WordRedirection) (evaluation : Evaluation) :
    redirection.note.start evaluation = (.ok (), evaluation.withFiles [redirection]) := by
  obtain ⟨use, gap, file⟩ := redirection
  cases use <;>
    simp [note, Evaluator.noteFile, Evaluation.withFiles, sources, targets]

theorem WordRedirection.start_notes (redirections : List WordRedirection)
    (evaluation : Evaluation) :
    Evaluator.start (redirections.forM note) evaluation =
      (.ok (), evaluation.withFiles redirections) := by
  induction redirections generalizing evaluation with
  | nil => simp [Evaluation.withFiles]
  | cons redirection rest inductionHypothesis =>
    rw [List.forM_eq_forM, List.forM_cons, Evaluator.start_bind_ok (redirection.start_note _),
      ← List.forM_eq_forM, inductionHypothesis, ← Evaluation.withFiles_append]
    rfl

theorem LinePart.start_note (part : LinePart) {evaluation : Evaluation} {words : List Text}
    (reading : evaluation.words = [words]) :
    part.note.start evaluation =
      (.ok (), { evaluation.withFiles part.redirections with words := [words ++ part.words] }) := by
  cases part with
  | word gap content =>
    rw [note, start_addWords reading]
    simp [Evaluation.withFiles, redirections, LinePart.words]
  | redirection gap content =>
    rw [note, content.start_note, redirections, LinePart.words, List.append_nil, ← reading]
    rfl

theorem LinePart.start_notes (parts : List LinePart) {evaluation : Evaluation}
    {words : List Text} (reading : evaluation.words = [words]) :
    Evaluator.start (parts.forM note) evaluation =
      (.ok (), { evaluation.withFiles (parts.flatMap redirections) with
        words := [words ++ parts.flatMap LinePart.words] }) := by
  induction parts generalizing evaluation words with
  | nil => simp [Evaluation.withFiles, ← reading]
  | cons part rest inductionHypothesis =>
    rw [List.forM_eq_forM, List.forM_cons, Evaluator.start_bind_ok (part.start_note reading),
      ← List.forM_eq_forM, inductionHypothesis rfl, List.flatMap_cons, List.flatMap_cons,
      Evaluation.withFiles_append, List.append_assoc]
    rfl

/-- What is noted for the whole line: its words, and the files that it reads and writes. -/
theorem RedirectedLine.start_notes (line : RedirectedLine) (session : Session) :
    Evaluator.start (do
        (line.leading.map Prod.fst).forM WordRedirection.note
        Evaluator.addWords [line.first.text]
        line.later.forM LinePart.note) { session, outputs := [[]], words := [[]] } =
      (.ok (), { session, outputs := [[]], words := [line.words]
                 inputs := line.sources FragmentWord.written
                 targets := line.targets FragmentWord.written }) := by
  let begun : Evaluation := { session, outputs := [[]], words := [[]] }
  let led := begun.withFiles (line.leading.map Prod.fst)
  have leads := WordRedirection.start_notes (line.leading.map Prod.fst) begun
  have names : (Evaluator.addWords [line.first.text]).start led =
      (.ok (), { led with words := [[line.first.text]] }) := rfl
  rw [Evaluator.start_bind_ok leads, Evaluator.start_bind_ok names, LinePart.start_notes _ rfl,
    sources, targets, redirections, List.flatMap_append, List.flatMap_append]
  rfl

/-! ### Words with and without quotes -/

/-- A word without quotes. -/
def FragmentWord.Unquoted (word : FragmentWord) : Prop :=
  ∀ fragment ∈ word.fragments, ∃ plain, fragment = .bare plain

theorem Fragment.length_written (fragment : Fragment) :
    fragment.written.length = fragment.text.length ∧ (∃ plain, fragment = .bare plain) ∨
      fragment.written.length = fragment.text.length + 2 ∧ ¬ ∃ plain, fragment = .bare plain := by
  cases fragment <;> simp [written, text]

/-- Quotes make what is written longer than what it stands for. -/
theorem length_flatMap_written (fragments : List Fragment) :
    (fragments.flatMap Fragment.text).length ≤ (fragments.flatMap Fragment.written).length ∧
      ((fragments.flatMap Fragment.written).length = (fragments.flatMap Fragment.text).length →
        ∀ fragment ∈ fragments, ∃ plain, fragment = .bare plain) := by
  induction fragments with
  | nil => simp
  | cons fragment rest inductionHypothesis =>
    obtain ⟨shorter, same⟩ := inductionHypothesis
    simp only [List.flatMap_cons, List.length_append, List.forall_mem_cons]
    rcases fragment.length_written with ⟨length, isBare⟩ | ⟨length, _⟩
    · exact ⟨by omega, fun equal => ⟨isBare, same (by omega)⟩⟩
    · exact ⟨by omega, fun equal => by omega⟩

theorem FragmentWord.written_eq_text_iff (word : FragmentWord) :
    word.written = word.text ↔ word.Unquoted := by
  constructor
  · intro equal
    exact (length_flatMap_written word.fragments).2 (congrArg List.length equal)
  · intro unquoted
    refine List.flatMap_congr fun fragment member => ?_
    obtain ⟨plain, rfl⟩ := unquoted fragment member
    rfl

/-- Both readings of all words that name files agree if and only if none of them has quotes. -/
theorem files_eq_iff (redirections : List WordRedirection) :
    (redirections.flatMap (WordRedirection.sources FragmentWord.written) =
        redirections.flatMap (WordRedirection.sources FragmentWord.text) ∧
      redirections.flatMap (WordRedirection.targets FragmentWord.written) =
        redirections.flatMap (WordRedirection.targets FragmentWord.text)) ↔
      ∀ redirection ∈ redirections, redirection.file.Unquoted := by
  induction redirections with
  | nil => simp
  | cons redirection rest inductionHypothesis =>
    obtain ⟨use, gap, file⟩ := redirection
    rw [List.forall_mem_cons, ← inductionHypothesis, ← file.written_eq_text_iff]
    cases use <;>
      simp [WordRedirection.sources, WordRedirection.targets, and_assoc, and_left_comm]

/-! ### The line -/

/-- A line of words and redirections is read to its end and without a report, and evaluating it runs
one call. Its words are the texts of the words of the line, but its files are named by what is
written for them; the two agree only where no file is named with quotes. -/
theorem evaluateLine_redirected (line : RedirectedLine) :
    (readLine line.written .command 0).reports = [] ∧
    (readLine line.written .command 0).unread = [] ∧
    (∀ (substitute : Evaluator.Substitute) (session : Session),
      evaluateLine substitute line.written session =
        (Evaluator.runCall .stackIndex line.words none).start
          { session, outputs := [[]]
            inputs := line.sources FragmentWord.written
            targets := line.targets FragmentWord.written }) ∧
    ((line.sources FragmentWord.written = line.sources FragmentWord.text ∧
        line.targets FragmentWord.written = line.targets FragmentWord.text) ↔
      ∀ redirection ∈ line.redirections, redirection.file.Unquoted) := by
  obtain ⟨call, tokens, tight, visited⟩ :=
    line.exists_call ((ofLine_textOf_iff line.items).mpr line.fits)
  obtain ⟨reports, unread, tree⟩ := readLine_call line.fits tight tokens.symm
  rw [line.textOf_items] at reports unread tree
  refine ⟨reports, unread, fun substitute session => ?_, files_eq_iff line.redirections⟩
  have begun : Evaluator.beginCall.start { session } =
      (.ok (), { session, outputs := [[]], words := [[]] }) := rfl
  rw [evaluateLine, tree, Command.tree, Evaluator.visit_command, Command.parts,
    Evaluator.visitAll_single, Evaluator.visit_call, visited, Evaluator.start_bind_ok begun,
    Evaluator.start_bind_ok (line.start_notes session)]
  rfl

/-- A session without files. -/
def vacantSession : Session where
  files := .empty
  home := ['/']
  inputs := []

/-- A word in quotes stands for its text as an argument, and as a target it names another file. -/
theorem runLine_quoted_target :
    let written := (runLine "echo 'a' > 'a'".toList).start vacantSession
    written.1.toOption = some [] ∧
      written.2.files.contentAt ["'a'".toList] = Text.encode "a\n".toList ∧
      (written.2.files.get? ["a".toList]).isNone = true := by
  decide +kernel

end MiniShell
