/-
This file reads lines that are one call: words written as fragments, and behind
them plain arguments and redirections with single spaces between them. The
words say what is run, and the parts behind them say on what; so the same words
can be followed by the name of a file or by a redirection from it, and the two
lines differ only in what is noted last.

A call without a target puts out what its command writes on an output of its
own.
-/

import MiniShell.Proofs.Quoting

namespace MiniShell

open MiniShell.Derivation

/-! ### Cutting the line -/

theorem spacedText_stops (items : List Spelling) : Stops (spacedText items) := by
  cases items with
  | nil => exact Stops.nil
  | cons item rest => exact stops_cons (by decide) _

theorem spacedTokens_fit {items : List Spelling} (solid : ∀ item ∈ items, Solid item) :
    Fits (spacedTokens items) := by
  refine (ofLine_textOf_iff _).mp ?_
  rw [textOf_spacedTokens]
  exact spellings_spaced solid (Nat.le_refl _) _

/-- The tokens of arguments and redirections, with a space before each. -/
def partTokens (parts : List Part) : List Spelling := spacedTokens (parts.flatMap Part.items)

/-- The line of words that are followed by arguments and redirections. -/
def FragmentLine.followedBy (line : FragmentLine) (parts : List Part) : Text :=
  line.written ++ spacedText (parts.flatMap Part.items)

theorem FragmentLine.textOf_followedBy (line : FragmentLine) (parts : List Part) :
    textOf (line.row.items ++ partTokens parts) = line.followedBy parts := by
  rw [textOf_append, line.textOf_row, partTokens, textOf_spacedTokens, followedBy]

theorem FragmentLine.fits_followedBy (line : FragmentLine) (parts : List Part) :
    Fits (line.row.items ++ partTokens parts) := by
  refine line.fits_before ?_ (spacedTokens_fit fun item member => ?_)
  · rw [partTokens, textOf_spacedTokens]
    exact spacedText_stops _
  · obtain ⟨part, _, inPart⟩ := List.mem_flatMap.mp member
    exact part.items_solid item inPart

/-! ### Reading the line -/

/-- A row of arguments that is followed by further atoms. -/
def extendedCall (first : Argument) (later : List (Blank × Argument))
    (atoms : List (Option Blank × Atom)) : Call :=
  { rowCall first later with atoms := (rowCall first later).atoms ++ atoms }

theorem atomTokens_append (atoms others : List (Option Blank × Atom)) :
    atomTokens (atoms ++ others) = atomTokens atoms ++ atomTokens others :=
  List.flatMap_append

theorem atomTrees_append (atoms others : List (Option Blank × Atom)) :
    atomTrees (atoms ++ others) = atomTrees atoms ++ atomTrees others :=
  List.flatMap_append

theorem extendedCall_tokens (first : Argument) (later : List (Blank × Argument))
    (atoms : List (Option Blank × Atom)) :
    (extendedCall first later atoms).tokens =
      (rowCall first later).tokens ++ atomTokens atoms := by
  simp [Call.tokens, extendedCall, rowCall, atomTokens_append]

theorem extendedCall_parts (first : Argument) (later : List (Blank × Argument))
    (atoms : List (Option Blank × Atom)) :
    (extendedCall first later atoms).parts =
      (rowCall first later).parts ++ atomTrees atoms := by
  simp [Call.parts, extendedCall, rowCall, atomTrees_append]

theorem extendedCall_tight (first : Argument) (later : List (Blank × Argument))
    {atoms : List (Option Blank × Atom)} (tight : TightAtoms atoms) :
    (extendedCall first later atoms).Tight := by
  intro entry member noBlank
  rcases List.mem_append.mp member with inRow | inAtoms
  · exact rowCall_tight first later entry inRow noBlank
  · exact tight entry inAtoms noBlank

/-- A row that is followed by arguments and redirections is read as one call. Evaluating its parts
evaluates those of the row and then takes note of what follows. -/
theorem readLine_extended (row : Row) (parts : List Part)
    (fits : Fits (row.items ++ partTokens parts)) :
    ∃ (call : Call) (first : Argument) (later : List (Blank × Argument)),
      (readLine (textOf (row.items ++ partTokens parts)) .command 0).tree =
        (Command.call call).tree ∧
      first.spelling :: later.map (fun entry => entry.2.spelling) = row.arguments ∧
      ∀ substitute, Evaluator.visitAll substitute call.parts = (do
        Evaluator.visitAll substitute (rowCall first later).parts
        parts.forM Part.note) := by
  obtain ⟨rowPart, behind, tokens, rowSpelled, behindSpelled⟩ :=
    List.map_eq_append_iff.mp ((ofLine_textOf_iff _).mpr fits)
  obtain ⟨front, back, rfl, frontSpelled, backSpelled⟩ := List.map_eq_append_iff.mp rowSpelled
  obtain ⟨first, rfl, firstPieces⟩ := exists_argument row.first frontSpelled
  obtain ⟨later, rfl, laterPieces⟩ := exists_arguments row.later backSpelled
  obtain ⟨atoms, rfl, tight, visited⟩ := exists_atoms parts behindSpelled
  rw [← rowCall_tokens, ← extendedCall_tokens] at tokens
  refine ⟨extendedCall first later atoms, first, later, ?_, ?_, fun substitute => ?_⟩
  · exact (readLine_call fits (extendedCall_tight first later tight) tokens).2.2
  · rw [firstPieces, laterPieces, Row.arguments]
  · rw [extendedCall_parts, Evaluator.visitAll_append, visited]

/-- Evaluating the line takes note of its words, then of what follows them, and runs the call. -/
theorem evaluateLine_followedBy (line : FragmentLine) (parts : List Part)
    (substitute : Evaluator.Substitute) (session : Session) :
    evaluateLine substitute (line.followedBy parts) session =
      Evaluator.start (do
        parts.forM Part.note
        Evaluator.endCall []) { session, outputs := [[]], words := [line.words] } := by
  obtain ⟨call, first, later, tree, spelled, visited⟩ :=
    readLine_extended line.row parts (line.fits_followedBy parts)
  rw [line.textOf_followedBy] at tree
  have standFor := line.arguments_standFor
  rw [← spelled, FragmentLine.words] at standFor
  obtain ⟨firstStands, laterStand⟩ := List.forall₂_cons.mp standFor
  rw [List.forall₂_map_left_iff] at laterStand
  have begun : Evaluator.beginCall.start { session } =
      (.ok (), { session, outputs := [[]], words := [[]] }) := rfl
  rw [evaluateLine, tree, Command.tree, Evaluator.visit_command, Command.parts,
    Evaluator.visitAll_single, Evaluator.visit_call, visited, bind_assoc,
    Evaluator.start_bind_ok begun, Evaluator.start_bind_ok
      (Evaluator.start_visitAll_rowCall substitute firstStands laterStand rfl)]
  rfl

/-! ### Running the call -/

/-- What a command puts out on an output of its own, or the fault that it ends in. -/
def Action.outcome (action : Action Unit) (session : Session) : Except Fault (List Text) :=
  (action.start { session with out := [] }).1.map fun _ =>
    (action.start { session with out := [] }).2.out

theorem start_runWords (name : Text) (arguments : List Text) (session : Session) :
    (Evaluator.runWords .stackIndex (name :: arguments)).start { session, outputs := [[]] } =
      (((Catalog.run name arguments).start { session with out := [] }).1,
        { session :=
            { ((Catalog.run name arguments).start { session with out := [] }).2 with
              out := session.out }
          outputs :=
            [((Catalog.run name arguments).start { session with out := [] }).2.out] }) := by
  have stack : ({ session, outputs := [[]] } : Evaluation).outputs = [] ++ [[]] := rfl
  exact Evaluator.start_runWords .stackIndex name arguments stack (Prod.eta _).symm

/-- A line that runs one call, with at most one redirection and that from a file, gives the outcome
of its command. `begun` is the session in which standard input has been redirected. -/
theorem outcome_of_runCall {line name : Text} {arguments inputs : List Text}
    {session begun : Session} {redirected : Bool}
    (evaluated : evaluateLine (interpret 0) line session =
      (Evaluator.runCall .stackIndex (name :: arguments) none).start
        { session, outputs := [[]], inputs })
    (single : inputs.length ≤ 1)
    (fed : (Evaluator.redirectInput none).start { session, outputs := [[]], inputs } =
      (.ok redirected, { session := begun, outputs := [[]] })) :
    ((runLine line).start session).1 = (Catalog.run name arguments).outcome begun := by
  rw [Evaluator.runCall, Evaluator.start_bind_ok (Evaluator.start_get _), if_neg (by simp; omega),
    Evaluator.start_bind_ok fed, Evaluator.start_bind, start_runWords] at evaluated
  show (evaluateLine (interpret 0) line session).1.map (fun _ =>
    (evaluateLine (interpret 0) line session).2.outputs.flatten) = _
  rw [evaluated, Action.outcome]
  rcases (Catalog.run name arguments).start { begun with out := [] } with ⟨fault | _, after⟩
  · rfl
  · cases redirected <;>
      simp [Evaluator.redirectOutput, Evaluator.start_bind, Except.map, Action.popInput]

/-- Words that are followed by the name of a file run a command with one more argument. -/
theorem runLine_named {line : FragmentLine} {name : Text} {arguments : List Text}
    (words : line.words = name :: arguments) (file : PlainWord) (session : Session) :
    ((runLine (line.written ++ ' ' :: file.text)).start session).1 =
      (Catalog.run name (arguments ++ [file.text])).outcome session := by
  have isLine : line.written ++ ' ' :: file.text = line.followedBy [.word file] := by
    simp [FragmentLine.followedBy, Part.items, PlainWord.item, spacedText]
  have noted : Evaluator.start ([Part.word file].forM Part.note)
      { session, outputs := [[]], words := [line.words] } =
      (.ok ⟨⟩, { session, outputs := [[]], words := [name :: (arguments ++ [file.text])] }) := by
    rw [words]
    rfl
  have evaluated : evaluateLine (interpret 0) (line.followedBy [.word file]) session =
      (Evaluator.runCall .stackIndex (name :: (arguments ++ [file.text])) none).start
        { session, outputs := [[]] } := by
    rw [evaluateLine_followedBy, Evaluator.start_bind_ok noted]
    rfl
  rw [isLine]
  exact outcome_of_runCall evaluated (by simp) rfl

/-- Words that are followed by a redirection from a file run a command on that file. -/
theorem runLine_fed {line : FragmentLine} {name : Text} {arguments : List Text}
    (words : line.words = name :: arguments) {file : PlainWord} {session : Session}
    {trail : Trail} {content : List UInt8}
    (opened : (Action.openFile file.text).start session = (.ok (trail, content), session)) :
    ((runLine (line.written ++ " < ".toList ++ file.text)).start session).1 =
      (Catalog.run name arguments).outcome
        { session with inputs := Stream.ofFile trail :: session.inputs } := by
  have isLine : line.written ++ " < ".toList ++ file.text = line.followedBy [.source file] := by
    simp [FragmentLine.followedBy, Part.items, PlainWord.item, spacedText]
  have noted : Evaluator.start ([Part.source file].forM Part.note)
      { session, outputs := [[]], words := [line.words] } =
      (.ok ⟨⟩, { session, outputs := [[]], words := [name :: arguments]
                 inputs := [file.text] }) := by
    rw [words]
    rfl
  have evaluated : evaluateLine (interpret 0) (line.followedBy [.source file]) session =
      (Evaluator.runCall .stackIndex (name :: arguments) none).start
        { session, outputs := [[]], inputs := [file.text] } := by
    rw [evaluateLine_followedBy, Evaluator.start_bind_ok noted]
    rfl
  have fed : (Evaluator.openInput file.text).start session =
      (.ok ⟨⟩, { session with inputs := Stream.ofFile trail :: session.inputs }) := by
    rw [Evaluator.openInput, Action.start_bind, Action.start_rephrase, opened]
    rfl
  have redirected : (Evaluator.redirectInput none).start
      { session, outputs := [[]], inputs := [file.text] } =
      (.ok true, { session := { session with inputs := Stream.ofFile trail :: session.inputs }
                   outputs := [[]] }) := by
    simp [Evaluator.redirectInput, Evaluator.start_bind, Evaluator.start_map, fed, Except.map]
  rw [isLine]
  exact outcome_of_runCall evaluated (by simp) redirected

end MiniShell
