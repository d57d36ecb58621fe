/-
This file reads the line of a script. The line is a row of solid tokens with
single spaces between them, so it is cut into these tokens again. They are
derived by a series with a call for every call of the script, and evaluating
the tree of that series takes note of the words and redirections of each call
and runs them in order.

A script has no quotes, no commands in back quotes and no stars, so the words
of a call are the texts of its arguments, and nothing is run but the calls
themselves.
-/

import MiniShell.Proofs.Evaluation
import MiniShell.Proofs.Script
import MiniShell.Proofs.Series

namespace MiniShell

open MiniShell.Derivation

/-! ### The tokens of a script -/

/-- The line of tokens with single spaces between them. -/
def lineOf : List Spelling → Text
  | [] => []
  | item :: rest => item.2 ++ spacedText rest

/-- The tokens that the line of tokens is cut into. -/
def tokensOf : List Spelling → List Spelling
  | [] => []
  | item :: rest => item :: spacedTokens rest

theorem join_cons (separator first : Text) (rest : List Text) :
    Text.join separator (first :: rest) = first ++ rest.flatMap fun text => separator ++ text := by
  induction rest generalizing first with
  | nil => simp [Text.join]
  | cons second others inductionHypothesis =>
    rw [Text.join, inductionHypothesis, List.flatMap_cons, List.append_assoc, List.append_assoc]

theorem join_texts (items : List Spelling) :
    Text.join [' '] (items.map Prod.snd) = lineOf items := by
  cases items with
  | nil => rfl
  | cons item rest =>
    rw [List.map_cons, join_cons, lineOf, spacedText, List.flatMap_map]
    rfl

/-- Rows of tokens with an operator between neighbours. -/
def joinRows (operator : Spelling) : List (List Spelling) → List Spelling
  | [] => []
  | row :: rows => row ++ rows.flatMap fun other => operator :: other

theorem lineOf_append {row : List Spelling} (nonempty : row ≠ []) (rest : List Spelling) :
    lineOf (row ++ rest) = lineOf row ++ spacedText rest := by
  cases row with
  | nil => exact absurd rfl nonempty
  | cons item others => rw [List.cons_append, lineOf, spacedText_append, lineOf, List.append_assoc]

theorem spacedText_cons (item : Spelling) (rest : List Spelling) :
    spacedText (item :: rest) = ' ' :: (item.2 ++ spacedText rest) := rfl

/-- Lines with an operator and spaces between neighbours are one line. -/
theorem join_lines (operator : Spelling) {rows : List (List Spelling)}
    (nonempty : ∀ row ∈ rows, row ≠ []) :
    Text.join (' ' :: (operator.2 ++ [' '])) (rows.map lineOf) =
      lineOf (joinRows operator rows) := by
  cases rows with
  | nil => rfl
  | cons first rest =>
    rw [List.map_cons, join_cons, joinRows, lineOf_append (nonempty first (by simp)),
      List.flatMap_map]
    congr 1
    induction rest with
    | nil => rfl
    | cons row others inductionHypothesis =>
      have rowNonempty : row ≠ [] := nonempty row (by simp)
      rw [List.flatMap_cons, List.flatMap_cons, spacedText_append, inductionHypothesis
        fun other member => nonempty other (by
          rcases List.mem_cons.mp member with rfl | later
          · simp
          · simp [later])]
      congr 1
      obtain ⟨item, tail, rfl⟩ := List.exists_cons_of_ne_nil rowNonempty
      simp [spacedText_cons, lineOf]

/-- The token of a word. -/
def PlainWord.item (word : PlainWord) : Spelling := (.unquoted, word.text)

/-- The operator that sends output to a file. -/
def Destination.operator (destination : Destination) : Spelling :=
  if destination.append then (.doubleGreater, ['>', '>']) else (.greater, ['>'])

def Part.items : Part → List Spelling
  | .word argument => [argument.item]
  | .source file => [(.less, ['<']), file.item]
  | .target destination => [destination.operator, destination.file.item]

theorem Part.texts_items (part : Part) : part.texts = part.items.map Prod.snd := by
  cases part with
  | word argument => rfl
  | source file => rfl
  | target destination =>
    simp only [Part.texts, Part.items, Destination.operator]
    split <;> rfl

/-- The tokens of a call and its redirections. -/
def Stage.items (stage : Stage) : List Spelling :=
  stage.call.name.item :: stage.parts.flatMap Part.items

theorem Stage.render_items (stage : Stage) : stage.render = lineOf stage.items := by
  have texts : stage.texts = stage.items.map Prod.snd := by
    rw [Stage.texts, Stage.items, List.map_cons, List.map_flatMap,
      funext Part.texts_items]
    rfl
  rw [Stage.render, texts, join_texts]

/-- The tokens of a pipeline. -/
def Pipeline.items (pipeline : Pipeline) : List Spelling :=
  joinRows (.bar, ['|']) (pipeline.stages.map Stage.items)

/-- The tokens of a script. -/
def Script.items (script : Script) : List Spelling :=
  joinRows (.semicolon, [';']) (script.pipelines.map Pipeline.items)

theorem Pipeline.render_items (pipeline : Pipeline) :
    pipeline.render = lineOf pipeline.items := by
  have rows : pipeline.stages.map Stage.render = (pipeline.stages.map Stage.items).map lineOf := by
    rw [List.map_map]
    exact List.map_congr_left fun stage _ => stage.render_items
  rw [Pipeline.render, rows]
  exact join_lines (.bar, ['|']) fun row member => by
    obtain ⟨stage, _, rfl⟩ := List.mem_map.mp member
    exact List.cons_ne_nil _ _

theorem joinRows_nonempty {operator : Spelling} {row : List Spelling} {rows : List (List Spelling)}
    (nonempty : row ≠ []) : joinRows operator (row :: rows) ≠ [] := by
  simp [joinRows, nonempty]

theorem stagesFrom_cons (input : Option PlainWord) (output : Option Destination)
    (call : Invocation) (later : List Invocation) :
    ∃ stage rest, stagesFrom input output call later = stage :: rest := by
  cases later with
  | nil => exact ⟨_, [], rfl⟩
  | cons next rest => exact ⟨_, _, rfl⟩

theorem Pipeline.items_nonempty (pipeline : Pipeline) : pipeline.items ≠ [] := by
  obtain ⟨stage, rest, stages⟩ := stagesFrom_cons pipeline.input pipeline.output pipeline.first
    pipeline.later
  rw [Pipeline.items, Pipeline.stages, stages]
  exact joinRows_nonempty (List.cons_ne_nil _ _)

theorem Script.render_items (script : Script) : script.render = lineOf script.items := by
  have rows : script.pipelines.map Pipeline.render =
      (script.pipelines.map Pipeline.items).map lineOf := by
    rw [List.map_map]
    exact List.map_congr_left fun pipeline _ => pipeline.render_items
  rw [Script.render, rows]
  exact join_lines (.semicolon, [';']) fun row member => by
    obtain ⟨pipeline, _, rfl⟩ := List.mem_map.mp member
    exact pipeline.items_nonempty

/-! ### Cutting the line -/

theorem PlainWord.item_solid (word : PlainWord) : Solid word.item := by
  refine word_solid word.nonempty fun character member => ?_
  have notSpecial := word.plain character member
  simp [specialCharacters] at notSpecial
  simp [Lexeme.isPlain, Lexeme.isBlank, notSpecial]

theorem Part.items_solid (part : Part) : ∀ item ∈ part.items, Solid item := by
  cases part with
  | word argument =>
    simp only [Part.items, List.forall_mem_cons]
    exact ⟨argument.item_solid, by simp⟩
  | source file =>
    simp only [Part.items, List.forall_mem_cons]
    exact ⟨operator_solid (by simp), file.item_solid, by simp⟩
  | target destination =>
    simp only [Part.items, List.forall_mem_cons, Destination.operator]
    exact ⟨operator_solid (by split <;> simp), destination.file.item_solid, by simp⟩

theorem Stage.items_solid (stage : Stage) : ∀ item ∈ stage.items, Solid item := by
  intro item member
  rcases List.mem_cons.mp member with rfl | later
  · exact stage.call.name.item_solid
  · obtain ⟨part, _, inPart⟩ := List.mem_flatMap.mp later
    exact part.items_solid item inPart

theorem joinRows_solid {operator : Spelling} (operatorSolid : Solid operator)
    {rows : List (List Spelling)} (solid : ∀ row ∈ rows, ∀ item ∈ row, Solid item) :
    ∀ item ∈ joinRows operator rows, Solid item := by
  intro item member
  cases rows with
  | nil => exact absurd member (by simp [joinRows])
  | cons first rest =>
    rcases List.mem_append.mp member with inFirst | inRest
    · exact solid first (by simp) item inFirst
    · obtain ⟨row, inRows, inRow⟩ := List.mem_flatMap.mp inRest
      rcases List.mem_cons.mp inRow with rfl | inside
      · exact operatorSolid
      · exact solid row (List.mem_cons_of_mem _ inRows) item inside

theorem Script.items_solid (script : Script) : ∀ item ∈ script.items, Solid item := by
  refine joinRows_solid (operator_solid (by simp)) fun row member => ?_
  obtain ⟨pipeline, _, rfl⟩ := List.mem_map.mp member
  refine joinRows_solid (operator_solid (by simp)) fun stageRow stageMember => ?_
  obtain ⟨stage, _, rfl⟩ := List.mem_map.mp stageMember
  exact stage.items_solid

theorem ofLine_lineOf {items : List Spelling} (solid : ∀ item ∈ items, Solid item) :
    (Token.ofLine (lineOf items)).map Token.spelling = tokensOf items := by
  cases items with
  | nil => rfl
  | cons item rest =>
    exact ofLine_spaced (solid item (by simp))
      fun other member => solid other (List.mem_cons_of_mem _ member)

theorem spacedTokens_of_nonempty {items : List Spelling} (nonempty : items ≠ []) :
    spacedTokens items = space :: tokensOf items := by
  obtain ⟨item, rest, rfl⟩ := List.exists_cons_of_ne_nil nonempty
  rfl

theorem spacedTokens_cons (item : Spelling) (rest : List Spelling) :
    spacedTokens (item :: rest) = space :: item :: spacedTokens rest := rfl

theorem tokensOf_append {row : List Spelling} (nonempty : row ≠ []) (rest : List Spelling) :
    tokensOf (row ++ rest) = tokensOf row ++ spacedTokens rest := by
  obtain ⟨item, others, rfl⟩ := List.exists_cons_of_ne_nil nonempty
  rw [List.cons_append, tokensOf, spacedTokens_append, tokensOf, List.cons_append]

/-! ### What is noted about a call -/

/-- Takes note of an argument or a redirection. -/
def Part.note : Part → Evaluator Unit
  | .word argument => Evaluator.addWords [argument.text]
  | .source file =>
    modify fun evaluation => { evaluation with inputs := evaluation.inputs ++ [file.text] }
  | .target destination =>
    modify fun evaluation =>
      { evaluation with
        targets := evaluation.targets ++ [⟨destination.file.text, destination.append⟩] }

/-- Takes note of the words and redirections of a call. -/
def Stage.note (stage : Stage) : Evaluator Unit := do
  Evaluator.addWords [stage.call.name.text]
  stage.parts.forM Part.note

namespace Evaluator

/-- An argument without quotes and stars stands for its text. -/
theorem argumentWords_plain (substitute : Substitute) (token : Token)
    (noStar : '*' ∉ token.text) :
    argumentWords substitute [.leaf token] = pure [token.text] := by
  simp [argumentWords, addPiece, Tree.isNode, Tree.text, Draft.addText, Draft.empty, Draft.words,
    noStar]

end Evaluator

/-! ### The derivation of the line -/

/-- An argument that is a single unquoted text. -/
def wordArgument (token : Token) (isWord : token.kind = .unquoted) : Argument where
  pieces := [token]
  nonempty := List.cons_ne_nil _ _
  arePieces := by simp [Kind.isPiece, isWord]

theorem wordArgument_tree (token : Token) (isWord : token.kind = .unquoted) :
    (wordArgument token isWord).tree = .node .argument [.leaf token] := by
  simp [wordArgument, Argument.tree, pieceTree, isWord, Kind.isQuoted]

/-- The token is the given word. -/
theorem PlainWord.of_spelling {word : PlainWord} {token : Token}
    (spelled : token.spelling = word.item) : token.kind = .unquoted ∧ token.text = word.text :=
  ⟨congrArg Prod.fst spelled, congrArg Prod.snd spelled⟩

theorem visit_wordArgument (substitute : Evaluator.Substitute) {word : PlainWord} {token : Token}
    (isWord : token.kind = .unquoted) (text : token.text = word.text) :
    Evaluator.visit substitute (wordArgument token isWord).tree =
      Evaluator.addWords [word.text] := by
  have noStar : '*' ∉ token.text := by
    rw [text]
    exact fun member => word.plain '*' member (by simp [specialCharacters])
  have visited : Evaluator.visit substitute (wordArgument token isWord).tree = (do
      let words ← Evaluator.act (Evaluator.argumentWords substitute [.leaf token])
      Evaluator.addWords words) := by
    rw [wordArgument_tree]
    rfl
  rw [visited, Evaluator.argumentWords_plain _ _ noStar, text]
  rfl

/-- The tokens of an operator and the name of a file are a redirection. -/
theorem exists_redirection {operator : Spelling} {file : PlainWord} {tokens : List Token}
    (isOperator : operator.1.isRedirection = true)
    (spelled : tokens.map Token.spelling = tokensOf [operator, file.item]) :
    ∃ redirection : Redirection, redirection.tokens = tokens ∧
      ∀ substitute, Evaluator.visit substitute redirection.tree =
        modify fun evaluation =>
          if operator.2 = ['<'] then
            { evaluation with inputs := evaluation.inputs ++ [file.text] }
          else
            { evaluation with
              targets := evaluation.targets ++ [⟨file.text, operator.2 ≠ ['>']⟩] } := by
  obtain ⟨first, rest, rfl, operatorSpelled, further⟩ := List.map_eq_cons_iff.mp spelled
  obtain ⟨blank, rest, rfl, blankSpelled, further⟩ := List.map_eq_cons_iff.mp further
  obtain ⟨token, rest, rfl, wordSpelled, nothing⟩ := List.map_eq_cons_iff.mp further
  obtain ⟨isWord, text⟩ := PlainWord.of_spelling wordSpelled
  obtain rfl := List.map_eq_nil_iff.mp nothing
  have isBlank : blank.kind = .blank := congrArg Prod.fst blankSpelled
  have operatorText : first.text = operator.2 := congrArg Prod.snd operatorSpelled
  rw [← operatorSpelled] at isOperator
  refine ⟨⟨first, isOperator, some ⟨blank, isBlank⟩, wordArgument token isWord⟩, rfl,
    fun substitute => ?_⟩
  rw [Evaluator.visit_redirection]
  simp [Redirection.parts, Evaluator.addRedirection, wordArgument_tree, Tree.text, Tree.textAll,
    text, operatorText]

/-- The tokens of an argument or a redirection are an atom. -/
theorem exists_atom (part : Part) {tokens : List Token}
    (spelled : tokens.map Token.spelling = tokensOf part.items) :
    ∃ atom : Atom, atom.tokens = tokens ∧
      ∀ substitute, Evaluator.visit substitute atom.tree = part.note := by
  cases part with
  | word argument =>
    obtain ⟨token, rest, rfl, wordSpelled, nothing⟩ := List.map_eq_cons_iff.mp spelled
    obtain ⟨isWord, text⟩ := PlainWord.of_spelling wordSpelled
    obtain rfl := List.map_eq_nil_iff.mp nothing
    refine ⟨.argument (wordArgument token isWord), rfl, fun substitute => ?_⟩
    rw [Evaluator.visit_atom, Part.note]
    exact visit_wordArgument substitute isWord text
  | source file =>
    obtain ⟨redirection, rfl, visited⟩ := exists_redirection rfl spelled
    refine ⟨.redirection redirection, rfl, fun substitute => ?_⟩
    rw [Evaluator.visit_atom, Atom.inner, visited, Part.note]
    rfl
  | target destination =>
    have isOperator : destination.operator.1.isRedirection = true := by
      rw [Destination.operator]
      split <;> rfl
    obtain ⟨redirection, rfl, visited⟩ := exists_redirection isOperator spelled
    refine ⟨.redirection redirection, rfl, fun substitute => ?_⟩
    rw [Evaluator.visit_atom, Atom.inner, visited, Part.note]
    cases appended : destination.append <;> simp [Destination.operator, appended]

/-- Tokens that are spelled like a row of parts are a row of atoms if those of each part are an
atom, and visiting the row notes one part after the other. -/
theorem exists_atoms_of_each {Piece : Type} {items : Piece → List Spelling}
    {note : Piece → Evaluator Unit}
    (each : ∀ (piece : Piece) {tokens : List Token}, tokens.map Token.spelling = items piece →
      ∃ (blank : Option Blank) (atom : Atom), blankTokens blank ++ atom.tokens = tokens ∧
        (blank = none → atom.isRedirection = true) ∧
        ∀ substitute, Evaluator.visit substitute atom.tree = note piece)
    (pieces : List Piece) {tokens : List Token}
    (spelled : tokens.map Token.spelling = pieces.flatMap items) :
    ∃ atoms, atomTokens atoms = tokens ∧ TightAtoms atoms ∧
      ∀ substitute, Evaluator.visitAll substitute (atomTrees atoms) = pieces.forM note := by
  induction pieces generalizing tokens with
  | nil =>
    obtain rfl := List.map_eq_nil_iff.mp spelled
    refine ⟨[], rfl, fun _ member => absurd member (by simp), fun substitute => ?_⟩
    rw [atomTrees_nil, Evaluator.visitAll_nil]
    rfl
  | cons piece rest inductionHypothesis =>
    rw [List.flatMap_cons] at spelled
    obtain ⟨front, back, rfl, frontSpelled, backSpelled⟩ := List.map_eq_append_iff.mp spelled
    obtain ⟨blank, atom, rfl, tight, visited⟩ := each piece frontSpelled
    obtain ⟨atoms, rfl, tightRest, visitedRest⟩ := inductionHypothesis backSpelled
    refine ⟨(blank, atom) :: atoms, by simp, ?_, fun substitute => ?_⟩
    · rintro entry member noBlank
      rcases List.mem_cons.mp member with rfl | later
      · exact tight noBlank
      · exact tightRest entry later noBlank
    · rw [atomTrees_cons, Evaluator.visitAll_append, Evaluator.visitAll_append,
        Evaluator.visitAll_blank, pure_bind, Evaluator.visitAll_single, visited, visitedRest]
      rfl

/-- The tokens of arguments and redirections with blanks before them are atoms. -/
theorem exists_atoms (parts : List Part) {tokens : List Token}
    (spelled : tokens.map Token.spelling = spacedTokens (parts.flatMap Part.items)) :
    ∃ atoms, atomTokens atoms = tokens ∧ TightAtoms atoms ∧
      ∀ substitute, Evaluator.visitAll substitute (atomTrees atoms) = parts.forM Part.note := by
  refine exists_atoms_of_each (fun part tokens spelled => ?_) parts
    (spelled.trans List.flatMap_assoc)
  have nonempty : part.items ≠ [] := by cases part <;> exact List.cons_ne_nil _ _
  obtain ⟨blank, rest, rfl, blankSpelled, further⟩ :=
    List.map_eq_cons_iff.mp (spelled.trans (spacedTokens_of_nonempty nonempty))
  obtain ⟨atom, rfl, visited⟩ := exists_atom part further
  exact ⟨some ⟨blank, congrArg Prod.fst blankSpelled⟩, atom, rfl,
    fun noBlank => absurd noBlank (by simp), visited⟩

/-- Nothing or a single space. -/
def IsGap (gap : List Spelling) : Prop := gap = [] ∨ gap = [space]

theorem exists_blank {gap : List Spelling} (isGap : IsGap gap) {tokens : List Token}
    (spelled : tokens.map Token.spelling = gap) :
    ∃ blank : Option Blank, blankTokens blank = tokens := by
  rcases isGap with rfl | rfl
  · exact ⟨none, (List.map_eq_nil_iff.mp spelled).symm⟩
  · obtain ⟨blank, rest, rfl, blankSpelled, nothing⟩ := List.map_eq_cons_iff.mp spelled
    obtain rfl := List.map_eq_nil_iff.mp nothing
    exact ⟨some ⟨blank, congrArg Prod.fst blankSpelled⟩, rfl⟩

/-- The tokens of a call of a script are a call. -/
theorem exists_call (stage : Stage) {lead trail : List Spelling} (leadGap : IsGap lead)
    (trailGap : IsGap trail) {tokens : List Token}
    (spelled : tokens.map Token.spelling = lead ++ tokensOf stage.items ++ trail) :
    ∃ call : Call, call.tokens = tokens ∧ call.Tight ∧
      ∀ substitute, Evaluator.visitAll substitute call.parts = stage.note := by
  obtain ⟨front, trailPart, rfl, further, trailSpelled⟩ := List.map_eq_append_iff.mp spelled
  obtain ⟨leadPart, middle, rfl, leadSpelled, further⟩ := List.map_eq_append_iff.mp further
  obtain ⟨token, rest, rfl, wordSpelled, restSpelled⟩ := List.map_eq_cons_iff.mp further
  obtain ⟨leadBlank, rfl⟩ := exists_blank leadGap leadSpelled
  obtain ⟨trailBlank, rfl⟩ := exists_blank trailGap trailSpelled
  obtain ⟨atoms, rfl, tight, visited⟩ := exists_atoms stage.parts restSpelled
  obtain ⟨isWord, text⟩ := PlainWord.of_spelling wordSpelled
  refine ⟨⟨leadBlank, [], wordArgument token isWord, atoms, trailBlank⟩, ?_, tight,
    fun substitute => ?_⟩
  · simp [Call.tokens, Argument.tokens, wordArgument]
  · rw [Call.parts, Evaluator.visitAll_append, Evaluator.visitAll_append,
      Evaluator.visitAll_append, Evaluator.visitAll_append, Evaluator.visitAll_blank, pure_bind,
      Evaluator.visitAll_blank, leadingTrees_nil, Evaluator.visitAll, pure_bind,
      Evaluator.visitAll_single, visit_wordArgument substitute isWord text, visited,
      bind_pure_unit]
    rfl

/-! ### The evaluation of the line -/

/-- Runs a call of a script on what is piped into it. -/
def Stage.visit (stage : Stage) (piped : List Text) : Evaluator Unit := do
  Evaluator.beginCall
  stage.note
  Evaluator.endCall piped

/-- Runs a call of a script on the last output, which is taken away. -/
def Stage.resume (stage : Stage) : Evaluator Unit := do
  let piped ← Evaluator.popOutput .emptyStack
  stage.visit piped

/-- Runs the calls of a pipeline. -/
def visitStages : List Stage → Evaluator Unit
  | [] => pure ()
  | stage :: rest => do
    stage.visit []
    rest.forM Stage.resume

theorem visit_extend_chain (substitute : Evaluator.Substitute) (pipe : Pipe)
    (later : List (Bar × Call)) :
    Evaluator.visit substitute (Chain.extend pipe later).tree = (do
      Evaluator.visit substitute pipe.tree
      later.forM fun entry => Evaluator.pipeInto substitute entry.2) := by
  induction later generalizing pipe with
  | nil => rw [Chain.extend, List.forM_eq_forM, List.forM_nil, bind_pure_unit]
  | cons entry rest inductionHypothesis =>
    rw [Chain.extend, inductionHypothesis, Evaluator.visit_pipe, bind_assoc]
    rfl

/-- A chain is evaluated call by call. -/
theorem visit_chain (substitute : Evaluator.Substitute) (chain : Chain) :
    Evaluator.visit substitute chain.command.tree = (do
      Evaluator.visit substitute chain.first.tree
      chain.later.forM fun entry => Evaluator.pipeInto substitute entry.2) := by
  obtain ⟨first, later⟩ := chain
  cases later with
  | nil =>
    rw [Chain.command, Command.tree, Evaluator.visit_command, Command.parts,
      Evaluator.visitAll_single, List.forM_eq_forM, List.forM_nil, bind_pure_unit]
  | cons entry rest =>
    rw [Chain.command, Command.tree, Evaluator.visit_command, Command.parts,
      Evaluator.visitAll_single, ← Pipe.tree, visit_extend_chain, Evaluator.visit_calls,
      bind_assoc]
    rfl

/-- A series is evaluated chain by chain. -/
theorem visit_extend_series (substitute : Evaluator.Substitute) (command : Derivation.Command)
    (later : List (Semicolon × Chain)) :
    Evaluator.visit substitute (Series.extend command later).tree = (do
      Evaluator.visit substitute command.tree
      later.forM fun entry => Evaluator.visit substitute entry.2.command.tree) := by
  induction later generalizing command with
  | nil => rw [Series.extend, List.forM_eq_forM, List.forM_nil, bind_pure_unit]
  | cons entry rest inductionHypothesis =>
    rw [Series.extend, inductionHypothesis, Evaluator.visit_sequence, bind_assoc]
    rfl

/-- The tokens of calls with bars between them are a chain. -/
theorem exists_chain (stage : Stage) (rest : List Stage) {lead trail : List Spelling}
    (leadGap : IsGap lead) (trailGap : IsGap trail) {tokens : List Token}
    (spelled : tokens.map Token.spelling = lead ++ tokensOf stage.items ++
      (spacedTokens (rest.flatMap fun other => (.bar, ['|']) :: other.items) ++ trail)) :
    ∃ chain : Chain, chain.tokens = tokens ∧ chain.Tight ∧ ∀ substitute,
      Evaluator.visitAll substitute chain.first.parts = stage.note ∧
      (chain.later.forM fun entry => Evaluator.pipeInto substitute entry.2) =
        rest.forM Stage.resume := by
  induction rest generalizing stage lead tokens with
  | nil =>
    obtain ⟨call, rfl, tight, visited⟩ := exists_call stage leadGap trailGap spelled
    exact ⟨⟨call, []⟩, by simp [Chain.tokens, Chain.laterTokens],
      ⟨tight, fun _ member => absurd member (by simp)⟩, fun substitute => ⟨visited substitute, rfl⟩⟩
  | cons next others inductionHypothesis =>
    -- The blank before the bar belongs to the call on its left, the one behind to the next call.
    have regrouped : tokens.map Token.spelling = lead ++ tokensOf stage.items ++ [space] ++
        (.bar, ['|']) :: ([space] ++ tokensOf next.items ++
          (spacedTokens (others.flatMap fun other => (.bar, ['|']) :: other.items) ++ trail)) := by
      have nonempty : next.items ≠ [] := List.cons_ne_nil _ _
      rw [spelled, List.flatMap_cons, List.cons_append, spacedTokens_cons, spacedTokens_append,
        spacedTokens_of_nonempty nonempty]
      simp
    obtain ⟨front, back, rfl, frontSpelled, backSpelled⟩ := List.map_eq_append_iff.mp regrouped
    obtain ⟨bar, back, rfl, barSpelled, backSpelled⟩ := List.map_eq_cons_iff.mp backSpelled
    obtain ⟨call, rfl, tight, visited⟩ := exists_call stage leadGap (Or.inr rfl) frontSpelled
    obtain ⟨chain, rfl, tightChain, visitedChain⟩ :=
      inductionHypothesis next (Or.inr rfl) backSpelled
    have isBar : bar.kind = .bar := congrArg Prod.fst barSpelled
    refine ⟨⟨call, (⟨bar, isBar⟩, chain.first) :: chain.later⟩, rfl, ⟨tight, ?_⟩,
      fun substitute => ⟨visited substitute, ?_⟩⟩
    · rintro entry member
      rcases List.mem_cons.mp member with rfl | later
      · exact tightChain.1
      · exact tightChain.2 entry later
    · rw [List.forM_eq_forM, List.forM_cons, List.forM_eq_forM, List.forM_cons,
        Evaluator.pipeInto, (visitedChain substitute).1]
      rw [← List.forM_eq_forM, (visitedChain substitute).2]
      rfl

/-- The tokens of a pipeline are a chain. -/
theorem exists_pipeline (pipeline : Pipeline) {lead trail : List Spelling}
    (leadGap : IsGap lead) (trailGap : IsGap trail) {tokens : List Token}
    (spelled : tokens.map Token.spelling = lead ++ tokensOf pipeline.items ++ trail) :
    ∃ chain : Chain, chain.tokens = tokens ∧ chain.Tight ∧ ∀ substitute,
      Evaluator.visit substitute chain.command.tree = visitStages pipeline.stages := by
  obtain ⟨stage, rest, stages⟩ := stagesFrom_cons pipeline.input pipeline.output pipeline.first
    pipeline.later
  have items : pipeline.items =
      stage.items ++ rest.flatMap fun other => (.bar, ['|']) :: other.items := by
    rw [Pipeline.items, Pipeline.stages, stages, List.map_cons, joinRows, List.flatMap_map]
  have nonempty : stage.items ≠ [] := List.cons_ne_nil _ _
  rw [items, tokensOf_append nonempty, List.append_assoc, List.append_assoc,
    ← List.append_assoc] at spelled
  obtain ⟨chain, sameTokens, tight, visited⟩ := exists_chain stage rest leadGap trailGap spelled
  refine ⟨chain, sameTokens, tight, fun substitute => ?_⟩
  rw [visit_chain, (visited substitute).2, Evaluator.visit_call, (visited substitute).1,
    Pipeline.stages, stages]
  rfl

/-- The tokens of pipelines with semicolons between them are a series. -/
theorem exists_series (pipeline : Pipeline) (rest : List Pipeline) {lead : List Spelling}
    (leadGap : IsGap lead) {tokens : List Token}
    (spelled : tokens.map Token.spelling = lead ++ tokensOf pipeline.items ++
      spacedTokens (rest.flatMap fun other => (.semicolon, [';']) :: other.items)) :
    ∃ series : Series, series.tokens = tokens ∧ series.Tight ∧ ∀ substitute,
      Evaluator.visit substitute series.first.command.tree = visitStages pipeline.stages ∧
      (series.later.forM fun entry => Evaluator.visit substitute entry.2.command.tree) =
        rest.forM fun other => visitStages other.stages := by
  induction rest generalizing pipeline lead tokens with
  | nil =>
    obtain ⟨chain, rfl, tight, visited⟩ := exists_pipeline pipeline leadGap (Or.inl rfl) spelled
    exact ⟨⟨chain, []⟩, by simp [Series.tokens, Series.laterTokens],
      ⟨tight, fun _ member => absurd member (by simp)⟩, fun substitute => ⟨visited substitute, rfl⟩⟩
  | cons next others inductionHypothesis =>
    have regrouped : tokens.map Token.spelling = lead ++ tokensOf pipeline.items ++ [space] ++
        (.semicolon, [';']) :: ([space] ++ tokensOf next.items ++
          spacedTokens (others.flatMap fun other => (.semicolon, [';']) :: other.items)) := by
      rw [spelled, List.flatMap_cons, List.cons_append, spacedTokens_cons, spacedTokens_append,
        spacedTokens_of_nonempty next.items_nonempty]
      simp
    obtain ⟨front, back, rfl, frontSpelled, backSpelled⟩ := List.map_eq_append_iff.mp regrouped
    obtain ⟨semicolon, back, rfl, semicolonSpelled, backSpelled⟩ :=
      List.map_eq_cons_iff.mp backSpelled
    obtain ⟨chain, rfl, tight, visited⟩ :=
      exists_pipeline pipeline leadGap (Or.inr rfl) frontSpelled
    obtain ⟨series, rfl, tightSeries, visitedSeries⟩ :=
      inductionHypothesis next (Or.inr rfl) backSpelled
    have isSemicolon : semicolon.kind = .semicolon := congrArg Prod.fst semicolonSpelled
    refine ⟨⟨chain, (⟨semicolon, isSemicolon⟩, series.first) :: series.later⟩, rfl, ⟨tight, ?_⟩,
      fun substitute => ⟨visited substitute, ?_⟩⟩
    · rintro entry member
      rcases List.mem_cons.mp member with rfl | later
      · exact tightSeries.1
      · exact tightSeries.2 entry later
    · rw [List.forM_eq_forM, List.forM_cons, List.forM_eq_forM, List.forM_cons,
        (visitedSeries substitute).1]
      rw [← List.forM_eq_forM, (visitedSeries substitute).2]
      rfl

/-- Evaluating the line of a script runs its pipelines one after the other. -/
theorem visit_render (substitute : Evaluator.Substitute) (script : Script) :
    Evaluator.visit substitute (readLine script.render .command 0).tree =
      script.pipelines.forM fun pipeline => visitStages pipeline.stages := by
  have spelled : (Token.ofLine script.render).map Token.spelling =
      [] ++ tokensOf script.first.items ++ spacedTokens
        (script.later.flatMap fun other => (.semicolon, [';']) :: other.items) := by
    rw [script.render_items, ofLine_lineOf script.items_solid, Script.items, Script.pipelines,
      List.map_cons, joinRows, tokensOf_append script.first.items_nonempty, List.flatMap_map,
      List.nil_append]
  obtain ⟨series, tokens, tight, visited⟩ :=
    exists_series script.first script.later (Or.inl rfl) spelled
  rw [readLine_series tight tokens.symm, Series.command, visit_extend_series,
    (visited substitute).1, (visited substitute).2, Script.pipelines, List.forM_eq_forM,
    List.forM_cons]

end MiniShell
