/-
This file is about commands in back quotes inside of double quotes. A token is
cut at its back quotes when the words of a call are made, by a rule that knows
nothing of the rule that cut the token out of the line. The file proves that
the two agree: the text between the double quotes is the literal text and the
commands that the token was made of, even if the commands hold double quotes
themselves. Each command is replaced by its output.

A command in back quotes holds no back quote, so nothing in it is replaced in
turn. Running it is running a line, however deep back quotes could be nested.
-/

import MiniShell.Proofs.Mending
import MiniShell.Proofs.PipeIsolation
import MiniShell.Proofs.Quoting
import MiniShell.Proofs.Splicing
import MiniShell.Proofs.Tiling

namespace MiniShell

open MiniShell.Derivation
open MiniShell.Tree (leafTokensAll)

/-! ### Cutting what stands between double quotes -/

namespace Segment

/-- A bound on the number of parts does not matter if it is no less than the length. -/
theorem cut_stable {steps others : Nat} {text : Text} (enough : text.length ≤ steps)
    (alsoEnough : text.length ≤ others) : cut steps text = cut others text := by
  induction steps generalizing others text with
  | zero => rw [List.length_eq_zero_iff.mp (Nat.le_zero.mp enough), cut_nil, cut_nil]
  | succ steps inductionHypothesis =>
    cases text with
    | nil => rw [cut_nil, cut_nil]
    | cons character rest =>
      rw [List.length_cons] at enough alsoEnough
      obtain ⟨fewer, rfl⟩ := Nat.exists_eq_add_one_of_ne_zero (show others ≠ 0 by omega)
      -- Whichever part is cut off, what is left is a shorter end of the text.
      have further {suffix : Text} (isSuffix : suffix <:+ rest) :
          cut steps suffix = cut fewer suffix := by
        have shorter := isSuffix.length_le
        exact inductionHypothesis (by omega) (by omega)
      rw [cut, cut, further (List.dropWhile_suffix _), further (List.suffix_refl _)]
      cases closing : rest.dropWhile fun other => other ≠ '`' with
      | nil => rfl
      | cons quote behind =>
        have isSuffix : behind <:+ rest :=
          (List.suffix_cons quote behind).trans (closing ▸ List.dropWhile_suffix _)
        simp only [further isSuffix]

theorem ofText_cons_quote (rest : Text) : ofText ('"' :: rest) = ofText rest := by
  simp [ofText, cut, isPlain]

theorem ofText_cons_plain {character : Char} (plain : isPlain character = true) (rest : Text) :
    ofText (character :: rest) =
      .plain (character :: rest.takeWhile isPlain) :: ofText (rest.dropWhile isPlain) := by
  have shorter := (List.dropWhile_suffix (l := rest) isPlain).length_le
  rw [ofText, List.length_cons, cut, if_pos plain, cut_stable shorter (Nat.le_refl _)]
  rfl

/-- A command between the first two back quotes is cut off, and the rest is cut by itself. -/
theorem ofText_command {line : Text} (nonempty : line ≠ []) (noQuote : '`' ∉ line)
    (rest : Text) : ofText ('`' :: (line ++ '`' :: rest)) = .command line :: ofText rest := by
  have inside : ∀ character ∈ line, decide (character ≠ '`') = true := fun character member =>
    decide_eq_true fun same => noQuote (same ▸ member)
  have taken : (line ++ '`' :: rest).takeWhile (fun other => other ≠ '`') = line := by
    rw [List.takeWhile_append_of_pos inside]
    simp
  have left : (line ++ '`' :: rest).dropWhile (fun other => other ≠ '`') = '`' :: rest := by
    rw [List.dropWhile_append_of_pos inside]
    simp
  have enough : rest.length ≤ (line ++ '`' :: rest).length := by
    rw [List.length_append, List.length_cons]
    omega
  have notPlain : ¬ isPlain '`' = true := by decide
  rw [ofText, List.length_cons, cut, if_neg notPlain, if_pos rfl, left, taken]
  cases line with
  | nil => exact absurd rfl nonempty
  | cons first others => exact congrArg _ (cut_stable enough (Nat.le_refl _))

end Segment

/-- The parts that text without back quotes is cut into. -/
def Literal.segments (literal : Literal) : List Segment :=
  if literal.text = [] then [] else [.plain literal.text]

theorem Literal.isPlain (literal : Literal) {character : Char} (member : character ∈ literal.text) :
    Segment.isPlain character = true := by
  have ordinary := literal.ordinary character member
  simp only [List.mem_cons, not_or] at ordinary
  simp [Segment.isPlain, ordinary]

/-- Literal text is cut off as it is, up to where other text begins. -/
theorem Literal.ofText_append (literal : Literal) {rest : Text}
    (stops : ∀ first ∈ rest.head?, Segment.isPlain first = false) :
    Segment.ofText (literal.text ++ rest) = literal.segments ++ Segment.ofText rest := by
  have restStops : rest.takeWhile Segment.isPlain = [] ∧ rest.dropWhile Segment.isPlain = rest := by
    cases rest with
    | nil => exact ⟨rfl, rfl⟩
    | cons first others => simp [stops first rfl]
  unfold segments
  cases text : literal.text with
  | nil => rfl
  | cons first others =>
    have plain : ∀ character ∈ others, Segment.isPlain character = true := fun character member =>
      literal.isPlain (text ▸ List.mem_cons_of_mem first member)
    rw [List.cons_append, Segment.ofText_cons_plain (literal.isPlain (by simp [text])),
      List.takeWhile_append_of_pos plain, List.dropWhile_append_of_pos plain, restStops.1,
      restStops.2, List.append_nil]
    rfl

/-- The parts that a command and the text behind it are cut into. -/
def Interpolation.segments (part : Interpolation) : List Segment :=
  .command part.command :: part.behind.segments

/-- Behind literal text a back quote or the closing double quote follows. -/
theorem Interpolation.head_notPlain (parts : List Interpolation) :
    ∀ first ∈ (parts.flatMap Interpolation.text ++ ['"']).head?,
      Segment.isPlain first = false := by
  cases parts with
  | nil => simp [Segment.isPlain]
  | cons part rest => simp [text, Segment.isPlain]

theorem Interpolation.ofText_append {parts : List Interpolation}
    (nonempty : ∀ part ∈ parts, part.command ≠ []) :
    Segment.ofText (parts.flatMap Interpolation.text ++ ['"']) =
      parts.flatMap Interpolation.segments := by
  induction parts with
  | nil => rfl
  | cons part rest inductionHypothesis =>
    have noQuote : '`' ∉ part.command := fun member => part.inside '`' member (by simp)
    have further := inductionHypothesis fun other member =>
      nonempty other (List.mem_cons_of_mem _ member)
    simp only [List.flatMap_cons, text, List.cons_append, List.append_assoc]
    rw [Segment.ofText_command (nonempty part List.mem_cons_self) noQuote,
      part.behind.ofText_append (head_notPlain rest), further]
    rfl

namespace QuotedWord

def segments (word : QuotedWord) : List Segment :=
  word.literal.segments ++ word.interpolations.flatMap Interpolation.segments

/-- A word in double quotes is cut into the parts that it was made of. -/
theorem ofText_text {word : QuotedWord}
    (nonempty : ∀ part ∈ word.interpolations, part.command ≠ []) :
    Segment.ofText word.text = word.segments := by
  rw [text, Segment.ofText_cons_quote, body, List.append_assoc,
    word.literal.ofText_append (Interpolation.head_notPlain _),
    Interpolation.ofText_append nonempty]
  rfl

end QuotedWord

/-! ### Replacing the commands -/

/-- What stands for a command and the text behind it. -/
def Interpolation.expanded (part : Interpolation) (output : List Text) : Text :=
  flattenOutput output ++ part.behind.text

namespace QuotedWord

/-- The commands of a word, from left to right. -/
def commands (word : QuotedWord) : List Text := word.interpolations.map Interpolation.command

/-- The word with each command replaced by its output. -/
def expanded (word : QuotedWord) (outputs : List (List Text)) : Text :=
  word.literal.text ++ (List.zipWith Interpolation.expanded word.interpolations outputs).flatten

end QuotedWord

namespace Evaluator

variable (substitute : Substitute)

theorem mapM_segmentText_literal (literal : Literal) :
    List.flatten <$> literal.segments.mapM (segmentText substitute) = pure literal.text := by
  unfold Literal.segments
  split
  case isTrue empty => simp [empty]
  case isFalse nonempty => simp [segmentText]

theorem flatten_mapM_append (segments others : List Segment) :
    List.flatten <$> (segments ++ others).mapM (segmentText substitute) = (do
      let text ← List.flatten <$> segments.mapM (segmentText substitute)
      let further ← List.flatten <$> others.mapM (segmentText substitute)
      return text ++ further) := by
  simp [List.mapM_append]

theorem mapM_segmentText_interpolations (parts : List Interpolation) :
    List.flatten <$> (parts.flatMap Interpolation.segments).mapM (segmentText substitute) =
      (fun outputs => (List.zipWith Interpolation.expanded parts outputs).flatten) <$>
        (parts.map Interpolation.command).mapM substitute := by
  induction parts with
  | nil => simp
  | cons part rest inductionHypothesis =>
    have single : List.flatten <$> part.segments.mapM (segmentText substitute) =
        part.expanded <$> substitute part.command := by
      have split := flatten_mapM_append substitute [.command part.command] part.behind.segments
      rw [mapM_segmentText_literal] at split
      show _ = (fun output => flattenOutput output ++ part.behind.text) <$> substitute part.command
      simpa [Interpolation.segments, segmentText] using split
    rw [List.flatMap_cons, flatten_mapM_append, single, inductionHypothesis]
    simp

theorem quotedWords_word {word : QuotedWord}
    (nonempty : ∀ part ∈ word.interpolations, part.command ≠ []) {token : Token}
    (spelled : token.spelling = word.item) :
    quotedWords substitute (.node .quoted [.leaf token]) = (do
      let outputs ← word.commands.mapM substitute
      return [word.expanded outputs]) := by
  obtain ⟨kind, text, mark⟩ := token
  obtain ⟨rfl, rfl⟩ := Prod.mk.inj spelled
  have texts := flatten_mapM_append substitute word.literal.segments
    (word.interpolations.flatMap Interpolation.segments)
  rw [mapM_segmentText_literal, mapM_segmentText_interpolations] at texts
  have read : quotedWords substitute (.node .quoted [.leaf ⟨.doubleQuoted, word.text, mark⟩]) =
      (fun text => [text]) <$> (List.flatten <$> word.segments.mapM (segmentText substitute)) := by
    simp [quotedWords, Tree.children, Tree.isToken, Tree.text, Tree.textAll,
      QuotedWord.ofText_text nonempty]
  rw [read, QuotedWord.segments, texts]
  simp [QuotedWord.commands, QuotedWord.expanded]

end Evaluator

/-! ### Lines that run the same commands -/

/-- The command lines that a token stands for. -/
def Token.lines (token : Token) : List Text := token.constituents.filterMap Constituent.command?

theorem Derivation.Argument.leafTokens (argument : Argument) :
    argument.tree.leafTokens = argument.tokens := by
  have leaves : argument.tree.leaves = argument.tokens.map .leaf :=
    leavesAll_pieces argument.pieces
  rw [Tree.leafTokens, leaves, List.filterMap_map]
  exact List.filterMap_some

theorem Derivation.Argument.commands_eq (argument : Argument) :
    argument.commands = argument.pieces.flatMap Token.lines :=
  List.filterMap_flatMap

namespace Evaluator

/-- Two ways to run commands that do the same for the commands in tokens. -/
def AgreeOn (first second : Substitute) (tokens : List Token) : Prop :=
  ∀ token ∈ tokens, ∀ line ∈ token.lines, first line = second line

namespace AgreeOn

variable {first second : Substitute} {tokens others : List Token}

theorem mono (agree : AgreeOn first second tokens) (subset : others ⊆ tokens) :
    AgreeOn first second others :=
  fun token member => agree token (subset member)

theorem left (agree : AgreeOn first second (tokens ++ others)) : AgreeOn first second tokens :=
  agree.mono (List.subset_append_left _ _)

theorem right (agree : AgreeOn first second (tokens ++ others)) : AgreeOn first second others :=
  agree.mono (List.subset_append_right _ _)

theorem behind {token : Token} (agree : AgreeOn first second (tokens ++ token :: others)) :
    AgreeOn first second others :=
  agree.right.mono (List.subset_cons_self _ _)

theorem mapM {lines : List Text} (agree : ∀ line ∈ lines, first line = second line) :
    lines.mapM first = lines.mapM second := by
  induction lines with
  | nil => rfl
  | cons line rest inductionHypothesis =>
    have further := inductionHypothesis fun other member => agree other (by simp [member])
    rw [List.mapM_cons, List.mapM_cons, agree line List.mem_cons_self, further]

theorem argument {argument : Argument} (agree : AgreeOn first second argument.tokens) :
    visit first argument.tree = visit second argument.tree := by
  have outputs : argument.commands.mapM first = argument.commands.mapM second := by
    refine mapM fun line member => ?_
    rw [argument.commands_eq] at member
    obtain ⟨piece, isPiece, inPiece⟩ := List.mem_flatMap.mp member
    exact agree piece isPiece line inPiece
  rw [visit_argument, visit_argument, argumentWords_eq, argumentWords_eq, outputs]

/-- What is evaluated alike tree by tree is evaluated alike as a whole. -/
theorem visitAll {trees : List Tree} (alike : ∀ tree ∈ trees,
      AgreeOn first second tree.leafTokens → visit first tree = visit second tree)
    (agree : AgreeOn first second (leafTokensAll trees)) :
    Evaluator.visitAll first trees = Evaluator.visitAll second trees := by
  induction trees with
  | nil => rfl
  | cons tree rest inductionHypothesis =>
    rw [Tree.leafTokensAll_cons] at agree
    have further := inductionHypothesis (fun other member => alike other (by simp [member]))
      agree.right
    rw [visitAll_cons, visitAll_cons, alike tree List.mem_cons_self agree.left, further]

/-- Two ways to run commands that agree on those in a call do the same to its parts. -/
theorem parts {call : Call} (agree : AgreeOn first second call.tokens) :
    Evaluator.visitAll first call.parts = Evaluator.visitAll second call.parts := by
  have ofLeaf (token : Token) : visit first (.leaf token) = visit second (.leaf token) := by
    rw [visit_leaf, visit_leaf]
  have ofRedirection (part : Redirection) : visit first part.tree = visit second part.tree := by
    rw [visit_redirection, visit_redirection]
  have ofArgument (part : Argument) (onLeaves : AgreeOn first second part.tree.leafTokens) :
      visit first part.tree = visit second part.tree :=
    argument (part.leafTokens ▸ onLeaves)
  have ofAtom (atom : Atom) (onLeaves : AgreeOn first second atom.tree.leafTokens) :
      visit first atom.tree = visit second atom.tree := by
    rw [visit_atom, visit_atom]
    cases atom with
    | redirection part => exact ofRedirection part
    | argument part =>
      rw [Atom.tree, Tree.leafTokens_node, Tree.leafTokensAll_single] at onLeaves
      exact ofArgument part onLeaves
  have whole : leafTokensAll call.parts = call.tokens := call.leafTokens
  exact visitAll (Call.forall_parts (fun token _ => ofLeaf token)
    (fun part _ => ofRedirection part) ofArgument ofAtom call) (whole ▸ agree)

theorem pipeInto {call : Call} (agree : AgreeOn first second call.tokens) :
    Evaluator.pipeInto first call = Evaluator.pipeInto second call := by
  rw [Evaluator.pipeInto, Evaluator.pipeInto, agree.parts]

theorem call {call : Call} (agree : AgreeOn first second call.tokens) :
    visit first call.tree = visit second call.tree := by
  rw [visit_call, visit_call, agree.parts]

mutual

theorem pipe : (pipe : Pipe) → AgreeOn first second pipe.tokens →
    visit first pipe.tree = visit second pipe.tree
  | .calls left bar right, agree => by
    rw [Pipe.tokens] at agree
    rw [visit_calls, visit_calls, agree.left.call, agree.behind.pipeInto]
  | .call left bar right, agree => by
    rw [Pipe.tokens] at agree
    rw [visit_pipe, visit_pipe, pipe left agree.left, agree.behind.pipeInto]
  | .command left bar right, agree => by
    rw [Pipe.tokens] at agree
    have further := command right agree.behind
    rw [Command.tree, visit_command, visit_command] at further
    rw [visit_stage, visit_stage, pipe left agree.left, further]

/-- A command is evaluated alike if the commands in its tokens are. -/
theorem command : (command : Derivation.Command) → AgreeOn first second command.tokens →
    visit first command.tree = visit second command.tree
  | .pipe inner, agree => by
    have alike := pipe inner agree
    rw [Command.tree, visit_command, visit_command, Command.parts, visitAll_single, visitAll_single]
    exact alike
  | .sequence left semicolon right, agree => by
    rw [Command.tokens] at agree
    rw [visit_sequence, visit_sequence, command left agree.left, command right agree.behind]
  | .call inner, agree => by
    rw [Command.tree, visit_command, visit_command, Command.parts, visitAll_single, visitAll_single]
    exact agree.call
  | .empty, _ => rfl

end

end AgreeOn

end Evaluator

/-! ### Lines without back quotes -/

/-- The tokens of a line are parts of it, and each is of its kind. -/
theorem Tiling.token {mark : Mark} {line : Text} {lexemes : List Lexeme}
    (tiling : Tiling mark line lexemes) {token : Token}
    (member : token ∈ lexemes.filterMap Lexeme.token?) :
    token.text ⊆ line ∧ token.text ∈ token.kind.language := by
  induction tiling with
  | nil => exact absurd member List.not_mem_nil
  | @cons mark kind text rest lexemes cut _ inductionHypothesis =>
    have later (inRest : token ∈ lexemes.filterMap Lexeme.token?) :
        token.text ⊆ text ++ rest ∧ token.text ∈ token.kind.language := by
      obtain ⟨part, isToken⟩ := inductionHypothesis inRest
      exact ⟨List.subset_append_of_subset_right _ part, isToken⟩
    cases kind with
    | none => exact later member
    | some kind =>
      rcases List.mem_cons.mp member with rfl | inRest
      · exact ⟨List.subset_append_left _ _, LongestToken.isToken cut⟩
      · exact later inRest

/-- Where a line has no back quote there is no command to run. -/
theorem Token.lines_of_quiet {line : Text} (quiet : '`' ∉ line) {token : Token}
    (member : token ∈ Token.ofLine line) : token.lines = [] := by
  have tiling : Tiling Mark.start line (Lexeme.ofLine line) :=
    cut_tiling line.length Mark.start line (Nat.le_refl _)
  obtain ⟨part, isToken⟩ := tiling.token member
  have noQuote : '`' ∉ token.text := fun inText => quiet (part inText)
  obtain ⟨kind, text, mark⟩ := token
  cases kind with
  | backQuoted =>
    obtain ⟨inside, _, rfl⟩ := mem_enclosed.mp isToken
    exact absurd List.mem_cons_self noQuote
  | doubleQuoted =>
    refine List.filterMap_eq_nil_iff.mpr fun part isPart => ?_
    obtain ⟨segment, isSegment, rfl⟩ := List.mem_map.mp isPart
    obtain ⟨plain, rfl⟩ := Segment.cut_plain noQuote segment isSegment
    rfl
  | _ => rfl

/-- The command lines in the tokens of a line, from left to right. -/
def innerLines (line : Text) : List Text := (Token.ofLine line).flatMap Token.lines

theorem innerLines_of_quiet {line : Text} (quiet : '`' ∉ line) : innerLines line = [] :=
  List.flatMap_eq_nil_iff.mpr fun _ member => Token.lines_of_quiet quiet member

/-- The evaluation of a line depends on what is done for the command lines in its tokens, and on
nothing that is done for other lines. -/
theorem evaluateLine_agree {line : Text} {first second : Evaluator.Substitute}
    (agree : ∀ command ∈ innerLines line, first command = second command) :
    evaluateLine first line = evaluateLine second line := by
  obtain ⟨parts, command, tree, mended, _, account⟩ := readLine_mended line
  have onTokens : Evaluator.AgreeOn first second command.tokens := by
    intro token member inner inToken
    have inLine : token ∈ Token.ofLine line :=
      account ▸ List.mem_append_left _ (mended.sublist.subset member)
    exact agree inner (List.mem_flatMap.mpr ⟨token, inLine, inToken⟩)
  have visits (substitute : Evaluator.Substitute) :
      Evaluator.visit substitute (readLine line .command 0).tree =
        Evaluator.visit substitute command.tree := by
    rw [tree, Command.tree, Evaluator.visit_command, Evaluator.visit_command, mended.visitAll]
  funext session
  unfold evaluateLine
  rw [visits, visits, onTokens.command]

theorem outputOfLine_congr {line : Text} {first second : Evaluator.Substitute}
    (alike : evaluateLine first line = evaluateLine second line) :
    outputOfLine first line = outputOfLine second line := by
  unfold outputOfLine
  rw [alike]

/-- A line without back quotes has the same output, however commands are run. -/
theorem outputOfLine_quiet {line : Text} (quiet : '`' ∉ line)
    (first second : Evaluator.Substitute) :
    outputOfLine first line = outputOfLine second line := by
  refine outputOfLine_congr (evaluateLine_agree fun command member => ?_)
  rw [innerLines_of_quiet quiet] at member
  exact absurd member List.not_mem_nil

/-- Nesting does not matter to a line without back quotes. -/
theorem interpret_quiet {line : Text} (quiet : '`' ∉ line) (depth : Nat) :
    interpret depth line = runLine line := by
  cases depth <;> exact outputOfLine_quiet quiet _ _

/-- A word in double quotes stands for one word: its literal text stands for itself, and each
command in back quotes for its output on one line, without white space at the end. The commands are
run as lines of their own, from left to right and each of them once, and if one of them fails, so
does the word, and those behind it are not run. -/
theorem Evaluator.quotedWords_interpolated {word : QuotedWord}
    (nonempty : ∀ part ∈ word.interpolations, part.command ≠ []) {token : Token}
    (spelled : token.spelling = word.item) (depth : Nat) :
    quotedWords (interpret depth) (.node .quoted [.leaf token]) = (do
      let outputs ← word.commands.mapM runLine
      return [word.expanded outputs]) := by
  have outputs : word.commands.mapM (interpret depth) = word.commands.mapM runLine := by
    refine AgreeOn.mapM fun line member => interpret_quiet (fun inLine => ?_) depth
    obtain ⟨part, _, rfl⟩ := List.mem_map.mp member
    exact part.inside '`' inLine (by simp)
  rw [quotedWords_word _ nonempty spelled, outputs]

/-- The word `"a`echo "x  y"``echo z`b"`. -/
def quotedEcho : QuotedWord where
  literal := ⟨['a'], by simp⟩
  interpolations :=
    [⟨"echo \"x  y\"".toList, by simp, ⟨"".toList, by simp⟩⟩,
      ⟨"echo z".toList, by simp, ⟨['b'], by simp⟩⟩]

/-- Commands stand side by side and hold double quotes, and their outputs are not cut. -/
theorem Evaluator.quotedWords_interpolated_echo :
    let token : Token := ⟨.doubleQuoted, "\"a`echo \"x  y\"``echo z`b\"".toList, Mark.start⟩
    (∀ part ∈ quotedEcho.interpolations, part.command ≠ []) ∧
    token.spelling = quotedEcho.item ∧
    ((quotedWords (interpret 0) (.node .quoted [.leaf token])).start oneFile).1 =
      .ok ["ax  yzb".toList] := by
  intro token
  have nonempty : ∀ part ∈ quotedEcho.interpolations, part.command ≠ [] := by decide
  have spelled : token.spelling = quotedEcho.item := by decide
  refine ⟨nonempty, spelled, ?_⟩
  rw [quotedWords_interpolated nonempty spelled]
  decide +kernel

end MiniShell
