/-
This file says what the pieces of an argument stand for. Every piece is a row
of constituents, which are texts and commands in back quotes. The commands are
run from left to right, each of them once, and all else follows from their
outputs: the constituents are written side by side, with a mark between
neighbouring words of one output, and what is written is cut at the marks.

The evaluator works on a draft, piece by piece. A draft is settled by what has
been written so far, so that adding a piece to the draft is the same as writing
its constituents.
-/

import Mathlib.Data.List.Basic
import MiniShell.Proofs.CutParts
import MiniShell.Proofs.Evaluation

namespace MiniShell

open MiniShell.Derivation

/-! ### Glyphs -/

/-- What an argument is written with. -/
inductive Glyph
  /-- A character of text without quotes. -/
  | bare (character : Char)
  /-- A character of quoted text, or of the output of a command. -/
  | shielded (character : Char)
  /-- The mark between two words. -/
  | mark
  deriving DecidableEq

namespace Glyph

def character? : Glyph → Option Char
  | bare character | shielded character => some character
  | mark => none

/-- The characters of a text, shielded. -/
def shield (text : Text) : List Glyph := text.map shielded

/-- The text of a word. -/
def textOf (word : List Glyph) : Text := word.filterMap character?

/-- Whether a word stands for the names of files: it holds a star that nothing shields. -/
def isWild (word : List Glyph) : Bool := word.contains (bare '*')

/-- The positions of the words that hold a bare star, in the order in which these words are
replaced. -/
def starOrder (words : List (List Glyph)) : List Nat := Slots.order (words.findIdxs isWild)

/-- The words of an argument: what stands between the marks. -/
def words (glyphs : List Glyph) : List (List Glyph) := glyphs.splitOn mark

@[simp] theorem textOf_shield (text : Text) : textOf (shield text) = text := by
  simp [textOf, shield, List.filterMap_map, Function.comp_def, character?]

@[simp] theorem textOf_bare (text : Text) : textOf (text.map bare) = text := by
  simp [textOf, List.filterMap_map, Function.comp_def, character?]

@[simp] theorem textOf_append (word other : List Glyph) :
    textOf (word ++ other) = textOf word ++ textOf other := List.filterMap_append

theorem shield_flatten (texts : List Text) :
    shield texts.flatten = (texts.map shield).flatten := List.map_flatten

@[simp] theorem isWild_shield (text : Text) : isWild (shield text) = false := by
  simp [isWild, shield]

@[simp] theorem isWild_bare (text : Text) : isWild (text.map bare) = text.contains '*' := by
  simp [isWild]

@[simp] theorem isWild_append (word other : List Glyph) :
    isWild (word ++ other) = (isWild word || isWild other) := by
  simp [isWild]

/-! ### Cutting at the marks -/

theorem words_nil : words [] = [[]] := rfl

theorem words_ne_nil (glyphs : List Glyph) : words glyphs ≠ [] := List.splitOnP_ne_nil _ _

/-- Glyphs without a mark are one word. -/
theorem words_of_notMem {glyphs : List Glyph} (unmarked : mark ∉ glyphs) :
    words glyphs = [glyphs] := by
  refine List.splitOnP_eq_singleton fun glyph member => ?_
  simpa using ne_of_mem_of_not_mem member unmarked

theorem mark_notMem_shield (text : Text) : mark ∉ shield text := by simp [shield]

theorem words_bare (text : Text) : words (text.map bare) = [text.map bare] :=
  words_of_notMem (by simp)

/-- Words with marks between them are cut into these words. -/
theorem words_intercalate {texts : List Text} (some : texts ≠ []) :
    words ([mark].intercalate (texts.map shield)) = texts.map shield := by
  refine List.splitOn_intercalate mark (fun word member => ?_) (by simpa using some)
  obtain ⟨text, _, rfl⟩ := List.mem_map.mp member
  exact mark_notMem_shield text

theorem words_cons (glyph : Glyph) (glyphs : List Glyph) :
    words (glyph :: glyphs) =
      if glyph = mark then [] :: words glyphs else (words glyphs).modifyHead (glyph :: ·) := by
  simp [words, List.splitOn, List.splitOnP_cons_eq_if_modifyHead]

theorem bare_notMem_intercalate (character : Char) (texts : List Text) :
    bare character ∉ [mark].intercalate (texts.map shield) := by
  induction texts with
  | nil => simp
  | cons text rest inductionHypothesis =>
    cases rest with
    | nil => simp [shield]
    | cons next further =>
      rw [List.map_cons, List.map_cons, List.intercalate_cons_cons, ← List.map_cons]
      simpa [shield] using inductionHypothesis

/-- Where two rows of glyphs meet, the last word of the first and the first word of the second are
one word. -/
theorem words_append (glyphs others : List Glyph) :
    words (glyphs ++ others) = (words glyphs).dropLast ++
      ((words glyphs).getLastD [] ++ (words others).headD []) :: (words others).tail := by
  induction glyphs with
  | nil =>
    obtain ⟨first, rest, cut⟩ := List.exists_cons_of_ne_nil (words_ne_nil others)
    simp [words_nil, cut]
  | cons glyph glyphs inductionHypothesis =>
    obtain ⟨word, further, cut⟩ := List.exists_cons_of_ne_nil (words_ne_nil glyphs)
    rw [cut] at inductionHypothesis
    rw [List.cons_append, words_cons, words_cons, inductionHypothesis, cut]
    split
    · simp
    · cases further <;> simp

/-- Words are made of the glyphs that are cut. -/
theorem mem_of_mem_words {glyphs word : List Glyph} (isWord : word ∈ words glyphs) {glyph : Glyph}
    (member : glyph ∈ word) : glyph ∈ glyphs := by
  induction glyphs generalizing word with
  | nil =>
    obtain rfl := List.mem_singleton.mp isWord
    exact member
  | cons first rest inductionHypothesis =>
    obtain ⟨head, tail, cut⟩ := List.exists_cons_of_ne_nil (words_ne_nil rest)
    rw [cut] at inductionHypothesis
    rw [words_cons, cut] at isWord
    split at isWord
    · rcases List.mem_cons.mp isWord with rfl | inRest
      · exact absurd member List.not_mem_nil
      · exact List.mem_cons_of_mem _ (inductionHypothesis inRest member)
    · rcases List.mem_cons.mp isWord with rfl | inTail
      · rcases List.mem_cons.mp member with rfl | inHead
        · exact List.mem_cons_self
        · exact List.mem_cons_of_mem _ (inductionHypothesis List.mem_cons_self inHead)
      · exact List.mem_cons_of_mem _
          (inductionHypothesis (List.mem_cons_of_mem _ inTail) member)

theorem exists_words (glyphs : List Glyph) : ∃ before last, words glyphs = before ++ [last] :=
  ⟨_, _, (List.dropLast_append_getLast (words_ne_nil glyphs)).symm⟩

end Glyph

/-! ### The words of an output -/

/-- The words of an output: its parts between blanks and line feeds, without the white space at its
end. -/
def outputWords (output : List Text) : List Text :=
  ((Text.trimEnd output.flatten).splitOnP fun character =>
    character = ' ' || character = '\n').filter fun word => word ≠ []

namespace Text

/-- A change of characters that keeps their kind does not change what is dropped. -/
theorem dropEnd_map {isDropped : Char → Bool} {change : Char → Char}
    (keeps : ∀ character, isDropped (change character) = isDropped character) (text : Text) :
    dropEnd isDropped (text.map change) = (dropEnd isDropped text).map change := by
  induction text with
  | nil => rfl
  | cons character rest inductionHypothesis =>
    rw [List.map_cons, dropEnd, dropEnd, inductionHypothesis, keeps]
    cases dropEnd isDropped rest with
    | nil => cases isDropped character <;> rfl
    | cons other others => rfl

theorem trimEnd_replace_feed (text : Text) :
    trimEnd (replace '\n' ' ' text) = replace '\n' ' ' (trimEnd text) := by
  refine dropEnd_map (fun character => ?_) text
  split
  · next isFeed =>
    rw [isFeed]
    decide
  · rfl

theorem splitOnP_replace_feed (text : Text) :
    (replace '\n' ' ' text).splitOnP (fun character => character = ' ') =
      text.splitOnP fun character => character = ' ' || character = '\n' := by
  induction text with
  | nil => rfl
  | cons character rest inductionHypothesis =>
    rw [replace, List.map_cons, ← replace, List.splitOnP_cons_eq_if_modifyHead,
      List.splitOnP_cons_eq_if_modifyHead, inductionHypothesis]
    by_cases isFeed : character = '\n' <;> simp [isFeed]

end Text

/-- Line feeds that have become blanks are as good as line feeds. -/
theorem blankWords_flattenOutput (output : List Text) :
    blankWords (flattenOutput output) = outputWords output := by
  rw [blankWords, flattenOutput, Text.trimEnd_replace_feed, Text.splitAt_eq_splitOnP,
    Text.splitOnP_replace_feed, outputWords]

/-! ### Drafts -/

namespace Draft

open Glyph (isWild shield)

/-- The draft of an argument of which this has been written. -/
def ofGlyphs (glyphs : List Glyph) : Draft where
  finished := (Glyph.words glyphs).dropLast.map Glyph.textOf
  last := Glyph.textOf ((Glyph.words glyphs).getLastD [])
  starred := (Glyph.words glyphs).findIdxs isWild

theorem ofGlyphs_nil : ofGlyphs [] = empty := rfl

theorem starred_ofGlyphs (glyphs : List Glyph) :
    (ofGlyphs glyphs).starred = (Glyph.words glyphs).findIdxs isWild := rfl

theorem words_ofGlyphs (glyphs : List Glyph) :
    (ofGlyphs glyphs).words = (Glyph.words glyphs).map Glyph.textOf := by
  obtain ⟨before, last, cut⟩ := Glyph.exists_words glyphs
  simp [ofGlyphs, words, cut]

theorem findIdxs_concat (before : List (List Glyph)) (last : List Glyph) :
    (before ++ [last]).findIdxs isWild =
      before.findIdxs isWild ++ if isWild last then [before.length] else [] := by
  rw [List.findIdxs_append, List.findIdxs_singleton, Nat.zero_add]

/-- Joining text without quotes is writing it. -/
theorem addText_ofGlyphs (text : Text) (glyphs : List Glyph) :
    (ofGlyphs glyphs).addText text = ofGlyphs (glyphs ++ text.map .bare) := by
  obtain ⟨before, last, cut⟩ := Glyph.exists_words glyphs
  have further : Glyph.words (glyphs ++ text.map .bare) = before ++ [last ++ text.map .bare] := by
    simp [Glyph.words_append, Glyph.words_bare, cut]
  have later : before.length ∉ before.findIdxs isWild := fun member =>
    absurd (List.lt_add_of_mem_findIdxs _ member) (by simp)
  rw [ofGlyphs, ofGlyphs, addText, cut, further, findIdxs_concat, findIdxs_concat]
  have same : Glyph.textOf last ++ text = Glyph.textOf (last ++ text.map .bare) := by simp
  simp only [List.dropLast_concat, List.getLastD_concat, List.length_map, same, Glyph.isWild_append,
    Glyph.isWild_bare]
  cases wild : isWild last <;> cases star : text.contains '*' <;> simp [later]

/-- Joining words is writing them with marks between them. -/
theorem addWords_ofGlyphs (texts : List Text) (glyphs : List Glyph) :
    (ofGlyphs glyphs).addWords texts =
      ofGlyphs (glyphs ++ [Glyph.mark].intercalate (texts.map shield)) := by
  cases texts with
  | nil => simp [addWords]
  | cons first rest =>
    obtain ⟨before, last, cut⟩ := Glyph.exists_words glyphs
    have further : Glyph.words (glyphs ++ [Glyph.mark].intercalate ((first :: rest).map shield)) =
        before ++ (last ++ shield first) :: rest.map shield := by
      rw [Glyph.words_append, Glyph.words_intercalate (List.cons_ne_nil _ _), cut]
      simp
    have tame (start : Nat) : (rest.map shield).findIdxs isWild start = [] := by
      simp [List.findIdxs_eq_nil_iff]
    have texts : before.map Glyph.textOf ++ (Glyph.textOf last ++ first) :: rest =
        (before ++ (last ++ shield first) :: rest.map shield).map Glyph.textOf := by
      simp [Function.comp_def]
    rw [ofGlyphs, ofGlyphs, addWords, cut, further]
    simp only [List.dropLast_concat, List.getLastD_concat, texts]
    congr 1
    · exact (List.map_dropLast ..).symm
    · rw [List.getLastD_eq_getLast?, List.getLastD_eq_getLast?, List.getLast?_map]
      cases List.getLast? _ <;> rfl
    · rw [findIdxs_concat, List.findIdxs_append, List.findIdxs_cons, tame, Nat.zero_add]
      simp

end Draft

/-! ### Constituents -/

/-- A constituent of an argument. -/
inductive Constituent
  | bare (text : Text)
  | quoted (text : Text)
  /-- A command between double quotes. Its output is not cut. -/
  | inner (line : Text)
  /-- A command that stands by itself. Its output is cut into words. -/
  | outer (line : Text)

namespace Constituent

def command? : Constituent → Option Text
  | bare _ | quoted _ => none
  | inner line | outer line => some line

/-- What is written for a constituent. If it is a command, that depends on its output. -/
def glyphs (output : List Text) : Constituent → List Glyph
  | bare text => text.map .bare
  | quoted text => Glyph.shield text
  | inner _ => Glyph.shield (flattenOutput output)
  | outer _ => [Glyph.mark].intercalate ((outputWords output).map Glyph.shield)

/-- What is written for a row of constituents whose commands have these outputs. -/
def allGlyphs : List Constituent → List (List Text) → List Glyph
  | [], _ => []
  | part :: rest, outputs =>
    match part.command? with
    | none => part.glyphs [] ++ allGlyphs rest outputs
    | some _ => part.glyphs (outputs.headD []) ++ allGlyphs rest outputs.tail

end Constituent

def Segment.constituent : Segment → Constituent
  | plain text => .quoted text
  | command line => .inner line

/-- The constituents of a piece of an argument. -/
def Token.constituents (piece : Token) : List Constituent :=
  match piece.kind with
  | .singleQuoted => [.quoted (unquoted piece.text)]
  | .doubleQuoted => (Segment.ofText piece.text).map Segment.constituent
  | .backQuoted => [.outer (unquoted piece.text)]
  | _ => [.bare piece.text]

namespace Derivation.Argument

def constituents (argument : Argument) : List Constituent :=
  argument.pieces.flatMap Token.constituents

/-- The commands in back quotes, from left to right. -/
def commands (argument : Argument) : List Text :=
  argument.constituents.filterMap Constituent.command?

/-- The words that an argument stands for if its commands have these outputs, glyph by glyph. -/
def words (argument : Argument) (outputs : List (List Text)) : List (List Glyph) :=
  Glyph.words (Constituent.allGlyphs argument.constituents outputs)

end Derivation.Argument

namespace Evaluator

variable (substitute : Substitute)

/-- Runs a constituent if it is a command, and gives what is written for it. -/
def readConstituent (part : Constituent) : Action (List Glyph) :=
  match part.command? with
  | none => pure (part.glyphs [])
  | some line => return part.glyphs (← substitute line)

theorem readConstituent_segment (segment : Segment) :
    readConstituent substitute segment.constituent =
      Glyph.shield <$> segmentText substitute segment := by
  cases segment <;> simp [readConstituent, Segment.constituent, Constituent.command?,
    Constituent.glyphs, segmentText]

theorem mapM_readConstituent_segments (segments : List Segment) :
    segments.mapM (readConstituent substitute ∘ Segment.constituent) =
      List.map Glyph.shield <$> segments.mapM (segmentText substitute) := by
  induction segments with
  | nil => simp
  | cons segment rest inductionHypothesis =>
    simp [inductionHypothesis, readConstituent_segment]

/-- Adding a piece to a draft is writing its constituents. -/
theorem addPiece_ofGlyphs (glyphs : List Glyph) (piece : Token) :
    addPiece substitute (.ofGlyphs glyphs) (pieceTree piece) = (do
      let row ← piece.constituents.mapM (readConstituent substitute)
      return .ofGlyphs (glyphs ++ row.flatten)) := by
  obtain ⟨kind, text, mark⟩ := piece
  have whole : Tree.textAll [.leaf ⟨kind, text, mark⟩] = text := by simp [Tree.textAll, Tree.text]
  cases kind with
  | singleQuoted =>
    simp [addPiece, pieceTree, Kind.isQuoted, Tree.isNode, quotedWords, Tree.children, Tree.isToken,
      Tree.text, whole, Token.constituents, readConstituent, Constituent.command?,
      Constituent.glyphs, Draft.addWords_ofGlyphs]
  | doubleQuoted =>
    simp [addPiece, pieceTree, Kind.isQuoted, Tree.isNode, quotedWords, Tree.children, Tree.isToken,
      Tree.text, whole, Token.constituents, mapM_readConstituent_segments,
      Draft.addWords_ofGlyphs, Glyph.shield_flatten]
  | backQuoted =>
    simp [addPiece, pieceTree, Kind.isQuoted, Tree.isNode, quotedWords, Tree.children, Tree.isToken,
      Tree.text, whole, Token.constituents, readConstituent, Constituent.command?,
      Constituent.glyphs, Draft.addWords_ofGlyphs, blankWords_flattenOutput]
  | _ =>
    simp [addPiece, pieceTree, Kind.isQuoted, Tree.isNode, Tree.text, Token.constituents,
      readConstituent, Constituent.command?, Constituent.glyphs, Draft.addText_ofGlyphs]

theorem foldlM_addPiece_ofGlyphs (pieces : List Token) (glyphs : List Glyph) :
    (pieces.map pieceTree).foldlM (addPiece substitute) (.ofGlyphs glyphs) = (do
      let row ← (pieces.flatMap Token.constituents).mapM (readConstituent substitute)
      return .ofGlyphs (glyphs ++ row.flatten)) := by
  induction pieces generalizing glyphs with
  | nil => simp
  | cons piece rest inductionHypothesis =>
    rw [List.map_cons, List.foldlM_cons, addPiece_ofGlyphs, List.flatMap_cons, List.mapM_append]
    simp [inductionHypothesis]

/-- The commands can be run first, and everything written when their outputs are known. -/
theorem mapM_readConstituent (parts : List Constituent) :
    List.flatten <$> parts.mapM (readConstituent substitute) =
      Constituent.allGlyphs parts <$> (parts.filterMap Constituent.command?).mapM substitute := by
  induction parts with
  | nil => simp [Constituent.allGlyphs]
  | cons part rest inductionHypothesis =>
    cases command : part.command? with
    | none =>
      have further := congrArg ((part.glyphs [] ++ ·) <$> ·) inductionHypothesis
      rw [List.filterMap_cons_none command]
      simpa [readConstituent, command, Constituent.allGlyphs] using further
    | some line =>
      have further (output : List Text) :=
        congrArg ((part.glyphs output ++ ·) <$> ·) inductionHypothesis
      rw [List.filterMap_cons_some command]
      simpa [readConstituent, command, Constituent.allGlyphs] using
        congrArg (substitute line >>= ·) (funext further)

/-- The words of an argument, once its commands have been run: those that hold a bare star are
replaced by the names of files, one position after the other. -/
theorem argumentWords_eq (argument : Argument) :
    argumentWords substitute (argument.pieces.map pieceTree) = (do
      let outputs ← argument.commands.mapM substitute
      (Glyph.starOrder (argument.words outputs)).foldlM expandAt
        ((argument.words outputs).map Glyph.textOf)) := by
  have written := mapM_readConstituent substitute argument.constituents
  let expanded (glyphs : List Glyph) : Action (List Text) :=
    (Slots.order (Draft.ofGlyphs glyphs).starred).foldlM expandAt (Draft.ofGlyphs glyphs).words
  calc argumentWords substitute (argument.pieces.map pieceTree)
    _ = (List.flatten <$> argument.constituents.mapM (readConstituent substitute)) >>=
          expanded := by
        rw [argumentWords, ← Draft.ofGlyphs_nil, foldlM_addPiece_ofGlyphs]
        simp [expanded, Argument.constituents]
    _ = _ := by
        rw [written]
        simp [expanded, Draft.words_ofGlyphs, Draft.starred_ofGlyphs, Glyph.starOrder,
          Argument.words, Argument.commands]

end Evaluator

/-! ### Arguments without bare stars -/

/-- A bare glyph comes from bare text and never from the output of a command. -/
theorem Constituent.bare_mem_allGlyphs {parts : List Constituent} {outputs : List (List Text)}
    {character : Char} (member : .bare character ∈ allGlyphs parts outputs) :
    ∃ text, .bare text ∈ parts ∧ character ∈ text := by
  have single (part : Constituent) (output : List Text)
      (inPart : .bare character ∈ part.glyphs output) :
      ∃ text, part = .bare text ∧ character ∈ text := by
    cases part with
    | bare text => exact ⟨text, rfl, by simpa [glyphs] using inPart⟩
    | quoted text => simp [glyphs, Glyph.shield] at inPart
    | inner line => simp [glyphs, Glyph.shield] at inPart
    | outer line => exact absurd inPart (Glyph.bare_notMem_intercalate _ _)
  induction parts generalizing outputs with
  | nil => exact absurd member List.not_mem_nil
  | cons part rest inductionHypothesis =>
    -- An output is used up or not, depending on the part, but no output holds a bare glyph.
    have split : (∃ output, .bare character ∈ part.glyphs output) ∨
        ∃ others, .bare character ∈ allGlyphs rest others := by
      rw [allGlyphs] at member
      split at member <;> rcases List.mem_append.mp member with inPart | inRest
      · exact Or.inl ⟨_, inPart⟩
      · exact Or.inr ⟨_, inRest⟩
      · exact Or.inl ⟨_, inPart⟩
      · exact Or.inr ⟨_, inRest⟩
    rcases split with ⟨output, inPart⟩ | ⟨others, inRest⟩
    · obtain ⟨text, rfl, inText⟩ := single part output inPart
      exact ⟨text, List.mem_cons_self, inText⟩
    · obtain ⟨text, isPart, inText⟩ := inductionHypothesis inRest
      exact ⟨text, List.mem_cons_of_mem _ isPart, inText⟩

theorem Token.bare_mem_constituents {piece : Token} (isPiece : piece.kind.isPiece = true)
    {text : Text} (member : .bare text ∈ piece.constituents) :
    piece.kind = .unquoted ∧ text = piece.text := by
  obtain ⟨kind, pieceText, mark⟩ := piece
  cases kind with
  | unquoted => exact ⟨rfl, by simpa [constituents] using member⟩
  | singleQuoted => simp [constituents] at member
  | backQuoted => simp [constituents] at member
  | doubleQuoted =>
    obtain ⟨segment, _, same⟩ := List.mem_map.mp member
    cases segment <;> simp [Segment.constituent] at same
  | _ => exact absurd isPiece Bool.false_ne_true

/-- A bare star in the words of an argument is one of its text without quotes. -/
theorem Derivation.Argument.tame_words {argument : Argument}
    (tame : ∀ piece ∈ argument.pieces, piece.kind = .unquoted → '*' ∉ piece.text)
    (outputs : List (List Text)) :
    (argument.words outputs).findIdxs Glyph.isWild = [] := by
  refine List.findIdxs_eq_nil_iff.mpr fun word isWord => Bool.eq_false_iff.mpr fun wild => ?_
  have star : .bare '*' ∈ word := by simpa [Glyph.isWild] using wild
  obtain ⟨text, isPart, inText⟩ :=
    Constituent.bare_mem_allGlyphs (Glyph.mem_of_mem_words isWord star)
  obtain ⟨piece, isPiece, inPiece⟩ := List.mem_flatMap.mp isPart
  obtain ⟨unquoted, rfl⟩ := Token.bare_mem_constituents (argument.arePieces piece isPiece) inPiece
  exact tame piece isPiece unquoted inText

/-- An argument without bare stars stands for what is written for its pieces, cut at the marks: text
without quotes and quoted text stand for themselves, and a command in back quotes stands for the
words of its output, with marks between them. The commands are run from left to right, each of them
once, and the words are added to the call that is being read. -/
theorem Evaluator.visit_spliced (substitute : Substitute) (argument : Argument)
    (tame : ∀ piece ∈ argument.pieces, piece.kind = .unquoted → '*' ∉ piece.text) :
    visit substitute argument.tree = (do
      let outputs ← act (argument.commands.mapM substitute)
      addWords ((argument.words outputs).map Glyph.textOf)) := by
  have read : argumentWords substitute (argument.pieces.map pieceTree) =
      (fun outputs => (argument.words outputs).map Glyph.textOf) <$>
        argument.commands.mapM substitute := by
    simp [argumentWords_eq, Glyph.starOrder, argument.tame_words tame]
  rw [visit_argument, read]
  funext evaluation
  show Evaluator.start _ evaluation = Evaluator.start _ evaluation
  rw [start_bind, start_bind, start_act, start_act, Action.start_map]
  rcases (argument.commands.mapM substitute).start evaluation.session with
    ⟨fault | outputs, after⟩ <;> rfl

/-- The argument `a`b`'*'"`b`"`. -/
def splicedArgument : Argument where
  pieces :=
    [⟨.unquoted, ['a'], ⟨0, 1, 0⟩⟩, ⟨.backQuoted, "`b`".toList, ⟨1, 1, 1⟩⟩,
      ⟨.singleQuoted, "'*'".toList, ⟨4, 1, 4⟩⟩, ⟨.doubleQuoted, "\"`b`\"".toList, ⟨7, 1, 7⟩⟩]
  nonempty := List.cons_ne_nil _ _
  arePieces := by decide

/-- The first word of an output is joined to what stands before it, and the last word to what stands
behind it. Between double quotes an output is not cut. -/
theorem Evaluator.visit_spliced_words :
    (∀ piece ∈ splicedArgument.pieces, piece.kind = .unquoted → '*' ∉ piece.text) ∧
    splicedArgument.commands = [['b'], ['b']] ∧
    visit (fun _ => pure [" x  y\nz \n".toList]) splicedArgument.tree =
      addWords ["ax".toList, ['y'], "z* x  y z".toList] := by
  have tame : ∀ piece ∈ splicedArgument.pieces, piece.kind = .unquoted → '*' ∉ piece.text := by
    decide
  have commands : splicedArgument.commands = [['b'], ['b']] := by decide
  refine ⟨tame, commands, ?_⟩
  rw [visit_spliced _ _ tame, commands]
  rfl

end MiniShell
