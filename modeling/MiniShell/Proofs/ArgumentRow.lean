/-
This file reads lines that are rows of arguments. Tokens that are written end
to end are cut apart again if and only if each of them is the longest token
where it stands, and then no text is dropped. So a row of arguments with blanks
between them is read without a report, as one call with exactly these
arguments.

The condition runs along the row: an item in front asks only whether it is the
longest token before what follows it. So a row is built up from its end on.
-/

import MiniShell.Proofs.Lexing
import MiniShell.Proofs.Series
import MiniShell.Proofs.Tiling

namespace MiniShell

open MiniShell.Derivation

/-! ### Tokens end to end -/

/-- The text of tokens that are written end to end. -/
def textOf (items : List Spelling) : Text := items.flatMap Prod.snd

@[simp] theorem textOf_nil : textOf [] = [] := rfl

@[simp] theorem textOf_cons (item : Spelling) (rest : List Spelling) :
    textOf (item :: rest) = item.2 ++ textOf rest := List.flatMap_cons

@[simp] theorem textOf_append (items others : List Spelling) :
    textOf (items ++ others) = textOf items ++ textOf others := List.flatMap_append

/-- Each token is the longest one where it stands. -/
def Fits : List Spelling → Prop
  | [] => True
  | item :: rest => LongestToken item.1 item.2 (item.2 ++ textOf rest) ∧ Fits rest

/-- The lexemes of tokens that are written end to end from a position on. -/
def placed (mark : Mark) : List Spelling → List Lexeme
  | [] => []
  | item :: rest => ⟨some item.1, item.2, mark⟩ :: placed (mark.after item.2) rest

theorem spellings_placed (mark : Mark) (items : List Spelling) :
    spellings (placed mark items) = items := by
  induction items generalizing mark with
  | nil => rfl
  | cons item rest inductionHypothesis => rw [placed, spellings_cons, inductionHypothesis]

theorem complaints_placed (mark : Mark) (items : List Spelling) :
    (placed mark items).filterMap Lexeme.complaint? = [] := by
  induction items generalizing mark with
  | nil => rfl
  | cons item rest inductionHypothesis => exact inductionHypothesis _

theorem Fits.tiling {items : List Spelling} (fits : Fits items) (mark : Mark) :
    Tiling mark (textOf items) (placed mark items) := by
  induction items generalizing mark with
  | nil => exact .nil mark
  | cons item rest inductionHypothesis =>
    rw [textOf_cons, placed]
    exact .cons fits.1 (inductionHypothesis fits.2 _)

theorem spellings_dropped (text : Text) (mark : Mark) (rest : List Lexeme) :
    spellings (⟨none, text, mark⟩ :: rest) = spellings rest := rfl

theorem Tiling.length_spellings {mark : Mark} {line : Text} {lexemes : List Lexeme}
    (tiling : Tiling mark line lexemes) : (textOf (spellings lexemes)).length ≤ line.length := by
  induction tiling with
  | nil => exact Nat.le_refl _
  | @cons mark kind text rest lexemes cut others inductionHypothesis =>
    cases kind with
    | none =>
      rw [spellings_dropped, List.length_append]
      omega
    | some kind =>
      rw [spellings_cons, textOf_cons, List.length_append, List.length_append]
      exact Nat.add_le_add_left inductionHypothesis _

/-- Where the tokens make up the whole text, none of it is dropped. -/
theorem Tiling.fits {mark : Mark} {line : Text} {lexemes : List Lexeme}
    (tiling : Tiling mark line lexemes) (whole : textOf (spellings lexemes) = line) :
    Fits (spellings lexemes) := by
  induction tiling with
  | nil => trivial
  | @cons mark kind text rest lexemes cut others inductionHypothesis =>
    cases kind with
    | none =>
      have length := congrArg List.length whole
      rw [spellings_dropped, List.length_append] at length
      have shorter := others.length_spellings
      have nonempty := List.length_pos_of_ne_nil (Dropped.nonempty cut)
      omega
    | some kind =>
      rw [spellings_cons, textOf_cons] at whole
      have remaining := List.append_cancel_left whole
      rw [spellings_cons]
      refine ⟨?_, inductionHypothesis remaining⟩
      rw [remaining]
      exact cut

theorem Fits.lexemes {items : List Spelling} (fits : Fits items) :
    Lexeme.ofLine (textOf items) = placed Mark.start items :=
  (cut_tiling _ _ _ (Nat.le_refl _)).unique (fits.tiling Mark.start)

/-- Tokens written end to end are cut apart again if and only if each is the longest one where it
stands. -/
theorem ofLine_textOf_iff (items : List Spelling) :
    (Token.ofLine (textOf items)).map Token.spelling = items ↔ Fits items := by
  constructor
  · intro spelled
    have tiling : Tiling Mark.start (textOf items) (Lexeme.ofLine (textOf items)) :=
      cut_tiling _ _ _ (Nat.le_refl _)
    have same : spellings (Lexeme.ofLine (textOf items)) = items := spelled
    rw [← same]
    exact tiling.fits (by rw [same])
  · intro fits
    show spellings (Lexeme.ofLine (textOf items)) = items
    rw [fits.lexemes, spellings_placed]

/-- Then nothing is reported about the text. -/
theorem Fits.recognised {items : List Spelling} (fits : Fits items) :
    Report.ofLexemes 0 (Lexeme.ofLine (textOf items)) = [] := by
  rw [← List.map_eq_nil_iff, ofLexemes_reports, fits.lexemes, complaints_placed]

/-- A run of characters is the longest token where it stands if no further one of them follows. -/
theorem run_longest {kind : Kind} {allowed : Char → Bool}
    (begins : ∀ first, allowed first = true → Kind.ofFirst first = some kind)
    (notAngle : kind ≠ .greater)
    (run : ∀ text, text ∈ kind.language ↔
      text ≠ [] ∧ ∀ character ∈ text, allowed character = true)
    {text behind : Text} (member : text ∈ kind.language)
    (stops : ∀ first ∈ behind.head?, allowed first = false) :
    LongestToken kind text (text ++ behind) := by
  obtain ⟨nonempty, all⟩ := (run text).mp member
  obtain ⟨first, tail, rfl⟩ := List.exists_cons_of_ne_nil nonempty
  have ends : behind.takeWhile allowed = [] := by
    cases behind with
    | nil => rfl
    | cons next rest => exact List.takeWhile_cons_of_neg (by simp [stops next rfl])
  -- Everything in the text is allowed, and what stops the run comes right behind it.
  have taken : (tail ++ behind).takeWhile allowed = tail := by
    rw [List.takeWhile_append_of_pos fun character inTail => all character (by simp [inTail]),
      ends, List.append_nil]
  have isAllowed : allowed first = true := all first (by simp)
  have cut := @cut_run first (tail ++ behind) kind allowed (begins first isAllowed) notAngle
    isAllowed run
  rw [taken] at cut
  exact cut

theorem blank_longest {text behind : Text} (member : text ∈ Kind.blank.language)
    (stops : ∀ first ∈ behind.head?, Lexeme.isBlank first = false) :
    LongestToken .blank text (text ++ behind) :=
  run_longest (fun _ => ofFirst_blank) (by decide) (fun _ => mem_blank) member stops

/-! ### Rows of arguments -/

/-- Pieces of text side by side, as they are written for one argument. -/
structure Written where
  pieces : List Spelling
  nonempty : pieces ≠ []
  arePieces : ∀ piece ∈ pieces, piece.1.isPiece = true

/-- Arguments with a blank before each one but the first. -/
structure Row where
  first : Written
  later : List (Text × Written)

namespace Row

/-- The tokens of the arguments after the first, with the blanks before them. -/
def laterItems (later : List (Text × Written)) : List Spelling :=
  later.flatMap fun entry => (.blank, entry.1) :: entry.2.pieces

theorem laterItems_cons (entry : Text × Written) (rest : List (Text × Written)) :
    laterItems (entry :: rest) = (.blank, entry.1) :: (entry.2.pieces ++ laterItems rest) := by
  rw [laterItems, List.flatMap_cons, List.cons_append]
  rfl

/-- The tokens of a row. -/
def items (row : Row) : List Spelling := row.first.pieces ++ laterItems row.later

/-- The pieces of each argument. -/
def arguments (row : Row) : List (List Spelling) :=
  row.first.pieces :: row.later.map fun entry => entry.2.pieces

end Row

/-- The pieces that an argument is made of. -/
def Derivation.Argument.spelling (argument : Argument) : List Spelling :=
  argument.pieces.map Token.spelling

theorem pieceTree_text (token : Token) : (pieceTree token).text = token.text := by
  rw [pieceTree]
  split
  · exact List.append_nil _
  · rfl

/-- A call of arguments without redirections. -/
def rowCall (first : Argument) (later : List (Blank × Argument)) : Call where
  lead := none
  leading := []
  first := first
  atoms := later.map fun entry => (some entry.1, .argument entry.2)
  trail := none

theorem rowCall_tight (first : Argument) (later : List (Blank × Argument)) :
    (rowCall first later).Tight := by
  intro entry member noBlank
  obtain ⟨_, _, rfl⟩ := List.mem_map.mp member
  exact absurd noBlank (by simp)

/-- The tokens of the arguments after the first, with the blanks before them. -/
def rowTokens (later : List (Blank × Argument)) : List Token :=
  later.flatMap fun entry => entry.1.val :: entry.2.tokens

theorem rowCall_tokens (first : Argument) (later : List (Blank × Argument)) :
    (rowCall first later).tokens = first.tokens ++ rowTokens later := by
  have atoms : atomTokens (rowCall first later).atoms = rowTokens later := by
    rw [atomTokens, rowCall, List.flatMap_map]
    rfl
  rw [Call.tokens, atoms]
  simp [rowCall]

theorem exists_argument (written : Written) {tokens : List Token}
    (spelled : tokens.map Token.spelling = written.pieces) :
    ∃ argument : Argument, argument.tokens = tokens ∧ argument.spelling = written.pieces := by
  refine ⟨⟨tokens, ?_, fun piece member => ?_⟩, rfl, spelled⟩
  · rintro rfl
    exact written.nonempty spelled.symm
  · exact written.arePieces piece.spelling (spelled ▸ List.mem_map_of_mem member)

/-- The tokens of a row are derived as arguments with blanks before them. -/
theorem exists_arguments (later : List (Text × Written)) {tokens : List Token}
    (spelled : tokens.map Token.spelling = Row.laterItems later) :
    ∃ arguments : List (Blank × Argument), rowTokens arguments = tokens ∧
      arguments.map (fun entry => entry.2.spelling) = later.map fun entry => entry.2.pieces := by
  induction later generalizing tokens with
  | nil => exact ⟨[], (List.map_eq_nil_iff.mp spelled).symm, rfl⟩
  | cons entry rest inductionHypothesis =>
    rw [Row.laterItems_cons] at spelled
    obtain ⟨blank, further, rfl, blankSpelled, further⟩ := List.map_eq_cons_iff.mp spelled
    obtain ⟨front, back, rfl, frontSpelled, backSpelled⟩ := List.map_eq_append_iff.mp further
    obtain ⟨argument, rfl, pieces⟩ := exists_argument entry.2 frontSpelled
    obtain ⟨arguments, rfl, others⟩ := inductionHypothesis backSpelled
    have isBlank : blank.kind = .blank := congrArg Prod.fst blankSpelled
    refine ⟨(⟨blank, isBlank⟩, argument) :: arguments, ?_, ?_⟩
    · rw [rowTokens, List.flatMap_cons, List.cons_append]
      rfl
    · rw [List.map_cons, List.map_cons, pieces, others]

/-- A line whose tokens fit and are derived by one tight call is read to its end and without a
report, as that call. -/
theorem readLine_call {items : List Spelling} (fits : Fits items) {call : Call} (tight : call.Tight)
    (tokens : Token.ofLine (textOf items) = call.tokens) :
    (readLine (textOf items) .command 0).reports = [] ∧
    (readLine (textOf items) .command 0).unread = [] ∧
    (readLine (textOf items) .command 0).tree = (Command.call call).tree := by
  have derivable : Derivable (Token.ofLine (textOf items)) := ⟨.call call, tokens.symm⟩
  obtain ⟨quiet, unread⟩ := quiet_of_derivable derivable
  refine ⟨reports_nil ?_ ?_, unread, ?_⟩
  · rw [fits.recognised]
    rfl
  · rw [(quiet_iff _).mp quiet]
    rfl
  · let series : Series := ⟨⟨call, []⟩, []⟩
    have seriesTight : series.Tight :=
      ⟨⟨tight, fun _ member => absurd member (by simp [series])⟩,
        fun _ member => absurd member (by simp [series])⟩
    refine readLine_series seriesTight ?_
    rw [tokens, Series.tokens, Chain.tokens, Chain.laterTokens, Series.laterTokens,
      List.append_nil, List.append_nil]

/-- A row of arguments whose tokens fit is read to its end and without a report, as one call with
exactly these arguments. -/
theorem readLine_row (row : Row) (fits : Fits row.items) :
    (readLine (textOf row.items) .command 0).reports = [] ∧
    (readLine (textOf row.items) .command 0).unread = [] ∧
    ∃ first later, (readLine (textOf row.items) .command 0).tree =
        (Command.call (rowCall first later)).tree ∧
      first.spelling :: later.map (fun entry => entry.2.spelling) = row.arguments := by
  obtain ⟨front, back, tokens, frontSpelled, backSpelled⟩ :=
    List.map_eq_append_iff.mp ((ofLine_textOf_iff row.items).mpr fits)
  obtain ⟨first, rfl, firstPieces⟩ := exists_argument row.first frontSpelled
  obtain ⟨later, rfl, laterPieces⟩ := exists_arguments row.later backSpelled
  rw [← rowCall_tokens] at tokens
  obtain ⟨reports, unread, tree⟩ := readLine_call fits (rowCall_tight first later) tokens
  refine ⟨reports, unread, first, later, tree, ?_⟩
  rw [firstPieces, laterPieces, Row.arguments]

end MiniShell
