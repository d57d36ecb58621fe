/-
This file cuts lines whose tokens are separated by single spaces. A word
without special characters and every operator is cut off as one token if a
space or the end of the line follows, and a space is a token by itself if no
other blank follows. So the tokens of such a line are the ones it was put
together from, with a blank between neighbours.

This is enough for lines that are written with single spaces. Lines in which
tokens stand side by side need the rule of the longest match, which is treated
by itself.
-/

import MiniShell.Token.Lexer

namespace MiniShell

/-! ### Single tokens -/

/-- The kind and the text of a token. -/
abbrev Spelling := Kind × Text

def Token.spelling (token : Token) : Spelling := (token.kind, token.text)

/-- A single space between two tokens. -/
def space : Spelling := (.blank, [' '])

/-- The token is cut off as a whole where the given text follows it. -/
def CutsOff (item : Spelling) (behind : Text) : Prop :=
  ∃ first tail, item.2 = first :: tail ∧
    Lexeme.measure first (tail ++ behind) = (some item.1, tail.length)

/-- Where a token ends: before a space or at the end of the line. -/
def SpacedOff (text : Text) : Prop := text = [] ∨ ∃ rest, text = ' ' :: rest

/-- A token that does not begin with a blank and is cut off before a space. -/
structure Solid (item : Spelling) : Prop where
  begins : ∃ first tail, item.2 = first :: tail ∧ Lexeme.isBlank first = false
  cutsOff : ∀ behind, SpacedOff behind → CutsOff item behind

theorem cut_cutsOff {item : Spelling} {behind : Text} (cutsOff : CutsOff item behind)
    (fuel : Nat) (mark : Mark) :
    Lexeme.cut (fuel + 1) mark (item.2 ++ behind) =
      ⟨some item.1, item.2, mark⟩ :: Lexeme.cut fuel (mark.after item.2) behind := by
  obtain ⟨first, tail, text, measured⟩ := cutsOff
  rw [text, List.cons_append, Lexeme.cut, measured]
  simp

theorem space_cutsOff {behind : Text}
    (begins : ∃ first tail, behind = first :: tail ∧ Lexeme.isBlank first = false) :
    CutsOff space behind := by
  obtain ⟨first, tail, rfl, notBlank⟩ := begins
  refine ⟨' ', [], rfl, ?_⟩
  have isSpace : Lexeme.isBlank ' ' = true := rfl
  simp [Lexeme.measure, isSpace, space, notBlank]

/-! ### Kinds of tokens -/

theorem operator_solid {item : Spelling}
    (isOperator : item = (.semicolon, [';']) ∨ item = (.bar, ['|']) ∨ item = (.less, ['<']) ∨
      item = (.greater, ['>']) ∨ item = (.doubleGreater, ['>', '>'])) : Solid item := by
  rcases isOperator with rfl | rfl | rfl | rfl | rfl
  · exact ⟨⟨';', [], rfl, rfl⟩, fun behind _ => ⟨';', [], rfl, by simp [Lexeme.measure]⟩⟩
  · exact ⟨⟨'|', [], rfl, rfl⟩, fun behind _ => ⟨'|', [], rfl, by simp [Lexeme.measure]⟩⟩
  · exact ⟨⟨'<', [], rfl, rfl⟩, fun behind _ => ⟨'<', [], rfl, by simp [Lexeme.measure]⟩⟩
  · refine ⟨⟨'>', [], rfl, rfl⟩, fun behind spaced => ⟨'>', [], rfl, ?_⟩⟩
    rcases spaced with rfl | ⟨rest, rfl⟩
    · rfl
    · simp [Lexeme.measure]
  · exact ⟨⟨'>', ['>'], rfl, rfl⟩, fun behind _ => ⟨'>', ['>'], rfl, by simp [Lexeme.measure]⟩⟩

theorem takeWhile_plain {text behind : Text}
    (plain : ∀ character ∈ text, Lexeme.isPlain character = true) (spaced : SpacedOff behind) :
    (text ++ behind).takeWhile Lexeme.isPlain = text := by
  rw [List.takeWhile_append_of_pos plain]
  rcases spaced with rfl | ⟨rest, rfl⟩
  · simp
  · rw [List.takeWhile_cons_of_neg (by decide), List.append_nil]

theorem word_solid {text : Text} (nonempty : text ≠ [])
    (plain : ∀ character ∈ text, Lexeme.isPlain character = true) : Solid (.unquoted, text) := by
  cases text with
  | nil => exact absurd rfl nonempty
  | cons first tail =>
    have firstPlain := plain first (by simp)
    simp [Lexeme.isPlain] at firstPlain
    refine ⟨⟨first, tail, rfl, by simp [firstPlain]⟩,
      fun behind spaced => ⟨first, tail, rfl, ?_⟩⟩
    have run := takeWhile_plain (fun other member => plain other (List.mem_cons_of_mem _ member))
      spaced
    simp [Lexeme.measure, run, firstPlain]

/-! ### Whole lines -/

/-- The text of tokens with a space before each of them. -/
def spacedText (items : List Spelling) : Text := items.flatMap fun item => ' ' :: item.2

/-- The tokens with a blank before each of them. -/
def spacedTokens (items : List Spelling) : List Spelling := items.flatMap fun item => [space, item]

@[simp] theorem spacedText_append (items others : List Spelling) :
    spacedText (items ++ others) = spacedText items ++ spacedText others :=
  List.flatMap_append

@[simp] theorem spacedTokens_append (items others : List Spelling) :
    spacedTokens (items ++ others) = spacedTokens items ++ spacedTokens others :=
  List.flatMap_append

theorem spacedText_spacedOff (items : List Spelling) : SpacedOff (spacedText items) := by
  cases items with
  | nil => exact Or.inl rfl
  | cons item rest => exact Or.inr ⟨_, rfl⟩

/-- The kinds and texts of the tokens among lexemes. -/
def spellings (lexemes : List Lexeme) : List Spelling :=
  (lexemes.filterMap Lexeme.token?).map Token.spelling

theorem spellings_cons (kind : Kind) (text : Text) (mark : Mark) (rest : List Lexeme) :
    spellings (⟨some kind, text, mark⟩ :: rest) = (kind, text) :: spellings rest := rfl

/-- Solid tokens with single spaces between them are cut apart again. -/
theorem spellings_spaced {items : List Spelling} (solid : ∀ item ∈ items, Solid item)
    {fuel : Nat} (enough : (spacedText items).length ≤ fuel) (mark : Mark) :
    spellings (Lexeme.cut fuel mark (spacedText items)) = spacedTokens items := by
  induction items generalizing fuel mark with
  | nil => cases fuel <;> rfl
  | cons item rest inductionHypothesis =>
    have itemSolid := solid item (by simp)
    obtain ⟨first, tail, text, notBlank⟩ := itemSolid.begins
    have length : (spacedText (item :: rest)).length =
        1 + item.2.length + (spacedText rest).length := by
      simp [spacedText]
      omega
    have nonempty : 1 ≤ item.2.length := by simp [text]
    obtain ⟨less, rfl⟩ : ∃ less, fuel = less + 2 := ⟨fuel - 2, by omega⟩
    have unfolded : spacedText (item :: rest) = space.2 ++ (item.2 ++ spacedText rest) := rfl
    have spaceOff : CutsOff space (item.2 ++ spacedText rest) :=
      space_cutsOff ⟨first, tail ++ spacedText rest, by simp [text], notBlank⟩
    rw [unfolded, cut_cutsOff spaceOff, spellings_cons,
      cut_cutsOff (itemSolid.cutsOff _ (spacedText_spacedOff rest)), spellings_cons,
      inductionHypothesis (fun other member => solid other (List.mem_cons_of_mem _ member))
        (by omega)]
    rfl

/-- A line of tokens with single spaces between them is cut into these tokens. -/
theorem ofLine_spaced {item : Spelling} {items : List Spelling} (first : Solid item)
    (solid : ∀ other ∈ items, Solid other) :
    (Token.ofLine (item.2 ++ spacedText items)).map Token.spelling =
      item :: spacedTokens items := by
  obtain ⟨character, tail, text, _⟩ := first.begins
  have nonempty : 1 ≤ item.2.length := by simp [text]
  obtain ⟨fuel, length⟩ : ∃ fuel, (item.2 ++ spacedText items).length = fuel + 1 :=
    ⟨(item.2 ++ spacedText items).length - 1, by rw [List.length_append]; omega⟩
  have cutOff : CutsOff item (spacedText items) :=
    first.cutsOff _ (spacedText_spacedOff items)
  show spellings (Lexeme.cut _ _ _) = _
  rw [length, cut_cutsOff cutOff, spellings_cons, spellings_spaced solid]
  rw [List.length_append] at length
  omega

end MiniShell
