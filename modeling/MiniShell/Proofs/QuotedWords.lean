/-
This file is about words in double quotes that stand side by side on a line. A
back quote between double quotes can be read in two ways: as one of a pair that
encloses a command, in which double quotes are ordinary, or as an ordinary
character itself. The longest token wins, so the second back quote of a pair
may open a command that reaches beyond the closing quote, into the next word
and up to a back quote there. Two words are cut apart if the first of them
holds no command, or a double quote in its last one, or if no back quote
follows it on the line. The file proves that nothing else matters.
-/

import MiniShell.Proofs.ArgumentRow
import MiniShell.Proofs.Rendering

namespace MiniShell

open MiniShell.Derivation

/-! ### Words -/

/-- Text between double quotes that stands for itself. -/
structure Literal where
  text : Text
  ordinary : ∀ character ∈ text, character ∉ ['\n', '"', '`']

/-- A command in back quotes and the text behind it. -/
structure Interpolation where
  command : Text
  inside : ∀ character ∈ command, character ∉ ['\n', '`']
  behind : Literal

/-- A word in double quotes. -/
structure QuotedWord where
  literal : Literal
  interpolations : List Interpolation

def Interpolation.text (part : Interpolation) : Text :=
  '`' :: (part.command ++ '`' :: part.behind.text)

namespace QuotedWord

/-- What stands between the double quotes. -/
def body (word : QuotedWord) : Text :=
  word.literal.text ++ word.interpolations.flatMap Interpolation.text

def text (word : QuotedWord) : Text := '"' :: (word.body ++ ['"'])

/-- The token of a word. -/
def item (word : QuotedWord) : Spelling := (.doubleQuoted, word.text)

end QuotedWord

/-- Whether the second back quote can open another command as well: no double quote has told the
two readings apart. -/
def Interpolation.staysOpen (part : Interpolation) : Bool := '"' ∉ part.command

/-- Whether one reading of the word goes on behind its closing quote. -/
def QuotedWord.staysOpen (word : QuotedWord) : Bool :=
  word.interpolations.getLast?.elim false Interpolation.staysOpen

/-! ### Reading a word -/

theorem Scans.append_ordinary {read run : Text} {plain inner : Bool}
    (scans : Scans read plain inner) (ordinary : ∀ character ∈ run, character ∉ ['\n', '"', '`']) :
    Scans (read ++ run) plain inner := by
  induction run generalizing read with
  | nil => simpa using scans
  | cons character rest inductionHypothesis =>
    have next : Scans (read ++ [character]) plain inner := by
      have isOrdinary := ordinary character (by simp)
      simp only [List.mem_cons, List.not_mem_nil, not_or] at isOrdinary
      simpa [isOrdinary] using scans.next character
    rw [List.append_cons]
    exact inductionHypothesis next fun other member => ordinary other (by simp [member])

/-- Inside a command a double quote ends the reading in which the back quote before it was an
ordinary character. -/
theorem Scans.append_inside {read run : Text} {plain : Bool} (scans : Scans read plain true)
    (inside : ∀ character ∈ run, character ∉ ['\n', '`']) :
    Scans (read ++ run) (plain && '"' ∉ run) true := by
  induction run generalizing read plain with
  | nil => simpa using scans
  | cons character rest inductionHypothesis =>
    have next : Scans (read ++ [character]) (plain && '"' ≠ character) true := by
      have isInside := inside character (by simp)
      simp only [List.mem_cons, List.not_mem_nil, not_or] at isInside
      simpa [isInside, eq_comm] using scans.next character
    have further := inductionHypothesis next fun other member => inside other (by simp [member])
    rw [List.append_cons]
    simpa [Bool.and_assoc] using further

theorem Scans.append_interpolation {read : Text} {inner : Bool} (scans : Scans read true inner)
    (part : Interpolation) : Scans (read ++ part.text) true part.staysOpen := by
  have opened : Scans (read ++ ['`']) true true := by simpa using scans.next '`'
  have inside := opened.append_inside part.inside
  have closed : Scans (read ++ ['`'] ++ part.command ++ ['`']) true part.staysOpen := by
    simpa [Interpolation.staysOpen] using inside.next '`'
  have whole : read ++ part.text =
      read ++ ['`'] ++ part.command ++ ['`'] ++ part.behind.text := by
    simp [Interpolation.text]
  rw [whole]
  exact closed.append_ordinary part.behind.ordinary

theorem Scans.append_interpolations {read : Text} {inner : Bool} (scans : Scans read true inner)
    (parts : List Interpolation) :
    Scans (read ++ parts.flatMap Interpolation.text) true
      (parts.getLast?.elim inner Interpolation.staysOpen) := by
  induction parts generalizing read inner with
  | nil => simpa using scans
  | cons part rest inductionHypothesis =>
    have further := inductionHypothesis (scans.append_interpolation part)
    have last : (part :: rest).getLast?.elim inner Interpolation.staysOpen =
        rest.getLast?.elim part.staysOpen Interpolation.staysOpen := by
      rw [List.getLast?_cons]
      cases rest.getLast? <;> rfl
    rw [List.flatMap_cons, ← List.append_assoc, last]
    exact further

namespace QuotedWord

theorem body_scans (word : QuotedWord) : Scans word.body true word.staysOpen := by
  have literal := Scans.start.append_ordinary word.literal.ordinary
  rw [List.nil_append] at literal
  exact literal.append_interpolations word.interpolations

/-- Behind the closing quote the reading is over, or inside a command. -/
theorem closed_scans (word : QuotedWord) : Scans (word.body ++ ['"']) false word.staysOpen := by
  simpa using word.body_scans.next '"'

theorem body_mem (word : QuotedWord) : word.body ∈ doubleQuotedBody :=
  word.body_scans.plain.mp rfl

theorem isToken (word : QuotedWord) : word.text ∈ Kind.doubleQuoted.language :=
  mem_enclosed.mpr ⟨word.body, word.body_mem, rfl⟩

end QuotedWord

/-! ### Where a word ends -/

/-- Without a back quote no reading comes back from inside a command. -/
theorem Scans.append_notMem {read more : Text} {inner : Bool} (scans : Scans read false inner)
    (closed : inner = true → '`' ∉ more) : read ++ more ∉ doubleQuotedBody := by
  induction more generalizing read inner with
  | nil =>
    intro member
    rw [List.append_nil, ← scans.plain] at member
    exact Bool.false_ne_true member
  | cons character rest inductionHypothesis =>
    have stays : (inner && character = '`') = false := by
      cases inner with
      | false => rfl
      | true => simpa [eq_comm] using fun same => closed rfl (by simp [same])
    have next := scans.next character
    rw [stays] at next
    rw [List.append_cons]
    refine inductionHypothesis next fun inside => ?_
    have isInner : inner = true := by
      cases inner with
      | false => simp at inside
      | true => rfl
    exact fun member => closed isInner (List.mem_cons_of_mem _ member)

/-- A word in double quotes is the longest token unless its last command stays open and a back quote
follows. -/
theorem QuotedWord.longest {word : QuotedWord} {behind : Text}
    (closed : word.staysOpen = true → '`' ∉ behind) :
    LongestToken .doubleQuoted word.text (word.text ++ behind) := by
  refine longest_of_first rfl (by decide) (List.prefix_append _ _) word.isToken ?_
  intro other isPrefix member
  by_contra longer
  obtain ⟨body, isBody, rfl⟩ := closes_iff.mpr member
  rw [List.length_append, List.length_singleton] at longer
  have isBefore : word.body ++ ['"'] <+: body :=
    List.prefix_of_prefix_length_le (List.prefix_append _ _)
      ((List.prefix_append _ _).trans isPrefix) (by omega)
  obtain ⟨more, rfl⟩ := isBefore
  have isMore : more <+: behind := by
    rw [List.append_assoc] at isPrefix
    exact (List.prefix_append _ _).trans ((List.prefix_append_right_inj _).mp isPrefix)
  exact word.closed_scans.append_notMem
    (fun isOpen inMore => closed isOpen (isMore.subset inMore)) isBody

/-- Otherwise the word is swallowed by a token that ends behind the next back quote. -/
theorem QuotedWord.swallowed {word : QuotedWord} (isOpen : word.staysOpen = true) {behind : Text}
    (noFeed : '\n' ∉ behind) (ends : ∀ last ∈ behind.getLast?, last = '"')
    (backQuote : '`' ∈ behind) : ¬ LongestToken .doubleQuoted word.text (word.text ++ behind) := by
  intro token
  obtain ⟨gap, rest, rfl, first⟩ := List.eq_append_cons_of_mem backQuote
  have quote : '"' ∈ rest := by
    rcases List.eq_nil_or_concat rest with rfl | ⟨front, last, rfl⟩
    · exact absurd (ends '`' (by simp)) (by decide)
    · rw [List.concat_eq_append, ← List.cons_append, ← List.append_assoc,
        List.getLast?_concat] at ends
      rw [ends last rfl]
      simp
  obtain ⟨run, further, rfl, noQuote⟩ := List.eq_append_cons_of_mem quote
  -- The back quote behind the gap closes a command, so what is read up to there is a body.
  have atGap : word.body ++ ['"'] ++ gap ∈ unclosedBody := by
    have scans := word.closed_scans
    rw [isOpen] at scans
    refine (scans.append_inside fun character member => ?_).inner.mp rfl
    simp only [List.mem_cons, List.not_mem_nil, or_false, not_or]
    exact ⟨ne_of_mem_of_not_mem member fun inGap => noFeed (by simp [inGap]),
      ne_of_mem_of_not_mem member first⟩
  have atRun : word.body ++ ['"'] ++ gap ++ ['`'] ++ run ∈ doubleQuotedBody := by
    refine append_mem_body (snoc_mem_body.mpr (Or.inr ⟨atGap, rfl⟩)) (run_mem_body ?_)
    intro character member
    simp only [List.mem_cons, List.not_mem_nil, or_false, not_or]
    exact ⟨ne_of_mem_of_not_mem member fun inRun => noFeed (by simp [inRun]),
      ne_of_mem_of_not_mem member noQuote⟩
  have longer := token.longest ('"' :: (word.body ++ ['"'] ++ gap ++ ['`'] ++ run ++ ['"']))
    ⟨further, by simp [QuotedWord.text]⟩ ⟨.doubleQuoted, mem_enclosed.mpr ⟨_, atRun, rfl⟩⟩
  simp [QuotedWord.text] at longer

/-! ### Words side by side -/

theorem textOf_spacedTokens (items : List Spelling) :
    textOf (spacedTokens items) = spacedText items := by
  induction items with
  | nil => rfl
  | cons item rest inductionHypothesis =>
    rw [spacedTokens_cons, textOf_cons, textOf_cons, inductionHypothesis]
    rfl

theorem textOf_tokensOf (items : List Spelling) : textOf (tokensOf items) = lineOf items := by
  cases items with
  | nil => rfl
  | cons item rest => rw [tokensOf, textOf_cons, textOf_spacedTokens, lineOf]

namespace QuotedWord

theorem noFeed (word : QuotedWord) : '\n' ∉ word.text := by
  have literals : ∀ literal : Literal, '\n' ∉ literal.text := fun literal member =>
    literal.ordinary '\n' member (by simp)
  have commands : ∀ part : Interpolation, '\n' ∉ part.command := fun part member =>
    part.inside '\n' member (by simp)
  simp [text, body, literals, Interpolation.text, commands]

theorem backQuote_mem_iff (word : QuotedWord) : '`' ∈ word.text ↔ word.interpolations ≠ [] := by
  have literal : '`' ∉ word.literal.text := fun member =>
    word.literal.ordinary '`' member (by simp)
  cases parts : word.interpolations with
  | nil => simp [text, body, parts, literal]
  | cons part rest => simp [text, body, parts, Interpolation.text]

/-- What follows a word on the line. -/
def spaced (words : List QuotedWord) : Text := spacedText (words.map item)

theorem mem_spaced {words : List QuotedWord} {character : Char} (notSpace : character ≠ ' ') :
    character ∈ spaced words ↔ ∃ word ∈ words, character ∈ word.text := by
  simp [spaced, spacedText, item, notSpace]

theorem spaced_ends {words : List QuotedWord} : ∀ last ∈ (spaced words).getLast?, last = '"' := by
  intro last isLast
  rcases List.eq_nil_or_concat words with rfl | ⟨before, word, rfl⟩
  · simp [spaced, spacedText] at isLast
  · have whole : spaced (before.concat word) =
        (spaced before ++ ' ' :: '"' :: word.body) ++ ['"'] := by
      simp [spaced, spacedText, item, text]
    rw [whole, List.getLast?_concat] at isLast
    exact (Option.some.inj isLast).symm

/-- Among words side by side, a word that stays open must not be followed by one with commands in
it. -/
theorem longest_iff (word : QuotedWord) (later : List QuotedWord) :
    LongestToken .doubleQuoted word.text (word.text ++ spaced later) ↔
      ∀ other ∈ later, word.staysOpen = true → other.interpolations = [] := by
  have noFeed : '\n' ∉ spaced later := fun member => by
    obtain ⟨other, _, inOther⟩ := (mem_spaced (by decide)).mp member
    exact other.noFeed inOther
  constructor
  · intro token other member isOpen
    by_contra nonempty
    exact swallowed isOpen noFeed spaced_ends
      ((mem_spaced (by decide)).mpr ⟨other, member, other.backQuote_mem_iff.mpr nonempty⟩) token
  · intro apart
    refine longest fun isOpen member => ?_
    obtain ⟨other, inLater, inOther⟩ := (mem_spaced (by decide)).mp member
    exact other.backQuote_mem_iff.mp inOther (apart other inLater isOpen)

end QuotedWord

/-- No word that stays open is followed by a word with a command. -/
def Apart (words : List QuotedWord) : Prop :=
  words.Pairwise fun word other => word.staysOpen = true → other.interpolations = []

/-- Words fit side by side if and only if each of them is apart from what follows. -/
theorem fits_iff_apart (word : QuotedWord) (later : List QuotedWord) :
    Fits (tokensOf ((word :: later).map QuotedWord.item)) ↔ Apart (word :: later) := by
  induction later generalizing word with
  | nil =>
    have token := (QuotedWord.longest_iff word []).mpr (by simp)
    exact ⟨fun _ => List.pairwise_singleton _ _, fun _ => ⟨token, trivial⟩⟩
  | cons other rest inductionHypothesis =>
    have further := inductionHypothesis other
    have token := QuotedWord.longest_iff word (other :: rest)
    have blank : LongestToken .blank [' ']
        ([' '] ++ textOf (tokensOf ((other :: rest).map QuotedWord.item))) := by
      refine blank_longest (mem_blank.mpr (by simp [Lexeme.isBlank])) fun first begins => ?_
      obtain rfl := Option.some.inj begins
      rfl
    have text : textOf (spacedTokens ((other :: rest).map QuotedWord.item)) =
        QuotedWord.spaced (other :: rest) := textOf_spacedTokens _
    rw [Apart, List.pairwise_cons, ← Apart, ← further, ← token, ← text]
    exact and_congr_right fun _ => and_iff_right blank

/-- A word as the only piece of an argument. -/
def QuotedWord.written (word : QuotedWord) : Written where
  pieces := [word.item]
  nonempty := List.cons_ne_nil _ _
  arePieces := by simp [item, Kind.isPiece, Kind.isQuoted]

/-- Words with single spaces between them. -/
def wordRow (word : QuotedWord) (later : List QuotedWord) : Row :=
  ⟨word.written, later.map fun other => ([' '], other.written)⟩

theorem wordRow_items (word : QuotedWord) (later : List QuotedWord) :
    (wordRow word later).items = tokensOf ((word :: later).map QuotedWord.item) := by
  simp only [Row.items, wordRow, Row.laterItems, QuotedWord.written, List.map_cons, tokensOf,
    spacedTokens, List.flatMap_map]
  rfl

theorem wordRow_arguments (word : QuotedWord) (later : List QuotedWord) :
    (wordRow word later).arguments = (word :: later).map fun other => [other.item] := by
  rw [Row.arguments, wordRow, List.map_map]
  rfl

theorem join_words (words : List QuotedWord) :
    Text.join [' '] (words.map QuotedWord.text) =
      textOf (tokensOf (words.map QuotedWord.item)) := by
  rw [textOf_tokensOf, ← join_texts, List.map_map]
  rfl

/-- Words in double quotes with single spaces between them are cut into one token for each word,
and a blank between neighbours, if and only if no word that stays open is followed by a word with
a command. The line is then read without a report as a call with one argument for each word. -/
theorem ofLine_quotedWords (word : QuotedWord) (later : List QuotedWord) :
    ((Token.ofLine (Text.join [' '] ((word :: later).map QuotedWord.text))).map Token.spelling =
        tokensOf ((word :: later).map QuotedWord.item) ↔ Apart (word :: later)) ∧
    (Apart (word :: later) →
      (readLine (Text.join [' '] ((word :: later).map QuotedWord.text)) .command 0).reports = [] ∧
      (readLine (Text.join [' '] ((word :: later).map QuotedWord.text)) .command 0).unread = [] ∧
      ∃ first others,
        (readLine (Text.join [' '] ((word :: later).map QuotedWord.text)) .command 0).tree =
          (Command.call (rowCall first others)).tree ∧
        first.spelling :: others.map (fun entry => entry.2.spelling) =
          (word :: later).map fun other => [other.item]) := by
  rw [join_words]
  refine ⟨(ofLine_textOf_iff _).trans (fits_iff_apart word later), fun apart => ?_⟩
  have fits := (fits_iff_apart word later).mpr apart
  rw [← wordRow_items] at fits ⊢
  rw [← wordRow_arguments]
  exact readLine_row (wordRow word later) fits

/-- A word that is nothing but a command. -/
def QuotedWord.ofCommand (command : Text)
    (inside : ∀ character ∈ command, character ∉ ['\n', '`']) : QuotedWord where
  literal := ⟨[], by simp⟩
  interpolations := [⟨command, inside, ⟨[], by simp⟩⟩]

/-- The words of the line `"`echo "a"`" "`b`"`. -/
theorem ofLine_quotedWords_told :
    Apart [.ofCommand "echo \"a\"".toList (by simp), .ofCommand ['b'] (by simp)] ∧
    (Token.ofLine "\"`echo \"a\"`\" \"`b`\"".toList).map Token.spelling =
      [(.doubleQuoted, "\"`echo \"a\"`\"".toList), (.blank, [' ']),
        (.doubleQuoted, "\"`b`\"".toList)] := by
  have apart : Apart [.ofCommand "echo \"a\"".toList (by simp), .ofCommand ['b'] (by simp)] :=
    List.pairwise_pair.mpr fun isOpen => absurd isOpen (by decide)
  exact ⟨apart, (ofLine_quotedWords _ _).1.mpr apart⟩

/-- Both words of the line `"`a`" "`b`"` are cut off as a single token. -/
theorem quotedWords_swallowed :
    (Token.ofLine (Text.join [' '] ([.ofCommand ['a'] (by simp), .ofCommand ['b'] (by simp)].map
        QuotedWord.text))).map Token.spelling =
      [(.doubleQuoted, "\"`a`\" \"`b`\"".toList)] := by
  decide +kernel

end MiniShell
