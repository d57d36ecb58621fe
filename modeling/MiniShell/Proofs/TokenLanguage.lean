/-
This file defines the languages of the kinds of tokens, in the words of the
grammar: characters of a class, parts one after the other, and parts that are
repeated. The language of texts in double quotes is the hard one. What it
allows between the quotes is read character by character here: a beginning is a
whole body, or it ends inside a command in back quotes, or both, because a back
quote in double quotes may be an ordinary character.

Between double quotes two states are enough, and a beginning may be in both of
them at once. The scanner follows the same two states, which is how it finds
the longest token without going back.
-/

import Mathlib.Computability.Language
import MiniShell.Token.Lexer

namespace MiniShell

open Computability

/-! ### Characters, runs and quotes -/

/-- The texts of a single character of a class. -/
def single (allowed : Char → Prop) : Language Char :=
  {text | ∃ character, allowed character ∧ text = [character]}

/-- The texts of a single character that is among some. -/
def oneOf (characters : List Char) : Language Char := single (· ∈ characters)

/-- The texts of a single character that is not among some. -/
def noneOf (characters : List Char) : Language Char := single (· ∉ characters)

/-- Parts of a language, one or more. -/
def repeated (part : Language Char) : Language Char := part * part∗

/-- A part of a language between two quotes. -/
def enclosed (quote : Char) (inside : Language Char) : Language Char :=
  {[quote]} * inside * {[quote]}

theorem mem_kstar_single {allowed : Char → Prop} {text : Text} :
    text ∈ (single allowed)∗ ↔ ∀ character ∈ text, allowed character := by
  constructor
  · rintro ⟨parts, rfl, areSingle⟩ character member
    obtain ⟨part, inParts, inPart⟩ := List.mem_flatten.mp member
    obtain ⟨other, isAllowed, rfl⟩ := areSingle part inParts
    rw [List.mem_singleton.mp inPart]
    exact isAllowed
  · intro all
    refine ⟨text.map fun character => [character], (List.flatMap_singleton' text).symm,
      fun part member => ?_⟩
    obtain ⟨character, inText, rfl⟩ := List.mem_map.mp member
    exact ⟨character, all character inText, rfl⟩

theorem mem_repeated_single {allowed : Char → Prop} {text : Text} :
    text ∈ repeated (single allowed) ↔ text ≠ [] ∧ ∀ character ∈ text, allowed character := by
  constructor
  · rintro ⟨_, ⟨first, isAllowed, rfl⟩, rest, others, rfl⟩
    refine ⟨by simp, fun character member => ?_⟩
    rcases List.mem_cons.mp member with rfl | inRest
    · exact isAllowed
    · exact mem_kstar_single.mp others character inRest
  · rintro ⟨nonempty, all⟩
    obtain ⟨first, rest, rfl⟩ := List.exists_cons_of_ne_nil nonempty
    exact ⟨[first], ⟨first, all first (by simp), rfl⟩, rest,
      mem_kstar_single.mpr fun character member => all character (by simp [member]), rfl⟩

theorem mem_enclosed {quote : Char} {inside : Language Char} {text : Text} :
    text ∈ enclosed quote inside ↔ ∃ part ∈ inside, text = quote :: (part ++ [quote]) := by
  constructor
  · rintro ⟨_, ⟨_, rfl, part, member, rfl⟩, _, rfl, rfl⟩
    exact ⟨part, member, rfl⟩
  · rintro ⟨part, member, rfl⟩
    exact ⟨quote :: part, ⟨[quote], rfl, part, member, rfl⟩, [quote], rfl, rfl⟩

/-! ### The languages of the grammar -/

/-- A command in back quotes. -/
def backQuotedText : Language Char := enclosed '`' (noneOf ['\n', '`'])∗

/-- What stands between double quotes: commands in back quotes, and runs of any characters but
line feeds and double quotes. -/
def doubleQuotedBody : Language Char := (backQuotedText + repeated (noneOf ['\n', '"']))∗

/-- The texts of each kind of token. The end of the line has no text. -/
def Kind.language : Kind → Language Char
  | semicolon => {[';']}
  | bar => {['|']}
  | less => {['<']}
  | greater => {['>']}
  | doubleGreater => {['>', '>']}
  | unquoted => repeated (noneOf [' ', '\t', '\n', '\'', '"', '`', '<', '>', '|', ';'])
  | singleQuoted => enclosed '\'' (noneOf ['\n', '\''])∗
  | backQuoted => backQuotedText
  | doubleQuoted => enclosed '"' doubleQuotedBody
  | blank => repeated (oneOf [' ', '\t'])
  | lineEnd => 0

/-- A text that is a token. -/
def IsToken (text : Text) : Prop := ∃ kind : Kind, text ∈ kind.language

/-- A text that some token begins with. -/
def Viable (text : Text) : Prop := ∃ more, IsToken (text ++ more)

theorem isPlain_iff (character : Char) : Lexeme.isPlain character = true ↔
    character ∉ [' ', '\t', '\n', '\'', '"', '`', '<', '>', '|', ';'] := by
  simp [Lexeme.isPlain, Lexeme.isBlank]
  tauto

theorem isBlank_iff (character : Char) :
    Lexeme.isBlank character = true ↔ character ∈ [' ', '\t'] := by
  simp [Lexeme.isBlank]

theorem mem_unquoted {text : Text} : text ∈ Kind.unquoted.language ↔
    text ≠ [] ∧ ∀ character ∈ text, Lexeme.isPlain character = true := by
  simp only [isPlain_iff]
  exact mem_repeated_single

theorem mem_blank {text : Text} : text ∈ Kind.blank.language ↔
    text ≠ [] ∧ ∀ character ∈ text, Lexeme.isBlank character = true := by
  simp only [isBlank_iff]
  exact mem_repeated_single

/-- Text between quotes that holds neither the quote nor a line feed. -/
theorem mem_enclosed_noneOf {quote : Char} {text : Text} :
    text ∈ enclosed quote (noneOf ['\n', quote])∗ ↔
      ∃ inside, (∀ character ∈ inside, character ∉ ['\n', quote]) ∧
        text = quote :: (inside ++ [quote]) := by
  rw [mem_enclosed]
  exact exists_congr fun inside => and_congr_left fun _ => mem_kstar_single

/-! ### How tokens begin -/

/-- The kind of token that a character can begin. Two kinds begin with the same angle. -/
def Kind.ofFirst (first : Char) : Option Kind :=
  if first = ';' then some .semicolon
  else if first = '|' then some .bar
  else if first = '<' then some .less
  else if first = '>' then some .greater
  else if first = '\'' then some .singleQuoted
  else if first = '`' then some .backQuoted
  else if first = '"' then some .doubleQuoted
  else if first = '\n' then none
  else if Lexeme.isBlank first then some .blank
  else some .unquoted

/-- The kind that stands for all that begin with the same character. -/
def Kind.family : Kind → Kind
  | doubleGreater => greater
  | kind => kind

theorem ofFirst_plain {first : Char} (plain : Lexeme.isPlain first = true) :
    Kind.ofFirst first = some .unquoted := by
  simp [Lexeme.isPlain] at plain
  simp [Kind.ofFirst, plain]

theorem ofFirst_blank {first : Char} (blank : Lexeme.isBlank first = true) :
    Kind.ofFirst first = some .blank := by
  rcases List.mem_pair.mp ((isBlank_iff first).mp blank) with rfl | rfl <;> decide

/-- The first character of a token tells its kind, up to the two that begin with an angle. -/
theorem ofFirst_of_mem {kind : Kind} {text : Text} (member : text ∈ kind.language) :
    ∃ first rest, text = first :: rest ∧ Kind.ofFirst first = some kind.family := by
  cases kind with
  | semicolon => exact ⟨';', [], member, by decide⟩
  | bar => exact ⟨'|', [], member, by decide⟩
  | less => exact ⟨'<', [], member, by decide⟩
  | greater => exact ⟨'>', [], member, by decide⟩
  | doubleGreater => exact ⟨'>', ['>'], member, by decide⟩
  | unquoted =>
    obtain ⟨nonempty, plain⟩ := mem_unquoted.mp member
    obtain ⟨first, rest, rfl⟩ := List.exists_cons_of_ne_nil nonempty
    exact ⟨first, rest, rfl, ofFirst_plain (plain first (by simp))⟩
  | singleQuoted =>
    obtain ⟨inside, _, rfl⟩ := mem_enclosed.mp member
    exact ⟨'\'', _, rfl, by decide⟩
  | backQuoted =>
    obtain ⟨inside, _, rfl⟩ := mem_enclosed.mp member
    exact ⟨'`', _, rfl, by decide⟩
  | doubleQuoted =>
    obtain ⟨inside, _, rfl⟩ := mem_enclosed.mp member
    exact ⟨'"', _, rfl, by decide⟩
  | blank =>
    obtain ⟨nonempty, blank⟩ := mem_blank.mp member
    obtain ⟨first, rest, rfl⟩ := List.exists_cons_of_ne_nil nonempty
    exact ⟨first, rest, rfl, ofFirst_blank (blank first (by simp))⟩
  | lineEnd => exact absurd member (Language.notMem_zero _)

theorem ne_nil_of_mem {kind : Kind} {text : Text} (member : text ∈ kind.language) :
    text ≠ [] := by
  obtain ⟨first, rest, rfl, _⟩ := ofFirst_of_mem member
  exact List.cons_ne_nil _ _

theorem family_of_mem {kind : Kind} {first : Char} {rest : Text}
    (member : first :: rest ∈ kind.language) : Kind.ofFirst first = some kind.family := by
  obtain ⟨other, others, equal, begins⟩ := ofFirst_of_mem member
  rw [(List.cons.inj equal).1]
  exact begins

theorem family_cases {kind other : Kind} (same : kind.family = other.family) :
    kind = other ∨ kind = .greater ∧ other = .doubleGreater ∨
      kind = .doubleGreater ∧ other = .greater := by
  revert same
  cases kind <;> cases other <;> decide

/-- No text is a token of two kinds. -/
theorem kind_unique {kind other : Kind} {text : Text} (member : text ∈ kind.language)
    (otherMember : text ∈ other.language) : kind = other := by
  obtain ⟨first, rest, rfl, begins⟩ := ofFirst_of_mem member
  have same := Option.some.inj (begins.symm.trans (family_of_mem otherMember))
  have apart : ∀ text : Text, text ∈ Kind.greater.language →
      text ∉ Kind.doubleGreater.language := by
    rintro text rfl second
    exact absurd second (show ¬ ['>'] = ['>', '>'] by decide)
  rcases family_cases same with equal | ⟨rfl, rfl⟩ | ⟨rfl, rfl⟩
  · exact equal
  · exact absurd otherMember (apart _ member)
  · exact absurd member (apart _ otherMember)

/-! ### Between double quotes -/

/-- The beginnings of a body that end inside a command in back quotes. -/
def unclosedBody : Language Char := doubleQuotedBody * {['`']} * (noneOf ['\n', '`'])∗

theorem mem_unclosedBody {read : Text} : read ∈ unclosedBody ↔
    ∃ before ∈ doubleQuotedBody, ∃ inside,
      (∀ character ∈ inside, character ∉ ['\n', '`']) ∧ read = before ++ '`' :: inside := by
  constructor
  · rintro ⟨_, ⟨before, member, _, rfl, rfl⟩, inside, others, rfl⟩
    exact ⟨before, member, inside, mem_kstar_single.mp others, by simp⟩
  · rintro ⟨before, member, inside, others, rfl⟩
    exact ⟨before ++ ['`'], ⟨before, member, ['`'], rfl, rfl⟩, inside,
      mem_kstar_single.mpr others, by simp⟩

theorem nil_mem_body : [] ∈ doubleQuotedBody := Language.nil_mem_kstar _

theorem append_mem_body {read more : Text} (first : read ∈ doubleQuotedBody)
    (second : more ∈ doubleQuotedBody) : read ++ more ∈ doubleQuotedBody := by
  obtain ⟨parts, rfl, areParts⟩ := first
  obtain ⟨others, rfl, areOthers⟩ := second
  refine ⟨parts ++ others, by simp, fun part member => ?_⟩
  rcases List.mem_append.mp member with inParts | inOthers
  · exact areParts part inParts
  · exact areOthers part inOthers

theorem part_mem_body {part : Text}
    (member : part ∈ backQuotedText + repeated (noneOf ['\n', '"'])) :
    part ∈ doubleQuotedBody :=
  ⟨[part], by simp, by simpa using member⟩

theorem run_mem_body {run : Text} (ordinary : ∀ character ∈ run, character ∉ ['\n', '"']) :
    run ∈ doubleQuotedBody := by
  by_cases empty : run = []
  · rw [empty]
    exact nil_mem_body
  · exact part_mem_body (Or.inr (mem_repeated_single.mpr ⟨empty, ordinary⟩))

theorem command_mem_body {inside : Text}
    (ordinary : ∀ character ∈ inside, character ∉ ['\n', '`']) :
    '`' :: (inside ++ ['`']) ∈ doubleQuotedBody :=
  part_mem_body (Or.inl (mem_enclosed_noneOf.mpr ⟨inside, ordinary, rfl⟩))

/-- One more character makes a body of a body, or closes a command in back quotes. -/
theorem snoc_mem_body {read : Text} {character : Char} :
    read ++ [character] ∈ doubleQuotedBody ↔
      read ∈ doubleQuotedBody ∧ character ∉ ['\n', '"'] ∨
        read ∈ unclosedBody ∧ character = '`' := by
  constructor
  · intro member
    obtain ⟨parts, whole, areParts⟩ := Language.mem_kstar_iff_exists_nonempty.mp member
    rcases List.eq_nil_or_concat parts with rfl | ⟨before, last, rfl⟩
    · simp at whole
    rw [List.concat_eq_append] at whole areParts
    have beforeBody : before.flatten ∈ doubleQuotedBody :=
      ⟨before, rfl, fun part inBefore => (areParts part (by simp [inBefore])).1⟩
    obtain ⟨isPart, nonempty⟩ := areParts last (by simp)
    obtain ⟨front, final, rfl⟩ : ∃ front final, last = front ++ [final] :=
      ⟨_, _, (List.dropLast_concat_getLast nonempty).symm⟩
    rw [List.flatten_append, List.flatten_singleton, ← List.append_assoc] at whole
    obtain ⟨rfl, same⟩ := List.append_inj' whole rfl
    obtain rfl : character = final := by simpa using same
    -- The character is the last one of a command, which it closes, or of a run of others.
    rcases isPart with command | run
    · obtain ⟨inside, ordinary, equal⟩ := mem_enclosed_noneOf.mp command
      rw [← List.cons_append] at equal
      obtain ⟨rfl, same⟩ := List.append_inj' equal rfl
      exact Or.inr ⟨mem_unclosedBody.mpr ⟨_, beforeBody, inside, ordinary, rfl⟩,
        by simpa using same⟩
    · have ordinary := (mem_repeated_single.mp run).2
      refine Or.inl ⟨append_mem_body beforeBody (run_mem_body fun other inFront => ?_), ?_⟩
      · exact ordinary other (by simp [inFront])
      · exact ordinary character (by simp)
  · rintro (⟨body, ordinary⟩ | ⟨unclosed, rfl⟩)
    · exact append_mem_body body (run_mem_body (by simpa using ordinary))
    · obtain ⟨before, body, inside, ordinary, rfl⟩ := mem_unclosedBody.mp unclosed
      rw [List.append_assoc]
      exact append_mem_body body (command_mem_body ordinary)

/-- One more character opens a command in back quotes, or goes on inside one. -/
theorem snoc_mem_unclosed {read : Text} {character : Char} :
    read ++ [character] ∈ unclosedBody ↔
      read ∈ doubleQuotedBody ∧ character = '`' ∨
        read ∈ unclosedBody ∧ character ∉ ['\n', '`'] := by
  constructor
  · intro member
    obtain ⟨before, body, inside, ordinary, equal⟩ := mem_unclosedBody.mp member
    rcases List.eq_nil_or_concat inside with rfl | ⟨front, last, rfl⟩
    · obtain ⟨rfl, same⟩ := List.append_inj' equal rfl
      exact Or.inl ⟨body, by simpa using same⟩
    · rw [List.concat_eq_append] at equal ordinary
      rw [← List.cons_append, ← List.append_assoc] at equal
      obtain ⟨rfl, same⟩ := List.append_inj' equal rfl
      obtain rfl : character = last := by simpa using same
      exact Or.inr ⟨mem_unclosedBody.mpr ⟨before, body, front,
        fun other inFront => ordinary other (by simp [inFront]), rfl⟩, ordinary character (by simp)⟩
  · rintro (⟨body, rfl⟩ | ⟨unclosed, goesOn⟩)
    · exact mem_unclosedBody.mpr ⟨read, body, [], by simp, rfl⟩
    · obtain ⟨before, body, inside, ordinary, rfl⟩ := mem_unclosedBody.mp unclosed
      refine mem_unclosedBody.mpr ⟨before, body, inside ++ [character], ?_, by simp⟩
      intro other inInside
      rcases List.mem_append.mp inInside with earlier | last
      · exact ordinary other earlier
      · rw [List.mem_singleton.mp last]
        exact goesOn

/-- The beginnings of bodies. -/
def Unfinished (read : Text) : Prop := read ∈ doubleQuotedBody ∨ read ∈ unclosedBody

theorem Unfinished.of_snoc {read : Text} {character : Char}
    (unfinished : Unfinished (read ++ [character])) : Unfinished read := by
  rcases unfinished with body | unclosed
  · rcases snoc_mem_body.mp body with before | before
    · exact Or.inl before.1
    · exact Or.inr before.1
  · rcases snoc_mem_unclosed.mp unclosed with before | before
    · exact Or.inl before.1
    · exact Or.inr before.1

theorem Unfinished.of_append {read more : Text} (unfinished : Unfinished (read ++ more)) :
    Unfinished read := by
  induction more using List.reverseRecOn with
  | nil => simpa using unfinished
  | append_singleton more character inductionHypothesis =>
    rw [← List.append_assoc] at unfinished
    exact inductionHypothesis unfinished.of_snoc

/-- Every beginning of a body can be completed. -/
theorem Unfinished.viable {read : Text} (unfinished : Unfinished read) : Viable ('"' :: read) := by
  rcases unfinished with body | unclosed
  · exact ⟨['"'], .doubleQuoted, mem_enclosed.mpr ⟨read, body, rfl⟩⟩
  · refine ⟨['`', '"'], .doubleQuoted, mem_enclosed.mpr ⟨read ++ ['`'], ?_, by simp⟩⟩
    exact snoc_mem_body.mpr (Or.inr ⟨unclosed, rfl⟩)

end MiniShell
