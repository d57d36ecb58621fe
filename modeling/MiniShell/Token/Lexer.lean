/-
This file cuts a command line into lexemes. At every position the longest text
that some kind of token allows is taken. Where no kind allows any, the text up
to and including the character that ruled out the last candidate is dropped.
The lexemes lie end to end: nothing of the line is lost or used twice.
-/

import MiniShell.Token.Basic

namespace MiniShell

/-- A stretch of the line: a token, or dropped text when it has no kind. -/
structure Lexeme where
  kind : Option Kind
  text : Text
  mark : Mark
  deriving DecidableEq, Repr

namespace Lexeme

/-! ### One lexeme -/

/-- Blanks separate words. -/
def isBlank (character : Char) : Bool := character = ' ' || character = '\t'

/-- The characters that unquoted text may hold. -/
def isPlain (character : Char) : Bool :=
  !(isBlank character || character = '\n' || character = '\'' || character = '"' ||
    character = '`' || character = '<' || character = '>' || character = '|' || character = ';')

/-- Reads text up to a closing quote on the same line, and gives how many
characters belong to the lexeme and whether the quote was found. -/
def quotedLength (quote : Char) : Text → Bool × Nat
  | [] => (false, 0)
  | character :: rest =>
    if character = quote then (true, 1)
    else if character = '\n' then (false, 1)
    else
      let (closed, length) := quotedLength quote rest
      (closed, length + 1)

/-- Reads double-quoted text after its opening quote. A back quote inside may be
an ordinary character or open a back-quoted part, in which a double quote does
not close; `plain` and `inner` say which of the two readings are still open. The
result is the longest length at which a reading closed, if any, and the length
at which the last reading ended. -/
def doubleQuotedLength (plain inner : Bool) (length : Nat) (closed : Option Nat) :
    Text → Option Nat × Nat
  | [] => (closed, length)
  | character :: rest =>
    let closes := plain && character = '"'
    let stillPlain :=
      plain && character ≠ '"' && character ≠ '\n' || inner && character = '`'
    let stillInner :=
      plain && character = '`' || inner && character ≠ '`' && character ≠ '\n'
    let closed := if closes then some (length + 1) else closed
    if stillPlain || stillInner then
      doubleQuotedLength stillPlain stillInner (length + 1) closed rest
    else (closed, length + 1)

/-- The kind of the first lexeme and how many characters follow its first one. -/
def measure (first : Char) (rest : Text) : Option Kind × Nat :=
  if first = ';' then (some .semicolon, 0)
  else if first = '|' then (some .bar, 0)
  else if first = '<' then (some .less, 0)
  else if first = '>' then
    match rest with
    | '>' :: _ => (some .doubleGreater, 1)
    | _ => (some .greater, 0)
  else if first = '\'' then
    match quotedLength '\'' rest with
    | (true, length) => (some .singleQuoted, length)
    | (false, length) => (none, length)
  else if first = '`' then
    match quotedLength '`' rest with
    | (true, length) => (some .backQuoted, length)
    | (false, length) => (none, length)
  else if first = '"' then
    match doubleQuotedLength true false 0 none rest with
    | (some length, _) => (some .doubleQuoted, length)
    | (none, length) => (none, length)
  else if first = '\n' then (none, 0)
  else if isBlank first then (some .blank, (rest.takeWhile isBlank).length)
  else (some .unquoted, (rest.takeWhile isPlain).length)

/-! ### The whole line -/

/-- Cuts off lexemes one after the other. Every lexeme has at least one character,
so a fuel of the text's length is enough. -/
def cut : Nat → Mark → Text → List Lexeme
  | 0, _, _ => []
  | _ + 1, _, [] => []
  | fuel + 1, mark, first :: rest =>
    let (kind, length) := measure first rest
    let text := first :: rest.take length
    ⟨kind, text, mark⟩ :: cut fuel (mark.after text) (rest.drop length)

/-- The lexemes of a command line. -/
def ofLine (line : Text) : List Lexeme := cut line.length Mark.start line

/-- The token a lexeme is, if it is not dropped text. -/
def token? (lexeme : Lexeme) : Option Token :=
  lexeme.kind.map fun kind => ⟨kind, lexeme.text, lexeme.mark⟩

end Lexeme

/-- The tokens of a command line, without the one for its end. -/
def Token.ofLine (line : Text) : List Token := (Lexeme.ofLine line).filterMap Lexeme.token?

end MiniShell
