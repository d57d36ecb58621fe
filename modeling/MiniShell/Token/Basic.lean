/-
This file names the pieces a command line is cut into: the operators, the four
ways to write a word or a part of one, runs of blanks, and the end of the line.
-/

import MiniShell.Text.Basic

namespace MiniShell

/-- The kinds of token. -/
inductive Kind
  | semicolon
  | bar
  | less
  | greater
  | doubleGreater
  | unquoted
  | singleQuoted
  | backQuoted
  | doubleQuoted
  | blank
  | lineEnd
  deriving DecidableEq, Repr

namespace Kind

/-- The name of a kind in messages: an operator stands for itself in single quotes. -/
def display : Kind → Text
  | semicolon => "';'"
  | bar => "'|'"
  | less => "'<'"
  | greater => "'>'"
  | doubleGreater => "'>>'"
  | unquoted => "UNQUOTED"
  | singleQuoted => "SINGLE_QUOTED"
  | backQuoted => "BACK_QUOTED"
  | doubleQuoted => "DOUBLE_QUOTED"
  | blank => "WHITESPACE"
  | lineEnd => "EOF"

/-- The three operators that open a redirection. -/
def isRedirection : Kind → Bool
  | less | greater | doubleGreater => true
  | _ => false

/-- The three kinds of quoted text. -/
def isQuoted : Kind → Bool
  | singleQuoted | backQuoted | doubleQuoted => true
  | _ => false

/-- What a word is made of: quoted text and unquoted text. -/
def isPiece (kind : Kind) : Bool := kind == unquoted || kind.isQuoted

/-- What separates commands. -/
def isSeparator : Kind → Bool
  | semicolon | bar => true
  | _ => false

end Kind

/-- A position in a command line. Lines count from one, columns from zero. -/
structure Mark where
  offset : Nat
  line : Nat
  column : Nat
  deriving DecidableEq, Repr

namespace Mark

/-- The beginning of a command line. -/
def start : Mark := ⟨0, 1, 0⟩

/-- The position after one character: a line feed opens a new line. -/
def next (mark : Mark) (character : Char) : Mark :=
  if character = '\n' then ⟨mark.offset + 1, mark.line + 1, 0⟩
  else ⟨mark.offset + 1, mark.line, mark.column + 1⟩

/-- The position after a text. -/
def after (mark : Mark) (text : Text) : Mark := text.foldl next mark

end Mark

/-- A token: its kind, its text and where it begins. -/
structure Token where
  kind : Kind
  text : Text
  mark : Mark
  deriving DecidableEq, Repr

namespace Token

/-- The token that stands at the end of every line. -/
def lineEnd (mark : Mark) : Token := ⟨.lineEnd, "<EOF>", mark⟩

/-- The offset of the token's last character. The end of the line has no characters. -/
def lastOffset (token : Token) : Int :=
  match token.kind with
  | .lineEnd => (token.mark.offset : Int) - 1
  | _ => (token.mark.offset : Int) + token.text.length - 1

end Token

end MiniShell
