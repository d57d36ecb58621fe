/-
This file charts the grammar for error recovery. A place is a point of a rule at
which reading can go wrong; a site is a point at which one rule uses another.
For each of them the kinds of token that may come next are listed, and whether
the rule may also be over there. The rules are

  command:      pipe | command ';' command | call | (nothing)
  pipe:         pipe '|' call | call '|' call | pipe '|' command
  call:         blank? (redirection blank)* argument (blank? atom)* blank?
  atom:         redirection | argument
  argument:     (quoted | unquoted)+
  redirection:  ('<' | '>' | '>>') blank? argument
  quoted:       single-quoted | back-quoted | double-quoted
-/

import MiniShell.Token.Basic

namespace MiniShell

/-- What may come next: tokens of some kinds, and perhaps the end of the rule. -/
structure Outlook where
  kinds : List Kind
  mayEnd : Bool

/-- The kinds that open a redirection. -/
def redirectionKinds : List Kind := [.less, .greater, .doubleGreater]

/-- The kinds of quoted text. -/
def quotedKinds : List Kind := [.singleQuoted, .backQuoted, .doubleQuoted]

/-- The kinds that a word is made of. -/
def pieceKinds : List Kind := .unquoted :: quotedKinds

/-- The kinds that open an atom. -/
def atomKinds : List Kind := redirectionKinds ++ pieceKinds

/-! ### Operators -/

/-- The operators that continue a command or a pipe. These two rules call themselves on their
left. -/
inductive Operator
  /-- The semicolon between two commands. -/
  | semicolon
  /-- A later bar of a pipe with a call after it. -/
  | barBeforeCall
  /-- A later bar of a pipe with a command after it. -/
  | barBeforeCommand

namespace Operator

/-- An operator continues a rule that was entered at a level up to its rank. -/
def rank : Operator → Int
  | semicolon => 3
  | barBeforeCall => 3
  | barBeforeCommand => 1

/-- The level at which the operand after an operator is read, if the operator itself must not
continue that operand. Operators of one rank then nest to the left. -/
def operandLevel (operator : Operator) : Int := operator.rank + 1

end Operator

/-! ### Places -/

/-- The points of the rules at which reading can go wrong. -/
inductive Place
  /-- The choice of an alternative of a command. -/
  | commandStart
  /-- The bar between the first two calls of a pipe. -/
  | firstBar
  /-- The choice between a call and a command after a later bar of a pipe. -/
  | pipeChoice
  /-- The beginning of a call. -/
  | callStart
  /-- The redirections before the first word of a call. -/
  | leading
  /-- The blank after such a redirection. -/
  | leadingBlank
  /-- The point after that blank. -/
  | leadingAgain
  /-- The beginning of an atom. -/
  | atomStart
  /-- The beginning of a word. -/
  | pieceStart
  /-- The point between two pieces of a word. -/
  | pieceNext
  /-- The beginning of a redirection. -/
  | redirectionStart
  /-- The point after the operator of a redirection. -/
  | redirectionBlank (operator : Kind)
  /-- The only point of quoted text. -/
  | quotedStart
  deriving DecidableEq

/-- What may come next at a place. -/
def Place.next : Place → Outlook
  | .commandStart => ⟨.semicolon :: .blank :: atomKinds, true⟩
  | .firstBar | .pipeChoice => ⟨[.bar], false⟩
  | .callStart => ⟨.blank :: atomKinds, false⟩
  | .leading | .leadingAgain | .atomStart => ⟨atomKinds, false⟩
  | .leadingBlank => ⟨[.blank], false⟩
  | .pieceStart => ⟨pieceKinds, false⟩
  | .pieceNext => ⟨pieceKinds, true⟩
  | .redirectionStart => ⟨redirectionKinds, false⟩
  | .redirectionBlank _ => ⟨.blank :: pieceKinds, false⟩
  | .quotedStart => ⟨quotedKinds, false⟩

/-- What may come after the token that a place asks for, where it asks for one. -/
def Place.afterToken : Place → Outlook
  | .firstBar => ⟨.blank :: atomKinds, false⟩
  | .leadingBlank => ⟨atomKinds, false⟩
  | _ => ⟨[], true⟩

/-! ### Sites -/

/-- The points at which one rule uses another. -/
inductive Site
  /-- A pipe as a command. -/
  | pipeOfCommand
  /-- A call as a command. -/
  | callOfCommand
  /-- The command after a semicolon. -/
  | operand
  /-- The call before the first bar of a pipe. -/
  | firstCall
  /-- The call after the first bar of a pipe. -/
  | secondCall
  /-- A call after a later bar of a pipe. -/
  | nextCall
  /-- A command after a later bar of a pipe. -/
  | nextCommand
  /-- A redirection before the first word of a call. -/
  | leadingRedirection
  /-- The first word of a call. -/
  | firstWord
  /-- An atom after the first word of a call. -/
  | atomOfCall
  /-- A redirection as an atom. -/
  | redirectionOfAtom
  /-- A word as an atom. -/
  | argumentOfAtom
  /-- Quoted text in a word. -/
  | quotedPiece
  /-- The word that names the file of a redirection. -/
  | target
  deriving DecidableEq

/-- What may come after the rule used at a site. -/
def Site.follow : Site → Outlook
  | .pipeOfCommand | .callOfCommand | .operand => ⟨[.semicolon], true⟩
  | .firstCall => ⟨[.bar], false⟩
  | .secondCall | .nextCall | .nextCommand => ⟨[.bar], true⟩
  | .leadingRedirection => ⟨[.blank], false⟩
  | .firstWord | .atomOfCall => ⟨.blank :: atomKinds, true⟩
  | .redirectionOfAtom | .argumentOfAtom | .target => ⟨[], true⟩
  | .quotedPiece => ⟨pieceKinds, true⟩

/-! ### Sets of kinds along the rules in use -/

/-- The kinds that may come next, given what the current rule allows and the sites
of the rules in use, the innermost first. When every one of them may be over, the
line may end. -/
def expected (outlook : Outlook) : List Site → List Kind
  | [] => if outlook.mayEnd then .lineEnd :: outlook.kinds else outlook.kinds
  | site :: sites =>
    if outlook.mayEnd then outlook.kinds ++ expected site.follow sites else outlook.kinds

/-- The kinds at which reading can be taken up again: all that may follow any of
the rules in use. -/
def resumption (sites : List Site) : List Kind := sites.flatMap fun site => site.follow.kinds

end MiniShell
