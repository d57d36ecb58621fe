/-
This file defines what can be wrong with the text of a pattern or of a replacement.
-/

import MiniShell.Text.Quoted

namespace MiniShell.Pattern

/-- Why a text is not a pattern, or not a replacement. -/
inductive Flaw
  /-- The text breaks a rule of its form, perhaps at a known position in it. -/
  | malformed (reason : Text) (position : Option Nat) (text : Text)
  /-- A repetition count is too large. -/
  | repetition
  /-- A repetition count has too many digits to be read. -/
  | count (digits : Nat)
  /-- Letters are limited to ASCII and are not, both at once. -/
  | scripts
  /-- A replacement names a group that the pattern does not have. -/
  | unknownGroup (name : Text)
  deriving DecidableEq

/-- The line and the column of a position: lines count from one, and so do columns. -/
def lineAndColumn (position : Nat) (text : Text) : Nat × Nat :=
  let before := text.take position
  (before.count '\n' + 1, (before.reverse.takeWhile fun character => character ≠ '\n').length + 1)

/-- The wording of a broken rule. The line and the column are given only for a text of
several lines. -/
def malformedMessage (reason : Text) (position : Option Nat) (text : Text) : Text :=
  match position with
  | none => reason
  | some position =>
    let message := reason ++ " at position ".toList ++ Text.ofNat position
    if text.contains '\n' then
      let (line, column) := lineAndColumn position text
      message ++ " (line ".toList ++ Text.ofNat line ++ ", column ".toList ++
        Text.ofNat column ++ ")".toList
    else message

end MiniShell.Pattern
