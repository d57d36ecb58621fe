/-
This file reads whole numbers. A numeral is a run of decimal digits of any script,
with an optional sign before it, single underscores between digits, and white space
around it. Numerals of more than 4300 digits are refused.
-/

import MiniShell.Text.Decimal
import MiniShell.Text.Space

namespace MiniShell.Text

/-- Why a text is not read as a number. -/
inductive NumeralFault
  | malformed (text : Text)
  | tooLong (digits : Nat)
  deriving DecidableEq

/-- The number of digits a numeral may have. -/
def digitLimit : Nat := 4300

/-- The white space that may stand around a numeral: of the characters of ASCII only
the usual six. -/
def isNumeralSpace (character : Char) : Bool :=
  if character.toNat < 127 then
    character = ' ' || 9 ≤ character.toNat && character.toNat ≤ 13
  else isSpace character

/-- Reads digits with single underscores between them. The result is the number of
digits, their value and the rest of the text; there is none when an underscore stands
at the end of the digits or beside another one. -/
def digits (afterDigit : Bool) (count value : Nat) : Text → Option (Nat × Nat × Text)
  | [] => if afterDigit || count = 0 then some (count, value, []) else none
  | character :: rest =>
    match digitValue? character with
    | some digit => digits true (count + 1) (10 * value + digit) rest
    | none =>
      if character = '_' then
        if afterDigit then digits false count value rest else none
      else if afterDigit || count = 0 then some (count, value, character :: rest)
      else none

/-- The sign in front of a text, and the rest. -/
def sign : Text → Bool × Text
  | '-' :: rest => (true, rest)
  | '+' :: rest => (false, rest)
  | text => (false, text)

/-- Reads a whole number. -/
def toInt (text : Text) : Except NumeralFault Int :=
  let (negative, unsigned) := sign (text.dropWhile isNumeralSpace)
  match digits false 0 0 unsigned with
  | none => .error (.malformed text)
  | some (count, value, rest) =>
    if count = 0 then .error (.malformed text)
    else if digitLimit < count then .error (.tooLong count)
    else if rest.all isNumeralSpace then .ok (if negative then -value else value)
    else .error (.malformed text)

end MiniShell.Text
