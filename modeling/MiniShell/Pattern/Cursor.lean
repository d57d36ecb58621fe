/-
This file reads the text of a pattern sign by sign. A sign is a character, or a backslash
with the character after it. A reader that fails tells the position at which it stood.
-/

import MiniShell.Pattern.Item
import MiniShell.Pattern.Flaw
import MiniShell.Text.Identifier
import MiniShell.Text.Letter
import MiniShell.Text.Name
import MiniShell.Text.Numeral

namespace MiniShell.Pattern

/-- How far a text has been read, and what is known of its groups. -/
structure Cursor where
  /-- The whole text. -/
  text : Text
  /-- The next sign, if there is one. -/
  next : Option Text
  /-- What follows the next sign. -/
  rest : Text
  /-- The position behind the next sign. -/
  index : Nat
  /-- The options of the whole pattern. -/
  options : Options := {}
  /-- The widths of the groups that have been closed; group zero never is. -/
  groups : List (Option Width) := [none]
  /-- The numbers of the named groups. -/
  names : List (Text × Nat) := []
  /-- The number of groups before the outermost test of what stands before. -/
  behind : Option Nat := none
  /-- The groups that conditions refer to, with the positions. -/
  conditions : List (Nat × Nat) := []
  /-- The code points of the characters that may be given by their names. -/
  codeOfName? : Text → Option Nat := Text.codeOfName?

/-- A computation that reads signs and may fail. -/
abbrev Reader := StateT Cursor (Except Flaw)

namespace Cursor

/-- Takes the next sign of a text, which stands at an index. -/
def advance (cursor : Cursor) : Except Flaw Cursor :=
  match cursor.rest with
  | [] => .ok { cursor with next := none }
  | '\\' :: rest =>
    match rest with
    | [] =>
      .error (.malformed "bad escape (end of pattern)" (some (cursor.text.length - 1)) cursor.text)
    | character :: rest =>
      .ok { cursor with next := some ['\\', character], rest, index := cursor.index + 2 }
  | character :: rest =>
    .ok { cursor with next := some [character], rest, index := cursor.index + 1 }

/-- A cursor in front of a text. -/
def ofText (text : Text) : Except Flaw Cursor :=
  advance { text, next := none, rest := text, index := 0 }

/-- The position of the next sign. -/
def position (cursor : Cursor) : Nat := cursor.index - (cursor.next.getD []).length

end Cursor

namespace Reader

/-- The next sign. -/
def peek : Reader (Option Text) := do return (← get).next

/-- Whether the next sign is a certain character. -/
def sees (character : Char) : Reader Bool := do return (← peek) = some [character]

/-- Takes the next sign. -/
def take : Reader (Option Text) := do
  let cursor ← get
  let after ← cursor.advance
  set after
  return cursor.next

/-- Takes the next sign if it is a certain character. -/
def accept (character : Char) : Reader Bool := do
  if ← sees character then
    let _ ← take
    return true
  else return false

/-- Fails at a number of characters before the next sign. -/
def failBefore (back : Nat) (reason : Text) : Reader α := do
  let cursor ← get
  throw (.malformed reason (some (cursor.position - back)) cursor.text)

/-- Fails at the next sign. -/
def fail (reason : Text) : Reader α := failBefore 0 reason

/-- Fails at a position. -/
def failAt (position : Nat) (reason : Text) : Reader α := do
  throw (.malformed reason (some position) (← get).text)

/-- The position of the next sign. -/
def position : Reader Nat := do return (← get).position

/-- Goes back to a position. -/
def goTo (position : Nat) : Reader Unit := do
  let cursor ← get
  let after ← Cursor.advance { cursor with rest := cursor.text.drop position, index := position }
  set after

/-- Takes signs of one character as long as they are of a kind, and no more than a number
of them. -/
def takeWhile (isTaken : Char → Bool) : Nat → Reader Text
  | 0 => return []
  | number + 1 => do
    match ← peek with
    | some [character] =>
      if isTaken character then
        let _ ← take
        return character :: (← takeWhile isTaken number)
      else return []
    | _ => return []

/-- Takes all the signs of one character that are of a kind. -/
def takeAll (isTaken : Char → Bool) : Reader Text := do
  takeWhile isTaken ((← get).rest.length + 1)

/-- Takes signs up to a character, which is dropped. `found` holds the signs taken. -/
def takeUntilLoop (terminator : Char) (what : Text) : Nat → Text → Reader Text
  | 0, found => return found
  | steps + 1, found => do
    match ← take with
    | none =>
      if found = [] then fail ("missing ".toList ++ what)
      else
        failBefore found.length
          ("missing ".toList ++ terminator :: ", unterminated name".toList)
    | some sign =>
      if sign = [terminator] then
        if found = [] then failBefore 1 ("missing ".toList ++ what) else return found
      else takeUntilLoop terminator what steps (found ++ sign)

/-- Takes a name that ends at a character. -/
def takeUntil (terminator : Char) (what : Text) : Reader Text := do
  takeUntilLoop terminator what ((← get).rest.length + 2) []

/-- Takes signs up to a character or to the end. -/
def skipUntil (terminator : Char) : Nat → Reader Unit
  | 0 => return ()
  | steps + 1 => do
    match ← take with
    | none => return ()
    | some sign => if sign = [terminator] then return () else skipUntil terminator steps

end Reader

/-! ### Kinds of characters -/

def isDigitSign (character : Char) : Bool := '0' ≤ character && character ≤ '9'

def isOctalSign (character : Char) : Bool := '0' ≤ character && character ≤ '7'

def isHexSign (character : Char) : Bool :=
  isDigitSign character || 'a' ≤ character && character ≤ 'f' ||
    'A' ≤ character && character ≤ 'F'

def isLetterSign (character : Char) : Bool :=
  'a' ≤ character && character ≤ 'z' || 'A' ≤ character && character ≤ 'Z'

/-- The blanks that a verbose pattern may hold. -/
def isBlankSign (character : Char) : Bool :=
  character = ' ' || '\t' ≤ character && character ≤ '\r'

/-- The value of a digit of any base up to sixteen. -/
def signValue (character : Char) : Nat :=
  if isDigitSign character then character.toNat - 0x30
  else if 'a' ≤ character then character.toNat - 0x57
  else character.toNat - 0x37

/-- The value of digits in a base. -/
def valueOf (base : Nat) (digits : Text) : Nat :=
  digits.foldl (fun value digit => base * value + signValue digit) 0

/-- The number of a decimal numeral, which may not have too many digits. -/
def readCount (digits : Text) : Reader Nat :=
  if Text.digitLimit < digits.length then throw (.count digits.length)
  else return valueOf 10 digits

end MiniShell.Pattern
