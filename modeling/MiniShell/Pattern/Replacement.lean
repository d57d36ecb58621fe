/-
This file replaces matches. A replacement is a text in which signs with a backslash stand for
control characters, for characters by their octal codes, and for what groups have matched.
After an empty match, the next match at the same position has to hold a character.
-/

import MiniShell.Pattern.Match

namespace MiniShell.Pattern

/-- What a replacement is made of. -/
inductive Part
  | text (text : Text)
  /-- What a group has matched. Group zero is the whole match. -/
  | group (number : Nat)

namespace Reader

/-- A part that stands for a group. `back` is the length of what has been read of it. -/
def groupPart (expression : Expression) (number back : Nat) : Reader Part :=
  if expression.groups < number then
    failBefore back ("invalid group reference ".toList ++ Text.ofNat number)
  else return .group number

/-- Reads the name or the number of a group between angle brackets. -/
def namedPart (expression : Expression) : Reader Part := do
  if ← accept '<' then
    let name ← takeUntil '>' "group name"
    if Text.isIdentifier name then
      match expression.names.lookup name with
      | some number => groupPart expression number (name.length + 1)
      | none => throw (.unknownGroup name)
    else
      match Text.toInt name with
      | .error _ => badName name
      | .ok number =>
        if number < 0 then badName name
        else groupPart expression number.toNat (name.length + 1)
  else fail "missing <"

/-- Reads the rest of a sign with a digit. -/
def digitPart (expression : Expression) (first : Char) : Reader Part := do
  match ← takeWhile isDigitSign 1 with
  | [second] =>
    let third ← if isOctalSign first && isOctalSign second then takeWhile isOctalSign 1 else pure []
    match third with
    | [third] => return .text [Char.ofNat (← octalCode [first, second, third])]
    | _ => groupPart expression (valueOf 10 [first, second]) 2
  | _ => groupPart expression (valueOf 10 [first]) 1

/-- Reads a part of a replacement that begins with a backslash. -/
def escapedPart (expression : Expression) (character : Char) : Reader Part := do
  if character = 'g' then namedPart expression
  else if character = '0' then
    return .text [Char.ofNat (valueOf 8 (← takeWhile isOctalSign 2))]
  else if isDigitSign character then digitPart expression character
  else
    match controlCode? character with
    | some code => return .text [Char.ofNat code]
    | none =>
      if isLetterSign character then badEscape ['\\', character]
      else return .text ['\\', character]

/-- Reads the parts of a replacement. -/
def parts (expression : Expression) : Nat → Reader (List Part)
  | 0 => return []
  | steps + 1 => do
    match ← take with
    | none => return []
    | some ['\\', character] =>
      let part ← escapedPart expression character
      return part :: (← parts expression steps)
    | some sign => return .text sign :: (← parts expression steps)

end Reader

/-- The parts of a replacement. A text without backslashes is a part by itself. -/
def partsOf (expression : Expression) (text : Text) : Except Flaw (List Part) :=
  if text.contains '\\' then do
    let cursor ← Cursor.ofText text
    let (parts, _) ← (Reader.parts expression (text.length + 1)).run cursor
    return parts
  else .ok [.text text]

/-- What takes the place of a match. A group that has not matched stands for nothing. -/
def expand (parts : List Part) (start stop : Spot) : Text :=
  parts.flatMap fun part =>
    match part with
    | .text text => text
    | .group 0 => start.after.take (stop.offset - start.offset)
    | .group number => (stop.captured? number).getD []

namespace Expression

/-- The rest of a text with its matches replaced. Every round takes a character or is followed
by one that does. -/
def replaceFrom (expression : Expression) (parts : List Part) (everywhere : Bool) :
    Nat → Bool → Spot → Text
  | 0, _, spot => spot.after
  | rounds + 1, advances, spot =>
    match expression.search advances spot with
    | none => spot.after
    | some (start, stop) =>
      spot.after.take (start.offset - spot.offset) ++ expand parts start stop ++
        if everywhere then
          expression.replaceFrom parts everywhere rounds (stop.offset = start.offset) stop.forget
        else stop.after

/-- A text with its first match or all its matches replaced. -/
def replace (expression : Expression) (parts : List Part) (everywhere : Bool) (text : Text) :
    Text :=
  expression.replaceFrom parts everywhere (2 * text.length + 2) false
    (Spot.start expression.groups text)

end Expression

end MiniShell.Pattern
