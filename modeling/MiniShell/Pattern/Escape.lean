/-
This file reads the signs that begin with a backslash. A character may be given by its code
point in hexadecimal or in octal digits, or by its name. Outside sets, such a sign may also
stand for a kind of character, a test of the position, or what a group has matched.
-/

import MiniShell.Pattern.Cursor

namespace MiniShell.Pattern

/-- The control character that a letter stands for after a backslash. -/
def controlCode? : Char → Option Nat
  | 'a' => some 7
  | 'b' => some 8
  | 'f' => some 12
  | 'n' => some 10
  | 'r' => some 13
  | 't' => some 9
  | 'v' => some 11
  | '\\' => some 92
  | _ => none

/-- The kind of character that a letter stands for after a backslash. -/
def category? : Char → Option Member
  | 'd' => some (.category .digit false)
  | 'D' => some (.category .digit true)
  | 's' => some (.category .space false)
  | 'S' => some (.category .space true)
  | 'w' => some (.category .word false)
  | 'W' => some (.category .word true)
  | _ => none

/-- The test that a letter stands for after a backslash. -/
def anchor? : Char → Option Anchor
  | 'A' => some .textStart
  | 'Z' => some .textEnd
  | 'b' => some .boundary
  | 'B' => some .notBoundary
  | _ => none

/-- How many hexadecimal digits follow a letter. -/
def hexWidth? : Char → Option Nat
  | 'x' => some 2
  | 'u' => some 4
  | 'U' => some 8
  | _ => none

namespace Reader

/-- Fails because a sign with a backslash has no meaning. -/
def badEscape (sign : Text) : Reader α :=
  failBefore sign.length ("bad escape ".toList ++ sign)

/-- The code point given by a number of hexadecimal digits. -/
def hexEscape (letter : Char) (width : Nat) : Reader Nat := do
  let digits ← takeWhile isHexSign width
  let sign := '\\' :: letter :: digits
  if digits.length ≠ width then failBefore sign.length ("incomplete escape ".toList ++ sign)
  else
    let code := valueOf 16 digits
    if code < 0x110000 then return code else badEscape sign

/-- A character given by its name. -/
def namedEscape : Reader Nat := do
  if ← accept '{' then
    let name ← takeUntil '}' "character name"
    match (← get).codeOfName? name with
    | some code => return code
    | none => failBefore (name.length + 4) ("undefined character name ".toList ++ Text.quoted name)
  else fail "missing \x7b"

/-- The code point given by octal digits. -/
def octalCode (digits : Text) : Reader Nat :=
  let code := valueOf 8 digits
  if code ≤ 0o377 then return code
  else
    failBefore (digits.length + 1)
      ("octal escape value \\".toList ++ digits ++ " outside of range 0-0o377".toList)

/-- The code point of a sign with a backslash that has no special meaning. -/
def plainEscape (character : Char) : Reader Nat :=
  if isLetterSign character || isDigitSign character then badEscape ['\\', character]
  else return character.toNat

/-- A sign with a backslash inside a set. -/
def setEscape (character : Char) : Reader Member := do
  match controlCode? character, category? character, hexWidth? character with
  | some code, _, _ => return .literal code
  | _, some member, _ => return member
  | _, _, some width => return .literal (← hexEscape character width)
  | _, _, _ =>
    if character = 'N' then return .literal (← namedEscape)
    else if isOctalSign character then
      return .literal (← octalCode (character :: (← takeWhile isOctalSign 2)))
    else return .literal (← plainEscape character)

/-- Whether a group has been closed. -/
def isClosed (number : Nat) : Reader Bool := do
  return ((← get).groups[number]?).getD none |>.isSome

/-- Refuses a reference, inside a test of what stands before, to a group that is open or
belongs to the same test. -/
def checkBehind (number : Nat) : Reader Unit := do
  match (← get).behind with
  | none => return ()
  | some before =>
    if !(← isClosed number) then fail "cannot refer to an open group"
    else if before ≤ number then
      fail "cannot refer to group defined in the same lookbehind subpattern"

/-- A reference to a group. `back` is the length of the sign that makes it. -/
def reference (number back : Nat) : Reader Item := do
  if !(← isClosed number) then failBefore back "cannot refer to an open group"
  else
    checkBehind number
    return .reference number

/-- A sign with a backslash and a digit: a reference to a group, or three octal digits. -/
def digitEscape (first : Char) : Reader Item := do
  match ← takeWhile isDigitSign 1 with
  | [second] =>
    let third ← if isOctalSign first && isOctalSign second then takeWhile isOctalSign 1 else pure []
    match third with
    | [third] => return .literal (← octalCode [first, second, third])
    | _ => toGroup [first, second]
  | _ => toGroup [first]
where
  toGroup (digits : Text) : Reader Item := do
    let number := valueOf 10 digits
    if number < (← get).groups.length then reference number (digits.length + 1)
    else failBefore digits.length ("invalid group reference ".toList ++ Text.ofNat number)

/-- A sign with a backslash outside sets. -/
def escape (character : Char) : Reader Item := do
  match anchor? character, category? character, controlCode? character, hexWidth? character with
  | some anchor, _, _, _ => return .anchor anchor
  | _, some member, _, _ => return .set false [member]
  | _, _, some code, _ => return .literal code
  | _, _, _, some width => return .literal (← hexEscape character width)
  | _, _, _, _ =>
    if character = 'N' then return .literal (← namedEscape)
    else if character = '0' then
      return .literal (valueOf 8 (← takeWhile isOctalSign 2))
    else if isDigitSign character then digitEscape character
    else return .literal (← plainEscape character)

end Reader

end MiniShell.Pattern
