/-
This file tells which characters the literals and the sets of a pattern stand for. Where case
is ignored, the lower-case letter of a character is compared. A set of which no member has a
case compares the character itself.
-/

import MiniShell.Pattern.Item
import MiniShell.Text.Alphanumeric
import MiniShell.Text.CaseFold
import MiniShell.Text.Decimal
import MiniShell.Text.Space

namespace MiniShell.Pattern

/-! ### Kinds of characters -/

/-- Whether a character of ASCII is a letter. -/
def isPlainLetter (code : Nat) : Bool :=
  0x41 ≤ code && code ≤ 0x5A || 0x61 ≤ code && code ≤ 0x7A

/-- Whether a character is of a kind. -/
def Category.holds (ascii : Bool) (kind : Category) (code : Nat) : Bool :=
  match kind with
  | .digit =>
    if ascii then 0x30 ≤ code && code ≤ 0x39 else Text.isDecimal (Char.ofNat code)
  | .space =>
    if ascii then code = 0x20 || 0x09 ≤ code && code ≤ 0x0D else Text.isSpace (Char.ofNat code)
  | .word =>
    code = 0x5F ||
      if ascii then isPlainLetter code || 0x30 ≤ code && code ≤ 0x39
      else Text.isAlphanumeric (Char.ofNat code)

/-! ### Case -/

/-- The lower-case letter of a character. -/
def lowerOf (ascii : Bool) (code : Nat) : Nat :=
  if ascii then if 0x41 ≤ code && code ≤ 0x5A then code + 0x20 else code
  else Text.lowerCode code

/-- Whether a character has a counterpart in the other case. -/
def isCased (ascii : Bool) (code : Nat) : Bool :=
  if ascii then isPlainLetter code else Text.hasCase code

/-- The lower-case letters that equal a lower-case letter. -/
def lowerEquals (ascii : Bool) (low : Nat) : List Nat :=
  if ascii then [low] else Text.equivalents low

/-- The last character of the first plane. Sets treat the characters behind it one by one. -/
def lastOfPlane : Nat := 0xFFFF

/-- Whether some character of a range has a counterpart in the other case. -/
def rangeIsCased (ascii : Bool) (low high : Nat) : Bool :=
  if ascii then low ≤ 0x5A && 0x41 ≤ high || low ≤ 0x7A && 0x61 ≤ high
  else
    Text.hasCase low ||
      Text.twoCasedBoundaries.any fun boundary => low < boundary && boundary ≤ high

/-- Whether a member of a set brings case into it. -/
def Member.isCased (ascii : Bool) : Member → Bool
  | .literal code => lastOfPlane < code || Pattern.isCased ascii code
  | .range low high => lastOfPlane < high || rangeIsCased ascii low high
  | .category _ _ => false

/-! ### Tests -/

/-- Whether a member of a set stands for a character, case apart. -/
def Member.holds (ascii : Bool) (code : Nat) : Member → Bool
  | .literal other => code = other
  | .range low high => low ≤ code && code ≤ high
  | .category kind negated => kind.holds ascii code != negated

/-- Whether a range holds a character with a given lower-case letter. -/
def rangeHoldsLower (ascii : Bool) (low high letter : Nat) : Bool :=
  let holds (code : Nat) : Bool := low ≤ code && code ≤ high
  if ascii then
    holds letter || 0x61 ≤ letter && letter ≤ 0x7A && holds (letter - 0x20) ||
      lastOfPlane < letter && (Text.preimages letter).any holds
  else (Text.equivalents letter).any fun equal => (Text.preimages equal).any holds

/-- Whether a member of a set stands for a character with a given lower-case letter. -/
def Member.holdsLower (ascii : Bool) (letter : Nat) : Member → Bool
  | .literal other =>
    if lastOfPlane < other then letter = other
    else (lowerEquals ascii (lowerOf ascii other)).contains letter
  | .range low high => rangeHoldsLower ascii low high letter
  | .category kind negated => kind.holds ascii letter != negated

/-- Whether a literal stands for a character. -/
def literalHolds (options : Options) (literal code : Nat) : Bool :=
  if options.ignoreCase && isCased options.ascii literal then
    (lowerEquals options.ascii (lowerOf options.ascii literal)).contains
      (lowerOf options.ascii code)
  else code = literal

/-- Whether a set stands for a character. -/
def setHolds (options : Options) (negated : Bool) (members : List Member) (code : Nat) : Bool :=
  let found :=
    if options.ignoreCase && members.any (Member.isCased options.ascii) then
      members.any (Member.holdsLower options.ascii (lowerOf options.ascii code))
    else members.any (Member.holds options.ascii code)
  found != negated

/-- Whether two characters count as equal where the text of a group has to come again. -/
def sameCharacter (options : Options) (code other : Nat) : Bool :=
  if options.ignoreCase then lowerOf options.ascii code = lowerOf options.ascii other
  else code = other

end MiniShell.Pattern
