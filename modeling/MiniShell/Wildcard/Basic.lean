/-
This file matches names against wildcards: a star stands for any text, a question mark for
any character, and brackets for the characters of a set. A wildcard has to match the whole
name.
-/

import MiniShell.Pattern.Character

namespace MiniShell

/-- What a wildcard is made of. -/
inductive Wild
  | star
  | any
  | literal (character : Char)
  | set (negated : Bool) (members : List Pattern.Member)

/-- A wildcard. -/
abbrev Wildcard := List Wild

namespace Wildcard

/-! ### Sets -/

/-- A sign between brackets: a character, or a dash between the ends of a range. -/
inductive SetSign
  | sign (character : Char)
  | dash

/-- The members that signs stand for. A dash that has nothing before it stands for itself. -/
def members : List SetSign → List Pattern.Member
  | [] => []
  | .sign low :: .dash :: .sign high :: rest => .range low.toNat high.toNat :: members rest
  | .sign character :: rest => .literal character.toNat :: members rest
  | .dash :: rest => .literal '-'.toNat :: members rest

/-- Cuts what stands between brackets at the dashes that make ranges. A dash does so only if a
character stands before it that is not the end of a range already, so `guarded` characters
are passed over. `chunk` holds the characters since the last cut. -/
def cut : Nat → Text → Text → List Text
  | _, chunk, [] => [chunk]
  | guarded + 1, chunk, character :: rest => cut guarded (chunk ++ [character]) rest
  | 0, chunk, character :: rest =>
    if character = '-' then chunk :: cut 2 [] rest else cut 0 (chunk ++ [character]) rest

/-- The chunks with a dash at the end given back to the last of them. -/
def keepLastDash (chunks : List Text) : List Text :=
  match chunks.reverse with
  | [] :: last :: rest => ((last ++ ['-']) :: rest).reverse
  | _ => chunks

/-- The chunks without the ranges that are empty because their ends are in the wrong order. -/
def dropEmptyRanges : List Text → List Text
  | [] => []
  | chunk :: rest =>
    match dropEmptyRanges rest with
    | [] => [chunk]
    | next :: others =>
      match chunk.getLast?, next.head? with
      | some low, some high =>
        if high.val < low.val then (chunk.dropLast ++ next.tail) :: others
        else chunk :: next :: others
      | _, _ => chunk :: next :: others

/-- The signs of the chunks, with dashes between them. -/
def signs : List Text → List SetSign
  | [] => []
  | [chunk] => chunk.map .sign
  | chunk :: rest => chunk.map .sign ++ .dash :: signs rest

/-- What brackets stand for. An exclamation mark at the front negates the set. A set without
members matches nothing, and a negated one everything. -/
def ofBrackets (inside : Text) : Wild :=
  let first := if inside.head? = some '!' then 2 else 1
  match dropEmptyRanges (keepLastDash (cut first [] inside)) with
  | ('!' :: chunk) :: rest => .set true (members (signs (chunk :: rest)))
  | chunks => .set false (members (signs chunks))

/-- Takes what stands in brackets, up to the bracket that closes them. The first character
cannot close them, and neither can the first behind an exclamation mark. -/
def takeBrackets (text : Text) : Option (Text × Text) :=
  let first :=
    match text with
    | '!' :: ']' :: _ => 2
    | '!' :: _ => 1
    | ']' :: _ => 1
    | _ => 0
  let inside := (text.drop first).takeWhile fun character => character ≠ ']'
  match text.drop (first + inside.length) with
  | [] => none
  | _ :: rest => some (text.take first ++ inside, rest)

/-! ### Wildcards -/

/-- Reads a wildcard, with a bound on the number of steps. -/
def read : Nat → Text → Wildcard
  | 0, _ => []
  | _, [] => []
  | steps + 1, character :: rest =>
    if character = '*' then .star :: read steps rest
    else if character = '?' then .any :: read steps rest
    else if character = '[' then
      match takeBrackets rest with
      | none => .literal '[' :: read steps rest
      | some (inside, further) => ofBrackets inside :: read steps further
    else .literal character :: read steps rest

/-- The wildcard that a text stands for. -/
def ofText (text : Text) : Wildcard := read text.length text

/-- Whether a text has characters that are special in wildcards. -/
def isWild (text : Text) : Bool :=
  text.any fun character => character = '*' || character = '?' || character = '['

/-! ### Matching -/

/-- Whether some end of a text passes a test. -/
def someEnd (test : Text → Bool) : Text → Bool
  | [] => test []
  | character :: rest => test (character :: rest) || someEnd test rest

/-- Whether a wildcard matches a name. -/
def holds : Wildcard → Text → Bool
  | [], name => name.isEmpty
  | .star :: rest, name => someEnd (holds rest) name
  | .any :: rest, _ :: name => holds rest name
  | .literal character :: rest, other :: name => character = other && holds rest name
  | .set negated members :: rest, other :: name =>
    Pattern.setHolds {} negated members other.toNat && holds rest name
  | _ :: _, [] => false

end Wildcard

end MiniShell
