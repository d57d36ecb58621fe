/-
This file fixes what a text is: a list of characters. Everything the shell
does with words, lines and names (counting, cutting, comparing, joining) goes
character by character, so texts are lists and the operations on them are
structural recursions.
-/

namespace MiniShell

/-- A text is a list of characters, and a position in it counts characters. -/
abbrev Text := List Char

/-- A quoted constant stands for its list of characters. -/
instance : Coe String Text := ⟨String.toList⟩

namespace Text

/-! ### Order -/

/-- Texts are ordered by the code points of their first differing characters,
and a text comes after every proper beginning of it. -/
def precedes : Text → Text → Bool
  | _, [] => false
  | [], _ :: _ => true
  | first :: rest, second :: others =>
    if first = second then precedes rest others else first.val < second.val

/-- The weak form of the order: `first` does not come after `second`. -/
def atMost (first second : Text) : Bool := !precedes second first

/-! ### Cutting and joining -/

/-- The texts one after the other, with a separator between neighbours. -/
def join (separator : Text) : List Text → Text
  | [] => []
  | [last] => last
  | first :: second :: rest => first ++ separator ++ join separator (second :: rest)

/-- Cuts a text at every occurrence of the marks, which are dropped. The result
is never empty: a text without marks is its own single part. -/
def splitAt (isMark : Char → Bool) : Text → List Text
  | [] => [[]]
  | character :: rest =>
    match splitAt isMark rest with
    | [] => [[]]
    | part :: parts =>
      if isMark character then [] :: part :: parts else (character :: part) :: parts

/-- Cuts a text after every line feed, which stays with its line. An empty text
has no lines, and only the last line may lack its line feed. -/
def lines : Text → List Text
  | [] => []
  | character :: rest =>
    if character = '\n' then [character] :: lines rest
    else
      match lines rest with
      | [] => [[character]]
      | line :: others => (character :: line) :: others

/-- Drops the characters of a kind from the end of a text. -/
def dropEnd (isDropped : Char → Bool) : Text → Text
  | [] => []
  | character :: rest =>
    match dropEnd isDropped rest with
    | [] => if isDropped character then [] else [character]
    | kept => character :: kept

/-- Drops the characters of a kind from both ends of a text. -/
def trim (isDropped : Char → Bool) (text : Text) : Text :=
  dropEnd isDropped (text.dropWhile isDropped)

/-- Replaces one character by another throughout. -/
def replace (old new : Char) (text : Text) : Text :=
  text.map fun character => if character = old then new else character

/-- The decimal numeral of a number. -/
def ofNat (number : Nat) : Text := (Nat.repr number).toList

end Text

end MiniShell
