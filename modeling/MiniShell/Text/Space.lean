/-
This file tells which characters are white space. They separate words when words
are counted, and are dropped where a text is trimmed. The set holds the separators
U+001C to U+001F, the next line U+0085 and the spaces of every script.
-/

import MiniShell.Text.Boundary

namespace MiniShell.Text

/-- Where white space begins and ends. -/
def spaceBoundaries : List Nat :=
  [9, 14, 28, 33, 133, 134, 160, 161, 5760, 5761, 8192, 8203, 8232, 8234, 8239, 8240, 8287,
   8288, 12288, 12289]

/-- White space. -/
def isSpace (character : Char) : Bool := inTable spaceBoundaries character

/-- A text without the white space at its end. -/
def trimEnd (text : Text) : Text := dropEnd isSpace text

/-- A text without the white space at both ends. -/
def strip (text : Text) : Text := trim isSpace text

/-- The words of a text: its longest parts without white space, in order. -/
def words (text : Text) : List Text := (splitAt isSpace text).filter fun word => !word.isEmpty

end MiniShell.Text
