/-
This file shows a text in quotes, as messages show file names, numerals and names.
Single quotes are used unless the text holds one and no double quote. Characters
that cannot be printed are written by their code points.
-/

import MiniShell.Text.Printable

namespace MiniShell.Text

/-- The hexadecimal digit of a number below sixteen. -/
def hexDigit (number : Nat) : Char :=
  if number < 10 then Char.ofNat (0x30 + number) else Char.ofNat (0x57 + number)

/-- The last digits of a number in hexadecimal, as many as asked for. -/
def hex : Nat → Nat → Text
  | 0, _ => []
  | width + 1, number => hex width (number / 16) ++ [hexDigit (number % 16)]

/-- A character inside quotes. -/
def quotedCharacter (quote character : Char) : Text :=
  if character = quote || character = '\\' then ['\\', character]
  else if character = '\n' then "\\n"
  else if character = '\r' then "\\r"
  else if character = '\t' then "\\t"
  else if isPrintable character then [character]
  else
    let code := character.toNat
    if code < 0x100 then "\\x".toList ++ hex 2 code
    else if code < 0x10000 then "\\u".toList ++ hex 4 code
    else "\\U".toList ++ hex 8 code

/-- The quote that a text is shown in. -/
def quoteFor (text : Text) : Char :=
  if text.contains '\'' && !text.contains '"' then '"' else '\''

/-- A text in quotes. -/
def quoted (text : Text) : Text :=
  let quote := quoteFor text
  quote :: text.flatMap (quotedCharacter quote) ++ [quote]

end MiniShell.Text
