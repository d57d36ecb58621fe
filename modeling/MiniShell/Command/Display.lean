/-
This file defines the commands that show texts, and the one that leaves the shell.
-/

import MiniShell.Session.Basic
import MiniShell.Text.Lower

namespace MiniShell.Command

/-- Shows its arguments. -/
def echo (arguments : List Text) : Action Unit :=
  Action.emit [Text.join [' '] arguments ++ ['\n']]

/-- What the shell says at its end. -/
def farewell : Text := "Exiting shell. Goodbye! 👋\n"

/-- Leaves the shell. -/
def exit (_ : List Text) : Action Unit := do
  Action.print farewell
  throw .leave

/-! ### Styles -/

/-- The sequence that selects a style of the terminal. -/
def style (number : Nat) : Text := '\x1b' :: '[' :: Text.ofNat number ++ ['m']

/-- The colours. -/
def colours : List (Text × Nat) :=
  [("grey", 30), ("red", 31), ("lime", 32), ("orange", 33), ("blue", 34), ("purple", 35),
   ("light blue", 36), ("ghostwhite", 37), ("light grey", 90), ("light red", 91),
   ("light lime", 92), ("yellow", 93), ("light purple", 95), ("cyan", 36), ("white", 37),
   ("reset", 0)]

/-- The fonts. -/
def fonts : List (Text × Nat) :=
  [("bold", 1), ("dark", 2), ("italic", 3), ("underline", 4), ("reversed", 7), ("crossed", 9),
   ("reset", 0)]

/-- Selects a colour, whose name may have two words. -/
def color (arguments : List Text) : Action Unit :=
  if arguments = [] || arguments.length > 2 then throw (.wrongCount " [color <colour>]")
  else
    match colours.lookup (Text.lower (Text.join [' '] arguments)) with
    | some number => Action.emit [style number]
    | none => throw (.badColour arguments.flatten)

/-- Selects a font. -/
def font (arguments : List Text) : Action Unit :=
  match arguments with
  | [name] =>
    match fonts.lookup (Text.lower name) with
    | some number => Action.emit [style number]
    | none => throw (.badFont name)
  | _ => throw (.wrongCount " [font <font>]")

end MiniShell.Command
