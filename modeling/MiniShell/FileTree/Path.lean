/-
This file handles paths as texts: how two are joined, what the last part is, and how a
path is cut into the names that a look-up goes through.
-/

import MiniShell.Text.Utf8

namespace MiniShell

namespace Text

/-! ### Paths as texts -/

/-- Whether a character divides the parts of a path. -/
def isSlash (character : Char) : Bool := character = '/'

/-- Whether a path starts at the root. -/
def isAbsolute (path : Text) : Bool := path.head? = some '/'

/-- A path continued by another. A path from the root replaces what stands before it. -/
def joinPath (path further : Text) : Text :=
  if isAbsolute further then further
  else if path = [] || path.getLast? = some '/' then path ++ further
  else path ++ '/' :: further

/-- The part after the last slash. -/
def baseName (path : Text) : Text := (splitAt isSlash path).getLastD []

/-- The part before the last slash, without the slashes at its end unless it has no
other characters. -/
def parentPath (path : Text) : Text :=
  let before := path.take (path.length - (baseName path).length)
  if before.all isSlash then before else dropEnd isSlash before

/-- Whether a name is hidden from listings. -/
def isHidden (name : Text) : Bool := name.head? = some '.'

end Text

/-! ### Paths as names -/

/-- A path cut at its slashes. -/
structure Path where
  /-- It starts at the root, not at the working directory. -/
  absolute : Bool
  /-- Its parts, none of which is empty. -/
  parts : List Text
  /-- It ends in a slash, so that only a directory can be meant. -/
  slash : Bool

namespace Path

/-- The name of the directory itself. -/
def here : Text := ['.']

/-- The name of the directory above. -/
def above : Text := ['.', '.']

/-- Cuts a path. -/
def ofText (text : Text) : Path where
  absolute := Text.isAbsolute text
  parts := (Text.splitAt Text.isSlash text).filter fun part => part ≠ []
  slash := text.getLast? = some '/'

/-- The greatest number of bytes of a name. -/
def longestName : Nat := 255

/-- The number of bytes that no path may reach. -/
def tooLong : Nat := 4096

/-! ### Normal forms -/

/-- One more part of a path in normal form: a step up takes back the part before, unless
there is none or that is a step up too. `kept` holds the parts in reverse. -/
def normalStep (absolute : Bool) (kept : List Text) (part : Text) : List Text :=
  if part = here then kept
  else if part = above then
    match kept with
    | [] => if absolute then [] else [above]
    | last :: rest => if last = above then above :: last :: rest else rest
  else part :: kept

/-- The parts of a path without the needless ones. -/
def normalParts (path : Path) : List Text :=
  (path.parts.foldl (normalStep path.absolute) []).reverse

/-- How many parts two lists have in common at their beginnings. -/
def commonLength : List Text → List Text → Nat
  | first :: rest, second :: others =>
    if first = second then commonLength rest others + 1 else 0
  | _, _ => 0

/-- The way from one place to another, both given by their normal parts. -/
def wayBetween (start target : List Text) : Text :=
  let common := commonLength start target
  let parts := List.replicate (start.length - common) above ++ target.drop common
  if parts = [] then here else Text.join ['/'] parts

end Path

end MiniShell
