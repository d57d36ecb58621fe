/-
This file defines how a set of characters is tabulated: by the code points at
which membership changes, in increasing order. Every table of characters in this
library has this form. The longer ones are written with the lengths of the
stretches between these points.
-/

import MiniShell.Text.Basic

namespace MiniShell.Text

/-- Whether a number lies in the set with the given boundaries. Numbers below the
first boundary have the status `inside`, and each boundary passed reverses it. -/
def within (inside : Bool) : List Nat → Nat → Bool
  | [], _ => inside
  | boundary :: rest, number => if number < boundary then inside else within (!inside) rest number

/-- The boundaries of stretches with the given lengths, one behind the other. -/
def boundariesFrom (start : Nat) : List Nat → List Nat
  | [] => []
  | length :: rest => (start + length) :: boundariesFrom (start + length) rest

/-- Whether a character lies in the set with the given boundaries. -/
def inTable (boundaries : List Nat) (character : Char) : Bool :=
  within false boundaries character.toNat

end MiniShell.Text
