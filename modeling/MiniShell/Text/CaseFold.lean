/-
This file tells which characters are equal when case is ignored: those with the
same lower-case letter, and some lower-case letters that share a capital.
-/

import MiniShell.Text.Boundary
import MiniShell.Text.Lower

namespace MiniShell.Text

/-- Where the letters with a counterpart in the other case begin and end. -/
def twoCasedBoundaries : List Nat :=
  boundariesFrom 0
    [65, 26, 6, 26, 58, 1, 10, 23, 1, 31, 1, 64, 1, 84, 1, 13, 1, 14, 2, 14, 2, 2, 1, 1, 4, 93, 1,
     18, 6, 27, 1, 2, 1, 1, 1, 2, 3, 2, 1, 1, 1, 2, 1, 5, 2, 1, 1, 2, 2, 1, 7, 1, 2, 1, 1, 2, 3,
     6, 5, 1, 10, 2, 166, 1, 42, 4, 2, 2, 3, 3, 1, 1, 6, 1, 1, 3, 1, 1, 1, 20, 1, 47, 3, 33, 1, 5,
     1, 133, 8, 166, 1, 38, 10, 39, 2840, 38, 1, 1, 5, 1, 2, 43, 2, 3, 672, 86, 2, 6, 2178, 9, 7,
     43, 2, 3, 185, 1, 3, 1, 16, 1, 113, 156, 2, 1, 1, 118, 2, 6, 2, 38, 2, 6, 2, 8, 1, 1, 1, 1,
     1, 1, 1, 31, 2, 53, 1, 7, 1, 1, 3, 3, 1, 7, 3, 4, 2, 6, 4, 13, 5, 3, 1, 7, 297, 1, 3, 2, 6,
     1, 27, 1, 17, 32, 3, 2, 817, 52, 1814, 113, 1, 2, 1, 2, 7, 102, 7, 4, 3, 2, 12, 38, 1, 1, 5,
     1, 30994, 46, 18, 28, 134, 14, 2, 62, 9, 15, 3, 3, 2, 5, 1, 25, 1, 27, 5, 2, 4, 4, 27, 2,
     860, 1, 28, 80, 20288, 7, 12, 5, 1033, 26, 6, 26, 1189, 80, 96, 36, 4, 36, 116, 11, 1, 15, 1,
     7, 1, 2, 1, 11, 1, 15, 1, 7, 1, 2, 1731, 51, 13, 51, 2989, 64, 21856, 64, 31360, 68]

/-- Whether a code point is a letter with a counterpart in the other case. -/
def hasCase (code : Nat) : Bool := within false twoCasedBoundaries code

/-- Lower-case letters with the others that share a capital with them. -/
def sharedCapitals : List (Nat × List Nat) :=
  [(105, [305]), (115, [383]), (181, [956]), (305, [105]), (383, [115]), (837, [953, 8126]),
   (912, [8147]), (944, [8163]), (946, [976]), (949, [1013]), (952, [977]), (953, [837, 8126]),
   (954, [1008]), (956, [181]), (960, [982]), (961, [1009]), (962, [963]), (963, [962]),
   (966, [981]), (976, [946]), (977, [952]), (981, [966]), (982, [960]), (1008, [954]),
   (1009, [961]), (1013, [949]), (1074, [7296]), (1076, [7297]), (1086, [7298]),
   (1089, [7299]), (1090, [7300, 7301]), (1098, [7302]), (1123, [7303]), (7296, [1074]),
   (7297, [1076]), (7298, [1086]), (7299, [1089]), (7300, [1090, 7301]), (7301, [1090, 7300]),
   (7302, [1098]), (7303, [1123]), (7304, [42571]), (7777, [7835]), (7835, [7777]),
   (8126, [837, 953]), (8147, [912]), (8163, [944]), (42571, [7304]), (64261, [64262]),
   (64262, [64261])]

/-- The lower-case letters that a lower-case letter equals when case is ignored. -/
def equivalents (code : Nat) : List Nat :=
  code :: ((sharedCapitals.find? fun entry => entry.1 == code).map Prod.snd).getD []

/-- All code points whose lower-case letter is the given one. -/
def preimages (low : Nat) : List Nat :=
  let capitals := capitalRuns.filterMap fun run =>
    let code := ((low : Int) - run.distance).toNat
    if run.holds code then some code else none
  let dotted := if low = 0x69 then [0x130] else []
  if lowerCode low = low then low :: capitals ++ dotted else capitals ++ dotted

end MiniShell.Text
