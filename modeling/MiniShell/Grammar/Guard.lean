/-
This file tells which operators a rule may continue with, for a caller that names the rule and
the operator by their numbers. It is the test that the forecasts of semicolons and bars make:
the level at which the rule was entered must not be above the rank of the operator.
-/

import MiniShell.Fault
import MiniShell.Grammar.Place
import MiniShell.Grammar.Tree

namespace MiniShell

/-- The rules that have ranked operators, by their numbers. -/
def rankedRule? : Int → Option Rule
  | 0 => some .command
  | 1 => some .pipe
  | _ => none

/-- The operators of a rule by their numbers. -/
def operator? : Rule → Int → Option Operator
  | .command, 0 => some .semicolon
  | .pipe, 1 => some .barBeforeCall
  | .pipe, 2 => some .barBeforeCommand
  | _, _ => none

/-- Whether an operator may continue a rule that was entered at a level. Nothing is known about
an operator that the rule does not have. -/
def operatorAllowed (level rule operator : Int) : Except Fault (Option Bool) :=
  match rankedRule? rule with
  | none => .error (.noGuard rule)
  | some rule => .ok ((operator? rule operator).map fun operator => decide (level ≤ operator.rank))

end MiniShell
