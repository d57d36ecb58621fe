/-
This file defines the commands that work with patterns: one passes on the lines that begin
with a match, the other replaces matches.
-/

import MiniShell.Command.Cutting
import MiniShell.Pattern.Replacement

namespace MiniShell.Command

/-- Gives a result, or ends in the fault of a pattern. -/
def orFlaw : Except Pattern.Flaw α → Action α
  | .ok result => pure result
  | .error flaw => throw (.pattern flaw)

/-! ### Searching -/

/-- The lines that begin with a match. The pattern is not read if there are no lines. -/
def matchingLines (pattern : Text) : List Text → Except Pattern.Flaw (List Text)
  | [] => .ok []
  | lines => do
    let expression ← Pattern.Expression.ofText pattern
    return lines.filter expression.matchesStart

/-- The fault of a search through files. -/
def searchFault (pattern name : Text) : Fault → Fault
  | .system .noEntry _ => .fileMissing name
  | .pattern (.malformed _ _ _) => .badSearch pattern
  | other => other

/-- Passes on the matching lines of files. With several files, each line is marked with the
name of its file. -/
def searchFiles (pattern : Text) (files : List Text) : Action Unit := do
  files.forM fun name =>
    Action.rephrase (searchFault pattern name) do
      let lines ← Action.readLines name
      let found ← orFlaw (matchingLines pattern lines)
      if files.length > 1 then Action.emit (found.map fun line => name ++ ':' :: line)
      else Action.emit found
  endSomeOutput

/-- Passes on the lines that begin with a match. -/
def grep (arguments : List Text) : Action Unit := do
  match arguments with
  | [] => throw (.wrongCount (List.replicate 17 ' ' ++ "[grep <pattern> <file>?]".toList))
  | [pattern] =>
    let lines ← Action.someInputLines
    Action.emit (← orFlaw (matchingLines pattern lines))
  | pattern :: files => searchFiles pattern files

/-! ### Replacing -/

/-- A replacement of matches. -/
structure Substitution where
  pattern : Text
  replacement : Text
  /-- All matches are replaced, not only the first. -/
  everywhere : Bool

/-- Reads a substitution: four parts between slashes or bars. The first part does not
matter. -/
def substitution? (expression : Text) : Option Substitution :=
  match Text.splitAt (fun character => character = '/' || character = '|') expression with
  | [_, pattern, replacement, flags] => some ⟨pattern, replacement, flags.contains 'g'⟩
  | _ => none

/-- Reads a substitution, or complains about it. -/
def substitution (expression : Text) : Action Substitution :=
  match substitution? expression with
  | some substitution => pure substitution
  | none => throw (.badSubstitution expression)

/-- A line after a substitution. -/
def substitute (substitution : Substitution) (line : Text) : Except Pattern.Flaw Text := do
  let expression ← Pattern.Expression.ofText substitution.pattern
  let parts ← Pattern.partsOf expression substitution.replacement
  return expression.replace parts substitution.everywhere line

/-- Replaces matches in a file. The file is emptied first, and holds the lines up to a fault
if there is one. -/
def substituteInFile (substitution : Substitution) (name : Text) : Action Unit := do
  if !(← Action.pathExists name) then throw (.namedFileMissing name)
  let lines ← Action.readLines name
  Action.writeFile name []
  lines.forM fun line => do
    let changed ← orFlaw (substitute substitution line)
    Action.appendFile name changed
    Action.emit [changed]
  endOutput

/-- Replaces matches in standard input or in a file. -/
def sed (arguments : List Text) : Action Unit := do
  match arguments with
  | [expression] =>
    let substitution ← substitution expression
    let lines ← Action.someInputLines
    lines.forM fun line => do
      Action.emit [← orFlaw (substitute substitution line)]
    endOutput
  | [expression, name] =>
    let substitution ← substitution expression
    substituteInFile substitution name
  | _ => throw (.wrongCount [])

end MiniShell.Command
