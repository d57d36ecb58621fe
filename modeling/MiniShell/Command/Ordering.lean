/-
This file defines the commands that compare lines: one sorts them, the other drops a line
that equals the one before it.
-/

import MiniShell.Command.Reading
import MiniShell.Text.Lower

namespace MiniShell.Command

/-! ### Sorting -/

/-- The lines in order, or in reverse order. Equal lines cannot be told apart. -/
def sortLines (reverse : Bool) (lines : List Text) : List Text :=
  if reverse then lines.mergeSort fun first second => Text.atMost second first
  else lines.mergeSort Text.atMost

/-- The lines of a file, each with its line feed. -/
def endedLines (name : Text) : Action (List Text) := do
  let lines ← fileLines name
  match endLast lines with
  | .ok ended => pure ended
  | .error _ => pure lines

/-- Passes on lines in order. -/
def sort (arguments : List Text) : Action Unit := do
  let usage : Text := " [sort -r? <file>?]"
  let flag : Text := "-r"
  let lines (name : Text) : Action (List Text) :=
    if name = [] then Action.someInputLines else endedLines name
  match arguments with
  | [] => Action.emit (sortLines false (← lines []))
  | [argument] =>
    if argument = flag then Action.emit (sortLines true (← lines []))
    else Action.emit (sortLines false (← lines argument))
  | [first, name] =>
    if first = flag then Action.emit (sortLines true (← lines name))
    else throw (.wrongFlags ("Wrong flags".toList ++ usage))
  | _ => throw (.wrongCount usage)

/-! ### Dropping repetitions -/

/-- A line without the line feeds around it. -/
def bare (line : Text) : Text := Text.trim (fun character => character = '\n') line

/-- What has to differ between two neighbours. -/
def comparable (ignoreCase : Bool) (line : Text) : Text :=
  if ignoreCase then Text.lower line else line

/-- The lines that differ from the one before them, after a line that is kept. -/
def changes (ignoreCase : Bool) (kept : Text) : List Text → List Text
  | [] => []
  | line :: rest =>
    if comparable ignoreCase line = comparable ignoreCase kept then changes ignoreCase kept rest
    else line :: changes ignoreCase line rest

/-- The first line of every run of equal lines, each with its line feed. There has to be a
line. -/
def uniqueLines (ignoreCase : Bool) (lines : List Text) : Except Fault (List Text) :=
  match lines.map bare with
  | [] => .error .listIndex
  | first :: rest => .ok ((first :: changes ignoreCase first rest).map fun line => line ++ ['\n'])

/-- Passes on the first line of every run of equal lines. -/
def uniq (arguments : List Text) : Action Unit := do
  let usage : Text := " [uniq -i <file>?]"
  let flag : Text := "-i"
  let pass (ignoreCase : Bool) (lines : List Text) : Action Unit := do
    match uniqueLines ignoreCase lines with
    | .ok unique => Action.emit unique
    | .error fault => throw fault
  match arguments with
  | [] => pass false (← Action.someInputLines)
  | [argument] =>
    if argument = flag then pass true (← Action.someInputLines)
    else pass false (← fileLines argument)
  | [first, name] =>
    if first = flag then pass true (← fileLines name)
    else throw (.wrongFlags ("Wrong flags".toList ++ usage))
  | _ => throw (.wrongCount usage)

end MiniShell.Command
