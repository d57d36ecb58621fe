/-
This file defines the commands that pass lines on: all of them, the first ones or the last
ones.
-/

import MiniShell.Session.Input
import MiniShell.Text.Numeral
import MiniShell.Text.Space

namespace MiniShell

/-- The number that a text stands for. -/
def Action.number (text : Text) : Action Int :=
  match Text.toInt text with
  | .ok number => pure number
  | .error cause => throw (.numeral cause)

namespace Command

/-! ### Lines -/

/-- The fault of a command whose file does not exist. -/
def missingFile (name : Text) : Fault → Fault
  | .system .noEntry _ => .fileMissing name
  | other => other

/-- The lines of a file, by its name. -/
def fileLines (name : Text) : Action (List Text) :=
  Action.rephrase (missingFile name) (Action.readLines name)

/-- The lines of a file, or of standard input where no file is named. -/
def linesOf (name : Text) : Action (List Text) :=
  if name = [] then Action.someInputLines else fileLines name

/-- Gives the last of the lines its line feed. An empty line has no last character to look
at. -/
def endLast (lines : List Text) : Except Fault (List Text) :=
  match lines.getLast? with
  | none => .error .listIndex
  | some line =>
    match line.getLast? with
    | none => .error .textIndex
    | some '\n' => .ok lines
    | some _ => .ok (lines.dropLast ++ [line ++ ['\n']])

/-- Ends the output with a line feed. -/
def endOutput : Action Unit := do
  match endLast (← get).out with
  | .ok lines => modify fun session => { session with out := lines }
  | .error fault => throw fault

/-- Ends the output with a line feed, if there is any output. -/
def endSomeOutput : Action Unit := do
  if (← get).out = [] then pure () else endOutput

/-! ### All lines -/

/-- Passes on the lines of files, or of standard input. -/
def cat (arguments : List Text) : Action Unit := do
  if arguments = [] then Action.emit (← Action.someInputLines)
  else
    arguments.forM fun argument => do
      let lines ← Action.rephrase (missingFile argument) (Action.readLines (Text.trimEnd argument))
      Action.emit lines
  endSomeOutput

/-! ### Some lines -/

/-- The first lines, as many as asked for. -/
def firstLines (number : Int) (lines : List Text) : List Text := lines.take number.toNat

/-- The last lines, as many as asked for. -/
def lastLines (number : Int) (lines : List Text) : List Text :=
  lines.drop (lines.length - number.toNat)

/-- The number of lines when none is given. -/
def usualNumber : Int := 10

/-- Passes on the lines that a command picks. `name` is the name of the command, which the
usage shows. -/
def someLines (name : Text) (pick : Int → List Text → List Text) (arguments : List Text) :
    Action Unit := do
  let usage (file : Text) : Text := " [".toList ++ name ++ " (-n <num_lines>)? ".toList ++ file
  match arguments with
  | [] => Action.emit (pick usualNumber (← linesOf []))
  | [file] => Action.emit (pick usualNumber (← linesOf file))
  | [flag, number] =>
    if flag ≠ "-n".toList then
      throw (.wrongFlags ("Wrong flags".toList ++ usage "<file>?]"))
    else
      let number ← Action.number number
      Action.emit (pick number (← linesOf []))
  | [flag, number, file] =>
    if flag ≠ "-n".toList then
      throw (.wrongFlags ("Wrong flags".toList ++ usage "<file>]"))
    else
      let number ← Action.number number
      Action.emit (pick number (← linesOf file))
  | _ => throw (.wrongCount (List.replicate 16 ' ' ++ usage "<file>?]"))

/-- Passes on the first lines. -/
def head (arguments : List Text) : Action Unit := someLines "head" firstLines arguments

/-- Passes on the last lines. -/
def tail (arguments : List Text) : Action Unit := someLines "tail" lastLines arguments

end Command

end MiniShell
