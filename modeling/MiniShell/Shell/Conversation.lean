/-
This file runs whole sessions. A conversation reads command lines one after the other; it
reports the faults that have a label and goes on. A shell that is started with a command line
runs only that.
-/

import MiniShell.Shell.Evaluator

namespace MiniShell.Shell

/-- The report of a fault. -/
def report (label message : Text) : Text :=
  "The following error has occurred: [".toList ++ label ++ "] ".toList ++ message ++ ['\n']

/-- Runs a command line and prints its output, or the report of its fault. -/
def runAndPrint (line : Text) : Action Unit :=
  tryCatch (do Action.print (← runLine line).flatten) fun fault =>
    match fault.label? with
    | some label => Action.print (report label fault.message)
    | none => throw fault

/-- What the shell says at the start of a conversation. -/
def welcome : Text := "Welcome to the Comp0010 Shell! 🐚\n"

/-- What the shell says when it is interrupted. -/
def farewell : Text := '\n' :: Command.farewell

/-- Reads a command line, without its line feed. -/
def askLine : Action Text := do
  Action.print ((← Action.workingDirectory) ++ "> ".toList)
  let stream ← Action.currentInput
  match ← Action.inputLine with
  | [] => if stream.interrupts then throw .interrupt else throw .endOfInput
  | line => return if line.getLast? = some '\n' then line.dropLast else line

/-- One turn of a conversation. -/
def turn : Action Unit := do
  runAndPrint (← askLine)

/-- The turns of a conversation, with a bound on their number. An interruption ends it. -/
def turns : Nat → Action Unit
  | 0 => pure ()
  | rounds + 1 => do
    let goesOn ← tryCatch (do turn; pure true) fun fault =>
      match fault with
      | .interrupt => do
        Action.print farewell
        pure false
      | other => throw other
    if goesOn then turns rounds

/-- A conversation of a number of turns. -/
def converse (rounds : Nat) : Action Unit := do
  Action.print welcome
  turns rounds

/-- Runs the shell with its arguments: a conversation where there are none, and otherwise the
command line that follows `-c`. -/
def start (rounds : Nat) : List Text → Action Unit
  | [] => converse rounds
  | [flag, line] =>
    if flag = "-c".toList then do Action.print (← runLine line).flatten
    else throw (.unexpectedStart flag)
  | _ => throw .wrongStart

end MiniShell.Shell
