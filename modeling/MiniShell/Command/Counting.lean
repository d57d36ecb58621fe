/-
This file defines the command that counts lines, words and characters.
-/

import MiniShell.Command.Reading

namespace MiniShell

/-- How many lines, words and characters a text has. -/
structure Tally where
  lines : Nat
  words : Nat
  characters : Nat
  deriving DecidableEq

namespace Tally

def zero : Tally := ⟨0, 0, 0⟩

/-- The tally of one text and another. -/
def add (tally other : Tally) : Tally :=
  ⟨tally.lines + other.lines, tally.words + other.words, tally.characters + other.characters⟩

/-- The tally of lines. -/
def ofLines (lines : List Text) : Tally where
  lines := lines.length
  words := (lines.flatMap Text.words).length
  characters := lines.flatten.length

end Tally

namespace Command

/-- The flags and the names of the files among arguments. Every letter is a flag. -/
def flagsAndFiles : List Text → List Text × List Text
  | [] => ([], [])
  | argument :: rest =>
    let (flags, files) := flagsAndFiles rest
    match argument with
    | '-' :: letters => (letters.map (fun letter => [letter]) ++ flags, files)
    | name => (flags, name :: files)

/-- A number on a line of its own. -/
def numberLine (number : Nat) : Text := Text.ofNat number ++ ['\n']

/-- The number that a flag asks for. -/
def counter? (tally : Tally) : Text → Option Nat
  | ['l'] => some tally.lines
  | ['w'] => some tally.words
  | ['m'] => some tally.characters
  | _ => none

/-- Shows the numbers that the flags ask for, one after the other. -/
def showCounters (tally : Tally) : List Text → Action Unit
  | [] => pure ()
  | flag :: rest => do
    match counter? tally flag with
    | none => throw (.badFlag flag)
    | some number =>
      Action.emit [numberLine number]
      showCounters tally rest

/-- Shows the numbers that the flags ask for, or all of them where there are no flags. -/
def showTally (flags : List Text) (tally : Tally) : Action Unit :=
  if flags = [] then
    Action.emit [numberLine tally.lines, numberLine tally.words, numberLine tally.characters]
  else showCounters tally flags

/-- The tally of a file. -/
def fileTally (name : Text) : Action Tally := do
  if ← Action.pathExists name then
    return Tally.ofLines (← Action.readLines name)
  else throw (.namedFileMissing name)

/-- Counts lines, words and characters of files, or of standard input. -/
def wc (arguments : List Text) : Action Unit := do
  let (flags, files) := flagsAndFiles arguments
  if files = [] then showTally flags (Tally.ofLines (← Action.someInputLines))
  else
    let tallies ← files.mapM fileTally
    showTally flags (tallies.foldl Tally.add Tally.zero)

end Command

end MiniShell
