/-
This file defines the commands that create, copy, move and remove files.
-/

import MiniShell.Session.Files

namespace MiniShell.Command

/-! ### Creating and removing -/

/-- Creates an empty file. -/
def touch (arguments : List Text) : Action Unit := do
  match arguments with
  | [path] =>
    if ← Action.pathExists path then throw (.fileExists path)
    else Action.writeFile path []
  | _ => throw (.wrongCount [])

/-- Removes a file. -/
def remove (arguments : List Text) : Action Unit := do
  match arguments with
  | [path] =>
    if ← Action.isDirectory path then throw (.removesDirectory path)
    else
      Action.rephrase
        (fun fault =>
          match fault with
          | .system .noEntry _ => .fileMissing path
          | other => other)
        (Action.removeFile path)
  | _ => throw (.wrongCount [])

/-! ### Copying -/

/-- Copies the text of a file, in which every line end becomes a line feed. -/
def copyText (source target : Text) : Action Unit := do
  let lines ← Action.readLines source
  Action.writeFile target lines.flatten

/-- The parts of a path from the root, without the needless ones. -/
def absoluteParts (path : Text) : Action (List Text) := do
  if Text.isAbsolute path then return (Path.ofText path).normalParts
  let directory ← Action.workingDirectory
  return (Path.ofText (Text.joinPath directory path)).normalParts

/-- Copies a directory with all that is in it. -/
def copyDirectory (source target : Text) : Action Unit :=
  Action.walkDown
    (fun directory _ files => do
      let start ← absoluteParts source
      let here ← absoluteParts directory
      let copy := Text.joinPath target (Path.wayBetween start here)
      Action.makeDirectories (copy.length + 1) copy
      files.forM fun name =>
        copyText (Text.joinPath directory name) (Text.joinPath copy name))
    Action.walkDepth source

/-- Where a copy goes. A directory that is copied into another keeps its name there. -/
def copyTarget (source target : Text) : Action Text := do
  if ← Action.isFile source then return target
  if ← Action.isDirectory source then
    if ← Action.isFile target then throw .copiesDirectoryOntoFile
    if ← Action.isDirectory target then
      return Text.joinPath target (Text.baseName source)
    return target
  throw (.copySourceMissing source)

/-- Copies a file or a directory. -/
def copy (source target : Text) (force recursive : Bool) : Action Unit := do
  let place ← copyTarget source target
  if (← Action.pathExists place) && !force then throw (.copyTargetExists place)
  if recursive then
    if ← Action.isDirectory source then copyDirectory source target
    else throw .copiesFileRecursively
  else copyText source place

/-- The options in front of arguments, and the arguments behind them. There has to be one. -/
def copyOptions (force recursive : Bool) : List Text → Except Fault (Bool × Bool × List Text)
  | [] => .error .listIndex
  | argument :: rest =>
    if argument.head? = some '-' then
      if argument = "-f".toList then copyOptions true recursive rest
      else if argument = "-r".toList || argument = "-R".toList then copyOptions force true rest
      else .error (.badOption argument)
    else .ok (force, recursive, argument :: rest)

/-- Copies a file or a directory, by arguments. -/
def cp (arguments : List Text) : Action Unit := do
  if arguments.length < 2 || arguments.length > 3 then throw .insufficient
  else
    match copyOptions false false arguments with
    | .error fault => throw fault
    | .ok (force, recursive, source :: target :: _) => copy source target force recursive
    | .ok _ => throw .listIndex

/-! ### Moving -/

/-- Moves a file or a directory. -/
def move (source target : Text) (force : Bool) : Action Unit := do
  if !(← Action.pathExists source) then throw (.moveSourceMissing source)
  if ← Action.isDirectory target then
    Action.rename source (Text.joinPath target (Text.baseName source))
  else if (← Action.pathExists target) && !force then throw .moveTargetExists
  else Action.rename source target

/-- Moves files by pairs of arguments. -/
def movePairs (force : Bool) : List Text → Action Unit
  | [] => pure ()
  | [_] => throw .listIndex
  | source :: target :: rest => do
    move source target force
    movePairs force rest

/-- Moves a file or a directory, by arguments. -/
def mv (arguments : List Text) : Action Unit := do
  if arguments.length < 2 || arguments.length > 3 then throw .insufficient
  else
    match arguments with
    | first :: rest =>
      if first = "-f".toList then movePairs true rest else movePairs false arguments
    | [] => pure ()

end MiniShell.Command
