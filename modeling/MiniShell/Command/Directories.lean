/-
This file defines the commands for directories: which one is the working directory, what is in
one, and how one is created or removed.
-/

import MiniShell.Session.Files

namespace MiniShell.Command

/-- The fault of a command whose directory does not exist. -/
def missingDirectory (name : Text) : Fault → Fault
  | .system .noEntry _ => .directoryMissing name
  | other => other

/-- Shows the working directory. -/
def pwd (_ : List Text) : Action Unit := do
  Action.emit [(← Action.workingDirectory) ++ ['\n']]

/-- Changes the working directory. -/
def cd (arguments : List Text) : Action Unit :=
  match arguments with
  | [path] => Action.rephrase (missingDirectory path) (Action.changeDirectory path)
  | _ => throw (.wrongCount " [cd <dir>]")

/-- Lists a directory, hidden names apart. -/
def ls (arguments : List Text) : Action Unit := do
  let path ←
    match arguments with
    | [] => Action.workingDirectory
    | [path] => pure path
    | _ => throw (.wrongCount " [ls <dir>?]")
  let entries ← Action.rephrase (missingDirectory path) (Action.listDirectory path)
  let names := (entries.map Prod.fst).filter fun name => !Text.isHidden name
  Action.emit (names.map fun name => name ++ ['\n'])

/-- Creates a directory. -/
def mkdir (arguments : List Text) : Action Unit :=
  match arguments with
  | [path] =>
    Action.rephrase
      (fun fault =>
        match fault with
        | .system .entryExists _ => .directoryExists
        | other => other)
      (Action.makeDirectory path)
  | _ => throw (.wrongCount [])

/-! ### Removing -/

/-- Whether a directory has no entries. -/
def isEmptyDirectory (path : Text) : Action Bool := do
  return (← Action.listDirectory path).isEmpty

/-- Removes all that is in a directory. -/
def removeContents (path : Text) : Action Unit :=
  Action.walkUp
    (fun directory directories files => do
      files.forM fun name => Action.removeFile (Text.joinPath directory name)
      directories.forM fun name => Action.removeDirectory (Text.joinPath directory name))
    Action.walkDepth path

/-- Complains if a directory does not exist. -/
def requireDirectory (path : Text) : Action Unit := do
  if ← Action.pathExists path then pure () else throw (.directoryMissing path)

/-- Removes a directory, with all that is in it if a flag says so. -/
def rmdir (arguments : List Text) : Action Unit := do
  match arguments with
  | [path] =>
    requireDirectory path
    if ← isEmptyDirectory path then Action.removeDirectory path
    else throw (.directoryNotEmpty path)
  | [flag, path] =>
    if flag = "-r".toList || flag = "-rf".toList then
      requireDirectory path
      removeContents path
      Action.removeDirectory path
    else throw (.wrongFlags "Wrong flags")
  | _ => throw (.wrongCount [])

end MiniShell.Command
