/-
This file defines the command that finds paths by the names on them. A path is found if one of
its names matches, hidden names apart, and what lies in a directory comes before the
directory. The path of a directory grows with every step down, and a directory whose path has
become too long is not looked into.
-/

import MiniShell.Session.Files
import MiniShell.Wildcard.Basic

namespace MiniShell

mutual

/-- The paths found below a tree. `path` is the path at which the tree is looked up, `shown` is the
path that stands for it in what is found, and `inside` tells that a name on the way has matched
already. -/
def FileTree.findIn (wildcard : Wildcard) : FileTree → Text → Text → Bool → List Text
  | .file _, _, _, _ => []
  | .directory entries, path, shown, inside =>
    if (Text.encode path).length ≥ Path.tooLong then []
    else FileTree.findAmong wildcard entries path shown inside

/-- The paths found among entries. -/
def FileTree.findAmong (wildcard : Wildcard) :
    List (Text × FileTree) → Text → Text → Bool → List Text
  | [], _, _, _ => []
  | (name, tree) :: rest, path, shown, inside =>
    let others := FileTree.findAmong wildcard rest path shown inside
    if Text.isHidden name then others
    else
      let here := Text.joinPath shown name
      let found := inside || wildcard.holds name
      tree.findIn wildcard (Text.joinPath path name) here found ++
        (if found then [here] else []) ++ others

end

namespace Command

/-- Lists the paths found below a directory. -/
def findBelow (directory shown pattern : Text) : Action Unit := do
  if ← Action.isDirectory directory then
    let entries ← Action.listDirectory directory
    let paths :=
      (FileTree.directory entries).findIn (Wildcard.ofText pattern) directory shown false
    Action.emit (paths.map fun path => path ++ ['\n'])

/-- Finds the paths below a directory of which a name matches a pattern. -/
def find (arguments : List Text) : Action Unit := do
  let usage : Text := "[find <dir>? -name <pattern>]"
  let flag : Text := "-name"
  match arguments with
  | [first, pattern] =>
    if first = flag then
      let directory ← Action.workingDirectory
      findBelow directory Path.here pattern
    else throw (.wrongFlags ("Wrong Flags ".toList ++ usage))
  | [name, second, pattern] =>
    if second = flag then
      let directory ← Action.workingDirectory
      if ← Action.isDirectory (directory ++ '/' :: name) then
        findBelow (Text.joinPath directory name) name pattern
      else throw (.badDirectory name)
    else throw (.wrongFlags ("Wrong Flags ".toList ++ usage))
  | [_] => throw (.wrongFlags ("Wrong Flags ".toList ++ usage))
  | _ => throw (.wrongCount (List.replicate 17 ' ' ++ usage))

end Command

end MiniShell
