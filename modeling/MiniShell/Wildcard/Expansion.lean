/-
This file finds the paths that a wildcard stands for. Every part of a path may hold special
characters. Hidden names are found only by a part that begins with a dot. Directories that
cannot be listed hold nothing.
-/

import MiniShell.Session.Files
import MiniShell.Wildcard.Basic

namespace MiniShell.Action

/-- The names in a directory, or those of its directories only. No path stands for the working
directory. -/
def namesIn (directory : Text) (directoriesOnly : Bool) : Action (List Text) := do
  match ← listForWalk (if directory = [] then Path.here else directory) with
  | none => pure []
  | some entries =>
    if directoriesOnly then pure (directoryNames entries) else pure (entries.map Prod.fst)

/-- The names in a directory that a part of a path matches. -/
def matchingNames (directory part : Text) (directoriesOnly : Bool) : Action (List Text) := do
  let wildcard := Wildcard.ofText part
  let names ← namesIn directory directoriesOnly
  return names.filter fun name =>
    (Text.isHidden part || !Text.isHidden name) && wildcard.holds name

/-- A part without special characters, if it names something in a directory. An empty part
names the directory itself. -/
def existingName (directory part : Text) : Action (List Text) := do
  let isThere ←
    if part = [] then isDirectory directory
    else pathExists (if directory = [] then part else Text.joinPath directory part)
  return if isThere then [part] else []

/-- The paths that a path with special characters stands for. Every step takes its last part
away, so its length bounds the steps. -/
def expandPath : Nat → Text → Bool → Action (List Text)
  | 0, _, _ => pure []
  | steps + 1, path, directoriesOnly => do
    let parent := Text.parentPath path
    let part := Text.baseName path
    if !Wildcard.isWild path then
      if part = [] then return if ← isDirectory parent then [path] else []
      else return if ← pathExists path then [path] else []
    else if parent = [] then matchingNames [] part directoriesOnly
    else
      let parents ←
        if parent ≠ path && Wildcard.isWild parent then expandPath steps parent true
        else pure [parent]
      let found ← parents.mapM fun directory => do
        let names ←
          if Wildcard.isWild part then matchingNames directory part directoriesOnly
          else existingName directory part
        return names.map (Text.joinPath directory)
      return found.flatten

/-- The paths that a word stands for. -/
def expand (word : Text) : Action (List Text) := expandPath (word.length + 1) word false

end MiniShell.Action
