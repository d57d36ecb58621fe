/-
This file defines the operations on files that commands are made of. Each follows its
path first and reports the first obstacle. Removing and moving also reach what points
into the tree: the working directory, and the streams that read a file.
-/

import MiniShell.Session.Basic

namespace MiniShell.Action

/-! ### Questions -/

/-- Whether a path leads anywhere. -/
def pathExists (path : Text) : Action Bool := do
  return (← get).surroundings.pathExists path

/-- Whether a path leads to a directory. -/
def isDirectory (path : Text) : Action Bool := do
  return (← get).surroundings.isDirectory path

/-- Whether a path leads to a file. -/
def isFile (path : Text) : Action Bool := do
  return (← get).surroundings.isFile path

/-- The path of the working directory. -/
def workingDirectory : Action Text := do
  match (← get).workingDirectory? with
  | some path => pure path
  | none => refuse .noEntry []

/-! ### Following paths -/

/-- Refuses a path with a null character. -/
def checkPath (path : Text) : Action Unit :=
  if path.contains '\x00' then throw .nullCharacter else pure ()

/-- Gives the result of a look-up, or refuses the paths that were looked up. -/
def orRefuse (paths : List Text) : Except SystemError α → Action α
  | .ok result => pure result
  | .error error => refuse error paths

/-- What the last part of a path stands for. -/
def goal (path : Text) : Action Goal := do
  checkPath path
  orRefuse [path] ((← get).surroundings.goal path)

/-- What a name stands for in a directory. -/
def entryAt (paths : List Text) (location : Location) (name : Text) :
    Action (Option FileTree) := do
  orRefuse paths ((← get).surroundings.entryAt location name)

/-- What a path leads to. -/
def find (path : Text) : Action Surroundings.Found := do
  checkPath path
  orRefuse [path] ((← get).surroundings.find path)

/-- The entries of a directory. -/
def listDirectory (path : Text) : Action (List (Text × FileTree)) := do
  checkPath path
  orRefuse [path] ((← get).surroundings.list path)

/-! ### Reading and writing -/

/-- Finds a file that can be read. -/
def openFile (path : Text) : Action (Trail × List UInt8) := do
  match ← find path with
  | .directory _ => refuse .isDirectory [path]
  | .file trail content => pure (trail, content)

/-- The lines of a file. -/
def readLines (path : Text) : Action (List Text) := do
  let (_, content) ← openFile path
  match Text.decode content with
  | .error fault => throw (.undecodable (fault.inBlocks content))
  | .ok text => pure (Text.lines (Text.unifyNewlines text))

/-- Puts a tree at a trail. -/
def putTree (trail : Trail) (tree : FileTree) : Action Unit :=
  modify fun session => { session with files := session.files.put trail tree }

/-- Finds or creates a file that can be written, and gives its trail and what it holds. -/
def createFile (path : Text) : Action (Trail × List UInt8) := do
  match ← goal path with
  | .entry location name false =>
    match ← entryAt [path] location name with
    | some (.directory _) => refuse .isDirectory [path]
    | some (.file content) => pure (location.trail ++ [name], content)
    | none =>
      if location.removed ≠ 0 then refuse .noEntry [path]
      else
        putTree (location.trail ++ [name]) (.file [])
        pure (location.trail ++ [name], [])
  | _ => refuse .isDirectory [path]

/-- Replaces a file by a text. -/
def writeFile (path text : Text) : Action Unit := do
  let (trail, _) ← createFile path
  putTree trail (.file (Text.encode text))

/-- Adds a text at the end of a file. -/
def appendFile (path text : Text) : Action Unit := do
  let (trail, content) ← createFile path
  putTree trail (.file (content ++ Text.encode text))

/-! ### Directories -/

/-- Makes another directory the working directory. -/
def changeDirectory (path : Text) : Action Unit := do
  match ← find path with
  | .directory location => modify fun session => { session with location }
  | .file _ _ => refuse .notDirectory [path]

/-- Creates a directory. -/
def makeDirectory (path : Text) : Action Unit := do
  match ← goal path with
  | .entry location name _ =>
    match ← entryAt [path] location name with
    | some _ => refuse .entryExists [path]
    | none =>
      if location.removed ≠ 0 then refuse .noEntry [path]
      else putTree (location.trail ++ [name]) .empty
  | _ => refuse .entryExists [path]

/-- Creates a directory and those that lead to it, where they are missing. Every step makes the
path shorter, so more steps than characters are enough. -/
def makeDirectories : Nat → Text → Action Unit
  | 0, _ => pure ()
  | steps + 1, path => do
    let ending := Text.baseName path
    let path' := if ending = [] then Text.parentPath path else path
    let last := Text.baseName path'
    let parent := Text.parentPath path'
    if parent ≠ [] && last ≠ [] && !(← pathExists parent) then
      tryCatch (makeDirectories steps parent) fun fault =>
        match fault with
        | .system .entryExists _ => pure ()
        | other => throw other
      if last = Path.here then return ()
    tryCatch (makeDirectory path) fun fault => do
      match fault with
      | .system _ _ => if ← isDirectory path then pure () else throw fault
      | other => throw other

/-! ### Removing -/

/-- What becomes of a stream when the file at a trail loses its name. -/
def streamAfterRemoval (files : FileTree) (trail : Trail) (stream : Stream) : Stream :=
  match stream.source with
  | .file other offset =>
    if other = trail then
      let content := ((files.get? trail).map FileTree.content).getD []
      { stream with source := .nameless (content.drop offset) }
    else stream
  | _ => stream

/-- Removes what stands at a trail. -/
def removeTree (trail : Trail) : Action Unit :=
  modify fun session =>
    { session with
      files := session.files.remove trail
      location := session.location.afterRemoval trail
      inputs := session.inputs.map (streamAfterRemoval session.files trail) }

/-- Removes a directory, which has to be empty. -/
def removeDirectory (path : Text) : Action Unit := do
  match ← goal path with
  | .top => refuse .busy [path]
  | .stay _ => refuse .invalid [path]
  | .rise _ => refuse .notEmpty [path]
  | .entry location name _ =>
    match ← entryAt [path] location name with
    | none => refuse .noEntry [path]
    | some (.file _) => refuse .notDirectory [path]
    | some (.directory []) => removeTree (location.trail ++ [name])
    | some (.directory _) => refuse .notEmpty [path]

/-- Removes a file. -/
def removeFile (path : Text) : Action Unit := do
  match ← goal path with
  | .entry location name slash =>
    match ← entryAt [path] location name with
    | none => refuse .noEntry [path]
    | some (.directory _) => refuse .isDirectory [path]
    | some (.file _) =>
      if slash then refuse .notDirectory [path] else removeTree (location.trail ++ [name])
  | _ => refuse .isDirectory [path]

/-! ### Moving -/

/-- What becomes of a stream when a file or a directory moves. -/
def streamAfterMove (source target : Trail) (stream : Stream) : Stream :=
  match stream.source with
  | .file trail offset =>
    { stream with source := .file (Location.movedTrail source target trail) offset }
  | _ => stream

/-- Moves what stands at one trail to another, in place of what stands there. -/
def moveTree (source target : Trail) (tree : FileTree) : Action Unit := do
  removeTree target
  modify fun session =>
    { session with
      files := (session.files.remove source).put target tree
      location := session.location.afterMove source target
      inputs := session.inputs.map (streamAfterMove source target) }

/-- Whether a file or directory cannot take the place of another. -/
def replacementError? : FileTree → FileTree → Option SystemError
  | .directory _, .file _ => some .notDirectory
  | .file _, .directory _ => some .isDirectory
  | .directory _, .directory (_ :: _) => some .notEmpty
  | _, _ => none

/-- Renames a file or a directory. -/
def rename (old new : Text) : Action Unit := do
  checkPath old
  checkPath new
  let paths := [old, new]
  let source ← orRefuse paths ((← get).surroundings.goal old)
  let target ← orRefuse paths ((← get).surroundings.goal new)
  match source, target with
  | .entry oldLocation oldName oldSlash, .entry newLocation newName newSlash =>
    match ← entryAt paths oldLocation oldName with
    | none => refuse .noEntry paths
    | some tree =>
      let replaced ← entryAt paths newLocation newName
      let oldTrail := oldLocation.trail ++ [oldName]
      let newTrail := newLocation.trail ++ [newName]
      if !tree.isDirectory && (oldSlash || newSlash) then refuse .notDirectory paths
      else if oldTrail.isPrefixOf newLocation.trail then refuse .invalid paths
      else if newTrail.isPrefixOf oldLocation.trail && newLocation.removed = 0 then
        refuse .notEmpty paths
      else if newLocation.removed ≠ 0 then refuse .noEntry paths
      else if oldTrail = newTrail then pure ()
      else
        match replaced.bind (replacementError? tree) with
        | some error => refuse error paths
        | none => moveTree oldTrail newTrail tree
  | _, _ => refuse .busy paths

/-! ### Walking -/

/-- The entries of a directory for a walk, which passes over what it cannot list. -/
def listForWalk (path : Text) : Action (Option (List (Text × FileTree))) :=
  tryCatch (some <$> listDirectory path) fun fault =>
    match fault with
    | .system _ _ => pure none
    | other => throw other

/-- What a walk tells about a directory: its path, the names of the directories in it, and
the names of the files in it. -/
abbrev Visit := Text → List Text → List Text → Action Unit

/-- The names of the directories among entries. -/
def directoryNames (entries : List (Text × FileTree)) : List Text :=
  (entries.filter fun entry => entry.2.isDirectory).map Prod.fst

/-- The names of the files among entries. -/
def fileNames (entries : List (Text × FileTree)) : List Text :=
  (entries.filter fun entry => !entry.2.isDirectory).map Prod.fst

/-- Visits a directory and then, one after the other, the directories in it. -/
def walkDown (visit : Visit) : Nat → Text → Action Unit
  | 0, _ => pure ()
  | steps + 1, path => do
    match ← listForWalk path with
    | none => pure ()
    | some entries =>
      visit path (directoryNames entries) (fileNames entries)
      (directoryNames entries).forM fun name => walkDown visit steps (Text.joinPath path name)

/-- Visits the directories in a directory and then the directory itself. -/
def walkUp (visit : Visit) : Nat → Text → Action Unit
  | 0, _ => pure ()
  | steps + 1, path => do
    match ← listForWalk path with
    | none => pure ()
    | some entries =>
      (directoryNames entries).forM fun name => walkUp visit steps (Text.joinPath path name)
      visit path (directoryNames entries) (fileNames entries)

/-- No walk goes deeper than this, because every step makes the path longer and no path is
longer. -/
def walkDepth : Nat := Path.tooLong

end MiniShell.Action
