/-
This file follows paths through a tree of files. A look-up goes part by part from the
root or from the working directory and meets the first obstacle on its way. The working
directory may have been removed in the meantime: then nothing can be found in it, but
the way up still leads back to the directories that are left.
-/

import MiniShell.FileTree.Basic
import MiniShell.FileTree.Path
import MiniShell.Fault

namespace MiniShell

/-- A directory that was once reached: the part of its trail that still exists, and how
many directories below that have been removed. -/
structure Location where
  trail : Trail
  removed : Nat
  deriving DecidableEq

namespace Location

/-- The root of the tree. -/
def root : Location := ⟨[], 0⟩

/-- The directory above. The root is above itself. -/
def parent (location : Location) : Location :=
  if location.removed = 0 then ⟨location.trail.dropLast, 0⟩
  else ⟨location.trail, location.removed - 1⟩

/-- What becomes of a location when the directory at a trail is removed. -/
def afterRemoval (trail : Trail) (location : Location) : Location :=
  if trail.isPrefixOf location.trail && trail ≠ [] then
    ⟨trail.dropLast, location.removed + (location.trail.length - trail.length) + 1⟩
  else location

/-- The trail after what stands at one place has moved to another. -/
def movedTrail (source target trail : Trail) : Trail :=
  if source.isPrefixOf trail then target ++ trail.drop source.length else trail

/-- What becomes of a location when a directory moves. -/
def afterMove (source target : Trail) (location : Location) : Location :=
  { location with trail := movedTrail source target location.trail }

end Location

/-- Where paths lead: the tree, the parts of the path at which the tree is found, and the
working directory. -/
structure Surroundings where
  files : FileTree
  home : List Text
  location : Location

/-- What the last part of a path stands for. -/
inductive Goal
  /-- The root or the directory reached by staying there. -/
  | stay (location : Location)
  /-- The directory reached by going up. -/
  | rise (location : Location)
  /-- The top of the tree, which has no name. -/
  | top
  /-- A name in a directory, and whether only a directory can be meant. -/
  | entry (location : Location) (name : Text) (slash : Bool)

namespace Surroundings

/-- A step of a look-up that has to lead to a directory. -/
def enter (surroundings : Surroundings) (location : Location) (part : Text) :
    Except SystemError Location :=
  if part = Path.here then .ok location
  else if part = Path.above then .ok location.parent
  else if location.removed ≠ 0 then .error .noEntry
  else if (Text.encode part).length > Path.longestName then .error .nameTooLong
  else
    let trail := location.trail ++ [part]
    match surroundings.files.get? trail with
    | none => .error .noEntry
    | some (.file _) => .error .notDirectory
    | some (.directory _) => .ok ⟨trail, 0⟩

/-- Follows all parts. -/
def follow (surroundings : Surroundings) : Location → List Text → Except SystemError Location
  | location, [] => .ok location
  | location, part :: parts =>
    match surroundings.enter location part with
    | .error error => .error error
    | .ok next => surroundings.follow next parts

/-- Where a path starts and the parts that are still to be followed. A path that ends above
the tree leads to the top of it. -/
def start (surroundings : Surroundings) (path : Path) :
    Except SystemError (Location × List Text) :=
  if path.absolute then
    if surroundings.home.isPrefixOf path.parts then
      .ok (.root, path.parts.drop surroundings.home.length)
    else if path.parts.isPrefixOf surroundings.home then .ok (.root, [])
    else .error .noEntry
  else .ok (surroundings.location, path.parts)

/-- Follows a path up to its last part. -/
def goal (surroundings : Surroundings) (text : Text) : Except SystemError Goal :=
  if text = [] then .error .noEntry
  else if (Text.encode text).length ≥ Path.tooLong then .error .nameTooLong
  else
    let path := Path.ofText text
    match surroundings.start path with
    | .error error => .error error
    | .ok (first, parts) =>
      match parts.getLast? with
      | none => .ok .top
      | some last =>
        match surroundings.follow first parts.dropLast with
        | .error error => .error error
        | .ok location =>
          if last = Path.here then .ok (.stay location)
          else if last = Path.above then .ok (.rise location.parent)
          else .ok (.entry location last path.slash)

/-- What a name stands for in a directory, if for anything. In a removed directory no name is
looked up, however long it is. -/
def entryAt (surroundings : Surroundings) (location : Location) (name : Text) :
    Except SystemError (Option FileTree) :=
  if location.removed ≠ 0 then .ok none
  else if (Text.encode name).length > Path.longestName then .error .nameTooLong
  else .ok (surroundings.files.get? (location.trail ++ [name]))

/-- The tree below a location. A removed directory is empty. -/
def treeAt (surroundings : Surroundings) (location : Location) : FileTree :=
  if location.removed ≠ 0 then .empty
  else (surroundings.files.get? location.trail).getD .empty

/-- What a path leads to: the location of a directory, or the trail and the bytes of a
file. -/
inductive Found
  | directory (location : Location)
  | file (trail : Trail) (content : List UInt8)

/-- Follows a path to its end. -/
def find (surroundings : Surroundings) (text : Text) : Except SystemError Found :=
  match surroundings.goal text with
  | .error error => .error error
  | .ok .top => .ok (.directory .root)
  | .ok (.stay location) => .ok (.directory location)
  | .ok (.rise location) => .ok (.directory location)
  | .ok (.entry location name slash) =>
    match surroundings.entryAt location name with
    | .error error => .error error
    | .ok none => .error .noEntry
    | .ok (some (.directory _)) => .ok (.directory ⟨location.trail ++ [name], 0⟩)
    | .ok (some (.file content)) =>
      if slash then .error .notDirectory else .ok (.file (location.trail ++ [name]) content)

/-- Whether a path leads anywhere. -/
def pathExists (surroundings : Surroundings) (text : Text) : Bool :=
  match surroundings.find text with
  | .ok _ => true
  | .error _ => false

/-- Whether a path leads to a directory. -/
def isDirectory (surroundings : Surroundings) (text : Text) : Bool :=
  match surroundings.find text with
  | .ok (.directory _) => true
  | _ => false

/-- Whether a path leads to a file. -/
def isFile (surroundings : Surroundings) (text : Text) : Bool :=
  match surroundings.find text with
  | .ok (.file _ _) => true
  | _ => false

/-- The entries of the directory that a path leads to. -/
def list (surroundings : Surroundings) (text : Text) :
    Except SystemError (List (Text × FileTree)) :=
  match surroundings.find text with
  | .error error => .error error
  | .ok (.file _ _) => .error .notDirectory
  | .ok (.directory location) => .ok (surroundings.treeAt location).entries

end Surroundings

end MiniShell
