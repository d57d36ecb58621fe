/-
This file defines trees of files and directories. A place in a tree is the list of names
that leads to it from the root. Reading a place after changing it gives what was put
there. A directory lists its names in some order, and names that are in order stay in
order.
-/

import MiniShell.Text.Basic

namespace MiniShell

/-- A file with its bytes, or a directory with its named entries. -/
inductive FileTree
  | file (content : List UInt8)
  | directory (entries : List (Text × FileTree))

/-- The names that lead from the root to a place. -/
abbrev Trail := List Text

namespace FileTree

/-- A directory without entries. -/
def empty : FileTree := directory []

def isDirectory : FileTree → Bool
  | file _ => false
  | directory _ => true

/-- The entries of a directory. A file has none. -/
def entries : FileTree → List (Text × FileTree)
  | file _ => []
  | directory entries => entries

/-- The bytes of a file. A directory has none. -/
def content : FileTree → List UInt8
  | file content => content
  | directory _ => []

/-! ### Entries -/

/-- The entry of a name. -/
def child? (name : Text) : List (Text × FileTree) → Option FileTree
  | [] => none
  | (other, tree) :: rest => if other = name then some tree else child? name rest

/-- The entries with the one of a name replaced, or added before the first name that comes after
it. -/
def putEntry (name : Text) (tree : FileTree) : List (Text × FileTree) → List (Text × FileTree)
  | [] => [(name, tree)]
  | (other, old) :: rest =>
    if other = name then (name, tree) :: rest
    else if Text.precedes name other && (child? name rest).isNone then
      (name, tree) :: (other, old) :: rest
    else (other, old) :: putEntry name tree rest

/-- The entries without the one of a name. -/
def dropEntry (name : Text) : List (Text × FileTree) → List (Text × FileTree)
  | [] => []
  | (other, tree) :: rest =>
    if other = name then rest else (other, tree) :: dropEntry name rest

/-! ### Places -/

/-- What stands at a place. -/
def get? : FileTree → Trail → Option FileTree
  | tree, [] => some tree
  | file _, _ :: _ => none
  | directory entries, name :: rest =>
    match child? name entries with
    | none => none
    | some tree => tree.get? rest

/-- The tree with another one put at a place. Nothing changes unless the directory that
holds the place exists. -/
def put : FileTree → Trail → FileTree → FileTree
  | _, [], new => new
  | file content, _ :: _, _ => file content
  | directory entries, [name], new => directory (putEntry name new entries)
  | directory entries, name :: rest, new =>
    match child? name entries with
    | none => directory entries
    | some tree => directory (putEntry name (tree.put rest new) entries)

/-- The tree without what stands at a place. The root stays. -/
def remove : FileTree → Trail → FileTree
  | tree, [] => tree
  | file content, _ :: _ => file content
  | directory entries, [name] => directory (dropEntry name entries)
  | directory entries, name :: rest =>
    match child? name entries with
    | none => directory entries
    | some tree => directory (putEntry name (tree.remove rest) entries)

/-- The tree with a directory at a place and at every place that leads to it. -/
def grow : FileTree → Trail → FileTree
  | tree, [] => tree
  | file content, _ :: _ => file content
  | directory entries, name :: rest =>
    let below := (child? name entries).getD empty
    directory (putEntry name (below.grow rest) entries)

/-! ### Size -/

mutual

/-- How many directories can lie inside each other. -/
def depth : FileTree → Nat
  | file _ => 0
  | directory entries => depthOfEntries entries + 1

def depthOfEntries : List (Text × FileTree) → Nat
  | [] => 0
  | (_, tree) :: rest => max tree.depth (depthOfEntries rest)

end

end FileTree

end MiniShell
