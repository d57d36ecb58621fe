/-
This file runs the shell as a program. The files below the working directory are read first
and the changes to them are written back at the end; in between, everything happens in
memory. The whole of standard input is read before the first command line is run.
-/

import MiniShell.Shell.Conversation

namespace MiniShell.Main

/-- Reads the files below a path. -/
partial def load (path : String) : IO FileTree := do
  let entries ← ((← IO.currentDir) / path).readDir
  entries.foldlM
    (fun tree entry => do
      let name := entry.fileName.toList
      let below ←
        if ← entry.path.isDir then load (path ++ "/" ++ entry.fileName)
        else pure (.file (← IO.FS.readBinFile entry.path).toList)
      return tree.put [name] below)
    FileTree.empty

/-- Removes what stands at a path. -/
def discard (path : String) : FileTree → IO Unit
  | .file _ => IO.FS.removeFile path
  | .directory _ => IO.FS.removeDirAll path

/-- Writes the difference between two trees. -/
partial def save (path : String) (old new : FileTree) : IO Unit := do
  for (name, tree) in old.entries do
    match FileTree.child? name new.entries with
    | none => discard (path ++ "/" ++ String.ofList name) tree
    | some other =>
      if tree.isDirectory != other.isDirectory then
        discard (path ++ "/" ++ String.ofList name) tree
  for (name, tree) in new.entries do
    let place := path ++ "/" ++ String.ofList name
    let before := FileTree.child? name old.entries
    match tree with
    | .directory _ =>
      IO.FS.createDirAll place
      save place ((before.filter FileTree.isDirectory).getD .empty) tree
    | .file content =>
      match before with
      | some (.file same) =>
        if same != content then IO.FS.writeBinFile place (ByteArray.mk content.toArray)
      | _ => IO.FS.writeBinFile place (ByteArray.mk content.toArray)

/-- Reads a stream to its end. -/
partial def readAll (stream : IO.FS.Stream) (found : String) : IO String := do
  let line ← stream.getLine
  if line.isEmpty then return found else readAll stream (found ++ line)

/-- The number of turns a conversation may have. -/
def rounds : Nat := 1000000

end MiniShell.Main

open MiniShell in
/-- Runs the shell. -/
def main (arguments : List String) : IO UInt32 := do
  let stdin ← IO.getStdin
  let input ← if !arguments.isEmpty && (← stdin.isTty) then pure "" else Main.readAll stdin ""
  let files ← Main.load "."
  let session : Session :=
    { files
      home := (← IO.currentDir).toString.toList
      inputs := [{ ready := Text.unifyNewlines input.toList }] }
  let (result, after) :=
    Action.start (Shell.start Main.rounds (arguments.map String.toList)) session
  Main.save "." files after.files
  IO.print (String.ofList after.printed)
  match result with
  | .ok _ | .error .leave => return 0
  | .error fault =>
    IO.eprintln (String.ofList fault.message)
    return 1
