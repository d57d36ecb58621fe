/-
This file defines what a session keeps between commands: the files, the working
directory, the streams that standard input is read from, what has been printed, and the
output of the command that is running. An action changes the session and may end in a
fault; the changes made before the fault stay.
-/

import MiniShell.FileTree.Lookup

namespace MiniShell

/-! ### Streams -/

/-- Where a stream takes more bytes from. -/
inductive Source
  /-- There are no more. -/
  | nothing
  /-- A file, read up to an offset. -/
  | file (trail : Trail) (offset : Nat)
  /-- The rest of a file that has lost its name. -/
  | nameless (rest : List UInt8)

/-- A stream of text. -/
structure Stream where
  /-- Text that has been decoded and not been read. -/
  ready : Text
  /-- Where more comes from. -/
  source : Source := .nothing
  /-- The bytes of a character that the end of the source cuts off. -/
  pending : List UInt8 := []
  /-- The user is at the other end, and interrupts the shell after the last line. -/
  interrupts : Bool := false

/-! ### Sessions -/

/-- The state of a session. -/
structure Session where
  files : FileTree
  /-- The path at which the tree of files is found. -/
  home : Text
  /-- The working directory. -/
  location : Location := .root
  /-- The streams for standard input. The first is in use, and ends of redirections uncover
  the others. -/
  inputs : List Stream
  /-- What has been printed. -/
  printed : Text := []
  /-- The output of the running command, line by line. -/
  out : List Text := []

namespace Session

/-- Where the paths of a session lead. -/
def surroundings (session : Session) : Surroundings where
  files := session.files
  home := (Path.ofText session.home).parts
  location := session.location

/-- The path of the working directory, unless that has been removed. -/
def workingDirectory? (session : Session) : Option Text :=
  if session.location.removed = 0 then
    some (session.location.trail.foldl Text.joinPath session.home)
  else none

end Session

/-! ### Actions -/

/-- A computation in a session that may end in a fault. -/
abbrev Action := ExceptT Fault (StateM Session)

namespace Action

/-- Runs an action in a session. -/
def start (action : Action α) (session : Session) : Except Fault α × Session :=
  (ExceptT.run action).run session

/-- A fault of the file system. -/
def refuse (error : SystemError) (paths : List Text) : Action α := throw (.system error paths)

/-- Lets some faults be replaced by others. -/
def rephrase (rename : Fault → Fault) (action : Action α) : Action α :=
  tryCatch action fun fault => throw (rename fault)

/-- Appends lines to the output of the running command. -/
def emit (lines : List Text) : Action Unit :=
  modify fun session => { session with out := session.out ++ lines }

/-- Prints a text. -/
def print (text : Text) : Action Unit :=
  modify fun session => { session with printed := session.printed ++ text }

/-- Runs an action on an output of its own, and gives that output. -/
def collect (start : List Text) (action : Action Unit) : Action (Except Fault Unit × List Text) :=
  fun session =>
    let (result, after) := Action.start action { session with out := start }
    (.ok (result, after.out), { after with out := session.out })

end Action

end MiniShell
