/-
This file defines the catalog, which gives every name its command. A command may explain
itself when it is asked for help, and it may be guarded: then a fault becomes a line of its
output.
-/

import MiniShell.Catalog.Manual

namespace MiniShell

/-- What a name in the catalog stands for. -/
inductive Entry
  /-- A command as it is. -/
  | bare (program : Program)
  /-- A command that shows its page of the manual when it is asked for help. -/
  | helpful (program : Program)
  /-- The overview of all commands. -/
  | overview
  /-- An entry whose faults become output. -/
  | guarded (entry : Entry)
  deriving DecidableEq

namespace Entry

/-- Whether arguments ask for help. -/
def asksForHelp : List Text → Bool
  | [] => false
  | first :: _ => first = "-h".toList || first = "--help".toList

/-- Turns a fault into a line of output. A request to stop stays one. -/
def guard (action : Action Unit) : Action Unit :=
  tryCatch action fun fault =>
    if fault.isStop then throw fault
    else Action.emit ["An exception occurred: ".toList ++ fault.message ++ ['\n']]

/-- Runs an entry. -/
def run : Entry → List Text → Action Unit
  | bare program, arguments => program.run arguments
  | helpful program, arguments =>
    if asksForHelp arguments then Action.emit [program.manual] else program.run arguments
  | overview, arguments =>
    if arguments = [] then Action.emit [Program.overview] else throw (.wrongCount " [help]")
  | guarded entry, arguments => guard (entry.run arguments)

end Entry

/-- Names with what they stand for. -/
abbrev Catalog := List (Text × Entry)

namespace Catalog

/-- The commands as they are. -/
def plain : Catalog := Program.all.map fun program => (program.name, .bare program)

/-- The commands with help. -/
def withHelp : Catalog :=
  (Program.all.map fun program => (program.name, .helpful program)) ++
    [("help".toList, .overview)]

/-- A catalog with a guarded entry for each of its entries, under a name with an underscore. -/
def withGuards (catalog : Catalog) : Catalog :=
  catalog ++ catalog.map fun (name, entry) => ('_' :: name, .guarded entry)

/-- The catalog with or without help, and with or without guarded entries. -/
def build (helpful guarded : Bool) : Catalog :=
  let catalog := if helpful then withHelp else plain
  if guarded then withGuards catalog else catalog

/-- The catalog that command lines use. -/
def standard : Catalog := build true true

/-- Runs a command by its name. -/
def run (name : Text) (arguments : List Text) : Action Unit :=
  match standard.lookup name with
  | some entry => entry.run arguments
  | none => throw (.unsupported name)

end Catalog

end MiniShell
