/-
This file runs a single call: a command with its words, its redirections and the pipe it reads
from. Standard input is given back after a call that succeeds; a call that fails leaves the
stream it was reading in front.
-/

import MiniShell.Catalog.Entry

namespace MiniShell

/-- A file that output goes to. -/
structure Target where
  name : Text
  /-- The output is added at the end of the file. -/
  append : Bool
  deriving DecidableEq

/-- The state of an evaluation: what has been collected on the way through a command line. -/
structure Evaluation where
  session : Session
  /-- The outputs of calls. A call writes to the last of them. -/
  outputs : List (List Text) := []
  /-- The words of the calls that are being read. -/
  words : List (List Text) := []
  /-- The files that input is redirected from. -/
  inputs : List Text := []
  /-- The files that output is redirected to. -/
  targets : List Target := []

/-- A computation that evaluates a part of a command line. -/
abbrev Evaluator := ExceptT Fault (StateM Evaluation)

namespace Evaluator

/-- Runs an evaluator. -/
def start (evaluator : Evaluator α) (evaluation : Evaluation) : Except Fault α × Evaluation :=
  (ExceptT.run evaluator).run evaluation

/-- An action in the session. -/
def act (action : Action α) : Evaluator α := fun evaluation =>
  let (result, session) := Action.start action evaluation.session
  (result, { evaluation with session })

/-! ### Input -/

/-- Opens the file that input comes from. -/
def openInput (name : Text) : Action Unit := do
  let (trail, _) ←
    Action.rephrase
      (fun fault =>
        match fault with
        | .system .noEntry _ => .inputMissing
        | other => other)
      (Action.openFile name)
  Action.pushInput (Stream.ofFile trail)

/-- Redirects standard input to a pipe or to a file, and tells whether it did. -/
def redirectInput (pipe : Option Text) : Evaluator Bool := do
  let evaluation ← get
  match pipe, evaluation.inputs.getLast? with
  | some _, some _ => throw .inputTwice
  | some text, none =>
    act (Action.pushInput { ready := text })
    return true
  | none, some name =>
    set { evaluation with inputs := evaluation.inputs.dropLast }
    act (openInput name)
    return true
  | none, none => return false

/-! ### Output -/

/-- Takes the last output away. `missing` is the fault if there is none. -/
def popOutput (missing : Fault) : Evaluator (List Text) := do
  let evaluation ← get
  match evaluation.outputs.getLast? with
  | none => throw missing
  | some output =>
    set { evaluation with outputs := evaluation.outputs.dropLast }
    return output

/-- Writes the last output to the file that output is redirected to. -/
def redirectOutput (missing : Fault) : Evaluator Unit := do
  let evaluation ← get
  match evaluation.targets.getLast? with
  | none => return ()
  | some target =>
    set { evaluation with targets := evaluation.targets.dropLast }
    if target.append then act (Action.appendFile target.name [])
    else act (Action.writeFile target.name [])
    let output ← popOutput missing
    act (Action.appendFile target.name output.flatten)

/-- Runs a command on the last output. -/
def runWords (missing : Fault) (words : List Text) : Evaluator Unit := do
  let evaluation ← get
  match evaluation.outputs.getLast? with
  | none => throw missing
  | some output =>
    match words with
    | [] => throw .listIndex
    | name :: arguments =>
      let (result, lines) ← act (Action.collect output (Catalog.run name arguments))
      modify fun evaluation =>
        { evaluation with outputs := evaluation.outputs.dropLast ++ [lines] }
      match result with
      | .ok _ => return ()
      | .error fault => throw fault

/-- Runs a call. `missing` is the fault if there is no output to write to. -/
def runCall (missing : Fault) (words : List Text) (pipe : Option Text) : Evaluator Unit := do
  let evaluation ← get
  if evaluation.inputs.length > 1 || evaluation.targets.length > 1 then
    throw .tooManyRedirections
  else
    let redirected ← redirectInput pipe
    runWords missing words
    redirectOutput missing
    if redirected then act Action.popInput

end Evaluator

end MiniShell
