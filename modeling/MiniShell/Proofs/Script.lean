/-
This file defines scripts: pipelines of calls of plain words, with redirections
only where a pipeline begins and ends. A script can be written as a command
line, and it can be carried out directly, call by call, without cutting,
parsing or a stack of outputs. Both ways to run a script are compared
elsewhere.

The written line has single spaces between its tokens, which is how it is cut
again.
-/

import MiniShell.Proofs.Lexing
import MiniShell.Shell.Call

namespace MiniShell

/-! ### Scripts -/

/-- The characters that no plain word holds. -/
def specialCharacters : List Char :=
  [' ', '\t', '\n', '\'', '"', '`', '<', '>', '|', ';', '*']

/-- A word that stands for itself on a command line. -/
structure PlainWord where
  text : Text
  nonempty : text ≠ []
  plain : ∀ character ∈ text, character ∉ specialCharacters

/-- Whether a text is a plain word. -/
def Text.isPlainWord (text : Text) : Bool :=
  !text.isEmpty && text.all fun character => !specialCharacters.contains character

def PlainWord.ofText (text : Text) (isPlain : text.isPlainWord = true) : PlainWord where
  text
  nonempty := by
    rintro rfl
    simp [Text.isPlainWord] at isPlain
  plain := by
    intro character member
    have plain := (Bool.and_eq_true_iff.mp isPlain).2
    simpa using List.all_eq_true.mp plain character member

/-- A command with its arguments. -/
structure Invocation where
  name : PlainWord
  arguments : List PlainWord

/-- A file that takes the output of a pipeline, in place of or after what it holds. -/
structure Destination where
  file : PlainWord
  append : Bool

/-- Calls that each read what the one before puts out. -/
structure Pipeline where
  input : Option PlainWord
  first : Invocation
  later : List Invocation
  output : Option Destination

/-- Pipelines that are run one after the other. -/
structure Script where
  first : Pipeline
  later : List Pipeline

/-- A call with the redirections that are written after it. -/
structure Stage where
  call : Invocation
  input : Option PlainWord
  output : Option Destination

/-- The calls from one on to the end of a pipeline. Only the last has the output. -/
def stagesFrom (input : Option PlainWord) (output : Option Destination) (call : Invocation) :
    List Invocation → List Stage
  | [] => [⟨call, input, output⟩]
  | next :: rest => ⟨call, input, none⟩ :: stagesFrom none output next rest

/-- The calls of a pipeline. Only the first has the input. -/
def Pipeline.stages (pipeline : Pipeline) : List Stage :=
  stagesFrom pipeline.input pipeline.output pipeline.first pipeline.later

def Script.pipelines (script : Script) : List Pipeline := script.first :: script.later

/-! ### Writing a script as a command line -/

/-- What is written after the name of a command: an argument or a redirection. -/
inductive Part
  | word (argument : PlainWord)
  | source (file : PlainWord)
  | target (destination : Destination)

def Part.texts : Part → List Text
  | .word argument => [argument.text]
  | .source file => [['<'], file.text]
  | .target destination =>
    [if destination.append then ['>', '>'] else ['>'], destination.file.text]

/-- The arguments of a call, and then its redirections. -/
def Stage.parts (stage : Stage) : List Part :=
  stage.call.arguments.map .word ++ stage.input.toList.map .source ++
    stage.output.toList.map .target

def Stage.texts (stage : Stage) : List Text :=
  stage.call.name.text :: stage.parts.flatMap Part.texts

def Stage.render (stage : Stage) : Text := Text.join [' '] stage.texts

def Pipeline.render (pipeline : Pipeline) : Text :=
  Text.join [' ', '|', ' '] (pipeline.stages.map Stage.render)

def Script.render (script : Script) : Text :=
  Text.join [' ', ';', ' '] (script.pipelines.map Pipeline.render)

/-! ### Carrying out a script -/

/-- Runs a command and gives its output. -/
def Invocation.run (call : Invocation) : Action (List Text) := do
  let (result, lines) ←
    Action.collect [] (Catalog.run call.name.text (call.arguments.map PlainWord.text))
  match result with
  | .ok _ => return lines
  | .error fault => throw fault

/-- Prepares the standard input of a call: a file, or the output of the call before it if there
is any. Otherwise standard input stays what it is. The result tells which. -/
def Stage.feed (stage : Stage) (piped : List Text) : Action Bool := do
  match stage.input with
  | some file =>
    Evaluator.openInput file.text
    return true
  | none =>
    if piped = [] then return false
    else
      Action.pushInput { ready := piped.flatten }
      return true

/-- Writes output to a file, all at once. -/
def Destination.write (destination : Destination) (lines : List Text) : Action Unit :=
  if destination.append then Action.appendFile destination.file.text lines.flatten
  else Action.writeFile destination.file.text lines.flatten

/-- Hands on the output of a call. Output that goes to a file goes nowhere else. -/
def Stage.deliver (stage : Stage) (lines : List Text) : Action (List Text) :=
  match stage.output with
  | none => return lines
  | some destination => do
    destination.write lines
    return []

/-- Runs a call of a pipeline on the output of the one before it. -/
def Stage.run (stage : Stage) (piped : List Text) : Action (List Text) := do
  let redirected ← stage.feed piped
  let lines ← stage.call.run
  let delivered ← stage.deliver lines
  if redirected then Action.popInput
  return delivered

/-- Runs calls from left to right, each on the output of the one before it. -/
def runStages (piped : List Text) (stages : List Stage) : Action (List Text) :=
  stages.foldlM (fun piped stage => stage.run piped) piped

/-- Runs the calls of a pipeline. -/
def Pipeline.run (pipeline : Pipeline) : Action (List Text) := runStages [] pipeline.stages

/-- Runs the pipelines of a script one after the other and gives all their output. -/
def Script.run (script : Script) : Action (List Text) := do
  return (← script.pipelines.mapM Pipeline.run).flatten

end MiniShell
