/-
This file evaluates the tree of a command line. Calls are run from left to right; a pipe hands
the output of its left side to the call on its right; and a command in back quotes is
evaluated where it stands, in the same session.
-/

import MiniShell.Grammar.Recogniser
import MiniShell.Shell.Call
import MiniShell.Shell.Slots
import MiniShell.Shell.Word
import MiniShell.Wildcard.Expansion

namespace MiniShell

namespace Evaluator

/-! ### Words -/

/-- Evaluates a command line and gives its output. -/
abbrev Substitute := Text → Action (List Text)

/-- The text that a segment stands for. -/
def segmentText (substitute : Substitute) : Segment → Action Text
  | .plain text => pure text
  | .command line => do return flattenOutput (← substitute line)

/-- The words that quoted text stands for. -/
def quotedWords (substitute : Substitute) (quoted : Tree) : Action (List Text) := do
  let text := quoted.text
  if quoted.children.any (Tree.isToken .singleQuoted) then return [unquoted text]
  else if quoted.children.any (Tree.isToken .doubleQuoted) then
    let texts ← (Segment.ofText text).mapM (segmentText substitute)
    return [texts.flatten]
  else return blankWords (flattenOutput (← substitute (unquoted text)))

/-- The draft of an argument with one more piece. -/
def addPiece (substitute : Substitute) (draft : Draft) (piece : Tree) : Action Draft := do
  if piece.isNode .quoted then return draft.addWords (← quotedWords substitute piece)
  else return draft.addText piece.text

/-- The words with the one at a position replaced by the names of files. -/
def expandAt (words : List Text) (position : Nat) : Action (List Text) := do
  let word := words.getD position []
  match ← Action.expand word with
  | [] => throw (.noMatches word)
  | names => return words.take position ++ names ++ words.drop (position + 1)

/-- The words that the pieces of an argument stand for. Those that hold a star are replaced in the
order in which their positions come out of a table of slots. -/
def argumentWords (substitute : Substitute) (pieces : List Tree) : Action (List Text) := do
  let draft ← pieces.foldlM (addPiece substitute) .empty
  (Slots.order draft.starred).foldlM expandAt draft.words

/-- Adds words to the call that is being read. -/
def addWords (words : List Text) : Evaluator Unit :=
  modify fun evaluation =>
    { evaluation with
      words :=
        evaluation.words.dropLast ++ [evaluation.words.getLastD [] ++ words] }

/-! ### Redirections -/

/-- Notes a redirection. Its file is named by the text of its argument, quotes included. -/
def addRedirection (parts : List Tree) : Evaluator Unit :=
  let operator := (parts.headD (.node .redirection [])).text
  let name := ((parts.drop (if parts.length = 2 then 1 else 2)).headD (.node .argument [])).text
  modify fun evaluation =>
    if operator = ['<'] then { evaluation with inputs := evaluation.inputs ++ [name] }
    else
      { evaluation with targets := evaluation.targets ++ [⟨name, operator ≠ ['>']⟩] }

/-! ### Calls and pipes -/

/-- Begins a call: it has no words and no output yet. -/
def beginCall : Evaluator Unit :=
  modify fun evaluation =>
    { evaluation with
      words := evaluation.words ++ [[]]
      outputs := evaluation.outputs ++ [[]] }

/-- Runs the call whose words have been read. An empty list of outputs is no pipe. -/
def endCall (piped : List Text) : Evaluator Unit := do
  let evaluation ← get
  set { evaluation with words := evaluation.words.dropLast }
  runCall .stackIndex (evaluation.words.getLastD [])
    (if piped = [] then none else some piped.flatten)

mutual

/-- Evaluates a tree. -/
def visit (substitute : Substitute) : Tree → Evaluator Unit
  | .node .call children => do
    beginCall
    visitAll substitute children
    endCall []
  | .node .pipe (left :: _ :: right :: _) => do
    visit substitute left
    let piped ← popOutput .emptyStack
    beginCall
    visitInside substitute right
    endCall piped
  | .node .redirection parts => addRedirection parts
  | .node .argument pieces => do
    let words ← act (argumentWords substitute pieces)
    addWords words
  | .node _ children => visitAll substitute children
  | _ => pure ()

/-- Evaluates the children of a tree. -/
def visitInside (substitute : Substitute) : Tree → Evaluator Unit
  | .node _ children => visitAll substitute children
  | _ => pure ()

/-- Evaluates trees from left to right. -/
def visitAll (substitute : Substitute) : List Tree → Evaluator Unit
  | [] => pure ()
  | tree :: rest => do
    visit substitute tree
    visitAll substitute rest

end

end Evaluator

/-! ### Command lines -/

/-- Evaluates a command line from scratch. -/
def evaluateLine (substitute : Evaluator.Substitute) (line : Text) (session : Session) :
    Except Fault Unit × Evaluation :=
  Evaluator.start (Evaluator.visit substitute (readLine line .command 0).tree) { session }

/-- The output of a command line. -/
def outputOfLine (substitute : Evaluator.Substitute) (line : Text) : Action (List Text) :=
  fun session =>
    let (result, evaluation) := evaluateLine substitute line session
    (result.map fun _ => evaluation.outputs.flatten, evaluation.session)

/-- The output of a command line in which commands in back quotes may be nested to a depth.
Deeper ones have no output. -/
def interpret : Nat → Text → Action (List Text)
  | 0, line => outputOfLine (fun _ => pure []) line
  | depth + 1, line => outputOfLine (interpret depth) line

/-- The depth to which commands in back quotes can be nested. A command in back quotes cannot
hold a back quote, so there is never one inside another. -/
def substitutionDepth : Nat := 1

/-- Runs a command line and gives its output. -/
def runLine (line : Text) : Action (List Text) := interpret substitutionDepth line

end MiniShell
