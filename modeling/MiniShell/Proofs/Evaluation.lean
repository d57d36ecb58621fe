/-
This file takes the evaluator apart: what running an action or an evaluator
does step by step, and how the evaluation of a tree is put together from the
evaluation of its children.

The last part is for proofs about the evaluator as a whole. A property that
holds of the single steps, and that is kept when evaluators follow each other,
holds of the evaluation of every tree. Such a proof has to look at the steps
only and not at the trees.
-/

import MiniShell.Proofs.Derivation
import MiniShell.Proofs.Running
import MiniShell.Shell.Evaluator

namespace MiniShell

open MiniShell.Derivation

/-! ### Running actions -/

namespace Action

variable {Result Other : Type}

@[simp] theorem start_pure (result : Result) (session : Session) :
    (pure result : Action Result).start session = (.ok result, session) := rfl

@[simp] theorem start_get (session : Session) :
    (get : Action Session).start session = (.ok session, session) := rfl

@[simp] theorem start_modify (change : Session → Session) (session : Session) :
    (modify change : Action PUnit).start session = (.ok ⟨⟩, change session) := rfl

@[simp] theorem start_throw (fault : Fault) (session : Session) :
    (throw fault : Action Result).start session = (.error fault, session) := rfl

theorem start_bind (action : Action Result) (next : Result → Action Other) (session : Session) :
    (action >>= next).start session =
      match action.start session with
      | (.ok result, after) => (next result).start after
      | (.error fault, after) => (.error fault, after) := by
  show (ExceptT.bindCont next (action.start session).1).run (action.start session).2 = _
  rcases action.start session with ⟨fault | result, after⟩ <;> rfl

theorem start_bind_ok {action : Action Result} {session after : Session} {result : Result}
    (ran : action.start session = (.ok result, after)) (next : Result → Action Other) :
    (action >>= next).start session = (next result).start after := by
  rw [start_bind, ran]

/-- Where two steps succeed, the first does. -/
theorem start_bind_inv {action : Action Result} {next : Result → Action Other}
    {session last : Session} {other : Other}
    (ran : (action >>= next).start session = (.ok other, last)) :
    ∃ result between, action.start session = (.ok result, between) ∧
      (next result).start between = (.ok other, last) :=
  run_bind_ok_inv ran

/-- Where two steps fail, the first does, or it leads to where the second does. -/
theorem start_bind_fault_inv {action : Action Result} {next : Result → Action Other}
    {session last : Session} {fault : Fault}
    (ran : (action >>= next).start session = (.error fault, last)) :
    action.start session = (.error fault, last) ∨ ∃ result between,
      action.start session = (.ok result, between) ∧
        (next result).start between = (.error fault, last) :=
  run_bind_error_inv ran

theorem start_map (change : Result → Other) (action : Action Result) (session : Session) :
    (change <$> action).start session =
      ((action.start session).1.map change, (action.start session).2) :=
  run_map change action session

@[simp] theorem mapError_ok {Error : Type} (rename : Error → Fault) (result : Result) :
    (Except.ok result).mapError rename = .ok result := rfl

@[simp] theorem mapError_error {Error : Type} (rename : Error → Fault) (error : Error) :
    (Except.error error : Except Error Result).mapError rename = .error (rename error) := rfl

theorem start_tryCatch (action : Action Result) (handle : Fault → Action Result)
    (session : Session) :
    (tryCatch action handle).start session =
      match action.start session with
      | (.ok result, after) => (.ok result, after)
      | (.error fault, after) => (handle fault).start after := by
  simp only [start, tryCatch, tryCatchThe, MonadExceptOf.tryCatch, ExceptT.tryCatch,
    ExceptT.run, ExceptT.mk, StateT.run, bind, StateT.bind]
  rcases action session with ⟨fault | result, after⟩ <;> rfl

theorem start_rephrase (rename : Fault → Fault) (action : Action Result) (session : Session) :
    (rephrase rename action).start session =
      ((action.start session).1.mapError rename, (action.start session).2) := by
  simp only [start, rephrase, tryCatch, tryCatchThe, MonadExceptOf.tryCatch, ExceptT.tryCatch,
    ExceptT.run, ExceptT.mk, StateT.run, bind, StateT.bind]
  rcases action session with ⟨fault | result, after⟩ <;> rfl

theorem start_collect (out : List Text) (action : Action Unit) (session : Session) :
    (collect out action).start session =
      (.ok ((action.start { session with out }).1, (action.start { session with out }).2.out),
        { (action.start { session with out }).2 with out := session.out }) := rfl

theorem start_of_toOption {action : Action Unit} {session : Session}
    (succeeds : (action.start session).1.toOption = some ()) :
    action.start session = (.ok ⟨⟩, (action.start session).2) := by
  cases result : (action.start session).1 with
  | error fault => simp [result, Except.toOption] at succeeds
  | ok done => exact Prod.ext result rfl

/-- Actions that run alike from every session are equal. -/
theorem ext_start {first second : Action Result}
    (alike : ∀ session, first.start session = second.start session) : first = second :=
  funext alike

end Action

/-! ### Running evaluators -/

namespace Evaluator

variable {Result Other : Type}

@[simp] theorem start_pure (result : Result) (evaluation : Evaluation) :
    (pure result : Evaluator Result).start evaluation = (.ok result, evaluation) := rfl

@[simp] theorem start_get (evaluation : Evaluation) :
    (get : Evaluator Evaluation).start evaluation = (.ok evaluation, evaluation) := rfl

@[simp] theorem start_set (next evaluation : Evaluation) :
    (set next : Evaluator PUnit).start evaluation = (.ok ⟨⟩, next) := rfl

@[simp] theorem start_modify (change : Evaluation → Evaluation) (evaluation : Evaluation) :
    (modify change : Evaluator PUnit).start evaluation = (.ok ⟨⟩, change evaluation) := rfl

@[simp] theorem start_throw (fault : Fault) (evaluation : Evaluation) :
    (throw fault : Evaluator Result).start evaluation = (.error fault, evaluation) := rfl

@[simp] theorem start_act (action : Action Result) (evaluation : Evaluation) :
    (act action).start evaluation =
      ((action.start evaluation.session).1,
        { evaluation with session := (action.start evaluation.session).2 }) := rfl

theorem start_bind (evaluator : Evaluator Result) (next : Result → Evaluator Other)
    (evaluation : Evaluation) :
    (evaluator >>= next).start evaluation =
      match evaluator.start evaluation with
      | (.ok result, after) => (next result).start after
      | (.error fault, after) => (.error fault, after) := by
  show (ExceptT.bindCont next (evaluator.start evaluation).1).run
    (evaluator.start evaluation).2 = _
  rcases evaluator.start evaluation with ⟨fault | result, after⟩ <;> rfl

theorem start_map (change : Result → Other) (evaluator : Evaluator Result)
    (evaluation : Evaluation) :
    (change <$> evaluator).start evaluation =
      ((evaluator.start evaluation).1.map change, (evaluator.start evaluation).2) :=
  run_map change evaluator evaluation

theorem start_bind_ok {evaluator : Evaluator Result} {evaluation after : Evaluation}
    {result : Result} (ran : evaluator.start evaluation = (.ok result, after))
    (next : Result → Evaluator Other) :
    (evaluator >>= next).start evaluation = (next result).start after := by
  rw [start_bind, ran]

/-- Where two steps succeed, the first does. -/
theorem start_bind_inv {evaluator : Evaluator Result} {next : Result → Evaluator Other}
    {evaluation last : Evaluation} {other : Other}
    (ran : (evaluator >>= next).start evaluation = (.ok other, last)) :
    ∃ result between, evaluator.start evaluation = (.ok result, between) ∧
      (next result).start between = (.ok other, last) :=
  run_bind_ok_inv ran

theorem start_popOutput (missing : Fault) {evaluation : Evaluation}
    {outputs : List (List Text)} {lines : List Text}
    (last : evaluation.outputs = outputs ++ [lines]) :
    (popOutput missing).start evaluation =
      (.ok lines, { evaluation with outputs }) := by
  rw [popOutput, start_bind_ok (start_get _)]
  simp [start_map, last]
  rfl

/-- A command is run on the last output, and what it writes takes the place of that. -/
theorem start_runWords (missing : Fault) (name : Text) (arguments : List Text)
    {evaluation : Evaluation} {below : List (List Text)} {top : List Text}
    (stack : evaluation.outputs = below ++ [top]) {result : Except Fault Unit} {after : Session}
    (ran : (Catalog.run name arguments).start { evaluation.session with out := top } =
      (result, after)) :
    (runWords missing (name :: arguments)).start evaluation =
      (result, { evaluation with
        session := { after with out := evaluation.session.out }
        outputs := below ++ [after.out] }) := by
  rw [runWords, start_bind_ok (start_get _)]
  simp only [stack, List.getLast?_append, List.getLast?_singleton, Option.some_or]
  rw [start_bind, start_act, Action.start_collect, ran]
  simp only [start_bind_ok (start_modify _ _), stack, List.dropLast_concat]
  cases result <;> rfl

/-! ### Evaluating trees -/

variable (substitute : Substitute)

theorem visit_leaf (token : Token) : visit substitute (.leaf token) = pure () := rfl

theorem visit_call (call : Call) :
    visit substitute call.tree = (do
      beginCall
      visitAll substitute call.parts
      endCall []) := rfl

/-- Runs a call on the last output, which is taken away. -/
def pipeInto (call : Call) : Evaluator Unit := do
  let piped ← popOutput .emptyStack
  beginCall
  visitAll substitute call.parts
  endCall piped

theorem visit_calls (left : Call) (bar : Bar) (right : Call) :
    visit substitute (Pipe.calls left bar right).tree = (do
      visit substitute left.tree
      pipeInto substitute right) := rfl

theorem visit_pipe (left : Pipe) (bar : Bar) (right : Call) :
    visit substitute (Pipe.call left bar right).tree = (do
      visit substitute left.tree
      pipeInto substitute right) := rfl

theorem visit_stage (left : Pipe) (bar : Bar) (right : Derivation.Command) :
    visit substitute (Pipe.command left bar right).tree = (do
      visit substitute left.tree
      let piped ← popOutput .emptyStack
      beginCall
      visitAll substitute right.parts
      endCall piped) := rfl

theorem visit_redirection (redirection : Redirection) :
    visit substitute redirection.tree = addRedirection redirection.parts := rfl

theorem visit_argument (argument : Argument) :
    visit substitute argument.tree = (do
      let words ← act (argumentWords substitute (argument.pieces.map pieceTree))
      addWords words) := rfl

theorem visit_command (children : List Tree) :
    visit substitute (.node .command children) = visitAll substitute children := rfl

theorem visitAll_nil : visitAll substitute [] = pure () := rfl

theorem visitAll_cons (tree : Tree) (rest : List Tree) :
    visitAll substitute (tree :: rest) = (do
      visit substitute tree
      visitAll substitute rest) := rfl

theorem visitAll_append (trees others : List Tree) :
    visitAll substitute (trees ++ others) = (do
      visitAll substitute trees
      visitAll substitute others) := by
  induction trees with
  | nil => rw [List.nil_append, visitAll_nil, pure_bind]
  | cons tree rest inductionHypothesis =>
    rw [List.cons_append, visitAll_cons, visitAll_cons, inductionHypothesis, bind_assoc]

theorem visitAll_single (tree : Tree) :
    visitAll substitute [tree] = visit substitute tree := by
  rw [visitAll_cons, visitAll_nil, bind_pure_unit]

theorem visitAll_blank (blank : Option Blank) :
    visitAll substitute (blankLeaves blank) = pure () := by
  cases blank with
  | none => rw [blankLeaves_none, visitAll_nil]
  | some blank => rw [blankLeaves_some, visitAll_single, visit_leaf]

theorem visit_atom (atom : Atom) :
    visit substitute atom.tree = visit substitute atom.inner := by
  show visitAll substitute [atom.inner] = visit substitute atom.inner
  rw [visitAll_single]

/-- Commands with a semicolon between them are evaluated one after the other. -/
theorem visit_sequence (left : Derivation.Command) (semicolon : Semicolon)
    (right : Derivation.Command) :
    visit substitute (Command.sequence left semicolon right).tree = (do
      visit substitute left.tree
      visit substitute right.tree) := by
  rw [Command.tree, visit_command, Command.parts, visitAll_cons, visitAll_cons, visitAll_single,
    visit_leaf, pure_bind]
  rfl

/-! ### What every evaluation has in common -/

/-- What is kept when one step follows another, and holds of the steps that calls, redirections and
arguments are evaluated in, holds of the evaluation of every tree. -/
theorem visit_closed {Holds : (Result : Type) → Evaluator Result → Prop}
    (sequential : Sequential Holds) (begins : Holds _ beginCall)
    (ends : ∀ piped, Holds _ (endCall piped)) (pops : Holds _ (popOutput .emptyStack))
    (redirects : ∀ parts, Holds _ (addRedirection parts))
    (reads : ∀ pieces, Holds _ (act (argumentWords substitute pieces)))
    (adds : ∀ words, Holds _ (addWords words)) (tree : Tree) :
    Holds _ (visit substitute tree) := by
  refine visit.induct (fun tree => Holds _ (visit substitute tree))
    (fun tree => Holds _ (visitInside substitute tree))
    (fun trees => Holds _ (visitAll substitute trees))
    ?call ?pipe ?redirection ?argument ?other ?leaf ?inside ?insideLeaf ?nil ?cons tree
  case call =>
    intro children inside
    exact sequential.bind begins fun _ => sequential.bind inside fun _ => ends []
  case pipe =>
    intro left _ right _ leftHolds rightHolds
    refine sequential.bind leftHolds fun _ => sequential.bind pops fun piped => ?_
    exact sequential.bind begins fun _ => sequential.bind rightHolds fun _ => ends piped
  case redirection => exact redirects
  case argument => exact fun pieces => sequential.bind (reads pieces) adds
  case other =>
    intro rule children notCall notPipe notRedirection notArgument inside
    rw [visit] <;> assumption
  case leaf =>
    intro tree notCall notPipe notRedirection notArgument notNode
    cases tree with
    | node rule children => exact absurd rfl (notNode rule children)
    | _ => exact sequential.pure _
  case inside => exact fun _ _ inside => inside
  case insideLeaf =>
    intro tree notNode
    cases tree with
    | node rule children => exact absurd rfl (notNode rule children)
    | _ => exact sequential.pure _
  case nil => exact sequential.pure _
  case cons => exact fun _ _ first rest => sequential.bind first fun _ => rest

/-- The same for the words of arguments, and the actions that they are made of. -/
theorem argumentWords_closed {Holds : (Result : Type) → Action Result → Prop}
    (sequential : Sequential Holds) (substitutes : ∀ line, Holds _ (substitute line))
    (expands : ∀ words position, Holds _ (expandAt words position)) (pieces : List Tree) :
    Holds _ (argumentWords substitute pieces) := by
  have segment (segment : Segment) : Holds _ (segmentText substitute segment) := by
    cases segment with
    | plain text => exact sequential.pure text
    | command line => exact sequential.bind (substitutes line) fun _ => sequential.pure _
  have quoted (tree : Tree) : Holds _ (quotedWords substitute tree) := by
    unfold quotedWords
    split
    · exact sequential.pure _
    · split
      · exact sequential.bind (sequential.mapM fun item _ => segment item)
          fun _ => sequential.pure _
      · exact sequential.bind (substitutes _) fun _ => sequential.pure _
  have piece (draft : Draft) (tree : Tree) : Holds _ (addPiece substitute draft tree) := by
    unfold addPiece
    split
    · exact sequential.bind (quoted tree) fun _ => sequential.pure _
    · exact sequential.pure _
  exact sequential.bind (sequential.foldlM (fun tree _ draft => piece draft tree) _)
    fun _ => sequential.foldlM (fun position _ words => expands words position) _

end Evaluator

/-- What the empty output has, and the output of a line has if commands in back quotes have it, the
output of every command line has. -/
theorem runLine_closed (Holds : Action (List Text) → Prop) (nothing : Holds (pure []))
    (outputs : ∀ substitute : Evaluator.Substitute, (∀ line, Holds (substitute line)) →
      ∀ line, Holds (outputOfLine substitute line)) (line : Text) : Holds (runLine line) := by
  have interprets (depth : Nat) : ∀ line, Holds (interpret depth line) := by
    induction depth with
    | zero => exact outputs _ fun _ => nothing
    | succ depth inductionHypothesis => exact outputs _ inductionHypothesis
  exact interprets substitutionDepth line

end MiniShell
