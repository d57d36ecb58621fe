/-
This file proves that a call behind a bar is isolated from the standard input
of the shell. Its command reads exactly what the left side of the bar put out,
so the shell can be given any other standard input on which the left side does
the same, and the pipe ends alike.

There are two limits. An empty list of outputs is no pipe: behind a left side
that puts out nothing the command reads the standard input of the shell after
all. And commands in back quotes among the words of the call are run before the
pipe is in place.
-/

import MiniShell.Proofs.Sequence
import MiniShell.Proofs.StandardInput

namespace MiniShell

open MiniShell.Derivation

/-! ### Evaluators and standard input -/

/-- The evaluation with the first streams of standard input only. -/
def Evaluation.front (depth : Nat) (evaluation : Evaluation) : Evaluation :=
  { evaluation with session := evaluation.session.front depth }

/-- The evaluation with other streams for standard input. -/
def Evaluation.onInput (evaluation : Evaluation) (inputs : List Stream) : Evaluation :=
  { evaluation with session := { evaluation.session with inputs } }

namespace Evaluator

variable {Result Other : Type} {depth : Nat}

/-- What can be seen of the end of an evaluator. -/
def seen (depth : Nat) (outcome : Except Fault Result × Evaluation) :
    Except Fault Result × Evaluation :=
  (outcome.1, outcome.2.front depth)

/-- The same result, and the same evaluation apart from standard input. -/
def EndAlike (outcome other : Except Fault Result × Evaluation) : Prop :=
  seen 0 outcome = seen 0 other

theorem EndAlike.of_seen {outcome other : Except Fault Result × Evaluation}
    (same : seen depth outcome = seen depth other) : EndAlike outcome other := by
  have hidden := congrArg (seen 0) same
  exact hidden

/-- Evaluators that look the same at their ends can be followed by others that do. -/
theorem seen_bind {evaluator other : Evaluator Result} {next otherNext : Result → Evaluator Other}
    {evaluation otherEvaluation : Evaluation}
    (first : seen depth (evaluator.start evaluation) = seen depth (other.start otherEvaluation))
    (onward : ∀ result after otherAfter, after.front depth = otherAfter.front depth →
      seen depth ((next result).start after) = seen depth ((otherNext result).start otherAfter)) :
    seen depth ((evaluator >>= next).start evaluation) =
      seen depth ((other >>= otherNext).start otherEvaluation) := by
  rw [start_bind, start_bind]
  generalize evaluator.start evaluation = ended at first ⊢
  generalize other.start otherEvaluation = otherEnded at first ⊢
  obtain ⟨result, after⟩ := ended
  obtain ⟨otherResult, otherAfter⟩ := otherEnded
  obtain ⟨rfl, same⟩ := Prod.mk.inj first
  cases result with
  | error fault => exact Prod.ext rfl same
  | ok result => exact onward result after otherAfter same

/-- An evaluator that sees at most the first streams of standard input. -/
def Sees (depth : Nat) (evaluator : Evaluator Result) : Prop :=
  ∀ evaluation, seen depth (evaluator.start evaluation) =
    seen depth (evaluator.start (evaluation.front depth))

namespace Sees

theorem front_front (evaluation : Evaluation) :
    (evaluation.front depth).front depth = evaluation.front depth := by
  simp [Evaluation.front, MiniShell.front_front]

theorem alike {evaluator : Evaluator Result} (sees : Sees depth evaluator)
    {evaluation other : Evaluation} (same : evaluation.front depth = other.front depth) :
    seen depth (evaluator.start evaluation) = seen depth (evaluator.start other) := by
  rw [sees evaluation, same, ← sees other]

theorem pure (result : Result) : Sees depth (Pure.pure result : Evaluator Result) := by
  intro evaluation
  simp [seen, front_front]

theorem throw (fault : Fault) : Sees depth (throw fault : Evaluator Result) := by
  intro evaluation
  simp [seen, front_front]

theorem bind {evaluator : Evaluator Result} {next : Result → Evaluator Other}
    (sees : Sees depth evaluator) (onward : ∀ result, Sees depth (next result)) :
    Sees depth (evaluator >>= next) := by
  intro evaluation
  exact seen_bind (sees evaluation) fun result _ _ same => (onward result).alike same

theorem act {action : Action Result} (sees : MiniShell.Sees depth action) :
    Sees depth (act action) := by
  intro evaluation
  obtain ⟨sameResult, sameSession⟩ := Prod.mk.inj (sees evaluation.session)
  rw [start_act, start_act]
  exact Prod.ext sameResult (congrArg (fun session => { evaluation with session }) sameSession)

theorem get {next : Evaluation → Evaluator Result}
    (same : ∀ evaluation : Evaluation, next (evaluation.front depth) = next evaluation)
    (onward : ∀ evaluation, Sees depth (next evaluation)) :
    Sees depth (MonadState.get >>= next) := by
  intro evaluation
  rw [start_bind_ok (start_get _), start_bind_ok (start_get _), same]
  exact onward evaluation evaluation

theorem modify {change : Evaluation → Evaluation}
    (same : ∀ evaluation,
      (change evaluation).front depth = (change (evaluation.front depth)).front depth) :
    Sees depth (modify change : Evaluator PUnit) := by
  intro evaluation
  rw [start_modify, start_modify]
  exact Prod.ext rfl (same evaluation)

/-! ### The end of a call -/

theorem popOutput (missing : Fault) : Sees depth (popOutput missing) := by
  intro evaluation
  rcases List.eq_nil_or_concat evaluation.outputs with empty | ⟨outputs, lines, last⟩
  · have pops : ∀ other : Evaluation, other.outputs = [] →
        (Evaluator.popOutput missing).start other = (.error missing, other) := by
      intro other nothing
      rw [Evaluator.popOutput, start_bind_ok (start_get _), nothing]
      rfl
    rw [pops _ empty, pops (evaluation.front depth) empty, seen, seen, front_front]
  · rw [List.concat_eq_append] at last
    have lastFront : (evaluation.front depth).outputs = outputs ++ [lines] := last
    rw [start_popOutput missing last, start_popOutput missing lastFront]
    exact Prod.ext rfl (front_front { evaluation with outputs }).symm

theorem collect {action : Action Unit} (sees : MiniShell.Sees depth action) (out : List Text) :
    MiniShell.Sees depth (Action.collect out action) := by
  intro session
  obtain ⟨sameResult, sameSession⟩ := Prod.mk.inj (sees { session with out })
  have sameOut := congrArg Session.out sameSession
  have sameRest := congrArg (fun after : Session => { after with out := session.out }) sameSession
  rw [Action.start_collect, Action.start_collect]
  exact Prod.ext (congrArg Except.ok (Prod.ext sameResult sameOut)) sameRest

theorem runWords (missing : Fault) (words : List Text) : Sees 1 (runWords missing words) := by
  refine get (fun _ => rfl) fun evaluation => ?_
  split
  · exact throw _
  · split
    · exact throw _
    · refine (act (collect (MiniShell.Sees.catalog _ _) _)).bind fun outcome => ?_
      refine (modify fun _ => ?_).bind fun _ => ?_
      · simp [Evaluation.front, MiniShell.front_front]
      · split
        · exact pure _
        · exact throw _

theorem redirectOutput (missing : Fault) : Sees depth (redirectOutput missing) := by
  have writes : ∀ (target : Target) (prepare : Action Unit), MiniShell.Sees depth prepare →
      Sees depth (do
        Evaluator.act prepare
        let output ← Evaluator.popOutput missing
        Evaluator.act (Action.appendFile target.name output.flatten)) := fun target prepare sees =>
    (act sees).bind fun _ => (popOutput missing).bind fun _ => act (.appendFile _ _)
  intro evaluation
  rw [Evaluator.redirectOutput, start_bind_ok (start_get _), start_bind_ok (start_get _)]
  have same : (evaluation.front depth).targets.getLast? = evaluation.targets.getLast? := rfl
  rw [same]
  cases evaluation.targets.getLast? with
  | none => exact pure _ evaluation
  | some target =>
    let moved (before : Evaluation) : Evaluation :=
      { before with targets := before.targets.dropLast }
    have sameMoved :
        (moved evaluation).front depth = (moved (evaluation.front depth)).front depth := by
      simp [moved, Evaluation.front, MiniShell.front_front]
    dsimp only
    rw [start_bind_ok (start_set _ _), start_bind_ok (start_set _ _)]
    cases target.append with
    | true => exact (writes target _ (.appendFile target.name [])).alike sameMoved
    | false => exact (writes target _ (.writeFile target.name [])).alike sameMoved

end Sees

/-! ### A call on a pipe -/

theorem start_redirectInput_pipe (text : Text) {evaluation : Evaluation}
    (noInputs : evaluation.inputs = []) :
    (redirectInput (some text)).start evaluation =
      (.ok true, evaluation.onInput ({ ready := text } :: evaluation.session.inputs)) := by
  rw [redirectInput, start_bind_ok (start_get _), noInputs]
  rfl

theorem start_redirectInput_none {evaluation : Evaluation} (noInputs : evaluation.inputs = []) :
    (redirectInput none).start evaluation = (.ok false, evaluation) := by
  rw [redirectInput, start_bind_ok (start_get _), noInputs]
  rfl

/-- A call that reads from a pipe ends like one whose standard input is nothing but the text in the
pipe. -/
theorem runCall_pipe (missing : Fault) (words : List Text) (text : Text) {evaluation : Evaluation}
    (noInputs : evaluation.inputs = []) :
    EndAlike ((runCall missing words (some text)).start evaluation)
      ((runCall missing words none).start (evaluation.onInput [{ ready := text }])) := by
  have noneAlone : (evaluation.onInput [{ ready := text }]).inputs = [] := noInputs
  have sees : Sees 1 (do runWords missing words; redirectOutput missing) :=
    (Sees.runWords missing words).bind fun _ => Sees.redirectOutput missing
  have finishes : ∀ redirected : Bool, (do
      runWords missing words
      redirectOutput missing
      if redirected then act Action.popInput : Evaluator Unit) =
        (do runWords missing words; redirectOutput missing) >>= fun _ =>
          if redirected then act Action.popInput else pure () := fun _ => (bind_assoc _ _ _).symm
  rw [runCall, runCall, start_bind_ok (start_get _), start_bind_ok (start_get _)]
  have sameTargets : (evaluation.onInput [{ ready := text }]).targets = evaluation.targets := rfl
  rw [noneAlone, sameTargets, noInputs]
  by_cases many : (decide (([] : List Text).length > 1) ||
      decide (evaluation.targets.length > 1)) = true
  · rw [if_pos many, if_pos many]
    rfl
  · rw [if_neg many, if_neg many, start_bind_ok (start_redirectInput_pipe text noInputs),
      start_bind_ok (start_redirectInput_none noneAlone), finishes, finishes]
    have front : (evaluation.onInput ({ ready := text } :: evaluation.session.inputs)).front 1 =
        (evaluation.onInput [{ ready := text }]).front 1 := by
      simp [Evaluation.front, Evaluation.onInput, Session.front]
    exact seen_bind (EndAlike.of_seen (sees.alike front)) fun _ _ _ same => Prod.ext rfl same

theorem endCall_alike {lines : List Text} (nonempty : lines ≠ []) {evaluation : Evaluation}
    (noInputs : evaluation.inputs = []) :
    EndAlike ((endCall lines).start evaluation)
      ((endCall []).start (evaluation.onInput [{ ready := lines.flatten }])) := by
  rw [endCall, endCall, start_bind_ok (start_get _), start_bind_ok (start_get _),
    start_bind_ok (start_set _ _), start_bind_ok (start_set _ _), if_neg nonempty, if_pos rfl]
  exact runCall_pipe .stackIndex _ lines.flatten (by exact noInputs)

end Evaluator

/-! ### Reading the words of a call -/

/-- Whether a piece of an argument runs a command. -/
def Tree.runsCommand : Tree → Bool
  | .node .quoted [.leaf token] =>
    token.kind = .backQuoted || token.kind = .doubleQuoted && token.text.contains '`'
  | _ => false

/-- Whether a part of a call runs a command for its words. -/
def Tree.substitutes : Tree → Bool
  | .node .argument pieces => pieces.any Tree.runsCommand
  | .node .atom [inner] => inner.substitutes
  | _ => false

/-- Whether commands are run for the words of a call. -/
def Tree.hasSubstitution (call : Tree) : Bool := call.children.any Tree.substitutes

/-- Whether a part of a call takes the input of the call from a file. -/
def Tree.takesInput : Tree → Bool
  | .node .redirection (operator :: _) => operator.text = ['<']
  | .node .atom [inner] => inner.takesInput
  | _ => false

/-- Whether a call takes its input from a file. -/
def Tree.redirectsInput (call : Tree) : Bool := call.children.any Tree.takesInput

theorem Segment.cut_plain {steps : Nat} {text : Text} (noQuote : '`' ∉ text) :
    ∀ segment ∈ Segment.cut steps text, ∃ plain, segment = .plain plain := by
  induction steps generalizing text with
  | zero => simp [cut]
  | succ steps inductionHypothesis =>
    cases text with
    | nil => simp [cut]
    | cons character rest =>
      rw [cut]
      split
      · refine List.forall_mem_cons.mpr ⟨⟨_, rfl⟩, inductionHypothesis fun member => noQuote ?_⟩
        exact List.mem_cons_of_mem _ ((List.dropWhile_suffix _).subset member)
      · have notQuote : character ≠ '`' := fun same => noQuote (by simp [same])
        rw [if_neg notQuote]
        exact inductionHypothesis fun member => noQuote (List.mem_cons_of_mem _ member)

namespace Evaluator

variable {depth : Nat} (substitute : Substitute)

/-- A quoted piece without commands in it reads nothing from standard input. -/
theorem quotedWords_sees {token : Token} (isQuoted : token.kind.isQuoted = true)
    (runs : (Tree.node .quoted [.leaf token]).runsCommand = false) :
    MiniShell.Sees depth (quotedWords substitute (.node .quoted [.leaf token])) := by
  obtain ⟨kind, text, mark⟩ := token
  have whole : (Tree.node .quoted [.leaf ⟨kind, text, mark⟩]).text = text := by
    simp [Tree.text, Tree.textAll]
  unfold quotedWords
  rw [whole]
  cases kind with
  | singleQuoted => exact .pure _
  | doubleQuoted =>
    have noQuote : '`' ∉ text := by simpa [Tree.runsCommand] using runs
    refine .bind (MiniShell.Sees.sequential.mapM fun segment member => ?_) fun _ => .pure _
    obtain ⟨plain, rfl⟩ := Segment.cut_plain noQuote segment member
    exact .pure _
  | backQuoted => simp [Tree.runsCommand] at runs
  | _ => simp [Kind.isQuoted] at isQuoted

theorem addPiece_sees (draft : Draft) {piece : Token}
    (runs : (pieceTree piece).runsCommand = false) :
    MiniShell.Sees depth (addPiece substitute draft (pieceTree piece)) := by
  unfold addPiece
  by_cases isQuoted : piece.kind.isQuoted = true
  · rw [pieceTree, if_pos isQuoted] at runs ⊢
    exact (quotedWords_sees substitute isQuoted runs).bind fun _ => .pure _
  · rw [pieceTree, if_neg isQuoted]
    exact .pure _

theorem expandAt_sees (words : List Text) (position : Nat) :
    MiniShell.Sees depth (expandAt words position) := by
  refine (MiniShell.Sees.expand _).bind fun names => ?_
  split
  · exact .throw _
  · exact .pure _

theorem argument_sees {argument : Argument} (plain : argument.tree.substitutes = false) :
    Sees depth (visit substitute argument.tree) := by
  rw [visit_argument]
  have sequential := @MiniShell.Sees.sequential depth
  refine (Sees.act (.bind (sequential.foldlM ?_ _) fun draft => sequential.foldlM ?_ _)).bind
    fun words => Sees.modify fun _ => by simp [Evaluation.front, MiniShell.front_front]
  · intro tree member draft
    obtain ⟨piece, inPieces, rfl⟩ := List.mem_map.mp member
    have none := List.any_eq_false.mp plain (pieceTree piece) (List.mem_map_of_mem inPieces)
    exact addPiece_sees substitute draft (by simpa using none)
  · exact fun position _ words => expandAt_sees words position

theorem redirection_sees (redirection : Redirection) :
    Sees depth (visit substitute redirection.tree) := by
  rw [visit_redirection]
  refine Sees.modify fun evaluation => ?_
  split <;> simp [Evaluation.front, MiniShell.front_front]

theorem visitAll_sees {trees : List Tree}
    (each : ∀ tree ∈ trees, Sees depth (visit substitute tree)) :
    Sees depth (visitAll substitute trees) := by
  induction trees with
  | nil => exact Sees.pure _
  | cons tree rest inductionHypothesis =>
    rw [visitAll_cons]
    exact (each tree (by simp)).bind fun _ =>
      inductionHypothesis fun other member => each other (List.mem_cons_of_mem _ member)

/-- Reading the words of a call without commands in back quotes does not look at standard input. -/
theorem call_sees {call : Call} (plain : call.tree.hasSubstitution = false) :
    Sees depth (visitAll substitute call.parts) := by
  have parts : ∀ tree ∈ call.parts, tree.substitutes = false →
      Sees depth (visit substitute tree) := by
    refine Call.forall_parts (fun token _ => Sees.pure _)
      (fun redirection _ => redirection_sees substitute redirection)
      (fun argument plain => argument_sees substitute plain) (fun atom plain => ?_) call
    rw [visit_atom]
    cases atom with
    | redirection redirection => exact redirection_sees substitute redirection
    | argument argument => exact argument_sees substitute plain
  refine visitAll_sees substitute fun tree member => parts tree member ?_
  simpa using List.any_eq_false.mp plain tree member

/-- An evaluator that notes no file that input comes from. -/
def NotesNoInput (evaluator : Evaluator Unit) : Prop :=
  ∀ evaluation last, evaluator.start evaluation = (.ok (), last) → last.inputs = evaluation.inputs

theorem argument_notesNoInput (argument : Argument) :
    NotesNoInput (visit substitute argument.tree) := by
  intro evaluation last ran
  rw [visit_argument] at ran
  obtain ⟨words, between, read, added⟩ := start_bind_inv ran
  obtain ⟨_, rfl⟩ := (Keeps.act _ _).ends _ _ read
  obtain ⟨_, rfl⟩ := Prod.mk.inj added
  rfl

theorem redirection_notesNoInput {redirection : Redirection}
    (none : redirection.tree.takesInput = false) :
    NotesNoInput (visit substitute redirection.tree) := by
  intro evaluation last ran
  have notInput : (redirection.parts.headD (.node .redirection [])).text ≠ ['<'] :=
    of_decide_eq_false none
  rw [visit_redirection] at ran
  obtain ⟨_, rfl⟩ := Prod.mk.inj ran
  dsimp only
  rw [if_neg notInput]

theorem visitAll_notesNoInput {trees : List Tree}
    (each : ∀ tree ∈ trees, NotesNoInput (visit substitute tree)) :
    NotesNoInput (visitAll substitute trees) := by
  induction trees with
  | nil =>
    intro evaluation last ran
    obtain ⟨_, rfl⟩ := Prod.mk.inj ran
    rfl
  | cons tree rest inductionHypothesis =>
    intro evaluation last ran
    rw [visitAll_cons] at ran
    obtain ⟨_, between, first, others⟩ := start_bind_inv ran
    rw [inductionHypothesis (fun other member => each other (List.mem_cons_of_mem _ member)) _ _
      others, each tree (by simp) _ _ first]

/-- Reading a call without a redirection of its input notes none. -/
theorem call_notesNoInput {call : Call} (none : call.tree.redirectsInput = false) :
    NotesNoInput (visitAll substitute call.parts) := by
  have parts : ∀ tree ∈ call.parts, tree.takesInput = false →
      NotesNoInput (visit substitute tree) := by
    refine Call.forall_parts (fun token _ evaluation last ran => ?_)
      (fun redirection none => redirection_notesNoInput substitute none)
      (fun argument _ => argument_notesNoInput substitute argument) (fun atom none => ?_) call
    · obtain ⟨_, rfl⟩ := Prod.mk.inj ran
      rfl
    · rw [visit_atom]
      cases atom with
      | redirection redirection => exact redirection_notesNoInput substitute none
      | argument argument => exact argument_notesNoInput substitute argument
  refine visitAll_notesNoInput substitute fun tree member => parts tree member ?_
  simpa using List.any_eq_false.mp none tree member

/-! ### Pipes -/

/-- Reads the words and redirections of a call. -/
def readCall (call : Call) : Evaluator Unit := do
  beginCall
  visitAll substitute call.parts

theorem readCall_sees {call : Call} (plain : call.tree.hasSubstitution = false) :
    Sees depth (readCall substitute call) :=
  (Sees.modify fun _ => by simp [Evaluation.front, MiniShell.front_front]).bind
    fun _ => call_sees substitute plain

/-- Runs a call on a standard input that is nothing but a text. -/
def visitOn (call : Call) (text : Text) : Evaluator Unit := do
  readCall substitute call
  modify fun evaluation => evaluation.onInput [{ ready := text }]
  endCall []

end Evaluator

/-- The left side of a bar. -/
inductive Side
  | call (call : Call)
  | pipe (pipe : Pipe)

namespace Side

def tree : Side → Tree
  | call left => left.tree
  | pipe left => left.tree

/-- The pipe from a left side into a call. -/
def into (bar : Bar) (right : Call) : Side → Pipe
  | call left => .calls left bar right
  | pipe left => .call left bar right

end Side

namespace Evaluator

variable (substitute : Substitute)

theorem visit_into (side : Side) (bar : Bar) (right : Call) :
    visit substitute (side.into bar right).tree = (do
      visit substitute side.tree
      pipeInto substitute right) := by
  cases side <;> rfl

theorem side_tidy {side : Side} {evaluation last : Evaluation} (idle : Idle evaluation)
    (ran : (visit substitute side.tree).start evaluation = (.ok (), last)) :
    Tidy evaluation last := by
  cases side with
  | call call => exact ((call_keeps substitute call idle).ends _ _ ran).tidy
  | pipe pipe => exact pipe_tidy substitute pipe idle ran

/-- A call that is read behind a bar waits for the output of the left side. -/
theorem start_pipeInto (right : Call) {between : Evaluation} {outputs : List (List Text)}
    {lines : List Text} (printed : between.outputs = outputs ++ [lines]) :
    (pipeInto substitute right).start between =
      (do readCall substitute right; endCall lines : Evaluator Unit).start
        { between with outputs } := by
  rw [pipeInto, start_bind_ok (start_popOutput .emptyStack printed), readCall, bind_assoc]

/-- Behind a left side with some output the call reads nothing but that output. -/
theorem pipeInto_alike {right : Call} (noInput : right.tree.redirectsInput = false)
    {between : Evaluation} (idle : Idle between) {outputs : List (List Text)} {lines : List Text}
    (printed : between.outputs = outputs ++ [lines]) (nonempty : lines ≠ []) :
    EndAlike ((pipeInto substitute right).start between)
      ((visitOn substitute right lines.flatten).start { between with outputs }) := by
  rw [start_pipeInto substitute right printed, visitOn, start_bind, start_bind]
  rcases read : (readCall substitute right).start { between with outputs } with ⟨fault | _, noted⟩
  · rfl
  · have noInputs : noted.inputs = [] := by
      rw [readCall, beginCall, start_bind_ok (start_modify _ _)] at read
      rw [call_notesNoInput substitute noInput _ _ read]
      exact idle.1
    exact endCall_alike nonempty noInputs

/-- Calls on the same text that are read alike end alike. -/
theorem visitOn_alike {right : Call} {evaluation other : Evaluation}
    (read : EndAlike ((readCall substitute right).start evaluation)
      ((readCall substitute right).start other)) (text : Text) :
    EndAlike ((visitOn substitute right text).start evaluation)
      ((visitOn substitute right text).start other) := by
  rw [visitOn]
  refine seen_bind read fun _ noted otherNoted same => ?_
  have equal : noted.onInput [{ ready := text }] = otherNoted.onInput [{ ready := text }] :=
    congrArg (fun hidden => hidden.onInput [{ ready := text }]) same
  rw [start_bind_ok (start_modify _ _), start_bind_ok (start_modify _ _), equal]

/-- A pipe from a left side that finished into a call that takes no other input. Behind an empty
list of outputs the call is run by itself, on the standard input of the shell. Behind any other the
command reads exactly the outputs: the pipe ends like the call on a standard input that is
nothing but these. So the pipe ends alike on every standard input of the shell on which the left
side ends alike and the words of the call are read alike, which they are if no command is run for
them. -/
theorem visit_into_isolated (side : Side) (bar : Bar) {right : Call}
    (noInput : right.tree.redirectsInput = false) {evaluation between : Evaluation}
    (idle : Idle evaluation) {lines : List Text}
    (finished : (visit substitute side.tree).start evaluation = (.ok (), between))
    (printed : between.outputs = evaluation.outputs ++ [lines]) :
    (lines = [] → (visit substitute (side.into bar right).tree).start evaluation =
      (visit substitute right.tree).start { between with outputs := evaluation.outputs }) ∧
    (lines ≠ [] →
      EndAlike ((visit substitute (side.into bar right).tree).start evaluation)
        ((visitOn substitute right lines.flatten).start
          { between with outputs := evaluation.outputs }) ∧
      ∀ inputs otherBetween,
        (visit substitute side.tree).start (evaluation.onInput inputs) = (.ok (), otherBetween) →
        between.front 0 = otherBetween.front 0 →
        (right.tree.hasSubstitution = false ∨
          EndAlike
            ((readCall substitute right).start { between with outputs := evaluation.outputs })
            ((readCall substitute right).start
              { otherBetween with outputs := evaluation.outputs })) →
        EndAlike ((visit substitute (side.into bar right).tree).start evaluation)
          ((visit substitute (side.into bar right).tree).start (evaluation.onInput inputs))) := by
  rw [visit_into, start_bind_ok finished]
  have tidy := (side_tidy substitute idle finished).idle idle
  refine ⟨?_, fun nonempty => ⟨pipeInto_alike substitute noInput tidy printed nonempty, ?_⟩⟩
  · rintro rfl
    rw [start_pipeInto substitute right printed, readCall, bind_assoc]
    rfl
  · intro inputs otherBetween otherFinished same alikeWords
    have otherIdle : Idle (evaluation.onInput inputs) := idle
    have otherTidy := (side_tidy substitute otherIdle otherFinished).idle otherIdle
    have otherPrinted : otherBetween.outputs = evaluation.outputs ++ [lines] := by
      rw [← printed]
      exact (congrArg Evaluation.outputs same).symm
    have read : EndAlike
        ((readCall substitute right).start { between with outputs := evaluation.outputs })
        ((readCall substitute right).start
          { otherBetween with outputs := evaluation.outputs }) := by
      rcases alikeWords with plain | alike
      · exact (readCall_sees substitute plain).alike
          (congrArg (fun hidden => { hidden with outputs := evaluation.outputs }) same)
      · exact alike
    rw [start_bind_ok otherFinished]
    exact ((pipeInto_alike substitute noInput tidy printed nonempty).trans
      (visitOn_alike substitute read _)).trans
        (pipeInto_alike substitute noInput otherTidy otherPrinted nonempty).symm

end Evaluator

/-! ### Two pipes into `cat` -/

/-- An argument that is a single unquoted text. -/
def plainArgument (text : Text) : Argument where
  pieces := [⟨.unquoted, text, Mark.start⟩]
  nonempty := List.cons_ne_nil _ _
  arePieces := by simp [Kind.isPiece]

/-- A command with an argument. -/
def argumentCall (name argument : Text) : Call where
  lead := none
  leading := []
  first := plainArgument name
  atoms := [(some ⟨⟨.blank, [' '], Mark.start⟩, rfl⟩, .argument (plainArgument argument))]
  trail := none

/-- A command without arguments. -/
def bareCall (name : Text) : Call := ⟨none, [], plainArgument name, [], none⟩

def pipeBar : Bar := ⟨⟨.bar, ['|'], Mark.start⟩, rfl⟩

/-- The beginning of an evaluation in a shell with the given standard input. -/
def typed (text : Text) : Evaluation where
  session := { emptySession with inputs := [{ ready := text }] }

theorem visit_into_isolated_echo :
    (bareCall "cat").tree.redirectsInput = false ∧
    Evaluator.EndAlike
      ((Evaluator.visit (interpret 0)
        ((Side.call (argumentCall "echo" "a")).into pipeBar (bareCall "cat")).tree).start
          (typed "b"))
      ((Evaluator.visit (interpret 0)
        ((Side.call (argumentCall "echo" "a")).into pipeBar (bareCall "cat")).tree).start
          ((typed "b").onInput [{ ready := "c".toList }])) := by
  have noInput : (bareCall "cat").tree.redirectsInput = false := by decide
  have noCommand : (bareCall "cat").tree.hasSubstitution = false := by decide
  let left := Evaluator.visit (interpret 0) (argumentCall "echo" "a").tree
  have finished : left.start (typed "b") = (.ok (), (left.start (typed "b")).2) := rfl
  have otherFinished : left.start ((typed "b").onInput [{ ready := "c".toList }]) =
      (.ok (), (left.start ((typed "b").onInput [{ ready := "c".toList }])).2) := rfl
  have printed : (left.start (typed "b")).2.outputs = (typed "b").outputs ++ [["a\n".toList]] := by
    decide +kernel
  exact ⟨noInput, ((Evaluator.visit_into_isolated (interpret 0) (.call (argumentCall "echo" "a"))
    pipeBar noInput ⟨rfl, rfl⟩ finished printed).2 (by simp)).2 _ _ otherFinished rfl
      (Or.inl noCommand)⟩

/-- Behind `cd .`, which puts out nothing, `cat` reads the standard input of the shell, so the pipe
does not end alike on two of them. -/
theorem silent_pipe_leaks :
    ((Evaluator.visit (interpret 0) (argumentCall "cd" ".").tree).start (typed "b")).2.outputs =
        [[]] ∧
      ((Evaluator.visit (interpret 0)
        ((Side.call (argumentCall "cd" ".")).into pipeBar (bareCall "cat")).tree).start
          (typed "b")).2.outputs = [["b\n".toList]] ∧
      ((Evaluator.visit (interpret 0)
        ((Side.call (argumentCall "cd" ".")).into pipeBar (bareCall "cat")).tree).start
          (typed "c")).2.outputs = [["c\n".toList]] := by
  decide +kernel

end MiniShell
