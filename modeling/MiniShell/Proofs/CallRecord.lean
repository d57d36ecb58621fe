/-
This file keeps a record of the calls that are made while a tree is evaluated.
All calls of a line share the lists in which words and redirections wait for
their call, so that a list which is not emptied would reach the next call. The
record holds what each call was given, together with the node that the call
belongs to. Keeping it changes nothing, and it shows that every call is given
the redirections that are written in its own node and the words that the
arguments of its own node stand for.

The record is kept also where the evaluation fails. Where it succeeds, every
call of the tree is in the record, nothing is left in the shared lists, and the
outputs that are left are as many as the calls, less those that were sent to a
file and those that a pipe has taken.
-/

import MiniShell.Proofs.Mending

namespace MiniShell

open MiniShell.Derivation

/-! ### What is written in a node -/

namespace Tree

/-- The pieces of an argument that is a part of a call. -/
def argument? : Tree → Option (List Tree)
  | .node .argument pieces => some pieces
  | .node .atom [.node .argument pieces] => some pieces
  | _ => none

/-- The parts of a redirection that is a part of a call. -/
def redirection? : Tree → Option (List Tree)
  | .node .redirection parts => some parts
  | .node .atom [.node .redirection parts] => some parts
  | _ => none

/-- What the parts of a redirection begin with. -/
def operatorOf (parts : List Tree) : Text := (parts.head?.map text).getD []

/-- What the parts of a redirection end with. -/
def fileOf (parts : List Tree) : Text := (parts.getLast?.map text).getD []

/-- The file that is read where a redirection has these parts. -/
def source? (parts : List Tree) : Option Text :=
  if operatorOf parts = ['<'] then some (fileOf parts) else none

/-- The file that is written where a redirection has these parts. -/
def target? (parts : List Tree) : Option Target :=
  if operatorOf parts = ['<'] then none else some ⟨fileOf parts, operatorOf parts ≠ ['>']⟩

/-- The arguments among the parts of a call. -/
def argumentsOf (parts : List Tree) : List (List Tree) := parts.filterMap argument?

/-- The files that the redirections among the parts of a call read. -/
def sourcesOf (parts : List Tree) : List Text := (parts.filterMap redirection?).filterMap source?

/-- The files that the redirections among the parts of a call write. -/
def targetsOf (parts : List Tree) : List Target :=
  (parts.filterMap redirection?).filterMap target?

/-- The calls in a tree. -/
def calls (tree : Tree) : List Tree := tree.subtrees.filter (isNode .call)

/-- The pipes in a tree. -/
def pipes (tree : Tree) : List Tree := tree.subtrees.filter (isNode .pipe)

end Tree

/-! ### Recording calls -/

/-- What a call is given, the node that it belongs to, and the session in which the node was
met. -/
structure Made where
  node : Tree
  met : Session
  words : List Text
  sources : List Text
  targets : List Target

/-- An evaluation and the calls that have been made in it. -/
structure Recording where
  evaluation : Evaluation
  made : List Made := []

/-- An evaluator that records calls. -/
abbrev Recorder := ExceptT Fault (StateM Recording)

namespace Recorder

variable {Result Other : Type}

def start (recorder : Recorder Result) (recording : Recording) : Except Fault Result × Recording :=
  (ExceptT.run recorder).run recording

/-- Runs an evaluator and records nothing. -/
def lift (evaluator : Evaluator Result) : Recorder Result := fun recording =>
  let (result, evaluation) := evaluator.start recording.evaluation
  (result, { recording with evaluation })

/-- Records a call. -/
def note (made : Made) : Recorder Unit :=
  modify fun recording => { recording with made := recording.made ++ [made] }

/-- Runs the call of a node and records what it is given. -/
def endCall (node : Tree) (met : Session) (piped : List Text) : Recorder Unit := do
  let evaluation := (← get).evaluation
  let words := evaluation.words.getLastD []
  note { node, met, words, sources := evaluation.inputs, targets := evaluation.targets }
  lift (do
    set { evaluation with words := evaluation.words.dropLast }
    Evaluator.runCall .stackIndex words (if piped = [] then none else some piped.flatten))

/-- Runs the call of a node after what is inside of the node. -/
def call (node : Tree) (inside : Recorder Unit) (piped : List Text) : Recorder Unit := do
  let met := (← get).evaluation.session
  lift Evaluator.beginCall
  inside
  endCall node met piped

mutual

/-- Evaluates a tree and records its calls. -/
def visit (substitute : Evaluator.Substitute) : Tree → Recorder Unit
  | .node .call children => call (.node .call children) (visitAll substitute children) []
  | .node .pipe (left :: _ :: right :: _) => do
    visit substitute left
    let piped ← lift (Evaluator.popOutput .emptyStack)
    call right (visitInside substitute right) piped
  | .node .redirection parts => lift (Evaluator.addRedirection parts)
  | .node .argument pieces =>
    lift (do
      let words ← Evaluator.act (Evaluator.argumentWords substitute pieces)
      Evaluator.addWords words)
  | .node _ children => visitAll substitute children
  | _ => pure ()

/-- Evaluates the children of a tree and records their calls. -/
def visitInside (substitute : Evaluator.Substitute) : Tree → Recorder Unit
  | .node _ children => visitAll substitute children
  | _ => pure ()

/-- Evaluates trees from left to right and records their calls. -/
def visitAll (substitute : Evaluator.Substitute) : List Tree → Recorder Unit
  | [] => pure ()
  | tree :: rest => do
    visit substitute tree
    visitAll substitute rest

end

/-! ### Recording changes nothing -/

@[simp] theorem start_lift (evaluator : Evaluator Result) (recording : Recording) :
    (lift evaluator).start recording =
      ((evaluator.start recording.evaluation).1,
        { recording with evaluation := (evaluator.start recording.evaluation).2 }) := rfl

theorem start_bind (recorder : Recorder Result) (next : Result → Recorder Other)
    (recording : Recording) :
    (recorder >>= next).start recording =
      match recorder.start recording with
      | (.ok result, after) => (next result).start after
      | (.error fault, after) => (.error fault, after) := by
  show (ExceptT.bindCont next (recorder.start recording).1).run (recorder.start recording).2 = _
  rcases recorder.start recording with ⟨fault | result, after⟩ <;> rfl

theorem start_bind_ok {recorder : Recorder Result} {recording after : Recording} {result : Result}
    (ran : recorder.start recording = (.ok result, after)) (next : Result → Recorder Other) :
    (recorder >>= next).start recording = (next result).start after := by
  rw [start_bind, ran]

theorem lift_bind (evaluator : Evaluator Result) (next : Result → Evaluator Other) :
    lift (evaluator >>= next) = (do
      let result ← lift evaluator
      lift (next result)) := by
  funext recording
  show (lift (evaluator >>= next)).start recording =
    (lift evaluator >>= fun result => lift (next result)).start recording
  rw [start_bind, start_lift, start_lift, Evaluator.start_bind]
  rcases evaluator.start recording.evaluation with ⟨fault | result, after⟩ <;> rfl

/-- A recorder does to the evaluation what an evaluator does. -/
def Erases (recorder : Recorder Result) (evaluator : Evaluator Result) : Prop :=
  ∀ recording, ((recorder.start recording).1, (recorder.start recording).2.evaluation) =
    evaluator.start recording.evaluation

namespace Erases

theorem lift (evaluator : Evaluator Result) : (lift evaluator).Erases evaluator := fun _ => rfl

theorem pure (result : Result) : (Pure.pure result : Recorder Result).Erases (Pure.pure result) :=
  fun _ => rfl

theorem bind {recorder : Recorder Result} {evaluator : Evaluator Result}
    {next : Result → Recorder Other} {further : Result → Evaluator Other}
    (erases : recorder.Erases evaluator)
    (onward : ∀ result, (next result).Erases (further result)) :
    (recorder >>= next).Erases (evaluator >>= further) := by
  intro recording
  have first := erases recording
  rw [start_bind, Evaluator.start_bind, ← first]
  rcases recorder.start recording with ⟨fault | result, after⟩
  · rfl
  · exact onward result after

theorem endCall (node : Tree) (met : Session) (piped : List Text) :
    (Recorder.endCall node met piped).Erases (Evaluator.endCall piped) := fun _ => rfl

theorem call {inside : Recorder Unit} {evaluator : Evaluator Unit}
    (erases : inside.Erases evaluator) (node : Tree) (piped : List Text) :
    (Recorder.call node inside piped).Erases (do
      Evaluator.beginCall
      evaluator
      Evaluator.endCall piped) := by
  intro recording
  exact ((lift Evaluator.beginCall).bind fun _ => erases.bind fun _ =>
    endCall node recording.evaluation.session piped) recording

end Erases

/-- Keeping a record changes nothing. -/
theorem visit_erases (substitute : Evaluator.Substitute) (tree : Tree) :
    (visit substitute tree).Erases (Evaluator.visit substitute tree) := by
  refine Evaluator.visit.induct
    (fun tree => (visit substitute tree).Erases (Evaluator.visit substitute tree))
    (fun tree => (visitInside substitute tree).Erases (Evaluator.visitInside substitute tree))
    (fun trees => (visitAll substitute trees).Erases (Evaluator.visitAll substitute trees))
    ?call ?pipe ?redirection ?argument ?other ?leaf ?inside ?insideLeaf ?nil ?cons tree
  case call => exact fun children inside => inside.call _ _
  case pipe =>
    intro left _ right _ leftErases rightErases
    exact leftErases.bind fun _ => (Erases.lift _).bind fun piped => rightErases.call right piped
  case redirection => exact fun parts => .lift _
  case argument => exact fun pieces => .lift _
  case other =>
    intro rule children notCall notPipe notRedirection notArgument inside
    rw [visit, Evaluator.visit] <;> assumption
  case leaf =>
    intro tree notCall notPipe notRedirection notArgument notNode
    cases tree with
    | node rule children => exact absurd rfl (notNode rule children)
    | _ => exact .pure _
  case inside => exact fun _ _ inside => inside
  case insideLeaf =>
    intro tree notNode
    cases tree with
    | node rule children => exact absurd rfl (notNode rule children)
    | _ => exact .pure _
  case nil => exact .pure _
  case cons => exact fun _ _ first rest => first.bind fun _ => rest

end Recorder

/-! ### What the parts of a call give it -/

section

open Evaluator

variable (substitute : Substitute)

/-- An evaluator that succeeds has added the words and redirections of some parts of a call to
those of the call that is being read. -/
def Evaluator.Gathers (parts : List Tree) (evaluator : Evaluator Unit) : Prop :=
  ∀ (evaluation last : Evaluation) (outer : List (List Text)) (inner : List Text),
    evaluation.words = outer ++ [inner] → evaluator.start evaluation = (.ok (), last) →
    ∃ (lists : List (List Text)) (session : Session),
      ((Tree.argumentsOf parts).mapM (argumentWords substitute)).start evaluation.session =
        (.ok lists, session) ∧
      last =
        { evaluation with
          session
          words := outer ++ [inner ++ lists.flatten]
          inputs := evaluation.inputs ++ Tree.sourcesOf parts
          targets := evaluation.targets ++ Tree.targetsOf parts }

namespace Evaluator.Gathers

variable {substitute}

/-- A part that holds no words and no redirections. -/
theorem nothing {parts : List Tree} (noArguments : Tree.argumentsOf parts = [])
    (noSources : Tree.sourcesOf parts = []) (noTargets : Tree.targetsOf parts = []) :
    Gathers substitute parts (pure ()) := by
  intro evaluation last outer inner reading ran
  cases ran
  refine ⟨[], evaluation.session, ?_, ?_⟩
  · rw [noArguments]
    rfl
  · rw [noSources, noTargets, List.flatten_nil, List.append_nil, List.append_nil, List.append_nil,
      ← reading]

theorem seq {parts others : List Tree} {evaluator next : Evaluator Unit}
    (gathers : Gathers substitute parts evaluator) (gathersNext : Gathers substitute others next) :
    Gathers substitute (parts ++ others) (do evaluator; next) := by
  intro evaluation last outer inner reading ran
  obtain ⟨_, between, first, second⟩ := start_bind_inv ran
  obtain ⟨lists, session, mapped, rfl⟩ := gathers _ _ _ _ reading first
  obtain ⟨more, further, mappedNext, rfl⟩ := gathersNext _ _ _ _ rfl second
  refine ⟨lists ++ more, further, ?_, ?_⟩
  · rw [Tree.argumentsOf, List.filterMap_append, List.mapM_append]
    show ((Tree.argumentsOf parts).mapM (argumentWords substitute) >>= _).start _ = _
    rw [Action.start_bind_ok mapped]
    show ((Tree.argumentsOf others).mapM (argumentWords substitute) >>= _).start _ = _
    rw [Action.start_bind_ok mappedNext, Action.start_pure]
  · simp [Tree.sourcesOf, Tree.targetsOf]

theorem argument {parts : List Tree} {pieces : List Tree}
    (isArgument : Tree.argumentsOf parts = [pieces])
    (noSources : Tree.sourcesOf parts = []) (noTargets : Tree.targetsOf parts = []) :
    Gathers substitute parts (do
      let words ← act (argumentWords substitute pieces)
      addWords words) := by
  intro evaluation last outer inner reading ran
  rw [start_bind, start_act] at ran
  rcases produced : (argumentWords substitute pieces).start evaluation.session with
    ⟨fault | words, session⟩
  · rw [produced] at ran
    exact absurd (congrArg Prod.fst ran) (by simp)
  · rw [produced] at ran
    cases ran
    refine ⟨[words], session, ?_, ?_⟩
    · rw [isArgument, List.mapM_cons, Action.start_bind_ok produced, List.mapM_nil, pure_bind,
        Action.start_pure]
    · simp [reading, noSources, noTargets]

theorem redirection {parts : List Tree} (redirection : Redirection)
    (noArguments : Tree.argumentsOf parts = [])
    (isRedirection : parts.filterMap Tree.redirection? = [redirection.parts]) :
    Gathers substitute parts (addRedirection redirection.parts) := by
  intro evaluation last outer inner reading ran
  rw [addRedirection, start_modify] at ran
  obtain ⟨_, rfl⟩ := Prod.mk.inj ran
  have named : ((redirection.parts.drop (if redirection.parts.length = 2 then 1 else 2)).headD
      (.node .argument [])).text = Tree.fileOf redirection.parts := by
    cases blank : redirection.blank <;> simp [Redirection.parts, Tree.fileOf, blank]
  have operated : (redirection.parts.headD (.node .redirection [])).text =
      Tree.operatorOf redirection.parts := rfl
  refine ⟨[], evaluation.session, ?_, ?_⟩
  · rw [noArguments]
    rfl
  · rw [named, operated, Tree.sourcesOf, Tree.targetsOf, isRedirection]
    by_cases isInput : Tree.operatorOf redirection.parts = ['<'] <;>
      simp [Tree.source?, Tree.target?, isInput, reading]

end Evaluator.Gathers

theorem part_gathers (call : Call) :
    ∀ tree ∈ call.parts, Gathers substitute [tree] (visit substitute tree) := by
  refine Call.forall_parts (fun token => ?blank) (fun redirection => ?redirection)
    (fun argument => ?argument) (fun atom => ?atom) call
  case blank => exact .nothing rfl rfl rfl
  case redirection => exact .redirection redirection rfl rfl
  case argument => exact .argument rfl rfl rfl
  case atom =>
    rw [visit_atom]
    cases atom with
    | redirection redirection => exact .redirection redirection rfl rfl
    | argument argument => exact .argument rfl rfl rfl

theorem visitAll_gathers {trees : List Tree}
    (each : ∀ tree ∈ trees, Gathers substitute [tree] (visit substitute tree)) :
    Gathers substitute trees (visitAll substitute trees) := by
  induction trees with
  | nil => exact .nothing rfl rfl rfl
  | cons tree rest inductionHypothesis =>
    exact (each tree List.mem_cons_self).seq
      (inductionHypothesis fun other member => each other (List.mem_cons_of_mem _ member))

/-- The parts of a call give it the words and redirections that are written in its node. -/
theorem call_gathers (call : Call) :
    Gathers substitute call.parts (visitAll substitute call.parts) :=
  visitAll_gathers substitute (part_gathers substitute call)

end

namespace Tree

theorem targetsOf_cons (tree : Tree) (rest : List Tree) :
    targetsOf (tree :: rest) = targetsOf [tree] ++ targetsOf rest := by
  rw [← List.singleton_append, targetsOf, List.filterMap_append, List.filterMap_append]
  rfl

theorem any_sendsOutput {trees : List Tree}
    (each : ∀ tree ∈ trees, tree.sendsOutput = !(targetsOf [tree]).isEmpty) :
    trees.any sendsOutput = !(targetsOf trees).isEmpty := by
  induction trees with
  | nil => rfl
  | cons tree rest inductionHypothesis =>
    rw [List.any_cons, each tree List.mem_cons_self, targetsOf_cons tree rest,
      inductionHypothesis fun other member => each other (List.mem_cons_of_mem _ member)]
    cases targetsOf [tree] <;> simp

/-- A call sends its output to a file if there is a redirection of it in its node. -/
theorem redirectsOutput_call (call : Call) :
    call.tree.redirectsOutput = !(targetsOf call.parts).isEmpty := by
  have ofRedirection : ∀ redirection : Redirection, (!decide (redirection.operator.text = ['<'])) =
      !([redirection.parts].filterMap target?).isEmpty := by
    intro redirection
    have operator : operatorOf redirection.parts = redirection.operator.text := rfl
    by_cases isInput : redirection.operator.text = ['<'] <;>
      simp [target?, operator, isInput]
  refine any_sendsOutput (Call.forall_parts (fun token => rfl) ofRedirection (fun argument => rfl)
    (fun atom => ?_) call)
  cases atom with
  | redirection redirection => exact ofRedirection redirection
  | argument argument => rfl

/-- A node that is neither a call nor a pipe. -/
def IsPlain (node : Tree) : Prop := node.isNode .call = false ∧ node.isNode .pipe = false

theorem mem_subtreesAll {trees : List Tree} {node : Tree} :
    node ∈ subtreesAll trees ↔ ∃ tree ∈ trees, node ∈ tree.subtrees := by
  induction trees with
  | nil => simp [subtreesAll]
  | cons tree rest inductionHypothesis => simp [subtreesAll, inductionHypothesis]

theorem plain_argument (argument : Argument) : ∀ node ∈ argument.tree.subtrees, node.IsPlain := by
  intro node member
  rw [Argument.tree, subtrees, List.mem_cons, mem_subtreesAll] at member
  rcases member with rfl | ⟨tree, inPieces, inTree⟩
  · exact ⟨rfl, rfl⟩
  · obtain ⟨piece, _, rfl⟩ := List.mem_map.mp inPieces
    rw [pieceTree] at inTree
    split at inTree
    · obtain rfl : node = .node .quoted [.leaf piece] := by
        simpa [subtrees, subtreesAll] using inTree
      exact ⟨rfl, rfl⟩
    · simp [subtrees] at inTree

theorem plain_redirection (redirection : Redirection) :
    ∀ node ∈ redirection.tree.subtrees, node.IsPlain := by
  have inside : subtreesAll redirection.parts = redirection.target.tree.subtrees := by
    cases blank : redirection.blank <;> simp [Redirection.parts, blank, subtreesAll, subtrees]
  intro node member
  rw [Redirection.tree, subtrees, inside, List.mem_cons] at member
  rcases member with rfl | inTarget
  · exact ⟨rfl, rfl⟩
  · exact plain_argument _ node inTarget

theorem plain_atom (atom : Atom) : ∀ node ∈ atom.tree.subtrees, node.IsPlain := by
  intro node member
  rw [Atom.tree, subtrees, subtreesAll, subtreesAll, List.append_nil, List.mem_cons] at member
  rcases member with rfl | inside
  · exact ⟨rfl, rfl⟩
  · cases atom with
    | redirection redirection => exact plain_redirection redirection node inside
    | argument argument => exact plain_argument argument node inside

/-- There are no calls and no pipes inside of a call. -/
theorem plain_parts (call : Call) : ∀ node ∈ subtreesAll call.parts, node.IsPlain := by
  intro node member
  obtain ⟨tree, inParts, inTree⟩ := mem_subtreesAll.mp member
  have blank : ∀ token, ∀ node ∈ (leaf token).subtrees, node.IsPlain := by simp [subtrees]
  have each : ∀ tree ∈ call.parts, ∀ node ∈ tree.subtrees, node.IsPlain :=
    Call.forall_parts blank plain_redirection plain_argument plain_atom call
  exact each tree inParts node inTree

theorem calls_call (call : Call) : call.tree.subtrees.filter (isNode .call) = [call.tree] := by
  have none : (subtreesAll call.parts).filter (isNode .call) = [] :=
    List.filter_eq_nil_iff.mpr fun node member => by simp [(plain_parts call node member).1]
  rw [Call.tree, subtrees, List.filter_cons_of_pos rfl, none]

theorem pipes_call (call : Call) : call.tree.subtrees.countP (isNode .pipe) = 0 := by
  rw [Call.tree, subtrees, List.countP_cons_of_neg (by simp [isNode])]
  exact List.countP_eq_zero.mpr fun node member => by simp [(plain_parts call node member).2]

theorem subtreesAll_append (trees others : List Tree) :
    subtreesAll (trees ++ others) = subtreesAll trees ++ subtreesAll others := by
  induction trees with
  | nil => rfl
  | cons tree rest inductionHypothesis =>
    rw [List.cons_append, subtreesAll, subtreesAll, inductionHypothesis, List.append_assoc]

theorem subtreesAll_errors (dropped : List Token) : subtreesAll (dropped.map .error) = [] := by
  induction dropped with
  | nil => rfl
  | cons token rest inductionHypothesis =>
    rw [List.map_cons, subtreesAll, inductionHypothesis]
    rfl

theorem subtreesAll_between (left right : Tree) (token : Token) :
    subtreesAll [left, .leaf token, right] = left.subtrees ++ right.subtrees := by
  simp [subtreesAll, subtrees]

theorem subtrees_pipe (left right : Tree) (bar : Token) (dropped : List Token) :
    (node .pipe ([left, .leaf bar, right] ++ dropped.map .error)).subtrees =
      node .pipe ([left, .leaf bar, right] ++ dropped.map .error) ::
        (left.subtrees ++ right.subtrees) := by
  rw [subtrees, subtreesAll_append, subtreesAll_errors, subtreesAll_between, List.append_nil]

end Tree

/-! ### Calls in order -/

/-- A call is given the redirections that are written in its node and the words that the arguments
in its node stand for, and nothing else. -/
structure Made.Disciplined (substitute : Evaluator.Substitute) (made : Made) : Prop where
  sources : made.sources = Tree.sourcesOf made.node.children
  targets : made.targets = Tree.targetsOf made.node.children
  words : ∃ (lists : List (List Text)) (session : Session),
    ((Tree.argumentsOf made.node.children).mapM (Evaluator.argumentWords substitute)).start
      made.met = (.ok lists, session) ∧ made.words = lists.flatten

/-- All nodes have been evaluated: their calls have been made in order, nothing is left waiting, and
each call has left an output, unless that was sent to a file or taken by a pipe. -/
structure Completes (nodes : List Tree) (before after : Evaluation) (made : List Made) : Prop where
  tidy : Evaluator.Tidy before after
  calls : made.map Made.node = nodes.filter (Tree.isNode .call)
  balance : after.outputs.length + (nodes.filter (Tree.isNode .call)).countP Tree.redirectsOutput +
    nodes.countP (Tree.isNode .pipe) =
      before.outputs.length + (nodes.filter (Tree.isNode .call)).length

namespace Recorder

variable (substitute : Evaluator.Substitute)

/-- From an evaluation in which no redirection is waiting, a recorder makes disciplined calls of
the nodes, and it completes them if it succeeds. -/
def Orderly (nodes : List Tree) (recorder : Recorder Unit) : Prop :=
  ∀ recording, Evaluator.Idle recording.evaluation →
    ∃ more, (recorder.start recording).2.made = recording.made ++ more ∧
      (∀ made ∈ more, made.node ∈ nodes ∧ made.Disciplined substitute) ∧
      ((recorder.start recording).1 = .ok () →
        Completes nodes recording.evaluation (recorder.start recording).2.evaluation more)

namespace Orderly

variable {substitute} {nodes others : List Tree} {recorder next : Recorder Unit}

theorem nothing : Orderly substitute [] (pure ()) := by
  intro recording _
  refine ⟨[], (List.append_nil _).symm, by simp, fun _ => ⟨⟨_, _, rfl⟩, rfl, rfl⟩⟩

/-- Only the calls and the number of pipes among the nodes matter. -/
theorem of_same (orderly : Orderly substitute nodes recorder)
    (among : ∀ node ∈ nodes, node ∈ others)
    (sameCalls : others.filter (Tree.isNode .call) = nodes.filter (Tree.isNode .call))
    (samePipes : others.countP (Tree.isNode .pipe) = nodes.countP (Tree.isNode .pipe)) :
    Orderly substitute others recorder := by
  intro recording idle
  obtain ⟨more, made, each, completes⟩ := orderly recording idle
  refine ⟨more, made, fun call member => ⟨among _ (each call member).1, (each call member).2⟩,
    fun ran => ?_⟩
  obtain ⟨tidy, calls, balance⟩ := completes ran
  exact ⟨tidy, by rw [sameCalls, calls], by rw [sameCalls, samePipes, balance]⟩

theorem plain {node : Tree} (orderly : Orderly substitute nodes recorder) (plain : node.IsPlain) :
    Orderly substitute (node :: nodes) recorder :=
  orderly.of_same (fun _ member => List.mem_cons_of_mem _ member)
    (List.filter_cons_of_neg (by simp [plain.1])) (List.countP_cons_of_neg (by simp [plain.2]))

theorem seq (orderly : Orderly substitute nodes recorder)
    (orderlyNext : Orderly substitute others next) :
    Orderly substitute (nodes ++ others) (do recorder; next) := by
  intro recording idle
  obtain ⟨more, made, each, completes⟩ := orderly recording idle
  rcases ended : recorder.start recording with ⟨fault | _, between⟩
  · rw [ended] at made
    rw [start_bind, ended]
    exact ⟨more, made, fun call member =>
      ⟨List.mem_append_left _ (each call member).1, (each call member).2⟩, fun ran => by cases ran⟩
  · rw [ended] at made completes
    rw [start_bind_ok ended]
    obtain ⟨tidy, calls, balance⟩ : Completes nodes recording.evaluation between.evaluation more :=
      completes rfl
    obtain ⟨further, madeNext, eachNext, completesNext⟩ := orderlyNext between (tidy.idle idle)
    refine ⟨more ++ further, ?_, ?_, fun ran => ?_⟩
    · rw [madeNext, made, List.append_assoc]
    · intro call member
      rcases List.mem_append.mp member with first | second
      · exact ⟨List.mem_append_left _ (each call first).1, (each call first).2⟩
      · exact ⟨List.mem_append_right _ (eachNext call second).1, (eachNext call second).2⟩
    · obtain ⟨tidyNext, callsNext, balanceNext⟩ := completesNext ran
      refine ⟨tidy.trans tidyNext, ?_, ?_⟩
      · rw [List.map_append, calls, callsNext, List.filter_append]
      · rw [List.filter_append, List.countP_append, List.countP_append, List.length_append]
        omega

/-- A pipe takes away the output that its left side has left. -/
theorem pipe {parts : List Tree} {further : List Text → Recorder Unit}
    (left : Orderly substitute nodes recorder)
    (right : ∀ piped, Orderly substitute others (further piped)) :
    Orderly substitute (.node .pipe parts :: (nodes ++ others)) (do
      recorder
      let piped ← lift (Evaluator.popOutput .emptyStack)
      further piped) := by
  have notCall : ¬ Tree.isNode .call (.node .pipe parts) = true := by simp [Tree.isNode]
  -- The node of the pipe is counted where its output is taken away, between the two sides.
  have takes : Orderly substitute (.node .pipe parts :: others) (do
      let piped ← lift (Evaluator.popOutput .emptyStack)
      further piped) := by
    intro recording idle
    rcases popped : (Evaluator.popOutput .emptyStack).start recording.evaluation with
      ⟨fault | piped, between⟩
    · rw [start_bind, start_lift, popped]
      exact ⟨[], (List.append_nil _).symm, by simp, fun ran => by cases ran⟩
    · have ran : (lift (Evaluator.popOutput .emptyStack)).start recording =
          (.ok piped, { recording with evaluation := between }) := by
        rw [start_lift, popped]
      rw [start_bind_ok ran]
      obtain ⟨outputs, split, rfl⟩ := Evaluator.popOutput_inv popped
      obtain ⟨more, made, each, completes⟩ := right piped
        { recording with evaluation := { recording.evaluation with outputs } } idle
      refine ⟨more, made, fun call member => ⟨List.mem_cons_of_mem _ (each call member).1,
        (each call member).2⟩, fun ran => ?_⟩
      obtain ⟨⟨session, last, tidy⟩, calls, balance⟩ := completes ran
      refine ⟨⟨session, last, tidy⟩, by rw [calls, List.filter_cons_of_neg notCall], ?_⟩
      rw [List.countP_cons_of_pos rfl, List.filter_cons_of_neg notCall, split,
        List.length_append, List.length_singleton, ← Nat.add_assoc, balance, Nat.add_right_comm]
  have moved : (nodes ++ .node .pipe parts :: others).Perm
      (.node .pipe parts :: (nodes ++ others)) := List.perm_middle
  refine (left.seq takes).of_same (fun _ => moved.mem_iff.mp) ?_ (moved.countP_eq _).symm
  rw [List.filter_append, List.filter_cons_of_neg notCall, List.filter_cons_of_neg notCall,
    List.filter_append]

end Orderly

end Recorder

/-! ### Whole calls -/

/-- The evaluation in which a call has begun. -/
def Evaluation.begun (evaluation : Evaluation) : Evaluation :=
  { evaluation with
    words := evaluation.words ++ [[]]
    outputs := evaluation.outputs ++ [[]] }

namespace Recorder

variable (substitute : Evaluator.Substitute)

theorem start_endCall (node : Tree) (met : Session) (piped : List Text) (recording : Recording) :
    (endCall node met piped).start recording =
      (((Evaluator.endCall piped).start recording.evaluation).1,
        { evaluation := ((Evaluator.endCall piped).start recording.evaluation).2
          made := recording.made ++
            [{ node, met
               words := recording.evaluation.words.getLastD []
               sources := recording.evaluation.inputs
               targets := recording.evaluation.targets }] }) := rfl

theorem start_call (node : Tree) (inside : Recorder Unit) (piped : List Text)
    (recording : Recording) :
    (call node inside piped).start recording =
      (do inside; endCall node recording.evaluation.session piped).start
        { recording with evaluation := recording.evaluation.begun } := rfl

theorem visitAll_lift {trees : List Tree}
    (each : ∀ tree ∈ trees, visit substitute tree = lift (Evaluator.visit substitute tree)) :
    visitAll substitute trees = lift (Evaluator.visitAll substitute trees) := by
  induction trees with
  | nil => rfl
  | cons tree rest inductionHypothesis =>
    rw [visitAll, Evaluator.visitAll_cons, lift_bind, each tree List.mem_cons_self,
      inductionHypothesis fun other member => each other (List.mem_cons_of_mem _ member)]

theorem visitAll_single (tree : Tree) : visitAll substitute [tree] = visit substitute tree := by
  rw [visitAll, visitAll, bind_pure_unit]

/-- No call is made inside of a call. -/
theorem visitAll_parts (call : Call) :
    visitAll substitute call.parts = lift (Evaluator.visitAll substitute call.parts) := by
  refine visitAll_lift substitute (Call.forall_parts (fun _ => rfl) (fun _ => rfl) (fun _ => rfl)
    (fun atom => ?_) call)
  rw [Evaluator.visit_atom]
  show visitAll substitute [atom.inner] = _
  rw [visitAll_single]
  cases atom <;> rfl

theorem gathered_call (call : Call) {evaluation between : Evaluation}
    (idle : Evaluator.Idle evaluation)
    (ran : (Evaluator.visitAll substitute call.parts).start evaluation.begun =
      (.ok (), between)) :
    ∃ (lists : List (List Text)) (session : Session),
      ((Tree.argumentsOf call.parts).mapM (Evaluator.argumentWords substitute)).start
        evaluation.session = (.ok lists, session) ∧
      between =
        { session
          words := evaluation.words ++ [lists.flatten]
          outputs := evaluation.outputs ++ [[]]
          inputs := Tree.sourcesOf call.parts
          targets := Tree.targetsOf call.parts } := by
  obtain ⟨lists, session, mapped, rfl⟩ :=
    call_gathers substitute call evaluation.begun between evaluation.words [] rfl ran
  obtain ⟨noInputs, noTargets⟩ := idle
  refine ⟨lists, session, mapped, ?_⟩
  simp [Evaluation.begun, noInputs, noTargets]

/-- A call that succeeds uses up what it is given. -/
theorem completes_call (call : Call) {piped words : List Text} {evaluation last : Evaluation}
    {session : Session} (idle : Evaluator.Idle evaluation)
    (ran : (Evaluator.endCall piped).start
      { session
        words := evaluation.words ++ [words]
        outputs := evaluation.outputs ++ [[]]
        inputs := Tree.sourcesOf call.parts
        targets := Tree.targetsOf call.parts } = (.ok (), last))
    {made : Made} (isCall : made.node = call.tree) :
    Completes call.tree.subtrees evaluation last [made] := by
  obtain ⟨after, lines, rfl⟩ := (Evaluator.endCall_keeps piped rfl).ends () last ran
  obtain ⟨noInputs, noTargets⟩ := idle
  refine ⟨⟨after, if Tree.targetsOf call.parts = [] then evaluation.outputs ++ [lines]
    else evaluation.outputs, ?_⟩, ?_, ?_⟩
  · rw [noInputs, noTargets, List.dropLast_concat]
  · rw [Tree.calls_call, List.map_singleton, isCall]
  · rw [Tree.calls_call, Tree.pipes_call, List.countP_singleton, Tree.redirectsOutput_call]
    cases Tree.targetsOf call.parts <;> simp

/-- A call is given what is written in its node. -/
theorem call_orderly (call : Call) (piped : List Text) :
    Orderly substitute call.tree.subtrees
      (Recorder.call call.tree (visitAll substitute call.parts) piped) := by
  intro recording idle
  rw [visitAll_parts, start_call]
  rcases gathered : (Evaluator.visitAll substitute call.parts).start
    recording.evaluation.begun with ⟨fault | _, between⟩
  · rw [start_bind, start_lift, gathered]
    exact ⟨[], (List.append_nil _).symm, by simp, fun ran => by cases ran⟩
  · have inside : (lift (Evaluator.visitAll substitute call.parts)).start
        { recording with evaluation := recording.evaluation.begun } =
          (.ok (), { recording with evaluation := between }) := by
      rw [start_lift, gathered]
    rw [start_bind_ok inside, start_endCall]
    obtain ⟨lists, session, mapped, rfl⟩ := gathered_call substitute call idle gathered
    refine ⟨_, rfl, ?_, fun ran => completes_call call idle (Prod.ext ran rfl) rfl⟩
    intro made member
    rw [List.mem_singleton.mp member]
    exact ⟨List.mem_cons_self, rfl, rfl, lists, session, mapped, by simp⟩

/-- A node without arguments and redirections makes a call without words, which fails. -/
theorem stage_orderly (node : Tree) {nodes : List Tree} {inside : Recorder Unit}
    (orderly : Orderly substitute nodes inside) (noArguments : Tree.argumentsOf node.children = [])
    (noRedirections : node.children.filterMap Tree.redirection? = []) (piped : List Text) :
    Orderly substitute (node :: nodes) (Recorder.call node inside piped) := by
  intro recording idle
  rw [start_call]
  obtain ⟨more, made, each, completes⟩ :=
    orderly { recording with evaluation := recording.evaluation.begun } idle
  have among : ∀ call ∈ more, call.node ∈ node :: nodes ∧ call.Disciplined substitute :=
    fun call member => ⟨List.mem_cons_of_mem _ (each call member).1, (each call member).2⟩
  rcases ended : inside.start { recording with evaluation := recording.evaluation.begun } with
    ⟨fault | _, between⟩
  · rw [ended] at made
    rw [start_bind, ended]
    exact ⟨more, made, among, fun ran => by cases ran⟩
  · rw [ended] at made completes
    obtain ⟨session, outputs, tidy⟩ := (completes rfl).tidy
    -- What is read inside leaves no words for this call.
    have noWords : between.evaluation.words.getLastD [] = [] := by
      rw [tidy]
      simp [Evaluation.begun]
    rw [start_bind_ok ended, start_endCall, made, noWords, tidy, List.append_assoc]
    refine ⟨_, rfl, fun call member => ?_, fun ran =>
      (Evaluator.endCall_fails piped (tidy ▸ noWords) (Prod.ext ran rfl)).elim⟩
    rcases List.mem_append.mp member with inside | last
    · exact among call inside
    · rw [List.mem_singleton.mp last]
      refine ⟨List.mem_cons_self, ?_, ?_, [], recording.evaluation.session, ?_, rfl⟩
      · rw [Tree.sourcesOf, noRedirections]
        exact idle.1
      · rw [Tree.targetsOf, noRedirections]
        exact idle.2
      · rw [noArguments]
        rfl

end Recorder

/-! ### Lines -/

/-- There are no arguments and no redirections right below a command. -/
theorem MendedCommand.bare {parts : List Tree} {command : Derivation.Command}
    (mended : MendedCommand parts command) :
    Tree.argumentsOf parts = [] ∧ parts.filterMap Tree.redirection? = [] := by
  cases mended with
  | nothing dropped =>
    have passedOver {choose : Tree → Option (List Tree)}
        (chooses : ∀ token, choose (.error token) = none) :
        (dropped.map .error).filterMap choose = [] := by
      rw [List.filterMap_map]
      exact List.filterMap_eq_nil_iff.mpr fun token _ => chooses token
    exact ⟨passedOver fun _ => rfl, passedOver fun _ => rfl⟩
  | call tight => exact ⟨rfl, rfl⟩
  | pipe mended dropped => exact ⟨rfl, rfl⟩
  | sequence first semicolon second => exact ⟨rfl, rfl⟩

section

variable (substitute : Evaluator.Substitute)

open Recorder

theorem Recorder.visitAll_errors (dropped : List Token) :
    visitAll substitute (dropped.map .error) = pure () := by
  induction dropped with
  | nil => rfl
  | cons token rest inductionHypothesis =>
    rw [List.map_cons, visitAll, inductionHypothesis]
    rfl

mutual

/-- Pipes make their calls in order, also where tokens were dropped. -/
theorem MendedPipe.orderly {parts : List Tree} {pipe : Pipe} (dropped : List Token) :
    (mended : MendedPipe parts pipe) →
      Orderly substitute (Tree.node .pipe (parts ++ dropped.map .error)).subtrees
        (Recorder.visit substitute (.node .pipe (parts ++ dropped.map .error)))
  | @MendedPipe.calls left right _ bar _ => by
    rw [Tree.subtrees_pipe]
    exact (call_orderly substitute left []).pipe fun piped => call_orderly substitute right piped
  | @MendedPipe.call inner left right mended bar _ => by
    have before := mended.orderly []
    rw [List.map_nil, List.append_nil] at before
    rw [Tree.subtrees_pipe]
    exact before.pipe fun piped => call_orderly substitute right piped
  | @MendedPipe.command inner others left right mended bar stage => by
    have before := mended.orderly []
    rw [List.map_nil, List.append_nil] at before
    rw [Tree.subtrees_pipe]
    obtain ⟨noArguments, noRedirections⟩ := stage.bare
    exact before.pipe fun piped => stage_orderly substitute (.node .command others) stage.orderly
      noArguments noRedirections piped

/-- Commands make their calls in order, also where tokens were dropped. -/
theorem MendedCommand.orderly {parts : List Tree} {command : Derivation.Command} :
    (mended : MendedCommand parts command) →
      Orderly substitute (Tree.subtreesAll parts) (Recorder.visitAll substitute parts)
  | .nothing dropped => by
    rw [Tree.subtreesAll_errors, Recorder.visitAll_errors]
    exact .nothing
  | @MendedCommand.call call _ => by
    rw [Recorder.visitAll_single, Tree.subtreesAll, Tree.subtreesAll, List.append_nil]
    exact call_orderly substitute call []
  | .pipe mended dropped => by
    rw [Recorder.visitAll_single, Tree.subtreesAll, Tree.subtreesAll, List.append_nil]
    exact mended.orderly dropped
  | @MendedCommand.sequence parts others left right first semicolon second => by
    have before : Orderly substitute (Tree.node .command parts).subtrees
        (Recorder.visitAll substitute parts) := first.orderly.plain ⟨rfl, rfl⟩
    have behind : Orderly substitute (Tree.node .command others).subtrees
        (Recorder.visitAll substitute others) := second.orderly.plain ⟨rfl, rfl⟩
    have apart : Recorder.visitAll substitute
        [.node .command parts, .leaf semicolon.val, .node .command others] = (do
          Recorder.visitAll substitute parts
          Recorder.visitAll substitute others) := by
      rw [Recorder.visitAll, Recorder.visitAll, Recorder.visitAll_single]
      rfl
    rw [Tree.subtreesAll_between, apart]
    exact before.seq behind

end

/-- While a line is evaluated, every call is given the redirections and the words that are written
in its own node, with nothing left over from earlier calls. If the evaluation succeeds, all calls of
the tree have been made in order, nothing is left waiting for a call, and there are as many outputs
as calls, less the calls that send their output to a file and less the pipes. -/
theorem evaluateLine_disciplined (line : Text) (session : Session) :
    ∃ made : List Made,
      (Recorder.visit substitute (readLine line .command 0).tree).start
          { evaluation := { session } } =
        ((evaluateLine substitute line session).1,
          { evaluation := (evaluateLine substitute line session).2, made }) ∧
      (∀ call ∈ made, call.node ∈ (readLine line .command 0).tree.subtrees ∧
        call.Disciplined substitute) ∧
      ∀ last, evaluateLine substitute line session = (.ok (), last) →
        made.map Made.node = (readLine line .command 0).tree.calls ∧
        last.words = [] ∧ last.inputs = [] ∧ last.targets = [] ∧
        (last.outputs.length : Int) = (readLine line .command 0).tree.calls.length -
          ((readLine line .command 0).tree.calls.filter Tree.redirectsOutput).length -
          (readLine line .command 0).tree.pipes.length := by
  obtain ⟨parts, command, tree, mended, _⟩ := readLine_mended line
  have orderly : Orderly substitute (readLine line .command 0).tree.subtrees
      (Recorder.visit substitute (readLine line .command 0).tree) := by
    rw [tree]
    exact (mended.orderly substitute).plain ⟨rfl, rfl⟩
  have erases := visit_erases substitute (readLine line .command 0).tree
    { evaluation := { session } }
  obtain ⟨made, recorded, each, completes⟩ := orderly { evaluation := { session } } ⟨rfl, rfl⟩
  rcases started : (Recorder.visit substitute (readLine line .command 0).tree).start
    { evaluation := { session } } with ⟨result, ended⟩
  rw [started] at erases recorded completes
  have evaluated : evaluateLine substitute line session = (result, ended.evaluation) := erases.symm
  rw [evaluated]
  refine ⟨made, ?_, each, fun last ran => ?_⟩
  · rw [← show ended.made = made from recorded]
  · obtain ⟨rfl, rfl⟩ := Prod.mk.inj ran
    obtain ⟨⟨after, outputs, tidy⟩, calls, balance⟩ := completes rfl
    refine ⟨calls, by rw [tidy], by rw [tidy], by rw [tidy], ?_⟩
    rw [List.countP_eq_length_filter, List.countP_eq_length_filter] at balance
    simp only [Tree.calls, Tree.pipes]
    simp only [List.length_nil, Nat.zero_add] at balance
    omega

end

end MiniShell
