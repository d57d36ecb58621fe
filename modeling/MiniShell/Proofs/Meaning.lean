/-
This file proves that a command line means what it says. Running the line of a
script does the same as carrying out the script directly: it gives the same
output or ends in the same fault, and it leaves the same session. The evaluator
keeps words, redirections and outputs on stacks; between two calls of a script
only outputs are left on them, and taken together these are the output of the
script so far.

An evaluation follows an action if it ends as the action does and leaves the
session that the action leaves. This is proved for one call, then along a
pipeline, where each call reads what the one before it put out, and then along
the pipelines of a script.
-/

import MiniShell.Proofs.FileUpdate
import MiniShell.Proofs.Rendering

namespace MiniShell

variable {stage : Stage} {piped : List Text} {evaluation : Evaluation}

/-! ### Evaluations that follow actions -/

/-- The end of an evaluation follows the end of an action: both end in the same fault or in
results that agree, and in the same session. -/
def Follows {Own Result : Type} (agree : Own → Result → Evaluation → Prop)
    (outcome : Except Fault Own × Evaluation) : Except Fault Result × Session → Prop
  | (.ok result, session) => ∃ own evaluation, outcome = (.ok own, evaluation) ∧
      evaluation.session = session ∧ agree own result evaluation
  | (.error fault, session) => ∃ evaluation, outcome = (.error fault, evaluation) ∧
      evaluation.session = session

namespace Follows

variable {Own Result Next Other : Type} {agree : Own → Result → Evaluation → Prop}
  {agreeNext : Next → Other → Evaluation → Prop}

theorem pure {own : Own} {result : Result} (agrees : agree own result evaluation) :
    Follows agree (.ok own, evaluation) (.ok result, evaluation.session) :=
  ⟨own, evaluation, rfl, rfl, agrees⟩

theorem act (action : Action Result) (evaluation : Evaluation) :
    Follows (fun own result after => own = result ∧ ∃ session, after = { evaluation with session })
      ((Evaluator.act action).start evaluation) (action.start evaluation.session) := by
  rw [Evaluator.start_act]
  rcases action.start evaluation.session with ⟨fault | result, session⟩
  · exact ⟨_, rfl, rfl⟩
  · exact ⟨result, _, rfl, rfl, rfl, session, rfl⟩

theorem bind {evaluator : Evaluator Own} {evaluation : Evaluation} {action : Action Result}
    {session : Session} (follows : Follows agree (evaluator.start evaluation)
      (action.start session))
    {next : Own → Evaluator Next} {nextAction : Result → Action Other}
    (followsNext : ∀ own result after, agree own result after →
      Follows agreeNext ((next own).start after) ((nextAction result).start after.session)) :
    Follows agreeNext ((evaluator >>= next).start evaluation)
      ((action >>= nextAction).start session) := by
  rw [Evaluator.start_bind, Action.start_bind]
  rcases ended : action.start session with ⟨fault | result, last⟩
  · rw [ended] at follows
    obtain ⟨after, outcome, rfl⟩ := follows
    rw [outcome]
    exact ⟨after, rfl, rfl⟩
  · rw [ended] at follows
    obtain ⟨own, after, outcome, rfl, agrees⟩ := follows
    rw [outcome]
    exact followsNext own result after agrees

end Follows

/-! ### One call -/

/-- The target that a destination is for the evaluator. -/
def Destination.target (destination : Destination) : Target :=
  ⟨destination.file.text, destination.append⟩

/-- The words of a call. -/
def Invocation.words (call : Invocation) : List Text :=
  call.name.text :: call.arguments.map PlainWord.text

theorem start_addWords {words more : List Text} (reading : evaluation.words = [words]) :
    (Evaluator.addWords more).start evaluation =
      (.ok ⟨⟩, { evaluation with words := [words ++ more] }) := by
  simp [Evaluator.addWords, reading]

theorem start_note_arguments (arguments : List PlainWord) {words : List Text}
    (reading : evaluation.words = [words]) :
    Evaluator.start (forM (arguments.map Part.word) Part.note) evaluation =
      (.ok ⟨⟩, { evaluation with words := [words ++ arguments.map PlainWord.text] }) := by
  induction arguments generalizing evaluation words with
  | nil => simp [← reading]
  | cons argument rest inductionHypothesis =>
    rw [List.map_cons, List.forM_cons, Evaluator.start_bind, Part.note, start_addWords reading]
    exact (inductionHypothesis rfl).trans (by simp)

/-- The words and redirections of a call are noted. -/
theorem start_note (stage : Stage) (session : Session) (outputs : List (List Text)) :
    stage.note.start { session, outputs, words := [[]] } =
      (.ok ⟨⟩,
        { session, outputs
          words := [stage.call.words]
          inputs := stage.input.toList.map PlainWord.text
          targets := stage.output.toList.map Destination.target }) := by
  obtain ⟨call, input, output⟩ := stage
  have arguments := start_note_arguments call.arguments
    (show Evaluation.words { session, outputs, words := [[call.name.text]] } = [[call.name.text]]
      from rfl)
  rw [Stage.note, Stage.parts, List.forM_eq_forM, List.forM_append, List.forM_append, bind_assoc,
    Evaluator.start_bind_ok (start_addWords rfl), List.nil_append,
    Evaluator.start_bind_ok arguments]
  cases input <;> cases output <;> rfl

/-- Redirecting standard input prepares it as for the call. -/
theorem start_redirectInput (single : stage.input = none ∨ piped = []) (session : Session)
    (outputs : List (List Text)) (targets : List Target) :
    (Evaluator.redirectInput (if piped = [] then none else some piped.flatten)).start
        { session, outputs, targets, inputs := stage.input.toList.map PlainWord.text } =
      (((stage.feed piped).start session).1,
        { session := ((stage.feed piped).start session).2, outputs, targets }) := by
  rw [Evaluator.redirectInput, Evaluator.start_bind_ok (Evaluator.start_get _)]
  cases input : stage.input with
  | none =>
    by_cases nothing : piped = []
    · simp [nothing, Stage.feed, input]
    · simp [nothing, Stage.feed, input, Evaluator.start_map, Action.start_map]
  | some file =>
    have nothing : piped = [] := by simpa [input] using single
    simp [nothing, Stage.feed, input, Evaluator.start_map, Action.start_map,
      Evaluator.start_bind]

/-- Running the words of a call gives its output. -/
theorem runWords_follows (call : Invocation) (session : Session) (outputs : List (List Text))
    (targets : List Target) :
    Follows (fun _ lines after =>
        ∃ session, after = { session, outputs := outputs ++ [lines], targets })
      ((Evaluator.runWords .stackIndex call.words).start
        { session, outputs := outputs ++ [[]], targets })
      (call.run.start session) := by
  rw [Evaluator.runWords, Evaluator.start_bind_ok (Evaluator.start_get _), Invocation.run]
  simp only [List.getLast?_append, List.getLast?_singleton, Option.some_or, Invocation.words]
  refine Follows.bind (Follows.act _ _) ?_
  rintro _ ⟨result, lines⟩ _ ⟨rfl, after, rfl⟩
  rw [Evaluator.start_bind_ok (Evaluator.start_modify _ _), List.dropLast_concat]
  cases result with
  | error fault => exact ⟨_, rfl, rfl⟩
  | ok _ => exact ⟨⟨⟩, _, rfl, rfl, after, rfl⟩

/-- What a call leaves among the outputs. -/
def Stage.Leaves (stage : Stage) (outputs : List (List Text)) (lines : List Text)
    (after : Evaluation) : Prop :=
  match stage.output with
  | none => ∃ session, after = { session, outputs := outputs ++ [lines] }
  | some _ => lines = [] ∧ ∃ session, after = { session, outputs }

/-- Prepares a file for output that is then added to it. -/
def Destination.prepare (destination : Destination) : Action Unit :=
  if destination.append then Action.appendFile destination.file.text []
  else Action.writeFile destination.file.text []

/-- The output of a call can be written in two steps. -/
theorem Destination.write_eq (destination : Destination) (lines : List Text) :
    destination.write lines = (do
      destination.prepare
      Action.appendFile destination.file.text lines.flatten) := by
  rw [Destination.write, Destination.prepare]
  split
  · exact (Action.appendFile_appendFile _ _).symm
  · exact (Action.writeFile_appendFile _ _).symm

/-- Writing to a file in two steps, as the evaluator does, follows writing to it in one. -/
theorem redirectOutput_follows (stage : Stage) (session : Session) (outputs : List (List Text))
    (lines : List Text) :
    Follows (fun _ => stage.Leaves outputs)
      ((Evaluator.redirectOutput .stackIndex).start
        { session, outputs := outputs ++ [lines]
          targets := stage.output.toList.map Destination.target })
      ((stage.deliver lines).start session) := by
  rw [Evaluator.redirectOutput, Evaluator.start_bind_ok (Evaluator.start_get _), Stage.deliver]
  unfold Stage.Leaves
  cases output : stage.output with
  | none => exact ⟨⟨⟩, _, rfl, rfl, session, rfl⟩
  | some destination =>
    simp only [Option.toList_some, List.map_cons, List.map_nil, List.getLast?_singleton]
    -- The file is opened for writing before the output is looked for.
    have steps : (do
        if destination.target.append then
          Evaluator.act (Action.appendFile destination.target.name [])
        else Evaluator.act (Action.writeFile destination.target.name [])
        let output ← Evaluator.popOutput .stackIndex
        Evaluator.act (Action.appendFile destination.target.name output.flatten)) = (do
        Evaluator.act destination.prepare
        let output ← Evaluator.popOutput .stackIndex
        Evaluator.act (Action.appendFile destination.file.text output.flatten)) := by
      rw [Destination.prepare, Destination.target]
      cases destination.append <;> rfl
    rw [Evaluator.start_bind_ok (Evaluator.start_set _ _), steps, destination.write_eq, bind_assoc]
    refine Follows.bind (Follows.act _ _) ?_
    rintro _ _ _ ⟨rfl, prepared, rfl⟩
    have popped : (Evaluator.popOutput .stackIndex).start
        { session := prepared, outputs := outputs ++ [lines] } = (.ok lines, _) :=
      Evaluator.start_popOutput .stackIndex rfl
    rw [List.dropLast_singleton, Evaluator.start_bind_ok popped, ← bind_pure (Evaluator.act _)]
    refine Follows.bind (Follows.act _ _) ?_
    rintro _ _ _ ⟨rfl, written, rfl⟩
    exact ⟨⟨⟩, _, rfl, rfl, rfl, written, rfl⟩

theorem redirectInput_follows (single : stage.input = none ∨ piped = []) (session : Session)
    (outputs : List (List Text)) (targets : List Target) :
    Follows (fun own redirected after =>
        own = redirected ∧ ∃ session, after = { session, outputs, targets })
      ((Evaluator.redirectInput (if piped = [] then none else some piped.flatten)).start
        { session, outputs, targets, inputs := stage.input.toList.map PlainWord.text })
      ((stage.feed piped).start session) := by
  rw [start_redirectInput single]
  rcases (stage.feed piped).start session with ⟨fault | redirected, after⟩
  · exact ⟨_, rfl, rfl⟩
  · exact ⟨redirected, _, rfl, rfl, rfl, after, rfl⟩

theorem Stage.Leaves.withSession {outputs : List (List Text)} {lines : List Text}
    {after : Evaluation} (leaves : stage.Leaves outputs lines after) (session : Session) :
    stage.Leaves outputs lines { after with session } := by
  unfold Stage.Leaves at leaves ⊢
  split at leaves
  · obtain ⟨_, rfl⟩ := leaves
    exact ⟨session, rfl⟩
  · obtain ⟨empty, _, rfl⟩ := leaves
    exact ⟨empty, session, rfl⟩

/-- Running a call with its redirections follows running it directly. -/
theorem runCall_follows (single : stage.input = none ∨ piped = []) (session : Session)
    (outputs : List (List Text)) :
    Follows (fun _ => stage.Leaves outputs)
      ((Evaluator.runCall .stackIndex stage.call.words
          (if piped = [] then none else some piped.flatten)).start
        { session
          outputs := outputs ++ [[]]
          inputs := stage.input.toList.map PlainWord.text
          targets := stage.output.toList.map Destination.target })
      ((stage.run piped).start session) := by
  have atMostOne : ¬ ((stage.input.toList.map PlainWord.text).length > 1 ||
      (stage.output.toList.map Destination.target).length > 1) = true := by
    cases stage.input <;> cases stage.output <;> simp
  rw [Evaluator.runCall, Evaluator.start_bind_ok (Evaluator.start_get _), if_neg atMostOne,
    Stage.run]
  refine Follows.bind (redirectInput_follows single session _ _) ?_
  rintro redirected _ _ ⟨rfl, fed, rfl⟩
  refine Follows.bind (runWords_follows stage.call fed outputs _) ?_
  rintro _ lines _ ⟨run, rfl⟩
  refine Follows.bind (redirectOutput_follows stage run outputs lines) ?_
  intro _ delivered after leaves
  cases redirected with
  | false => exact Follows.pure leaves
  | true =>
    exact ⟨⟨⟩, _, rfl, rfl, leaves.withSession _⟩

/-- Evaluating a call follows running it directly. -/
theorem visit_follows (single : stage.input = none ∨ piped = []) (session : Session)
    (outputs : List (List Text)) :
    Follows (fun _ => stage.Leaves outputs) ((stage.visit piped).start { session, outputs })
      ((stage.run piped).start session) := by
  have begun : Evaluator.beginCall.start { session, outputs } =
      (.ok ⟨⟩, { session, outputs := outputs ++ [[]], words := [[]] }) := rfl
  rw [Stage.visit, Evaluator.start_bind_ok begun, Evaluator.start_bind_ok (start_note _ _ _),
    Evaluator.endCall, Evaluator.start_bind_ok (Evaluator.start_get _),
    Evaluator.start_bind_ok (Evaluator.start_set _ _)]
  exact runCall_follows single session outputs

/-! ### Pipelines and scripts -/

/-- The output of a command is put behind what was there before. -/
def Adds (outputs : List (List Text)) (lines : List Text) (after : Evaluation) : Prop :=
  ∃ session more, after = { session, outputs := more } ∧ more.flatten = outputs.flatten ++ lines

theorem Stage.Leaves.adds {outputs : List (List Text)} {lines : List Text} {after : Evaluation}
    (leaves : stage.Leaves outputs lines after) : Adds outputs lines after := by
  unfold Stage.Leaves at leaves
  split at leaves
  · obtain ⟨session, rfl⟩ := leaves
    exact ⟨session, _, rfl, by simp⟩
  · obtain ⟨rfl, session, rfl⟩ := leaves
    exact ⟨session, outputs, rfl, by simp⟩

/-- Evaluating a call behind a bar follows running it on the output before. -/
theorem resume_follows (noInput : stage.input = none) (session : Session)
    (outputs : List (List Text)) (piped : List Text) :
    Follows (fun _ => stage.Leaves outputs)
      (stage.resume.start { session, outputs := outputs ++ [piped] })
      ((stage.run piped).start session) := by
  have popped : (Evaluator.popOutput .emptyStack).start
      { session, outputs := outputs ++ [piped] } = (.ok piped, { session, outputs }) :=
    Evaluator.start_popOutput .emptyStack rfl
  rw [Stage.resume, Evaluator.start_bind_ok popped]
  exact visit_follows (Or.inl noInput) session outputs

theorem runStages_cons (piped : List Text) (stage : Stage) (rest : List Stage) :
    runStages piped (stage :: rest) = (do
      let lines ← stage.run piped
      runStages lines rest) := by
  rw [runStages, List.foldlM_cons]
  rfl

/-- Evaluating the calls behind a bar follows running them on the output before. -/
theorem resumeAll_follows (output : Option Destination) (call : Invocation)
    (later : List Invocation) (session : Session) (outputs : List (List Text))
    (piped : List Text) :
    Follows (fun _ => Adds outputs)
      (Evaluator.start (forM (stagesFrom none output call later) Stage.resume)
        { session, outputs := outputs ++ [piped] })
      ((runStages piped (stagesFrom none output call later)).start session) := by
  induction later generalizing call session piped with
  | nil =>
    rw [stagesFrom, List.forM_cons, runStages_cons]
    refine Follows.bind (resume_follows rfl session outputs piped) ?_
    exact fun _ lines after leaves => Follows.pure leaves.adds
  | cons next rest inductionHypothesis =>
    rw [stagesFrom, List.forM_cons, runStages_cons]
    refine Follows.bind (resume_follows rfl session outputs piped) ?_
    rintro _ lines _ ⟨run, rfl⟩
    exact inductionHypothesis next run lines

/-- Evaluating a pipeline follows running it directly. -/
theorem pipeline_follows (pipeline : Pipeline) (session : Session)
    (outputs : List (List Text)) :
    Follows (fun _ => Adds outputs) ((visitStages pipeline.stages).start { session, outputs })
      (pipeline.run.start session) := by
  obtain ⟨input, first, later, output⟩ := pipeline
  rw [Pipeline.run, Pipeline.stages]
  cases later with
  | nil =>
    rw [stagesFrom, visitStages, runStages_cons]
    refine Follows.bind (visit_follows (Or.inr rfl) session outputs) ?_
    exact fun _ lines after leaves => Follows.pure leaves.adds
  | cons next rest =>
    rw [stagesFrom, visitStages, runStages_cons]
    refine Follows.bind (visit_follows (Or.inr rfl) session outputs) ?_
    rintro _ lines _ ⟨run, rfl⟩
    exact resumeAll_follows output next rest run outputs lines

/-- Evaluating pipelines one after the other follows running them directly. -/
theorem pipelines_follow (pipelines : List Pipeline) (session : Session)
    (outputs : List (List Text)) :
    Follows (fun _ lines => Adds outputs lines.flatten)
      (Evaluator.start (forM pipelines fun pipeline => visitStages pipeline.stages)
        { session, outputs })
      (Action.start (pipelines.mapM Pipeline.run) session) := by
  induction pipelines generalizing session outputs with
  | nil => exact ⟨⟨⟩, _, rfl, rfl, session, outputs, rfl, by simp⟩
  | cons pipeline rest inductionHypothesis =>
    rw [List.forM_cons, List.mapM_cons]
    refine Follows.bind (pipeline_follows pipeline session outputs) ?_
    rintro _ lines _ ⟨run, more, rfl, flat⟩
    rw [← bind_pure (forM rest _)]
    refine Follows.bind (inductionHypothesis run more) ?_
    rintro _ others _ ⟨last, all, rfl, flatAll⟩
    refine Follows.pure ⟨last, all, rfl, ?_⟩
    rw [flatAll, flat, List.flatten_cons, List.append_assoc]

/-- The output of the line of a script is the output of the script, whatever commands in back
quotes stand for. -/
theorem outputOfLine_render (substitute : Evaluator.Substitute) (script : Script) :
    outputOfLine substitute script.render = script.run := by
  refine Action.ext_start fun session => ?_
  have follows := pipelines_follow script.pipelines session []
  have evaluated : evaluateLine substitute script.render session =
      Evaluator.start (forM script.pipelines fun pipeline => visitStages pipeline.stages)
        { session } := by
    rw [evaluateLine, visit_render, List.forM_eq_forM]
  rw [Script.run, Action.start_bind]
  show (((evaluateLine substitute script.render session).1.map fun _ =>
      (evaluateLine substitute script.render session).2.outputs.flatten),
    (evaluateLine substitute script.render session).2.session) = _
  rw [evaluated]
  rcases ended : Action.start (script.pipelines.mapM Pipeline.run) session with
    ⟨fault | lines, last⟩
  · rw [ended] at follows
    obtain ⟨after, outcome, rfl⟩ := follows
    rw [outcome]
    rfl
  · rw [ended] at follows
    obtain ⟨_, _, outcome, rfl, _, more, rfl, flat⟩ := follows
    rw [outcome]
    simpa [Except.map] using flat

/-- A command line means what it says: running the line of a script carries the script out. The
output or the fault is the same, and so is the session that is left, with its files, its working
directory and its standard input. -/
theorem runLine_render (script : Script) : runLine script.render = script.run :=
  outputOfLine_render (interpret 0) script

end MiniShell
