/-
This file shows that a call minds its own outputs. All commands of a line share
one stack of outputs: a call pushes its output, a redirection takes it away
again, and a pipe takes away what its left side left. An evaluator keeps what
is below if it does the same whatever outputs of earlier commands lie below its
own. Calls keep what is below, and they leave one output of their own or, where
their output is redirected, none.

This is stated like a triple: where an evaluator starts, and what holds of its
result and of the evaluation that it leaves. Evaluators that keep what is below
can be put one after the other.
-/

import MiniShell.Proofs.Evaluation

namespace MiniShell

open MiniShell.Derivation

variable {evaluation : Evaluation} {outputs : List (List Text)} {lines : List Text}

/-- The evaluation with outputs of earlier commands below its own. -/
def Evaluation.above (evaluation : Evaluation) (earlier : List (List Text)) : Evaluation :=
  { evaluation with outputs := earlier ++ evaluation.outputs }

namespace Evaluation

@[simp] theorem above_inputs (evaluation : Evaluation) (earlier : List (List Text)) :
    (evaluation.above earlier).inputs = evaluation.inputs := rfl

@[simp] theorem above_targets (evaluation : Evaluation) (earlier : List (List Text)) :
    (evaluation.above earlier).targets = evaluation.targets := rfl

end Evaluation

namespace Evaluator

variable {Result Other : Type}

/-! ### Keeping what is below -/

/-- An evaluator does the same above all outputs of earlier commands, and what it returns and
leaves behind is as described. -/
structure Keeps (evaluator : Evaluator Result) (evaluation : Evaluation)
    (after : Result → Evaluation → Prop) : Prop where
  framed : ∀ earlier, evaluator.start (evaluation.above earlier) =
    ((evaluator.start evaluation).1, (evaluator.start evaluation).2.above earlier)
  ends : ∀ result last, evaluator.start evaluation = (.ok result, last) → after result last

namespace Keeps

variable {evaluator : Evaluator Result} {after : Result → Evaluation → Prop}
  {afterNext : Other → Evaluation → Prop}

/-- Evaluators that keep what is below can follow each other. -/
theorem bind {next : Result → Evaluator Other} (keeps : evaluator.Keeps evaluation after)
    (keepsNext : ∀ result last, after result last → (next result).Keeps last afterNext) :
    (evaluator >>= next).Keeps evaluation afterNext := by
  rcases ended : evaluator.start evaluation with ⟨fault | result, last⟩
  · refine ⟨fun earlier => ?_, fun result last' ran => ?_⟩
    · rw [start_bind, start_bind, keeps.framed, ended]
    · rw [start_bind, ended] at ran
      exact absurd (congrArg Prod.fst ran) (by simp)
  · have further := keepsNext result last (keeps.ends result last ended)
    refine ⟨fun earlier => ?_, fun result' last' ran => ?_⟩
    · rw [start_bind, start_bind, keeps.framed, ended]
      exact further.framed earlier
    · rw [start_bind, ended] at ran
      exact further.ends result' last' ran

theorem weaken {weaker : Result → Evaluation → Prop} (keeps : evaluator.Keeps evaluation after)
    (implies : ∀ result last, after result last → weaker result last) :
    evaluator.Keeps evaluation weaker :=
  ⟨keeps.framed, fun result last ran => implies result last (keeps.ends result last ran)⟩

theorem pure (result : Result) (evaluation : Evaluation) :
    (pure result : Evaluator Result).Keeps evaluation
      fun own last => own = result ∧ last = evaluation := by
  refine ⟨fun _ => rfl, fun own last ran => ?_⟩
  rw [start_pure] at ran
  cases ran
  exact ⟨rfl, rfl⟩

theorem throw (fault : Fault) (evaluation : Evaluation) :
    (throw fault : Evaluator Result).Keeps evaluation after := by
  refine ⟨fun _ => rfl, fun own last ran => ?_⟩
  rw [start_throw] at ran
  cases ran

theorem act (action : Action Result) (evaluation : Evaluation) :
    (act action).Keeps evaluation fun _ last => ∃ session, last = { evaluation with session } := by
  refine ⟨fun _ => rfl, fun own last ran => ?_⟩
  rw [start_act] at ran
  exact ⟨_, (congrArg Prod.snd ran).symm⟩

/-- A change that is the same above all outputs of earlier commands. -/
theorem modify {change : Evaluation → Evaluation}
    (same : ∀ earlier, change (evaluation.above earlier) = (change evaluation).above earlier) :
    (modify change : Evaluator PUnit).Keeps evaluation fun _ last => last = change evaluation := by
  refine ⟨fun earlier => ?_, fun own last ran => ?_⟩
  · rw [start_modify, start_modify, same]
  · rw [start_modify] at ran
    exact (congrArg Prod.snd ran).symm

/-- What comes after a look at the evaluation that does not reach below its own outputs. -/
theorem get {next : Evaluation → Evaluator Result}
    (same : ∀ earlier, next (evaluation.above earlier) = next evaluation)
    (keeps : (next evaluation).Keeps evaluation after) :
    (get >>= next).Keeps evaluation after := by
  refine ⟨fun earlier => ?_, keeps.ends⟩
  rw [start_bind_ok (start_get _), start_bind_ok (start_get _), same]
  exact keeps.framed earlier

/-- What comes after an update that does not reach below the evaluation's own outputs. -/
theorem getSet {next : Evaluation → Evaluator Result} {moved : Evaluation}
    {rest : Evaluator Result} (keeps : rest.Keeps moved after)
    (steps : next evaluation = do set moved; rest)
    (stepsAbove : ∀ earlier, next (evaluation.above earlier) = do set (moved.above earlier); rest) :
    (MonadState.get >>= next).Keeps evaluation after := by
  have updated : (MonadState.get >>= next).start evaluation = rest.start moved := by
    rw [start_bind_ok (start_get _), steps, start_bind_ok (start_set _ _)]
  refine ⟨fun earlier => ?_, fun result last ran => keeps.ends result last (updated ▸ ran)⟩
  rw [updated, start_bind_ok (start_get _), stepsAbove, start_bind_ok (start_set _ _)]
  exact keeps.framed earlier

end Keeps

/-! ### The steps of a call -/

theorem popOutput_keeps (missing : Fault) (last : evaluation.outputs = outputs ++ [lines]) :
    (popOutput missing).Keeps evaluation fun result after =>
      result = lines ∧ after = { evaluation with outputs } := by
  have popped := start_popOutput missing last
  refine ⟨fun earlier => ?_, fun result after ran => ?_⟩
  · have lastAbove : (evaluation.above earlier).outputs = earlier ++ outputs ++ [lines] := by
      simp [Evaluation.above, last]
    rw [popped, start_popOutput missing lastAbove]
    rfl
  · rw [popped] at ran
    cases ran
    exact ⟨rfl, rfl⟩

/-- Redirecting standard input uses up a noted file. -/
theorem redirectInput_keeps (pipe : Option Text) (evaluation : Evaluation) :
    (redirectInput pipe).Keeps evaluation fun _ after =>
      ∃ session, after = { evaluation with session, inputs := evaluation.inputs.dropLast } := by
  rw [redirectInput]
  cases noted : evaluation.inputs.getLast? with
  | none =>
    have empty : evaluation.inputs.dropLast = evaluation.inputs := by
      rw [List.getLast?_eq_none_iff.mp noted, List.dropLast_nil]
    rw [empty]
    refine Keeps.get (fun _ => by cases pipe <;> simp only [Evaluation.above_inputs, noted]) ?_
    cases pipe with
    | none =>
      simp only [noted]
      exact (Keeps.pure _ _).weaken fun _ _ same => ⟨evaluation.session, same.2⟩
    | some text =>
      simp only [noted]
      refine (Keeps.act _ _).bind fun _ _ pushed => ?_
      exact (Keeps.pure _ _).weaken fun _ _ same => same.2 ▸ pushed
  | some name =>
    cases pipe with
    | none =>
      have opens : (do act (openInput name); Pure.pure true : Evaluator Bool).Keeps
          { evaluation with inputs := evaluation.inputs.dropLast } fun _ after =>
            ∃ session, after = { evaluation with session, inputs := evaluation.inputs.dropLast } :=
        (Keeps.act _ _).bind fun _ _ opened =>
          (Keeps.pure _ _).weaken fun _ _ same => same.2 ▸ opened
      exact Keeps.getSet opens (by simp only [noted])
        fun earlier => by simp only [Evaluation.above, noted]
    | some text =>
      refine Keeps.get (fun _ => by simp only [Evaluation.above_inputs, noted]) ?_
      simp only [noted]
      exact Keeps.throw _ _

/-- A command writes to the last output. -/
theorem runWords_keeps (missing : Fault) (words : List Text)
    (last : evaluation.outputs = outputs ++ [lines]) :
    (runWords missing words).Keeps evaluation fun _ after =>
      ∃ session more, after = { evaluation with session, outputs := outputs ++ [more] } := by
  have lastAbove : ∀ earlier, (evaluation.above earlier).outputs.getLast? = some lines := by
    simp [Evaluation.above, last]
  have lastOutput : evaluation.outputs.getLast? = some lines := by simp [last]
  rw [runWords]
  refine Keeps.get (fun earlier => by simp only [lastAbove, lastOutput]) ?_
  simp only [lastOutput]
  cases words with
  | nil => exact Keeps.throw _ _
  | cons name arguments =>
    refine (Keeps.act _ _).bind ?_
    rintro ⟨result, more⟩ _ ⟨session, rfl⟩
    refine (Keeps.modify fun earlier => ?_).bind ?_
    · simp [Evaluation.above, last, ← List.append_assoc]
    · rintro _ _ rfl
      cases result with
      | error fault => exact Keeps.throw _ _
      | ok _ =>
        refine (Keeps.pure _ _).weaken fun _ _ same => ⟨session, more, ?_⟩
        rw [same.2, last, List.dropLast_concat]

/-- Redirecting the last output takes it away. -/
theorem redirectOutput_keeps (missing : Fault) (last : evaluation.outputs = outputs ++ [lines]) :
    (redirectOutput missing).Keeps evaluation fun _ after =>
      ∃ session, after =
        { evaluation with
          session
          targets := evaluation.targets.dropLast
          outputs := if evaluation.targets = [] then outputs ++ [lines] else outputs } := by
  rw [redirectOutput]
  cases noted : evaluation.targets.getLast? with
  | none =>
    have empty : evaluation.targets = [] := List.getLast?_eq_none_iff.mp noted
    refine Keeps.get (fun _ => by simp only [Evaluation.above_targets, noted]) ?_
    simp only [noted]
    refine (Keeps.pure _ _).weaken fun _ _ same => ⟨evaluation.session, ?_⟩
    have dropped : evaluation.targets.dropLast = evaluation.targets := by
      rw [empty, List.dropLast_nil]
    rw [same.2, if_pos empty, dropped, ← last]
  | some target =>
    have nonempty : evaluation.targets ≠ [] := by
      intro empty
      simp [empty] at noted
    rw [if_neg nonempty]
    -- Whatever is done to the file first, the output is then taken away and added to it.
    have writes : ∀ prepare : Action Unit, (do
        act prepare
        let output ← popOutput missing
        act (Action.appendFile target.name output.flatten) : Evaluator Unit).Keeps
          { evaluation with targets := evaluation.targets.dropLast } fun _ after =>
            ∃ session, after =
              { evaluation with session, targets := evaluation.targets.dropLast, outputs } := by
      intro prepare
      refine (Keeps.act _ _).bind ?_
      rintro _ _ ⟨prepared, rfl⟩
      refine (popOutput_keeps missing (by exact last)).bind ?_
      rintro _ _ ⟨rfl, rfl⟩
      exact Keeps.act _ _
    cases appended : target.append with
    | true =>
      exact Keeps.getSet (writes (Action.appendFile target.name []))
        (by simp only [noted, appended, if_true])
        fun earlier => by simp only [Evaluation.above, noted, appended, if_true]
    | false =>
      exact Keeps.getSet (writes (Action.writeFile target.name []))
        (by simp [noted, appended])
        fun earlier => by simp [Evaluation.above, noted, appended]

/-- Running a call uses up what has been noted, and leaves one output or none. -/
theorem runCall_keeps (missing : Fault) (words : List Text) (pipe : Option Text)
    (last : evaluation.outputs = outputs ++ [lines]) :
    (runCall missing words pipe).Keeps evaluation fun _ after =>
      ∃ session more, after =
        { evaluation with
          session
          inputs := []
          targets := []
          outputs := if evaluation.targets = [] then outputs ++ [more] else outputs } := by
  rw [runCall]
  refine Keeps.get (fun _ => rfl) ?_
  split
  · exact Keeps.throw _ _
  rename_i few
  have short : evaluation.inputs.length ≤ 1 ∧ evaluation.targets.length ≤ 1 := by
    simpa [Nat.not_lt] using few
  have noInputs : evaluation.inputs.dropLast = [] :=
    List.eq_nil_of_length_eq_zero (by rw [List.length_dropLast]; omega)
  have noTargets : evaluation.targets.dropLast = [] :=
    List.eq_nil_of_length_eq_zero (by rw [List.length_dropLast]; omega)
  refine (redirectInput_keeps pipe evaluation).bind ?_
  rintro redirected _ ⟨fed, rfl⟩
  refine (runWords_keeps missing words (by exact last)).bind ?_
  rintro _ _ ⟨run, more, rfl⟩
  refine (redirectOutput_keeps missing rfl).bind ?_
  rintro _ _ ⟨written, rfl⟩
  rw [noInputs, noTargets]
  cases redirected with
  | false => exact (Keeps.pure _ _).weaken fun _ _ same => ⟨written, more, same.2⟩
  | true =>
    rw [if_pos rfl]
    refine (Keeps.act _ _).weaken ?_
    rintro _ _ ⟨popped, rfl⟩
    exact ⟨popped, more, rfl⟩

end Evaluator

/-! ### Taking note of words and redirections -/

/-- Whether a part of a call sends the output of the call to a file. -/
def Tree.sendsOutput : Tree → Bool
  | .node .redirection (operator :: _) => !decide (operator.text = ['<'])
  | .node .atom [inner] => inner.sendsOutput
  | _ => false

/-- Whether a call sends its output to a file. -/
def Tree.redirectsOutput (call : Tree) : Bool := call.children.any Tree.sendsOutput

namespace Evaluator

/-- An evaluator only takes note of words and redirections of the call that is being read.
`sends` tells whether it notes a file that output goes to. -/
def Notes (sends : Bool) (evaluator : Evaluator Unit) : Prop :=
  ∀ evaluation outer inner, evaluation.words = outer ++ [inner] →
    evaluator.Keeps evaluation fun _ after => ∃ session words inputs more,
      after =
        { evaluation with
          session
          inputs
          words := outer ++ [words]
          targets := evaluation.targets ++ more } ∧
      (more = [] ↔ sends = false)

namespace Notes

theorem pure : Notes false (pure ()) := by
  intro evaluation outer inner reading
  refine (Keeps.pure _ _).weaken fun _ _ same =>
    ⟨evaluation.session, inner, evaluation.inputs, [], ?_, by simp⟩
  rw [same.2, ← reading, List.append_nil]

theorem seq {first second : Bool} {evaluator next : Evaluator Unit}
    (notes : Notes first evaluator) (notesNext : Notes second next) :
    Notes (first || second) (do evaluator; next) := by
  intro evaluation outer inner reading
  refine (notes evaluation outer inner reading).bind ?_
  rintro _ _ ⟨session, words, inputs, more, rfl, sends⟩
  refine (notesNext _ outer words rfl).weaken ?_
  rintro _ _ ⟨last, others, files, further, rfl, sendsNext⟩
  refine ⟨last, others, files, more ++ further, by simp, ?_⟩
  rw [List.append_eq_nil_iff, sends, sendsNext, Bool.or_eq_false_iff]

theorem argument (action : Action (List Text)) :
    Notes false (do let words ← act action; addWords words) := by
  intro evaluation outer inner reading
  refine (Keeps.act _ _).bind ?_
  rintro words _ ⟨session, rfl⟩
  refine (Keeps.modify fun earlier => rfl).weaken ?_
  rintro _ _ rfl
  refine ⟨session, inner ++ words, evaluation.inputs, [], ?_, by simp⟩
  simp [reading]

theorem redirection (isInput : Prop) [Decidable isInput] (name : Text) (target : Target) :
    Notes (!decide isInput) (modify fun evaluation =>
      if isInput then { evaluation with inputs := evaluation.inputs ++ [name] }
      else { evaluation with targets := evaluation.targets ++ [target] }) := by
  intro evaluation outer inner reading
  refine (Keeps.modify fun earlier => by split <;> rfl).weaken ?_
  rintro _ _ rfl
  by_cases input : isInput
  · refine ⟨evaluation.session, inner, evaluation.inputs ++ [name], [], ?_, by simp [input]⟩
    rw [← reading, List.append_nil, if_pos input]
  · refine ⟨evaluation.session, inner, evaluation.inputs, [target], ?_, by simp [input]⟩
    rw [← reading, if_neg input]

end Notes

variable (substitute : Substitute)

theorem visitAll_notes {trees : List Tree}
    (each : ∀ tree ∈ trees, Notes tree.sendsOutput (visit substitute tree)) :
    Notes (trees.any Tree.sendsOutput) (visitAll substitute trees) := by
  induction trees with
  | nil =>
    rw [visitAll_nil]
    exact Notes.pure
  | cons tree rest inductionHypothesis =>
    rw [visitAll_cons, List.any_cons]
    exact (each tree (by simp)).seq
      (inductionHypothesis fun other member => each other (List.mem_cons_of_mem _ member))

theorem leaf_notes (token : Token) :
    Notes (Tree.leaf token).sendsOutput (visit substitute (.leaf token)) := by
  rw [visit_leaf]
  exact Notes.pure

theorem redirection_notes (redirection : Redirection) :
    Notes redirection.tree.sendsOutput (visit substitute redirection.tree) := by
  rw [visit_redirection]
  exact Notes.redirection _ _ _

theorem argument_notes (argument : Argument) :
    Notes argument.tree.sendsOutput (visit substitute argument.tree) := by
  rw [visit_argument]
  exact Notes.argument _

theorem atom_notes (atom : Atom) :
    Notes atom.tree.sendsOutput (visit substitute atom.tree) := by
  rw [visit_atom]
  cases atom with
  | redirection redirection => exact redirection_notes substitute redirection
  | argument argument => exact argument_notes substitute argument

/-- The parts of a call only take note of words and redirections. -/
theorem call_notes (call : Call) :
    Notes call.tree.redirectsOutput (visitAll substitute call.parts) :=
  visitAll_notes substitute (Call.forall_parts (leaf_notes substitute)
    (redirection_notes substitute) (argument_notes substitute) (atom_notes substitute) call)

/-! ### Whole calls -/

/-- No redirection is waiting for its call. -/
def Idle (evaluation : Evaluation) : Prop := evaluation.inputs = [] ∧ evaluation.targets = []

/-- What a call leaves: one output, unless that is sent to a file. -/
def Leaves (sends : Bool) (outputs : List (List Text)) (evaluation after : Evaluation) : Prop :=
  ∃ session lines, after =
    { evaluation with session, outputs := outputs ++ if sends then [] else [lines] }

theorem endCall_keeps (piped : List Text) (last : evaluation.outputs = outputs ++ [lines]) :
    (endCall piped).Keeps evaluation fun _ after =>
      ∃ session more, after =
        { session
          words := evaluation.words.dropLast
          outputs := if evaluation.targets = [] then outputs ++ [more] else outputs } := by
  rw [endCall]
  exact Keeps.getSet (runCall_keeps .stackIndex (evaluation.words.getLastD [])
    (if piped = [] then none else some piped.flatten)
    (show ({ evaluation with words := evaluation.words.dropLast } : Evaluation).outputs = _
      from last)) rfl fun _ => rfl

/-- A call keeps what is below its own output. -/
theorem run_keeps {sends : Bool} {evaluator : Evaluator Unit} (notes : Notes sends evaluator)
    (piped : List Text) (idle : Idle evaluation) :
    (do beginCall; evaluator; endCall piped).Keeps evaluation fun _ =>
      Leaves sends evaluation.outputs evaluation := by
  refine (Keeps.modify fun earlier => ?_).bind ?_
  · simp [Evaluation.above]
  rintro _ _ rfl
  refine (notes _ evaluation.words [] rfl).bind ?_
  rintro _ _ ⟨session, words, inputs, more, rfl, sent⟩
  refine (endCall_keeps piped rfl).weaken ?_
  rintro _ _ ⟨run, lines, rfl⟩
  refine ⟨run, lines, ?_⟩
  obtain ⟨noInputs, noTargets⟩ := idle
  cases sends <;> simp_all

theorem call_keeps (call : Call) (idle : Idle evaluation) :
    (visit substitute call.tree).Keeps evaluation fun _ =>
      Leaves call.tree.redirectsOutput evaluation.outputs evaluation := by
  rw [visit_call]
  exact run_keeps (call_notes substitute call) [] idle

/-- A call behind a bar takes the last output and keeps what is below. -/
theorem pipeInto_keeps (call : Call) (idle : Idle evaluation)
    (last : evaluation.outputs = outputs ++ [lines]) :
    (pipeInto substitute call).Keeps evaluation fun _ =>
      Leaves call.tree.redirectsOutput outputs evaluation := by
  rw [pipeInto]
  refine (popOutput_keeps .emptyStack last).bind ?_
  rintro _ _ ⟨rfl, rfl⟩
  exact run_keeps (call_notes substitute call) _ idle

end Evaluator

end MiniShell
