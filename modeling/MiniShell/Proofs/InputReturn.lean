/-
This file shows what becomes of standard input. A call that reads from a pipe
or a file puts a stream in front of standard input and takes it away again as
its last step. Nothing else is done to the streams behind: they are the same
streams when the call is done, and nobody has read from them.

The last step is not reached by a call that fails. Then the stream it was
reading stays in front, and what is left of it is read by whoever reads
standard input next: in a conversation, the shell itself takes the rest of a
pipe for command lines. So standard input is given back exactly by the calls
that succeed and by those that fail before they have put a stream in front.
-/

import Mathlib.Data.List.Forall2
import Mathlib.Logic.Relation
import MiniShell.Proofs.Composition
import MiniShell.Proofs.FileUpdate
import MiniShell.Shell.Conversation

namespace MiniShell

/-! ### The life of a stream -/

namespace Stream

/-- What happens to a stream that nobody reads: its file loses its name or moves. -/
inductive Idle : Stream → Stream → Prop
  | removal (files : FileTree) (trail : Trail) (stream : Stream) :
      Idle stream (Action.streamAfterRemoval files trail stream)
  | move (source target : Trail) (stream : Stream) :
      Idle stream (Action.streamAfterMove source target stream)

/-- What happens to the stream in use. -/
inductive Step : Stream → Stream → Prop
  | idle {stream after : Stream} (idle : Idle stream after) : Step stream after
  | fill (files : FileTree) (stream : Stream) : Step stream (stream.fill files).2
  | drain (stream : Stream) : Step stream { stream with ready := [] }

/-- The same stream at a later time. -/
def Later : Stream → Stream → Prop := Relation.ReflTransGen Step

/-- The same stream at a later time, from which nobody has read. -/
def Untouched : Stream → Stream → Prop := Relation.ReflTransGen Idle

theorem Untouched.later {stream after : Stream} (untouched : stream.Untouched after) :
    stream.Later after :=
  Relation.ReflTransGen.mono (fun _ _ => Step.idle) _ _ untouched

theorem Idle.closed {stream after : Stream} (idle : Idle stream after)
    (closed : stream.source = .nothing) : after = stream := by
  cases idle with
  | removal files trail => simp [Action.streamAfterRemoval, closed]
  | move source target => simp [Action.streamAfterMove, closed]

theorem fill_closed (files : FileTree) {stream : Stream} (closed : stream.source = .nothing)
    (whole : stream.pending = []) : stream.fill files = (.ok stream, stream) := by
  obtain ⟨ready, source, pending, interrupts⟩ := stream
  obtain rfl : source = .nothing := closed
  obtain rfl : pending = [] := whole
  have decoded : Text.decode [] = .ok [] := rfl
  simp [fill, Source.bytes, Source.exhaust, decoded, Text.unifyNewlines]

/-- From a stream that has no source, such as a pipe or the lines a user has typed, nothing can be
read later but the end of what is ready. -/
theorem Later.closed {stream after : Stream} (later : stream.Later after)
    (closed : stream.source = .nothing) (whole : stream.pending = []) :
    ∃ left, left <:+ stream.ready ∧ after = { stream with ready := left } := by
  induction later with
  | refl => exact ⟨stream.ready, List.suffix_rfl, rfl⟩
  | tail _ step inductionHypothesis =>
    obtain ⟨left, suffix, rfl⟩ := inductionHypothesis
    cases step with
    | idle idle => exact ⟨left, suffix, idle.closed closed⟩
    | fill files =>
      have same : fill files { stream with ready := left } = (.ok _, _) :=
        fill_closed files closed whole
      exact ⟨left, suffix, congrArg Prod.snd same⟩
    | drain => exact ⟨[], List.nil_suffix, rfl⟩

/-- What a stream is filled with is what stays. -/
theorem fill_ok {files : FileTree} {stream filled : Stream}
    (done : (stream.fill files).1 = .ok filled) : filled = (stream.fill files).2 := by
  unfold fill at done ⊢
  dsimp only at done ⊢
  split at done
  · exact (Except.ok.inj done).symm
  · split at done
    · split at done
      · cases done
      · exact (Except.ok.inj done).symm
    · cases done

end Stream

/-! ### Streams in a row -/

/-- No stream of standard input has been replaced or read from. -/
def Rests : List Stream → List Stream → Prop := List.Forall₂ Stream.Untouched

/-- Standard input consists of the same streams as before. The one in use may have been read from.
Where there was none, an empty one may have come into use. -/
inductive Resumes : List Stream → List Stream → Prop
  | empty : Resumes [] []
  | opened {stream : Stream} (later : Stream.Later { ready := [] } stream) : Resumes [] [stream]
  | same {stream after : Stream} {behind behindAfter : List Stream} (later : stream.Later after)
      (rests : Rests behind behindAfter) : Resumes (stream :: behind) (after :: behindAfter)

/-- A stream that was not there before is in front of standard input. -/
def Covered (stream : Stream) (before after : List Stream) : Prop :=
  ∃ own rest, after = own :: rest ∧ stream.Later own ∧ Resumes before rest

namespace Rests

theorem refl (streams : List Stream) : Rests streams streams :=
  List.forall₂_same.mpr fun _ _ => .refl

theorem trans {before between after : List Stream} (first : Rests before between)
    (second : Rests between after) : Rests before after := by
  induction first generalizing after with
  | nil => exact second
  | cons untouched _ inductionHypothesis =>
    cases second with
    | cons further rests => exact .cons (untouched.trans further) (inductionHypothesis rests)

/-- A change that is made to each stream by itself. -/
theorem map {change : Stream → Stream} (idle : ∀ stream : Stream, stream.Idle (change stream))
    (streams : List Stream) : Rests streams (streams.map change) :=
  List.forall₂_map_right_iff.mpr (List.forall₂_same.mpr fun stream _ => .single (idle stream))

theorem resumes {before after : List Stream} (rests : Rests before after) :
    Resumes before after := by
  cases rests with
  | nil => exact .empty
  | cons untouched rests => exact .same untouched.later rests

end Rests

namespace Resumes

theorem refl (streams : List Stream) : Resumes streams streams := (Rests.refl streams).resumes

theorem trans {before between after : List Stream} (first : Resumes before between)
    (second : Resumes between after) : Resumes before after := by
  cases first with
  | empty => exact second
  | opened later =>
    cases second with
    | same further rests =>
      cases rests with
      | nil => exact .opened (later.trans further)
  | same later rests =>
    cases second with
    | same further restsFurther => exact .same (later.trans further) (rests.trans restsFurther)

/-- The stream in use has been read from. -/
theorem front {streams : List Stream} {after : Stream}
    (later : (streams.headD { ready := [] }).Later after) :
    Resumes streams (after :: streams.tail) := by
  cases streams with
  | nil => exact .opened later
  | cons stream behind => exact .same later (.refl behind)

theorem length_eq {before after : List Stream} (resumes : Resumes before after)
    (present : before ≠ []) : after.length = before.length := by
  cases resumes with
  | empty => exact absurd rfl present
  | opened => exact absurd rfl present
  | same _ rests => simp [rests.length_eq]

end Resumes

/-- Where there was a stream, one more in front is one too many. -/
theorem Covered.not_resumes {stream : Stream} {before after : List Stream}
    (covered : Covered stream before after) (present : before ≠ []) : ¬ Resumes before after := by
  obtain ⟨own, rest, rfl, _, restResumes⟩ := covered
  intro resumes
  have oneMore := resumes.length_eq present
  have same := restResumes.length_eq present
  simp only [List.length_cons] at oneMore
  omega

/-! ### Commands -/

theorem start_setInput (stream : Stream) (session : Session) :
    (Action.setInput stream).start session =
      (.ok ⟨⟩, { session with inputs := stream :: session.inputs.tail }) := rfl

theorem start_fillInput (session : Session) {result : Except Text.DecodeFault Stream}
    {stream : Stream}
    (filled : (session.inputs.headD { ready := [] }).fill session.files = (result, stream)) :
    Action.fillInput.start session =
      (result.mapError .undecodable, { session with inputs := stream :: session.inputs.tail }) := by
  have read : Action.currentInput.start session =
      (.ok (session.inputs.headD { ready := [] }), session) := rfl
  rw [Action.fillInput, Action.start_bind_ok read, Action.start_bind_ok (Action.start_get _),
    filled]
  cases result <;> rfl

/-- Reading to the end uses up the stream in front and no other. -/
theorem inputLines_resumes (session : Session) :
    Resumes session.inputs (Action.inputLines.start session).2.inputs := by
  rcases filled : (session.inputs.headD { ready := [] }).fill session.files with ⟨result, stream⟩
  have later : (session.inputs.headD { ready := [] }).Later stream := by
    have step := Stream.Step.fill session.files (session.inputs.headD { ready := [] })
    rw [filled] at step
    exact .single step
  rw [Action.inputLines, Action.start_bind, start_fillInput session filled]
  cases result with
  | error fault => exact .front later
  | ok own =>
    obtain rfl : own = stream := by
      have same := Stream.fill_ok (congrArg Prod.fst filled)
      rwa [filled] at same
    have drained := Resumes.front (later.tail (.drain own))
    simp only [Action.mapError_ok, Action.start_bind_ok (start_setInput _ _)]
    split
    · exact drained
    · split <;> exact drained

/-- The steps of a command leave standard input in place. -/
theorem Stepwise.resumes {powers : Powers} {Result : Type} {action : Action Result}
    (stepwise : Stepwise powers action) (session : Session) :
    Resumes session.inputs (action.start session).2.inputs := by
  refine relates (fun before after => Resumes before.inputs after.inputs)
    (fun _ => .refl _) .trans (fun _ _ blind session => ?modifies) (fun _ trail session => ?removes)
    (fun _ source target tree session => ?moves) (fun _ => inputLines_resumes) stepwise session
  case modifies =>
    rw [inputs_of_blind blind]
    exact .refl _
  case removes => exact (Rests.map (.removal session.files trail) _).resumes
  case moves =>
    exact ((Rests.map (.removal session.files target) _).trans
      (Rests.map (.move source target) _)).resumes

/-! ### Calls -/

/-- The stream that a call reads in place of standard input, if it gets so far as to put one in
front: a pipe, or the file that input is redirected from. -/
def Evaluation.replacement? (evaluation : Evaluation) (pipe : Option Text) : Option Stream :=
  if evaluation.inputs.length > 1 || evaluation.targets.length > 1 then none
  else
    match pipe, evaluation.inputs.getLast? with
    | some _, some _ => none
    | some text, none => some { ready := text }
    | none, some name =>
      match ((Action.openFile name).start evaluation.session).1 with
      | .ok (trail, _) => some (.ofFile trail)
      | .error _ => none
    | none, none => none

namespace Evaluator

variable {Result Other : Type}

/-- An evaluator that leaves standard input in place, whether it succeeds or fails. -/
def Resuming (evaluator : Evaluator Result) : Prop :=
  ∀ evaluation, Resumes evaluation.session.inputs (evaluator.start evaluation).2.session.inputs

namespace Resuming

theorem throw (fault : Fault) : (throw fault : Evaluator Result).Resuming :=
  fun _ => .refl _

theorem pure (result : Result) : (Pure.pure result : Evaluator Result).Resuming :=
  fun _ => .refl _

theorem act {powers : Powers} {action : Action Result} (stepwise : Stepwise powers action) :
    (act action).Resuming :=
  fun evaluation => stepwise.resumes evaluation.session

theorem modify {change : Evaluation → Evaluation}
    (same : ∀ evaluation, (change evaluation).session = evaluation.session) :
    (modify change : Evaluator PUnit).Resuming := by
  intro evaluation
  rw [start_modify, same]
  exact .refl _

theorem bind {evaluator : Evaluator Result} {next : Result → Evaluator Other}
    (resuming : evaluator.Resuming) (onward : ∀ result, (next result).Resuming) :
    (evaluator >>= next).Resuming := by
  intro evaluation
  have before := resuming evaluation
  rw [start_bind]
  split
  · next result between ended =>
    rw [ended] at before
    exact before.trans (onward result between)
  · next fault between ended =>
    rw [ended] at before
    exact before

/-- What comes after a look at the evaluation. -/
theorem get {next : Evaluation → Evaluator Result}
    (onward : ∀ evaluation, Resumes evaluation.session.inputs
      ((next evaluation).start evaluation).2.session.inputs) :
    (MonadState.get >>= next).Resuming := by
  intro evaluation
  rw [start_bind_ok (start_get _)]
  exact onward evaluation

end Resuming

theorem runWords_resuming (missing : Fault) (words : List Text) :
    (runWords missing words).Resuming := by
  refine .get fun evaluation => ?_
  split
  · exact .refl _
  · split
    · exact .refl _
    · next output _ _ name arguments =>
      refine Resuming.bind (fun own => ?_) (fun (result, lines) => ?_) evaluation
      · exact (Stepwise.catalog name arguments).resumes { own.session with out := output }
      · refine Resuming.bind (.modify fun _ => rfl) fun _ => ?_
        split
        · exact .pure _
        · exact .throw _

theorem popOutput_resuming (missing : Fault) : (popOutput missing).Resuming := by
  refine .get fun evaluation => ?_
  split <;> exact .refl _

theorem redirectOutput_resuming (missing : Fault) : (redirectOutput missing).Resuming := by
  have writes : ∀ (target : Target) (prepare : Action Unit), Stepwise ⟨true, true, true⟩ prepare →
      (do
        act prepare
        let output ← popOutput missing
        act (Action.appendFile target.name output.flatten) : Evaluator Unit).Resuming :=
    fun target prepare stepwise => (Resuming.act stepwise).bind fun _ =>
      (popOutput_resuming missing).bind fun _ =>
        Resuming.act (Stepwise.appendFile target.name _ : Stepwise ⟨true, true, true⟩ _)
  refine .get fun evaluation => ?_
  split
  · exact .refl _
  · next target _ =>
    rw [start_bind_ok (start_set _ _)]
    let moved := { evaluation with targets := evaluation.targets.dropLast }
    split
    · exact writes target _ (.appendFile target.name []) moved
    · exact writes target _ (.writeFile target.name []) moved

/-- Opening a file is no more than a look at the session. -/
theorem openFile_looks (path : Text) (session : Session) :
    ((Action.openFile path).start session).2 = session :=
  (Stepwise.openFile path : Stepwise ⟨false, false, false⟩ _).looks session

/-- Input is redirected by putting one stream in front, or not at all. -/
theorem redirectInput_cases {evaluation : Evaluation} (pipe : Option Text)
    (few : (decide (evaluation.inputs.length > 1) || decide (evaluation.targets.length > 1)) =
      false) :
    match evaluation.replacement? pipe with
    | some stream => ∃ after, (redirectInput pipe).start evaluation = (.ok true, after) ∧
        after.session = { evaluation.session with inputs := stream :: evaluation.session.inputs }
    | none => ∃ result after, (redirectInput pipe).start evaluation = (result, after) ∧
        result ≠ .ok true ∧ after.session = evaluation.session := by
  unfold Evaluation.replacement? redirectInput
  rw [start_bind_ok (start_get _), few]
  cases pipe with
  | some text =>
    cases evaluation.inputs.getLast? with
    | some name => exact ⟨_, _, rfl, nofun, rfl⟩
    | none => exact ⟨_, rfl, rfl⟩
  | none =>
    cases evaluation.inputs.getLast? with
    | none => exact ⟨_, _, rfl, nofun, rfl⟩
    | some name =>
      have looks := openFile_looks name evaluation.session
      simp only [Bool.false_eq_true, if_false, start_bind_ok (start_set _ _), openInput, start_bind,
        start_act, Action.start_bind, Action.start_rephrase]
      rcases opened : (Action.openFile name).start evaluation.session with
        ⟨fault | ⟨trail, content⟩, after⟩
      all_goals
        rw [opened] at looks
        subst looks
      · exact ⟨_, _, rfl, nofun, rfl⟩
      · exact ⟨_, rfl, rfl⟩

/-- What a call does once its input has been settled. -/
theorem callBody_resuming (missing : Fault) (words : List Text) :
    (do runWords missing words; redirectOutput missing : Evaluator Unit).Resuming :=
  (runWords_resuming missing words).bind fun _ => redirectOutput_resuming missing

theorem runCall_split (missing : Fault) (words : List Text) (pipe : Option Text) :
    runCall missing words pipe = (do
      let evaluation ← get
      if evaluation.inputs.length > 1 || evaluation.targets.length > 1 then
        throw .tooManyRedirections
      else
        let redirected ← redirectInput pipe
        (do runWords missing words; redirectOutput missing)
        if redirected then act Action.popInput) := by
  simp only [runCall, bind_assoc]

/-- A call whose input is not redirected leaves standard input in place. -/
theorem runCall_resumes (missing : Fault) (words : List Text) {pipe : Option Text}
    {evaluation : Evaluation} (own : evaluation.replacement? pipe = none) :
    Resumes evaluation.session.inputs
      ((runCall missing words pipe).start evaluation).2.session.inputs := by
  rw [runCall_split, start_bind_ok (start_get _)]
  split
  · exact .refl _
  · next few =>
    have redirects := redirectInput_cases pipe (Bool.eq_false_iff.mpr few)
    rw [own] at redirects
    obtain ⟨result, after, ran, not, same⟩ := redirects
    rw [start_bind, ran, ← same]
    match result with
    | .error fault => exact .refl _
    | .ok true => exact absurd rfl not
    | .ok false => exact (callBody_resuming missing words).bind (fun _ => .pure _) after

/-- A call whose input is redirected gives standard input back as it was if it succeeds, and leaves
the stream it was reading in front if it fails. -/
theorem runCall_replaced (missing : Fault) (words : List Text) {pipe : Option Text}
    {evaluation : Evaluation} {stream : Stream}
    (replaced : evaluation.replacement? pipe = some stream) :
    match (runCall missing words pipe).start evaluation with
    | (.ok _, after) => Rests evaluation.session.inputs after.session.inputs
    | (.error _, after) => ∃ own rest, after.session.inputs = own :: rest ∧ stream.Later own ∧
        Rests evaluation.session.inputs rest := by
  have few : ¬ (decide (evaluation.inputs.length > 1) ||
      decide (evaluation.targets.length > 1)) = true := by
    intro many
    unfold Evaluation.replacement? at replaced
    rw [if_pos many] at replaced
    cases replaced
  have redirects := redirectInput_cases pipe (Bool.eq_false_iff.mpr few)
  rw [replaced] at redirects
  obtain ⟨after, ran, same⟩ := redirects
  rw [runCall_split, start_bind_ok (start_get _), if_neg few, start_bind_ok ran, start_bind]
  -- The command only reads on in the stream that was put in front.
  have resumes := callBody_resuming missing words after
  rw [same] at resumes
  rcases ended : Evaluator.start (do runWords missing words; redirectOutput missing) after with
    ⟨fault | result, last⟩
  all_goals
    rw [ended] at resumes
    dsimp only at resumes ⊢
    generalize lastInputs : last.session.inputs = inputs at resumes
    cases resumes with
    | same later rests => ?_
  · exact ⟨_, _, rfl, later, rests⟩
  · show Rests evaluation.session.inputs last.session.inputs.tail
    rw [lastInputs]
    exact rests

end Evaluator

/-! ### Command lines -/

section Lines

variable {Result Other : Type}

/-- What becomes of standard input in the end: a success leaves it in place, and a failure leaves at
most one more stream in front. -/
def Returned (before : List Stream) : Except Fault Result → List Stream → Prop
  | .ok _, after => Resumes before after
  | .error _, after => Resumes before after ∨ ∃ stream, Covered stream before after

theorem Returned.of_resumes {before after : List Stream} {result : Except Fault Result}
    (resumes : Resumes before after) : Returned before result after := by
  cases result with
  | ok _ => exact resumes
  | error _ => exact .inl resumes

theorem Returned.after {before between after : List Stream} {result : Except Fault Result}
    (resumes : Resumes before between) (returned : Returned between result after) :
    Returned before result after := by
  cases result with
  | ok _ => exact resumes.trans returned
  | error _ =>
    rcases returned with further | ⟨stream, own, rest, rfl, later, further⟩
    · exact .inl (resumes.trans further)
    · exact .inr ⟨stream, own, rest, rfl, later, resumes.trans further⟩

/-- An action that gives standard input back if it succeeds. -/
def Action.Returns (action : Action Result) : Prop :=
  ∀ session, Returned session.inputs (action.start session).1 (action.start session).2.inputs

namespace Action.Returns

theorem stepwise {powers : Powers} {action : Action Result} (made : Stepwise powers action) :
    action.Returns :=
  fun session => .of_resumes (made.resumes session)

theorem pure (result : Result) : (Pure.pure result : Action Result).Returns :=
  fun _ => .of_resumes (.refl _)

theorem bind {action : Action Result} {next : Result → Action Other} (returns : action.Returns)
    (onward : ∀ result, (next result).Returns) : (action >>= next).Returns := by
  intro session
  have before := returns session
  rw [Action.start_bind]
  rcases ended : action.start session with ⟨fault | result, between⟩
  · rw [ended] at before
    exact before
  · rw [ended] at before
    exact .after before (onward result between)

theorem sequential : Sequential fun Result (action : Action Result) => action.Returns :=
  ⟨pure, bind⟩

end Action.Returns

namespace Evaluator

/-- An evaluator that gives standard input back if it succeeds. -/
def Returns (evaluator : Evaluator Result) : Prop :=
  ∀ evaluation, Returned evaluation.session.inputs (evaluator.start evaluation).1
    (evaluator.start evaluation).2.session.inputs

namespace Returns

theorem act {action : Action Result} (returns : action.Returns) : (act action).Returns :=
  fun evaluation => returns evaluation.session

theorem resuming {evaluator : Evaluator Result} (resuming : evaluator.Resuming) :
    evaluator.Returns :=
  fun evaluation => .of_resumes (resuming evaluation)

theorem bind {evaluator : Evaluator Result} {next : Result → Evaluator Other}
    (returns : evaluator.Returns) (onward : ∀ result, (next result).Returns) :
    (evaluator >>= next).Returns := by
  intro evaluation
  have before := returns evaluation
  rw [start_bind]
  rcases ended : evaluator.start evaluation with ⟨fault | result, between⟩
  · rw [ended] at before
    exact before
  · rw [ended] at before
    exact .after before (onward result between)

theorem sequential : Sequential fun Result (evaluator : Evaluator Result) => evaluator.Returns :=
  ⟨fun _ => .resuming (.pure _), bind⟩

end Returns

theorem runCall_returns (missing : Fault) (words : List Text) (pipe : Option Text) :
    (runCall missing words pipe).Returns := by
  intro evaluation
  cases replaced : evaluation.replacement? pipe with
  | none => exact .of_resumes (runCall_resumes missing words replaced)
  | some stream =>
    have left := runCall_replaced missing words replaced
    rcases ended : (runCall missing words pipe).start evaluation with ⟨fault | result, last⟩
    all_goals rw [ended] at left
    · obtain ⟨own, rest, front, later, rests⟩ := left
      exact .inr ⟨stream, own, rest, front, later, rests.resumes⟩
    · exact Rests.resumes left

theorem endCall_returns (piped : List Text) : (endCall piped).Returns := by
  intro evaluation
  rw [endCall, start_bind_ok (start_get _), start_bind_ok (start_set _ _)]
  exact runCall_returns _ _ _ { evaluation with words := evaluation.words.dropLast }

variable {substitute : Substitute}

theorem argumentWords_returns (returns : ∀ line, (substitute line).Returns)
    (pieces : List Tree) : (argumentWords substitute pieces).Returns := by
  have expands (words : List Text) (position : Nat) :
      Stepwise ⟨true, true, true⟩ (expandAt words position) := by
    refine (Stepwise.expand _).bind fun names => ?_
    split
    · exact .throw rfl
    · exact .pure _
  exact argumentWords_closed substitute Action.Returns.sequential returns
    (fun words position => .stepwise (expands words position)) pieces

/-- The evaluation of every tree gives standard input back if it succeeds. -/
theorem visit_returns (returns : ∀ line, (substitute line).Returns) (tree : Tree) :
    (visit substitute tree).Returns := by
  have redirects (parts : List Tree) : (addRedirection parts).Returns := by
    refine .resuming (.modify fun evaluation => ?_)
    split <;> rfl
  exact visit_closed substitute Returns.sequential (.resuming (.modify fun _ => rfl))
    endCall_returns (.resuming (popOutput_resuming _)) redirects
    (fun pieces => .act (argumentWords_returns returns pieces))
    (fun words => .resuming (.modify fun _ => rfl)) tree

end Evaluator

theorem outputOfLine_returns {substitute : Evaluator.Substitute}
    (returns : ∀ line, (substitute line).Returns) (line : Text) :
    (outputOfLine substitute line).Returns := by
  intro session
  have evaluated := Evaluator.visit_returns returns (readLine line .command 0).tree { session }
  show Returned session.inputs ((evaluateLine substitute line session).1.map _)
    (evaluateLine substitute line session).2.session.inputs
  rcases ended : evaluateLine substitute line session with ⟨fault | result, last⟩
  all_goals
    rw [show Evaluator.start _ _ = _ from ended] at evaluated
    exact evaluated

/-- Every command line gives standard input back if it succeeds. -/
theorem runLine_returns (line : Text) : (runLine line).Returns :=
  runLine_closed Action.Returns (.pure _) (fun _ => outputOfLine_returns) line

end Lines

/-- What a user has typed and nobody has read stays what is read next. -/
theorem Resumes.typed {typed : Text} {interrupts : Bool} {after : List Stream}
    (resumes : Resumes [{ ready := typed, interrupts }] after) :
    ∃ left, left <:+ typed ∧ after = [{ ready := left, interrupts }] := by
  cases resumes with
  | same later rests =>
    obtain ⟨left, suffix, rfl⟩ := later.closed rfl rfl
    cases rests
    exact ⟨left, suffix, rfl⟩

/-- A call gives standard input back exactly if it succeeds or fails before it has put a stream in
front. A standard input that was replaced comes back unread. Where a call fails after it has put a
stream in front, that stream stays there. So a command line that succeeds gives standard input back,
and nothing but what the user has typed can be read after it. One that fails leaves at most one
stream in front. -/
theorem runCall_resumes_iff (missing : Fault) (words : List Text) (pipe : Option Text)
    (evaluation : Evaluation) (present : evaluation.session.inputs ≠ []) :
    let before := evaluation.session.inputs
    let outcome := (Evaluator.runCall missing words pipe).start evaluation
    let after := outcome.2.session.inputs
    (Resumes before after ↔ evaluation.replacement? pipe = none ∨ outcome.1 = .ok ⟨⟩) ∧
    (∀ stream, evaluation.replacement? pipe = some stream →
      match outcome with
      | (.ok _, last) => Rests before last.session.inputs
      | (.error _, last) => ∃ own rest, last.session.inputs = own :: rest ∧ stream.Later own ∧
          Rests before rest) ∧
    ∀ line, match (runLine line).start evaluation.session with
      | (.ok _, last) => Resumes before last.inputs ∧
          ∀ typed interrupts, before = [{ ready := typed, interrupts }] →
            ∃ left, left <:+ typed ∧ last.inputs = [{ ready := left, interrupts }]
      | (.error _, last) =>
          Resumes before last.inputs ∨ ∃ stream, Covered stream before last.inputs := by
  intro before outcome after
  refine ⟨?_, fun stream replaced => Evaluator.runCall_replaced missing words replaced,
    fun line => ?_⟩
  · cases replaced : evaluation.replacement? pipe with
    | none => simpa using Evaluator.runCall_resumes missing words replaced
    | some stream =>
      have left := Evaluator.runCall_replaced missing words replaced
      rcases ended : (Evaluator.runCall missing words pipe).start evaluation with
        ⟨fault | result, last⟩
      all_goals
        have same : outcome = _ := ended
        rw [ended] at left
        simp only [after, same]
      · obtain ⟨own, rest, front, later, rests⟩ := left
        have covered : Covered stream before last.session.inputs :=
          ⟨own, rest, front, later, rests.resumes⟩
        simpa using covered.not_resumes present
      · simpa using Rests.resumes left
  · have returns := runLine_returns line evaluation.session
    rcases ended : (runLine line).start evaluation.session with ⟨fault | result, last⟩
    all_goals rw [ended] at returns
    · exact returns
    · refine ⟨returns, fun typed interrupts typedOnly => ?_⟩
      have resumes : Resumes before last.inputs := returns
      rw [typedOnly] at resumes
      exact resumes.typed

/-- A conversation in which the user has typed one line. -/
def oneLineTyped : Session where
  files := .directory [("f".toList, .file [])]
  home := "/".toList
  inputs := [{ ready := "echo remove f|cat g\n".toList }]

/-- A call that reads from a pipe and fails. -/
theorem runCall_resumes_iff_pipe :
    oneLineTyped.inputs ≠ [] ∧
      ¬ Resumes oneLineTyped.inputs
        ((Evaluator.runCall .stackIndex ["cat".toList, "g".toList] (some "remove f\n".toList)).start
          { session := oneLineTyped, outputs := [[]] }).2.session.inputs := by
  have present : oneLineTyped.inputs ≠ [] := nofun
  have exact := (runCall_resumes_iff .stackIndex ["cat".toList, "g".toList]
    (some "remove f\n".toList) { session := oneLineTyped, outputs := [[]] } present).1
  refine ⟨present, fun resumes => ?_⟩
  rcases exact.mp resumes with none | done
  · exact absurd (congrArg Option.isSome none) (by decide +kernel)
  · exact absurd (congrArg Except.isOk done) (by decide +kernel)

/-- The user has typed one line, but the shell runs two: the pipe of the call that has failed stays
in front, is read as a command line, and a file is gone. -/
theorem turns_read_pipe :
    oneLineTyped.inputs.length = 1 ∧ ((Shell.turns 1).start oneLineTyped).2.inputs.length = 2 ∧
    (oneLineTyped.files.get? ["f".toList]).isSome = true ∧
    (((Shell.turns 2).start oneLineTyped).2.files.get? ["f".toList]).isSome = false := by
  decide +kernel

end MiniShell
