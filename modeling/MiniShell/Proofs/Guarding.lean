/-
This file compares a guarded command with the command itself. A guard turns a
fault into a line of output, so the call succeeds and standard input is given
back. All else is as the command left it: what it had written, and what it had
done to files, stays.

One kind of fault passes a guard: a request to stop. The command `exit` makes
one. Every other command does so only if it reads standard input and the user
interrupts it there, which cannot happen on a pipe.
-/

import MiniShell.Proofs.InputReturn
import MiniShell.Proofs.PipeIsolation

namespace MiniShell

/-! ### Interruptions -/

/-- Whether the user will interrupt who reads standard input to its end. -/
def Session.interrupts (session : Session) : Bool :=
  (session.inputs.headD { ready := [] }).interrupts

theorem Stream.fill_interrupts (files : FileTree) (stream : Stream) :
    (stream.fill files).2.interrupts = stream.interrupts := by
  unfold fill
  dsimp only
  split
  · rfl
  · split
    · split <;> rfl
    · rfl

theorem Stream.Later.interrupts {stream after : Stream} (later : stream.Later after) :
    after.interrupts = stream.interrupts := by
  induction later with
  | refl => rfl
  | tail _ step inductionHypothesis =>
    rw [← inductionHypothesis]
    cases step with
    | idle idle =>
      cases idle with
      | removal files trail =>
        unfold Action.streamAfterRemoval
        split
        · split <;> rfl
        · rfl
      | move source target =>
        unfold Action.streamAfterMove
        split <;> rfl
    | fill files => exact fill_interrupts files _
    | drain => rfl

theorem Resumes.interrupts {before after : List Stream} (resumes : Resumes before after) :
    (after.headD { ready := [] }).interrupts = (before.headD { ready := [] }).interrupts := by
  cases resumes with
  | empty => rfl
  | opened later => exact later.interrupts
  | same later _ => exact later.interrupts

theorem Stepwise.interrupts {powers : Powers} {Result : Type} {action : Action Result}
    (made : Stepwise powers action) (session : Session) :
    (action.start session).2.interrupts = session.interrupts :=
  (made.resumes session).interrupts

/-- Reading standard input ends in a request to stop only if the user interrupts it. -/
theorem inputLines_interrupted {session after : Session} {fault : Fault}
    (ran : Action.inputLines.start session = (.error fault, after)) (stops : fault.isStop = true) :
    fault = .interrupt ∧ session.interrupts = true := by
  rcases filled : (session.inputs.headD { ready := [] }).fill session.files with ⟨result, stream⟩
  rw [Action.inputLines, Action.start_bind, start_fillInput session filled] at ran
  cases result with
  | error cause =>
    obtain rfl := Except.error.inj (congrArg Prod.fst ran)
    exact absurd stops Bool.false_ne_true
  | ok own =>
    obtain rfl : own = stream := by
      have same := Stream.fill_ok (congrArg Prod.fst filled)
      rwa [filled] at same
    have kept : own.interrupts = session.interrupts := by
      have same := Stream.fill_interrupts session.files (session.inputs.headD { ready := [] })
      rwa [filled] at same
    simp only [Action.mapError_ok, Action.start_bind_ok (start_setInput _ _)] at ran
    cases ended : own.endFault? with
    | some cause =>
      rw [ended] at ran
      obtain rfl := Except.error.inj (congrArg Prod.fst ran)
      exact absurd stops Bool.false_ne_true
    | none =>
      simp only [ended, kept] at ran
      cases interrupts : session.interrupts with
      | true =>
        rw [interrupts] at ran
        exact ⟨(Except.error.inj (congrArg Prod.fst ran)).symm, rfl⟩
      | false =>
        rw [interrupts] at ran
        exact absurd (congrArg Prod.fst ran) (by simp)

/-- An action that may not end the conversation ends in a request to stop only if the user
interrupts it. -/
theorem Stepwise.interrupted {powers : Powers} (stays : powers.leaves = false) {Result : Type}
    {action : Action Result} (made : Stepwise powers action) {session after : Session}
    {fault : Fault} (ran : action.start session = (.error fault, after))
    (stops : fault.isStop = true) : fault = .interrupt ∧ session.interrupts = true := by
  -- No step changes whether the user interrupts, so what holds later was so from the beginning.
  induction made generalizing session after with
  | pure result => exact absurd (congrArg Prod.fst ran) (by simp)
  | throw calm =>
    obtain rfl := Except.error.inj (congrArg Prod.fst ran)
    exact absurd (calm.symm.trans stops) Bool.false_ne_true
  | leave may => exact absurd (stays.symm.trans may) Bool.false_ne_true
  | @bind _ _ action next made _ first onward =>
    rcases Action.start_bind_fault_inv ran with failed | ⟨result, between, ended, failed⟩
    · exact first failed
    · have kept := made.interrupts session
      rw [ended] at kept
      obtain ⟨interrupted, later⟩ := onward result failed
      exact ⟨interrupted, kept.symm.trans later⟩
  | @tryCatch _ action handle made _ passes first onward =>
    rw [Action.start_tryCatch] at ran
    have kept := made.interrupts session
    rcases ended : action.start session with ⟨other | result, between⟩
    · rw [ended] at ran kept
      cases otherStops : other.isStop with
      | true =>
        dsimp only at ran
        rw [passes other otherStops] at ran
        obtain rfl := Except.error.inj (congrArg Prod.fst ran)
        exact first ended
      | false =>
        obtain ⟨interrupted, later⟩ := onward other otherStops ran
        exact ⟨interrupted, kept.symm.trans later⟩
    · rw [ended] at ran
      exact absurd (congrArg Prod.fst ran) (by simp)
  | get _ _ onward =>
    rw [Action.start_bind_ok (Action.start_get _)] at ran
    exact onward session ran
  | modify => exact absurd (congrArg Prod.fst ran) (by simp)
  | removeTree => exact absurd (congrArg Prod.fst ran) (by simp [Action.removeTree])
  | moveTree =>
    refine absurd (congrArg Prod.fst ran) ?_
    simp [Action.moveTree, Action.removeTree, Action.start_bind]
  | inputLines => exact inputLines_interrupted ran stops

/-! ### Guards -/

/-- What a guard adds to the output. -/
def complaint : Except Fault Unit → List Text
  | .ok _ => []
  | .error fault => ["An exception occurred: ".toList ++ fault.message ++ ['\n']]

/-- A guard turns every fault that is no request to stop into a line of output. -/
theorem Entry.start_guard {action : Action Unit} {session after : Session}
    {result : Except Fault Unit} (ran : action.start session = (result, after))
    (calm : Calm result) :
    (guard action).start session =
      (.ok (), { after with out := after.out ++ complaint result }) := by
  rw [guard, Action.start_tryCatch, ran]
  cases result with
  | ok _ => simp [complaint]
  | error fault =>
    dsimp only
    rw [if_neg (Bool.eq_false_iff.mp (calm fault rfl))]
    rfl

/-- A request to stop passes a guard. -/
theorem Entry.start_guard_stops {action : Action Unit} {session after : Session} {fault : Fault}
    (ran : action.start session = (.error fault, after)) (stops : fault.isStop = true) :
    (guard action).start session = (.error fault, after) := by
  rw [guard, Action.start_tryCatch, ran]
  dsimp only
  rw [if_pos stops]
  rfl

/-- Every name without an underscore stands guarded in the catalog under the name with one. -/
theorem Catalog.lookup_guarded : ∀ name ∈ standard.map Prod.fst, name.head? ≠ some '_' →
    (standard.lookup name).isSome = true ∧
    standard.lookup ('_' :: name) = (standard.lookup name).map .guarded ∧
    ((standard.lookup name).bind Entry.program? = some .exit → name = "exit".toList) := by
  decide +kernel

/-- A guarded command ends like the command itself if the user interrupts that. Otherwise it
succeeds, and all that sets it apart is a line of output for a fault. -/
theorem Catalog.start_run_guarded {name : Text} (known : name ∈ standard.map Prod.fst)
    (bare : name.head? ≠ some '_') (stays : name ≠ "exit".toList) (arguments : List Text)
    {session after : Session} {result : Except Fault Unit}
    (ran : (run name arguments).start session = (result, after)) :
    (result = .error .interrupt → session.interrupts = true ∧
      (run ('_' :: name) arguments).start session = (result, after)) ∧
    (result ≠ .error .interrupt → (run ('_' :: name) arguments).start session =
      (.ok (), { after with out := after.out ++ complaint result })) := by
  obtain ⟨present, underscored, exits⟩ := lookup_guarded name known bare
  obtain ⟨entry, found⟩ := Option.isSome_iff_exists.mp present
  rw [found, Option.map_some] at underscored
  rw [found, Option.bind_some] at exits
  have made : Stepwise ⟨true, true, false⟩ (entry.run arguments) :=
    .entry (fun isExit => absurd (exits isExit) stays) arguments
  simp only [run, found] at ran
  simp only [run, underscored, Entry.run]
  refine ⟨fun interrupted => ?_, fun goesOn => Entry.start_guard ran fun fault failed => ?_⟩
  · subst interrupted
    exact ⟨(made.interrupted rfl ran rfl).2, Entry.start_guard_stops ran rfl⟩
  · subst failed
    refine Bool.eq_false_iff.mpr fun stops => goesOn ?_
    rw [(made.interrupted rfl ran stops).1]

/-! ### Calls without redirections -/

namespace Evaluator

/-- The evaluation in which a command is run. -/
def fed (pipe : Option Text) (evaluation : Evaluation) : Evaluation :=
  pipe.elim evaluation fun text =>
    evaluation.onInput ({ ready := text } :: evaluation.session.inputs)

/-- What a call leaves behind if its command ends like this. -/
def left (pipe : Option Text) (evaluation : Evaluation) (ended : Except Fault Unit × Session) :
    Evaluation :=
  { evaluation with
    session :=
      { ended.2 with
        out := evaluation.session.out
        inputs := if pipe.isSome && ended.1.isOk then ended.2.inputs.tail else ended.2.inputs }
    outputs := evaluation.outputs.dropLast ++ [ended.2.out] }

variable {pipe : Option Text} {evaluation : Evaluation}

theorem start_redirectOutput_none (missing : Fault) (noTargets : evaluation.targets = []) :
    (redirectOutput missing).start evaluation = (.ok (), evaluation) := by
  rw [redirectOutput, start_bind_ok (start_get _), noTargets]
  rfl

/-- A call without redirections runs its command on the last output, and takes the pipe away if the
command succeeds. -/
theorem start_runCall (missing : Fault) (name : Text) (arguments : List Text)
    (noInputs : evaluation.inputs = []) (noTargets : evaluation.targets = [])
    {below : List (List Text)} {top : List Text} (stack : evaluation.outputs = below ++ [top])
    {ended : Except Fault Unit × Session}
    (ran : (Catalog.run name arguments).start { (fed pipe evaluation).session with out := top } =
      ended) :
    (runCall missing (name :: arguments) pipe).start evaluation =
      (ended.1, left pipe evaluation ended) := by
  have redirects : (redirectInput pipe).start evaluation =
      (.ok pipe.isSome, fed pipe evaluation) := by
    cases pipe with
    | none => exact start_redirectInput_none noInputs
    | some text => exact start_redirectInput_pipe text noInputs
  have kept : (fed pipe evaluation).outputs = below ++ [top] ∧
      (fed pipe evaluation).targets = [] ∧
      (fed pipe evaluation).session.out = evaluation.session.out := by
    cases pipe <;> exact ⟨stack, noTargets, rfl⟩
  -- The stream that a pipe puts in front changes nothing of what the call looks at.
  have words := start_runWords missing name arguments kept.1 ran
  have few : ¬ (decide (evaluation.inputs.length > 1) ||
      decide (evaluation.targets.length > 1)) = true := by
    simp [noInputs, noTargets]
  rw [runCall, start_bind_ok (start_get _), if_neg few, start_bind_ok redirects, start_bind, words]
  obtain ⟨result, after⟩ := ended
  have dropped : evaluation.outputs.dropLast = below := by rw [stack, List.dropLast_concat]
  cases result with
  | error fault =>
    cases pipe <;> simp [left, fed, Evaluation.onInput, dropped, Except.isOk, Except.toBool]
  | ok done =>
    dsimp only
    rw [start_bind_ok (start_redirectOutput_none missing (by exact kept.2.1))]
    cases pipe <;>
      simp [left, fed, Evaluation.onInput, dropped, Except.isOk, Except.toBool, Action.popInput]

/-- A call without redirections that succeeds gives standard input back. -/
theorem runCall_restores (missing : Fault) (words : List Text) (noInputs : evaluation.inputs = [])
    (noTargets : evaluation.targets = []) {after : Evaluation}
    (succeeds : (runCall missing words pipe).start evaluation = (.ok (), after)) :
    Resumes evaluation.session.inputs after.session.inputs ∧
      (pipe.isSome = true → Rests evaluation.session.inputs after.session.inputs) := by
  cases pipe with
  | none =>
    have own : evaluation.replacement? none = none := by
      simp [Evaluation.replacement?, noInputs, noTargets]
    have resumes := runCall_resumes missing words own
    rw [succeeds] at resumes
    exact ⟨resumes, nofun⟩
  | some text =>
    have replaced : evaluation.replacement? (some text) = some { ready := text } := by
      simp [Evaluation.replacement?, noInputs, noTargets]
    have rests := runCall_replaced missing words replaced
    rw [succeeds] at rests
    exact ⟨rests.resumes, fun _ => rests⟩

/-- A guarded command ends in a success, gives standard input back, and leaves what the command
itself leaves, with one line more in its output if that fails. The one exception is an interruption
by the user, which ends both alike. It does not come about on a pipe. -/
theorem runCall_guarded (missing : Fault) {name : Text}
    (known : name ∈ Catalog.standard.map Prod.fst) (bare : name.head? ≠ some '_')
    (stays : name ≠ "exit".toList) (arguments : List Text) (pipe : Option Text)
    {evaluation : Evaluation} (noInputs : evaluation.inputs = [])
    (noTargets : evaluation.targets = []) (stack : evaluation.outputs ≠ []) :
    let plain := (runCall missing (name :: arguments) pipe).start evaluation
    let guarded := (runCall missing (('_' :: name) :: arguments) pipe).start evaluation
    (plain.1 = .error .interrupt →
      pipe = none ∧ evaluation.session.interrupts = true ∧ guarded = plain) ∧
    (plain.1 ≠ .error .interrupt →
      guarded.1 = .ok () ∧
      Resumes evaluation.session.inputs guarded.2.session.inputs ∧
      (pipe.isSome = true → Rests evaluation.session.inputs guarded.2.session.inputs) ∧
      guarded.2 = { plain.2 with
        session := { plain.2.session with
          inputs :=
            if pipe.isSome && !plain.1.isOk then plain.2.session.inputs.tail
            else plain.2.session.inputs }
        outputs :=
          plain.2.outputs.dropLast ++ [plain.2.outputs.getLastD [] ++ complaint plain.1] }) := by
  intro plain guarded
  have last := (List.dropLast_concat_getLast stack).symm
  rcases ran : (Catalog.run name arguments).start
    { (fed pipe evaluation).session with out := evaluation.outputs.getLast stack } with
    ⟨result, after⟩
  obtain ⟨interrupted, goesOn⟩ := Catalog.start_run_guarded known bare stays arguments ran
  have plainEnds : plain = (result, left pipe evaluation (result, after)) :=
    start_runCall missing name arguments noInputs noTargets last ran
  rw [plainEnds]
  refine ⟨fun stops => ?_, fun calm => ?_⟩
  · obtain ⟨interrupts, same⟩ := interrupted stops
    have unpiped : pipe = none ∧ evaluation.session.interrupts = true := by
      cases pipe with
      | none => exact ⟨rfl, interrupts⟩
      | some text => exact absurd interrupts Bool.false_ne_true
    exact ⟨unpiped.1, unpiped.2, start_runCall missing _ arguments noInputs noTargets last same⟩
  · have guardedEnds := start_runCall missing _ arguments noInputs noTargets last (goesOn calm)
    obtain ⟨resumes, rests⟩ := runCall_restores missing _ noInputs noTargets guardedEnds
    have state : guarded = _ := guardedEnds
    rw [state]
    refine ⟨rfl, resumes, rests, ?_⟩
    cases pipe <;> cases result <;> simp [left, Except.isOk, Except.toBool]

/-- A command that fails leaves its pipe in front of what the user has typed, and the guarded
command takes it away. -/
theorem runCall_guarded_cat :
    let begun : Evaluation :=
      { session := oneLineTyped, outputs := [["above\n".toList], ["before\n".toList]] }
    let plain := (runCall .stackIndex ["cat".toList, "g".toList] (some "remove f\n".toList)).start
      begun
    let guarded := (runCall .stackIndex ["_cat".toList, "g".toList]
      (some "remove f\n".toList)).start begun
    plain.1.isOk = false ∧ plain.2.session.inputs.length = 2 ∧
    guarded.1 = .ok () ∧ Rests oneLineTyped.inputs guarded.2.session.inputs ∧
    guarded.2.outputs = [["above\n".toList],
      ["before\n".toList, "An exception occurred: File does not exist - g\n".toList]] := by
  intro begun plain guarded
  have known : "cat".toList ∈ Catalog.standard.map Prod.fst := by decide +kernel
  have fails : plain.1 ≠ .error .interrupt := by decide +kernel
  have below : plain.2.outputs = begun.outputs := by decide +kernel
  have complains : complaint plain.1 =
      ["An exception occurred: File does not exist - g\n".toList] := by decide +kernel
  obtain ⟨succeeds, -, rests, state⟩ := (runCall_guarded .stackIndex known (by decide) (by decide)
    ["g".toList] (some "remove f\n".toList) (by rfl : begun.inputs = []) rfl nofun).2 fails
  refine ⟨by decide +kernel, by decide +kernel, succeeds, rests rfl, ?_⟩
  calc guarded.2.outputs
    _ = plain.2.outputs.dropLast ++ [plain.2.outputs.getLastD [] ++ complaint plain.1] :=
      congrArg Evaluation.outputs state
    _ = _ := by
      rw [below, complains]
      rfl

/-- The user interrupts a guarded command, and that is not turned into output. -/
theorem runCall_guard_interrupted :
    ((runCall .stackIndex ["_cat".toList] none).start
      { session :=
          { files := .directory []
            home := "/".toList
            inputs := [{ ready := "x\n".toList, interrupts := true }] }
        outputs := [[]] }).1 = .error .interrupt := by
  decide +kernel

end Evaluator

end MiniShell
