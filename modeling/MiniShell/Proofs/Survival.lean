/-
This file says which command lines a conversation survives. Whatever the line
is, its turn prints the output or one report, or it ends in the fault of the
line. In the last case the fault is a request to stop or one of the three
perils, and a session does not survive a peril.

For scripts the perils can be told from the text: they are those of the
commands that are called without a guard, and refusals where something is
redirected. A script without perils is survived in every session.
-/

import MiniShell.Proofs.Meaning
import MiniShell.Proofs.Perils
import MiniShell.Shell.Conversation

namespace MiniShell

/-! ### Faults that a session does not survive -/

namespace Fault

/-- A fault without a label is a request to stop or a peril. -/
theorem escapes_of_isWithin {perils : List Peril} {fault : Fault}
    (within : fault.isWithin perils = true) (unlabelled : fault.label? = none) :
    fault.isStop = true ∨ ∃ peril ∈ perils, fault.peril? = some peril := by
  simp only [isWithin, unlabelled, Option.isSome_none, Bool.false_or, Bool.or_eq_true,
    Option.any_eq_true, List.contains_iff_mem] at within
  rcases within with stops | ⟨peril, isPeril, member⟩
  · exact Or.inl stops
  · exact Or.inr ⟨peril, member, isPeril⟩

theorem unlabelled_of_escapes {fault : Fault}
    (escapes : (fault.isStop || fault.peril?.isSome) = true) : fault.label? = none := by
  rcases Bool.or_eq_true_iff.mp escapes with stops | isPeril
  · exact unlabelled_of_isStop stops
  · obtain ⟨peril, isPeril⟩ := Option.isSome_iff_exists.mp isPeril
    exact (unlabelled_of_peril isPeril).1

theorem labelled_of_isWithin {perils : List Peril} {fault : Fault}
    (within : fault.isWithin perils = true)
    (stays : ¬ (fault.isStop || fault.peril?.isSome) = true) :
    ∃ label, fault.label? = some label := by
  rw [← Option.ne_none_iff_exists']
  intro unlabelled
  rcases escapes_of_isWithin within unlabelled with stops | ⟨peril, _, isPeril⟩
  · exact stays (by rw [stops, Bool.true_or])
  · exact stays (by rw [isPeril, Option.isSome_some, Bool.or_true])

end Fault

/-! ### The catalog -/

/-- The perils of an entry. A guard leaves none. -/
def Entry.perils : Entry → List Peril
  | bare program | helpful program => program.perils
  | overview | guarded _ => []

/-- The perils of a name. A name that is not in the catalog is reported. -/
def Catalog.perils (name : Text) : List Peril :=
  match standard.lookup name with
  | some entry => entry.perils
  | none => []

/-- Behind a guard only a request to stop is left. -/
theorem EndsWithin.guard {perils caught : List Peril} {action : Action Unit}
    (within : EndsWithin caught action) : EndsWithin perils (Entry.guard action) := by
  refine within.tryCatch fun fault _ => ?_
  split
  · next stops => exact throw (by simp [Fault.isWithin, stops])
  · exact modify _

/-- On an output of its own, an entry ends within its perils. -/
theorem Entry.isWithin_perils (entry : Entry) (arguments : List Text) {session after : Session}
    {fault : Fault} (blank : session.out = [])
    (ended : (entry.run arguments).start session = (.error fault, after)) :
    fault.isWithin entry.perils = true := by
  cases entry with
  | bare program => exact program.isWithin_perils arguments blank ended
  | helpful program =>
    unfold run at ended
    split at ended
    · exact EndsWithin.modify _ session fault after ended
    · exact program.isWithin_perils arguments blank ended
  | overview => exact EndsWithin.ite (.modify _) (.throw rfl) session fault after ended
  | guarded entry =>
    have made : Composed ⟨true, true, true⟩ Peril.all (entry.run arguments) :=
      .entry (fun _ => rfl) arguments
    exact made.within.guard session fault after ended

theorem Catalog.isWithin_perils (name : Text) (arguments : List Text) {session after : Session}
    {fault : Fault} (blank : session.out = [])
    (ended : (run name arguments).start session = (.error fault, after)) :
    fault.isWithin (perils name) = true := by
  unfold run at ended
  unfold perils
  cases found : standard.lookup name with
  | some entry =>
    rw [found] at ended
    exact entry.isWithin_perils arguments blank ended
  | none =>
    rw [found] at ended
    exact EndsWithin.throw rfl session fault after ended

/-- An input that is missing is reported; another refusal is not. -/
theorem EndsWithin.openInput {perils : List Peril} (refuses : .refusal ∈ perils) (name : Text) :
    EndsWithin perils (Evaluator.openInput name) := by
  refine ((openFile refuses name).rephrase fun fault within => ?_).bind fun _ => modify _
  split
  · rfl
  · exact within

/-! ### Evaluating lines -/

namespace Evaluator

variable {Result Other : Type}

/-- Every fault that an evaluator ends in is reported, asks to stop, or is a peril. -/
def Classified (evaluator : Evaluator Result) : Prop :=
  ∀ evaluation fault after, evaluator.start evaluation = (.error fault, after) →
    fault.isWithin Peril.all = true

namespace Classified

theorem pure (result : Result) : (Pure.pure result : Evaluator Result).Classified :=
  fun _ _ _ ended => absurd (congrArg Prod.fst ended) (by simp)

theorem throw {fault : Fault} (within : fault.isWithin Peril.all = true) :
    (throw fault : Evaluator Result).Classified := by
  intro evaluation other after ended
  obtain rfl := Except.error.inj (congrArg Prod.fst ended)
  exact within

theorem bind {evaluator : Evaluator Result} {next : Result → Evaluator Other}
    (first : evaluator.Classified) (onward : ∀ result, (next result).Classified) :
    (evaluator >>= next).Classified := by
  intro evaluation fault last ended
  rcases run_bind_error_inv ended with failed | ⟨result, between, _, failed⟩
  · exact first evaluation fault last failed
  · exact onward result between fault last failed

theorem get {next : Evaluation → Evaluator Result}
    (onward : ∀ evaluation, (next evaluation).Classified) :
    (MonadState.get >>= next).Classified :=
  fun evaluation => onward evaluation evaluation

theorem set (next : Evaluation) : (MonadStateOf.set next : Evaluator PUnit).Classified :=
  fun _ _ _ ended => absurd (congrArg Prod.fst ended) (by simp)

theorem modify (change : Evaluation → Evaluation) : (modify change : Evaluator PUnit).Classified :=
  fun _ _ _ ended => absurd (congrArg Prod.fst ended) (by simp)

theorem act {action : Action Result} (within : EndsWithin Peril.all action) :
    (act action).Classified := by
  intro evaluation fault after ended
  rw [start_act] at ended
  exact within evaluation.session fault _ (Prod.ext (congrArg Prod.fst ended :) rfl)

end Classified

/-! ### Calls -/

theorem popOutput_classified {missing : Fault} (within : missing.isWithin Peril.all = true) :
    (popOutput missing).Classified := by
  refine .get fun evaluation => ?_
  split
  · exact .throw within
  · exact .bind (.set _) fun _ => .pure _

theorem redirectInput_classified (pipe : Option Text) : (redirectInput pipe).Classified := by
  refine .get fun evaluation => ?_
  split
  · exact .throw rfl
  · exact .bind (.act (.modify _)) fun _ => .pure _
  · next name _ =>
    have opens := EndsWithin.openInput (Peril.mem_all _) name
    exact .bind (.set _) fun _ => .bind (.act opens) fun _ => .pure _
  · exact .pure _

theorem redirectOutput_classified {missing : Fault} (within : missing.isWithin Peril.all = true) :
    (redirectOutput missing).Classified := by
  have refuses := Peril.mem_all .refusal
  have writes (target : Target) : (do
      let output ← popOutput missing
      Evaluator.act (Action.appendFile target.name output.flatten)).Classified :=
    (popOutput_classified within).bind fun _ => .act (.appendFile refuses _ _)
  refine .get fun evaluation => ?_
  split
  · exact .pure _
  · next target _ =>
    refine .bind (.set _) fun _ => ?_
    split
    · exact .bind (.act (.appendFile refuses _ _)) fun _ => writes target
    · exact .bind (.act (.writeFile refuses _ _)) fun _ => writes target

/-- Running words ends in no fault but those that are reported, ask to stop or are perils. -/
theorem runWords_classified {missing : Fault} (within : missing.isWithin Peril.all = true)
    (words : List Text) : (runWords missing words).Classified := by
  refine .get fun evaluation => ?_
  split
  · exact .throw within
  · split
    · exact .throw rfl
    · next output _ _ name arguments =>
      intro own fault after ended
      rw [start_bind, start_act, Action.start_collect] at ended
      -- The fault of the command is caught with its output, and thrown again behind it.
      rcases ran : (Catalog.run name arguments).start { own.session with out := output } with
        ⟨other | _, last⟩
      · rw [ran] at ended
        obtain rfl := Except.error.inj (congrArg Prod.fst ended)
        exact EndsWithin.catalog name arguments _ _ _ ran
      · rw [ran] at ended
        cases ended

theorem runCall_classified {missing : Fault} (within : missing.isWithin Peril.all = true)
    (words : List Text) (pipe : Option Text) : (runCall missing words pipe).Classified := by
  refine .get fun evaluation => ?_
  split
  · exact .throw rfl
  · refine (redirectInput_classified pipe).bind fun redirected => ?_
    refine (runWords_classified within words).bind fun _ => ?_
    refine (redirectOutput_classified within).bind fun _ => ?_
    split
    · exact .act (.modify _)
    · exact .pure _

theorem endCall_classified (piped : List Text) : (endCall piped).Classified :=
  .get fun _ => .bind (.set _) fun _ => runCall_classified rfl _ _

/-! ### Words and trees -/

variable {substitute : Substitute}

theorem argumentWords_within (within : ∀ line, EndsWithin Peril.all (substitute line))
    (pieces : List Tree) : EndsWithin Peril.all (argumentWords substitute pieces) := by
  refine argumentWords_closed substitute EndsWithin.sequential within
    (fun words position => ?_) pieces
  refine (EndsWithin.expand _).bind fun names => ?_
  split
  · exact .throw rfl
  · exact .pure _

/-- The evaluation of every tree ends within all perils, if commands in back quotes do. -/
theorem visit_classified (within : ∀ line, EndsWithin Peril.all (substitute line)) (tree : Tree) :
    (visit substitute tree).Classified :=
  visit_closed substitute ⟨.pure, .bind⟩ (.modify _) endCall_classified (popOutput_classified rfl)
    (fun _ => .modify _) (fun pieces => .act (argumentWords_within within pieces))
    (fun _ => .modify _) tree

end Evaluator

theorem outputOfLine_within {substitute : Evaluator.Substitute}
    (within : ∀ line, EndsWithin Peril.all (substitute line)) (line : Text) :
    EndsWithin Peril.all (outputOfLine substitute line) := by
  intro session fault after ended
  rcases ran : evaluateLine substitute line session with ⟨other | _, last⟩
  all_goals
    have outcome : (outputOfLine substitute line).start session = _ :=
      congrArg (fun run => (run.1.map fun _ => run.2.outputs.flatten, run.2.session)) ran
    rw [ended] at outcome
  · obtain rfl := Except.error.inj (congrArg Prod.fst outcome)
    exact Evaluator.visit_classified within _ _ _ _ ran
  · cases outcome

/-- The faults of a command line are those that are reported, the requests to stop and the
perils. -/
theorem runLine_within (line : Text) : EndsWithin Peril.all (runLine line) :=
  runLine_closed (EndsWithin Peril.all) (.pure _) (fun _ => outputOfLine_within) line

/-! ### The perils of a script -/

def Invocation.perils (call : Invocation) : List Peril := Catalog.perils call.name.text

/-- The perils of a call with its redirections. A file that is redirected may be refused. -/
def Stage.perils (stage : Stage) : List Peril :=
  stage.call.perils ++ if stage.input.isSome || stage.output.isSome then [.refusal] else []

/-- The perils that can be told from the text of a script. -/
def Script.perils (script : Script) : List Peril :=
  script.pipelines.flatMap fun pipeline => pipeline.stages.flatMap Stage.perils

theorem Invocation.endsWithin (call : Invocation) : EndsWithin call.perils call.run := by
  intro session fault after ended
  rw [run, Action.start_bind, Action.start_collect] at ended
  let arguments := call.arguments.map PlainWord.text
  rcases ran : (Catalog.run call.name.text arguments).start { session with out := [] } with
    ⟨other | _, last⟩
  · rw [ran] at ended
    obtain rfl := Except.error.inj (congrArg Prod.fst ended)
    exact Catalog.isWithin_perils _ _ rfl ran
  · rw [ran] at ended
    cases ended

/-- A stage ends in a peril of its command, or in a refusal where it is redirected. -/
theorem Stage.endsWithin (stage : Stage) (piped : List Text) :
    EndsWithin stage.perils (stage.run piped) := by
  have feeds : EndsWithin stage.perils (stage.feed piped) := by
    unfold feed
    split
    · next file input =>
      have refuses : .refusal ∈ stage.perils := by simp [perils, input]
      exact (EndsWithin.openInput refuses _).bind fun _ => .pure _
    · exact .ite (.pure _) (.bind (.modify _) fun _ => .pure _)
  have delivers (lines : List Text) : EndsWithin stage.perils (stage.deliver lines) := by
    unfold deliver
    split
    · exact .pure _
    · next destination output =>
      have refuses : .refusal ∈ stage.perils := by simp [perils, output]
      refine .bind (.ite ?_ ?_) fun _ => .pure _
      · exact .appendFile refuses _ _
      · exact .writeFile refuses _ _
  have runs : EndsWithin stage.perils stage.call.run :=
    stage.call.endsWithin.mono fun _ member => List.mem_append_left _ member
  refine feeds.bind fun redirected => runs.bind fun lines => ?_
  refine (delivers lines).bind fun delivered => ?_
  exact .ite (.bind (.modify _) fun _ => .pure _) (.pure _)

/-- A script ends within its perils. -/
theorem Script.endsWithin (script : Script) : EndsWithin script.perils script.run := by
  refine .bind (EndsWithin.sequential.mapM fun pipeline member => ?_) fun _ => .pure _
  refine EndsWithin.sequential.foldlM (fun stage stageMember piped => ?_) _
  refine (stage.endsWithin piped).mono fun peril occurs => ?_
  exact List.mem_flatMap.mpr ⟨pipeline, member, List.mem_flatMap.mpr ⟨stage, stageMember, occurs⟩⟩

/-! ### Turns of a conversation -/

/-- The session with more text printed. -/
def Session.printing (session : Session) (text : Text) : Session :=
  { session with printed := session.printed ++ text }

namespace Shell

/-- A turn prints the output of its line or the report of its fault, or it ends in the fault. -/
theorem start_runAndPrint (line : Text) (session : Session) :
    (runAndPrint line).start session =
      match (runLine line).start session with
      | (.ok output, after) => (.ok ⟨⟩, after.printing output.flatten)
      | (.error fault, after) =>
        match fault.label? with
        | some label => (.ok ⟨⟩, after.printing (report label fault.message))
        | none => (.error fault, after) := by
  rw [runAndPrint, Action.start_tryCatch, Action.start_bind]
  rcases (runLine line).start session with ⟨fault | output, after⟩
  · dsimp only
    cases fault.label? with
    | some label => rfl
    | none => rfl
  · rfl

/-- A fault that ends a turn is the fault of its line, and has no label. -/
theorem runLine_of_runAndPrint {line : Text} {session : Session} {fault : Fault}
    (escaped : ((runAndPrint line).start session).1 = .error fault) :
    (∃ after, (runLine line).start session = (.error fault, after)) ∧ fault.label? = none := by
  rw [start_runAndPrint] at escaped
  rcases ended : (runLine line).start session with ⟨other | output, after⟩
  · rw [ended] at escaped
    dsimp only at escaped
    cases labelled : other.label? with
    | some label =>
      rw [labelled] at escaped
      cases escaped
    | none =>
      rw [labelled] at escaped
      obtain rfl := Except.error.inj escaped
      exact ⟨⟨after, rfl⟩, labelled⟩
  · rw [ended] at escaped
    cases escaped

/-- A turn of a conversation prints the output of its line where there is one. Otherwise it ends in
the fault of the line if that is a request to stop or a peril, and prints one report of it if not.
So what a session does not survive are the perils, and where the line is that of a script, they are
among those that can be told from the text. -/
theorem runAndPrint_survives (line : Text) (session : Session) :
    let ran := (runLine line).start session
    let turn := (runAndPrint line).start session
    (∀ output, ran.1 = .ok output → turn = (.ok ⟨⟩, ran.2.printing output.flatten)) ∧
    (∀ fault, ran.1 = .error fault →
      if fault.isStop || fault.peril?.isSome then turn = (.error fault, ran.2)
      else ∃ label, fault.label? = some label ∧
        turn = (.ok ⟨⟩, ran.2.printing (report label fault.message))) ∧
    ∀ script : Script, line = script.render → ∀ fault, turn.1 = .error fault →
      fault.isStop = true ∨ ∃ peril ∈ script.perils, fault.peril? = some peril := by
  intro ran turn
  have turned : turn = _ := start_runAndPrint line session
  refine ⟨fun output gave => ?_, fun fault failed => ?_, ?_⟩
  · have ended : (runLine line).start session = (.ok output, ran.2) := Prod.ext gave rfl
    rw [turned, ended]
  · have ended : (runLine line).start session = (.error fault, ran.2) := Prod.ext failed rfl
    rw [ended] at turned
    dsimp only at turned
    split
    · next escapes => rw [turned, Fault.unlabelled_of_escapes escapes]
    · next stays =>
      obtain ⟨label, labelled⟩ :=
        Fault.labelled_of_isWithin (runLine_within line session fault ran.2 ended) stays
      exact ⟨label, labelled, by rw [turned, labelled]⟩
  · rintro script rfl fault escaped
    obtain ⟨⟨after, ended⟩, unlabelled⟩ := runLine_of_runAndPrint escaped
    rw [show runLine script.render = script.run from outputOfLine_render (interpret 0) script]
      at ended
    exact Fault.escapes_of_isWithin (script.endsWithin session fault after ended) unlabelled

/-- A script that looks for repeated lines in the file `e`. -/
def uniqScript : Script where
  first := ⟨none, ⟨.ofText "uniq".toList rfl, [.ofText ['e'] rfl]⟩, [], none⟩
  later := []

/-- A line with output, one with a fault that is reported, and one that the session does not
survive. -/
theorem runAndPrint_survives_turns :
    let ran (line : String) := (runLine line.toList).start (mishapSession .root)
    let turn (line : String) := (runAndPrint line.toList).start (mishapSession .root)
    ((ran "cat f").1 = .ok [['a', '\n']] ∧
      turn "cat f" = (.ok ⟨⟩, (ran "cat f").2.printing ['a', '\n'])) ∧
    ((ran "cat g").1 = .error (.fileMissing ['g']) ∧
      ∃ label, Fault.label? (.fileMissing ['g']) = some label ∧
        turn "cat g" = (.ok ⟨⟩, (ran "cat g").2.printing
          (report label (Fault.message (.fileMissing ['g']))))) ∧
    "uniq e".toList = uniqScript.render ∧ (turn "uniq e").1 = .error .listIndex ∧
      ∃ peril ∈ uniqScript.perils, Fault.peril? .listIndex = some peril := by
  have given : ((runLine "cat f".toList).start (mishapSession .root)).1 = .ok [['a', '\n']] := by
    decide +kernel
  have missing : ((runLine "cat g".toList).start (mishapSession .root)).1 =
      .error (.fileMissing ['g']) := by
    decide +kernel
  have rendered : "uniq e".toList = uniqScript.render := by decide +kernel
  have escaped : ((runAndPrint "uniq e".toList).start (mishapSession .root)).1 =
      .error .listIndex := by
    decide +kernel
  have printed := (runAndPrint_survives "cat f".toList (mishapSession .root)).1 _ given
  have reported := (runAndPrint_survives "cat g".toList (mishapSession .root)).2.1 _ missing
  have told := (runAndPrint_survives "uniq e".toList (mishapSession .root)).2.2 uniqScript rendered
    _ escaped
  rw [if_neg (by decide)] at reported
  exact ⟨⟨given, printed⟩, ⟨missing, reported⟩, rendered, escaped, told.resolve_left (by decide)⟩

/-- A session survives neither the search for repeated lines in an empty file, nor a search for what
is no pattern, nor the reading of a directory. None of them is a request to stop. -/
theorem runAndPrint_perilous :
    let turn (line : String) := ((runAndPrint line.toList).start (mishapSession .root)).1
    (turn "uniq e" = .error .listIndex ∧ Fault.isStop .listIndex = false) ∧
    perilOf (turn "grep (") = some .pattern ∧ perilOf (turn "cat d") = some .refusal := by
  decide +kernel

end Shell

end MiniShell
