/-
This file says what the built-in commands are made of. A command writes, looks
at the files and the working directory, changes them, and reads standard input
to its end; it does nothing else to standard input, except that a file which is
removed or moved takes along the streams that read it. An action is stepwise if
it is put together from such steps. What holds of every step then holds of
every stepwise action.

The powers of an action tell which kinds of steps it may take. An action
without the power to change files, for instance, is known to change none.
-/

import MiniShell.Catalog.Entry
import MiniShell.Proofs.Evaluation

namespace MiniShell

/-- A change that does not reach standard input leaves it as it is. -/
theorem inputs_of_blind {change : Session → Session}
    (blind : ∀ session inputs,
      change { session with inputs } = { change session with inputs })
    (session : Session) : (change session).inputs = session.inputs := by
  have same := congrArg Session.inputs (blind session session.inputs)
  exact same

/-! ### Outcomes -/

/-- What holds of every request to stop. -/
theorem Fault.forall_isStop {holds : Fault → Prop} (leave : holds .leave)
    (interrupt : holds .interrupt) (fault : Fault) (stops : fault.isStop = true) :
    holds fault := by
  unfold isStop at stops
  split at stops
  · exact leave
  · exact interrupt
  · exact absurd stops Bool.false_ne_true

/-- An outcome that is among some faults, if it is a fault. -/
def FailsAmong (faults : Fault → Prop) {Result : Type} (outcome : Except Fault Result) : Prop :=
  ∀ fault, outcome = .error fault → faults fault

/-- An outcome that is no request to stop. -/
abbrev Calm {Result : Type} (outcome : Except Fault Result) : Prop :=
  FailsAmong (fun fault => fault.isStop = false) outcome

namespace FailsAmong

variable {faults : Fault → Prop} {Result Other : Type}

theorem ok (result : Result) : FailsAmong faults (.ok result : Except Fault Result) :=
  fun _ equal => absurd equal (by simp)

theorem error {fault : Fault} (among : faults fault) :
    FailsAmong faults (.error fault : Except Fault Result) :=
  fun _ equal => Except.error.inj equal ▸ among

theorem bind {outcome : Except Fault Result} {next : Result → Except Fault Other}
    (first : FailsAmong faults outcome) (onward : ∀ result, FailsAmong faults (next result)) :
    FailsAmong faults (outcome >>= next) := by
  cases outcome with
  | error fault => exact error (first fault rfl)
  | ok result => exact onward result

theorem sequential : Sequential fun Result (outcome : Except Fault Result) =>
    FailsAmong faults outcome := ⟨ok, bind⟩

theorem ite {condition : Prop} [Decidable condition] {outcome other : Except Fault Result}
    (first : FailsAmong faults outcome) (second : FailsAmong faults other) :
    FailsAmong faults (if condition then outcome else other) := by
  split
  · exact first
  · exact second

section Commands

variable (listIndexes : faults .listIndex)
include listIndexes

theorem endLast (textIndexes : faults .textIndex) (lines : List Text) :
    FailsAmong faults (Command.endLast lines) := by
  unfold Command.endLast
  split
  · exact error listIndexes
  · split
    · exact error textIndexes
    · exact ok _
    · exact ok _

theorem uniqueLines (ignoreCase : Bool) (lines : List Text) :
    FailsAmong faults (Command.uniqueLines ignoreCase lines) := by
  unfold Command.uniqueLines
  cases lines.map Command.bare with
  | nil => exact error listIndexes
  | cons first rest => exact ok _

theorem copyOptions (badOptions : ∀ option, faults (.badOption option)) (force recursive : Bool)
    (arguments : List Text) :
    FailsAmong faults (Command.copyOptions force recursive arguments) := by
  induction arguments generalizing force recursive with
  | nil => exact error listIndexes
  | cons argument rest inductionHypothesis =>
    unfold Command.copyOptions
    exact ite (ite (inductionHypothesis _ _) (ite (inductionHypothesis _ _)
      (error (badOptions argument)))) (ok _)

end Commands

section Cutting

variable (numerals : ∀ cause, faults (.numeral cause))
include numerals

theorem numberOf (text : Text) : FailsAmong faults (Command.numberOf text) := by
  unfold Command.numberOf
  split
  · exact ok _
  · exact error (numerals _)

theorem slice (line : Text) (range : Command.Range) :
    FailsAmong faults (Command.slice line range) := by
  have cuts : ∀ first : Int, FailsAmong faults (do
      let last ←
        if range.last = [] then Pure.pure (line.length : Int) else Command.numberOf range.last
      return (line.take (Command.offsetIn line last)).drop (Command.offsetIn line (first - 1))) :=
    fun first => ite (bind (ok _) fun _ => ok _) ((numberOf numerals _).bind fun _ => ok _)
  exact ite (bind (ok _) cuts) ((numberOf numerals _).bind cuts)

theorem cutLine (ranges : List Command.Range) (line : Text) :
    FailsAmong faults (Command.cutLine ranges line) :=
  bind (sequential.mapM fun range _ => slice numerals _ range) fun _ => ok _

variable (ends : faults .tooManyEnds)
include ends

theorem joinRanges (joined : List Command.Range) (current : Command.Range)
    (items : List (List Text)) : FailsAmong faults (Command.joinRanges joined current items) := by
  have twoEnds (parts : List Text) : FailsAmong faults (Command.twoEnds parts) := by
    unfold Command.twoEnds
    split
    · exact ok _
    · exact error ends
  induction items generalizing joined current with
  | nil => exact ok _
  | cons parts rest inductionHypothesis =>
    unfold Command.joinRanges
    refine (numberOf numerals _).bind fun beginning => (numberOf numerals _).bind fun ending => ?_
    refine ite (ite (ok _) ((twoEnds _).bind fun _ => ok _)) (ite ?_ ?_)
    · exact (numberOf numerals _).bind fun _ =>
        ite (inductionHypothesis _ _) (inductionHypothesis _ _)
    · exact (twoEnds _).bind fun _ => inductionHypothesis _ _

theorem ranges (listIndexes : faults .listIndex) (list : Text) :
    FailsAmong faults (Command.ranges list) := by
  unfold Command.ranges
  refine bind (sequential.mapM fun parts _ => (numberOf numerals _).bind fun _ => ok _)
    fun beginnings => ?_
  refine (joinRanges numerals ends _ _ _).bind fun joining => ?_
  cases joining with
  | opened joined => exact ok _
  | closed joined current => exact ite (error listIndexes) (ok _)

end Cutting

end FailsAmong

/-! ### Steps -/

/-- What the steps of an action may do, besides looking at the session. -/
structure Powers where
  /-- Reading standard input. -/
  reads : Bool
  /-- Writing output, and changing files and the working directory. -/
  changes : Bool
  /-- Ending the conversation. -/
  leaves : Bool

/-- An action that is put together from the steps of commands. -/
inductive Stepwise (powers : Powers) : {Result : Type} → Action Result → Prop
  | pure {Result : Type} (result : Result) : Stepwise powers (Pure.pure result)
  | throw {Result : Type} {fault : Fault} (calm : fault.isStop = false) :
      Stepwise powers (MonadExcept.throw fault : Action Result)
  | leave {Result : Type} (may : powers.leaves = true) :
      Stepwise powers (MonadExcept.throw .leave : Action Result)
  | bind {Result Other : Type} {action : Action Result} {next : Result → Action Other}
      (first : Stepwise powers action) (onward : ∀ result, Stepwise powers (next result)) :
      Stepwise powers (action >>= next)
  /-- Faults may be handled, but requests to stop are passed on. -/
  | tryCatch {Result : Type} {action : Action Result} {handle : Fault → Action Result}
      (first : Stepwise powers action)
      (onward : ∀ fault, fault.isStop = false → Stepwise powers (handle fault))
      (passes : ∀ fault, fault.isStop = true → handle fault = MonadExcept.throw fault) :
      Stepwise powers (MonadExcept.tryCatch action handle)
  /-- A look at the session that does not reach standard input. -/
  | get {Result : Type} {next : Session → Action Result}
      (blind : ∀ session inputs, next { session with inputs } = next session)
      (onward : ∀ session, Stepwise powers (next session)) :
      Stepwise powers (MonadState.get >>= next)
  /-- A change that does not reach standard input. -/
  | modify (may : powers.changes = true) {change : Session → Session}
      (blind : ∀ session inputs,
        change { session with inputs } = { change session with inputs }) :
      Stepwise powers (modify change : Action PUnit)
  | removeTree (may : powers.changes = true) (trail : Trail) :
      Stepwise powers (Action.removeTree trail)
  | moveTree (may : powers.changes = true) (source target : Trail) (tree : FileTree) :
      Stepwise powers (Action.moveTree source target tree)
  | inputLines (may : powers.reads = true) : Stepwise powers Action.inputLines

/-- The command that an entry runs, if it is one. -/
def Entry.program? : Entry → Option Program
  | bare program | helpful program => some program
  | overview => none
  | guarded entry => entry.program?

namespace Stepwise

variable {Result : Type} {powers : Powers} {leaves : Bool}

/-- What every step does to a session, a stepwise action does. -/
theorem relates (relation : Session → Session → Prop) (refl : ∀ session, relation session session)
    (trans : ∀ {before between after}, relation before between → relation between after →
      relation before after)
    (modifies : powers.changes = true → ∀ {change : Session → Session},
      (∀ session inputs, change { session with inputs } = { change session with inputs }) →
        ∀ session, relation session (change session))
    (removes : powers.changes = true → ∀ trail session,
      relation session ((Action.removeTree trail).start session).2)
    (moves : powers.changes = true → ∀ source target tree session,
      relation session ((Action.moveTree source target tree).start session).2)
    (reading : powers.reads = true → ∀ session,
      relation session (Action.inputLines.start session).2)
    {action : Action Result} (made : Stepwise powers action) (session : Session) :
    relation session (action.start session).2 := by
  -- The steps that change a session are covered one by one; joining them needs transitivity.
  induction made generalizing session with
  | pure result => exact refl session
  | throw calm => exact refl session
  | leave may => exact refl session
  | bind _ _ first onward =>
    rw [Action.start_bind]
    have before := first session
    split
    · next result between ended =>
      rw [ended] at before
      exact trans before (onward result between)
    · next fault between ended =>
      rw [ended] at before
      exact before
  | tryCatch _ _ passes first onward =>
    rw [Action.start_tryCatch]
    have before := first session
    split
    · next result between ended =>
      rw [ended] at before
      exact before
    · next fault between ended =>
      rw [ended] at before
      cases stops : fault.isStop with
      | false => exact trans before (onward fault stops between)
      | true =>
        rw [passes fault stops]
        exact before
  | get _ _ onward =>
    rw [Action.start_bind_ok (Action.start_get _)]
    exact onward session session
  | modify may blind => exact modifies may blind session
  | removeTree may trail => exact removes may trail session
  | moveTree may source target tree => exact moves may source target tree session
  | inputLines may => exact reading may session

/-- An action that may neither read standard input nor change anything leaves the session as it
is. -/
theorem looks {action : Action Result} (made : Stepwise ⟨false, false, leaves⟩ action)
    (session : Session) : (action.start session).2 = session := by
  refine (relates Eq (fun _ => rfl) Eq.trans ?_ ?_ ?_ ?_ made session).symm
  all_goals exact fun may => absurd may Bool.false_ne_true

theorem after_eq {action : Action Result} (made : Stepwise ⟨false, false, leaves⟩ action)
    {session after : Session} {result : Except Fault Result}
    (ended : action.start session = (result, after)) : after = session := by
  rw [← made.looks session, ended]

end Stepwise

end MiniShell
