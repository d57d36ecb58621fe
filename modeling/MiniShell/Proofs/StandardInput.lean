/-
This file shows how far actions see into standard input. Standard input is a
row of streams: the first is in use, and every redirection puts another one in
front. An action sees at most a number of streams if it ends alike and does the
same to all else whatever streams lie behind these. The built-in commands see
one stream at most, and looking for the files that a wildcard stands for sees
none.

Removing and moving files changes all streams that read them, but each stream
by itself, so what lies behind stays out of sight.
-/

import MiniShell.Proofs.Composition

namespace MiniShell

/-- The session with the first streams of standard input only. -/
def Session.front (depth : Nat) (session : Session) : Session :=
  { session with inputs := session.inputs.take depth }

/-- What can be seen of the end of an action. -/
def seen (depth : Nat) {Result : Type} (outcome : Except Fault Result × Session) :
    Except Fault Result × Session :=
  (outcome.1, outcome.2.front depth)

/-- An action that sees at most the first streams of standard input. -/
def Sees (depth : Nat) {Result : Type} (action : Action Result) : Prop :=
  ∀ session, seen depth (action.start session) = seen depth (action.start (session.front depth))

/-- Ends that look the same are both results or both faults. -/
theorem seen_inv {depth : Nat} {Result : Type} {outcome other : Except Fault Result × Session}
    (same : seen depth outcome = seen depth other) :
    (∃ result after otherAfter, outcome = (.ok result, after) ∧ other = (.ok result, otherAfter) ∧
      after.front depth = otherAfter.front depth) ∨
    ∃ fault after otherAfter, outcome = (.error fault, after) ∧
      other = (.error fault, otherAfter) ∧ after.front depth = otherAfter.front depth := by
  obtain ⟨result, after⟩ := outcome
  obtain ⟨otherResult, otherAfter⟩ := other
  obtain ⟨rfl, sameAfter⟩ := Prod.mk.inj same
  cases result with
  | ok result => exact Or.inl ⟨result, after, otherAfter, rfl, rfl, sameAfter⟩
  | error fault => exact Or.inr ⟨fault, after, otherAfter, rfl, rfl, sameAfter⟩

theorem front_front (depth : Nat) (session : Session) :
    (session.front depth).front depth = session.front depth := by
  simp [Session.front, List.take_take]

namespace Sees

variable {Result Other : Type} {depth : Nat}

/-! ### Putting actions together -/

theorem pure (result : Result) : Sees depth (Pure.pure result : Action Result) := by
  intro session
  simp [seen, front_front]

theorem throw (fault : Fault) : Sees depth (throw fault : Action Result) := by
  intro session
  simp [seen, front_front]

/-- In two sessions with the same first streams the action ends alike. -/
theorem alike {action : Action Result} (sees : Sees depth action) {session other : Session}
    (same : session.front depth = other.front depth) :
    seen depth (action.start session) = seen depth (action.start other) := by
  rw [sees session, same, ← sees other]

theorem bind {action : Action Result} {next : Result → Action Other} (sees : Sees depth action)
    (onward : ∀ result, Sees depth (next result)) : Sees depth (action >>= next) := by
  intro session
  rw [Action.start_bind, Action.start_bind]
  rcases seen_inv (sees session) with
    ⟨result, after, other, ended, otherEnded, same⟩ | ⟨fault, after, other, ended, otherEnded, same⟩
  · rw [ended, otherEnded]
    exact (onward result).alike same
  · rw [ended, otherEnded]
    exact Prod.ext rfl same

theorem sequential : Sequential fun Result (action : Action Result) =>
    Sees depth action := ⟨pure, bind⟩

/-- What comes after a look at the session that does not reach standard input. -/
theorem get {next : Session → Action Result} (same : ∀ session : Session,
    next (session.front depth) = next session) (onward : ∀ session, Sees depth (next session)) :
    Sees depth (MonadState.get >>= next) := by
  intro session
  rw [Action.start_bind_ok (Action.start_get _), Action.start_bind_ok (Action.start_get _), same]
  exact onward session session

theorem modify {change : Session → Session}
    (same : ∀ session, (change session).front depth = (change (session.front depth)).front depth) :
    Sees depth (modify change : Action PUnit) := by
  intro session
  rw [Action.start_modify, Action.start_modify]
  exact Prod.ext rfl (same session)

theorem tryCatch {action : Action Result} {handle : Fault → Action Result}
    (sees : Sees depth action) (onward : ∀ fault, Sees depth (handle fault)) :
    Sees depth (tryCatch action handle) := by
  intro session
  rw [Action.start_tryCatch, Action.start_tryCatch]
  rcases seen_inv (sees session) with
    ⟨result, after, other, ended, otherEnded, same⟩ | ⟨fault, after, other, ended, otherEnded, same⟩
  · rw [ended, otherEnded]
    exact Prod.ext rfl same
  · rw [ended, otherEnded]
    exact (onward fault).alike same

/-! ### The steps of commands -/

theorem removeTree (trail : Trail) : Sees depth (Action.removeTree trail) :=
  modify fun _ => by simp [Session.front, List.map_take, List.take_take]

theorem moveTree (source target : Trail) (tree : FileTree) :
    Sees depth (Action.moveTree source target tree) :=
  (removeTree target).bind fun _ => modify fun _ => by
    simp [Session.front, List.map_take, List.take_take]

theorem currentInput : Sees 1 Action.currentInput := by
  intro session
  have same : (session.front 1).inputs.headD { ready := [] } =
      session.inputs.headD { ready := [] } := by
    cases inputs : session.inputs <;> simp [Session.front, inputs]
  show seen 1 (.ok (session.inputs.headD { ready := [] }), session) =
    seen 1 (.ok ((session.front 1).inputs.headD { ready := [] }), session.front 1)
  rw [same, seen, seen, front_front]

theorem setInput (stream : Stream) : Sees 1 (Action.setInput stream) :=
  modify fun _ => by simp [Session.front]

theorem fillInput : Sees 1 Action.fillInput := by
  refine currentInput.bind fun stream => get (fun _ => rfl) fun session => ?_
  refine (setInput _).bind fun _ => ?_
  split
  · exact pure _
  · exact throw _

theorem inputLines : Sees 1 Action.inputLines := by
  refine fillInput.bind fun stream => (setInput _).bind fun _ => ?_
  split
  · exact throw _
  · split
    · exact throw _
    · exact pure _

/-- An action that is put together from the steps of commands sees no stream of standard input, or
only the one in use if it reads. -/
theorem stepwise {powers : Powers} {action : Action Result} (made : Stepwise powers action)
    (near : powers.reads = true → depth = 1) : Sees depth action := by
  induction made with
  | pure result => exact pure result
  | throw calm => exact throw _
  | leave may => exact throw _
  | bind _ _ first onward => exact first.bind onward
  | tryCatch _ _ passes first onward =>
    refine first.tryCatch fun fault => ?_
    cases stops : fault.isStop with
    | false => exact onward fault stops
    | true =>
      rw [passes fault stops]
      exact throw fault
  | get blind _ onward => exact get (fun session => blind session _) onward
  | modify may blind =>
    refine modify fun session => ?_
    rw [Session.front, Session.front, Session.front, blind session (session.inputs.take depth)]
    simp only [List.take_take, Nat.min_self, inputs_of_blind blind]
  | removeTree may trail => exact removeTree trail
  | moveTree may source target tree => exact moveTree source target tree
  | inputLines may =>
    rw [near may]
    exact inputLines

theorem unread {action : Action Result} (made : Stepwise ⟨false, true, true⟩ action) :
    Sees depth action :=
  stepwise made nofun

theorem writeFile (path text : Text) : Sees depth (Action.writeFile path text) :=
  unread (.writeFile path text)

theorem appendFile (path text : Text) : Sees depth (Action.appendFile path text) :=
  unread (.appendFile path text)

theorem expand (word : Text) : Sees depth (Action.expand word) := unread (.expand word)

/-- Every built-in command sees at most the stream in use. -/
theorem catalog (name : Text) (arguments : List Text) : Sees 1 (Catalog.run name arguments) :=
  stepwise (.catalog name arguments) fun _ => rfl

end Sees

end MiniShell
