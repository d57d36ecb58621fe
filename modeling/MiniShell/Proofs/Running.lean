/-
This file says how computations run that keep a state and can fail. Reading a
line, acting in a session, evaluating a line and recording its calls are all of
this kind: what follows a step is run from the state that the step leaves, and
not at all if the step fails. The file also says what carries a property of
computations through their loops.

A success or a failure of two steps is taken apart here once for all of them.
Proofs about one of the four then speak of results and states, and not of how
steps are put together.
-/

import MiniShell.Text.Basic

namespace MiniShell

/-! ### Two steps -/

section Steps

variable {Error State Result Other : Type} {first : ExceptT Error (StateM State) Result}
  {next : Result → ExceptT Error (StateM State) Other} {state last : State}

theorem run_map (change : Result → Other) (first : ExceptT Error (StateM State) Result)
    (state : State) :
    (ExceptT.run (change <$> first)).run state =
      (((ExceptT.run first).run state).1.map change, ((ExceptT.run first).run state).2) := by
  rw [ExceptT.run_map, StateT.run_map]
  rfl

/-- Two steps end as the first does if it fails, and else as the second does. -/
theorem run_bind_inv {outcome : Except Error Other}
    (ran : (ExceptT.run (first >>= next)).run state = (outcome, last)) :
    (∃ error, outcome = .error error ∧ (ExceptT.run first).run state = (.error error, last)) ∨
      ∃ result between, (ExceptT.run first).run state = (.ok result, between) ∧
        (ExceptT.run (next result)).run between = (outcome, last) := by
  rw [ExceptT.run_bind, StateT.run_bind] at ran
  rcases ended : (ExceptT.run first).run state with ⟨error | result, between⟩
  · rw [ended] at ran
    obtain ⟨rfl, rfl⟩ := Prod.mk.inj ran
    exact Or.inl ⟨error, rfl, rfl⟩
  · rw [ended] at ran
    exact Or.inr ⟨result, between, rfl, ran⟩

/-- Where two steps fail, the first does, or it leads to where the second does. -/
theorem run_bind_error_inv {error : Error}
    (ran : (ExceptT.run (first >>= next)).run state = (.error error, last)) :
    (ExceptT.run first).run state = (.error error, last) ∨
      ∃ result between, (ExceptT.run first).run state = (.ok result, between) ∧
        (ExceptT.run (next result)).run between = (.error error, last) := by
  rcases run_bind_inv ran with ⟨other, same, failed⟩ | reached
  · obtain rfl := Except.error.inj same
    exact Or.inl failed
  · exact Or.inr reached

/-- Where two steps succeed, the first does. -/
theorem run_bind_ok_inv {other : Other}
    (ran : (ExceptT.run (first >>= next)).run state = (.ok other, last)) :
    ∃ result between, (ExceptT.run first).run state = (.ok result, between) ∧
      (ExceptT.run (next result)).run between = (.ok other, last) := by
  rcases run_bind_inv ran with ⟨error, failed, _⟩ | reached
  · exact absurd failed (by simp)
  · exact reached

end Steps

/-! ### Loops -/

/-- A property of computations that holds of those that do nothing, and of two steps where it
holds of each of them. -/
structure Sequential {Computation : Type → Type} [Monad Computation]
    (Holds : (Result : Type) → Computation Result → Prop) : Prop where
  pure : ∀ {Result : Type} (result : Result), Holds Result (Pure.pure result)
  bind : ∀ {Result Other : Type} {first : Computation Result}
    {next : Result → Computation Other},
    Holds Result first → (∀ result, Holds Other (next result)) → Holds Other (first >>= next)

namespace Sequential

variable {Computation : Type → Type} [Monad Computation]
  {Holds : (Result : Type) → Computation Result → Prop} {Item Result : Type} {items : List Item}

theorem forM (sequential : Sequential Holds) {action : Item → Computation PUnit}
    (each : ∀ item ∈ items, Holds _ (action item)) : Holds _ (items.forM action) := by
  induction items with
  | nil => exact sequential.pure PUnit.unit
  | cons item rest inductionHypothesis =>
    obtain ⟨first, others⟩ := List.forall_mem_cons.mp each
    exact sequential.bind first fun _ => inductionHypothesis others

theorem mapM [LawfulMonad Computation] (sequential : Sequential Holds)
    {action : Item → Computation Result} (each : ∀ item ∈ items, Holds _ (action item)) :
    Holds _ (items.mapM action) := by
  induction items with
  | nil => exact sequential.pure []
  | cons item rest inductionHypothesis =>
    obtain ⟨first, others⟩ := List.forall_mem_cons.mp each
    rw [List.mapM_cons]
    exact sequential.bind first fun _ =>
      sequential.bind (inductionHypothesis others) fun _ => sequential.pure _

theorem foldlM (sequential : Sequential Holds) {action : Result → Item → Computation Result}
    (each : ∀ item ∈ items, ∀ result, Holds _ (action result item)) (start : Result) :
    Holds _ (items.foldlM action start) := by
  induction items generalizing start with
  | nil => exact sequential.pure start
  | cons item rest inductionHypothesis =>
    obtain ⟨first, others⟩ := List.forall_mem_cons.mp each
    rw [List.foldlM_cons]
    exact sequential.bind (first start) (inductionHypothesis others)

end Sequential

end MiniShell
