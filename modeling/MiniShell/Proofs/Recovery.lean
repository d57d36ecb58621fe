/-
This file is about readings that may break off. Where no alternative of a rule
fits, the rule recovers: it drops tokens as error leaves up to one that can
follow it, and reading goes on in the rule outside. What an action can come to
is described for both ways out.

Nothing is assumed about reports here, unlike in the proofs about readings that
succeed. An action is given two conditions, one on the cursor where it comes to
its end and one on the cursor where it breaks off, and these conditions are
passed along as actions follow each other.
-/

import MiniShell.Proofs.Completeness

namespace MiniShell

open Cursor (Took)

/-! ### What recovery does to a cursor -/

namespace Cursor

theorem pass_recovering_took {cursor : Cursor} {token : Token} {rest : List Token}
    (recovering : cursor.recovering = true) (ahead : cursor.rest = token :: rest) :
    Took [token] [.error token] cursor cursor.pass := by
  have passed : cursor.pass.rest = rest ∧
      cursor.pass.children = cursor.children ++ [.error token] := by
    unfold Cursor.pass Cursor.addLeaf
    rw [ahead]
    simp [recovering, Cursor.look]
  exact ⟨by rw [passed.1, ahead]; rfl, passed.2⟩

/-- Tokens that are passed during recovery become error leaves. -/
theorem passMany_took (count : Nat) {cursor : Cursor} (recovering : cursor.recovering = true)
    (enough : count ≤ cursor.rest.length) :
    ∃ dropped : List Token, Took dropped (dropped.map .error) cursor (passMany count cursor) := by
  induction count generalizing cursor with
  | zero => exact ⟨[], Took.nothing cursor⟩
  | succ count inductionHypothesis =>
    cases ahead : cursor.rest with
    | nil => simp [ahead] at enough
    | cons token rest =>
      have took := pass_recovering_took recovering ahead
      have length := took.length_le
      rw [List.length_singleton] at length
      obtain ⟨dropped, more⟩ := inductionHypothesis
        ((Recogniser.pass_recovering cursor).trans recovering) (by omega)
      exact ⟨token :: dropped, took.trans more⟩

theorem skipUntil_took (kinds : List Kind) {cursor : Cursor}
    (recovering : cursor.recovering = true) :
    ∃ dropped : List Token, Took dropped (dropped.map .error) cursor (cursor.skipUntil kinds) :=
  passMany_took _ recovering (List.takeWhile_sublist _).length_le

/-- Recovery drops tokens and does nothing else to what has been read. -/
theorem recover_took (sites : List Site) (stumble : Stumble) {cursor : Cursor}
    (present : cursor.rest ≠ []) :
    ∃ dropped : List Token,
      Took dropped (dropped.map .error) cursor (cursor.recover sites stumble) := by
  unfold Cursor.recover
  extract_lets looked complaining reported settled
  obtain ⟨recovering, toReported⟩ : reported.recovering = true ∧ Took [] [] cursor reported := by
    unfold reported
    split
    · rename_i already
      exact ⟨already, Took.nothing cursor⟩
    · have toLooked : Took [] [] cursor looked := by
        unfold looked
        split
        · exact Took.look _ cursor
        · exact Took.nothing cursor
      exact ⟨rfl, toLooked.rest, toLooked.children⟩
  -- The token is dropped where reading has stumbled over it before at the same place.
  obtain ⟨first, settling, toSettled⟩ : ∃ first : List Token, settled.recovering = true ∧
      Took first (first.map .error) reported settled := by
    unfold settled
    split
    · have stillPresent : reported.rest ≠ [] := by
        rw [toReported.same.1]
        exact present
      obtain ⟨token, rest, ahead⟩ := List.exists_cons_of_ne_nil stillPresent
      exact ⟨[token], (Recogniser.pass_recovering reported).trans recovering,
        pass_recovering_took recovering ahead⟩
    · exact ⟨[], recovering, Took.nothing reported⟩
  obtain ⟨more, skipped⟩ := skipUntil_took (resumption sites)
    (show { settled with
      stumbledAt := some settled.passed
      stumbles := stumble.place :: settled.stumbles }.recovering = true from settling)
  refine ⟨first ++ more, ?_⟩
  rw [List.map_append]
  have moved : Took more (more.map .error) settled _ := ⟨skipped.rest, skipped.children⟩
  exact toReported.trans (toSettled.trans moved)

end Cursor

/-! ### Every way an action can go -/

namespace Recogniser

variable {Result Other : Type}

/-- Where an action leads from a cursor, whether it comes to its end or breaks off. -/
def Yields (action : Recogniser Result) (cursor : Cursor) (done : Result → Cursor → Prop)
    (broken : Cursor → Prop) : Prop :=
  match action.start cursor with
  | (.ok result, after) => done result after
  | (.error _, after) => broken after

namespace Yields

variable {cursor : Cursor} {broken : Cursor → Prop}

theorem pure {result : Result} {done : Result → Cursor → Prop} (holds : done result cursor) :
    (Pure.pure result : Recogniser Result).Yields cursor done broken := holds

theorem weaken {action : Recogniser Result} {done other : Result → Cursor → Prop}
    {otherBroken : Cursor → Prop} (yields : action.Yields cursor done broken)
    (implies : ∀ result after, done result after → other result after)
    (impliesBroken : ∀ after, broken after → otherBroken after) :
    action.Yields cursor other otherBroken := by
  unfold Yields at yields ⊢
  rcases outcome : action.start cursor with ⟨stumble | result, after⟩
  · rw [outcome] at yields
    exact impliesBroken after yields
  · rw [outcome] at yields
    exact implies result after yields

/-- A change of the cursor. -/
theorem modify {change : Cursor → Cursor} {next : PUnit → Recogniser Other}
    {done : Other → Cursor → Prop} (yields : (next ⟨⟩).Yields (change cursor) done broken) :
    ((modify change : Recogniser PUnit) >>= next).Yields cursor done broken := by
  unfold Yields at yields ⊢
  rw [start_bind, start_modify]
  exact yields

/-- An action that follows a forecast: it looks ahead and goes on, or breaks off. -/
theorem follow {Choice : Type} {place : Place} {forecast : List Kind → Forecast Choice}
    {next : Choice → Recogniser Other} {done : Other → Cursor → Prop}
    (goesOn : ∀ choice looked, (forecast (kindsOf cursor.rest)).choice = some choice →
      Took [] [] cursor looked → looked.recovering = cursor.recovering →
      (next choice).Yields looked done broken)
    (breaks : ∀ looked, (forecast (kindsOf cursor.rest)).choice = none →
      Took [] [] cursor looked → broken looked) :
    (Recogniser.follow place forecast >>= next).Yields cursor done broken := by
  obtain ⟨stumble, _, started⟩ := start_follow place forecast cursor
  unfold Yields
  rw [start_bind, started]
  cases chosen : (forecast cursor.ahead).choice with
  | none => exact breaks _ chosen (Took.look _ cursor)
  | some choice => exact goesOn choice _ chosen (Took.look _ cursor) rfl

/-- An action that is known to go without a report. -/
theorem runs {action : Recogniser Unit} {next : Unit → Recogniser Other}
    {done : Other → Cursor → Prop} {tokens others : List Token} {trees built : List Tree}
    (runs : action.Runs (tokens, trees) (others, built)) (calm : cursor.recovering = false)
    (rest : cursor.rest = tokens) (children : cursor.children = trees)
    (goesOn : ∀ last, last.recovering = false → last.rest = others → last.children = built →
      (next ()).Yields last done broken) : (action >>= next).Yields cursor done broken := by
  obtain ⟨last, started, lastCalm, _, lastRest, lastChildren⟩ := runs cursor calm rest children
  unfold Yields
  rw [start_bind, started]
  exact goesOn last lastCalm lastRest lastChildren

/-- A rule that is used inside another one. -/
theorem lift {action : StateM Cursor Unit} {next : Unit → Recogniser Other}
    {done : Other → Cursor → Prop} (goesOn : (next ()).Yields (action.run cursor).2 done broken) :
    ((liftM action : Recogniser Unit) >>= next).Yields cursor done broken := by
  unfold Yields at goesOn ⊢
  rw [start_bind, start_lift]
  exact goesOn

/-- The frame of a rule: its body comes to an end, or recovery takes over. -/
theorem within (rule : Rule) (sites : List Site) {body : Recogniser Unit} {ends : Cursor → Prop}
    (yields : body.Yields { cursor.enlist (.enter rule) with children := [] }
      (fun _ inner => ends inner) fun inner => ∀ stumble, ends (inner.recover sites stumble)) :
    ∃ inner, ends inner ∧ ((MiniShell.within rule sites body).run cursor).2.rest = inner.rest ∧
      ((MiniShell.within rule sites body).run cursor).2.children =
        cursor.children ++ [.node rule inner.children] := by
  unfold Yields at yields
  rw [run_within]
  rcases outcome : body.start { cursor.enlist (.enter rule) with children := [] } with
    ⟨stumble | result, inner⟩
  · rw [outcome] at yields
    exact ⟨inner.recover sites stumble, yields stumble, rfl, rfl⟩
  · rw [outcome] at yields
    exact ⟨inner, yields, rfl, rfl⟩

end Yields

end Recogniser

end MiniShell
