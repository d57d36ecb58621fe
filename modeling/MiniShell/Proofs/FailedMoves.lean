/-
This file says when a move that fails has changed nothing. A rename looks at
everything it needs before it changes anything, so it fails as a whole, and so
does a move, which is one rename. The arguments are a different matter. They
are counted while a flag may still be among them, and they are taken by pairs
only afterwards. With three arguments and no flag the first two are moved
before the third is found to have no partner.

An action is cautious if a failure leaves the session as it was. Looking is
cautious, and so is a change that comes last. A loop over several changes is
not, and that is where the exception comes from.
-/

import MiniShell.Proofs.Composition
import MiniShell.Proofs.InPlace
import MiniShell.Proofs.Undoing

namespace MiniShell

open MiniShell.Action

/-! ### Cautious actions -/

/-- An action that leaves the session as it was if it fails. -/
def Action.Cautious {Result : Type} (action : Action Result) : Prop :=
  ∀ session fault after, action.start session = (.error fault, after) → after = session

namespace Action.Cautious

variable {Result Other : Type}

theorem of_looks {action : Action Result} (looks : Stepwise ⟨false, false, false⟩ action) :
    Cautious action :=
  fun _ _ _ failed => looks.after_eq failed

theorem refuse (error : SystemError) (paths : List Text) :
    Cautious (Action.refuse error paths : Action Result) :=
  of_looks (.refuse error paths)

/-- To look first and then to be cautious is to be cautious. -/
theorem bind {action : Action Result} {next : Result → Action Other}
    (looks : Stepwise ⟨false, false, false⟩ action) (onward : ∀ result, Cautious (next result)) :
    Cautious (action >>= next) := by
  intro session fault after failed
  rcases start_bind_fault_inv failed with first | ⟨result, between, ended, second⟩
  · exact looks.after_eq first
  · rw [onward result between fault after second, looks.after_eq ended]

theorem get {next : Session → Action Result} (onward : ∀ session, Cautious (next session)) :
    Cautious (MonadState.get >>= next) := by
  intro session fault after failed
  rw [start_bind_ok (start_get session)] at failed
  exact onward session session fault after failed

theorem ite {condition : Prop} [Decidable condition] {action other : Action Result}
    (first : Cautious action) (second : Cautious other) :
    Cautious (if condition then action else other) := by
  split
  · exact first
  · exact second

theorem moveTree (source target : Trail) (tree : FileTree) :
    Cautious (Action.moveTree source target tree) :=
  fun _ _ _ failed => absurd (Prod.mk.inj failed).1 (by simp)

theorem rename (old new : Text) : Cautious (Action.rename old new) := by
  unfold Action.rename
  refine bind (.checkPath old) fun _ => bind (.checkPath new) fun _ => ?_
  refine get fun session => bind (.orRefuse _ _) fun source => ?_
  refine get fun session => bind (.orRefuse _ _) fun target => ?_
  split
  · refine bind (.entryAt _ _ _) fun entry => ?_
    cases entry with
    | none => exact refuse _ _
    | some tree =>
      refine bind (.entryAt _ _ _) fun replaced => ite (refuse _ _) (ite (refuse _ _)
        (ite (refuse _ _) (ite (refuse _ _) (ite (of_looks (.pure _)) ?_))))
      split
      · exact refuse _ _
      · exact moveTree _ _ _
  · exact refuse _ _

end Action.Cautious

namespace Command

/-! ### One move -/

/-- The path that a move renames to: in a directory it is that of the same name. -/
def moveTarget (session : Session) (source target : Text) : Text :=
  if session.surroundings.isDirectory target then Text.joinPath target (Text.baseName source)
  else target

/-- A move is refused before anything is done, or it is a rename. -/
theorem start_move_cases (source target : Text) (force : Bool) (session : Session) :
    (∃ fault, (move source target force).start session = (.error fault, session)) ∨
      (move source target force).start session =
        (rename source (moveTarget session source target)).start session := by
  unfold move moveTarget
  rw [start_bind_ok (start_pathExists ..)]
  cases session.surroundings.pathExists source with
  | false => exact Or.inl ⟨_, rfl⟩
  | true =>
    rw [if_neg (by simp), start_bind_ok (start_isDirectory ..)]
    cases session.surroundings.isDirectory target with
    | true => exact Or.inr rfl
    | false =>
      rw [if_neg (by simp), if_neg (by simp), start_bind_ok (start_pathExists ..)]
      cases session.surroundings.pathExists target && !force with
      | true => exact Or.inl ⟨_, rfl⟩
      | false => exact Or.inr rfl

theorem cautious_move (source target : Text) (force : Bool) :
    Cautious (move source target force) := by
  intro session fault after failed
  rcases start_move_cases source target force session with ⟨first, refused⟩ | renamed
  · exact (Prod.mk.inj (refused.symm.trans failed)).2.symm
  · exact Cautious.rename _ _ session fault after (renamed.symm.trans failed)

/-- A move that succeeds changes the files if and only if it leads to another place. -/
theorem move_changes_iff {session after : Session} (sound : session.files.Sound)
    {source target : Text} {force : Bool}
    (moved : (move source target force).start session = (.ok ⟨⟩, after)) :
    ∃ place slash other otherSlash, session.EndsAt source place slash ∧
      session.EndsAt (moveTarget session source target) other otherSlash ∧
      (after.files = session.files ↔ place = other) := by
  rcases start_move_cases source target force session with ⟨first, refused⟩ | renamed
  · exact absurd (Prod.mk.inj (refused.symm.trans moved)).1 (by simp)
  · obtain ⟨place, other, slash, otherSlash, tree, ends, otherEnds, held, -, done⟩ :=
      rename_inv (renamed.symm.trans moved)
    refine ⟨place, slash, other, otherSlash, ends, otherEnds, ?_⟩
    rcases done with ⟨samePlace, same⟩ | ⟨outside, unheld, -, files⟩
    · exact iff_of_true (congrArg Session.files same) samePlace
    · refine iff_of_false (fun same => ?_) fun samePlace =>
        outside (samePlace ▸ List.prefix_refl place)
      have gone := FileTree.get?_moved_source sound ends.ne_nil otherEnds.ne_nil unheld tree
      rw [← files, same, held] at gone
      exact absurd gone (by simp)

/-! ### Moving by arguments -/

/-- Three arguments without a flag, of which the first two name a move to another place that can be
made. -/
def Strays (session : Session) (arguments : List Text) : Prop :=
  ∃ source target extra, arguments = [source, target, extra] ∧ source ≠ "-f".toList ∧
    ((mv [source, target]).start session).1.toOption = some () ∧
    ∃ place slash other otherSlash, session.EndsAt source place slash ∧
      session.EndsAt (moveTarget session source target) other otherSlash ∧ place ≠ other

/-- A third argument without a flag is noticed only when the first two have been moved. -/
theorem start_mv_triple {source : Text} (unforced : source ≠ "-f".toList) (target extra : Text)
    {session after : Session} {fault : Fault}
    (failed : (mv [source, target, extra]).start session = (.error fault, after)) :
    (mv [source, target]).start session = (.error fault, after) ∧ after = session ∨
      fault = .listIndex ∧ (mv [source, target]).start session = (.ok ⟨⟩, after) := by
  have pairs : mv [source, target, extra] = (do
      move source target false
      movePairs false [extra]) := if_neg unforced
  rw [pairs] at failed
  rw [start_mv_pair unforced]
  rcases start_bind_fault_inv failed with first | ⟨⟨⟩, between, ended, second⟩
  · exact Or.inl ⟨first, cautious_move source target false session fault after first⟩
  · obtain ⟨isIndex, rfl⟩ := Prod.mk.inj second
    exact Or.inr ⟨(Except.error.inj isIndex).symm, ended⟩

/-- A failing move changes nothing, or it fails at a third argument. -/
theorem mv_failed {arguments : List Text} {session after : Session} {fault : Fault}
    (failed : (mv arguments).start session = (.error fault, after)) :
    after = session ∨ fault = .listIndex ∧ ∃ source target extra,
      arguments = [source, target, extra] ∧ source ≠ "-f".toList ∧
        (mv [source, target]).start session = (.ok ⟨⟩, after) := by
  -- All other numbers of arguments are refused at once.
  rcases arguments with _ | ⟨first, _ | ⟨second, _ | ⟨third, _ | ⟨fourth, rest⟩⟩⟩⟩
  · exact Or.inl (Prod.mk.inj failed).2.symm
  · exact Or.inl (Prod.mk.inj failed).2.symm
  · by_cases forced : first = "-f".toList
    · have lonely : mv [first, second] = movePairs true [second] := if_pos forced
      rw [lonely] at failed
      exact Or.inl (Prod.mk.inj failed).2.symm
    · rw [start_mv_pair forced] at failed
      exact Or.inl (cautious_move _ _ _ session fault after failed)
  · by_cases forced : first = "-f".toList
    · have flagged : mv [first, second, third] = movePairs true [second, third] := if_pos forced
      rw [flagged, start_movePairs] at failed
      exact Or.inl (cautious_move _ _ _ session fault after failed)
    · rcases start_mv_triple forced second third failed with ⟨-, same⟩ | ⟨isIndex, moved⟩
      · exact Or.inl same
      · exact Or.inr ⟨isIndex, first, second, third, rfl, forced, moved⟩
  · have tooMany : mv (first :: second :: third :: fourth :: rest) = throw .insufficient :=
      if_pos (by simp)
    rw [tooMany] at failed
    exact Or.inl (Prod.mk.inj failed).2.symm

/-- A move that fails. The files are as they were if and only if there are not three arguments of
which the first two could be moved; otherwise these have been moved when the third is found to have
no partner. -/
theorem mv_failing_spares_iff {session after : Session} (sound : session.files.Sound)
    {arguments : List Text} {fault : Fault}
    (failed : (mv arguments).start session = (.error fault, after)) :
    (after.files = session.files ↔ ¬ Strays session arguments) ∧
      (after = session ∨ fault = .listIndex ∧ ∃ source target extra,
        arguments = [source, target, extra] ∧ source ≠ "-f".toList ∧
          (mv [source, target]).start session = (.ok ⟨⟩, after)) := by
  refine ⟨⟨fun same => ?_, fun unstrayed => ?_⟩, mv_failed failed⟩
  · rintro ⟨source, target, extra, rfl, unforced, succeeds, place, slash, other, otherSlash, ends,
      otherEnds, different⟩
    rcases start_mv_triple unforced target extra failed with ⟨alsoFailed, -⟩ | ⟨-, moved⟩
    · rw [alsoFailed] at succeeds
      exact absurd succeeds (by simp [Except.toOption])
    · rw [start_mv_pair unforced] at moved
      obtain ⟨_, _, _, _, alsoEnds, alsoOther, changes⟩ := move_changes_iff sound moved
      obtain rfl := ends.unique alsoEnds
      obtain rfl := otherEnds.unique alsoOther
      exact different (changes.mp same)
  · rcases mv_failed failed with same | ⟨-, source, target, extra, rfl, unforced, moved⟩
    · exact congrArg Session.files same
    · -- The first two have been moved, which shows unless they lead to the same place.
      have once := moved
      rw [start_mv_pair unforced] at once
      obtain ⟨place, slash, other, otherSlash, ends, otherEnds, changes⟩ :=
        move_changes_iff sound once
      refine changes.mpr (Decidable.not_not.mp fun different => unstrayed ?_)
      exact ⟨source, target, extra, rfl, unforced, by rw [moved]; rfl, place, slash, other,
        otherSlash, ends, otherEnds, different⟩

/-- A file stays where it is although it is named together with the directory that holds it. -/
theorem mv_failing_spares_iff_within :
    let ended := (mv ["d/a".toList, "d".toList, "c".toList]).start namesakeSession
    namesakeSession.files.Sound ∧ ended.1.toOption = none ∧
      ended.2.files = namesakeSession.files := by
  have fails : ((mv ["d/a".toList, "d".toList, "c".toList]).start
      namesakeSession).1.toOption = none := by decide +kernel
  obtain ⟨fault, failed⟩ := exists_fault fails
  refine ⟨sorted_namesakeSession.sound, fails, ?_⟩
  refine (mv_failing_spares_iff sorted_namesakeSession.sound failed).1.mpr ?_
  rintro ⟨_, _, _, ⟨⟩, -, -, place, slash, other, otherSlash, ends, otherEnds, different⟩
  have here : namesakeSession.EndsAt "d/a".toList ["d".toList, "a".toList] false :=
    ⟨⟨["d".toList], 0⟩, "a".toList, rfl, rfl, by decide, rfl⟩
  have itself : moveTarget namesakeSession "d/a".toList "d".toList = "d/a".toList := rfl
  rw [itself] at otherEnds
  exact different ((ends.unique here).trans (here.unique otherEnds))

/-- A move with a third argument fails when the first two have been moved. -/
theorem mv_strays :
    let ended := (mv ["a".toList, "b".toList, "c".toList]).start namesakeSession
    ended.1.toOption = none ∧
      namesakeSession.files.contentAt ["a".toList] = Text.encode "new\n".toList ∧
      ended.2.surroundings.pathExists "a".toList = false ∧
      ended.2.files.contentAt ["b".toList] = Text.encode "new\n".toList := by
  decide +kernel

end Command

end MiniShell
