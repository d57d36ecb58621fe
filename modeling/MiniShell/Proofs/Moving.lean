/-
This file says which files are lost when something is moved without force. A
move asks whether its target exists before it renames, but what it renames to
is the target itself only if that is not a directory. Into a directory it moves
under the name of the source, and it does not ask whether a file has that name
there. That is the only way to lose a file: a rename puts a file in place of a
file and a directory in place of an empty directory, and leaves everything else
where it is.

The tree after a rename is told place by place: what stood at the source stands
at the target, and every other place has what it had.
-/

import MiniShell.Proofs.Descent

namespace MiniShell

open MiniShell.Action

variable {session after : Session} {content : List UInt8}

/-! ### Moving within a tree -/

namespace FileTree

/-- The tree after what stood at one place has taken the place of another. -/
def moved (files : FileTree) (source target : Trail) (tree : FileTree) : FileTree :=
  ((files.remove target).remove source).put target tree

/-- A file stays that is neither moved nor replaced. -/
theorem get?_moved_file {files : FileTree} {source target other : Trail}
    (unmoved : ¬ source <+: other) (unreplaced : ¬ target <+: other) (tree : FileTree)
    (found : files.get? other = some (file content)) :
    (files.moved source target tree).get? other = some (file content) := by
  have unreplacedStill := (AgreesOff.remove files target).file unreplaced found
  have unmovedStill := (AgreesOff.remove _ source).file unmoved unreplacedStill
  exact (AgreesOff.put _ target tree).file unreplaced unmovedStill

/-- What is moved is found at its new place. -/
theorem get?_moved {files : FileTree} {source front : Trail} {name : Text}
    (holds : files.HasDirectory front) (unmoved : ¬ source <+: front) (tree : FileTree) :
    (files.moved source (front ++ [name]) tree).get? (front ++ [name]) = some tree := by
  have unreplaced : ¬ front ++ [name] <+: front := fun isPrefix => by
    simpa using isPrefix.eq_of_length_le (by simp)
  exact get?_put ((AgreesOff.remove _ source).hasDirectory unmoved
    ((AgreesOff.remove files _).hasDirectory unreplaced holds)) tree

end FileTree

/-! ### Renaming -/

namespace Session.EndsAt

variable {path : Text} {place : Trail} {slash : Bool}

/-- A path that leads to a file ends at it. -/
theorem of_find (found : session.surroundings.find path = .ok (.file place content)) :
    session.EndsAt path place false ∧ session.files.get? place = some (.file content) := by
  obtain ⟨location, name, reached, stands, short, same, holds⟩ := find_file_inv found
  exact ⟨⟨location, name, reached, stands, short, same⟩, holds⟩

theorem find_file (endsAt : session.EndsAt path place false)
    (found : session.files.get? place = some (.file content)) :
    session.surroundings.find path = .ok (.file place content) := by
  obtain ⟨location, name, reached, stands, short, rfl⟩ := endsAt
  simp [Surroundings.find, reached, entryAt_short stands short, found]

end Session.EndsAt

namespace Action

theorem checkPath_inv {path : Text} {result : Unit}
    (checked : (checkPath path).start session = (.ok result, after)) : session = after := by
  unfold checkPath at checked
  split at checked
  · exact absurd checked (by simp)
  · exact (Prod.mk.inj checked).2

theorem orRefuse_inv {Result : Type} {paths : List Text} {outcome : Except SystemError Result}
    {result : Result} (ran : (orRefuse paths outcome).start session = (.ok result, after)) :
    outcome = .ok result ∧ session = after := by
  rw [start_orRefuse] at ran
  obtain ⟨ended, same⟩ := Prod.mk.inj ran
  cases outcome with
  | error error => exact absurd ended (by simp)
  | ok value => exact ⟨congrArg _ (Except.ok.inj ended), same⟩

theorem entryAt_inv {paths : List Text} {location : Location} {name : Text}
    {entry : Option FileTree}
    (ran : (entryAt paths location name).start session = (.ok entry, after)) :
    session.surroundings.entryAt location name = .ok entry ∧ session = after := by
  rw [entryAt, start_bind_ok (start_get session)] at ran
  exact orRefuse_inv ran

/-- What is looked up in a directory that stands. -/
theorem entryAt_standing {location : Location} {name : Text} {entry : Option FileTree}
    (stands : location.removed = 0)
    (found : session.surroundings.entryAt location name = .ok entry) :
    (Text.encode name).length ≤ Path.longestName ∧
      session.files.get? (location.trail ++ [name]) = entry := by
  by_cases short : (Text.encode name).length ≤ Path.longestName
  · rw [entryAt_short stands short] at found
    exact ⟨short, Except.ok.inj found⟩
  · simp [Surroundings.entryAt, stands, Nat.lt_of_not_le short] at found

/-- An action that is refused under a condition succeeds only without it. -/
theorem refuse_inv {Result : Type} {condition : Prop} [Decidable condition] {error : SystemError}
    {paths : List Text} {action : Action Result} {result : Result}
    (ran : (if condition then refuse error paths else action).start session = (.ok result, after)) :
    ¬ condition ∧ action.start session = (.ok result, after) := by
  by_cases refused : condition
  · rw [if_pos refused] at ran
    exact absurd ran (by simp [refuse])
  · rw [if_neg refused] at ran
    exact ⟨refused, ran⟩

end Action

/-- What a rename does if it succeeds: nothing, if both paths end at the same place; otherwise
neither place lies in the other, and what the first holds may take the place of the second. -/
theorem rename_inv {old new : Text} (renamed : (rename old new).start session = (.ok ⟨⟩, after)) :
    ∃ source target oldSlash newSlash tree, session.EndsAt old source oldSlash ∧
      session.EndsAt new target newSlash ∧ session.files.get? source = some tree ∧
      (tree.isDirectory = false → oldSlash = false ∧ newSlash = false) ∧
      (source = target ∧ after = session ∨
        ¬ source <+: target ∧ ¬ target <+: source ∧
          (session.files.get? target).bind (replacementError? tree) = none ∧
          after.files = session.files.moved source target tree) := by
  unfold rename at renamed
  obtain ⟨_, _, checked, first⟩ := start_bind_inv renamed
  obtain rfl := checkPath_inv checked
  obtain ⟨_, _, alsoChecked, second⟩ := start_bind_inv first
  obtain rfl := checkPath_inv alsoChecked
  rw [start_bind_ok (start_get session)] at second
  obtain ⟨oldGoal, _, oldFound, third⟩ := start_bind_inv second
  obtain ⟨oldReached, rfl⟩ := orRefuse_inv oldFound
  rw [start_bind_ok (start_get session)] at third
  obtain ⟨newGoal, _, newFound, fourth⟩ := start_bind_inv third
  obtain ⟨newReached, rfl⟩ := orRefuse_inv newFound
  -- A path that does not end in a name is refused, and so is one at whose end there is nothing.
  cases oldGoal with
  | stay location | rise location | top => exact absurd fourth (by simp [refuse])
  | entry oldLocation oldName oldSlash =>
  cases newGoal with
  | stay location | rise location | top => exact absurd fourth (by simp [refuse])
  | entry newLocation newName newSlash =>
  obtain ⟨held, _, oldHolds, fifth⟩ := start_bind_inv fourth
  obtain ⟨oldEntry, rfl⟩ := Action.entryAt_inv oldHolds
  cases held with
  | none => exact absurd fifth (by simp [refuse])
  | some tree =>
  obtain ⟨oldStands, oldShort, holds⟩ := MiniShell.entryAt_inv oldEntry
  obtain ⟨replaced, _, newHolds, sixth⟩ := start_bind_inv fifth
  obtain ⟨newEntry, rfl⟩ := Action.entryAt_inv newHolds
  obtain ⟨plain, seventh⟩ := refuse_inv sixth
  obtain ⟨outside, eighth⟩ := refuse_inv seventh
  obtain ⟨around, ninth⟩ := refuse_inv eighth
  obtain ⟨newStands, last⟩ := refuse_inv ninth
  obtain ⟨newShort, rfl⟩ := entryAt_standing (Decidable.not_not.mp newStands) newEntry
  refine ⟨_, _, oldSlash, newSlash, tree,
    ⟨oldLocation, oldName, oldReached, oldStands, oldShort, rfl⟩,
    ⟨newLocation, newName, newReached, Decidable.not_not.mp newStands, newShort, rfl⟩, holds,
    fun isFile => ?_, ?_⟩
  · simpa [isFile] using plain
  by_cases same : oldLocation.trail ++ [oldName] = newLocation.trail ++ [newName]
  · rw [if_pos same] at last
    exact Or.inl ⟨same, (Prod.mk.inj last).2.symm⟩
  · rw [if_neg same] at last
    -- The checks look at the directory that holds a place: a place lies in another one if it is the
    -- same, or if its directory lies in it.
    refine Or.inr ⟨fun isPrefix => ?_, fun isPrefix => ?_, ?_⟩
    · rcases List.prefix_concat_iff.mp isPrefix with equal | within
      · exact same equal
      · exact outside (List.isPrefixOf_iff_prefix.mpr within)
    · rcases List.prefix_concat_iff.mp isPrefix with equal | within
      · exact same equal.symm
      · exact around (by simpa [List.isPrefixOf_iff_prefix.mpr within] using newStands)
    · cases replacing : (session.files.get? (newLocation.trail ++ [newName])).bind
          (replacementError? tree) with
      | some error =>
        rw [replacing] at last
        exact absurd last (by simp [refuse])
      | none =>
        rw [replacing] at last
        exact ⟨rfl, congrArg Session.files (Prod.mk.inj last).2.symm⟩

/-! ### Moving without force -/

namespace Command

/-- Moving a file into a directory replaces a file of the same name there, which holds other
bytes. -/
structure Clobbers (session : Session) (source target : Text) : Prop where
  directory : session.surroundings.isDirectory target = true
  files : ∃ place other own content, session.surroundings.find source = .ok (.file place own) ∧
    session.surroundings.find (Text.joinPath target (Text.baseName source)) =
      .ok (.file other content) ∧ own ≠ content

/-- What may be replaced by something else, if it holds a file, is a file, and it is replaced by
one. -/
theorem files_of_replacement {tree replaced : FileTree} {rest : Trail}
    (allowed : replacementError? tree replaced = none)
    (found : replaced.get? rest = some (.file content)) :
    rest = [] ∧ replaced = .file content ∧ ∃ own, tree = .file own := by
  cases replaced with
  | file bytes =>
    cases rest with
    | nil =>
      cases tree with
      | directory entries => exact absurd allowed (by simp [replacementError?])
      | file own => exact ⟨rfl, by simpa [FileTree.get?] using found, own, rfl⟩
    | cons name more => exact absurd found (by simp [FileTree.get?])
  | directory entries =>
    cases tree with
    | file own => exact absurd allowed (by simp [replacementError?])
    | directory others =>
      cases entries with
      | nil => cases rest <;> exact absurd found (by simp [FileTree.get?, FileTree.child?])
      | cons entry more => exact absurd allowed (by simp [replacementError?])

/-- A file stays where it is in a rename that succeeds, unless the new path leads to it. -/
theorem rename_keeps {old new : Text} (renamed : (rename old new).start session = (.ok ⟨⟩, after))
    {place other : Trail} {slash : Bool} (endsAt : session.EndsAt old place slash)
    (unmoved : ¬ place <+: other) (found : session.files.get? other = some (.file content))
    (unnamed : session.surroundings.find new ≠ .ok (.file other content)) :
    after.files.get? other = some (.file content) := by
  obtain ⟨source, target, oldSlash, newSlash, tree, oldEnds, newEnds, held, plain, done⟩ :=
    rename_inv renamed
  obtain rfl := endsAt.unique oldEnds
  rcases done with ⟨-, rfl⟩ | ⟨-, -, allowed, files⟩
  · exact found
  rw [files]
  refine FileTree.get?_moved_file unmoved (fun replaced => unnamed ?_) tree found
  obtain ⟨rest, rfl⟩ := replaced
  rw [FileTree.get?_append] at found
  obtain ⟨old, atTarget, below⟩ := Option.bind_eq_some_iff.mp found
  rw [atTarget] at allowed
  obtain ⟨rfl, rfl, own, rfl⟩ := files_of_replacement allowed below
  obtain ⟨-, rfl⟩ := plain rfl
  rw [List.append_nil]
  exact newEnds.find_file atTarget

/-- A file to which the new path leads is replaced by a file. -/
theorem rename_replaces {old new : Text}
    (renamed : (rename old new).start session = (.ok ⟨⟩, after)) {place other : Trail}
    {slash : Bool} (endsAt : session.EndsAt old place slash) (unmoved : ¬ place <+: other)
    (named : session.surroundings.find new = .ok (.file other content)) :
    ∃ own, session.surroundings.find old = .ok (.file place own) ∧
      after.files.get? other = some (.file own) := by
  obtain ⟨source, target, oldSlash, newSlash, tree, oldEnds, newEnds, held, plain, done⟩ :=
    rename_inv renamed
  obtain ⟨namedEnds, found⟩ := Session.EndsAt.of_find named
  obtain rfl := endsAt.unique oldEnds
  obtain rfl := namedEnds.unique newEnds
  rcases done with ⟨rfl, -⟩ | ⟨-, -, allowed, files⟩
  · exact absurd (List.prefix_refl _) unmoved
  rw [found] at allowed
  have itself : (FileTree.file content).get? [] = some (.file content) := rfl
  obtain ⟨-, -, own, rfl⟩ := files_of_replacement allowed itself
  obtain ⟨rfl, -⟩ := plain rfl
  refine ⟨own, oldEnds.find_file held, ?_⟩
  obtain ⟨location, name, -, -, -, rfl⟩ := newEnds
  rw [files]
  refine FileTree.get?_moved ?_ (fun isPrefix => unmoved (isPrefix.trans (List.prefix_append ..))) _
  exact FileTree.hasDirectory_of_isSome (List.cons_ne_nil name []) (by rw [found]; rfl)

/-- A move that succeeds without force is a rename into a directory, or to a path that leads
nowhere. -/
theorem move_inv {source target : Text}
    (moved : (move source target false).start session = (.ok ⟨⟩, after)) :
    ∃ new, (rename source new).start session = (.ok ⟨⟩, after) ∧
      (session.surroundings.isDirectory target = true ∧
          new = Text.joinPath target (Text.baseName source) ∨
        session.surroundings.isDirectory target = false ∧
          session.surroundings.pathExists new = false) := by
  unfold move at moved
  rw [start_bind_ok (start_pathExists ..)] at moved
  cases sourceExists : session.surroundings.pathExists source with
  | false => exact absurd moved (by simp [sourceExists])
  | true =>
    rw [sourceExists] at moved
    simp only [Bool.not_true, Bool.false_eq_true, if_false] at moved
    rw [start_bind_ok (start_isDirectory ..)] at moved
    cases directory : session.surroundings.isDirectory target with
    | true =>
      rw [directory, if_pos rfl] at moved
      exact ⟨_, moved, Or.inl ⟨rfl, rfl⟩⟩
    | false =>
      rw [directory, if_neg Bool.false_ne_true, start_bind_ok (start_pathExists ..)] at moved
      cases targetExists : session.surroundings.pathExists target with
      | true => exact absurd moved (by simp [targetExists])
      | false =>
        rw [targetExists] at moved
        exact ⟨_, moved, Or.inr ⟨rfl, targetExists⟩⟩

/-- Moving without force. What was not moved is still there, every file with its bytes, if and only
if no file is moved into a directory in which another file has its name. -/
theorem mv_spares_iff {source target : Text} (unforced : source ≠ "-f".toList)
    {session after : Session} (moved : (mv [source, target]).start session = (.ok ⟨⟩, after)) :
    ∃ place slash, session.EndsAt source place slash ∧
      ((∀ other content, session.files.get? other = some (.file content) → ¬ place <+: other →
          after.files.get? other = some (.file content)) ↔ ¬ Clobbers session source target) := by
  have pairs : mv [source, target] = (do move source target false; movePairs false []) :=
    if_neg unforced
  rw [pairs] at moved
  obtain ⟨_, between, once, done⟩ := start_bind_inv moved
  obtain rfl : between = after := (Prod.mk.inj done).2
  obtain ⟨new, renamed, into⟩ := move_inv once
  obtain ⟨place, -, slash, -, -, endsAt, -⟩ := rename_inv renamed
  refine ⟨place, slash, endsAt, fun spared clobbers => ?_,
    fun free other content found unmoved => ?_⟩
  · obtain ⟨directory, trail, other, own, content, isFile, named, different⟩ := clobbers
    rcases into with ⟨-, rfl⟩ | ⟨noDirectory, -⟩
    · obtain ⟨sourceEnds, held⟩ := Session.EndsAt.of_find isFile
      obtain rfl := endsAt.unique sourceEnds
      have found := (Session.EndsAt.of_find named).2
      have unmoved : ¬ place <+: other := by
        rintro ⟨rest, rfl⟩
        rw [FileTree.get?_append, held] at found
        cases rest <;> simp [FileTree.get?] at found
        exact different found
      obtain ⟨moved, isMoved, replaced⟩ := rename_replaces renamed endsAt unmoved named
      have kept := spared other content found unmoved
      obtain ⟨-, rfl⟩ := Surroundings.Found.file.inj (Except.ok.inj (isFile.symm.trans isMoved))
      exact different (FileTree.file.inj (Option.some.inj (replaced.symm.trans kept)))
    · exact absurd (directory.symm.trans noDirectory) (by simp)
  · by_cases named : session.surroundings.find new = .ok (.file other content)
    · obtain ⟨own, isFile, replaced⟩ := rename_replaces renamed endsAt unmoved named
      rcases into with ⟨directory, rfl⟩ | ⟨-, nowhere⟩
      · have same : own = content := Decidable.not_not.mp fun different =>
          free ⟨directory, place, other, own, content, isFile, named, different⟩
        rw [replaced, same]
      · rw [Surroundings.pathExists, named] at nowhere
        exact absurd nowhere (by simp)
    · exact rename_keeps renamed endsAt unmoved found named

/-- A session with a file, and a directory that holds a file of the same name and a directory. -/
def namesakeSession : Session where
  files := .directory
    [("a".toList, .file (Text.encode "new\n".toList)),
      ("d".toList, .directory
        [("a".toList, .file (Text.encode "old\n".toList)), ("e".toList, .directory [])])]
  home := "/home".toList
  inputs := []

/-- Moving the file into the directory in the directory spares all other files. -/
theorem mv_spares_iff_apart :
    "a".toList ≠ "-f".toList ∧
      ((mv ["a".toList, "d/e".toList]).start namesakeSession).1.toOption = some () ∧
      ((mv ["a".toList, "d/e".toList]).start namesakeSession).2.files.get?
        ["d".toList, "a".toList] = some (.file (Text.encode "old\n".toList)) := by
  have unforced : "a".toList ≠ "-f".toList := by decide
  have succeeds : ((mv ["a".toList, "d/e".toList]).start namesakeSession).1.toOption = some () := by
    decide +kernel
  refine ⟨unforced, succeeds, ?_⟩
  obtain ⟨place, slash, endsAt, spared⟩ := mv_spares_iff unforced (start_of_toOption succeeds)
  have here : namesakeSession.EndsAt "a".toList ["a".toList] false :=
    ⟨⟨[], 0⟩, "a".toList, rfl, rfl, by decide, rfl⟩
  obtain rfl := endsAt.unique here
  refine spared.mpr (fun clobbers => ?_) ["d".toList, "a".toList] _ rfl (by decide)
  obtain ⟨-, _, _, _, _, -, named, -⟩ := clobbers
  have nowhere : namesakeSession.surroundings.find
      (Text.joinPath "d/e".toList (Text.baseName "a".toList)) = .error .noEntry := rfl
  exact absurd (nowhere.symm.trans named) (by simp)

/-- A move succeeds without force, and it replaces a file. -/
theorem mv_clobbers :
    let moved := (mv ["a".toList, "d".toList]).start namesakeSession
    moved.1.toOption = some () ∧
      namesakeSession.files.contentAt ["d".toList, "a".toList] = Text.encode "old\n".toList ∧
      moved.2.files.contentAt ["d".toList, "a".toList] = Text.encode "new\n".toList := by
  decide +kernel

end Command

end MiniShell
