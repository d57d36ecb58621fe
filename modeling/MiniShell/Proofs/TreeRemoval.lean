/-
This file says what is left when a directory is removed with all that is in it.
A walk from below removes what is in the directories before it removes them, so
every directory is empty when its turn comes.

While the walk goes on, the path that it started with is looked up again and
again. It leads to the same directory all the time, even if the working
directory is one of those that are removed: the way up from a removed directory
still leads to the directories that held it. The look-up fails only if it
enters, on its way, a directory in the one that is removed.
-/

import MiniShell.Proofs.Walking

namespace MiniShell

open MiniShell.Action

/-! ### Removing by a path -/

/-- The session after the removal of what stands at a place. -/
def Session.without (session : Session) (place : Trail) : Session :=
  { session with
    files := session.files.remove place
    location := session.location.afterRemoval place
    inputs := session.inputs.map (streamAfterRemoval session.files place) }

namespace Action

variable {session : Session} {path : Text} {place : Trail}

theorem start_removeFile (noNull : '\x00' ∉ path) (endsAt : session.EndsAt path place false)
    {content : List UInt8} (found : session.files.get? place = some (.file content)) :
    (removeFile path).start session = (.ok ⟨⟩, session.without place) := by
  obtain ⟨location, name, reached, stands, short, rfl⟩ := endsAt
  simp [removeFile, start_bind, start_goal, start_entryAt, noNull, reached,
    entryAt_short stands short, found, removeTree, Session.without]

theorem start_removeDirectory (noNull : '\x00' ∉ path) {slash : Bool}
    (endsAt : session.EndsAt path place slash)
    (found : session.files.get? place = some (.directory [])) :
    (removeDirectory path).start session = (.ok ⟨⟩, session.without place) := by
  obtain ⟨location, name, reached, stands, short, rfl⟩ := endsAt
  simp [removeDirectory, start_bind, start_goal, start_entryAt, noNull, reached,
    entryAt_short stands short, found, removeTree, Session.without]

end Action

/-! ### Locations below a place -/

/-- Two locations from which the ways up lead to the same directories above a place: they are equal,
or both are below the place and equally far. -/
def Location.Alike (place : Trail) (location other : Location) : Prop :=
  location = other ∨ place <+: location.trail ∧ place <+: other.trail ∧
    location.trail.length + location.removed = other.trail.length + other.removed

namespace Location.Alike

variable {place : Trail} {location other third : Location}

theorem trans (first : Alike place location other) (second : Alike place other third) :
    Alike place location third := by
  rcases first with rfl | ⟨below, otherBelow, far⟩
  · exact second
  · rcases second with rfl | ⟨-, thirdBelow, further⟩
    · exact Or.inr ⟨below, otherBelow, far⟩
    · exact Or.inr ⟨below, thirdBelow, far.trans further⟩

/-- The only location as far from the root as the place. -/
theorem eq_place (alike : Alike place ⟨place, 0⟩ other) : other = ⟨place, 0⟩ := by
  rcases alike with same | ⟨-, isPrefix, far⟩
  · exact same.symm
  · obtain ⟨trail, removed⟩ := other
    simp only [Nat.add_zero] at far isPrefix
    have same : place = trail := isPrefix.eq_of_length_le (by omega)
    subst same
    rw [show removed = 0 by omega]

/-- The way up from a location below a place. -/
theorem parent_below {location : Location} (below : place <+: location.trail)
    (far : place.length < location.trail.length + location.removed) :
    place <+: location.parent.trail ∧
      location.parent.trail.length + location.parent.removed + 1 =
        location.trail.length + location.removed := by
  unfold Location.parent
  split
  · next stands =>
    have isBelow : StrictlyBelow place location.trail := by
      refine (StrictlyBelow.eq_or_of_isPrefix below).resolve_left fun same => ?_
      rw [same, stands] at far
      exact Nat.lt_irrefl _ far
    refine ⟨isBelow.prefix_dropLast, ?_⟩
    simp only [List.length_dropLast]
    omega
  · refine ⟨below, ?_⟩
    simp only
    omega

/-- The way up leads from locations that are alike to locations that are alike. -/
theorem parent (alike : Alike place location other) :
    Alike place location.parent other.parent := by
  rcases alike with rfl | ⟨below, otherBelow, far⟩
  · exact Or.inl rfl
  · by_cases further : place.length < location.trail.length + location.removed
    · obtain ⟨stillBelow, nearer⟩ := parent_below below further
      obtain ⟨otherStill, otherNearer⟩ := parent_below otherBelow (far ▸ further)
      exact Or.inr ⟨stillBelow, otherStill, by omega⟩
    · -- Both locations are the place itself.
      have long := below.length_le
      have otherLong := otherBelow.length_le
      have own : location.trail = place := (below.eq_of_length_le (by omega)).symm
      have otherOwn : other.trail = place := (otherBelow.eq_of_length_le (by omega)).symm
      have same : location.removed = other.removed := by omega
      rw [Location.parent, Location.parent, own, otherOwn, same]
      exact Or.inl rfl

/-- A location stays alike when something below the place is removed. -/
theorem afterRemoval {gone : Trail} (isBelow : StrictlyBelow place gone) (location : Location) :
    Alike place location (location.afterRemoval gone) := by
  unfold Location.afterRemoval
  split
  · next onWay =>
    have isPrefix : gone <+: location.trail :=
      List.isPrefixOf_iff_prefix.mp ((Bool.and_eq_true ..).mp onWay).1
    have long := isPrefix.length_le
    have named : 0 < gone.length := List.length_pos_iff.mpr isBelow.ne_nil
    refine Or.inr ⟨isBelow.isPrefix.trans isPrefix, isBelow.prefix_dropLast, ?_⟩
    simp only [List.length_dropLast]
    omega
  · exact Or.inl rfl

end Location.Alike

/-! ### Sessions in which something below a place was removed -/

/-- Nothing has happened between two sessions but removals below a place. -/
structure Session.PrunedBelow (place : Trail) (original current : Session) : Prop where
  sound : current.files.Sound
  home : current.home = original.home
  alike : Location.Alike place original.location current.location
  standing : ∀ trail, current.files.standing trail = original.files.standing trail ∨
    StrictlyBelow place trail ∧ current.files.standing trail = none

namespace Session.PrunedBelow

variable {place : Trail} {original current : Session}

theorem refl (sound : original.files.Sound) (place : Trail) :
    original.PrunedBelow place original :=
  ⟨sound, rfl, Or.inl rfl, fun _ => Or.inl rfl⟩

variable (pruned : PrunedBelow place original current)
include pruned

theorem outside {trail : Trail} (elsewhere : ¬ StrictlyBelow place trail) :
    current.files.standing trail = original.files.standing trail :=
  (pruned.standing trail).resolve_right fun isBelow => elsewhere isBelow.1

theorem hasDirectory {trail : Trail} (elsewhere : ¬ StrictlyBelow place trail)
    (stands : original.files.HasDirectory trail) : current.files.HasDirectory trail := by
  rw [FileTree.hasDirectory_iff_standing] at stands ⊢
  exact (pruned.outside elsewhere).trans stands

/-- What is left was there before. -/
theorem isSome {trail : Trail} (stands : (current.files.get? trail).isSome = true) :
    (original.files.get? trail).isSome = true := by
  rw [← FileTree.isSome_standing] at stands ⊢
  rcases pruned.standing trail with same | ⟨-, gone⟩
  · rwa [← same]
  · rw [gone] at stands
    exact absurd stands (by simp)

theorem without {gone : Trail} (isBelow : StrictlyBelow place gone) :
    PrunedBelow place original (current.without gone) where
  sound := pruned.sound.remove isBelow.ne_nil
  home := pruned.home
  alike := pruned.alike.trans (.afterRemoval isBelow _)
  standing trail := by
    have removed := FileTree.standing_remove pruned.sound isBelow.ne_nil trail
    rw [show (current.without gone).files = current.files.remove gone from rfl, removed]
    split
    · next isPrefix => exact Or.inr ⟨isBelow.append_isPrefix isPrefix, rfl⟩
    · exact pruned.standing trail

end Session.PrunedBelow

/-- A look-up enters, by a name, a directory below a place. -/
def Surroundings.EntersBelow (surroundings : Surroundings) (path : Text) (place : Trail) : Prop :=
  ∃ first front name back stop,
    surroundings.start (Path.ofText path) = .ok (first, front ++ name :: back) ∧
      Path.IsName name ∧ surroundings.follow first (front ++ [name]) = .ok stop ∧
      StrictlyBelow place stop.trail

namespace Session.PrunedBelow

variable {place : Trail} {original current : Session}
  (pruned : PrunedBelow place original current)
include pruned

theorem start {path : Path} {first : Location} {parts : List Text}
    (started : original.surroundings.start path = .ok (first, parts)) :
    ∃ next, current.surroundings.start path = .ok (next, parts) ∧
      Location.Alike place first next := by
  have home : current.surroundings.home = original.surroundings.home := by
    rw [Session.surroundings, Session.surroundings, pruned.home]
  unfold Surroundings.start at started ⊢
  rw [home]
  split at started
  · next absolute =>
    rw [if_pos absolute]
    refine ⟨first, started, Or.inl rfl⟩
  · next relative =>
    rw [if_neg relative]
    obtain ⟨rfl, rfl⟩ := Prod.mk.inj (Except.ok.inj started)
    exact ⟨_, rfl, pruned.alike⟩

/-- A step that does not enter a directory below the place can still be made. -/
theorem enter {location other next : Location} (alike : Location.Alike place location other)
    {part : Text} (nonempty : part ≠ []) (noSlash : '/' ∉ part)
    (entered : original.surroundings.enter location part = .ok next)
    (direct : Path.IsName part → ¬ StrictlyBelow place next.trail) :
    ∃ next', current.surroundings.enter other part = .ok next' ∧
      Location.Alike place next next' := by
  by_cases isHere : part = Path.here
  · rw [Surroundings.enter, if_pos isHere] at entered
    rw [Surroundings.enter, if_pos isHere]
    exact ⟨other, rfl, Except.ok.inj entered ▸ alike⟩
  by_cases isAbove : part = Path.above
  · rw [Surroundings.enter, if_neg isHere, if_pos isAbove] at entered
    rw [Surroundings.enter, if_neg isHere, if_pos isAbove]
    exact ⟨other.parent, rfl, Except.ok.inj entered ▸ alike.parent⟩
  have isName : Path.IsName part := ⟨nonempty, noSlash, isHere, isAbove⟩
  obtain ⟨stands, short, directory, rfl⟩ := Surroundings.enter_inv isName entered
  rcases alike with rfl | ⟨below, -, -⟩
  · refine ⟨_, ?_, Or.inl rfl⟩
    have same : location = ⟨location.trail, 0⟩ := by rw [← stands]
    rw [same]
    exact Surroundings.enter_name isName short (pruned.hasDirectory (direct isName) directory)
  · exact absurd (StrictlyBelow.snoc below part) (direct isName)

/-- Parts that do not enter a directory below the place lead where they led before. -/
theorem follow {parts : List Text} (arePlain : ∀ part ∈ parts, part ≠ [] ∧ '/' ∉ part)
    {location other last : Location} (alike : Location.Alike place location other)
    (followed : original.surroundings.follow location parts = .ok last)
    (direct : ∀ front name back stop, parts = front ++ name :: back → Path.IsName name →
      original.surroundings.follow location (front ++ [name]) = .ok stop →
      ¬ StrictlyBelow place stop.trail) :
    ∃ last', current.surroundings.follow other parts = .ok last' ∧
      Location.Alike place last last' := by
  induction parts generalizing location other with
  | nil =>
    rw [Surroundings.follow] at followed ⊢
    exact ⟨other, rfl, Except.ok.inj followed ▸ alike⟩
  | cons part rest inductionHypothesis =>
    obtain ⟨⟨nonempty, noSlash⟩, restPlain⟩ := List.forall_mem_cons.mp arePlain
    obtain ⟨next, entered, onward⟩ := Surroundings.follow_append_inv
      (show original.surroundings.follow location ([part] ++ rest) = .ok last from followed)
    have alone := entered
    rw [Surroundings.follow_singleton] at entered
    obtain ⟨next', entered', alikeNext⟩ := pruned.enter alike nonempty noSlash entered
      fun isName => direct [] part rest next rfl isName alone
    rw [Surroundings.follow, entered']
    refine inductionHypothesis restPlain alikeNext onward ?_
    intro front name back stop isRest isName reached
    refine direct (part :: front) name back stop (by rw [isRest, List.cons_append]) isName ?_
    rw [← List.singleton_append, List.append_assoc, Surroundings.follow_append alone]
    exact reached

/-- The beginning of a path leads where it led before. -/
theorem follow_start {path : Text} (direct : ¬ original.surroundings.EntersBelow path place)
    {first last : Location} {front back : List Text}
    (started : original.surroundings.start (Path.ofText path) = .ok (first, front ++ back))
    (followed : original.surroundings.follow first front = .ok last) :
    ∃ first' last', current.surroundings.start (Path.ofText path) = .ok (first', front ++ back) ∧
      current.surroundings.follow first' front = .ok last' ∧ Location.Alike place last last' := by
  obtain ⟨first', started', alike⟩ := pruned.start started
  have arePlain : ∀ part ∈ front, part ≠ [] ∧ '/' ∉ part := fun part member =>
    Path.plain_of_mem_parts (Surroundings.mem_of_start started (List.mem_append_left _ member))
  obtain ⟨last', followed', alikeLast⟩ := pruned.follow arePlain alike followed
    fun before name rest stop isFront isName reached isBelow => direct
      ⟨first, before, name, rest ++ back, stop, by rw [started, isFront]; simp, isName, reached,
        isBelow⟩
  exact ⟨first', last', started', followed', alikeLast⟩

/-- A path leads to the directory at the place as before. -/
theorem approaches {path : Text} (direct : ¬ original.surroundings.EntersBelow path place)
    (approaches : original.surroundings.Approaches path place) :
    current.surroundings.Approaches path place := by
  obtain ⟨first, parts, further, started, followed⟩ := approaches
  rw [← List.append_nil parts] at started
  obtain ⟨first', last', started', followed', alike⟩ :=
    pruned.follow_start direct started followed
  rw [List.append_nil] at started'
  exact ⟨first', parts, further, started', alike.eq_place ▸ followed'⟩

/-- A path ends at the place as before. -/
theorem endsAt {path : Text} {slash : Bool}
    (direct : ¬ original.surroundings.EntersBelow path place)
    (endsAt : original.EndsAt path place slash) : ∃ slash, current.EndsAt path place slash := by
  obtain ⟨location, name, reached, stands, short, rfl⟩ := endsAt
  obtain ⟨isName, nonempty, fits, first, front, started, followed⟩ :=
    Surroundings.goal_entry_inv reached
  obtain ⟨first', last', started', followed', alike⟩ :=
    pruned.follow_start direct started followed
  -- The directory that holds the place is not below the place.
  have same : location = last' := alike.resolve_right fun isBelow => by
    have long := isBelow.1.length_le
    rw [List.length_append, List.length_singleton] at long
    omega
  subst same
  refine ⟨(Path.ofText path).slash, location, name, ?_, stands, short, rfl⟩
  rw [Surroundings.goal_of_follow nonempty fits started' followed', if_neg isName.notHere,
    if_neg isName.notAbove]

end Session.PrunedBelow

/-! ### Removing what is in a directory -/

/-- A path by which a directory can be cleared: it leads to the directory and does not enter one
below it, and it does not become too long when it is continued to what is below. -/
structure Session.Clearable (session : Session) (path : Text) (place : Trail) : Prop where
  noNull : '\x00' ∉ path
  approaches : session.surroundings.Approaches path place
  direct : ¬ session.surroundings.EntersBelow path place
  fits : ∀ way, (session.files.get? (place ++ way)).isSome = true →
    (Text.encode (Text.below path way)).length < Path.tooLong

namespace Session.Clearable

variable {original current : Session} {path : Text} {place way : Trail}

theorem areNames (pruned : PrunedBelow place original current)
    (stands : (current.files.get? (place ++ way)).isSome = true) :
    ∀ name ∈ way, Path.IsEntryName name := fun name member =>
  pruned.sound.areNames stands name (List.mem_append_right _ member)

variable (clearable : original.Clearable path place)
  (pruned : PrunedBelow place original current)
include clearable pruned

theorem noNull_below (stands : (current.files.get? (place ++ way)).isSome = true) :
    '\x00' ∉ Text.below path way :=
  Path.noNull_below clearable.noNull fun name member => (areNames pruned stands name member).noNull

theorem short (stands : (current.files.get? (place ++ way)).isSome = true) :
    (Text.encode (Text.below path way)).length < Path.tooLong :=
  clearable.fits way (pruned.isSome stands)

/-- The directories that are left can still be reached. -/
theorem approaches_below (stands : current.files.HasDirectory (place ++ way)) :
    current.surroundings.Approaches (Text.below path way) (place ++ way) :=
  (pruned.approaches clearable.direct clearable.approaches).below
    (areNames pruned stands.isSome) stands

/-- What is left in a directory can still be named. -/
theorem endsAt {name : Text}
    (stands : (current.files.get? (place ++ way ++ [name])).isSome = true) :
    '\x00' ∉ Text.joinPath (Text.below path way) name ∧
      current.EndsAt (Text.joinPath (Text.below path way) name) (place ++ way ++ [name]) false := by
  have directory := FileTree.hasDirectory_of_isSome (List.cons_ne_nil name []) stands
  have isName := pruned.sound.named _ _ stands
  rw [List.append_assoc] at stands
  have noNull := clearable.noNull_below pruned stands
  have short := clearable.short pruned stands
  rw [Text.below_snoc] at noNull short
  exact ⟨noNull, .joinPath (clearable.approaches_below pruned directory) isName short⟩

end Session.Clearable

namespace Command

open Session

/-- Removes files and empty directories by their names in a directory. -/
def removeNamed : Visit := fun directory directories files => do
  files.forM fun name => removeFile (Text.joinPath directory name)
  directories.forM fun name => removeDirectory (Text.joinPath directory name)

theorem removeContents_eq (path : Text) :
    removeContents path = walkUp removeNamed walkDepth (Text.below path []) := rfl

variable {original current : Session} {path : Text} {place way : Trail}

section Visit

variable (clearable : original.Clearable path place)
  (pruned : PrunedBelow place original current)
include clearable pruned

/-- Files are removed one by one, and nothing else is touched. -/
theorem forM_removeFile {files : List Text} (distinct : files.Nodup)
    (areFiles : ∀ name ∈ files, ∃ content,
      current.files.get? (place ++ way ++ [name]) = some (.file content)) :
    ∃ after, (files.forM fun name => removeFile (Text.joinPath (Text.below path way) name)).start
        current = (.ok ⟨⟩, after) ∧ PrunedBelow place original after ∧
      FileTree.Reshapes (fun _ => none)
        (fun trail => ∃ name ∈ files, place ++ way ++ [name] <+: trail)
        current.files after.files := by
  refine forM_reshapes files distinct ?_ pruned
  intro name member earlier fresh now prunedNow reshaped
  have isBelow : StrictlyBelow place (place ++ way ++ [name]) := .snoc (List.prefix_append ..) name
  have same := untouched (place ++ way) fresh []
  rw [List.append_nil] at same
  obtain ⟨content, found⟩ := areFiles name member
  have stillFound := reshaped.file same found
  obtain ⟨noNull, endsAt⟩ := clearable.endsAt prunedNow (by rw [stillFound]; rfl)
  exact ⟨_, start_removeFile noNull endsAt stillFound, prunedNow.without isBelow,
    .remove prunedNow.sound isBelow.ne_nil⟩

/-- So are directories that are empty when their turn comes. -/
theorem forM_removeDirectory {directories : List Text} (distinct : directories.Nodup)
    (areEmpty : ∀ name ∈ directories,
      current.files.get? (place ++ way ++ [name]) = some (.directory [])) :
    ∃ after, (directories.forM fun name =>
        removeDirectory (Text.joinPath (Text.below path way) name)).start current =
          (.ok ⟨⟩, after) ∧ PrunedBelow place original after ∧
      FileTree.Reshapes (fun _ => none)
        (fun trail => ∃ name ∈ directories, place ++ way ++ [name] <+: trail)
        current.files after.files := by
  refine forM_reshapes directories distinct ?_ pruned
  intro name member earlier fresh now prunedNow reshaped
  have isBelow : StrictlyBelow place (place ++ way ++ [name]) := .snoc (List.prefix_append ..) name
  have stillFound := reshaped.empty (untouched _ fresh) (areEmpty name member)
  obtain ⟨noNull, endsAt⟩ := clearable.endsAt prunedNow (by rw [stillFound]; rfl)
  exact ⟨_, start_removeDirectory noNull endsAt stillFound, prunedNow.without isBelow,
    .remove prunedNow.sound isBelow.ne_nil⟩

/-- A visit leaves nothing in a directory in which only files and empty directories are left. -/
theorem start_removeNamed {directories files : List Text} (distinct : directories.Nodup)
    (distinctFiles : files.Nodup) (areEmpty : ∀ name ∈ directories,
      current.files.get? (place ++ way ++ [name]) = some (.directory []))
    (areFiles : ∀ name ∈ files, ∃ content,
      current.files.get? (place ++ way ++ [name]) = some (.file content))
    (complete : ∀ name rest, (current.files.get? (place ++ way ++ name :: rest)).isSome = true →
      name ∈ directories ∨ name ∈ files) :
    ∃ after, (removeNamed (Text.below path way) directories files).start current =
        (.ok ⟨⟩, after) ∧ PrunedBelow place original after ∧
      FileTree.Reshapes (fun _ => none) (StrictlyBelow (place ++ way))
        current.files after.files := by
  obtain ⟨between, filesRemoved, prunedBetween, withoutFiles⟩ :=
    forM_removeFile clearable pruned distinctFiles areFiles
  have stillEmpty : ∀ name ∈ directories,
      between.files.get? (place ++ way ++ [name]) = some (.directory []) := by
    intro name member
    have notFile : name ∉ files := fun isFile => by
      obtain ⟨content, found⟩ := areFiles name isFile
      exact absurd (found.symm.trans (areEmpty name member)) (by simp)
    exact withoutFiles.empty (untouched _ notFile) (areEmpty name member)
  obtain ⟨after, directoriesRemoved, prunedAfter, withoutDirectories⟩ :=
    forM_removeDirectory clearable prunedBetween distinct stillEmpty
  refine ⟨after, ?_, prunedAfter, (withoutFiles.trans withoutDirectories).widen ?_ ?_⟩
  · rw [removeNamed, start_bind_ok filesRemoved]
    exact directoriesRemoved
  · rintro trail (⟨name, -, isPrefix⟩ | ⟨name, -, isPrefix⟩) <;> exact .of_isPrefix isPrefix
  · rintro trail ⟨name, rest, rfl⟩ unlisted
    have isPrefix : place ++ way ++ [name] <+: place ++ way ++ name :: rest :=
      ⟨rest, List.append_assoc ..⟩
    cases stands : current.files.standing (place ++ way ++ name :: rest) with
    | none => rfl
    | some tree =>
      rcases complete name rest (by rw [← FileTree.isSome_standing, stands]; rfl) with
        isDirectory | isFile
      · exact absurd (Or.inr ⟨name, isDirectory, isPrefix⟩) unlisted
      · exact absurd (Or.inl ⟨name, isFile, isPrefix⟩) unlisted

/-- A visit leaves nothing in a directory if what is in its directories has been removed. The names
that are visited were listed before. -/
theorem start_removeNamed_cleared {before : FileTree} {entries : List (Text × FileTree)}
    (distinct : (entries.map Prod.fst).Nodup)
    (found : before.get? (place ++ way) = some (.directory entries))
    (cleared : FileTree.Reshapes (fun _ => none) (fun trail => ∃ name ∈ directoryNames entries,
      StrictlyBelow (place ++ way ++ [name]) trail) before current.files) :
    ∃ after, (removeNamed (Text.below path way) (directoryNames entries) (fileNames entries)).start
        current = (.ok ⟨⟩, after) ∧ PrunedBelow place original after ∧
      FileTree.Reshapes (fun _ => none) (StrictlyBelow (place ++ way))
        current.files after.files := by
  have entryKept (name : Text) : ¬ ∃ other ∈ directoryNames entries,
      StrictlyBelow (place ++ way ++ [other]) (place ++ way ++ [name]) := by
    rintro ⟨other, -, isBelow⟩
    obtain rfl := eq_of_entry_isPrefix isBelow.isPrefix
    exact StrictlyBelow.irrefl _ isBelow
  refine start_removeNamed clearable pruned (FileTree.nodup_names distinct _)
    (FileTree.nodup_names distinct _) (fun name member => ?_) (fun name member => ?_)
    (fun name rest left => ?_)
  · obtain ⟨inner, child⟩ := (FileTree.mem_directoryNames distinct).mp member
    refine FileTree.get?_empty_iff.mpr ⟨?_, fun next => cleared.inside
      ⟨name, member, next, [], rfl⟩⟩
    rw [cleared.outside (entryKept name), FileTree.standing, FileTree.get?_entry found, child]
    rfl
  · obtain ⟨content, child⟩ := (FileTree.mem_fileNames distinct).mp member
    exact ⟨content, cleared.file (entryKept name) (by rw [FileTree.get?_entry found, child])⟩
  · have stood : (before.get? (place ++ way ++ name :: rest)).isSome = true := by
      rw [← FileTree.isSome_standing] at left ⊢
      by_cases inside : ∃ other ∈ directoryNames entries,
          StrictlyBelow (place ++ way ++ [other]) (place ++ way ++ name :: rest)
      · rw [cleared.inside inside] at left
        exact absurd left (by simp)
      · rwa [← cleared.outside inside]
    exact FileTree.mem_names_of_isSome distinct found stood

end Visit

/-- A walk from below leaves nothing in a directory. The steps are enough because every name makes
the path longer. -/
theorem walkUp_removeNamed (clearable : original.Clearable path place) (steps : Nat)
    (pruned : PrunedBelow place original current)
    (stands : current.files.HasDirectory (place ++ way))
    (enough : Path.tooLong ≤ steps + (Text.encode (Text.below path way)).length) :
    ∃ after, (walkUp removeNamed steps (Text.below path way)).start current = (.ok ⟨⟩, after) ∧
      PrunedBelow place original after ∧
      FileTree.Reshapes (fun _ => none) (StrictlyBelow (place ++ way))
        current.files after.files := by
  induction steps generalizing current way with
  | zero =>
    have short := clearable.short pruned stands.isSome
    omega
  | succ steps inductionHypothesis =>
    have approaches := clearable.approaches_below pruned stands
    have noNull := clearable.noNull_below pruned stands.isSome
    have short := clearable.short pruned stands.isSome
    obtain ⟨entries, found⟩ := stands
    have distinct := pruned.sound.listed _ _ found
    have listed := start_listForWalk approaches noNull short found
    have walks : ∃ between, ((directoryNames entries).forM fun name =>
        walkUp removeNamed steps (Text.joinPath (Text.below path way) name)).start current =
          (.ok ⟨⟩, between) ∧ PrunedBelow place original between ∧
        FileTree.Reshapes (fun _ => none) (fun trail => ∃ name ∈ directoryNames entries,
          StrictlyBelow (place ++ way ++ [name]) trail) current.files between.files := by
      refine forM_reshapes _ (FileTree.nodup_names distinct _) ?_ pruned
      intro name member earlier fresh now prunedNow reshaped
      obtain ⟨inner, child⟩ := (FileTree.mem_directoryNames distinct).mp member
      have directory : now.files.HasDirectory (place ++ way ++ [name]) := by
        refine reshaped.hasDirectory ?_ ⟨inner, by rw [FileTree.get?_entry found, child]⟩
        rintro ⟨other, before, isBelow⟩
        exact fresh (eq_of_entry_isPrefix isBelow.isPrefix ▸ before)
      have isName : Path.IsEntryName name := pruned.sound.isEntryName found
        (List.mem_map.mpr ⟨_, FileTree.mem_of_child? child, rfl⟩)
      have longer := isName.length_joinPath (Text.below path way)
      rw [← Text.below_snoc] at longer ⊢
      rw [List.append_assoc] at directory ⊢
      exact inductionHypothesis prunedNow directory (by omega)
    obtain ⟨between, walked, prunedBetween, cleared⟩ := walks
    obtain ⟨after, visited, prunedAfter, removed⟩ :=
      start_removeNamed_cleared clearable prunedBetween distinct found cleared
    rw [walkUp, start_bind_ok listed, start_bind_ok walked]
    refine ⟨after, visited, prunedAfter, (cleared.trans removed).widen ?_ fun isBelow neither =>
      absurd (Or.inr isBelow) neither⟩
    rintro trail (⟨name, -, isBelow⟩ | isBelow)
    · exact isBelow.above [name]
    · exact isBelow

theorem start_requireDirectory {session : Session}
    (approaches : session.surroundings.Approaches path place)
    (short : (Text.encode path).length < Path.tooLong) :
    (requireDirectory path).start session = (.ok ⟨⟩, session) := by
  rw [requireDirectory, start_bind_ok (start_pathExists ..), approaches.pathExists short]
  rfl

/-- Removing a directory with all that is in it leaves everything else as it was. The path must not
lead through the directory, and must not become too long on the way to what is in it. -/
theorem rmdir_removes {session : Session} (sound : session.files.Sound) {flag path : Text}
    (flagged : flag = "-r".toList ∨ flag = "-rf".toList) (noNull : '\x00' ∉ path) {place : Trail}
    {slash : Bool} (endsAt : session.EndsAt path place slash)
    (stands : session.files.HasDirectory place)
    (direct : ¬ session.surroundings.EntersBelow path place)
    (fits : ∀ way, (session.files.get? (place ++ way)).isSome = true →
      (Text.encode (Text.below path way)).length < Path.tooLong) :
    ∃ after, (rmdir [flag, path]).start session = (.ok ⟨⟩, after) ∧
      ∀ trail, after.files.standing trail =
        if place <+: trail then none else session.files.standing trail := by
  have approaches := endsAt.approaches stands
  have standsHere : session.files.HasDirectory (place ++ []) := by rwa [List.append_nil]
  have required := start_requireDirectory approaches (fits [] standsHere.isSome)
  -- Everything in the directory is removed, then the directory.
  have clearable : session.Clearable path place := ⟨noNull, approaches, direct, fits⟩
  obtain ⟨between, walked, pruned, cleared⟩ := walkUp_removeNamed clearable walkDepth
    (.refl sound place) standsHere (Nat.le_add_right ..)
  rw [List.append_nil] at cleared
  have isEmpty : between.files.get? place = some (.directory []) := by
    rw [FileTree.hasDirectory_iff_standing] at stands
    refine FileTree.get?_empty_iff.mpr ⟨?_, fun name => cleared.inside ⟨name, [], rfl⟩⟩
    exact (cleared.outside (StrictlyBelow.irrefl place)).trans stands
  obtain ⟨_, stillEnds⟩ := pruned.endsAt direct endsAt
  have removed := start_removeDirectory noNull stillEnds isEmpty
  refine ⟨between.without place, ?_, fun trail => ?_⟩
  · have isFlag : (flag = "-r".toList || flag = "-rf".toList) = true := by simpa using flagged
    rw [rmdir, if_pos isFlag, start_bind_ok required, removeContents_eq, start_bind_ok walked]
    exact removed
  · rw [show (between.without place).files = between.files.remove place from rfl,
      FileTree.standing_remove pruned.sound endsAt.ne_nil]
    split
    · rfl
    · next elsewhere => exact cleared.outside fun isBelow => elsewhere isBelow.isPrefix

/-- A session with a directory in a directory, at some location. -/
def nestedSession (location : Location) : Session where
  location
  files := .directory
    [("a".toList, .directory [("b".toList, .directory [])]), ("c".toList, .file [])]
  home := "/home".toList
  inputs := []

theorem sound_nestedSession (location : Location) : (nestedSession location).files.Sound := by
  refine FileTree.arranged_directory (by decide) ?_
  refine List.forall_mem_cons.mpr ⟨⟨by decide, FileTree.arranged_directory (by decide) ?_⟩, ?_⟩
  · exact List.forall_mem_singleton.mpr ⟨by decide, FileTree.sound_empty⟩
  · exact List.forall_mem_singleton.mpr ⟨by decide, FileTree.arranged_file []⟩

/-- The directories that hold the working directory are removed, by a path that leads up through
them. -/
theorem rmdir_removes_nested :
    let session := nestedSession ⟨["a".toList, "b".toList], 0⟩
    session.files.Sound ∧ '\x00' ∉ "../../a".toList ∧
      session.EndsAt "../../a".toList ["a".toList] false ∧
      session.files.HasDirectory ["a".toList] ∧
      ¬ session.surroundings.EntersBelow "../../a".toList ["a".toList] ∧
      (∀ way, (session.files.get? (["a".toList] ++ way)).isSome = true →
        (Text.encode (Text.below "../../a".toList way)).length < Path.tooLong) ∧
      ∃ after, (rmdir ["-rf".toList, "../../a".toList]).start session = (.ok ⟨⟩, after) ∧
        after.files.standing ["a".toList] = none ∧
        after.files.standing ["c".toList] = some (.file []) := by
  intro session
  have endsAt : session.EndsAt "../../a".toList ["a".toList] false :=
    ⟨⟨[], 0⟩, "a".toList, rfl, rfl, by decide, rfl⟩
  have stands : session.files.HasDirectory ["a".toList] := ⟨_, rfl⟩
  have direct : ¬ session.surroundings.EntersBelow "../../a".toList ["a".toList] := by
    rintro ⟨first, front, name, back, stop, started, isName, reached, isBelow⟩
    have whole : session.surroundings.start (Path.ofText "../../a".toList) =
        .ok (session.location, [Path.above, Path.above, "a".toList]) := rfl
    obtain ⟨rfl, parts⟩ := Prod.mk.inj (Except.ok.inj (whole.symm.trans started))
    rcases front with _ | ⟨_, _ | ⟨_, _ | ⟨_, more⟩⟩⟩
    · exact isName.notAbove (List.cons.inj parts).1.symm
    · exact isName.notAbove (List.cons.inj (List.cons.inj parts).2).1.symm
    · obtain ⟨rfl, rfl, rfl, rfl⟩ :
          Path.above = _ ∧ Path.above = _ ∧ "a".toList = name ∧ [] = back := by
        simpa using parts
      obtain rfl : (⟨["a".toList], 0⟩ : Location) = stop := Except.ok.inj reached
      exact StrictlyBelow.irrefl _ isBelow
    · simp at parts
  have fits : ∀ way, (session.files.get? (["a".toList] ++ way)).isSome = true →
      (Text.encode (Text.below "../../a".toList way)).length < Path.tooLong := by
    intro way isThere
    rcases way with _ | ⟨name, rest⟩
    · decide
    by_cases isName : ['b'] = name
    · subst isName
      cases rest with
      | nil => decide
      | cons next more =>
        exact absurd isThere (by simp [session, nestedSession, FileTree.get?, FileTree.child?])
    · exact absurd isThere
        (by simp [session, nestedSession, FileTree.get?, FileTree.child?, isName])
  have noNull : '\x00' ∉ "../../a".toList := by decide
  obtain ⟨after, removed, standing⟩ := rmdir_removes (sound_nestedSession _) (Or.inr rfl) noNull
    endsAt stands direct fits
  refine ⟨sound_nestedSession _, noNull, endsAt, stands, direct, fits, after, removed, ?_, ?_⟩
  · exact (standing _).trans (if_pos (List.prefix_refl _))
  · exact (standing _).trans (if_neg (by decide))

/-- A directory is not removed if the path of a file in it is too long. -/
theorem rmdir_long {session : Session} {path name : Text} {place : Trail}
    (approaches : session.surroundings.Approaches path place)
    (short : (Text.encode path).length < Path.tooLong)
    (long : Path.tooLong ≤ (Text.encode (Text.joinPath path name)).length)
    (noNull : '\x00' ∉ path) (noNullName : '\x00' ∉ name) {content : List UInt8}
    (held : session.files.get? place = some (.directory [(name, .file content)])) :
    (rmdir ["-r".toList, path]).start session =
      (.error (.system .nameTooLong [Text.joinPath path name]), session) := by
  have refused : (removeFile (Text.joinPath path name)).start session =
      (.error (.system .nameTooLong [Text.joinPath path name]), session) := by
    rw [removeFile, start_bind, start_goal, if_neg (Path.noNull_joinPath noNull noNullName),
      Surroundings.goal_long long]
    rfl
  have stopped : (removeContents path).start session =
      (.error (.system .nameTooLong [Text.joinPath path name]), session) := by
    rw [show removeContents path = walkUp removeNamed (4095 + 1) path from rfl, walkUp,
      start_bind_ok (start_listForWalk approaches noNull short held)]
    show (removeNamed path [] [name]).start session = _
    rw [removeNamed, List.forM_eq_forM, List.forM_cons, start_bind, start_bind, refused]
  have isFlag : ("-r".toList = "-r".toList || "-r".toList = "-rf".toList) = true := by decide
  rw [rmdir, if_pos isFlag, start_bind_ok (start_requireDirectory approaches short), start_bind,
    stopped]

/-- A session with a directory that holds a file with a name of 20 characters. -/
def longFileSession : Session where
  files := .directory [("a".toList, .directory [(List.replicate 20 'b', .file [])])]
  home := "/home".toList
  inputs := []

/-- Nothing but the directory in it is removed from a directory by a path that leads through both,
and nothing at all by a path that becomes too long. -/
theorem rmdir_falters :
    (nestedSession .root).EndsAt "a/b/../../a".toList ["a".toList] false ∧
      (nestedSession .root).surroundings.isDirectory "a/b/../../a".toList = true ∧
      ((rmdir ["-r".toList, "a/b/../../a".toList]).start (nestedSession .root)).1.toOption = none ∧
      ((rmdir ["-r".toList, "a/b/../../a".toList]).start
        (nestedSession .root)).2.surroundings.isDirectory "a".toList = true ∧
      (Path.ofText (Path.drawnOut "a".toList 4090)).parts = ["a".toList] ∧
      longFileSession.surroundings.isDirectory (Path.drawnOut "a".toList 4090) = true ∧
      (rmdir ["-r".toList, Path.drawnOut "a".toList 4090]).start longFileSession =
        (.error (.system .nameTooLong [Text.joinPath (Path.drawnOut "a".toList 4090)
          (List.replicate 20 'b')]), longFileSession) := by
  have approaches : longFileSession.surroundings.Approaches (Path.drawnOut "a".toList 4090)
      ["a".toList] :=
    Surroundings.Approaches.drawnOut ⟨.root, ["a".toList], by decide, rfl, rfl⟩ 4090
  have frontLength : (Text.encode "a".toList).length = 1 := by decide
  have short : (Text.encode (Path.drawnOut "a".toList 4090)).length < Path.tooLong := by
    rw [Path.length_drawnOut, frontLength, Path.tooLong]
    omega
  have long : Path.tooLong ≤ (Text.encode (Text.joinPath (Path.drawnOut "a".toList 4090)
      (List.replicate 20 'b'))).length := by
    refine Nat.le_trans ?_ (Path.length_joinPath_drawnOut _ (by decide) (by decide))
    rw [frontLength, List.length_replicate]
    decide
  refine ⟨⟨⟨[], 0⟩, "a".toList, rfl, rfl, by decide, rfl⟩, rfl, ?_, ?_, ?_, ?_, ?_⟩
  · decide +kernel
  · decide +kernel
  · rw [Path.parts_drawnOut]
    decide
  · exact approaches.isDirectory short
  · exact rmdir_long approaches short long (Path.noNull_drawnOut (by decide) _) (by decide) rfl

end Command

end MiniShell
