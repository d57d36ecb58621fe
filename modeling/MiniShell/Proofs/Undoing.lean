/-
This file says that a move can be undone. What is moved to a place where
nothing is leaves its old place vacant, so it can be moved back, and then
everything stands where it stood before.

That the tree is then the same tree, and not only one in which the same things
are found, needs that a directory lists its entries in the order of their
names. Removing an entry and adding one keep that order, and a sorted tree is
determined by what stands in it.
-/

import MiniShell.Proofs.Moving
import MiniShell.Proofs.TextOrder
import MiniShell.Proofs.TreeCopy
import MiniShell.Proofs.TreeRemoval

namespace MiniShell

open MiniShell.Action

variable {tree : FileTree} {entries : List (Text × FileTree)} {session : Session}

/-! ### Adding to a sorted tree -/

namespace FileTree

/-- Names in order. -/
def InOrder (names : List Text) : Prop :=
  names.Pairwise fun earlier later => Text.precedes earlier later = true

instance (names : List Text) : Decidable (InOrder names) :=
  inferInstanceAs (Decidable (List.Pairwise _ _))

theorem InOrder.nodup {names : List Text} (ordered : InOrder names) : names.Nodup :=
  ordered.imp fun before same => by
    rw [same] at before
    exact absurd before (by simp [Text.precedes_asymm before])

/-- A tree as a file system can hold it in which every directory lists its names in order. -/
abbrev Sorted (tree : FileTree) : Prop := tree.Arranged InOrder

theorem Sorted.sound (sorted : tree.Sorted) : tree.Sound :=
  ⟨sorted.named, fun trail entries found => (sorted.listed trail entries found).nodup⟩

theorem Sorted.remove (sorted : tree.Sorted) {place : Trail} (named : place ≠ []) :
    (tree.remove place).Sorted :=
  Arranged.remove sorted sorted.sound (fun sublist ordered => ordered.sublist sublist) named

theorem mem_putEntry {name : Text} {entry : Text × FileTree}
    (member : entry ∈ putEntry name tree entries) : entry = (name, tree) ∨ entry ∈ entries := by
  induction entries with
  | nil => exact Or.inl (List.mem_singleton.mp member)
  | cons first rest inductionHypothesis =>
    obtain ⟨other, old⟩ := first
    rw [putEntry] at member
    split at member
    · exact (List.mem_cons.mp member).imp_right (List.mem_cons_of_mem _)
    · split at member
      · exact List.mem_cons.mp member
      · rcases List.mem_cons.mp member with same | later
        · exact Or.inr (same ▸ List.mem_cons_self ..)
        · exact (inductionHypothesis later).imp_right (List.mem_cons_of_mem _)

/-- An entry is put at the place that the order gives to its name. -/
theorem InOrder.putEntry (ordered : InOrder (entries.map Prod.fst)) (name : Text)
    (tree : FileTree) : InOrder ((putEntry name tree entries).map Prod.fst) := by
  induction entries with
  | nil => exact List.pairwise_singleton ..
  | cons first rest inductionHypothesis =>
    obtain ⟨other, old⟩ := first
    obtain ⟨isFirst, restOrdered⟩ := List.pairwise_cons.mp ordered
    rw [FileTree.putEntry]
    split
    · next same => exact List.pairwise_cons.mpr ⟨same ▸ isFirst, restOrdered⟩
    · next different =>
      split
      · next condition =>
        have before := ((Bool.and_eq_true ..).mp condition).1
        refine List.pairwise_cons.mpr ⟨fun later member => ?_, ordered⟩
        rcases List.mem_cons.mp member with same | further
        · exact same ▸ before
        · exact Text.precedes_trans before (isFirst later further)
      · next condition =>
        have after : Text.precedes other name = true := by
          by_cases before : Text.precedes name other = true
          · rw [before, Bool.true_and, Option.isNone_iff_eq_none] at condition
            obtain ⟨below, found⟩ := Option.ne_none_iff_exists'.mp condition
            exact isFirst name (List.mem_map.mpr ⟨_, mem_of_child? found, rfl⟩)
          · exact Text.precedes_of_ne different (Bool.eq_false_iff.mpr before)
        refine List.pairwise_cons.mpr ⟨fun later member => ?_, inductionHypothesis restOrdered⟩
        obtain ⟨entry, listed, rfl⟩ := List.mem_map.mp member
        rcases mem_putEntry listed with rfl | old
        · exact after
        · exact isFirst entry.1 (List.mem_map_of_mem old)

/-- A sorted directory stays sorted when one of its entries is a sorted tree. -/
theorem Sorted.putEntry (sorted : (directory entries).Sorted) {name : Text}
    (isName : Path.IsEntryName name) (treeSorted : tree.Sorted) :
    (directory (putEntry name tree entries)).Sorted := by
  have itself : (directory entries).get? [] = some (directory entries) := rfl
  have ordered := sorted.listed [] entries itself
  refine arranged_directory (ordered.putEntry name tree) fun entry member => ?_
  rcases mem_putEntry member with rfl | old
  · exact ⟨isName, treeSorted⟩
  · exact ⟨sorted.isEntryName itself (List.mem_map_of_mem old),
      sorted.child rfl (child?_of_mem ordered.nodup old)⟩

/-- A sorted tree stays sorted when a sorted tree is put into it under a name. -/
theorem Sorted.put {new : FileTree} (sorted : tree.Sorted) (newSorted : new.Sorted) {front : Trail}
    {name : Text} (isName : Path.IsEntryName name) : (tree.put (front ++ [name]) new).Sorted := by
  induction front generalizing tree with
  | nil =>
    cases tree with
    | file content => exact sorted
    | directory entries => exact sorted.putEntry isName newSorted
  | cons first rest inductionHypothesis =>
    cases tree with
    | file content => exact sorted
    | directory entries =>
      rw [List.cons_append, put_directory entries first (by simp)]
      cases found : child? first entries with
      | none => exact sorted
      | some below =>
        have stands : ((directory entries).get? ([] ++ [first])).isSome = true := by
          rw [List.nil_append, get?_cons, found]
          rfl
        exact sorted.putEntry (sorted.named [] first stands)
          (inductionHypothesis (sorted.child rfl found))

/-! ### A sorted tree is what stands in it -/

theorem InOrder.nodup_entries (ordered : InOrder (entries.map Prod.fst)) : entries.Nodup :=
  (List.pairwise_map.mp ordered.nodup).imp fun different same => different (congrArg Prod.fst same)

/-- Entries in order are determined by what their names lead to. -/
theorem InOrder.ext {others : List (Text × FileTree)} (ordered : InOrder (entries.map Prod.fst))
    (otherOrdered : InOrder (others.map Prod.fst))
    (same : ∀ name, child? name entries = child? name others) : entries = others := by
  have listed : ∀ entry, entry ∈ entries ↔ entry ∈ others := by
    rintro ⟨name, tree⟩
    refine ⟨fun member => ?_, fun member => ?_⟩
    · exact mem_of_child? (same name ▸ child?_of_mem ordered.nodup member)
    · exact mem_of_child? ((same name).symm ▸ child?_of_mem otherOrdered.nodup member)
  have permuted : entries.Perm others :=
    (List.perm_ext_iff_of_nodup ordered.nodup_entries otherOrdered.nodup_entries).mpr listed
  refine permuted.eq_of_pairwise ?_ (List.pairwise_map.mp ordered)
    (List.pairwise_map.mp otherOrdered)
  intro first second _ _ before after
  exact absurd after (by simp [Text.precedes_asymm before])

/-- Two sorted trees in which the same things stand are the same. -/
theorem Sorted.ext {first second : FileTree} (sorted : first.Sorted) (otherSorted : second.Sorted)
    (same : ∀ trail, first.standing trail = second.standing trail) : first = second := by
  -- A child is smaller than the directory that lists it.
  induction size : sizeOf first using Nat.strongRecOn generalizing first second with
  | ind bound inductionHypothesis =>
    subst size
    cases first with
    | file content =>
      have atTop : second.get? [] = some (file content) := by
        rw [← standing_eq_file_iff, ← same, standing_eq_file_iff]
        rfl
      exact (Option.some.inj atTop).symm
    | directory entries =>
      have atTop : second.HasDirectory [] := by
        rw [hasDirectory_iff_standing, ← same, ← hasDirectory_iff_standing]
        exact ⟨entries, rfl⟩
      obtain ⟨others, isDirectory⟩ := atTop
      obtain rfl := Option.some.inj isDirectory
      have ordered := sorted.listed [] entries rfl
      refine congrArg directory (ordered.ext (otherSorted.listed [] others rfl) fun name => ?_)
      have below : ∀ rest : Trail, ((child? name entries).bind fun tree => tree.standing rest) =
          (child? name others).bind fun tree => tree.standing rest := fun rest => by
        rw [← standing_directory, ← standing_directory, same]
      cases found : child? name entries with
      | none =>
        cases otherFound : child? name others with
        | none => rfl
        | some other =>
          rw [found, otherFound] at below
          exact absurd (below []) (by simp [standing, FileTree.get?])
      | some tree =>
        cases otherFound : child? name others with
        | none =>
          rw [found, otherFound] at below
          exact absurd (below []) (by simp [standing, FileTree.get?])
        | some other =>
          rw [found, otherFound] at below
          have smaller := List.sizeOf_lt_of_mem (mem_of_child? found)
          rw [inductionHypothesis (sizeOf tree) (by simp at smaller ⊢; omega)
            (sorted.child rfl found) (otherSorted.child rfl otherFound) below rfl]

/-! ### Moving and moving back -/

/-- Nothing is left where something has been moved away. -/
theorem get?_moved_source {files : FileTree} (sound : files.Sound) {source target : Trail}
    (named : source ≠ []) (targetNamed : target ≠ []) (unheld : ¬ target <+: source)
    (tree : FileTree) : (files.moved source target tree).get? source = none := by
  rw [← standing_eq_none_iff, moved, (AgreesOff.put _ target tree).outside unheld,
    standing_remove (sound.remove targetNamed) named, if_pos (List.prefix_refl source)]

/-- What stands at a place can be moved to another, where nothing is and which is not below it. -/
structure Movable (files : FileTree) (source target : Trail) (tree : FileTree) : Prop where
  sorted : files.Sorted
  held : files.get? source = some tree
  areNames : ∀ name ∈ target, Path.IsEntryName name
  directory : files.HasDirectory target.dropLast
  vacant : files.get? target = none
  outside : ¬ source <+: target

namespace Movable

variable {files : FileTree} {source target : Trail} (movable : Movable files source target tree)
include movable

theorem source_ne_nil : source ≠ [] := by
  rintro rfl
  exact movable.outside List.nil_prefix

theorem target_ne_nil : target ≠ [] := by
  rintro rfl
  exact absurd movable.vacant (by simp [get?])

theorem exists_last : ∃ front name, target = front ++ [name] :=
  ⟨_, _, (List.dropLast_concat_getLast movable.target_ne_nil).symm⟩

theorem unheld : ¬ target <+: source := by
  rintro ⟨rest, rfl⟩
  have held := movable.held
  rw [get?_append, movable.vacant] at held
  exact absurd held (by simp)

theorem sorted_moved : (files.moved source target tree).Sorted := by
  have sorted := (movable.sorted.remove movable.target_ne_nil).remove movable.source_ne_nil
  obtain ⟨front, name, rfl⟩ := movable.exists_last
  exact sorted.put (movable.sorted.get? movable.held) (movable.areNames name (by simp))

theorem get?_target : (files.moved source target tree).get? target = some tree := by
  obtain ⟨front, name, rfl⟩ := movable.exists_last
  have holds := movable.directory
  rw [List.dropLast_concat] at holds
  exact get?_moved holds
    (fun isPrefix => movable.outside (isPrefix.trans (List.prefix_append ..))) tree

/-- What stands where after a move. -/
theorem standing_moved (trail : Trail) :
    (files.moved source target tree).standing trail =
      if target <+: trail then tree.standing (trail.drop target.length)
      else if source <+: trail then none else files.standing trail := by
  split
  · next within =>
    obtain ⟨rest, rfl⟩ := within
    rw [standing_append, movable.get?_target, Option.bind_some, List.drop_left]
  · next without =>
    have removed := movable.sorted.sound.remove movable.target_ne_nil
    rw [moved, (AgreesOff.put _ target tree).outside without,
      standing_remove removed movable.source_ne_nil,
      standing_remove movable.sorted.sound movable.target_ne_nil, if_neg without]

theorem get?_source : (files.moved source target tree).get? source = none :=
  get?_moved_source movable.sorted.sound movable.source_ne_nil movable.target_ne_nil movable.unheld
    tree

theorem source_directory : files.HasDirectory source.dropLast := by
  refine hasDirectory_of_isSome (List.cons_ne_nil (source.getLast movable.source_ne_nil) []) ?_
  rw [List.dropLast_concat_getLast, movable.held]
  rfl

/-- What has been moved can be moved back. -/
theorem back :
    Movable (files.moved source target tree) target source tree where
  sorted := movable.sorted_moved
  held := movable.get?_target
  areNames := movable.sorted.areNames (by rw [movable.held]; rfl)
  directory := by
    -- What held the source lies neither below the source nor below the target.
    have stood := movable.source_directory
    have notBelow : ¬ source <+: source.dropLast := fun isPrefix => by
      have shorter := isPrefix.length_le
      have nonempty := List.length_pos_iff.mpr movable.source_ne_nil
      rw [List.length_dropLast] at shorter
      omega
    rw [hasDirectory_iff_standing] at stood ⊢
    rw [movable.standing_moved, if_neg notBelow, if_neg, stood]
    exact fun isPrefix => movable.unheld (isPrefix.trans (List.dropLast_prefix source))
  vacant := movable.get?_source
  outside := movable.unheld

/-- Moving back restores the tree. -/
theorem moved_moved : (files.moved source target tree).moved target source tree = files := by
  refine movable.back.sorted_moved.ext movable.sorted fun trail => ?_
  rw [movable.back.standing_moved, movable.standing_moved]
  by_cases within : source <+: trail
  · obtain ⟨rest, rfl⟩ := within
    rw [if_pos (List.prefix_append ..), List.drop_left, standing_append, movable.held,
      Option.bind_some]
  · rw [if_neg within, if_neg within]
    split
    · next vacant =>
      obtain ⟨rest, rfl⟩ := vacant
      rw [standing_append, movable.vacant]
      rfl
    · rfl

end Movable

end FileTree

/-! ### Paths that can be used -/

/-- A path that goes down by names and ends with one, with no name and no path too long for a file
system. -/
structure Path.IsUsable (path : Text) : Prop where
  nonempty : path ≠ []
  relative : Text.isAbsolute path = false
  tight : path.getLast? ≠ some '/'
  areNames : ∀ part ∈ (Path.ofText path).parts, Path.IsEntryName part
  short : (Text.encode path).length < Path.tooLong

namespace Surroundings

variable {surroundings : Surroundings}

theorem follow_removed {first location : Location} (gone : first.removed ≠ 0) {names : List Text}
    (areNames : ∀ name ∈ names, Path.IsName name)
    (followed : surroundings.follow first names = .ok location) : location = first := by
  cases names with
  | nil => exact (Except.ok.inj followed).symm
  | cons name rest =>
    rw [follow] at followed
    cases entered : surroundings.enter first name with
    | error error => simp [entered] at followed
    | ok next => exact absurd (enter_inv (areNames name (by simp)) entered).1 gone

/-- From a removed directory no path leads down. -/
theorem pathExists_removed (gone : surroundings.location.removed ≠ 0) {path : Text}
    (plain : Command.IsPlain path) : surroundings.pathExists path = false := by
  have started : surroundings.start (Path.ofText path) =
      .ok (surroundings.location, (Path.ofText path).parts) := by
    rw [start, if_neg (by simp [Path.ofText, plain.relative])]
  have areNames := plain.areNames
  obtain ⟨front, last, isLast⟩ := Path.exists_last_part plain.nonempty plain.relative
  rw [isLast] at started areNames
  have isName := areNames last (by simp)
  by_cases long : Path.tooLong ≤ (Text.encode path).length
  · simp [pathExists, find, goal_long long]
  cases followed : surroundings.follow surroundings.location front with
  | error error => simp [pathExists, find, goal, plain.nonempty, long, started, followed]
  | ok location =>
    obtain rfl := follow_removed gone (fun name member => areNames name (by simp [member])) followed
    have reached := goal_of_follow plain.nonempty (Nat.lt_of_not_le long) started followed
    rw [if_neg isName.notHere, if_neg isName.notAbove] at reached
    simp [pathExists, find, reached, entryAt, gone]

end Surroundings

namespace Session

variable {path : Text}

/-- Where a path of names leads anywhere, the working directory stands and the path leads down from
there. -/
theorem exists_place (plain : Command.IsPlain path)
    (isThere : session.surroundings.pathExists path = true) :
    session.location.removed = 0 ∧
      ∃ tree, session.files.get? (session.placeOf path) = some tree := by
  have stands : session.location.removed = 0 := Decidable.not_not.mp fun gone => by
    have nowhere : session.surroundings.pathExists path = false :=
      Surroundings.pathExists_removed gone plain
    exact absurd (isThere.symm.trans nowhere) (by simp)
  refine ⟨stands, Option.isSome_iff_exists.mp ?_⟩
  have atHere : session.surroundings.location = ⟨session.location.trail, 0⟩ := by
    rw [← stands]; rfl
  cases leads : session.surroundings.find path with
  | error error => simp [Surroundings.pathExists, leads] at isThere
  | ok found => exact Surroundings.isSome_of_find atHere plain.relative plain.areNames leads

theorem EndsAt.find_vacant {place : Trail} {slash : Bool} (endsAt : session.EndsAt path place slash)
    (vacant : session.files.get? place = none) :
    session.surroundings.find path = .error .noEntry := by
  obtain ⟨location, name, reached, stands, short, rfl⟩ := endsAt
  simp [Surroundings.find, reached, entryAt_short stands short, vacant]

theorem EndsAt.pathExists {place : Trail} (endsAt : session.EndsAt path place false)
    (held : session.files.get? place = some tree) :
    session.surroundings.pathExists path = true := by
  obtain ⟨location, name, reached, stands, short, rfl⟩ := endsAt
  cases tree <;> simp [Surroundings.pathExists, Surroundings.find, reached,
    entryAt_short stands short, held]

end Session

namespace Path.IsUsable

variable {path : Text}

theorem noNull (usable : IsUsable path) : '\x00' ∉ path :=
  noNull_of_parts fun part member => (usable.areNames part member).noNull

/-- A path that leads anywhere can be used. -/
theorem of_pathExists (sound : session.files.Sound) (plain : Command.IsPlain path)
    (tight : path.getLast? ≠ some '/') (isThere : session.surroundings.pathExists path = true) :
    IsUsable path where
  nonempty := plain.nonempty
  relative := plain.relative
  tight := tight
  areNames part member := by
    obtain ⟨-, tree, held⟩ := Session.exists_place plain isThere
    have stands : (session.files.get? (session.placeOf path)).isSome = true := by rw [held]; rfl
    exact sound.areNames stands part (List.mem_append_right _ member)
  short := Nat.lt_of_not_le fun long => by
    simp [Surroundings.pathExists, Surroundings.find, Surroundings.goal_long long] at isThere

theorem endsAt (usable : IsUsable path) (stands : session.location.removed = 0)
    (directory : session.files.HasDirectory (session.placeOf path).dropLast) :
    session.EndsAt path (session.placeOf path) false := by
  obtain ⟨front, last, isLast⟩ := exists_last_part usable.nonempty usable.relative
  have areNames := usable.areNames
  rw [Session.placeOf, isLast, ← List.append_assoc] at directory ⊢
  rw [List.dropLast_concat] at directory
  rw [isLast] at areNames
  have atHere : session.location = ⟨session.location.trail, 0⟩ := by rw [← stands]
  exact .of_goesDown atHere ⟨usable.relative, isLast, usable.tight⟩ areNames usable.short directory

/-- The place that a path leads down to is not on the way to the working directory. -/
theorem not_above (usable : IsUsable path) : ¬ session.placeOf path <+: session.location.trail :=
  fun isPrefix => parts_ne_nil usable.nonempty usable.relative
    (List.append_right_eq_self.mp (isPrefix.eq_of_length_le (by simp [Session.placeOf])))

end Path.IsUsable

/-! ### Moving by paths -/

/-- The session after what stood at one place has been moved to another. -/
def Session.moving (session : Session) (source target : Trail) (tree : FileTree) : Session :=
  { session.without target with
    files := session.files.moved source target tree
    location := (session.without target).location.afterMove source target
    inputs := (session.without target).inputs.map (streamAfterMove source target) }

/-- A move elsewhere leaves the working directory where it is. -/
theorem Session.location_moving {source target : Trail}
    (unmoved : ¬ source <+: session.location.trail)
    (unreplaced : ¬ target <+: session.location.trail) (tree : FileTree) :
    (session.moving source target tree).location = session.location := by
  simp [moving, without, Location.afterRemoval, Location.afterMove, Location.movedTrail,
    List.isPrefixOf_iff_prefix, unmoved, unreplaced]

theorem Action.start_moveTree (source target : Trail) (tree : FileTree) (session : Session) :
    (moveTree source target tree).start session = (.ok ⟨⟩, session.moving source target tree) := rfl

/-- A rename to a place where nothing is moves what stands at the old one. -/
theorem Action.start_rename {old new : Text} {source target : Trail} (noNull : '\x00' ∉ old)
    (newNoNull : '\x00' ∉ new) (oldEnds : session.EndsAt old source false)
    (newEnds : session.EndsAt new target false)
    (movable : session.files.Movable source target tree) :
    (rename old new).start session = (.ok ⟨⟩, session.moving source target tree) := by
  obtain ⟨oldLocation, oldName, oldReached, oldStands, oldShort, rfl⟩ := oldEnds
  obtain ⟨newLocation, newName, newReached, newStands, newShort, rfl⟩ := newEnds
  have outside : ¬ oldLocation.trail ++ [oldName] <+: newLocation.trail := fun isPrefix =>
    movable.outside (isPrefix.trans (List.prefix_append ..))
  have unheld : ¬ newLocation.trail ++ [newName] <+: oldLocation.trail := fun isPrefix =>
    movable.unheld (isPrefix.trans (List.prefix_append ..))
  have different : ¬ (oldLocation.trail = newLocation.trail ∧ oldName = newName) := by
    rintro ⟨sameTrail, rfl⟩
    exact movable.outside (sameTrail ▸ List.prefix_refl _)
  simp [rename, checkPath, start_bind, start_orRefuse, start_entryAt, noNull, newNoNull, oldReached,
    newReached, entryAt_short oldStands oldShort, entryAt_short newStands newShort, movable.held,
    movable.vacant, List.isPrefixOf_iff_prefix, outside, unheld, newStands, different,
    start_moveTree]

namespace Command

theorem start_movePairs (force : Bool) (source target : Text) (session : Session) :
    (movePairs force [source, target]).start session =
      (move source target force).start session := by
  rw [movePairs, start_bind]
  rcases (move source target force).start session with ⟨fault | ⟨⟩, after⟩ <;> rfl

theorem start_mv_pair {source : Text} (unforced : source ≠ "-f".toList) (target : Text)
    (session : Session) :
    (mv [source, target]).start session = (move source target false).start session := by
  have pairs : mv [source, target] = movePairs false [source, target] := if_neg unforced
  rw [pairs, start_movePairs]

/-- A move to a path that leads nowhere is a rename. -/
theorem start_move {source target : Text} (isThere : session.surroundings.pathExists source = true)
    {error : SystemError} (nowhere : session.surroundings.find target = .error error) :
    (move source target false).start session = (rename source target).start session := by
  have free : session.surroundings.pathExists target = false := by
    rw [Surroundings.pathExists, nowhere]
  have noDirectory : session.surroundings.isDirectory target = false := by
    rw [Surroundings.isDirectory, nowhere]
  simp [move, start_bind, start_pathExists, start_isDirectory, isThere, noDirectory, free]

/-- What is movable is moved. -/
theorem start_mv (stands : session.location.removed = 0) {source target : Text}
    (unforced : source ≠ "-f".toList) (usable : Path.IsUsable source)
    (usableTarget : Path.IsUsable target)
    (movable : session.files.Movable (session.placeOf source) (session.placeOf target) tree) :
    (mv [source, target]).start session =
      (.ok ⟨⟩, session.moving (session.placeOf source) (session.placeOf target) tree) := by
  have sourceEnds := usable.endsAt stands movable.source_directory
  have targetEnds := usableTarget.endsAt stands movable.directory
  have once := start_move (sourceEnds.pathExists movable.held)
    (targetEnds.find_vacant movable.vacant)
  have renamed := start_rename usable.noNull usableTarget.noNull sourceEnds targetEnds movable
  rw [start_mv_pair unforced, once, renamed]

/-- Moving something to a place where nothing is, in a directory that stands and not below what is
moved. It is found at its new place as it was, nothing is left of it at its old one, nothing else
changes, and moving it back restores the whole tree. -/
theorem mv_undone {session : Session} (sorted : session.files.Sorted) {source target : Text}
    (unforced : source ≠ "-f".toList) (unforcedTarget : target ≠ "-f".toList)
    (plain : IsPlain source) (tight : source.getLast? ≠ some '/')
    (isThere : session.surroundings.pathExists source = true) (usable : Path.IsUsable target)
    (vacant : session.files.get? (session.placeOf target) = none)
    (directory : session.files.HasDirectory (session.placeOf target).dropLast)
    (outside : ¬ session.placeOf source <+: session.placeOf target) :
    ∃ tree moved restored, session.files.get? (session.placeOf source) = some tree ∧
      (mv [source, target]).start session = (.ok ⟨⟩, moved) ∧
      moved.location = session.location ∧
      moved.files.get? (session.placeOf target) = some tree ∧
      moved.files.get? (session.placeOf source) = none ∧
      (∀ trail, ¬ session.placeOf source <+: trail → ¬ session.placeOf target <+: trail →
        moved.files.standing trail = session.files.standing trail) ∧
      (mv [target, source]).start moved = (.ok ⟨⟩, restored) ∧
      restored.location = session.location ∧ restored.files = session.files := by
  obtain ⟨stands, tree, held⟩ := Session.exists_place plain isThere
  have usableSource := Path.IsUsable.of_pathExists sorted.sound plain tight isThere
  have onWay : (session.files.get? (session.placeOf source)).isSome = true := by rw [held]; rfl
  have areNames : ∀ name ∈ session.placeOf target, Path.IsEntryName name := fun name member =>
    (List.mem_append.mp member).elim
      (fun here => sorted.areNames onWay name (List.mem_append_left _ here)) (usable.areNames name)
  have movable : session.files.Movable (session.placeOf source) (session.placeOf target) tree :=
    ⟨sorted, held, areNames, directory, vacant, outside⟩
  let moved := session.moving (session.placeOf source) (session.placeOf target) tree
  -- The working directory stays where it is, so the two paths still lead to the same places.
  have here : moved.location = session.location :=
    Session.location_moving usableSource.not_above usable.not_above tree
  have samePlace : ∀ path, moved.placeOf path = session.placeOf path := fun path =>
    congrArg (fun location : Location => location.trail ++ (Path.ofText path).parts) here
  have back : moved.files.Movable (moved.placeOf target) (moved.placeOf source) tree := by
    rw [samePlace, samePlace]
    exact movable.back
  have movedBack := start_mv (here ▸ stands) unforcedTarget usable usableSource back
  refine ⟨tree, moved, _, held, start_mv stands unforced usableSource usable movable, here,
    movable.get?_target, movable.get?_source, fun trail unmoved unreplaced => ?_, movedBack, ?_, ?_⟩
  · exact (movable.standing_moved trail).trans (by rw [if_neg unreplaced, if_neg unmoved])
  · exact (Session.location_moving usable.not_above usableSource.not_above tree).trans here
  · rw [samePlace, samePlace]
    exact movable.moved_moved

theorem sorted_namesakeSession : namesakeSession.files.Sorted := by
  have inner : (FileTree.directory [("a".toList, .file (Text.encode "old\n".toList)),
      ("e".toList, .directory [])]).Sorted :=
    FileTree.arranged_directory (by decide) (List.forall_mem_cons.mpr
      ⟨⟨by decide, FileTree.arranged_file _⟩, List.forall_mem_singleton.mpr
        ⟨by decide, FileTree.arranged_directory (by decide) (by simp)⟩⟩)
  exact FileTree.arranged_directory (by decide) (List.forall_mem_cons.mpr
    ⟨⟨by decide, FileTree.arranged_file _⟩, List.forall_mem_singleton.mpr ⟨by decide, inner⟩⟩)

/-- A directory takes a new name, with what is in it, and gets its old name back. -/
theorem mv_undone_directory :
    namesakeSession.files.Sorted ∧ namesakeSession.surroundings.pathExists "d".toList = true ∧
      Path.IsUsable "c".toList ∧
      ∃ moved restored, (mv ["d".toList, "c".toList]).start namesakeSession = (.ok ⟨⟩, moved) ∧
        moved.files.get? ["c".toList, "a".toList] = some (.file (Text.encode "old\n".toList)) ∧
        moved.files.get? ["d".toList] = none ∧
        (mv ["c".toList, "d".toList]).start moved = (.ok ⟨⟩, restored) ∧
        restored.files = namesakeSession.files := by
  have isThere : namesakeSession.surroundings.pathExists "d".toList = true := rfl
  have held : (namesakeSession.files.get? ["d".toList]).isSome = true := rfl
  have plain : IsPlain "d".toList := ⟨by decide, by decide, fun part member =>
    (sorted_namesakeSession.areNames held part member).toIsName⟩
  have usable : Path.IsUsable "c".toList :=
    ⟨by decide, by decide, by decide, by decide, by decide⟩
  obtain ⟨tree, moved, restored, stood, once, -, found, gone, -, back, -, same⟩ :=
    mv_undone sorted_namesakeSession (by decide) (by decide) plain (by decide) isThere usable rfl
      ⟨_, rfl⟩ (by decide)
  refine ⟨sorted_namesakeSession, isThere, usable, moved, restored, once, ?_, gone, back, same⟩
  obtain rfl := Option.some.inj stood
  have atNew : moved.files.get? ["c".toList] = some (.directory
      [("a".toList, .file (Text.encode "old\n".toList)), ("e".toList, .directory [])]) := found
  exact (FileTree.get?_append moved.files ["c".toList] ["a".toList]).trans (by rw [atNew]; rfl)

/-- Nothing is moved to a path that is too long. -/
theorem mv_long {source target : Text} (unforced : source ≠ "-f".toList)
    (isThere : session.surroundings.pathExists source = true)
    (long : Path.tooLong ≤ (Text.encode target).length) :
    ((mv [source, target]).start session).1.toOption = none := by
  have nowhere : session.surroundings.find target = .error .nameTooLong := by
    rw [Surroundings.find, Surroundings.goal_long long]
  rw [start_mv_pair unforced, start_move isThere nowhere]
  rcases ended : (rename source target).start session with ⟨fault | ⟨⟩, after⟩
  · rfl
  · obtain ⟨_, _, _, _, _, -, ⟨_, _, reached, -⟩, -⟩ := rename_inv ended
    exact absurd (reached.symm.trans (Surroundings.goal_long long)) (by simp)

/-- A name that is too long, a name with a null character and a path that is too long are not taken,
although nothing is there. -/
theorem mv_refuses_unusable :
    ((mv ["a".toList, List.replicate 256 'b']).start namesakeSession).1.toOption = none ∧
      ((mv ["a".toList, "b\x00".toList]).start namesakeSession).1.toOption = none ∧
      (Path.ofText (Text.joinPath (Path.drawnOut "d".toList 4095) "b".toList)).parts =
        ["d".toList, "b".toList] ∧
      ((mv ["a".toList, Text.joinPath (Path.drawnOut "d".toList 4095) "b".toList]).start
        namesakeSession).1.toOption = none := by
  refine ⟨by decide +kernel, by decide +kernel, ?_, mv_long (by decide) rfl ?_⟩
  · rw [Path.parts_joinPath _ (by decide), Path.parts_drawnOut]
    decide
  · refine Nat.le_trans ?_ (Path.length_joinPath_drawnOut _ (by decide) (by decide))
    decide

end Command

end MiniShell
