/-
This file says what a recursive copy makes of a directory: at a place where
nothing was, a directory with the same directories and files, each file with
the same text. The copy goes down through the source, and at every directory it
makes a directory in the target and copies the files. Everything that it makes
is given by a plan, which says what stands where at the end.

The invariant of the copy is that the source stands as it did, that the plan is
carried out wherever the walk has been, and that nothing else has changed. In
which order a directory lists its names does not matter, as long as none of
them comes twice.
-/

import MiniShell.Proofs.Encoding
import MiniShell.Proofs.Overwriting
import MiniShell.Proofs.Walking

namespace MiniShell

open MiniShell.Action

variable {way : Trail} {name : Text} {content : List UInt8} {session : Session}
  {entries : List (Text × FileTree)}

/-! ### Making directories -/

namespace Action

variable {path : Text}

theorem start_makeDirectory (noNull : '\x00' ∉ path) {place : Trail} {slash : Bool}
    (endsAt : session.EndsAt path place slash) (vacant : session.files.get? place = none) :
    (makeDirectory path).start session =
      (.ok ⟨⟩, session.withFiles (session.files.put place .empty)) := by
  obtain ⟨location, name, reached, stands, short, rfl⟩ := endsAt
  simp [makeDirectory, start_bind, start_goal, start_entryAt, noNull, reached, stands,
    entryAt_short stands short, vacant, putTree, Session.withFiles]

/-- Where the directory that holds the last name of a path is there, it is enough to make one. -/
theorem start_makeDirectory_goesDown {here : Trail} {front : List Text} {last : Text}
    (atHere : session.location = ⟨here, 0⟩) (goesDown : Path.GoesDown path (front ++ [last]))
    (areNames : ∀ name ∈ front ++ [last], Path.IsEntryName name)
    (short : (Text.encode path).length < Path.tooLong)
    (stands : session.files.HasDirectory (here ++ front))
    (vacant : session.files.get? (here ++ (front ++ [last])) = none) :
    (makeDirectory path).start session =
      (.ok ⟨⟩, session.withFiles (session.files.grow (here ++ (front ++ [last])))) := by
  have noNull : '\x00' ∉ path := Path.noNull_of_parts fun part member =>
    (areNames part (goesDown.parts ▸ member)).noNull
  rw [← List.append_assoc] at vacant ⊢
  rw [start_makeDirectory noNull (.of_goesDown atHere goesDown areNames short stands) vacant,
    FileTree.put_empty stands vacant]

theorem start_tryCatch_ok {Result : Type} {action : Action Result}
    {handle : Fault → Action Result} {after : Session} {result : Result}
    (ran : action.start session = (.ok result, after)) :
    (tryCatch action handle).start session = (.ok result, after) := by
  rw [start_tryCatch, ran]

/-- A directory is made at once if the directory that is to hold it is there. -/
theorem makeDirectories_within (steps : Nat) (named : Text.baseName path ≠ [])
    (held : Text.parentPath path = [] ∨
      session.surroundings.pathExists (Text.parentPath path) = true)
    {after : Session} (made : (makeDirectory path).start session = (.ok ⟨⟩, after)) :
    (makeDirectories (steps + 1) path).start session = (.ok ⟨⟩, after) := by
  rw [makeDirectories]
  simp only [named, if_false]
  rw [start_bind_ok (start_pathExists ..), if_neg]
  · exact start_tryCatch_ok made
  · rcases held with nothing | isThere
    · simp [nothing]
    · simp [isThere]

/-- Otherwise the directory that is to hold it is made first. A path that ends in staying needs no
other one. -/
theorem makeDirectories_onward {steps : Nat} (named : Text.baseName path ≠ [])
    (further : Text.parentPath path ≠ [])
    (missing : session.surroundings.pathExists (Text.parentPath path) = false)
    {between after : Session}
    (parentMade : (makeDirectories steps (Text.parentPath path)).start session =
      (.ok ⟨⟩, between))
    (made : (if Text.baseName path = Path.here then pure () else makeDirectory path).start between =
      (.ok ⟨⟩, after)) :
    (makeDirectories (steps + 1) path).start session = (.ok ⟨⟩, after) := by
  rw [makeDirectories]
  simp only [named, if_false]
  rw [start_bind_ok (start_pathExists ..), if_pos (by simp [named, further, missing]),
    start_bind_ok (start_tryCatch_ok parentMade)]
  split
  · next stays =>
    rw [if_pos stays] at made
    exact made
  · next leaves =>
    rw [if_neg leaves] at made
    exact start_tryCatch_ok made

/-- A path that goes down leads somewhere only if something stands at its end. -/
theorem pathExists_goesDown {here : Trail} {names : List Text}
    (atHere : session.location = ⟨here, 0⟩) (goesDown : Path.GoesDown path names)
    (areNames : ∀ name ∈ names, Path.IsEntryName name)
    (vacant : session.files.get? (here ++ names) = none) :
    session.surroundings.pathExists path = false := by
  unfold Surroundings.pathExists
  cases leads : session.surroundings.find path with
  | error error => rfl
  | ok found =>
    have stands : (session.files.get? (here ++ (Path.ofText path).parts)).isSome = true :=
      Surroundings.isSome_of_find atHere goesDown.relative
        (fun name member => (areNames name (goesDown.parts ▸ member)).toIsName) leads
    rw [goesDown.parts, vacant] at stands
    exact absurd stands (by simp)

/-- Making a directory with those that lead to it. -/
theorem start_makeDirectories {here : Trail} {names : List Text}
    (atHere : session.location = ⟨here, 0⟩) (holds : session.files.HasDirectory here)
    (goesDown : Path.GoesDown path names) (named : names ≠ [])
    (areNames : ∀ name ∈ names, Path.IsEntryName name)
    (short : (Text.encode path).length < Path.tooLong)
    (passable : session.files.Passable (here ++ names))
    (vacant : session.files.get? (here ++ names) = none) {steps : Nat}
    (enough : names.length ≤ steps) :
    (makeDirectories steps path).start session =
      (.ok ⟨⟩, session.withFiles (session.files.grow (here ++ names))) := by
  -- One step is spent on every name, from the last one to the first that is there.
  induction steps generalizing path names with
  | zero => exact absurd (List.eq_nil_of_length_eq_zero (Nat.le_zero.mp enough)) named
  | succ steps inductionHypothesis =>
    obtain ⟨front, last, rfl⟩ := (List.eq_nil_or_concat names).resolve_left named
    rw [List.concat_eq_append] at *
    have isName := areNames last (by simp)
    rcases goesDown.cut with ⟨rfl, isBase, noParent⟩ | ⟨isBase, further, parentDown, shorter⟩
    · refine makeDirectories_within steps (isBase ▸ isName.nonempty) (Or.inl noParent) ?_
      exact start_makeDirectory_goesDown atHere goesDown areNames short
        (by rwa [List.append_nil]) vacant
    have frontNames : ∀ name ∈ front, Path.IsEntryName name := fun name member =>
      areNames name (List.mem_append_left _ member)
    have onWay : here ++ front <+: here ++ (front ++ [last]) := by simp
    have parentShort : (Text.encode (Text.parentPath path)).length < Path.tooLong :=
      Nat.lt_trans shorter short
    cases found : session.files.get? (here ++ front) with
    | some tree =>
      have stands : session.files.HasDirectory (here ++ front) := by
        cases tree with
        | directory entries => exact ⟨entries, found⟩
        | file content => exact absurd found (passable _ content onWay)
      have isThere : session.surroundings.pathExists (Text.parentPath path) = true := by
        have approaches : session.surroundings.Approaches (Text.parentPath path)
            (here ++ (Path.ofText (Text.parentPath path)).parts) := by
          refine .of_relative atHere further parentDown.relative ?_ ?_
          · rwa [parentDown.parts]
          · rwa [parentDown.parts]
        exact approaches.pathExists parentShort
      exact makeDirectories_within steps (isBase ▸ isName.nonempty) (Or.inr isThere)
        (start_makeDirectory_goesDown atHere goesDown areNames short stands vacant)
    | none =>
      have frontNamed : front ≠ [] := by
        rintro rfl
        obtain ⟨entries, isDirectory⟩ := holds
        rw [List.append_nil, isDirectory] at found
        exact absurd found (by simp)
      have parentMade := inductionHypothesis parentDown frontNamed frontNames parentShort
        (passable.above onWay) found (by simpa using enough)
      -- The directories above are made first, and they do not fill the place itself.
      let between := session.withFiles (session.files.grow (here ++ front))
      have grown := FileTree.standing_grow (passable.above onWay)
      have stands : between.files.HasDirectory (here ++ front) := by
        rw [FileTree.hasDirectory_iff_standing]
        exact (grown _).trans (if_pos (List.prefix_refl _))
      have stillVacant : between.files.get? (here ++ (front ++ [last])) = none := by
        rw [← FileTree.standing_eq_none_iff] at vacant ⊢
        refine (grown _).trans ((if_neg fun isPrefix => ?_).trans vacant)
        simpa using isPrefix.eq_of_length_le (by simp)
      have made : (makeDirectory path).start between = (.ok ⟨⟩,
          between.withFiles (between.files.grow (here ++ (front ++ [last])))) :=
        start_makeDirectory_goesDown atHere goesDown areNames short stands stillVacant
      refine makeDirectories_onward (isBase ▸ isName.nonempty) further
        (pathExists_goesDown atHere parentDown frontNames found) parentMade ?_
      rw [if_neg (isBase ▸ isName.notHere)]
      refine made.trans ?_
      have regrown := session.files.grow_append (here ++ front) [last]
      rw [List.append_assoc] at regrown
      exact congrArg (fun files => (Except.ok (), session.withFiles files)) regrown

end Action

/-! ### What a copy starts from -/

/-- The place that a path of names leads to from the working directory. -/
def Session.placeOf (session : Session) (path : Text) : Trail :=
  session.location.trail ++ (Path.ofText path).parts

/-- A file with the line ends of its text unified. -/
def FileTree.unified : FileTree → FileTree
  | file content =>
    file (((Text.decode content).toOption.map fun text =>
      Text.encode (Text.unifyNewlines text)).getD content)
  | directory entries => directory entries

theorem FileTree.unified_file {text : Text} (decoded : Text.decode content = .ok text) :
    (file content).unified = file (Text.encode (Text.unifyNewlines text)) := by
  simp [unified, decoded, Except.toOption]

namespace Command

/-- A path that starts at the working directory and goes down by names. -/
structure IsPlain (path : Text) : Prop where
  nonempty : path ≠ []
  relative : Text.isAbsolute path = false
  areNames : ∀ part ∈ (Path.ofText path).parts, Path.IsName part

/-- The paths that a copy forms are not too long, and neither are the new names. A file at the top
is copied by a path that stays in the target before it goes down. -/
structure CopyFits (session : Session) (source target : Text) : Prop where
  names : ∀ part ∈ (Path.ofText target).parts, Path.IsEntryName part
  top : (Text.encode (Text.dropEnd Text.isSlash target)).length < Path.tooLong
  originals : ∀ way, (session.files.get? (session.placeOf source ++ way)).isSome = true →
    (Text.encode (Text.below source way)).length < Path.tooLong
  directories : ∀ way, way ≠ [] → session.files.HasDirectory (session.placeOf source ++ way) →
    (Text.encode (Text.below target way)).length < Path.tooLong
  files : ∀ way name content,
    session.files.get? (session.placeOf source ++ way ++ [name]) = some (.file content) →
    (Text.encode (copyPath target way name)).length < Path.tooLong

/-- A directory that can be copied to a place where nothing is. -/
structure Copyable (session : Session) (source target : Text) : Prop where
  sound : session.files.Sound
  stands : session.location.removed = 0
  plain : IsPlain source
  plainTarget : IsPlain target
  directory : session.files.HasDirectory (session.placeOf source)
  vacant : session.files.get? (session.placeOf target) = none
  passable : session.files.Passable (session.placeOf target)
  outside : ¬ session.placeOf source <+: session.placeOf target
  decodable : ∀ way content,
    session.files.get? (session.placeOf source ++ way) = some (.file content) →
    ∃ text, Text.decode content = .ok text
  fits : CopyFits session source target

/-- What stands where after a directory has been copied. -/
def copyPlan (session : Session) (source target : Trail) (trail : Trail) : Option FileTree :=
  if trail <+: target then some .empty
  else (session.files.standing (source ++ trail.drop target.length)).map FileTree.unified

theorem copyPlan_append {source : Trail} (directory : session.files.HasDirectory source)
    (target way : Trail) :
    copyPlan session source target (target ++ way) =
      (session.files.standing (source ++ way)).map FileTree.unified := by
  unfold copyPlan
  split
  · next isPrefix =>
    have none : way = [] := by
      simpa using isPrefix.eq_of_length_le (by simp)
    rw [none, List.append_nil, (FileTree.hasDirectory_iff_standing ..).mp directory]
    rfl
  · rw [List.drop_left]

/-- The plan has a directory at every place that leads to a directory. -/
theorem copyPlan_within {source target : Trail}
    (directory : session.files.HasDirectory (source ++ way)) {trail : Trail}
    (isPrefix : trail <+: target ++ way) : copyPlan session source target trail = some .empty := by
  rcases List.prefix_or_prefix_of_prefix isPrefix (List.prefix_append target way) with
    above | ⟨rest, rfl⟩
  · rw [copyPlan, if_pos above]
  · have onWay : source ++ rest <+: source ++ way :=
      (List.prefix_append_right_inj _).mpr ((List.prefix_append_right_inj _).mp isPrefix)
    rw [copyPlan_append (directory.above (List.prefix_append ..)),
      (FileTree.hasDirectory_iff_standing ..).mp (directory.above onWay)]
    rfl

/-- What holds while a directory is copied: only the files have changed, and none of them in the
source. -/
structure Copying (session : Session) (source : Trail) (current : Session) : Prop where
  same : current = session.withFiles current.files
  source : current.files.get? source = session.files.get? source

namespace Copyable

variable {current : Session} {source target : Text}

theorem get?_source (copying : Copying session (session.placeOf source) current) (way : Trail) :
    current.files.get? (session.placeOf source ++ way) =
      session.files.get? (session.placeOf source ++ way) := by
  rw [FileTree.get?_append, FileTree.get?_append, copying.source]

variable (copyable : Copyable session source target)
include copyable

/-- The target does not hold the source, because nothing is there. -/
theorem unheld : ¬ session.placeOf target <+: session.placeOf source := by
  intro isPrefix
  obtain ⟨entries, found⟩ := copyable.directory.above isPrefix
  exact absurd (copyable.vacant.symm.trans found) (by simp)

/-- No place below the target holds the source or is below it. -/
theorem apart (way : Trail) :
    ¬ session.placeOf target ++ way <+: session.placeOf source ∧
      ¬ session.placeOf source <+: session.placeOf target ++ way := by
  refine ⟨fun isPrefix => copyable.unheld ((List.prefix_append ..).trans isPrefix), ?_⟩
  intro isPrefix
  rcases List.prefix_or_prefix_of_prefix isPrefix
    (List.prefix_append (session.placeOf target) way) with above | below
  · exact copyable.outside above
  · exact copyable.unheld below

/-- The names on the way to what stands in the source. -/
theorem wayNames (stands : (session.files.get? (session.placeOf source ++ way)).isSome = true) :
    ∀ name ∈ way, Path.IsEntryName name := fun name member =>
  copyable.sound.areNames stands name (List.mem_append_right _ member)

theorem sourceNames : ∀ name ∈ (Path.ofText source).parts, Path.IsEntryName name := by
  exact fun name member =>
    copyable.sound.areNames copyable.directory.isSome name (List.mem_append_right _ member)

/-- The paths that lead to what stands in the source. -/
theorem noNull_below (stands : (session.files.get? (session.placeOf source ++ way)).isSome = true) :
    '\x00' ∉ Text.below source way := by
  have noNull : '\x00' ∉ source := Path.noNull_of_parts fun part member =>
    (copyable.sourceNames part member).noNull
  exact Path.noNull_below noNull fun part member => (copyable.wayNames stands part member).noNull

theorem noNull_copyPath (areNames : ∀ part ∈ way, Path.IsEntryName part)
    (isName : Path.IsEntryName name) : '\x00' ∉ copyPath target way name := by
  have noNull : '\x00' ∉ target := Path.noNull_of_parts fun part member =>
    (copyable.fits.names part member).noNull
  refine Path.noNull_joinPath ?_ isName.noNull
  by_cases stays : way = []
  · rw [stays]
    exact Path.noNull_joinPath noNull (by decide)
  · rw [Path.joinPath_wayDown target (fun part member => (areNames part member).toIsName) stays]
    exact Path.noNull_below noNull fun part member => (areNames part member).noNull

variable (copying : Copying session (session.placeOf source) current)
include copying

theorem atHere : current.location = ⟨session.location.trail, 0⟩ := by
  rw [copying.same, ← copyable.stands]
  rfl

/-- The working directory stays where it is, because it holds the source. -/
theorem holds : current.files.HasDirectory session.location.trail := by
  have stands : current.files.HasDirectory (session.placeOf source) := by
    rw [FileTree.HasDirectory, copying.source]
    exact copyable.directory
  exact stands.above (List.prefix_append ..)

/-- The directories of the source can be reached all the time. -/
theorem approaches_source (directory : session.files.HasDirectory (session.placeOf source ++ way)) :
    current.surroundings.Approaches (Text.below source way) (session.placeOf source ++ way) := by
  have stands : current.files.HasDirectory (session.placeOf source ++ way) := by
    rwa [FileTree.HasDirectory, get?_source copying way]
  have top : current.surroundings.Approaches source (session.placeOf source) :=
    .of_relative (copyable.atHere copying) copyable.plain.nonempty copyable.plain.relative
      copyable.sourceNames (stands.above (List.prefix_append ..))
  exact top.below (copyable.wayNames directory.isSome) stands

/-- The directories that have been made can be reached by the paths that copies go to. -/
theorem approaches_target (areNames : ∀ name ∈ way, Path.IsEntryName name)
    (stands : current.files.HasDirectory (session.placeOf target ++ way)) :
    current.surroundings.Approaches (Text.joinPath target (Path.wayDown way))
      (session.placeOf target ++ way) := by
  have top : current.surroundings.Approaches target (session.placeOf target) :=
    .of_relative (copyable.atHere copying) copyable.plainTarget.nonempty
      copyable.plainTarget.relative copyable.fits.names (stands.above (List.prefix_append ..))
  by_cases stays : way = []
  · rw [stays, List.append_nil]
    exact top.stay
  · rw [Path.joinPath_wayDown target (fun name member => (areNames name member).toIsName) stays]
    exact top.below areNames stands

/-! ### One directory -/

/-- The target is made, with the directories that lead to it, by a path that stays in it. -/
theorem start_makeDirectories_top (passable : current.files.Passable (session.placeOf target))
    (vacant : current.files.get? (session.placeOf target) = none) :
    (makeDirectories ((Text.joinPath target Path.here).length + 1)
        (Text.joinPath target Path.here)).start current =
      (.ok ⟨⟩, current.withFiles (current.files.grow (session.placeOf target))) := by
  have atHere := copyable.atHere copying
  have plain := copyable.plainTarget
  have goesDown := Path.GoesDown.dropEnd plain.relative
  have named := Path.parts_ne_nil plain.nonempty plain.relative
  obtain ⟨isBase, isParent⟩ := Path.cut_joinPath_here plain.nonempty plain.relative
  have further : Text.dropEnd Text.isSlash target ≠ [] := by
    intro nothing
    rw [← Path.parts_dropEnd, nothing] at named
    exact named rfl
  have enough : (Path.ofText target).parts.length ≤ (Text.joinPath target Path.here).length := by
    have longer := Path.length_parts_le (Text.joinPath target Path.here)
    rw [Path.parts_joinPath target (by decide), List.length_append] at longer
    exact Nat.le_trans (Nat.le_add_right ..) longer
  have parentMade := Action.start_makeDirectories atHere (copyable.holds copying) goesDown named
    copyable.fits.names copyable.fits.top passable vacant enough
  rw [← isParent] at parentMade further
  refine makeDirectories_onward (by rw [isBase]; decide) further ?_ parentMade ?_
  · rw [isParent]
    exact pathExists_goesDown atHere goesDown copyable.fits.names vacant
  · rw [if_pos isBase]
    rfl

/-- The directory that a copy goes to is made, with those that lead to it. -/
theorem start_makeDirectories
    (directory : session.files.HasDirectory (session.placeOf source ++ way))
    (passable : current.files.Passable (session.placeOf target ++ way))
    (vacant : current.files.get? (session.placeOf target ++ way) = none) :
    (makeDirectories ((Text.joinPath target (Path.wayDown way)).length + 1)
        (Text.joinPath target (Path.wayDown way))).start current =
      (.ok ⟨⟩, current.withFiles (current.files.grow (session.placeOf target ++ way))) := by
  by_cases stays : way = []
  · subst stays
    rw [List.append_nil] at passable vacant ⊢
    exact copyable.start_makeDirectories_top copying passable vacant
  have wayNames := copyable.wayNames directory.isSome
  have areNames : ∀ name ∈ way, Path.IsName name := fun name member =>
    (wayNames name member).toIsName
  have goesDown := Path.GoesDown.below copyable.plainTarget.relative areNames stays
  rw [Path.joinPath_wayDown target areNames stays]
  rw [Session.placeOf, List.append_assoc] at passable vacant ⊢
  refine Action.start_makeDirectories (copyable.atHere copying) (copyable.holds copying) goesDown
    (by simp [stays]) (List.forall_mem_append.mpr ⟨copyable.fits.names, wayNames⟩)
    (copyable.fits.directories way stays directory) passable vacant ?_
  rw [← goesDown.parts]
  exact Nat.le_succ_of_le (Path.length_parts_le _)

/-- Making the directory follows the plan. -/
theorem makes (directory : session.files.HasDirectory (session.placeOf source ++ way))
    (passable : current.files.Passable (session.placeOf target ++ way)) :
    Copying session (session.placeOf source)
        (current.withFiles (current.files.grow (session.placeOf target ++ way))) ∧
      FileTree.Reshapes (copyPlan session (session.placeOf source) (session.placeOf target))
        (fun trail => trail <+: session.placeOf target ++ way)
        current.files (current.files.grow (session.placeOf target ++ way)) := by
  obtain ⟨unheld, outside⟩ := copyable.apart way
  refine ⟨⟨?_, ?_⟩, fun {trail} isPrefix => ?_, fun {trail} elsewhere => ?_⟩
  · rw [copying.same]
    rfl
  · exact (FileTree.get?_grow_apart _ unheld outside).trans copying.source
  · rw [FileTree.standing_grow passable, if_pos isPrefix, copyPlan_within directory isPrefix]
  · rw [FileTree.standing_grow passable, if_neg elsewhere]

/-- A file of the source is read where it was. -/
theorem reads
    (found : session.files.get? (session.placeOf source ++ way ++ [name]) = some (.file content))
    {text : Text} (decoded : Text.decode content = .ok text) :
    current.Holds (Text.joinPath (Text.below source way) name)
      (session.placeOf source ++ way ++ [name]) content
      (Text.lines (Text.unifyNewlines text)) := by
  have isThere :
      (session.files.get? (session.placeOf source ++ (way ++ [name]))).isSome = true := by
    rw [← List.append_assoc, found]
    rfl
  have areNames := copyable.wayNames isThere
  have isName := areNames name (by simp)
  have directory : session.files.HasDirectory (session.placeOf source ++ way) :=
    FileTree.hasDirectory_of_isSome (List.cons_ne_nil name []) (by rwa [List.append_assoc])
  have noNull := copyable.noNull_below isThere
  have short := copyable.fits.originals _ isThere
  rw [Text.below_snoc] at noNull short
  refine ⟨.joinPath (copyable.approaches_source copying directory) isName noNull short, ?_,
    text, decoded, rfl⟩
  rw [List.append_assoc, get?_source copying, ← List.append_assoc, found]

/-- A file is copied to a place where nothing is. -/
theorem start_copyText
    (found : session.files.get? (session.placeOf source ++ way ++ [name]) = some (.file content))
    (stands : current.files.HasDirectory (session.placeOf target ++ way))
    (vacant : current.files.get? (session.placeOf target ++ way ++ [name]) = none) :
    ∃ after, (copyText (Text.joinPath (Text.below source way) name)
        (copyPath target way name)).start current = (.ok ⟨⟩, after) ∧
      Copying session (session.placeOf source) after ∧
      FileTree.Reshapes (copyPlan session (session.placeOf source) (session.placeOf target))
        (fun trail => session.placeOf target ++ way ++ [name] <+: trail)
        current.files after.files := by
  have foundBelow := found
  rw [List.append_assoc] at foundBelow
  have areNames := copyable.wayNames (by rw [foundBelow]; rfl)
  have isName := areNames name (by simp)
  have wayNames : ∀ part ∈ way, Path.IsEntryName part := fun part member =>
    areNames part (List.mem_append_left _ member)
  obtain ⟨text, decoded⟩ := copyable.decodable _ content foundBelow
  have leads : current.LeadsTo (copyPath target way name)
      (session.placeOf target ++ way ++ [name]) :=
    .joinPath (copyable.approaches_target copying wayNames stands) isName
      (copyable.noNull_copyPath wayNames isName) (copyable.fits.files way name content found)
  have free : ¬ current.files.HasDirectory (session.placeOf target ++ way ++ [name]) := by
    rintro ⟨entries, taken⟩
    exact absurd (vacant.symm.trans taken) (by simp)
  refine ⟨current.withFiles (current.files.put (session.placeOf target ++ way ++ [name])
    (.file (Text.encode (Text.unifyNewlines text)))), ?_, ⟨?_, ?_⟩, .put stands fun rest => ?_⟩
  · rw [copyText, start_bind_ok (copyable.reads copying found decoded).readLines,
      Text.flatten_lines, writeFile_leads leads free]
  · rw [copying.same]
    rfl
  · -- The source stays as it was, because the target is apart from it.
    have apart := copyable.apart (way ++ [name])
    rw [← List.append_assoc] at apart
    exact ((FileTree.AgreesOff.put ..).apart apart.1 apart.2).trans copying.source
  · rw [List.append_assoc, List.append_assoc, copyPlan_append copyable.directory,
      ← List.append_assoc, ← List.append_assoc, FileTree.standing_append, found]
    cases rest with
    | nil => exact congrArg some (FileTree.unified_file decoded)
    | cons next more => rfl

/-- The files of a directory are copied to places where nothing is. -/
theorem forM_copyText {way : Trail} {files : List Text} (distinct : files.Nodup)
    (areFiles : ∀ name ∈ files, ∃ content,
      session.files.get? (session.placeOf source ++ way ++ [name]) = some (.file content))
    (stands : current.files.HasDirectory (session.placeOf target ++ way))
    (vacant : ∀ name, current.files.get? (session.placeOf target ++ way ++ [name]) = none) :
    ∃ after, (files.forM fun name => copyText (Text.joinPath (Text.below source way) name)
        (copyPath target way name)).start current = (.ok ⟨⟩, after) ∧
      Copying session (session.placeOf source) after ∧
      FileTree.Reshapes (copyPlan session (session.placeOf source) (session.placeOf target))
        (fun trail => ∃ name ∈ files, session.placeOf target ++ way ++ [name] <+: trail)
        current.files after.files := by
  refine forM_reshapes files distinct ?_ copying
  intro name member earlier fresh now copyingNow reshaped
  obtain ⟨content, found⟩ := areFiles name member
  refine copyable.start_copyText copyingNow found (reshaped.hasDirectory ?_ stands) ?_
  · rintro ⟨other, -, isPrefix⟩
    exact not_entry_isPrefix _ other isPrefix
  · have same := untouched (session.placeOf target ++ way) fresh []
    rw [List.append_nil] at same
    rw [← FileTree.standing_eq_none_iff, reshaped.outside same, FileTree.standing_eq_none_iff]
    exact vacant name

end Copyable

/-- Makes a directory in the target and copies files to it. -/
def copyVisit (source target : Text) : Visit := fun directory _ files => do
  let start ← absoluteParts source
  let here ← absoluteParts directory
  let copy := Text.joinPath target (Path.wayBetween start here)
  Action.makeDirectories (copy.length + 1) copy
  files.forM fun name =>
    copyText (Text.joinPath directory name) (Text.joinPath copy name)

theorem copyDirectory_eq (source target : Text) :
    copyDirectory source target =
      walkDown (copyVisit source target) walkDepth (Text.below source []) := rfl

/-- A directory is copied where the target is not there. -/
theorem start_copy_recursive {source target : Text} {location : Location}
    (found : session.surroundings.find source = .ok (.directory location))
    (nowhere : ∃ error, session.surroundings.find target = .error error) :
    (copy source target false true).start session =
      (copyDirectory source target).start session := by
  obtain ⟨error, nowhere⟩ := nowhere
  have isDirectory : session.surroundings.isDirectory source = true := by
    rw [Surroundings.isDirectory, found]
  have notFile : session.surroundings.isFile source = false := by
    rw [Surroundings.isFile, found]
  have noDirectory : session.surroundings.isDirectory target = false := by
    rw [Surroundings.isDirectory, nowhere]
  have noFile : session.surroundings.isFile target = false := by
    rw [Surroundings.isFile, nowhere]
  have missing : session.surroundings.pathExists target = false := by
    rw [Surroundings.pathExists, nowhere]
  have targeted : (copyTarget source target).start session = (.ok target, session) := by
    simp [copyTarget, start_bind, Action.isFile, Action.isDirectory, notFile, isDirectory, noFile,
      noDirectory]
  rw [copy, start_bind_ok targeted]
  simp [start_bind, Action.pathExists, Action.isDirectory, missing, isDirectory]

theorem cp_recursive {source : Text} (undashed : source.head? ≠ some '-') (target : Text) :
    cp ["-r".toList, source, target] = copy source target false true := by
  have options : copyOptions false false ["-r".toList, source, target] =
      .ok (false, true, [source, target]) := by
    simp [copyOptions, undashed]
  rw [cp, if_neg (by simp), options]

namespace Copyable

variable {current : Session} {source target : Text}

/-! ### The whole tree -/

/-- When files and some other directories have been copied, a directory has not. -/
theorem not_copied_yet (distinct : (entries.map Prod.fst).Nodup) (place : Trail)
    {inner : List (Text × FileTree)}
    (child : FileTree.child? name entries = some (.directory inner)) {earlier : List Text}
    (fresh : name ∉ earlier) :
    ¬ ((place ++ [name] <+: place ∨
        ∃ other ∈ fileNames entries, place ++ [other] <+: place ++ [name]) ∨
      ∃ other ∈ earlier, place ++ [name] <+: place ++ [other] ∨
        place ++ [other] <+: place ++ [name]) := by
  rintro ((isPrefix | ⟨other, isFile, isPrefix⟩) | ⟨other, before, isPrefix | isPrefix⟩)
  · exact not_entry_isPrefix place name isPrefix
  · obtain ⟨content, isChild⟩ :=
      (FileTree.mem_fileNames distinct).mp (eq_of_entry_isPrefix isPrefix ▸ isFile)
    exact absurd (child.symm.trans isChild) (by simp)
  · exact fresh (eq_of_entry_isPrefix isPrefix ▸ before)
  · exact fresh (eq_of_entry_isPrefix isPrefix ▸ before)

/-- What is free below a directory that has just been made is free still when some of its entries
have been copied. -/
theorem free_below {way : Trail} {name : Text}
    (directory : session.files.HasDirectory (session.placeOf source ++ way)) {now : Session}
    {region : Trail → Prop}
    (reshaped : FileTree.Reshapes
      (copyPlan session (session.placeOf source) (session.placeOf target)) region
      current.files now.files)
    (made : ∀ {trail}, trail <+: session.placeOf target ++ way → region trail)
    (vacant : current.files.get? (session.placeOf target ++ way) = none)
    (fresh : ¬ region (session.placeOf target ++ way ++ [name])) :
    now.files.Passable (session.placeOf target ++ way ++ [name]) ∧
      now.files.get? (session.placeOf target ++ way ++ [name]) = none := by
  have isFree : now.files.get? (session.placeOf target ++ way ++ [name]) = none := by
    rw [← FileTree.standing_eq_none_iff, reshaped.outside fresh, FileTree.standing_append, vacant]
    rfl
  refine ⟨fun front content isPrefix found => ?_, isFree⟩
  rcases List.prefix_concat_iff.mp isPrefix with same | onWay
  · rw [same, isFree] at found
    exact absurd found (by simp)
  · have stands := (reshaped.inside (made onWay)).trans (copyPlan_within directory onWay)
    rw [← FileTree.standing_eq_file_iff, stands] at found
    exact absurd found (by simp [FileTree.empty])

variable (copyable : Copyable session source target)
include copyable

/-- A visit makes the copy of one directory of the source, with its files. -/
theorem start_copyVisit (copying : Copying session (session.placeOf source) current)
    (found : session.files.get? (session.placeOf source ++ way) = some (.directory entries))
    (passable : current.files.Passable (session.placeOf target ++ way))
    (vacant : current.files.get? (session.placeOf target ++ way) = none) (directories : List Text) :
    ∃ after, (copyVisit source target (Text.below source way) directories
        (fileNames entries)).start current = (.ok ⟨⟩, after) ∧
      Copying session (session.placeOf source) after ∧
      FileTree.Reshapes (copyPlan session (session.placeOf source) (session.placeOf target))
        (fun trail => trail <+: session.placeOf target ++ way ∨
          ∃ name ∈ fileNames entries, session.placeOf target ++ way ++ [name] <+: trail)
        current.files after.files := by
  have directory : session.files.HasDirectory (session.placeOf source ++ way) := ⟨entries, found⟩
  have distinct := copyable.sound.listed _ _ found
  have areNames : ∀ part ∈ way, Path.IsName part := fun part member =>
    (copyable.wayNames directory.isSome part member).toIsName
  -- The way from the source to the directory is the way that the walk has gone.
  obtain ⟨whole, isWhole⟩ : ∃ whole, current.wholePath? source = some whole := by
    simp [Session.wholePath?, copyable.plain.relative, Session.workingDirectory?,
      copyable.atHere copying]
  obtain ⟨longer, isLonger, parts⟩ := wholePath?_below areNames isWhole
  have started := start_absoluteParts source current
  have reached := start_absoluteParts (Text.below source way) current
  rw [isWhole, Option.elim_some] at started
  rw [isLonger, Option.elim_some, parts] at reached
  have made := copyable.start_makeDirectories copying directory passable vacant
  obtain ⟨copyingMade, grown⟩ := copyable.makes copying directory passable
  obtain ⟨after, copied, copyingAfter, filled⟩ := copyable.forM_copyText copyingMade
    (FileTree.nodup_names distinct _) (fun name member => by
      obtain ⟨content, child⟩ := (FileTree.mem_fileNames distinct).mp member
      exact ⟨content, by rw [FileTree.get?_entry found, child]⟩)
    (by
      rw [FileTree.hasDirectory_iff_standing]
      exact (grown.inside (List.prefix_refl _)).trans
        (copyPlan_within directory (List.prefix_refl _)))
    (fun name => by
      rw [← FileTree.standing_eq_none_iff]
      refine (grown.outside (not_entry_isPrefix _ name)).trans ?_
      rw [FileTree.standing_append, vacant]
      rfl)
  refine ⟨after, ?_, copyingAfter, grown.trans filled⟩
  rw [copyVisit, start_bind_ok started, start_bind_ok reached, Path.wayBetween_append,
    start_bind_ok made]
  exact copied

/-- The plan leaves free what is not listed in the source. -/
theorem copyPlan_unlisted {rest : Trail}
    (found : session.files.get? (session.placeOf source ++ way) = some (.directory entries))
    (unlisted : ¬ (name ∈ directoryNames entries ∨ name ∈ fileNames entries)) :
    copyPlan session (session.placeOf source) (session.placeOf target)
      (session.placeOf target ++ way ++ name :: rest) = none := by
  rw [List.append_assoc, copyPlan_append copyable.directory, ← List.append_assoc]
  cases stood : session.files.standing (session.placeOf source ++ way ++ name :: rest) with
  | none => rfl
  | some tree =>
    have isThere :
        (session.files.get? (session.placeOf source ++ way ++ name :: rest)).isSome = true := by
      rw [← FileTree.isSome_standing, stood]
      rfl
    exact absurd (FileTree.mem_names_of_isSome (copyable.sound.listed _ _ found) found isThere)
      unlisted

/-- A directory is copied as a whole when its files and its directories are. -/
theorem copied_whole {way : Trail} {entries : List (Text × FileTree)}
    (found : session.files.get? (session.placeOf source ++ way) = some (.directory entries))
    (vacant : current.files.get? (session.placeOf target ++ way) = none) {after : Session}
    (reshaped : FileTree.Reshapes
      (copyPlan session (session.placeOf source) (session.placeOf target))
      (fun trail => (trail <+: session.placeOf target ++ way ∨
          ∃ name ∈ fileNames entries, session.placeOf target ++ way ++ [name] <+: trail) ∨
        ∃ name ∈ directoryNames entries, trail <+: session.placeOf target ++ way ++ [name] ∨
          session.placeOf target ++ way ++ [name] <+: trail) current.files after.files) :
    FileTree.Reshapes (copyPlan session (session.placeOf source) (session.placeOf target))
      (fun trail => trail <+: session.placeOf target ++ way ∨
        session.placeOf target ++ way <+: trail) current.files after.files := by
  refine reshaped.widen ?_ ?_
  · rintro trail ((onWay | ⟨name, -, isPrefix⟩) | ⟨name, -, onWay | isPrefix⟩)
    · exact Or.inl onWay
    · exact Or.inr ((List.prefix_append ..).trans isPrefix)
    · rcases List.prefix_concat_iff.mp onWay with rfl | above
      · exact Or.inr (List.prefix_append ..)
      · exact Or.inl above
    · exact Or.inr ((List.prefix_append ..).trans isPrefix)
  · -- What is left was not there before, and it is not listed in the source.
    intro trail within undone
    have isPrefix := within.resolve_left fun onWay => undone (Or.inl (Or.inl onWay))
    obtain ⟨name, rest, rfl⟩ := (StrictlyBelow.eq_or_of_isPrefix isPrefix).resolve_left
      fun same => undone (Or.inl (Or.inl (same ▸ List.prefix_refl _)))
    have onWay : session.placeOf target ++ way ++ [name] <+:
        session.placeOf target ++ way ++ name :: rest := ⟨rest, List.append_assoc ..⟩
    rw [copyable.copyPlan_unlisted found, FileTree.standing_append, vacant]
    · rfl
    · rintro (isDirectory | isFile)
      · exact undone (Or.inr ⟨name, isDirectory, Or.inr onWay⟩)
      · exact undone (Or.inl (Or.inr ⟨name, isFile, onWay⟩))

/-- A walk through the source makes the copy of one directory with all that is in it. The steps are
enough because every name makes the path longer. -/
theorem walkDown_copyVisit (steps : Nat)
    (copying : Copying session (session.placeOf source) current)
    (directory : session.files.HasDirectory (session.placeOf source ++ way))
    (passable : current.files.Passable (session.placeOf target ++ way))
    (vacant : current.files.get? (session.placeOf target ++ way) = none)
    (enough : Path.tooLong ≤ steps + (Text.encode (Text.below source way)).length) :
    ∃ after, (walkDown (copyVisit source target) steps (Text.below source way)).start current =
        (.ok ⟨⟩, after) ∧ Copying session (session.placeOf source) after ∧
      FileTree.Reshapes (copyPlan session (session.placeOf source) (session.placeOf target))
        (fun trail => trail <+: session.placeOf target ++ way ∨
          session.placeOf target ++ way <+: trail) current.files after.files := by
  induction steps generalizing current way with
  | zero =>
    have short := copyable.fits.originals way directory.isSome
    omega
  | succ steps inductionHypothesis =>
    have approaches := copyable.approaches_source copying directory
    have noNull := copyable.noNull_below directory.isSome
    have short := copyable.fits.originals way directory.isSome
    obtain ⟨entries, found⟩ := directory
    have distinct := copyable.sound.listed _ _ found
    have listed := start_listForWalk approaches noNull short ((get?_source copying way).trans found)
    obtain ⟨between, visited, copyingBetween, filled⟩ :=
      copyable.start_copyVisit copying found passable vacant (directoryNames entries)
    -- The directories inside are walked through one by one. The place of each is still free,
    -- because the copies before it went to places beside it.
    have walks : ∃ after, ((directoryNames entries).forM fun name =>
        walkDown (copyVisit source target) steps
          (Text.joinPath (Text.below source way) name)).start between = (.ok ⟨⟩, after) ∧
        Copying session (session.placeOf source) after ∧
        FileTree.Reshapes (copyPlan session (session.placeOf source) (session.placeOf target))
          (fun trail => ∃ name ∈ directoryNames entries,
            trail <+: session.placeOf target ++ way ++ [name] ∨
              session.placeOf target ++ way ++ [name] <+: trail) between.files after.files := by
      refine forM_reshapes _ (FileTree.nodup_names distinct _) ?_ copyingBetween
      intro name member earlier fresh now copyingNow reshaped
      obtain ⟨inner, child⟩ := (FileTree.mem_directoryNames distinct).mp member
      have foundInner : session.files.get? (session.placeOf source ++ way ++ [name]) =
          some (.directory inner) := by rw [FileTree.get?_entry found, child]
      have isName : Path.IsEntryName name := copyable.sound.isEntryName found
        (List.mem_map.mpr ⟨_, FileTree.mem_of_child? child, rfl⟩)
      obtain ⟨passableInner, vacantInner⟩ := free_below ⟨entries, found⟩ (filled.trans reshaped)
        (fun isPrefix => Or.inl (Or.inl isPrefix)) vacant
        (not_copied_yet distinct _ child fresh)
      have longer := isName.length_joinPath (Text.below source way)
      rw [← Text.below_snoc] at longer ⊢
      rw [List.append_assoc] at foundInner passableInner vacantInner ⊢
      exact inductionHypothesis copyingNow ⟨inner, foundInner⟩ passableInner vacantInner (by omega)
    obtain ⟨after, walked, copyingAfter, deeper⟩ := walks
    refine ⟨after, ?_, copyingAfter,
      copyable.copied_whole found vacant (filled.trans deeper)⟩
    rw [walkDown, start_bind_ok listed, start_bind_ok visited]
    exact walked

/-- What a copy finds before it copies. -/
theorem start_copy :
    (copy source target false true).start session =
      (copyDirectory source target).start session := by
  have directory : session.files.HasDirectory (session.placeOf source ++ []) := by
    rw [List.append_nil]
    exact copyable.directory
  have copying : Copying session (session.placeOf source) session := ⟨rfl, rfl⟩
  have approaches := copyable.approaches_source copying directory
  refine start_copy_recursive (approaches.find (copyable.fits.originals [] directory.isSome)) ?_
  cases leads : session.surroundings.find target with
  | error error => exact ⟨error, rfl⟩
  | ok found =>
    have stands : (session.files.get? (session.placeOf target)).isSome = true :=
      Surroundings.isSome_of_find (copyable.atHere copying) copyable.plainTarget.relative
        copyable.plainTarget.areNames leads
    rw [copyable.vacant] at stands
    exact absurd stands (by simp)

end Copyable

/-- A recursive copy to a place where nothing is. The copy has the directories and files of the
source, each file with its text, and nothing else changes except that directories lead to it. -/
theorem cp_reproduces {session : Session} (sound : session.files.Sound)
    (stands : session.location.removed = 0) {source target : Text}
    (undashed : source.head? ≠ some '-') (plain : IsPlain source) (plainTarget : IsPlain target)
    (directory : session.files.HasDirectory (session.placeOf source))
    (vacant : session.files.get? (session.placeOf target) = none)
    (passable : session.files.Passable (session.placeOf target))
    (outside : ¬ session.placeOf source <+: session.placeOf target)
    (decodable : ∀ way content,
      session.files.get? (session.placeOf source ++ way) = some (.file content) →
      ∃ text, Text.decode content = .ok text)
    (fits : CopyFits session source target) :
    ∃ files, (cp ["-r".toList, source, target]).start session =
        (.ok ⟨⟩, session.withFiles files) ∧
      (∀ way, files.standing (session.placeOf target ++ way) =
        (session.files.standing (session.placeOf source ++ way)).map FileTree.unified) ∧
      ∀ trail, ¬ session.placeOf target <+: trail → files.standing trail =
        if trail <+: session.placeOf target then some .empty else session.files.standing trail := by
  have copyable : Copyable session source target :=
    ⟨sound, stands, plain, plainTarget, directory, vacant, passable, outside, decodable, fits⟩
  have directoryHere : session.files.HasDirectory (session.placeOf source ++ []) := by
    rwa [List.append_nil]
  obtain ⟨after, copied, copying, reshaped⟩ := copyable.walkDown_copyVisit walkDepth ⟨rfl, rfl⟩
    directoryHere (by rwa [List.append_nil]) (by rwa [List.append_nil]) (Nat.le_add_right ..)
  rw [List.append_nil] at reshaped
  refine ⟨after.files, ?_, fun way => ?_, fun trail elsewhere => ?_⟩
  · rw [cp_recursive undashed, copyable.start_copy, copyDirectory_eq, copied, ← copying.same]
  · exact (reshaped.inside (Or.inr (List.prefix_append ..))).trans (copyPlan_append directory _ way)
  · split
    · next onWay => exact (reshaped.inside (Or.inl onWay)).trans (if_pos onWay)
    · next offWay => exact reshaped.outside fun either => either.elim offWay elsewhere

/-- A session with a directory that holds a file and a directory. -/
def originalSession : Session where
  files := .directory [("s".toList, .directory
    [("a".toList, .file (Text.encode "x\r\n".toList)), ("e".toList, .directory [])])]
  home := "/home".toList
  inputs := []

theorem sound_originalSession : originalSession.files.Sound := by
  refine FileTree.arranged_directory (by decide) (List.forall_mem_singleton.mpr ⟨by decide, ?_⟩)
  refine FileTree.arranged_directory (by decide) ?_
  refine List.forall_mem_cons.mpr ⟨⟨by decide, FileTree.arranged_file _⟩, ?_⟩
  exact List.forall_mem_singleton.mpr ⟨by decide, FileTree.sound_empty⟩

/-- All that stands in the source. -/
theorem originalSession_ways {tree : FileTree}
    (found : originalSession.files.get? (["s".toList] ++ way) = some tree) :
    way = [] ∨ way = ["e".toList] ∧ tree = .directory [] ∨
      way = ["a".toList] ∧ tree = .file (Text.encode "x\r\n".toList) := by
  rcases way with _ | ⟨name, rest⟩
  · exact Or.inl rfl
  by_cases isFile : ['a'] = name
  · subst isFile
    cases rest with
    | nil => exact Or.inr (Or.inr ⟨rfl, (Option.some.inj found).symm⟩)
    | cons next more => simp [originalSession, FileTree.get?, FileTree.child?] at found
  by_cases isDirectory : ['e'] = name
  · subst isDirectory
    cases rest with
    | nil => exact Or.inr (Or.inl ⟨rfl, (Option.some.inj found).symm⟩)
    | cons next more => simp [originalSession, FileTree.get?, FileTree.child?] at found
  · simp [originalSession, FileTree.get?, FileTree.child?, isFile, isDirectory] at found

theorem originalSession_fits : CopyFits originalSession "s".toList "p/d/".toList := by
  constructor
  · decide
  · decide
  · intro way isThere
    obtain ⟨tree, found⟩ := Option.isSome_iff_exists.mp isThere
    rcases originalSession_ways found with rfl | ⟨rfl, -⟩ | ⟨rfl, -⟩ <;> decide
  · rintro way - ⟨entries, found⟩
    rcases originalSession_ways found with rfl | ⟨rfl, -⟩ | ⟨rfl, -⟩ <;> decide
  · intro way name content found
    rw [List.append_assoc] at found
    rcases originalSession_ways found with isNil | ⟨-, isDirectory⟩ | ⟨isLast, -⟩
    · exact absurd isNil (by simp)
    · exact absurd isDirectory (by simp)
    · obtain ⟨rfl, same⟩ : way = [] ∧ [name] = ["a".toList] :=
        List.append_inj' (isLast.trans (List.nil_append _).symm) rfl
      obtain rfl := (List.cons.inj same).1
      decide

/-- A directory is copied below a directory that is missing, and the line end of a file is
unified. -/
theorem cp_reproduces_apart :
    originalSession.files.Sound ∧ CopyFits originalSession "s".toList "p/d/".toList ∧
      ∃ files, (cp ["-r".toList, "s".toList, "p/d/".toList]).start originalSession =
          (.ok ⟨⟩, originalSession.withFiles files) ∧
        files.standing ["p".toList] = some .empty ∧
        files.standing ["p".toList, "d".toList, "e".toList] = some .empty ∧
        files.standing ["p".toList, "d".toList, "a".toList] =
          some (.file (Text.encode "x\n".toList)) := by
  have plain : IsPlain "s".toList := by
    have isThere : (originalSession.files.get? ["s".toList]).isSome = true := rfl
    exact ⟨by decide, by decide, fun part member =>
      (sound_originalSession.areNames isThere part member).toIsName⟩
  have plainTarget : IsPlain "p/d/".toList := ⟨by decide, by decide, fun part member =>
    (originalSession_fits.names part member).toIsName⟩
  have passable : originalSession.files.Passable (originalSession.placeOf "p/d/".toList) := by
    intro front content isPrefix found
    rcases front with _ | ⟨first, rest⟩
    · exact absurd found (by simp [originalSession, FileTree.get?])
    · obtain rfl : first = ['p'] := (List.cons_prefix_cons.mp isPrefix).1
      simp [originalSession, FileTree.get?, FileTree.child?] at found
  have decodable : ∀ way content,
      originalSession.files.get? (originalSession.placeOf "s".toList ++ way) =
        some (.file content) → ∃ text, Text.decode content = .ok text := by
    intro way content found
    rcases originalSession_ways found with rfl | ⟨-, isDirectory⟩ | ⟨-, isFile⟩
    · exact absurd ⟨_, rfl⟩ (FileTree.not_hasDirectory_of_file found)
    · exact absurd isDirectory (by simp)
    · rw [FileTree.file.inj isFile]
      exact ⟨_, Text.decode_encode _⟩
  obtain ⟨files, copied, inside, outside⟩ := cp_reproduces sound_originalSession rfl (by decide)
    plain plainTarget ⟨_, rfl⟩ rfl passable (by decide) decodable originalSession_fits
  refine ⟨sound_originalSession, originalSession_fits, files, copied, ?_, ?_, ?_⟩
  · exact (outside ["p".toList] (by decide)).trans (if_pos (by decide))
  · exact inside ["e".toList]
  · refine (inside ["a".toList]).trans ?_
    exact congrArg some (FileTree.unified_file (Text.decode_encode _))

/-- A copy stops at a file whose path is too long. -/
theorem copyDirectory_long {session between : Session} {source target name : Text} {place : Trail}
    (approaches : session.surroundings.Approaches source place) {whole : Text}
    (isWhole : session.wholePath? source = some whole)
    (short : (Text.encode source).length < Path.tooLong)
    (long : Path.tooLong ≤ (Text.encode (Text.joinPath source name)).length)
    (noNull : '\x00' ∉ source) (noNullName : '\x00' ∉ name) {content : List UInt8}
    (held : session.files.get? place = some (.directory [(name, .file content)]))
    (made : (makeDirectories ((Text.joinPath target Path.here).length + 1)
      (Text.joinPath target Path.here)).start session = (.ok ⟨⟩, between)) :
    (copyDirectory source target).start session =
      (.error (.system .nameTooLong [Text.joinPath source name]), between) := by
  have unread (copy : Text) : (copyText (Text.joinPath source name) copy).start between =
      (.error (.system .nameTooLong [Text.joinPath source name]), between) := by
    rw [copyText, start_bind, readLines, start_bind, start_openFile,
      if_neg (Path.noNull_joinPath noNull noNullName), Surroundings.find,
      Surroundings.goal_long long]
  have stays (parts : List Text) : Path.wayBetween parts parts = Path.here := by
    have way := Path.wayBetween_append parts []
    rwa [List.append_nil] at way
  have visited : (copyVisit source target source [] [name]).start session =
      (.error (.system .nameTooLong [Text.joinPath source name]), between) := by
    have started := start_absoluteParts source session
    rw [isWhole, Option.elim_some] at started
    rw [copyVisit, start_bind_ok started, start_bind_ok started, stays, start_bind_ok made,
      List.forM_eq_forM, List.forM_cons, start_bind, unread]
  rw [show copyDirectory source target = walkDown (copyVisit source target) (4095 + 1) source
    from rfl, walkDown, start_bind_ok (start_listForWalk approaches noNull short held)]
  show (copyVisit source target source [] [name] >>= _).start session = _
  rw [start_bind, visited]

/-- A session with a directory that holds a file with a name of 20 characters. -/
def longOriginalSession : Session where
  files := .directory [("s".toList, .directory [(List.replicate 20 'b', .file [])])]
  home := "/home".toList
  inputs := []

/-- A copy fails if the name of its target is too long, or if slashes at the end of its source leave
no room for the name of a file. -/
theorem cp_falters :
    ((cp ["-r".toList, "s".toList, List.replicate 256 'd']).start originalSession).1.toOption =
        none ∧
      longOriginalSession.surroundings.isDirectory (Path.drawnOut "s".toList 4090) = true ∧
      ((cp ["-r".toList, Path.drawnOut "s".toList 4090, "d".toList]).start
        longOriginalSession).1.toOption = none := by
  have approaches : longOriginalSession.surroundings.Approaches (Path.drawnOut "s".toList 4090)
      ["s".toList] :=
    Surroundings.Approaches.drawnOut ⟨.root, ["s".toList], by decide, rfl, rfl⟩ 4090
  have frontLength : (Text.encode "s".toList).length = 1 := by decide
  have short : (Text.encode (Path.drawnOut "s".toList 4090)).length < Path.tooLong := by
    rw [Path.length_drawnOut, frontLength, Path.tooLong]
    omega
  have long : Path.tooLong ≤ (Text.encode (Text.joinPath (Path.drawnOut "s".toList 4090)
      (List.replicate 20 'b'))).length := by
    refine Nat.le_trans ?_ (Path.length_joinPath_drawnOut _ (by decide) (by decide))
    rw [frontLength, List.length_replicate]
    decide
  have made : (makeDirectories ((Text.joinPath "d".toList Path.here).length + 1)
      (Text.joinPath "d".toList Path.here)).start longOriginalSession = (.ok ⟨⟩,
        longOriginalSession.withFiles (longOriginalSession.files.put ["d".toList] .empty)) := rfl
  have undashed : (Path.drawnOut "s".toList 4090).head? ≠ some '-' := by
    rw [Path.head?_drawnOut (by decide)]
    decide
  refine ⟨by decide +kernel, ?_, ?_⟩
  · exact approaches.isDirectory short
  · rw [cp_recursive undashed, start_copy_recursive (approaches.find short) ⟨.noEntry, rfl⟩,
      copyDirectory_long approaches rfl short long (Path.noNull_drawnOut (by decide) _) (by decide)
        rfl made]
    rfl

end Command

end MiniShell
