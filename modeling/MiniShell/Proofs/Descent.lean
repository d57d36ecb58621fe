/-
This file follows paths down a tree of files. A path that leads to a directory
leads to what is in the directory when it is continued by a name, as long as it
does not become too long. So a walk that continues its path name by name finds
the directories and files that are there.

A walk does not follow its path step by step but looks the whole path up at
every directory. That the look-up leads to the same place each time is what the
walks of searching, copying and removing rest on.
-/

import MiniShell.Proofs.Grafting
import MiniShell.Proofs.PathEnds

namespace MiniShell

/-! ### Following -/

namespace Surroundings

variable {surroundings : Surroundings}

theorem follow_append {first next : Location} {front : List Text}
    (followed : surroundings.follow first front = .ok next) (rest : List Text) :
    surroundings.follow first (front ++ rest) = surroundings.follow next rest := by
  induction front generalizing first with
  | nil => rw [Except.ok.inj followed, List.nil_append]
  | cons part more inductionHypothesis =>
    rw [follow] at followed
    rw [List.cons_append, follow]
    cases entered : surroundings.enter first part with
    | error error => simp [entered] at followed
    | ok between =>
      rw [entered] at followed
      exact inductionHypothesis followed

theorem follow_append_inv {first last : Location} {front rest : List Text}
    (followed : surroundings.follow first (front ++ rest) = .ok last) :
    ∃ next, surroundings.follow first front = .ok next ∧
      surroundings.follow next rest = .ok last := by
  induction front generalizing first with
  | nil => exact ⟨first, rfl, followed⟩
  | cons part more inductionHypothesis =>
    rw [List.cons_append, follow] at followed
    rw [follow]
    cases entered : surroundings.enter first part with
    | error error => simp [entered] at followed
    | ok between =>
      rw [entered] at followed
      exact inductionHypothesis followed

theorem follow_singleton (first : Location) (part : Text) :
    surroundings.follow first [part] = surroundings.enter first part := by
  rw [follow]
  cases surroundings.enter first part <;> rfl

/-- A name leads from a directory to a directory in it. -/
theorem enter_name {trail : Trail} {name : Text} (isName : Path.IsName name)
    (short : (Text.encode name).length ≤ Path.longestName)
    (stands : surroundings.files.HasDirectory (trail ++ [name])) :
    surroundings.enter ⟨trail, 0⟩ name = .ok ⟨trail ++ [name], 0⟩ := by
  obtain ⟨entries, found⟩ := stands
  simp [enter, isName.notHere, isName.notAbove, Nat.not_lt.mpr short, found]

/-- What is entered by a name stands in a directory that is not removed. -/
theorem enter_inv {location next : Location} {name : Text} (isName : Path.IsName name)
    (entered : surroundings.enter location name = .ok next) :
    location.removed = 0 ∧ (Text.encode name).length ≤ Path.longestName ∧
      surroundings.files.HasDirectory (location.trail ++ [name]) ∧
      next = ⟨location.trail ++ [name], 0⟩ := by
  rw [enter, if_neg isName.notHere, if_neg isName.notAbove] at entered
  split at entered
  · exact absurd entered (by simp)
  next stands =>
  split at entered
  · exact absurd entered (by simp)
  next short =>
  cases found : surroundings.files.get? (location.trail ++ [name]) with
  | none => simp [found] at entered
  | some tree =>
    cases tree with
    | file content => simp [found] at entered
    | directory entries =>
      simp only [found] at entered
      exact ⟨Decidable.not_not.mp stands, Nat.le_of_not_lt short, ⟨entries, found⟩,
        (Except.ok.inj entered).symm⟩

/-- Names lead from a directory to a directory below it. -/
theorem follow_names {trail : Trail} {names : List Text}
    (areNames : ∀ name ∈ names, Path.IsEntryName name)
    (stands : surroundings.files.HasDirectory (trail ++ names)) :
    surroundings.follow ⟨trail, 0⟩ names = .ok ⟨trail ++ names, 0⟩ := by
  induction names generalizing trail with
  | nil => rw [follow, List.append_nil]
  | cons name rest inductionHypothesis =>
    obtain ⟨isName, others⟩ := List.forall_mem_cons.mp areNames
    rw [List.append_cons] at stands ⊢
    rw [follow, enter_name isName.toIsName isName.short (stands.above (List.prefix_append ..))]
    exact inductionHypothesis others stands

/-! ### Ends of paths -/

/-- What the last part of a path stands for, when the parts before lead to a directory. -/
theorem goal_of_follow {path : Text} (nonempty : path ≠ [])
    (short : (Text.encode path).length < Path.tooLong) {first location : Location}
    {front : List Text} {last : Text}
    (started : surroundings.start (Path.ofText path) = .ok (first, front ++ [last]))
    (followed : surroundings.follow first front = .ok location) :
    surroundings.goal path =
      if last = Path.here then .ok (.stay location)
      else if last = Path.above then .ok (.rise location.parent)
      else .ok (.entry location last (Path.ofText path).slash) := by
  simp [goal, nonempty, Nat.not_le.mpr short, started, followed]

/-- A path that is too long leads nowhere. -/
theorem goal_long {path : Text} (long : Path.tooLong ≤ (Text.encode path).length) :
    surroundings.goal path = .error .nameTooLong := by
  have nonempty : path ≠ [] := by
    rintro rfl
    exact absurd long (by decide)
  rw [goal, if_neg nonempty, if_pos long]

/-! ### Approaching a directory -/

/-- A path that leads to a directory in the tree, and that can be continued from there. -/
def Approaches (surroundings : Surroundings) (path : Text) (place : Trail) : Prop :=
  ∃ first parts, parts ≠ [] ∧ surroundings.start (Path.ofText path) = .ok (first, parts) ∧
    surroundings.follow first parts = .ok ⟨place, 0⟩

/-- A path that is continued starts where it started before. -/
theorem start_append {path longer : Path} {first : Location} {parts : List Text}
    (started : surroundings.start path = .ok (first, parts)) (further : parts ≠ [])
    {rest : List Text} (absolute : longer.absolute = path.absolute)
    (longerParts : longer.parts = path.parts ++ rest) :
    surroundings.start longer = .ok (first, parts ++ rest) := by
  unfold start at started ⊢
  rw [absolute, longerParts]
  split at started
  next fromRoot =>
    rw [if_pos fromRoot]
    split at started
    next inTree =>
      obtain ⟨rfl, rfl⟩ := Prod.mk.inj (Except.ok.inj started)
      have isPrefix := List.isPrefixOf_iff_prefix.mp inTree
      rw [if_pos (List.isPrefixOf_iff_prefix.mpr (isPrefix.trans (List.prefix_append ..))),
        List.drop_append_of_le_length isPrefix.length_le]
    next =>
      split at started
      · exact absurd (Prod.mk.inj (Except.ok.inj started)).2.symm further
      · exact absurd started (by simp)
  next relative =>
    obtain ⟨rfl, rfl⟩ := Prod.mk.inj (Except.ok.inj started)
    rw [if_neg relative]

namespace Approaches

variable {path : Text} {place : Trail}

/-- A path whose last part is the name of a directory. -/
theorem of_goal {trail : Trail} {name : Text} {slash : Bool}
    (reached : surroundings.goal path = .ok (.entry ⟨trail, 0⟩ name slash))
    (short : (Text.encode name).length ≤ Path.longestName)
    (stands : surroundings.files.HasDirectory (trail ++ [name])) :
    surroundings.Approaches path (trail ++ [name]) := by
  obtain ⟨isName, -, -, first, front, started, followed⟩ := goal_entry_inv reached
  refine ⟨first, front ++ [name], by simp, started, ?_⟩
  rw [follow_append followed, follow_singleton, enter_name isName short stands]

variable (approaches : surroundings.Approaches path place)
include approaches

theorem nonempty : path ≠ [] := by
  obtain ⟨first, parts, further, started, -⟩ := approaches
  rintro rfl
  exact further (List.eq_nil_iff_forall_not_mem.mpr fun part member =>
    absurd (mem_of_start started member) (by simp [Path.ofText, Text.splitAt]))

/-- The end of a path that leads to a directory and is short enough. -/
theorem find (short : (Text.encode path).length < Path.tooLong) :
    surroundings.find path = .ok (.directory ⟨place, 0⟩) := by
  have nonempty := approaches.nonempty
  obtain ⟨first, parts, further, started, followed⟩ := approaches
  obtain ⟨front, last, rfl⟩ := (List.eq_nil_or_concat parts).resolve_left further
  rw [List.concat_eq_append] at started followed
  obtain ⟨between, onWay, ending⟩ := follow_append_inv followed
  rw [follow_singleton] at ending
  rw [Surroundings.find, goal_of_follow nonempty short started onWay]
  by_cases isHere : last = Path.here
  · rw [enter, if_pos isHere] at ending
    rw [if_pos isHere, Except.ok.inj ending]
  by_cases isAbove : last = Path.above
  · rw [enter, if_neg isHere, if_pos isAbove] at ending
    rw [if_neg isHere, if_pos isAbove, Except.ok.inj ending]
  have isName : Path.IsName last :=
    Path.isName_of_mem_parts (mem_of_start started (by simp)) isHere isAbove
  obtain ⟨removed, fits, ⟨entries, found⟩, same⟩ := enter_inv isName ending
  rw [if_neg isHere, if_neg isAbove]
  simp [entryAt, removed, Nat.not_lt.mpr fits, found, same]

theorem pathExists (short : (Text.encode path).length < Path.tooLong) :
    surroundings.pathExists path = true := by
  rw [Surroundings.pathExists, approaches.find short]

theorem isDirectory (short : (Text.encode path).length < Path.tooLong) :
    surroundings.isDirectory path = true := by
  rw [Surroundings.isDirectory, approaches.find short]

theorem list (short : (Text.encode path).length < Path.tooLong) {entries : List (Text × FileTree)}
    (found : surroundings.files.get? place = some (.directory entries)) :
    surroundings.list path = .ok entries := by
  rw [Surroundings.list, approaches.find short]
  simp [treeAt, found, FileTree.entries]

/-- Staying in the directory that a path leads to. -/
theorem stay : surroundings.Approaches (Text.joinPath path Path.here) place := by
  obtain ⟨first, parts, further, started, followed⟩ := approaches
  have relative : Text.isAbsolute Path.here = false := by decide
  have hereParts : (Path.ofText Path.here).parts = [Path.here] := by decide
  refine ⟨first, parts ++ [Path.here], by simp, ?_, ?_⟩
  · exact start_append started further (Path.isAbsolute_joinPath path relative)
      (by rw [Path.parts_joinPath path relative, hereParts])
  · rw [follow_append followed, follow_singleton, enter, if_pos rfl]

/-- A path that leads to a directory, continued by a name, ends in that name. -/
theorem goal_joinPath {name : Text} (isName : Path.IsName name)
    (short : (Text.encode (Text.joinPath path name)).length < Path.tooLong) :
    surroundings.goal (Text.joinPath path name) = .ok (.entry ⟨place, 0⟩ name false) := by
  obtain ⟨first, parts, further, started, followed⟩ := approaches
  have onward := start_append started further (Path.isAbsolute_joinPath path isName.relative)
    (by rw [Path.parts_joinPath path isName.relative, isName.parts])
  rw [goal_of_follow (isName.joinPath_ne_nil path) short onward followed, if_neg isName.notHere,
    if_neg isName.notAbove, isName.slash_joinPath]

/-- A path that leads to a directory leads on to the directories below it. -/
theorem below {names : List Text} (areNames : ∀ name ∈ names, Path.IsEntryName name)
    (stands : surroundings.files.HasDirectory (place ++ names)) :
    surroundings.Approaches (Text.below path names) (place ++ names) := by
  obtain ⟨first, parts, further, started, followed⟩ := approaches
  obtain ⟨longerParts, absolute⟩ :=
    Path.parts_below path fun name member => (areNames name member).toIsName
  refine ⟨first, parts ++ names, by simp [further], ?_, ?_⟩
  · exact start_append started further absolute longerParts
  · rw [follow_append followed, follow_names areNames stands]

/-- Slashes at its end do not change where a path leads to. -/
theorem drawnOut (count : Nat) : surroundings.Approaches (Path.drawnOut path count) place := by
  have nonempty := approaches.nonempty
  obtain ⟨first, parts, further, started, followed⟩ := approaches
  refine ⟨first, parts ++ [], by simp [further], ?_, by rwa [List.append_nil]⟩
  refine start_append started further ?_ ?_
  · exact congrArg (fun first => decide (first = some '/')) (Path.head?_drawnOut nonempty count)
  · rw [Path.parts_drawnOut, List.append_nil]

end Approaches

/-! ### Going down from the working directory -/

section GoingDown

variable {path : Text} {here : Trail}

theorem start_relative (atHere : surroundings.location = ⟨here, 0⟩)
    (relative : Text.isAbsolute path = false) :
    surroundings.start (Path.ofText path) = .ok (⟨here, 0⟩, (Path.ofText path).parts) := by
  rw [start, if_neg (by simp [Path.ofText, relative]), atHere]

/-- Names that can be followed lead down, one directory for each. -/
theorem follow_names_inv {trail : Trail} {names : List Text} {last : Location}
    (areNames : ∀ name ∈ names, Path.IsName name)
    (followed : surroundings.follow ⟨trail, 0⟩ names = .ok last) : last = ⟨trail ++ names, 0⟩ := by
  induction names generalizing trail with
  | nil => rw [← Except.ok.inj followed, List.append_nil]
  | cons name rest inductionHypothesis =>
    obtain ⟨isName, others⟩ := List.forall_mem_cons.mp areNames
    rw [follow] at followed
    cases entered : surroundings.enter ⟨trail, 0⟩ name with
    | error error => simp [entered] at followed
    | ok next =>
      obtain ⟨-, -, -, rfl⟩ := enter_inv isName entered
      rw [entered] at followed
      rw [List.append_cons]
      exact inductionHypothesis others followed

theorem Approaches.of_relative (atHere : surroundings.location = ⟨here, 0⟩) (nonempty : path ≠ [])
    (relative : Text.isAbsolute path = false)
    (areNames : ∀ name ∈ (Path.ofText path).parts, Path.IsEntryName name)
    (stands : surroundings.files.HasDirectory (here ++ (Path.ofText path).parts)) :
    surroundings.Approaches path (here ++ (Path.ofText path).parts) :=
  ⟨⟨here, 0⟩, _, Path.parts_ne_nil nonempty relative, start_relative atHere relative,
    follow_names areNames stands⟩

/-- A path that goes down leads only to what stands at its end. -/
theorem isSome_of_find (atHere : surroundings.location = ⟨here, 0⟩)
    (relative : Text.isAbsolute path = false)
    (areNames : ∀ name ∈ (Path.ofText path).parts, Path.IsName name) {found : Found}
    (leads : surroundings.find path = .ok found) :
    (surroundings.files.get? (here ++ (Path.ofText path).parts)).isSome = true := by
  have started := start_relative atHere relative
  by_cases nonempty : path = []
  · simp [find, goal, nonempty] at leads
  by_cases long : Path.tooLong ≤ (Text.encode path).length
  · simp [find, goal_long long] at leads
  obtain ⟨front, last, isLast⟩ := Path.exists_last_part nonempty relative
  rw [isLast] at started areNames ⊢
  have isName := areNames last (by simp)
  cases followed : surroundings.follow ⟨here, 0⟩ front with
  | error error => simp [find, goal, nonempty, long, started, followed] at leads
  | ok location =>
    obtain rfl := follow_names_inv (fun name member => areNames name (by simp [member])) followed
    rw [find, goal_of_follow nonempty (Nat.lt_of_not_le long) started followed,
      if_neg isName.notHere, if_neg isName.notAbove] at leads
    cases looked : surroundings.entryAt ⟨here ++ front, 0⟩ last with
    | error error => simp [looked] at leads
    | ok entry =>
      cases entry with
      | none => simp [looked] at leads
      | some tree =>
        obtain ⟨-, -, holds⟩ := entryAt_inv looked
        rw [← List.append_assoc, holds]
        rfl

end GoingDown

end Surroundings

/-- The last part of a path is the name of a place, in a directory that stands. -/
def Session.EndsAt (session : Session) (path : Text) (place : Trail) (slash : Bool) : Prop :=
  ∃ location name, session.surroundings.goal path = .ok (.entry location name slash) ∧
    location.removed = 0 ∧ (Text.encode name).length ≤ Path.longestName ∧
    location.trail ++ [name] = place

namespace Session.EndsAt

variable {session : Session} {path : Text} {place : Trail} {slash : Bool}

theorem unique (endsAt : session.EndsAt path place slash) {other : Trail} {otherSlash : Bool}
    (alsoEnds : session.EndsAt path other otherSlash) : place = other := by
  obtain ⟨location, name, reached, _, _, rfl⟩ := endsAt
  obtain ⟨otherLocation, otherName, alsoReached, _, _, rfl⟩ := alsoEnds
  obtain ⟨rfl, rfl, _⟩ := Goal.entry.inj (Except.ok.inj (reached.symm.trans alsoReached))
  rfl

theorem ne_nil (endsAt : session.EndsAt path place slash) : place ≠ [] := by
  obtain ⟨location, name, -, -, -, rfl⟩ := endsAt
  simp

/-- A path that ends at a directory leads to it. -/
theorem approaches (endsAt : session.EndsAt path place slash)
    (stands : session.files.HasDirectory place) : session.surroundings.Approaches path place := by
  obtain ⟨⟨trail, removed⟩, name, reached, rfl, short, rfl⟩ := endsAt
  exact .of_goal reached short stands

/-- A path that leads to a directory, continued by a name, ends at the place of that name. -/
theorem joinPath (approaches : session.surroundings.Approaches path place) {name : Text}
    (isName : Path.IsEntryName name)
    (short : (Text.encode (Text.joinPath path name)).length < Path.tooLong) :
    session.EndsAt (Text.joinPath path name) (place ++ [name]) false :=
  ⟨⟨place, 0⟩, name, approaches.goal_joinPath isName.toIsName short, rfl, isName.short, rfl⟩

/-- A path that goes down ends at the place of its last name. -/
theorem of_goesDown {here : Trail} {front : List Text} {last : Text}
    (atHere : session.location = ⟨here, 0⟩) (goesDown : Path.GoesDown path (front ++ [last]))
    (areNames : ∀ name ∈ front ++ [last], Path.IsEntryName name)
    (short : (Text.encode path).length < Path.tooLong)
    (stands : session.files.HasDirectory (here ++ front)) :
    session.EndsAt path (here ++ front ++ [last]) false := by
  have isName := areNames last (by simp)
  have nonempty : path ≠ [] := by
    rintro rfl
    exact absurd goesDown.parts (by simp [Path.ofText, Text.splitAt])
  have started : session.surroundings.start (Path.ofText path) =
      .ok (⟨here, 0⟩, (Path.ofText path).parts) :=
    Surroundings.start_relative atHere goesDown.relative
  rw [goesDown.parts] at started
  have followed : session.surroundings.follow ⟨here, 0⟩ front = .ok ⟨here ++ front, 0⟩ :=
    Surroundings.follow_names (fun name member => areNames name (List.mem_append_left _ member))
      stands
  refine ⟨⟨here ++ front, 0⟩, last, ?_, rfl, isName.short, rfl⟩
  rw [Surroundings.goal_of_follow nonempty short started followed, if_neg isName.notHere,
    if_neg isName.notAbove]
  simp [Path.ofText, goesDown.tight]

end Session.EndsAt

theorem Session.LeadsTo.joinPath {session : Session} {path name : Text} {place : Trail}
    (approaches : session.surroundings.Approaches path place) (isName : Path.IsEntryName name)
    (noNull : '\x00' ∉ Text.joinPath path name)
    (short : (Text.encode (Text.joinPath path name)).length < Path.tooLong) :
    session.LeadsTo (Text.joinPath path name) (place ++ [name]) :=
  ⟨noNull, EndsAt.joinPath approaches isName short⟩

end MiniShell
