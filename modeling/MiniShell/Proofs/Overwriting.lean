/-
This file says which files a copy overwrites when it is not forced to. A copy
asks whether its target exists before it writes. That is all there is to a file
that is copied. A directory is copied file by file: what the copy asks for is a
directory with the name of the source in the target, but what it writes goes
into the target itself. So a file is overwritten if it stands in the target
where a file stands in the source.

The copy never removes anything. What it has come across on its way can
therefore be told from the files that are there at the end, also where it has
gone through its own copies.
-/

import MiniShell.Proofs.Composition
import MiniShell.Proofs.Grafting

namespace MiniShell

open MiniShell.Action

variable {trail : Trail} {session : Session} {entries : List (Text × FileTree)}

/-! ### Well-named trees -/

namespace FileTree

/-- All entries have names that paths can spell. -/
def WellNamed (tree : FileTree) : Prop :=
  ∀ trail name, (tree.get? (trail ++ [name])).isSome = true → Path.IsName name

/-- A file stays where something without entries is put elsewhere. -/
theorem get?_put_leaf {tree new : FileTree} (free : ¬ tree.HasDirectory trail)
    (leaf : ∀ {below : Trail}, below ≠ [] → new.standing below = none) {other : Trail}
    (different : other ≠ trail) {content : List UInt8}
    (found : tree.get? other = some (file content)) :
    (tree.put trail new).get? other = some (file content) := by
  rw [← standing_eq_file_iff] at found ⊢
  exact (standing_put_leaf free leaf different).trans found

theorem WellNamed.put_leaf {tree new : FileTree} (named : tree.WellNamed) {name : Text}
    (isName : Path.IsName name) (free : ¬ tree.HasDirectory (trail ++ [name]))
    (leaf : ∀ {below : Trail}, below ≠ [] → new.standing below = none) :
    (tree.put (trail ++ [name]) new).WellNamed := by
  intro other last stands
  by_cases same : other ++ [last] = trail ++ [name]
  · obtain ⟨-, equal⟩ := List.append_inj' same rfl
    exact List.singleton_inj.mp equal ▸ isName
  · rw [← isSome_standing, standing_put_leaf free leaf same, isSome_standing] at stands
    exact named other last stands

theorem wellNamed_file (content : List UInt8) : (file content).WellNamed := by
  intro trail name stands
  cases trail <;> simp [get?] at stands

theorem wellNamed_directory (each : ∀ entry ∈ entries, Path.IsName entry.1 ∧ entry.2.WellNamed) :
    (directory entries).WellNamed := named_directory each

/-- The entries of a directory have names. -/
theorem WellNamed.isName {tree : FileTree} (named : tree.WellNamed)
    (found : tree.get? trail = some (directory entries)) {name : Text}
    (member : name ∈ entries.map Prod.fst) : Path.IsName name :=
  named trail name (get?_isSome found member)

end FileTree

/-! ### Namesakes -/

/-- The path of the copy of a file. -/
def Command.copyPath (target : Text) (way : List Text) (name : Text) : Text :=
  Text.joinPath (Text.joinPath target (Path.wayDown way)) name

/-- A file stands in the source where the copy of a file goes to a place. -/
def Session.Namesake (session : Session) (source target : Text) (trail : Trail) : Prop :=
  ∃ way name place content, (∀ part ∈ way ++ [name], Path.IsName part) ∧
    session.LeadsTo (Command.copyPath target way name) trail ∧
    session.LeadsTo (Text.below source (way ++ [name])) place ∧
    session.files.get? place = some (.file content)

/-- What copying may do: directories and files stay, and only files with a namesake change. -/
structure Session.Spares (source target : Text) (before after : Session) : Prop where
  home : after.home = before.home
  location : after.location = before.location
  directories : ∀ trail, before.files.HasDirectory trail → after.files.HasDirectory trail
  files : ∀ trail content, before.files.get? trail = some (.file content) →
    ∃ left, after.files.get? trail = some (.file left) ∧
      (left = content ∨ after.Namesake source target trail)
  named : before.files.WellNamed → after.files.WellNamed

namespace Session.Spares

variable {source target : Text} {before between after : Session}

theorem refl (session : Session) : Spares source target session session where
  home := rfl
  location := rfl
  directories _ stands := stands
  files _ content found := ⟨content, found, Or.inl rfl⟩
  named isNamed := isNamed

/-- A path that leads to a place still does. -/
theorem leadsTo (spares : Spares source target before after) {path : Text}
    (leads : before.LeadsTo path trail) : after.LeadsTo path trail := by
  obtain ⟨noNull, location, name, reached, rest⟩ := leads
  have surroundings : after.surroundings = before.surroundings.withFiles after.files := by
    rw [Session.surroundings, spares.home, spares.location]
    rfl
  refine ⟨noNull, location, name, ?_, rest⟩
  rw [surroundings]
  exact Surroundings.goal_withFiles spares.directories reached

theorem namesake (spares : Spares source target before after)
    (namesake : before.Namesake source target trail) : after.Namesake source target trail := by
  obtain ⟨way, name, place, content, areNames, copied, original, found⟩ := namesake
  obtain ⟨left, stillFound, -⟩ := spares.files place content found
  exact ⟨way, name, place, left, areNames, spares.leadsTo copied, spares.leadsTo original,
    stillFound⟩

/-- What spares the files at first and later spares them altogether. -/
theorem trans (first : Spares source target before between)
    (second : Spares source target between after) : Spares source target before after where
  home := second.home.trans first.home
  location := second.location.trans first.location
  directories trail stands := second.directories trail (first.directories trail stands)
  files trail content found := by
    obtain ⟨middle, foundMiddle, kept⟩ := first.files trail content found
    obtain ⟨left, foundLeft, stillKept⟩ := second.files trail middle foundMiddle
    refine ⟨left, foundLeft, ?_⟩
    rcases kept with rfl | namesake
    · exact stillKept
    · exact Or.inr (second.namesake namesake)
  named isNamed := second.named (first.named isNamed)

/-- What is put where no directory stands changes nothing else. A file may stand there if it has a
namesake. -/
theorem put_leaf {session : Session} {trail : Trail} {name : Text} {new : FileTree}
    (isName : Path.IsName name) (free : ¬ session.files.HasDirectory (trail ++ [name]))
    (leaf : ∀ {below : Trail}, below ≠ [] → new.standing below = none)
    (own : ∀ content, session.files.get? (trail ++ [name]) = some (.file content) →
      ∃ left, new = .file left ∧
        (session.withFiles (session.files.put (trail ++ [name]) new)).Namesake source target
          (trail ++ [name])) :
    Spares source target session
      (session.withFiles (session.files.put (trail ++ [name]) new)) := by
  refine ⟨rfl, rfl, fun other stands => ?_, fun other content found => ?_, fun isNamed =>
    isNamed.put_leaf isName free leaf⟩
  · have different : other ≠ trail ++ [name] := fun same => free (same ▸ stands)
    rw [FileTree.hasDirectory_iff_standing] at stands ⊢
    exact (FileTree.standing_put_leaf free leaf different).trans stands
  · by_cases same : other = trail ++ [name]
    · subst same
      obtain ⟨left, rfl, namesake⟩ := own content found
      exact ⟨left, FileTree.get?_put_file found _, Or.inr namesake⟩
    · exact ⟨content, FileTree.get?_put_leaf free leaf same found, Or.inl rfl⟩

end Session.Spares

/-! ### Sparing actions -/

/-- An action that does to a well-named session only what copying may do. -/
def Action.Sparing (source target : Text) {Result : Type} (action : Action Result) : Prop :=
  ∀ session, session.files.WellNamed →
    Session.Spares source target session (action.start session).2

namespace Action.Sparing

variable {source target : Text} {Result Other : Type}

theorem looks {action : Action Result} (made : Stepwise ⟨false, false, false⟩ action) :
    Sparing source target action := by
  intro session _
  rw [made.looks]
  exact .refl session

theorem throw (fault : Fault) :
    Sparing source target (MonadExcept.throw fault : Action Result) :=
  fun session _ => .refl session

theorem ite {condition : Prop} [Decidable condition] {action other : Action Result}
    (first : Sparing source target action) (second : Sparing source target other) :
    Sparing source target (if condition then action else other) := by
  split
  · exact first
  · exact second

theorem bind {action : Action Result} {next : Result → Action Other}
    (first : Sparing source target action)
    (onward : ∀ result, Sparing source target (next result)) :
    Sparing source target (action >>= next) := by
  intro session named
  have spares := first session named
  rw [start_bind]
  split
  · next result after ended =>
    rw [ended] at spares
    exact spares.trans (onward result after (spares.named named))
  · next fault after ended =>
    rw [ended] at spares
    exact spares

theorem tryCatch {action : Action Result} {handle : Fault → Action Result}
    (first : Sparing source target action)
    (onward : ∀ fault, Sparing source target (handle fault)) :
    Sparing source target (tryCatch action handle) := by
  intro session named
  have spares := first session named
  rw [start_tryCatch]
  split
  · next result after ended =>
    rw [ended] at spares
    exact spares
  · next fault after ended =>
    rw [ended] at spares
    exact spares.trans (onward fault after (spares.named named))

theorem sequential : Sequential fun Result (action : Action Result) =>
    Sparing source target action :=
  ⟨fun result => looks (.pure result), bind⟩

end Action.Sparing

/-! ### Making directories -/

/-- A directory is made at a free place, or nothing changes. -/
theorem makeDirectory_cases (session : Session) (path : Text) :
    ((makeDirectory path).start session).2 = session ∨
      ∃ trail name, Path.IsName name ∧ session.files.get? (trail ++ [name]) = none ∧
        ((makeDirectory path).start session).2 =
          session.withFiles (session.files.put (trail ++ [name]) .empty) := by
  by_cases null : '\x00' ∈ path
  · simp [makeDirectory, start_bind, start_goal, null]
  cases reached : session.surroundings.goal path with
  | error error => simp [makeDirectory, start_bind, start_goal, null, reached]
  | ok target =>
    have opened : (goal path).start session = (.ok target, session) := by
      simp [start_goal, null, reached]
    cases target with
    | entry location name slash =>
      by_cases stands : location.removed = 0
      · by_cases short : (Text.encode name).length ≤ Path.longestName
        · cases found : session.files.get? (location.trail ++ [name]) with
          | none =>
            refine Or.inr ⟨_, name, (Surroundings.goal_entry_inv reached).1, found, ?_⟩
            simp [makeDirectory, start_bind, opened, start_entryAt, entryAt_short stands short,
              found, stands, putTree, Session.withFiles]
          | some tree =>
            simp [makeDirectory, start_bind, opened, start_entryAt, entryAt_short stands short,
              found, refuse]
        · simp [makeDirectory, start_bind, opened, start_entryAt, Surroundings.entryAt, stands,
            Nat.lt_of_not_le short]
      · simp [makeDirectory, start_bind, opened, start_entryAt, Surroundings.entryAt, stands,
          refuse]
    | _ => simp [makeDirectory, start_bind, opened, refuse]

namespace Action.Sparing

variable {source target : Text}

theorem makeDirectory (path : Text) : Sparing source target (Action.makeDirectory path) := by
  intro session _
  rcases makeDirectory_cases session path with same | ⟨trail, name, isName, vacant, made⟩
  · rw [same]
    exact .refl session
  · rw [made]
    have free : ¬ session.files.HasDirectory (trail ++ [name]) := by
      rintro ⟨entries, found⟩
      exact absurd (vacant.symm.trans found) (by simp)
    refine .put_leaf isName free (fun {below} further => ?_) fun content found =>
      absurd (vacant.symm.trans found) (by simp)
    cases below with
    | nil => exact absurd rfl further
    | cons first rest => rfl

theorem makeDirectories (steps : Nat) (path : Text) :
    Sparing source target (Action.makeDirectories steps path) := by
  induction steps generalizing path with
  | zero => exact looks (.pure _)
  | succ steps inductionHypothesis =>
    unfold Action.makeDirectories
    refine (looks (.pathExists _)).bind fun _ =>
      ite (bind ?parent fun _ => ite (looks (.pure _)) ?within) ?here
    case parent =>
      refine (inductionHypothesis _).tryCatch fun fault => ?_
      split
      · exact looks (.pure _)
      · exact throw _
    all_goals
      refine (makeDirectory path).tryCatch fun fault => ?_
      split
      · exact (looks (.isDirectory path)).bind fun _ => ite (looks (.pure _)) (throw _)
      · exact throw _

end Action.Sparing

/-! ### Copying files -/

/-- A file that has been read is written, or the copy fails and nothing changes. -/
theorem copyText_cases (session : Session) (original copy : Text) :
    (∃ fault, (Command.copyText original copy).start session = (.error fault, session)) ∨
      ∃ place content lines trail, session.Holds original place content lines ∧
        session.LeadsTo copy trail ∧ ¬ session.files.HasDirectory trail ∧
        (Command.copyText original copy).start session = (.ok ⟨⟩, session.withFiles
          (session.files.put trail (.file (Text.encode lines.flatten)))) := by
  rcases session.readLines_cases original with ⟨fault, refused⟩ | ⟨place, content, lines, holds⟩
  · rw [Command.copyText, start_bind, refused]
    exact Or.inl ⟨fault, rfl⟩
  · rw [Command.copyText, start_bind_ok holds.readLines]
    rcases createFile_cases session copy with ⟨fault, refused⟩ | ⟨trail, leads, free⟩
    · rw [writeFile, start_bind, refused]
      exact Or.inl ⟨fault, rfl⟩
    · rw [writeFile_leads leads free]
      exact Or.inr ⟨place, content, lines, trail, holds, leads, free, rfl⟩

/-- A file that is copied on the way overwrites at most its namesake in the target. -/
theorem Action.Sparing.copyText {source target : Text} {way : List Text} {name : Text}
    (areNames : ∀ part ∈ way ++ [name], Path.IsName part) :
    Sparing source target (Command.copyText (Text.joinPath (Text.below source way) name)
      (Command.copyPath target way name)) := by
  intro session _
  rw [← Text.below_snoc]
  rcases copyText_cases session (Text.below source (way ++ [name]))
      (Command.copyPath target way name) with
    ⟨fault, refused⟩ | ⟨place, content, lines, trail, ⟨original, found, -⟩, leads, free, copied⟩
  · rw [refused]
    exact .refl session
  · rw [copied]
    generalize Text.encode lines.flatten = bytes
    have keeps : ∀ other, session.files.HasDirectory other →
        (session.files.put trail (.file bytes)).HasDirectory other :=
      fun _ => FileTree.hasDirectory_put free bytes
    have namesake : (session.withFiles (session.files.put trail (.file bytes))).Namesake
        source target trail := by
      -- The original still is a file, even if the copy was written over it.
      obtain ⟨left, stillFound⟩ : ∃ left, (session.files.put trail (.file bytes)).get? place =
          some (.file left) := by
        by_cases same : place = trail
        · rw [same] at found ⊢
          exact ⟨bytes, FileTree.get?_put_file found _⟩
        · exact ⟨content,
            FileTree.get?_put_leaf free (FileTree.standing_file_below bytes) same found⟩
      exact ⟨way, name, place, left, areNames, leads.withFiles keeps, original.withFiles keeps,
        stillFound⟩
    obtain ⟨_, location, last, reached, _, _, rfl⟩ := leads
    exact .put_leaf (Surroundings.goal_entry_inv reached).1 free
      (FileTree.standing_file_below bytes)
      fun _ _ => ⟨bytes, rfl, namesake⟩

/-! ### Walking -/

theorem list_of_listForWalk {after : Session} {path : Text}
    (listed : (listForWalk path).start session = (.ok (some entries), after)) :
    session.surroundings.list path = .ok entries := by
  rw [listForWalk, start_tryCatch, start_map, start_listDirectory] at listed
  by_cases null : '\x00' ∈ path
  · simp [null, Except.map] at listed
  · cases outcome : session.surroundings.list path with
    | error error => simp [null, outcome, Except.map] at listed
    | ok others =>
      simp [null, outcome, Except.map] at listed
      rw [listed.1]

/-- What a walk lists are names. -/
theorem isName_of_listForWalk {after : Session} (named : session.files.WellNamed) {path : Text}
    (listed : (listForWalk path).start session = (.ok (some entries), after)) {name : Text}
    (member : name ∈ entries.map Prod.fst) : Path.IsName name := by
  have list := list_of_listForWalk listed
  unfold Surroundings.list at list
  split at list
  · exact absurd list (by simp)
  · exact absurd list (by simp)
  · rename_i location found
    rw [← Except.ok.inj list, Surroundings.treeAt] at member
    split at member
    · exact absurd member (by simp [FileTree.entries, FileTree.empty])
    · cases stands : session.files.get? location.trail with
      | none => simp [Session.surroundings, stands, FileTree.entries, FileTree.empty] at member
      | some tree =>
        cases tree with
        | file content => simp [Session.surroundings, stands, FileTree.entries] at member
        | directory others =>
          rw [show session.surroundings.files = session.files from rfl, stands] at member
          exact named.isName stands member

/-- A walk through the source is sparing if its visits are. -/
theorem Action.Sparing.walkDown {source target : Text} {visit : Visit}
    (visits : ∀ {way directories files}, (∀ part ∈ way, Path.IsName part) →
      (∀ name ∈ files, Path.IsName name) →
      Sparing source target (visit (Text.below source way) directories files))
    (steps : Nat) {way : List Text} (areNames : ∀ part ∈ way, Path.IsName part) :
    Sparing source target (Action.walkDown visit steps (Text.below source way)) := by
  induction steps generalizing way with
  | zero => exact looks (.pure _)
  | succ steps inductionHypothesis =>
    intro session named
    have looking : Stepwise ⟨false, false, false⟩ (listForWalk (Text.below source way)) :=
      .listForWalk _
    rw [Action.walkDown, start_bind]
    split
    · next listing after listed =>
      obtain rfl := looking.after_eq listed
      cases listing with
      | none => exact .refl after
      | some entries =>
        -- What is listed now are names, so the way goes on with names.
        have areListed {choose : Text × FileTree → Bool} :
            ∀ name ∈ (entries.filter choose).map Prod.fst, Path.IsName name := fun name member =>
          isName_of_listForWalk named listed ((List.filter_sublist.map Prod.fst).subset member)
        have walks : Sparing source target (do
            visit (Text.below source way) (directoryNames entries) (fileNames entries)
            (directoryNames entries).forM fun name =>
              Action.walkDown visit steps (Text.joinPath (Text.below source way) name)) := by
          refine (visits areNames areListed).bind fun _ => sequential.forM fun name member => ?_
          rw [← Text.below_snoc]
          exact inductionHypothesis (List.forall_mem_append.mpr
            ⟨areNames, List.forall_mem_singleton.mpr (areListed name member)⟩)
        exact walks after named
    · next fault after listed =>
      obtain rfl := looking.after_eq listed
      exact .refl after

/-! ### Copying directories -/

/-- A path from the root that stands for a path. -/
def Session.wholePath? (session : Session) (path : Text) : Option Text :=
  if Text.isAbsolute path then some path
  else session.workingDirectory?.map fun directory => Text.joinPath directory path

theorem start_absoluteParts (path : Text) (session : Session) :
    (Command.absoluteParts path).start session =
      ((session.wholePath? path).elim (.error (.system .noEntry []))
        fun whole => .ok (Path.ofText whole).normalParts, session) := by
  unfold Command.absoluteParts Session.wholePath?
  by_cases absolute : Text.isAbsolute path = true
  · simp [absolute]
  · simp only [absolute]
    cases directory : session.workingDirectory? <;>
      simp [workingDirectory, start_bind, directory, refuse]

/-- A path that is continued by names stands for a path that is continued by these names. -/
theorem wholePath?_below {source whole : Text} {way : List Text}
    (areNames : ∀ part ∈ way, Path.IsName part) (found : session.wholePath? source = some whole) :
    ∃ longer, session.wholePath? (Text.below source way) = some longer ∧
      (Path.ofText longer).normalParts = (Path.ofText whole).normalParts ++ way := by
  obtain ⟨parts, isAbsolute⟩ := Path.parts_below source areNames
  unfold Session.wholePath? at found ⊢
  rw [isAbsolute]
  by_cases absolute : Text.isAbsolute source = true
  · rw [if_pos absolute] at found ⊢
    obtain rfl := Option.some.inj found
    exact ⟨_, rfl, Path.normalParts_of_parts isAbsolute parts areNames⟩
  · rw [if_neg absolute] at found ⊢
    obtain ⟨directory, isDirectory, rfl⟩ := Option.map_eq_some_iff.mp found
    have relative : Text.isAbsolute source = false := by simpa using absolute
    have stillRelative : Text.isAbsolute (Text.below source way) = false :=
      isAbsolute.trans relative
    refine ⟨_, Option.map_eq_some_iff.mpr ⟨directory, isDirectory, rfl⟩,
      Path.normalParts_of_parts ?_ ?_ areNames⟩
    · exact (Path.isAbsolute_joinPath directory stillRelative).trans
        (Path.isAbsolute_joinPath directory relative).symm
    · rw [Path.parts_joinPath directory stillRelative, parts,
        Path.parts_joinPath directory relative, List.append_assoc]

namespace Action.Sparing

variable {source target : Text}

/-- Each visit of a copy writes the files of one directory below the source. -/
theorem copyDirectory : Sparing source target (Command.copyDirectory source target) := by
  have nothing : ∀ part ∈ ([] : List Text), Path.IsName part := by simp
  unfold Command.copyDirectory
  generalize walkDepth = depth
  refine walkDown (fun {way directories files} areNames filesNamed => ?_) depth nothing
  intro session named
  have started := start_absoluteParts source session
  cases whole : session.wholePath? source with
  | none =>
    rw [whole] at started
    rw [start_bind, started]
    exact .refl session
  | some path =>
    obtain ⟨longer, isLonger, parts⟩ := wholePath?_below areNames whole
    have here := start_absoluteParts (Text.below source way) session
    rw [whole, Option.elim_some] at started
    rw [isLonger, Option.elim_some, parts] at here
    rw [start_bind_ok started, start_bind_ok here, Path.wayBetween_append]
    have copies : Sparing source target (do
        let copy := Text.joinPath target (Path.wayDown way)
        Action.makeDirectories (copy.length + 1) copy
        files.forM fun name =>
          Command.copyText (Text.joinPath (Text.below source way) name)
            (Text.joinPath copy name)) := by
      refine (makeDirectories _ _).bind fun _ => sequential.forM fun name member => ?_
      exact copyText (List.forall_mem_append.mpr
        ⟨areNames, List.forall_mem_singleton.mpr (filesNamed name member)⟩)
    exact copies session named

end Action.Sparing

/-! ### The command -/

namespace Command

/-- The option that forces a copy is not among those in front of the arguments. -/
def Unforced (arguments : List Text) : Prop :=
  "-f".toList ∉ arguments.takeWhile fun argument => argument.head? = some '-'

instance (arguments : List Text) : Decidable (Unforced arguments) :=
  inferInstanceAs (Decidable (¬ _))

/-- Arguments without a flag for force do not ask for it. -/
theorem force_of_copyOptions {arguments rest : List Text} (unforced : Unforced arguments)
    {asked force recursive : Bool}
    (options : copyOptions false asked arguments = .ok (force, recursive, rest)) :
    force = false := by
  induction arguments generalizing asked with
  | nil => exact absurd options (by simp [copyOptions])
  | cons argument others inductionHypothesis =>
    rw [copyOptions] at options
    by_cases dashed : argument.head? = some '-'
    · have notForce : argument ≠ "-f".toList := fun isForce => unforced (by
        rw [List.takeWhile_cons_of_pos (by simpa using dashed)]
        exact isForce ▸ List.mem_cons_self ..)
      have further : Unforced others := fun member => unforced (by
        rw [List.takeWhile_cons_of_pos (by simpa using dashed)]
        exact List.mem_cons_of_mem _ member)
      rw [if_pos dashed, if_neg notForce] at options
      split at options
      · exact inductionHypothesis further options
      · exact absurd options (by simp)
    · rw [if_neg dashed] at options
      exact (Prod.mk.inj (Except.ok.inj options)).1.symm

/-- Arguments ask for a recursive copy of a directory, and the copy finds that its target does not
exist. -/
structure Merges (session : Session) (arguments : List Text) (source target : Text) : Prop where
  recursive : ∃ rest,
    copyOptions false false arguments = .ok (false, true, source :: target :: rest)
  directory : session.surroundings.isDirectory source = true
  vacant : ∃ place, (copyTarget source target).start session = (.ok place, session) ∧
    session.surroundings.pathExists place = false

/-- What keeps all directories and files, with the bytes they hold. -/
structure Keeps (before after : Session) : Prop where
  directories : ∀ trail, before.files.HasDirectory trail → after.files.HasDirectory trail
  files : ∀ trail content, before.files.get? trail = some (.file content) →
    after.files.get? trail = some (.file content)

theorem Keeps.refl (session : Session) : Keeps session session :=
  ⟨fun _ stands => stands, fun _ _ found => found⟩

/-- A file that is copied to where nothing is replaces nothing. -/
theorem copyText_keeps {source place : Text}
    (vacant : session.surroundings.pathExists place = false) :
    Keeps session ((copyText source place).start session).2 := by
  rcases copyText_cases session source place with
    ⟨fault, refused⟩ | ⟨_, _, lines, trail, _, leads, free, copied⟩
  · rw [refused]
    exact .refl session
  · rw [copied]
    generalize Text.encode lines.flatten = bytes
    refine ⟨fun _ => FileTree.hasDirectory_put free bytes, fun other content found => ?_⟩
    have different : other ≠ trail := by
      rintro rfl
      rw [Surroundings.pathExists, find_leads leads found] at vacant
      exact absurd vacant (by simp)
    exact FileTree.get?_put_leaf free (FileTree.standing_file_below bytes) different found

/-- A copy that is not forced keeps everything, or it merges a directory into another. -/
theorem copy_cases (session : Session) (named : session.files.WellNamed) (source target : Text)
    (recursive : Bool) :
    Keeps session ((copy source target false recursive).start session).2 ∨
      recursive = true ∧ session.surroundings.isDirectory source = true ∧
        (∃ place, (copyTarget source target).start session = (.ok place, session) ∧
          session.surroundings.pathExists place = false) ∧
        Session.Spares source target session
          ((copy source target false recursive).start session).2 := by
  have looking : Stepwise ⟨false, false, false⟩ (copyTarget source target) := .copyTarget ..
  rw [copy, start_bind]
  split
  · next place after targeted =>
    obtain rfl := looking.after_eq targeted
    have asked : (Action.pathExists place).start after =
        (.ok (after.surroundings.pathExists place), after) := rfl
    have askedSource : (Action.isDirectory source).start after =
        (.ok (after.surroundings.isDirectory source), after) := rfl
    rw [start_bind_ok asked]
    cases vacant : after.surroundings.pathExists place with
    | true => exact Or.inl (.refl after)
    | false =>
      cases recursive with
      | false => exact Or.inl (copyText_keeps vacant)
      | true =>
        simp only [Bool.false_and, Bool.false_eq_true, if_false, if_true]
        rw [start_bind_ok askedSource]
        cases directory : after.surroundings.isDirectory source with
        | false => exact Or.inl (.refl after)
        | true =>
          exact Or.inr
            ⟨trivial, rfl, ⟨place, targeted, vacant⟩, Sparing.copyDirectory after named⟩
  · next fault after refused =>
    obtain rfl := looking.after_eq refused
    exact Or.inl (.refl after)

/-- A command that is not forced keeps everything, or it merges a directory into another. -/
theorem cp_cases {arguments : List Text} (unforced : Unforced arguments)
    (named : session.files.WellNamed) :
    Keeps session ((cp arguments).start session).2 ∨
      ∃ source target, Merges session arguments source target ∧
        Session.Spares source target session ((cp arguments).start session).2 := by
  unfold cp
  split
  · exact Or.inl (.refl session)
  · cases options : copyOptions false false arguments with
    | error fault => exact Or.inl (.refl session)
    | ok result =>
      obtain ⟨force, recursive, operands⟩ := result
      obtain rfl := force_of_copyOptions unforced options
      rcases operands with _ | ⟨source, _ | ⟨target, rest⟩⟩
      · exact Or.inl (.refl session)
      · exact Or.inl (.refl session)
      · rcases copy_cases session named source target recursive with
          keeps | ⟨rfl, directory, vacant, spares⟩
        · exact Or.inl keeps
        · exact Or.inr ⟨source, target, ⟨⟨rest, options⟩, directory, vacant⟩, spares⟩

/-- Copying without force. All directories stay, and all files. A file holds what it held, unless a
recursive copy finds that its target does not exist and merges the source into it; then a file can
change if it stands in the target where a file stands in the source. -/
theorem cp_spares {arguments : List Text} (unforced : Unforced arguments) {session : Session}
    (named : session.files.WellNamed) :
    let after := ((cp arguments).start session).2
    (∀ trail, session.files.HasDirectory trail → after.files.HasDirectory trail) ∧
    ∀ trail content, session.files.get? trail = some (.file content) →
      after.files.get? trail = some (.file content) ∨
        ∃ left source target, after.files.get? trail = some (.file left) ∧
          Merges session arguments source target ∧ after.Namesake source target trail := by
  intro after
  rcases cp_cases unforced named with keeps | ⟨source, target, merges, spares⟩
  · exact ⟨keeps.directories, fun trail content found => Or.inl (keeps.files trail content found)⟩
  · refine ⟨spares.directories, fun trail content found => ?_⟩
    obtain ⟨left, stillFound, rfl | namesake⟩ := spares.files trail content found
    · exact Or.inl stillFound
    · exact Or.inr ⟨left, source, target, stillFound, merges, namesake⟩

/-- A session with a directory to copy and a directory that holds a file of the same name. -/
def mergeSession : Session where
  files := .directory
    [("d".toList, .directory [("a".toList, .file (Text.encode "old\n".toList))]),
      ("s".toList, .directory [("a".toList, .file (Text.encode "new\n".toList))])]
  home := "/home".toList
  inputs := []

/-- The arguments of `cp -r s d`. -/
def mergeArguments : List Text := ["-r".toList, "s".toList, "d".toList]

theorem mergeSession_wellNamed : mergeSession.files.WellNamed := by
  have isName (letter : Char) (noSlash : letter ≠ '/') (noDot : letter ≠ '.') :
      Path.IsName [letter] :=
    ⟨by simp, by simpa using noSlash.symm, by simpa [Path.here] using noDot, by simp [Path.above]⟩
  have holds (content : List UInt8) :
      (FileTree.directory [("a".toList, .file content)]).WellNamed :=
    FileTree.wellNamed_directory (by
      simpa using ⟨isName 'a' (by decide) (by decide), FileTree.wellNamed_file content⟩)
  refine FileTree.wellNamed_directory ?_
  simpa using ⟨⟨isName 'd' (by decide) (by decide), holds _⟩,
    isName 's' (by decide) (by decide), holds _⟩

/-- A recursive copy succeeds without force, and it overwrites a file. -/
theorem cp_merges :
    let copied := (cp mergeArguments).start mergeSession
    copied.1.toOption = some () ∧
      mergeSession.files.contentAt ["d".toList, "a".toList] = Text.encode "old\n".toList ∧
      copied.2.files.contentAt ["d".toList, "a".toList] = Text.encode "new\n".toList := by
  decide +kernel

/-- The file that is overwritten there has a namesake. -/
theorem cp_spares_merged :
    Unforced mergeArguments ∧ mergeSession.files.WellNamed ∧
      ((cp mergeArguments).start mergeSession).2.Namesake "s".toList "d".toList
        ["d".toList, "a".toList] := by
  have unforced : Unforced mergeArguments := by decide
  refine ⟨unforced, mergeSession_wellNamed, ?_⟩
  have changed : ((cp mergeArguments).start mergeSession).2.files.contentAt
      ["d".toList, "a".toList] ≠ Text.encode "old\n".toList := by decide +kernel
  obtain ⟨-, files⟩ := cp_spares unforced mergeSession_wellNamed
  rcases files ["d".toList, "a".toList] (Text.encode "old\n".toList) rfl with
    kept | ⟨left, source, target, -, merges, namesake⟩
  · rw [FileTree.contentAt, kept] at changed
    exact absurd rfl changed
  · obtain ⟨rest, options⟩ := merges.recursive
    have operands : ["s".toList, "d".toList] = source :: target :: rest :=
      (Prod.mk.inj (Prod.mk.inj (Except.ok.inj options)).2).2
    obtain ⟨rfl, further⟩ := List.cons.inj operands
    obtain ⟨rfl, -⟩ := List.cons.inj further
    exact namesake

end Command

end MiniShell
