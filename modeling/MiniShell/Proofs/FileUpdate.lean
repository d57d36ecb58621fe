/-
This file says what writing a file does. Putting something at a place of a tree
either is seen there or, where the directory that holds the place is missing,
changes nothing; and putting a file where no directory stands changes nothing
else. So a path that led to a file leads to the same file after it has been
written, a file that is written in two steps is written in one, and a file that
has been written can be read.

The two steps are emptying the file and adding to it. The last part is about
files of lines, the case that most commands meet: a path leads to a file whose
bytes are the encoding of some lines.
-/

import MiniShell.Proofs.Evaluation

namespace MiniShell

variable {trail : Trail} {path : Text} {session : Session} {tree : FileTree} {content : List UInt8}
  {surroundings : Surroundings} {location : Location}

namespace FileTree

/-! ### Entries -/

theorem child?_putEntry_self (name : Text) (tree : FileTree) (entries : List (Text × FileTree)) :
    child? name (putEntry name tree entries) = some tree := by
  induction entries with
  | nil => simp [putEntry, child?]
  | cons entry rest inductionHypothesis =>
    obtain ⟨other, old⟩ := entry
    rw [putEntry]
    split
    · simp [child?]
    · next different =>
      split
      · simp [child?]
      · rw [child?, if_neg different, inductionHypothesis]

theorem child?_putEntry_other {name other : Text} (different : other ≠ name) (tree : FileTree)
    (entries : List (Text × FileTree)) :
    child? other (putEntry name tree entries) = child? other entries := by
  induction entries with
  | nil => simp [putEntry, child?, different.symm]
  | cons entry rest inductionHypothesis =>
    obtain ⟨next, old⟩ := entry
    rw [putEntry]
    split
    · next same => simp [child?, same, different.symm]
    · split
      · simp [child?, different.symm]
      · rw [child?, child?, inductionHypothesis]

/-- An entry that is put twice is there as it was put last. -/
theorem putEntry_putEntry (name : Text) (first second : FileTree)
    (entries : List (Text × FileTree)) :
    putEntry name second (putEntry name first entries) = putEntry name second entries := by
  induction entries with
  | nil => simp [putEntry]
  | cons entry rest inductionHypothesis =>
    obtain ⟨other, old⟩ := entry
    by_cases same : other = name
    · simp [putEntry, same]
    · by_cases before : (Text.precedes name other && (child? name rest).isNone) = true
      · simp only [putEntry, same, before, if_true, if_false]
      · have listed : (Text.precedes name other &&
            (child? name (putEntry name first rest)).isNone) = false := by
          simp [child?_putEntry_self]
        simp only [putEntry, same, before, listed, Bool.false_eq_true, if_false,
          inductionHypothesis]

/-! ### Places -/

theorem get?_cons (entries : List (Text × FileTree)) (name : Text) (rest : Trail) :
    (directory entries).get? (name :: rest) = (child? name entries).bind fun tree =>
      tree.get? rest := by
  rw [get?]
  cases child? name entries <;> rfl

/-- Putting below a directory changes only the entry on the way. -/
theorem put_directory (entries : List (Text × FileTree)) (name : Text) {rest : Trail}
    (further : rest ≠ []) (new : FileTree) :
    (directory entries).put (name :: rest) new =
      match child? name entries with
      | none => directory entries
      | some tree => directory (putEntry name (tree.put rest new) entries) := by
  cases rest with
  | nil => exact absurd rfl further
  | cons next more => rfl

/-- What is put at a place twice is there as it was put last. -/
theorem put_put (tree : FileTree) (trail : Trail) (first second : FileTree) :
    (tree.put trail first).put trail second = tree.put trail second := by
  induction trail generalizing tree with
  | nil => simp [put]
  | cons name rest inductionHypothesis =>
    cases tree with
    | file content => simp [put]
    | directory entries =>
      by_cases last : rest = []
      · simp [last, put, putEntry_putEntry]
      · rw [put_directory entries name last, put_directory entries name last]
        cases found : child? name entries with
        | none => simp [put_directory entries name last, found]
        | some below =>
          simp [put_directory _ name last, child?_putEntry_self, inductionHypothesis,
            putEntry_putEntry]

/-- What is put at a place is found there, or nothing ever is. -/
theorem get?_put_self (tree : FileTree) (trail : Trail) :
    (∀ new, (tree.put trail new).get? trail = some new) ∨
      (tree.get? trail = none ∧ ∀ new, (tree.put trail new).get? trail = none) := by
  induction trail generalizing tree with
  | nil => exact Or.inl fun new => by simp [put, get?]
  | cons name rest inductionHypothesis =>
    cases tree with
    | file content => exact Or.inr ⟨by simp [get?], fun new => by simp [put, get?]⟩
    | directory entries =>
      by_cases last : rest = []
      · exact Or.inl fun new => by simp [last, put, get?, child?_putEntry_self]
      · cases found : child? name entries with
        | none =>
          exact Or.inr ⟨by simp [get?_cons, found],
            fun new => by simp [put_directory entries name last, found, get?_cons]⟩
        | some below =>
          rcases inductionHypothesis below with seen | ⟨missing, never⟩
          · refine Or.inl fun new => ?_
            simp [put_directory entries name last, found, get?_cons, child?_putEntry_self, seen]
          · refine Or.inr ⟨by simp [get?_cons, found, missing], fun new => ?_⟩
            simp [put_directory entries name last, found, get?_cons, child?_putEntry_self, never]

/-- A directory stands at a place. -/
def HasDirectory (tree : FileTree) (trail : Trail) : Prop :=
  ∃ entries, tree.get? trail = some (directory entries)

/-- A tree by itself: a file with its bytes, or a directory without its entries. -/
def alone : FileTree → FileTree
  | file content => file content
  | directory _ => empty

/-- What stands at a place by itself, without what stands below it. -/
def standing (tree : FileTree) (trail : Trail) : Option FileTree := (tree.get? trail).map alone

theorem hasDirectory_iff_standing (tree : FileTree) (trail : Trail) :
    tree.HasDirectory trail ↔ tree.standing trail = some empty := by
  unfold HasDirectory standing
  rcases tree.get? trail with _ | ⟨content⟩ | ⟨entries⟩ <;> simp [alone, empty]

theorem standing_directory (entries : List (Text × FileTree)) (name : Text) (rest : Trail) :
    (directory entries).standing (name :: rest) =
      (child? name entries).bind fun tree => tree.standing rest := by
  rw [standing, get?_cons, Option.map_bind]
  rfl

/-- Nothing stands below a file. -/
theorem standing_below (free : ¬ tree.HasDirectory []) (below : trail ≠ []) :
    tree.standing trail = none := by
  cases tree with
  | directory entries => exact absurd ⟨entries, by rw [get?]⟩ free
  | file content =>
    cases trail with
    | nil => exact absurd rfl below
    | cons name rest => simp [standing, get?]

theorem standing_file_below (content : List UInt8) (below : trail ≠ []) :
    (file content).standing trail = none :=
  standing_below (by simp [HasDirectory, get?]) below

/-- What has nothing below it and is put where no directory stands is the only thing that
changes. -/
theorem standing_put_leaf {new : FileTree} (free : ¬ tree.HasDirectory trail)
    (leaf : ∀ {below : Trail}, below ≠ [] → new.standing below = none) {other : Trail}
    (different : other ≠ trail) : (tree.put trail new).standing other = tree.standing other := by
  induction trail generalizing tree other with
  | nil =>
    rw [put, standing_below free different]
    exact leaf different
  | cons name rest inductionHypothesis =>
    cases tree with
    | file old => simp [put]
    | directory entries =>
      -- Whatever the change below the name, it is the only entry that changes.
      have changed : ∀ new, (∀ trail, trail ≠ rest → new.standing trail =
          (child? name entries).bind fun tree => tree.standing trail) →
          (directory (putEntry name new entries)).standing other =
            (directory entries).standing other := by
        intro new keeps
        cases other with
        | nil => simp [standing, get?, alone]
        | cons first others =>
          rw [standing_directory, standing_directory]
          by_cases same : first = name
          · subst same
            rw [child?_putEntry_self, ← keeps others fun equal => different (by rw [equal])]
            rfl
          · rw [child?_putEntry_other same]
      have onWay : ∀ below, child? name entries = some below → ¬ below.HasDirectory rest := by
        intro below found stands
        refine free ((hasDirectory_iff_standing _ _).mpr ?_)
        rw [standing_directory, found]
        exact (hasDirectory_iff_standing _ _).mp stands
      by_cases last : rest = []
      · subst last
        rw [put]
        refine changed _ fun trail below => ?_
        rw [leaf below]
        cases found : child? name entries with
        | none => rfl
        | some tree => exact (standing_below (onWay _ found) below).symm
      · rw [put_directory entries name last]
        cases found : child? name entries with
        | none => rfl
        | some below =>
          refine changed _ fun trail different => ?_
          rw [found]
          exact inductionHypothesis (onWay _ found) different

/-- A file that is put where no directory stands is the only thing that changes. -/
theorem standing_put (free : ¬ tree.HasDirectory trail) (content : List UInt8) {other : Trail}
    (different : other ≠ trail) :
    (tree.put trail (file content)).standing other = tree.standing other :=
  standing_put_leaf free (standing_file_below content) different

theorem not_hasDirectory_of_file (found : tree.get? trail = some (file content)) :
    ¬ tree.HasDirectory trail := by
  rintro ⟨entries, directory⟩
  exact absurd (found.symm.trans directory) (by simp)

theorem get?_put_file (found : tree.get? trail = some (file content)) (new : FileTree) :
    (tree.put trail new).get? trail = some new := by
  rcases tree.get?_put_self trail with seen | ⟨missing, _⟩
  · exact seen new
  · exact absurd (found.symm.trans missing) (by simp)

/-- A file that is put in place of another one changes nothing only if it holds the same bytes. -/
theorem standing_put_iff (found : tree.get? trail = some (file content)) (left : List UInt8) :
    (∀ place, (tree.put trail (file left)).standing place = tree.standing place) ↔
      left = content := by
  have before : tree.standing trail = some (file content) := by rw [standing, found]; rfl
  have after : (tree.put trail (file left)).standing trail = some (file left) := by
    rw [standing, get?_put_file found]
    rfl
  constructor
  · intro same
    exact file.inj (Option.some.inj (after.symm.trans ((same trail).trans before)))
  · rintro rfl place
    by_cases same : place = trail
    · rw [same, after, before]
    · exact standing_put (not_hasDirectory_of_file found) _ same

/-- A file that is put where no directory stands leaves the directories. -/
theorem hasDirectory_put (free : ¬ tree.HasDirectory trail) (content : List UInt8) {other : Trail}
    (stands : tree.HasDirectory other) : (tree.put trail (file content)).HasDirectory other := by
  have different : other ≠ trail := by
    intro equal
    exact free (equal ▸ stands)
  rw [hasDirectory_iff_standing] at stands ⊢
  rw [standing_put free content different, stands]

/-- What is put into a directory is found there. -/
theorem get?_put {name : Text} (holds : tree.HasDirectory trail) (new : FileTree) :
    (tree.put (trail ++ [name]) new).get? (trail ++ [name]) = some new := by
  induction trail generalizing tree with
  | nil =>
    obtain ⟨entries, found⟩ := holds
    rw [get?] at found
    rw [Option.some.inj found, List.nil_append, put, get?_cons, child?_putEntry_self]
    rfl
  | cons first rest inductionHypothesis =>
    cases tree with
    | file content => simp [HasDirectory, get?] at holds
    | directory entries =>
      have further : rest ++ [name] ≠ [] := by simp
      obtain ⟨inner, found⟩ := holds
      rw [get?_cons] at found
      obtain ⟨below, child, stands⟩ := Option.bind_eq_some_iff.mp found
      rw [List.cons_append, put_directory entries first further, child, get?_cons,
        child?_putEntry_self]
      exact inductionHypothesis ⟨inner, stands⟩

end FileTree

/-! ### Paths -/

namespace Surroundings

/-- The surroundings with other files. -/
def withFiles (surroundings : Surroundings) (files : FileTree) : Surroundings :=
  { surroundings with files }

/-- A step into a directory can still be made where all directories are kept. -/
theorem enter_withFiles {files : FileTree}
    (keeps : ∀ trail, surroundings.files.HasDirectory trail → files.HasDirectory trail)
    {next : Location} {part : Text} (entered : surroundings.enter location part = .ok next) :
    (surroundings.withFiles files).enter location part = .ok next := by
  unfold enter at entered ⊢
  by_cases isHere : part = Path.here
  · rw [if_pos isHere] at entered ⊢
    exact entered
  rw [if_neg isHere] at entered ⊢
  by_cases isAbove : part = Path.above
  · rw [if_pos isAbove] at entered ⊢
    exact entered
  rw [if_neg isAbove] at entered ⊢
  split at entered
  · exact absurd entered (by simp)
  split at entered
  · exact absurd entered (by simp)
  cases found : surroundings.files.get? (location.trail ++ [part]) with
  | none => simp [found] at entered
  | some tree =>
    cases tree with
    | file content => simp [found] at entered
    | directory entries =>
      obtain ⟨others, stands⟩ := keeps _ ⟨entries, found⟩
      simpa [*, withFiles] using entered

theorem follow_withFiles {files : FileTree}
    (keeps : ∀ trail, surroundings.files.HasDirectory trail → files.HasDirectory trail)
    {first last : Location} {parts : List Text}
    (followed : surroundings.follow first parts = .ok last) :
    (surroundings.withFiles files).follow first parts = .ok last := by
  induction parts generalizing first with
  | nil => simpa [follow] using followed
  | cons part rest inductionHypothesis =>
    rw [follow] at followed ⊢
    cases entered : surroundings.enter first part with
    | error error => simp [entered] at followed
    | ok next =>
      rw [enter_withFiles keeps entered]
      rw [entered] at followed
      exact inductionHypothesis followed

theorem start_withFiles (surroundings : Surroundings) (files : FileTree) (path : Path) :
    (surroundings.withFiles files).start path = surroundings.start path := rfl

/-- A path leads to the same place where all directories are kept. -/
theorem goal_withFiles {files : FileTree}
    (keeps : ∀ trail, surroundings.files.HasDirectory trail → files.HasDirectory trail)
    {goal : Goal} (reached : surroundings.goal path = .ok goal) :
    (surroundings.withFiles files).goal path = .ok goal := by
  unfold Surroundings.goal at reached ⊢
  split at reached
  · exact absurd reached (by simp)
  split at reached
  · exact absurd reached (by simp)
  simp only [*, if_false, start_withFiles]
  cases started : surroundings.start (Path.ofText path) with
  | error error => simp [started] at reached
  | ok begun =>
    obtain ⟨first, parts⟩ := begun
    simp only [started] at reached ⊢
    cases ending : parts.getLast? with
    | none => simpa [ending] using reached
    | some last =>
      simp only [ending] at reached ⊢
      cases followed : surroundings.follow first parts.dropLast with
      | error error => simp [followed] at reached
      | ok location =>
        rw [follow_withFiles keeps followed]
        rw [followed] at reached
        exact reached

end Surroundings

/-! ### Files -/

/-- The bytes of the file at a place, if there is one. -/
def FileTree.contentAt (files : FileTree) (trail : Trail) : List UInt8 :=
  ((files.get? trail).map FileTree.content).getD []

namespace Session

/-- The session with other files. -/
def withFiles (session : Session) (files : FileTree) : Session := { session with files }

/-- A path leads to a place where a file can stand. -/
def LeadsTo (session : Session) (path : Text) (trail : Trail) : Prop :=
  '\x00' ∉ path ∧ ∃ location name,
    session.surroundings.goal path = .ok (.entry location name false) ∧
    location.removed = 0 ∧ (Text.encode name).length ≤ Path.longestName ∧
    location.trail ++ [name] = trail

theorem LeadsTo.withFiles (leads : session.LeadsTo path trail) {files : FileTree}
    (keeps : ∀ other, session.files.HasDirectory other → files.HasDirectory other) :
    (session.withFiles files).LeadsTo path trail := by
  obtain ⟨noNull, location, name, reached, rest⟩ := leads
  exact ⟨noNull, location, name, Surroundings.goal_withFiles keeps reached, rest⟩

end Session

namespace Action

theorem start_orRefuse {Result : Type} (paths : List Text) (outcome : Except SystemError Result)
    (session : Session) :
    (orRefuse paths outcome).start session =
      (outcome.mapError fun error => .system error paths, session) := by
  cases outcome <;> rfl

theorem start_goal (path : Text) (session : Session) :
    (goal path).start session =
      if '\x00' ∈ path then (.error .nullCharacter, session)
      else ((session.surroundings.goal path).mapError fun error => .system error [path],
        session) := by
  by_cases null : '\x00' ∈ path
  · simp [goal, checkPath, null]
  · simp [goal, checkPath, null, start_bind, start_orRefuse]

theorem start_entryAt (paths : List Text) (location : Location) (name : Text)
    (session : Session) :
    (entryAt paths location name).start session =
      ((session.surroundings.entryAt location name).mapError fun error => .system error paths,
        session) := by
  simp [entryAt, start_bind, start_orRefuse]

theorem start_pathExists (path : Text) (session : Session) :
    (pathExists path).start session = (.ok (session.surroundings.pathExists path), session) := rfl

theorem start_isDirectory (path : Text) (session : Session) :
    (isDirectory path).start session = (.ok (session.surroundings.isDirectory path), session) := rfl

theorem start_listDirectory (path : Text) (session : Session) :
    (listDirectory path).start session =
      if '\x00' ∈ path then (.error .nullCharacter, session)
      else ((session.surroundings.list path).mapError fun error => .system error [path],
        session) := by
  by_cases null : '\x00' ∈ path
  · simp [listDirectory, checkPath, null]
  · simp [listDirectory, checkPath, null, start_bind, start_orRefuse]

theorem entryAt_short {name : Text} (stands : location.removed = 0)
    (short : (Text.encode name).length ≤ Path.longestName) :
    session.surroundings.entryAt location name =
      .ok (session.files.get? (location.trail ++ [name])) := by
  simp [Surroundings.entryAt, stands, Nat.not_lt.mpr short, Session.surroundings]

/-- A file is created or found at the place that its path leads to. -/
theorem createFile_leads (leads : session.LeadsTo path trail)
    (free : ¬ session.files.HasDirectory trail) :
    ∃ files, (files = session.files ∨ files = session.files.put trail (.file [])) ∧
      (createFile path).start session =
        (.ok (trail, session.files.contentAt trail), session.withFiles files) := by
  obtain ⟨noNull, location, name, reached, stands, short, rfl⟩ := leads
  cases found : session.files.get? (location.trail ++ [name]) with
  | none =>
    refine ⟨_, Or.inr rfl, ?_⟩
    simp [createFile, start_bind, start_map, start_goal, start_entryAt, noNull, reached, found,
      entryAt_short stands short, stands, putTree, FileTree.contentAt,
      Session.withFiles, Except.map]
  | some tree =>
    cases tree with
    | directory entries => exact absurd ⟨entries, found⟩ free
    | file content =>
      refine ⟨session.files, Or.inl rfl, ?_⟩
      simp [createFile, start_bind, start_goal, start_entryAt, noNull, reached, found,
        entryAt_short stands short, FileTree.contentAt, FileTree.content,
        Session.withFiles]

/-- Where a name ends a path, a file can be created or found, or nothing changes. -/
theorem createFile_entry {name : Text} (noNull : '\x00' ∉ path)
    (reached : session.surroundings.goal path = .ok (.entry location name false)) :
    (∃ fault, (createFile path).start session = (.error fault, session)) ∨
      ∃ trail, session.LeadsTo path trail ∧ ¬ session.files.HasDirectory trail := by
  have opened : (goal path).start session = (.ok (.entry location name false), session) := by
    simp [start_goal, noNull, reached]
  by_cases stands : location.removed = 0
  · by_cases short : (Text.encode name).length ≤ Path.longestName
    · by_cases directory : session.files.HasDirectory (location.trail ++ [name])
      · obtain ⟨entries, found⟩ := directory
        refine Or.inl ⟨.system .isDirectory [path], ?_⟩
        simp [createFile, start_bind, opened, start_entryAt, entryAt_short stands short, found,
          refuse]
      · exact Or.inr ⟨_, ⟨noNull, location, name, reached, stands, short, rfl⟩, directory⟩
    · refine Or.inl ⟨.system .nameTooLong [path], ?_⟩
      simp [createFile, start_bind, opened, start_entryAt, Surroundings.entryAt, stands,
        Nat.lt_of_not_le short]
  · refine Or.inl ⟨.system .noEntry [path], ?_⟩
    simp [createFile, start_bind, opened, start_entryAt, Surroundings.entryAt, stands, refuse]

/-- Where no file can be created or found, nothing changes. -/
theorem createFile_cases (session : Session) (path : Text) :
    (∃ fault, (createFile path).start session = (.error fault, session)) ∨
      ∃ trail, session.LeadsTo path trail ∧ ¬ session.files.HasDirectory trail := by
  by_cases null : '\x00' ∈ path
  · exact Or.inl ⟨_, by simp [createFile, start_bind, start_goal, null]; rfl⟩
  cases reached : session.surroundings.goal path with
  | error error =>
    refine Or.inl ⟨.system error [path], ?_⟩
    simp [createFile, start_bind, start_goal, null, reached]
  | ok target =>
    have opened : (goal path).start session = (.ok target, session) := by
      simp [start_goal, null, reached]
    cases target with
    | entry location name slash =>
      cases slash with
      | false => exact createFile_entry null reached
      | true =>
        refine Or.inl ⟨.system .isDirectory [path], ?_⟩
        simp [createFile, start_bind, opened, refuse]
    | _ =>
      refine Or.inl ⟨.system .isDirectory [path], ?_⟩
      simp [createFile, start_bind, opened, refuse]

/-- Writing a file replaces what stands at its place. -/
theorem writeFile_leads (leads : session.LeadsTo path trail)
    (free : ¬ session.files.HasDirectory trail) (text : Text) :
    (writeFile path text).start session =
      (.ok ⟨⟩, session.withFiles (session.files.put trail (.file (Text.encode text)))) := by
  obtain ⟨files, either, created⟩ := createFile_leads leads free
  rcases either with rfl | rfl <;>
    simp [writeFile, start_bind, created, putTree, Session.withFiles, FileTree.put_put]

/-- Adding to a file keeps the bytes that stand at its place. -/
theorem appendFile_leads (leads : session.LeadsTo path trail)
    (free : ¬ session.files.HasDirectory trail) (text : Text) :
    (appendFile path text).start session =
      (.ok ⟨⟩, session.withFiles (session.files.put trail
        (.file (session.files.contentAt trail ++ Text.encode text)))) := by
  obtain ⟨files, either, created⟩ := createFile_leads leads free
  rcases either with rfl | rfl <;>
    simp [appendFile, start_bind, created, putTree, Session.withFiles, FileTree.put_put]

theorem find_leads (leads : session.LeadsTo path trail)
    (found : session.files.get? trail = some (.file content)) :
    session.surroundings.find path = .ok (.file trail content) := by
  obtain ⟨_, location, name, reached, stands, short, rfl⟩ := leads
  simp [Surroundings.find, reached, entryAt_short stands short, found]

/-- A file is read at the place that its path leads to. -/
theorem openFile_leads (leads : session.LeadsTo path trail)
    (found : session.files.get? trail = some (.file content)) :
    (openFile path).start session = (.ok (trail, content), session) := by
  simp [openFile, find, checkPath, start_bind, start_orRefuse, leads.1, find_leads leads found]

/-! ### Writing in two steps -/

theorem not_hasDirectory_put (files : FileTree) (trail : Trail) (content : List UInt8) :
    ¬ (files.put trail (.file content)).HasDirectory trail := by
  rintro ⟨entries, found⟩
  rcases files.get?_put_self trail with seen | ⟨_, never⟩
  · exact absurd (seen _ ▸ found) (by simp)
  · exact absurd (never _ ▸ found) (by simp)

theorem contentAt_put_nil (files : FileTree) (trail : Trail) :
    (files.put trail (.file [])).contentAt trail = [] := by
  rcases files.get?_put_self trail with seen | ⟨_, never⟩
  · simp [FileTree.contentAt, seen, FileTree.content]
  · simp [FileTree.contentAt, never]

theorem contentAt_put_contentAt (files : FileTree) (trail : Trail) :
    (files.put trail (.file (files.contentAt trail))).contentAt trail = files.contentAt trail := by
  rcases files.get?_put_self trail with seen | ⟨missing, never⟩
  · rw [FileTree.contentAt, seen]
    rfl
  · rw [FileTree.contentAt, never, FileTree.contentAt, missing]

/-- A file that has just been put at its place can be added to. -/
theorem appendFile_put (leads : session.LeadsTo path trail)
    (free : ¬ session.files.HasDirectory trail) (content : List UInt8) (text : Text) :
    (appendFile path text).start
        (session.withFiles (session.files.put trail (.file content))) =
      (.ok ⟨⟩, session.withFiles (session.files.put trail (.file
        ((session.files.put trail (.file content)).contentAt trail ++ Text.encode text)))) := by
  have stillLeads := leads.withFiles fun _ => FileTree.hasDirectory_put free content
  rw [appendFile_leads stillLeads (not_hasDirectory_put session.files trail content)]
  simp [Session.withFiles, FileTree.put_put]

/-- Emptying a file and then adding a text to it writes the text. -/
theorem writeFile_appendFile (path text : Text) :
    (do writeFile path []; appendFile path text) = writeFile path text := by
  refine ext_start fun session => ?_
  rcases createFile_cases session path with ⟨fault, refused⟩ | ⟨trail, leads, free⟩
  · simp [writeFile, start_bind, refused]
  · have empty : Text.encode [] = [] := rfl
    rw [start_bind, writeFile_leads leads free, writeFile_leads leads free, empty]
    simp [appendFile_put leads free, contentAt_put_nil]

/-- Adding nothing to a file and then a text adds the text. -/
theorem appendFile_appendFile (path text : Text) :
    (do appendFile path []; appendFile path text) = appendFile path text := by
  refine ext_start fun session => ?_
  rcases createFile_cases session path with ⟨fault, refused⟩ | ⟨trail, leads, free⟩
  · simp [appendFile, start_bind, refused]
  · have empty : Text.encode [] = [] := rfl
    rw [start_bind, appendFile_leads leads free, appendFile_leads leads free, empty,
      List.append_nil]
    simp [appendFile_put leads free, contentAt_put_contentAt]

end Action

/-! ### Finding a file -/

theorem entryAt_inv {name : Text} (entry : surroundings.entryAt location name = .ok (some tree)) :
    location.removed = 0 ∧ (Text.encode name).length ≤ Path.longestName ∧
      surroundings.files.get? (location.trail ++ [name]) = some tree := by
  unfold Surroundings.entryAt at entry
  split at entry
  · exact absurd entry (by simp)
  · rename_i stands
    split at entry
    · exact absurd entry (by simp)
    · rename_i short
      exact ⟨Decidable.not_not.mp stands, Nat.le_of_not_lt short, Except.ok.inj entry⟩

/-- A path that leads to a file ends with the name of the file, in a directory that stands. -/
theorem find_file_inv (found : surroundings.find path = .ok (.file trail content)) :
    ∃ location name, surroundings.goal path = .ok (.entry location name false) ∧
      location.removed = 0 ∧ (Text.encode name).length ≤ Path.longestName ∧
      location.trail ++ [name] = trail ∧ surroundings.files.get? trail = some (.file content) := by
  cases reached : surroundings.goal path with
  | error error => simp [Surroundings.find, reached] at found
  | ok goal =>
    cases goal with
    | stay location | rise location | top => simp [Surroundings.find, reached] at found
    | entry location name slash =>
      simp only [Surroundings.find, reached] at found
      split at found
      · exact absurd found (by simp)
      · exact absurd found (by simp)
      · exact absurd found (by simp)
      · rename_i held entry
        cases slash with
        | true => exact absurd found (by simp)
        | false =>
          obtain ⟨rfl, rfl⟩ := Surroundings.Found.file.inj (Except.ok.inj found)
          obtain ⟨stands, short, holds⟩ := entryAt_inv entry
          exact ⟨location, name, rfl, stands, short, rfl, holds⟩

theorem start_openFile (path : Text) (session : Session) :
    (Action.openFile path).start session =
      if '\x00' ∈ path then (.error .nullCharacter, session)
      else match session.surroundings.find path with
        | .error error => (.error (.system error [path]), session)
        | .ok (.directory _) => (.error (.system .isDirectory [path]), session)
        | .ok (.file trail content) => (.ok (trail, content), session) := by
  by_cases null : '\x00' ∈ path
  · simp [Action.openFile, Action.find, Action.checkPath, null]
  · rw [if_neg null]
    rcases found : session.surroundings.find path with error | ⟨location⟩ | ⟨trail, content⟩ <;>
      simp [Action.openFile, Action.find, Action.checkPath, Action.start_bind,
        Action.start_orRefuse, null, found, Action.refuse]

/-- A file that can be opened stands where its path leads to. -/
theorem find_of_openFile
    (opened : (Action.openFile path).start session = (.ok (trail, content), session)) :
    '\x00' ∉ path ∧ session.surroundings.find path = .ok (.file trail content) := by
  rw [start_openFile] at opened
  split at opened
  · exact absurd opened (by simp)
  · rename_i noNull
    split at opened
    · exact absurd opened (by simp)
    · exact absurd opened (by simp)
    · rename_i place bytes found
      obtain ⟨rfl, rfl⟩ := Prod.mk.inj (Except.ok.inj (Prod.mk.inj opened).1)
      exact ⟨noNull, found⟩

/-- Opening a file changes nothing, and where it succeeds, the path leads to the file. -/
theorem openFile_cases (session : Session) (path : Text) :
    (∃ fault, (Action.openFile path).start session = (.error fault, session)) ∨
      ∃ trail content, session.LeadsTo path trail ∧
        session.files.get? trail = some (.file content) := by
  have ran := start_openFile path session
  split at ran
  · exact Or.inl ⟨_, ran⟩
  · rename_i noNull
    split at ran
    · exact Or.inl ⟨_, ran⟩
    · exact Or.inl ⟨_, ran⟩
    · rename_i trail content found
      obtain ⟨location, name, reached, stands, short, place, holds⟩ := find_file_inv found
      exact Or.inr ⟨trail, content,
        ⟨noNull, location, name, reached, stands, short, place⟩, holds⟩

/-! ### Files of lines -/

namespace Session

/-- A path leads to a file whose bytes can be read as lines. -/
structure Holds (session : Session) (path : Text) (trail : Trail) (content : List UInt8)
    (lines : List Text) : Prop where
  leads : session.LeadsTo path trail
  found : session.files.get? trail = some (.file content)
  decoded : ∃ text, Text.decode content = .ok text ∧ Text.lines (Text.unifyNewlines text) = lines

theorem LeadsTo.unique {other : Trail} (leads : session.LeadsTo path trail)
    (alsoLeads : session.LeadsTo path other) : trail = other := by
  obtain ⟨_, location, name, reached, _, _, rfl⟩ := leads
  obtain ⟨_, otherLocation, otherName, alsoReached, _, _, rfl⟩ := alsoLeads
  obtain ⟨rfl, rfl, _⟩ := Goal.entry.inj (Except.ok.inj (reached.symm.trans alsoReached))
  rfl

theorem LeadsTo.ne_nil (leads : session.LeadsTo path trail) : path ≠ [] := by
  rintro rfl
  obtain ⟨-, location, name, reached, -⟩ := leads
  simp [Surroundings.goal] at reached

namespace Holds

variable {lines : List Text}

/-- Output does not change what a file holds. -/
theorem withOut (holds : session.Holds path trail content lines) (out : List Text) :
    ({ session with out } : Session).Holds path trail content lines :=
  ⟨holds.leads, holds.found, holds.decoded⟩

theorem free (holds : session.Holds path trail content lines) :
    ¬ session.files.HasDirectory trail :=
  FileTree.not_hasDirectory_of_file holds.found

theorem readLines (holds : session.Holds path trail content lines) :
    (Action.readLines path).start session = (.ok lines, session) := by
  obtain ⟨text, decoded, rfl⟩ := holds.decoded
  rw [Action.readLines, Action.start_bind_ok (Action.openFile_leads holds.leads holds.found)]
  simp only [decoded]
  rfl

theorem pathExists (holds : session.Holds path trail content lines) :
    session.surroundings.pathExists path = true := by
  rw [Surroundings.pathExists, Action.find_leads holds.leads holds.found]

end Holds

/-- A file can be read as lines, or reading it fails and changes nothing. -/
theorem readLines_cases (session : Session) (path : Text) :
    (∃ fault, (Action.readLines path).start session = (.error fault, session)) ∨
      ∃ trail content lines, session.Holds path trail content lines := by
  rcases openFile_cases session path with ⟨fault, refused⟩ | ⟨trail, content, leads, found⟩
  · exact Or.inl ⟨fault, by rw [Action.readLines, Action.start_bind, refused]⟩
  · cases decoded : Text.decode content with
    | error fault =>
      refine Or.inl ⟨.undecodable (fault.inBlocks content), ?_⟩
      rw [Action.readLines, Action.start_bind_ok (Action.openFile_leads leads found)]
      simp only [decoded]
      rfl
    | ok text => exact Or.inr ⟨trail, content, _, leads, found, text, decoded, rfl⟩

end Session

end MiniShell
