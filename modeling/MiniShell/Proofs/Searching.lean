/-
This file says what a search finds. It finds the places below a directory, each
of them once, that have a matching name on the way and no hidden one; and it
finds what is in a directory before the directory. A directory is looked into
by its path, so that nothing is found in a directory whose path has become too
long.

What is found is best told by the trails that lead to it from the directory
where the search starts. Which trails these are is an induction along a trail;
in which order they come, and that none comes twice, is an induction over the
tree.
-/

import MiniShell.Command.Finding
import MiniShell.Proofs.Descent

namespace MiniShell

namespace FileTree

/-- What holds of every file, and of a directory if it holds of all that is in it, holds of every
tree. -/
theorem induction {motive : FileTree → Prop} (file : ∀ content, motive (file content))
    (directory : ∀ entries : List (Text × FileTree), (∀ entry ∈ entries, motive entry.2) →
      motive (directory entries)) (tree : FileTree) : motive tree := by
  refine @FileTree.rec motive (fun entries => ∀ entry ∈ entries, motive entry.2)
    (fun entry => motive entry.2) file directory ?_ ?_ (fun _ _ holds => holds) tree
  · exact fun entry member => absurd member (by simp)
  · intro first rest holds others entry member
    rcases List.mem_cons.mp member with rfl | later
    · exact holds
    · exact others entry later

/-! ### The trails of what is found -/

mutual

/-- The trails that lead to what is found below a tree. -/
def trailsIn (wildcard : Wildcard) : FileTree → Text → Bool → List Trail
  | file _, _, _ => []
  | directory entries, path, inside =>
    if (Text.encode path).length ≥ Path.tooLong then []
    else trailsAmong wildcard entries path inside

/-- The trails that lead to what is found among entries. -/
def trailsAmong (wildcard : Wildcard) : List (Text × FileTree) → Text → Bool → List Trail
  | [], _, _ => []
  | (name, tree) :: rest, path, inside =>
    let others := trailsAmong wildcard rest path inside
    if Text.isHidden name then others
    else
      let found := inside || wildcard.holds name
      (tree.trailsIn wildcard (Text.joinPath path name) found).map (name :: ·) ++
        (if found then [[name]] else []) ++ others

end

/-- The trails that lead to what is found at one entry of a directory and below it. -/
def trailsOf (wildcard : Wildcard) (path : Text) (inside : Bool) (entry : Text × FileTree) :
    List Trail :=
  if Text.isHidden entry.1 then []
  else
    let found := inside || wildcard.holds entry.1
    (entry.2.trailsIn wildcard (Text.joinPath path entry.1) found).map (entry.1 :: ·) ++
      if found then [[entry.1]] else []

variable {wildcard : Wildcard}

theorem trailsAmong_eq (entries : List (Text × FileTree)) (path : Text) (inside : Bool) :
    trailsAmong wildcard entries path inside = entries.flatMap (trailsOf wildcard path inside) := by
  induction entries with
  | nil => rw [trailsAmong, List.flatMap_nil]
  | cons entry rest inductionHypothesis =>
    obtain ⟨name, tree⟩ := entry
    rw [trailsAmong, List.flatMap_cons, ← inductionHypothesis, trailsOf]
    split <;> rfl

/-- The paths that are found are spelled by the trails. -/
theorem findIn_eq (tree : FileTree) (path shown : Text) (inside : Bool) :
    tree.findIn wildcard path shown inside =
      (tree.trailsIn wildcard path inside).map (Text.below shown) := by
  induction tree using FileTree.induction generalizing path shown inside with
  | file content => rw [findIn, trailsIn, List.map_nil]
  | directory entries each =>
    rw [findIn, trailsIn]
    split
    · rfl
    · induction entries with
      | nil => rw [findAmong, trailsAmong, List.map_nil]
      | cons entry rest inductionHypothesis =>
        obtain ⟨name, tree⟩ := entry
        have others := inductionHypothesis fun other member =>
          each other (List.mem_cons_of_mem _ member)
        have own := each (name, tree) (List.mem_cons_self ..)
        simp only [findAmong, trailsAmong]
        split
        · exact others
        · rw [others, own, List.map_append, List.map_append, List.map_map]
          congr 2
          split <;> rfl

/-- A trail is found in an entry if it leads to the entry itself and that matches, or on into what
is found in it. -/
theorem mem_trailsOf {path : Text} {inside : Bool} {entry : Text × FileTree} {trail : Trail} :
    trail ∈ trailsOf wildcard path inside entry ↔
      ∃ rest, trail = entry.1 :: rest ∧ Text.isHidden entry.1 = false ∧
        ((inside || wildcard.holds entry.1) = true ∧ rest = [] ∨
          rest ∈ entry.2.trailsIn wildcard (Text.joinPath path entry.1)
            (inside || wildcard.holds entry.1)) := by
  unfold trailsOf
  cases hidden : Text.isHidden entry.1 with
  | true => simp
  | false =>
    simp only [Bool.false_eq_true, if_false, List.mem_append, List.mem_map]
    constructor
    · rintro (⟨rest, member, rfl⟩ | single)
      · exact ⟨rest, rfl, trivial, Or.inr member⟩
      · split at single
        · next found => exact ⟨[], List.mem_singleton.mp single, trivial, Or.inl ⟨found, rfl⟩⟩
        · exact absurd single (by simp)
    · rintro ⟨rest, rfl, -, ⟨found, rfl⟩ | member⟩
      · exact Or.inr (by rw [if_pos found]; exact List.mem_singleton.mpr rfl)
      · exact Or.inl ⟨rest, member, rfl⟩

/-! ### Which trails are found -/

/-- A trail from a directory leads to something that a search reports: it stands there, no name on
the way is hidden, a name on the way matches, and the path of the directory that holds it is not
too long. `inside` tells that a name before has matched already. -/
structure Reported (wildcard : Wildcard) (tree : FileTree) (path : Text) (inside : Bool)
    (trail : Trail) : Prop where
  named : trail ≠ []
  stands : (tree.get? trail).isSome = true
  visible : ∀ name ∈ trail, Text.isHidden name = false
  matched : inside = true ∨ ∃ name ∈ trail, wildcard.holds name = true
  reached : (Text.encode (Text.below path trail.dropLast)).length < Path.tooLong

namespace Reported

variable {entries : List (Text × FileTree)} {path name : Text} {inside : Bool} {rest : Trail}

/-- What is reported below an entry of a directory is reported below the directory. -/
theorem cons {tree : FileTree} (found : child? name entries = some tree)
    (visible : Text.isHidden name = false)
    (reported : Reported wildcard tree (Text.joinPath path name)
      (inside || wildcard.holds name) rest) :
    Reported wildcard (directory entries) path inside (name :: rest) where
  named := List.cons_ne_nil _ _
  stands := by
    rw [get?_cons, found]
    exact reported.stands
  visible := List.forall_mem_cons.mpr ⟨visible, reported.visible⟩
  matched := by
    rcases reported.matched with earlier | ⟨other, member, holds⟩
    · rcases (Bool.or_eq_true ..).mp earlier with before | own
      · exact Or.inl before
      · exact Or.inr ⟨name, List.mem_cons_self .., own⟩
    · exact Or.inr ⟨other, List.mem_cons_of_mem _ member, holds⟩
  reached := by
    rw [List.dropLast_cons_of_ne_nil reported.named]
    exact reported.reached

/-- An entry that matches is reported. -/
theorem single {tree : FileTree} (found : child? name entries = some tree)
    (visible : Text.isHidden name = false) (matched : (inside || wildcard.holds name) = true)
    (reached : (Text.encode path).length < Path.tooLong) :
    Reported wildcard (directory entries) path inside [name] where
  named := List.cons_ne_nil _ _
  stands := by
    rw [get?_cons, found]
    rfl
  visible := List.forall_mem_singleton.mpr visible
  matched := ((Bool.or_eq_true ..).mp matched).imp id fun own =>
    ⟨name, List.mem_singleton.mpr rfl, own⟩
  reached := reached

/-- What is reported below a directory is one of its entries or is reported below one. -/
theorem inv (reported : Reported wildcard (directory entries) path inside (name :: rest)) :
    ∃ tree, child? name entries = some tree ∧ Text.isHidden name = false ∧
      ((inside || wildcard.holds name) = true ∧ rest = [] ∨
        Reported wildcard tree (Text.joinPath path name) (inside || wildcard.holds name) rest) := by
  obtain ⟨-, stands, visible, matched, reached⟩ := reported
  rw [get?_cons] at stands
  obtain ⟨below, isBelow⟩ := Option.isSome_iff_exists.mp stands
  obtain ⟨tree, found, leads⟩ := Option.bind_eq_some_iff.mp isBelow
  have nameVisible := visible name (List.mem_cons_self ..)
  have found? : (inside || wildcard.holds name) = true ∨
      ∃ other ∈ rest, wildcard.holds other = true := by
    rcases matched with before | ⟨other, member, holds⟩
    · exact Or.inl (by rw [before, Bool.true_or])
    · rcases List.mem_cons.mp member with rfl | later
      · exact Or.inl (by rw [holds, Bool.or_true])
      · exact Or.inr ⟨other, later, holds⟩
  refine ⟨tree, found, nameVisible, ?_⟩
  by_cases last : rest = []
  · subst last
    exact Or.inl ⟨found?.resolve_right (by simp), rfl⟩
  · rw [List.dropLast_cons_of_ne_nil last] at reached
    exact Or.inr ⟨last, by rw [leads]; rfl, fun other member =>
      visible other (List.mem_cons_of_mem _ member), found?, reached⟩

end Reported

/-- The trails of a search are those that lead to what it reports. -/
theorem mem_trailsIn {tree : FileTree} (sound : tree.Sound) {path : Text} {inside : Bool}
    {trail : Trail} :
    trail ∈ tree.trailsIn wildcard path inside ↔ Reported wildcard tree path inside trail := by
  induction trail generalizing tree path inside with
  | nil =>
    refine ⟨fun member => ?_, fun reported => absurd rfl reported.named⟩
    cases tree with
    | file content => exact absurd member (by simp [trailsIn])
    | directory entries =>
      rw [trailsIn] at member
      split at member
      · exact absurd member (by simp)
      · rw [trailsAmong_eq, List.mem_flatMap] at member
        obtain ⟨entry, -, among⟩ := member
        obtain ⟨rest, isCons, -⟩ := mem_trailsOf.mp among
        exact absurd isCons (by simp)
  | cons name rest inductionHypothesis =>
    cases tree with
    | file content =>
      refine ⟨fun member => absurd member (by simp [trailsIn]), fun reported => ?_⟩
      exact absurd reported.stands (by simp [get?])
    | directory entries =>
      rw [trailsIn]
      constructor
      · intro member
        split at member
        · exact absurd member (by simp)
        · next short =>
          rw [trailsAmong_eq, List.mem_flatMap] at member
          obtain ⟨⟨other, tree⟩, listed, among⟩ := member
          obtain ⟨_, isCons, visible, found⟩ := mem_trailsOf.mp among
          obtain ⟨rfl, rfl⟩ := List.cons.inj isCons
          have child := child?_of_mem (sound.listed [] entries rfl) listed
          rcases found with ⟨matched, rfl⟩ | below
          · exact .single child visible matched (Nat.lt_of_not_le short)
          · exact .cons child visible ((inductionHypothesis (sound.child rfl child)).mp below)
      · intro reported
        -- What is reported was reached on a path that is short enough, and this one is shorter.
        have short : ¬ (Text.encode path).length ≥ Path.tooLong := by
          have names : ∀ part ∈ (name :: rest).dropLast, Path.IsName part := fun part member =>
            (sound.areNames reported.stands part ((List.dropLast_sublist _).subset member)).toIsName
          have longer := Path.length_below path names
          have reached := reported.reached
          omega
        obtain ⟨tree, child, visible, found⟩ := reported.inv
        rw [if_neg short, trailsAmong_eq, List.mem_flatMap]
        refine ⟨(name, tree), mem_of_child? child, mem_trailsOf.mpr ⟨rest, rfl, visible, ?_⟩⟩
        exact found.imp id (inductionHypothesis (sound.child rfl child)).mpr

/-! ### In which order they are found -/

/-- What is found below an entry comes before the entry, which comes once. -/
theorem pairwise_trailsOf {path : Text} {inside : Bool} {entry : Text × FileTree}
    (sound : entry.2.Sound)
    (below : ∀ path inside, (entry.2.trailsIn wildcard path inside).Pairwise
      fun earlier later => ¬ earlier <+: later) :
    (trailsOf wildcard path inside entry).Pairwise fun earlier later => ¬ earlier <+: later := by
  unfold trailsOf
  split
  · exact List.Pairwise.nil
  rw [List.pairwise_append, List.pairwise_map]
  refine ⟨(below _ _).imp fun apart isPrefix => apart (List.cons_prefix_cons.mp isPrefix).2, ?_, ?_⟩
  · split
    · exact List.pairwise_singleton ..
    · exact List.Pairwise.nil
  · intro earlier member later single isPrefix
    obtain ⟨rest, inside, rfl⟩ := List.mem_map.mp member
    split at single
    · obtain rfl := List.mem_singleton.mp single
      have nothing := List.prefix_nil.mp (List.cons_prefix_cons.mp isPrefix).2
      exact ((mem_trailsIn sound).mp inside).named nothing
    · exact absurd single (by simp)

/-- No trail comes again, and none comes before one that leads further. -/
theorem pairwise_trailsIn {tree : FileTree} (sound : tree.Sound) (path : Text) (inside : Bool) :
    (tree.trailsIn wildcard path inside).Pairwise fun earlier later => ¬ earlier <+: later := by
  induction tree using FileTree.induction generalizing path inside with
  | file content =>
    rw [trailsIn]
    exact List.Pairwise.nil
  | directory entries each =>
    rw [trailsIn]
    split
    · exact List.Pairwise.nil
    rw [trailsAmong_eq, List.pairwise_flatMap]
    have distinct := sound.listed [] entries rfl
    constructor
    · intro entry member
      have below := sound.child rfl (child?_of_mem distinct member)
      exact pairwise_trailsOf below (each entry member below)
    · refine (List.pairwise_map.mp distinct).imp ?_
      intro _ _ different earlier first later second isPrefix
      obtain ⟨_, rfl, -⟩ := mem_trailsOf.mp first
      obtain ⟨_, rfl, -⟩ := mem_trailsOf.mp second
      exact different (List.cons_prefix_cons.mp isPrefix).1

end FileTree

/-! ### The search -/

/-- What is listed in a sound tree is sound. -/
theorem FileTree.Sound.list {session : Session} (sound : session.files.Sound) {path : Text}
    {entries : List (Text × FileTree)} (listed : session.surroundings.list path = .ok entries) :
    session.surroundings.isDirectory path = true ∧ (directory entries).Sound := by
  unfold Surroundings.list at listed
  split at listed
  · exact absurd listed (by simp)
  · exact absurd listed (by simp)
  · next location leads =>
    refine ⟨by rw [Surroundings.isDirectory, leads], ?_⟩
    rw [← Except.ok.inj listed, Surroundings.treeAt]
    split
    · exact sound_empty
    · cases found : session.files.get? location.trail with
      | none =>
        rw [show session.surroundings.files = session.files from rfl, found]
        exact sound_empty
      | some tree =>
        rw [show session.surroundings.files = session.files from rfl, found]
        cases tree with
        | file content => exact sound_empty
        | directory others => exact sound.get? found

namespace Command

/-- The line that shows what a trail leads to. -/
def foundLine (shown : Text) (trail : Trail) : Text := Text.below shown trail ++ ['\n']

/-- Different trails are shown by different lines. -/
theorem foundLine_injective {shown : Text} {first second : Trail}
    (firstNames : ∀ name ∈ first, Path.IsName name)
    (secondNames : ∀ name ∈ second, Path.IsName name)
    (same : foundLine shown first = foundLine shown second) : first = second := by
  have texts : Text.below shown first = Text.below shown second := List.append_cancel_right same
  have parts := (Path.parts_below shown firstNames).1
  rw [texts, (Path.parts_below shown secondNames).1] at parts
  exact (List.append_cancel_left parts).symm

/-- A search shows the paths that are found in a directory. -/
theorem start_findBelow {session : Session} {directory : Text} {entries : List (Text × FileTree)}
    (noNull : '\x00' ∉ directory)
    (isDirectory : session.surroundings.isDirectory directory = true)
    (listed : session.surroundings.list directory = .ok entries) (shown pattern : Text) :
    (findBelow directory shown pattern).start session =
      (.ok ⟨⟩, { session with out := session.out ++ ((FileTree.directory entries).findIn
        (Wildcard.ofText pattern) directory shown false).map fun path => path ++ ['\n'] }) := by
  have looked : (Action.listDirectory directory).start session = (.ok entries, session) := by
    rw [Action.start_listDirectory, if_neg noNull, listed]
    rfl
  rw [findBelow, Action.start_bind_ok (Action.start_isDirectory ..), if_pos isDirectory,
    Action.start_bind_ok looked]
  rfl

/-- A search that starts at a directory reports exactly what stands below it, has no hidden name and
a matching name on the way, and is held by a directory whose path is not too long. Every line comes
once, and what is in a directory comes before the directory. -/
theorem findBelow_reports {session : Session} (sound : session.files.Sound) {directory : Text}
    {entries : List (Text × FileTree)} (noNull : '\x00' ∉ directory)
    (listed : session.surroundings.list directory = .ok entries) (shown pattern : Text) :
    ∃ trails : List Trail,
      (findBelow directory shown pattern).start session =
        (.ok ⟨⟩, { session with out := session.out ++ trails.map (foundLine shown) }) ∧
      (∀ trail, trail ∈ trails ↔
        FileTree.Reported (Wildcard.ofText pattern) (.directory entries) directory false trail) ∧
      (trails.map (foundLine shown)).Nodup ∧
      trails.Pairwise fun earlier later => ¬ earlier <+: later := by
  obtain ⟨isDirectory, soundHere⟩ := sound.list listed
  let trails := (FileTree.directory entries).trailsIn (Wildcard.ofText pattern) directory false
  have reported {trail : Trail} : trail ∈ trails ↔ FileTree.Reported (Wildcard.ofText pattern)
      (.directory entries) directory false trail := FileTree.mem_trailsIn soundHere
  have ordered : trails.Pairwise fun earlier later => ¬ earlier <+: later :=
    FileTree.pairwise_trailsIn soundHere directory false
  refine ⟨trails, ?_, fun trail => reported, ?_, ordered⟩
  · rw [start_findBelow noNull isDirectory listed, FileTree.findIn_eq, List.map_map]
    rfl
  · have names {trail : Trail} (member : trail ∈ trails) : ∀ name ∈ trail, Path.IsName name :=
      fun name within => (soundHere.areNames (reported.mp member).stands name within).toIsName
    refine List.pairwise_map.mpr (ordered.imp_of_mem fun first second apart same => ?_)
    exact apart (foundLine_injective (names first) (names second) same ▸ List.prefix_refl _)

/-- A session with a directory that holds a hidden file and a directory with a file. -/
def sparseSession : Session where
  files := .directory [("d".toList, .directory
    [(".b".toList, .file []), ("ab".toList, .directory [("c".toList, .file [])])])]
  home := "/home".toList
  inputs := []

theorem sound_sparseSession : sparseSession.files.Sound := by
  have isSound : ∀ name : Text, Path.IsEntryName name → ∀ tree : FileTree, tree.Sound →
      (FileTree.directory [(name, tree)]).Sound := fun name isName tree sound =>
    FileTree.arranged_directory (List.pairwise_singleton ..)
      (List.forall_mem_singleton.mpr ⟨isName, sound⟩)
  have inner := isSound "c".toList (by decide) _ (FileTree.arranged_file [])
  refine isSound "d".toList (by decide) _ (FileTree.arranged_directory (by decide) ?_)
  refine List.forall_mem_cons.mpr ⟨⟨by decide, FileTree.arranged_file []⟩, ?_⟩
  exact List.forall_mem_singleton.mpr ⟨by decide, inner⟩

/-- The file below a directory that matches is reported, and the hidden file is not, although its
name matches too. -/
theorem findBelow_reports_sparse :
    sparseSession.files.Sound ∧ '\x00' ∉ "/home/d".toList ∧
      ∃ (entries : List (Text × FileTree)) (trails : List Trail),
        sparseSession.surroundings.list "/home/d".toList = .ok entries ∧
        (findBelow "/home/d".toList "d".toList "*b".toList).start sparseSession =
          (.ok ⟨⟩, { sparseSession with out := trails.map (foundLine "d".toList) }) ∧
        ["ab".toList, "c".toList] ∈ trails ∧ [".b".toList] ∉ trails := by
  have noNull : '\x00' ∉ "/home/d".toList := by decide
  obtain ⟨trails, found, reported, -⟩ := findBelow_reports sound_sparseSession noNull
    (rfl : sparseSession.surroundings.list "/home/d".toList = .ok _) "d".toList "*b".toList
  refine ⟨sound_sparseSession, noNull, _, trails, rfl, found, ?_, fun member => ?_⟩
  · refine (reported _).mpr ⟨by simp, rfl, by decide, Or.inr ⟨"ab".toList, by simp, ?_⟩, ?_⟩
    · decide +kernel
    · decide
  · have visible := ((reported _).mp member).visible ".b".toList (List.mem_singleton.mpr rfl)
    exact absurd visible (by decide)

/-- Nothing is found in a directory whose path has become too long. -/
theorem findBelow_overlooks {session : Session} {path name pattern : Text} {place : Trail}
    (approaches : session.surroundings.Approaches path place) (noNull : '\x00' ∉ path)
    (short : (Text.encode path).length < Path.tooLong)
    (long : Path.tooLong ≤ (Text.encode (Text.joinPath path name)).length)
    {entries : List (Text × FileTree)}
    (held : session.files.get? place = some (.directory [(name, .directory entries)]))
    (unmatched : (Wildcard.ofText pattern).holds name = false) (shown : Text) :
    (findBelow path shown pattern).start session = (.ok ⟨⟩, session) := by
  have nothing : (FileTree.directory [(name, .directory entries)]).findIn
      (Wildcard.ofText pattern) path shown false = [] := by
    simp [FileTree.findIn, FileTree.findAmong, Nat.not_le.mpr short, long, unmatched]
  rw [start_findBelow noNull (approaches.isDirectory short) (approaches.list short held), nothing,
    List.map_nil, List.append_nil]

/-- A name of 200 characters. -/
def longName : Text := List.replicate 200 'b'

def longNameSession : Session where
  files := .directory [("d".toList, .directory
    [(longName, .directory [("c".toList, .file [])])])]
  home := "/home".toList
  inputs := []

/-- Where slashes at the end of its path leave no room for the name of a directory, a file in that
directory is not reported, although it is not hidden and matches. -/
theorem findBelow_misses :
    (findBelow (Path.drawnOut "/home/d".toList 3950) (Path.drawnOut "d".toList 3950)
        "c".toList).start longNameSession = (.ok ⟨⟩, longNameSession) ∧
      longNameSession.surroundings.find (Path.drawnOut "/home/d".toList 3950) =
        .ok (.directory ⟨["d".toList], 0⟩) ∧
      longNameSession.files.get? ["d".toList, longName, "c".toList] = some (.file []) ∧
      Text.isHidden longName = false ∧ Text.isHidden "c".toList = false ∧
      (Wildcard.ofText "c".toList).holds "c".toList = true := by
  have approaches : longNameSession.surroundings.Approaches "/home/d".toList ["d".toList] :=
    ⟨.root, ["d".toList], by decide, rfl, rfl⟩
  have frontLength : (Text.encode "/home/d".toList).length = 7 := by decide
  have short : (Text.encode (Path.drawnOut "/home/d".toList 3950)).length < Path.tooLong := by
    rw [Path.length_drawnOut, frontLength, Path.tooLong]
    omega
  have long : Path.tooLong ≤ (Text.encode (Text.joinPath (Path.drawnOut "/home/d".toList 3950)
      longName)).length := by
    refine Nat.le_trans ?_ (Path.length_joinPath_drawnOut _ (by decide) (by decide))
    rw [frontLength, longName, List.length_replicate]
    decide
  have unmatched : (Wildcard.ofText "c".toList).holds longName = false := by decide +kernel
  have held : longNameSession.files.get? ["d".toList] =
      some (.directory [(longName, .directory [("c".toList, .file [])])]) := rfl
  refine ⟨?_, (approaches.drawnOut 3950).find short, ?_, rfl, rfl, rfl⟩
  · exact findBelow_overlooks (approaches.drawnOut 3950) (Path.noNull_drawnOut (by decide) _) short
      long held unmatched _
  · simp [longNameSession, FileTree.get?, FileTree.child?]

end Command

end MiniShell
