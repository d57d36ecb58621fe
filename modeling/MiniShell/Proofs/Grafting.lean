/-
This file says what is left alone when something is put into a tree of files,
taken out of it, or when directories are made in it. Two trees agree off a
place if they differ at most there and below; putting and removing agree off
their place, because every step on the way changes one entry of one directory.

It also says what a sound tree is: a tree as a file system can hold it, in
which all entries have names that can be looked up, and in which no name comes
twice in a directory. In a sound tree nothing is left of what has been removed.
Nothing is asked of the order of the names. What a directory lists is held to a
condition on lists of names, which here is that they are distinct, and which
may ask for more.
-/

import MiniShell.Proofs.FileUpdate
import MiniShell.Proofs.PathWays

namespace MiniShell

variable {tree : FileTree} {place trail : Trail} {name : Text} {entries : List (Text × FileTree)}

namespace FileTree

/-! ### Entries -/

theorem isSome_standing (tree : FileTree) (trail : Trail) :
    (tree.standing trail).isSome = (tree.get? trail).isSome := Option.isSome_map ..

theorem standing_eq_none_iff :
    tree.standing trail = none ↔ tree.get? trail = none := Option.map_eq_none_iff ..

theorem standing_eq_file_iff {content : List UInt8} :
    tree.standing trail = some (file content) ↔ tree.get? trail = some (file content) := by
  unfold standing
  cases tree.get? trail with
  | none => simp
  | some found => cases found <;> simp [alone, empty]

theorem child?_isSome (member : name ∈ entries.map Prod.fst) :
    (child? name entries).isSome = true := by
  induction entries with
  | nil => exact absurd member (by simp)
  | cons entry rest inductionHypothesis =>
    obtain ⟨other, tree⟩ := entry
    rw [child?]
    split
    · rfl
    · rename_i different
      rcases List.mem_cons.mp member with same | later
      · exact absurd same.symm different
      · exact inductionHypothesis later

theorem mem_of_child? (found : child? name entries = some tree) : (name, tree) ∈ entries := by
  induction entries with
  | nil => exact absurd found (by simp [child?])
  | cons entry rest inductionHypothesis =>
    obtain ⟨other, below⟩ := entry
    rw [child?] at found
    split at found
    · rename_i same
      rw [← same, ← Option.some.inj found]
      exact List.mem_cons_self ..
    · exact List.mem_cons_of_mem _ (inductionHypothesis found)

theorem get?_append (tree : FileTree) (trail rest : Trail) :
    tree.get? (trail ++ rest) = (tree.get? trail).bind fun found => found.get? rest := by
  induction trail generalizing tree with
  | nil => simp [get?]
  | cons name more inductionHypothesis =>
    cases tree with
    | file content => simp [get?]
    | directory entries =>
      rw [List.cons_append, get?_cons, get?_cons]
      cases child? name entries with
      | none => rfl
      | some below => exact inductionHypothesis below

/-- What is listed in a directory stands there. -/
theorem get?_isSome (found : tree.get? trail = some (directory entries))
    (member : name ∈ entries.map Prod.fst) : (tree.get? (trail ++ [name])).isSome = true := by
  rw [get?_append, found, Option.bind_some, get?_cons]
  obtain ⟨below, isChild⟩ := Option.isSome_iff_exists.mp (child?_isSome member)
  simp [isChild, get?]

/-- What stands in a tree stands in directories. -/
theorem hasDirectory_of_isSome {front rest : Trail} (further : rest ≠ [])
    (stands : (tree.get? (front ++ rest)).isSome = true) : tree.HasDirectory front := by
  rw [get?_append] at stands
  cases found : tree.get? front with
  | none => simp [found] at stands
  | some below =>
    cases below with
    | directory entries => exact ⟨entries, found⟩
    | file content =>
      cases rest with
      | nil => exact absurd rfl further
      | cons name more => simp [found, get?] at stands

theorem HasDirectory.isSome (stands : tree.HasDirectory place) :
    (tree.get? place).isSome = true := by
  obtain ⟨entries, found⟩ := stands
  rw [found]
  rfl

theorem HasDirectory.above {further : Trail} (stands : tree.HasDirectory further)
    (isPrefix : place <+: further) : tree.HasDirectory place := by
  obtain ⟨rest, rfl⟩ := isPrefix
  by_cases last : rest = []
  · rwa [last, List.append_nil] at stands
  · exact hasDirectory_of_isSome last stands.isSome

theorem standing_append (tree : FileTree) (trail rest : Trail) :
    tree.standing (trail ++ rest) = (tree.get? trail).bind fun found => found.standing rest := by
  rw [standing, get?_append, Option.map_bind]
  rfl

/-- Nothing stands in a directory without entries. -/
theorem standing_empty_below (below : trail ≠ []) : empty.standing trail = none := by
  cases trail with
  | nil => exact absurd rfl below
  | cons name rest => rfl

theorem child?_dropEntry_other {other : Text} (different : other ≠ name)
    (entries : List (Text × FileTree)) :
    child? other (dropEntry name entries) = child? other entries := by
  induction entries with
  | nil => rfl
  | cons entry rest inductionHypothesis =>
    obtain ⟨next, old⟩ := entry
    by_cases same : next = name
    · simp [dropEntry, child?, same, different.symm]
    · simp [dropEntry, child?, same, inductionHypothesis]

/-- Removing below a directory changes only the entry on the way. -/
theorem remove_directory (entries : List (Text × FileTree)) (name : Text) {rest : Trail}
    (further : rest ≠ []) :
    (directory entries).remove (name :: rest) =
      match child? name entries with
      | none => directory entries
      | some tree => directory (putEntry name (tree.remove rest) entries) := by
  cases rest with
  | nil => exact absurd rfl further
  | cons next more => rfl

/-! ### Agreement -/

/-- Two trees that differ at most at a place and below it. What stands anywhere else is the same,
and a subtree that does not hold the place is the same as a whole. -/
structure AgreesOff (place : Trail) (before after : FileTree) : Prop where
  outside : ∀ {other : Trail}, ¬ place <+: other → after.standing other = before.standing other
  apart : ∀ {other : Trail}, ¬ place <+: other → ¬ other <+: place →
    after.get? other = before.get? other

namespace AgreesOff

theorem refl (place : Trail) (tree : FileTree) : AgreesOff place tree tree :=
  ⟨fun _ => rfl, fun _ _ => rfl⟩

/-- Directories that differ in one entry agree off the place of that entry, or off a place below
it if what the entry holds does. -/
theorem inDirectory {entries others : List (Text × FileTree)} {name : Text} {rest : Trail}
    (same : ∀ {other : Text}, other ≠ name → child? other others = child? other entries)
    (own : rest = [] ∨ ∃ old new, child? name entries = some old ∧
      child? name others = some new ∧ AgreesOff rest old new) :
    AgreesOff (name :: rest) (directory entries) (directory others) := by
  constructor
  · intro other elsewhere
    cases other with
    | nil => rfl
    | cons first more =>
      rw [standing_directory, standing_directory]
      by_cases onWay : first = name
      · subst onWay
        have elsewhere : ¬ rest <+: more := fun isPrefix =>
          elsewhere (List.cons_prefix_cons.mpr ⟨rfl, isPrefix⟩)
        -- Nothing lies beside an empty rest, so there is a subtree to agree in.
        rcases own with rfl | ⟨old, new, found, foundNew, agrees⟩
        · exact absurd List.nil_prefix elsewhere
        · rw [found, foundNew]
          exact agrees.outside elsewhere
      · rw [same onWay]
  · intro other elsewhere unheld
    cases other with
    | nil => exact absurd List.nil_prefix unheld
    | cons first more =>
      rw [get?_cons, get?_cons]
      by_cases onWay : first = name
      · subst onWay
        have elsewhere : ¬ rest <+: more := fun isPrefix =>
          elsewhere (List.cons_prefix_cons.mpr ⟨rfl, isPrefix⟩)
        have unheld : ¬ more <+: rest := fun isPrefix =>
          unheld (List.cons_prefix_cons.mpr ⟨rfl, isPrefix⟩)
        rcases own with rfl | ⟨old, new, found, foundNew, agrees⟩
        · exact absurd List.nil_prefix elsewhere
        · rw [found, foundNew]
          exact agrees.apart elsewhere unheld
      · rw [same onWay]

theorem root (tree other : FileTree) : AgreesOff [] tree other :=
  ⟨fun elsewhere => absurd List.nil_prefix elsewhere,
    fun elsewhere => absurd List.nil_prefix elsewhere⟩

/-- A change below an entry of a directory. -/
theorem below {rest : Trail} {old new : FileTree} (found : child? name entries = some old)
    (agrees : AgreesOff rest old new) :
    AgreesOff (name :: rest) (directory entries) (directory (putEntry name new entries)) :=
  inDirectory (fun different => child?_putEntry_other different ..)
    (Or.inr ⟨old, new, found, child?_putEntry_self .., agrees⟩)

theorem put (tree : FileTree) (place : Trail) (new : FileTree) :
    AgreesOff place tree (tree.put place new) := by
  induction place generalizing tree with
  | nil => exact root _ _
  | cons name rest inductionHypothesis =>
    cases tree with
    | file content => exact refl _ _
    | directory entries =>
      by_cases last : rest = []
      · subst last
        exact inDirectory (fun different => child?_putEntry_other different ..) (Or.inl rfl)
      · rw [put_directory entries name last]
        cases found : child? name entries with
        | none => exact refl _ _
        | some old => exact below found (inductionHypothesis old)

theorem remove (tree : FileTree) (place : Trail) : AgreesOff place tree (tree.remove place) := by
  induction place generalizing tree with
  | nil => exact root _ _
  | cons name rest inductionHypothesis =>
    cases tree with
    | file content => exact refl _ _
    | directory entries =>
      by_cases last : rest = []
      · subst last
        exact inDirectory (fun different => child?_dropEntry_other different _) (Or.inl rfl)
      · rw [remove_directory entries name last]
        cases found : child? name entries with
        | none => exact refl _ _
        | some old => exact below found (inductionHypothesis old)

end AgreesOff

/-- A file stays where trees agree. -/
theorem AgreesOff.file {other : Trail} {before after : FileTree}
    (agrees : AgreesOff place before after) (elsewhere : ¬ place <+: other) {content : List UInt8}
    (found : before.get? other = some (file content)) :
    after.get? other = some (.file content) := by
  rw [← standing_eq_file_iff] at found ⊢
  exact (agrees.outside elsewhere).trans found

/-- A directory stays where trees agree. -/
theorem AgreesOff.hasDirectory {other : Trail} {before after : FileTree}
    (agrees : AgreesOff place before after) (elsewhere : ¬ place <+: other)
    (stands : before.HasDirectory other) : after.HasDirectory other := by
  rw [hasDirectory_iff_standing] at stands ⊢
  exact (agrees.outside elsewhere).trans stands

/-! ### Growing -/

/-- No file stands at a place or on the way to it. -/
def Passable (tree : FileTree) (place : Trail) : Prop :=
  ∀ front content, front <+: place → tree.get? front ≠ some (file content)

theorem Passable.above {further : Trail} (passable : tree.Passable further)
    (isPrefix : place <+: further) : tree.Passable place := fun front content onWay =>
  passable front content (onWay.trans isPrefix)

/-- What holds of a directory entry that may be missing. -/
theorem Passable.child {rest : Trail} (passable : (directory entries).Passable (name :: rest)) :
    ((child? name entries).getD empty).Passable rest := by
  intro front content isPrefix found
  cases child : child? name entries with
  | none =>
    rw [child, Option.getD_none] at found
    cases front <;> simp [empty, get?, child?] at found
  | some below =>
    rw [child, Option.getD_some] at found
    refine passable (name :: front) content (List.cons_prefix_cons.mpr ⟨rfl, isPrefix⟩) ?_
    rw [get?_cons, child]
    exact found

/-- Growing makes a directory of the place and of all places that lead to it, and changes nothing
else. -/
theorem standing_grow (passable : tree.Passable place) (other : Trail) :
    (tree.grow place).standing other =
      if other <+: place then some empty else tree.standing other := by
  induction place generalizing tree other with
  | nil =>
    cases tree with
    | file content => exact absurd rfl (passable [] content List.nil_prefix)
    | directory entries =>
      rw [grow]
      cases other with
      | nil => rfl
      | cons first more => rw [if_neg (by simp)]
  | cons name rest inductionHypothesis =>
    cases tree with
    | file content => exact absurd rfl (passable [] content List.nil_prefix)
    | directory entries =>
      rw [grow]
      cases other with
      | nil => rw [if_pos List.nil_prefix]; rfl
      | cons first more =>
        rw [standing_directory, standing_directory]
        by_cases onWay : first = name
        · subst onWay
          rw [child?_putEntry_self, Option.bind_some, inductionHypothesis passable.child]
          by_cases leads : more <+: rest
          · rw [if_pos leads, if_pos (List.cons_prefix_cons.mpr ⟨rfl, leads⟩)]
          · rw [if_neg leads,
              if_neg fun isPrefix => leads (List.cons_prefix_cons.mp isPrefix).2]
            -- A directory that has just been made holds nothing but the way to the place.
            cases child? first entries with
            | some below => rfl
            | none => exact standing_empty_below fun isNil => leads (isNil ▸ List.nil_prefix)
        · rw [child?_putEntry_other onWay,
            if_neg fun isPrefix => onWay (List.cons_prefix_cons.mp isPrefix).1]

/-- A subtree that the place does not lead through is not changed by growing. -/
theorem get?_grow_apart (tree : FileTree) {other : Trail} (elsewhere : ¬ place <+: other)
    (unheld : ¬ other <+: place) : (tree.grow place).get? other = tree.get? other := by
  induction place generalizing tree other with
  | nil => exact absurd List.nil_prefix elsewhere
  | cons name rest inductionHypothesis =>
    cases tree with
    | file content => rfl
    | directory entries =>
      cases other with
      | nil => exact absurd List.nil_prefix unheld
      | cons first more =>
        rw [grow, get?_cons, get?_cons]
        by_cases onWay : first = name
        · subst onWay
          have unheld : ¬ more <+: rest := fun isPrefix =>
            unheld (List.cons_prefix_cons.mpr ⟨rfl, isPrefix⟩)
          rw [child?_putEntry_self, Option.bind_some, inductionHypothesis _ (fun isPrefix =>
            elsewhere (List.cons_prefix_cons.mpr ⟨rfl, isPrefix⟩)) unheld]
          cases child? first entries with
          | some below => rfl
          | none =>
            cases more with
            | nil => exact absurd List.nil_prefix unheld
            | cons next further => rfl
        · rw [child?_putEntry_other onWay]

/-- Growing on from a place that has been grown. -/
theorem grow_append (tree : FileTree) (front rest : Trail) :
    (tree.grow front).grow (front ++ rest) = tree.grow (front ++ rest) := by
  induction front generalizing tree with
  | nil => rw [grow, List.nil_append]
  | cons name more inductionHypothesis =>
    cases tree with
    | file content => rfl
    | directory entries =>
      rw [List.cons_append, grow, grow, grow, child?_putEntry_self, Option.getD_some,
        inductionHypothesis, putEntry_putEntry]

/-- Growing by one name puts a directory into a directory. -/
theorem put_empty {front : Trail} (holds : tree.HasDirectory front)
    (vacant : tree.get? (front ++ [name]) = none) :
    tree.put (front ++ [name]) empty = tree.grow (front ++ [name]) := by
  induction front generalizing tree with
  | nil =>
    obtain ⟨entries, found⟩ := holds
    rw [get?] at found
    obtain rfl := Option.some.inj found
    have missing : child? name entries = none := by
      rw [List.nil_append, get?_cons] at vacant
      cases child : child? name entries with
      | none => rfl
      | some below => simp [child, get?] at vacant
    rw [List.nil_append, put, grow, missing, Option.getD_none, grow]
  | cons first rest inductionHypothesis =>
    cases tree with
    | file content => simp [HasDirectory, get?] at holds
    | directory entries =>
      obtain ⟨inner, found⟩ := holds
      rw [get?_cons] at found
      obtain ⟨below, child, stands⟩ := Option.bind_eq_some_iff.mp found
      rw [List.cons_append, get?_cons, child, Option.bind_some] at vacant
      rw [List.cons_append, put_directory entries first (by simp), child, grow, child,
        Option.getD_some, ← inductionHypothesis ⟨inner, stands⟩ vacant]

end FileTree

/-! ### Sound trees -/

/-- A name that a file system takes. -/
structure Path.IsEntryName (name : Text) : Prop extends Path.IsName name where
  noNull : '\x00' ∉ name
  short : (Text.encode name).length ≤ Path.longestName

instance (name : Text) : Decidable (Path.IsEntryName name) :=
  decidable_of_iff
    ((name ≠ [] ∧ '/' ∉ name ∧ name ≠ Path.here ∧ name ≠ Path.above) ∧
      '\x00' ∉ name ∧ (Text.encode name).length ≤ Path.longestName)
    (Iff.intro
      (fun holds => ⟨⟨holds.1.1, holds.1.2.1, holds.1.2.2.1, holds.1.2.2.2⟩, holds.2.1, holds.2.2⟩)
      (fun isName => ⟨⟨isName.nonempty, isName.noSlash, isName.notHere, isName.notAbove⟩,
        isName.noNull, isName.short⟩))

namespace FileTree

/-- A tree as a file system can hold it, with a condition on the names that each directory lists. -/
structure Arranged (condition : List Text → Prop) (tree : FileTree) : Prop where
  named : ∀ trail name, (tree.get? (trail ++ [name])).isSome = true → Path.IsEntryName name
  listed : ∀ trail entries, tree.get? trail = some (directory entries) →
    condition (entries.map Prod.fst)

/-- A tree as a file system can hold it: no directory lists a name twice. The order in which a
directory lists its names is left open. -/
abbrev Sound (tree : FileTree) : Prop := tree.Arranged List.Nodup

section Entries

/-- What is listed under a name is what the name leads to. -/
theorem child?_of_mem (distinct : (entries.map Prod.fst).Nodup) (member : (name, tree) ∈ entries) :
    child? name entries = some tree := by
  induction entries with
  | nil => exact absurd member (by simp)
  | cons entry rest inductionHypothesis =>
    obtain ⟨other, first⟩ := entry
    rw [List.map_cons, List.nodup_cons] at distinct
    rw [child?]
    rcases List.mem_cons.mp member with same | later
    · obtain ⟨rfl, rfl⟩ := Prod.mk.inj same
      rw [if_pos rfl]
    · rw [if_neg, inductionHypothesis distinct.2 later]
      rintro rfl
      exact distinct.1 (List.mem_map.mpr ⟨_, later, rfl⟩)

theorem child?_dropEntry_self (distinct : (entries.map Prod.fst).Nodup) (name : Text) :
    child? name (dropEntry name entries) = none := by
  induction entries with
  | nil => rfl
  | cons entry rest inductionHypothesis =>
    obtain ⟨other, first⟩ := entry
    rw [List.map_cons, List.nodup_cons] at distinct
    rw [dropEntry]
    by_cases same : other = name
    · rw [if_pos same]
      cases found : child? name rest with
      | none => rfl
      | some tree =>
        exact absurd (List.mem_map.mpr ⟨_, mem_of_child? found, rfl⟩) (same ▸ distinct.1)
    · rw [if_neg same, child?, if_neg same]
      exact inductionHypothesis distinct.2

/-- Replacing an entry leaves the names as they are. -/
theorem map_putEntry {old : FileTree} (found : child? name entries = some old) (tree : FileTree) :
    (putEntry name tree entries).map Prod.fst = entries.map Prod.fst := by
  induction entries with
  | nil => exact absurd found (by simp [child?])
  | cons entry rest inductionHypothesis =>
    obtain ⟨other, first⟩ := entry
    rw [putEntry]
    by_cases same : other = name
    · rw [if_pos same, List.map_cons, List.map_cons, same]
    · rw [child?, if_neg same] at found
      rw [if_neg same, if_neg (by simp [found]), List.map_cons, List.map_cons,
        inductionHypothesis found]

end Entries

theorem map_dropEntry (name : Text) (entries : List (Text × FileTree)) :
    ((dropEntry name entries).map Prod.fst).Sublist (entries.map Prod.fst) := by
  induction entries with
  | nil => exact List.Sublist.refl _
  | cons entry rest inductionHypothesis =>
    obtain ⟨other, old⟩ := entry
    rw [dropEntry]
    split
    · exact List.sublist_cons_self ..
    · exact inductionHypothesis.cons_cons other

namespace Arranged

variable {condition : List Text → Prop}

/-- What stands in such a tree is such a tree. -/
theorem get? (arranged : tree.Arranged condition) {below : FileTree}
    (found : tree.get? trail = some below) : below.Arranged condition where
  named rest name stands := by
    refine arranged.named (trail ++ rest) name ?_
    rw [List.append_assoc, get?_append, found]
    exact stands
  listed rest entries stands := by
    refine arranged.listed (trail ++ rest) entries ?_
    rw [get?_append, found]
    exact stands

/-- The entries of a directory have names that can be looked up. -/
theorem isEntryName (arranged : tree.Arranged condition)
    (found : tree.get? trail = some (directory entries)) (member : name ∈ entries.map Prod.fst) :
    Path.IsEntryName name :=
  arranged.named trail name (get?_isSome found member)

/-- A trail that leads somewhere is made up of names. -/
theorem areNames (arranged : tree.Arranged condition) (stands : (tree.get? trail).isSome = true) :
    ∀ name ∈ trail, Path.IsEntryName name := by
  intro name member
  obtain ⟨front, rest, rfl⟩ := List.append_of_mem member
  refine arranged.named front name ?_
  rw [List.append_cons, get?_append] at stands
  cases found : tree.get? (front ++ [name]) with
  | none => simp [found] at stands
  | some below => rfl

theorem child (arranged : tree.Arranged condition) (isDirectory : tree = directory entries)
    {below : FileTree} (found : child? name entries = some below) : below.Arranged condition := by
  have stands : tree.get? [name] = some below := by
    rw [isDirectory, get?_cons, found]
    rfl
  exact arranged.get? stands

end Arranged

section Build

variable {condition : List Text → Prop}

theorem arranged_file (content : List UInt8) : (file content).Arranged condition where
  named trail name stands := by cases trail <;> simp [get?] at stands
  listed trail entries found := by cases trail <;> simp [get?] at found

/-- The names in a directory are those of its entries and those below them. -/
theorem named_directory {isNamed : Text → Prop} {entries : List (Text × FileTree)}
    (each : ∀ entry ∈ entries, isNamed entry.1 ∧
      ∀ trail name, (entry.2.get? (trail ++ [name])).isSome = true → isNamed name) (trail : Trail)
    (name : Text) (stands : ((directory entries).get? (trail ++ [name])).isSome = true) :
    isNamed name := by
  cases trail with
  | nil =>
    rw [List.nil_append, get?_cons] at stands
    cases found : child? name entries with
    | none => simp [found] at stands
    | some tree => exact (each _ (mem_of_child? found)).1
  | cons first rest =>
    rw [List.cons_append, get?_cons] at stands
    cases found : child? first entries with
    | none => simp [found] at stands
    | some tree =>
      rw [found, Option.bind_some] at stands
      exact (each _ (mem_of_child? found)).2 rest name stands

theorem arranged_directory (listed : condition (entries.map Prod.fst))
    (each : ∀ entry ∈ entries, Path.IsEntryName entry.1 ∧ entry.2.Arranged condition) :
    (directory entries).Arranged condition where
  named := named_directory fun entry member => ⟨(each entry member).1, (each entry member).2.named⟩
  listed trail others stands := by
    cases trail with
    | nil =>
      obtain rfl := directory.inj (Option.some.inj stands)
      exact listed
    | cons first rest =>
      rw [get?_cons] at stands
      obtain ⟨tree, found, below⟩ := Option.bind_eq_some_iff.mp stands
      exact (each _ (mem_of_child? found)).2.listed rest others below

theorem sound_empty : (directory []).Sound := arranged_directory List.nodup_nil (by simp)

end Build

/-- Nothing is left of what has been removed. -/
theorem get?_remove (sound : tree.Sound) (named : place ≠ []) :
    (tree.remove place).get? place = none := by
  induction place generalizing tree with
  | nil => exact absurd rfl named
  | cons name rest inductionHypothesis =>
    cases tree with
    | file content => rfl
    | directory entries =>
      by_cases last : rest = []
      · subst last
        rw [remove, get?_cons, child?_dropEntry_self (sound.listed [] entries rfl)]
        rfl
      · rw [remove_directory entries name last]
        cases found : child? name entries with
        | none => rw [get?_cons, found]; rfl
        | some below =>
          rw [get?_cons, child?_putEntry_self]
          exact inductionHypothesis (sound.child rfl found) last

/-- Removing takes away what stands at a place or below it, and nothing else. -/
theorem standing_remove (sound : tree.Sound) (named : place ≠ []) (other : Trail) :
    (tree.remove place).standing other =
      if place <+: other then none else tree.standing other := by
  split
  · next isPrefix =>
    obtain ⟨rest, rfl⟩ := isPrefix
    rw [standing_append, get?_remove sound named]
    rfl
  · next elsewhere => exact (AgreesOff.remove tree place).outside elsewhere

/-- The directories that are left after a removal have no new names. -/
theorem directory_remove (sound : tree.Sound) {others : List (Text × FileTree)}
    (found : (tree.remove place).get? trail = some (directory others)) :
    ∃ entries, tree.get? trail = some (directory entries) ∧
      (others.map Prod.fst).Sublist (entries.map Prod.fst) := by
  induction place generalizing tree trail with
  | nil => exact ⟨others, found, List.Sublist.refl _⟩
  | cons name rest inductionHypothesis =>
    cases tree with
    | file content => exact ⟨others, found, List.Sublist.refl _⟩
    | directory entries =>
      have distinct := sound.listed [] entries rfl
      -- The directory that held the entry loses its name, and the ones above keep all names.
      by_cases last : rest = []
      · subst last
        rw [remove] at found
        cases trail with
        | nil =>
          obtain rfl := directory.inj (Option.some.inj found)
          exact ⟨entries, rfl, map_dropEntry name entries⟩
        | cons first more =>
          rw [get?_cons] at found ⊢
          by_cases onWay : first = name
          · rw [onWay, child?_dropEntry_self distinct] at found
            exact absurd found (by simp)
          · rw [child?_dropEntry_other onWay] at found
            exact ⟨others, found, List.Sublist.refl _⟩
      · rw [remove_directory entries name last] at found
        cases child : child? name entries with
        | none =>
          rw [child] at found
          exact ⟨others, found, List.Sublist.refl _⟩
        | some below =>
          rw [child] at found
          cases trail with
          | nil =>
            obtain rfl := directory.inj (Option.some.inj found)
            have sameNames := map_putEntry child (below.remove rest)
            exact ⟨entries, rfl, sameNames ▸ List.Sublist.refl _⟩
          | cons first more =>
            rw [get?_cons] at found ⊢
            by_cases onWay : first = name
            · subst onWay
              rw [child?_putEntry_self] at found
              rw [child]
              exact inductionHypothesis (sound.child rfl child) found
            · rw [child?_putEntry_other onWay] at found
              exact ⟨others, found, List.Sublist.refl _⟩

/-- A tree stays arranged when something is removed, if the condition is kept when names are left
out. -/
theorem Arranged.remove {condition : List Text → Prop} (arranged : tree.Arranged condition)
    (sound : tree.Sound)
    (kept : ∀ {fewer names : List Text}, fewer.Sublist names → condition names → condition fewer)
    (named : place ≠ []) : (tree.remove place).Arranged condition where
  named trail name stands := by
    refine arranged.named trail name ?_
    rw [← isSome_standing, standing_remove sound named] at stands
    split at stands
    · exact absurd stands (by simp)
    · rwa [← isSome_standing]
  listed trail others found := by
    obtain ⟨entries, stood, sublist⟩ := directory_remove sound found
    exact kept sublist (arranged.listed trail entries stood)

theorem Sound.remove (sound : tree.Sound) (named : place ≠ []) : (tree.remove place).Sound :=
  Arranged.remove sound sound (fun sublist distinct => distinct.sublist sublist) named

end FileTree

end MiniShell
