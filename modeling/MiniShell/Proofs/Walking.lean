/-
This file says what a walk through a tree of files finds and what it leaves
behind. A walk works through the names of a directory one after the other, and
each name has a region of the tree of its own. What the walk leaves in these
regions is given in advance, for all of them together, so it does not matter in
which order they are worked through.

Each name comes once, and the regions of two names have nothing in common. So
what one round leaves in its region is not touched by the rounds behind it, and
nothing is asked of the order in which a directory lists its names.
-/

import MiniShell.Proofs.Descent

namespace MiniShell

variable {name : Text} {place : Trail} {tree : FileTree}

/-- A place below another. -/
def StrictlyBelow (place trail : Trail) : Prop := ∃ name rest, trail = place ++ name :: rest

namespace StrictlyBelow

variable {trail : Trail}

theorem isPrefix (isBelow : StrictlyBelow place trail) : place <+: trail := by
  obtain ⟨name, rest, rfl⟩ := isBelow
  exact List.prefix_append ..

theorem of_isPrefix (isPrefix : place ++ [name] <+: trail) : StrictlyBelow place trail := by
  obtain ⟨rest, rfl⟩ := isPrefix
  exact ⟨name, rest, List.append_assoc ..⟩

theorem snoc (isPrefix : place <+: trail) (name : Text) :
    StrictlyBelow place (trail ++ [name]) := by
  obtain ⟨rest, rfl⟩ := isPrefix
  cases rest with
  | nil => exact ⟨name, [], by rw [List.append_nil]⟩
  | cons first more => exact ⟨first, more ++ [name], List.append_assoc ..⟩

theorem ne_nil (isBelow : StrictlyBelow place trail) : trail ≠ [] := by
  obtain ⟨name, rest, rfl⟩ := isBelow
  simp

theorem above (names : Trail) (isBelow : StrictlyBelow (place ++ names) trail) :
    StrictlyBelow place trail := by
  obtain ⟨name, rest, rfl⟩ := isBelow
  cases names with
  | nil => exact ⟨name, rest, by rw [List.append_nil]⟩
  | cons first more => exact ⟨first, more ++ name :: rest, List.append_assoc ..⟩

theorem append_isPrefix (isBelow : StrictlyBelow place trail) {longer : Trail}
    (isPrefix : trail <+: longer) : StrictlyBelow place longer := by
  obtain ⟨name, rest, rfl⟩ := isBelow
  obtain ⟨more, rfl⟩ := isPrefix
  exact ⟨name, rest ++ more, by rw [List.append_assoc, List.cons_append]⟩

theorem prefix_dropLast (isBelow : StrictlyBelow place trail) : place <+: trail.dropLast := by
  obtain ⟨name, rest, rfl⟩ := isBelow
  rw [List.dropLast_append_of_ne_nil (List.cons_ne_nil _ _)]
  exact List.prefix_append ..

theorem irrefl (place : Trail) : ¬ StrictlyBelow place place := by
  rintro ⟨name, rest, same⟩
  exact absurd (List.append_right_eq_self.mp same.symm) (List.cons_ne_nil _ _)

theorem eq_or_of_isPrefix (isPrefix : place <+: trail) :
    trail = place ∨ StrictlyBelow place trail := by
  obtain ⟨rest, rfl⟩ := isPrefix
  cases rest with
  | nil => exact Or.inl (List.append_nil _)
  | cons name more => exact Or.inr ⟨name, more, rfl⟩

end StrictlyBelow

/-- Only what is below an entry of a directory or is the entry has the entry on its way. -/
theorem eq_of_entry_isPrefix {rest : Trail} {other : Text}
    (isPrefix : place ++ [name] <+: place ++ other :: rest) : name = other := by
  rw [List.prefix_append_right_inj] at isPrefix
  exact (List.cons_prefix_cons.mp isPrefix).1

/-- An entry of a directory is not at or below other entries, and neither is what is below it. -/
theorem untouched (place : Trail) {earlier : List Text} (fresh : name ∉ earlier) (rest : Trail) :
    ¬ ∃ other ∈ earlier, place ++ [other] <+: place ++ [name] ++ rest := by
  rintro ⟨other, member, isPrefix⟩
  rw [List.append_assoc] at isPrefix
  exact fresh (eq_of_entry_isPrefix isPrefix ▸ member)

theorem not_entry_isPrefix (place : Trail) (name : Text) : ¬ place ++ [name] <+: place := by
  intro isPrefix
  simpa using isPrefix.eq_of_length_le (by simp)

namespace FileTree

/-! ### Reshaping -/

/-- Two trees that differ at most in a region. What stands in the region afterwards is given by a
plan. -/
structure Reshapes (plan : Trail → Option FileTree) (region : Trail → Prop)
    (before after : FileTree) : Prop where
  inside : ∀ {trail : Trail}, region trail → after.standing trail = plan trail
  outside : ∀ {trail : Trail}, ¬ region trail → after.standing trail = before.standing trail

namespace Reshapes

variable {plan : Trail → Option FileTree} {region other : Trail → Prop}
  {before between after : FileTree}

theorem refl (plan : Trail → Option FileTree) (tree : FileTree) :
    Reshapes plan (fun _ => False) tree tree :=
  ⟨False.elim, fun _ => rfl⟩

/-- Two regions are reshaped one after the other. They may overlap, since the plan is the same. -/
theorem trans (first : Reshapes plan region before between)
    (second : Reshapes plan other between after) :
    Reshapes plan (fun trail => region trail ∨ other trail) before after := by
  refine ⟨fun {trail} either => ?_, fun neither => ?_⟩
  · by_cases again : other trail
    · exact second.inside again
    · rw [second.outside again]
      exact first.inside (either.resolve_right again)
  · rw [second.outside fun again => neither (Or.inr again)]
    exact first.outside fun once => neither (Or.inl once)

/-- A region may be widened by places where nothing is left to do. -/
theorem widen (reshapes : Reshapes plan region before after)
    (wider : ∀ {trail}, region trail → other trail)
    (done : ∀ {trail}, other trail → ¬ region trail → before.standing trail = plan trail) :
    Reshapes plan other before after := by
  refine ⟨fun {trail} within => ?_, fun without => reshapes.outside fun inside =>
    without (wider inside)⟩
  by_cases inside : region trail
  · exact reshapes.inside inside
  · rw [reshapes.outside inside]
    exact done within inside

theorem hasDirectory (reshapes : Reshapes plan region before after) {trail : Trail}
    (elsewhere : ¬ region trail) (stands : before.HasDirectory trail) :
    after.HasDirectory trail := by
  rw [hasDirectory_iff_standing] at stands ⊢
  exact (reshapes.outside elsewhere).trans stands

theorem file (reshapes : Reshapes plan region before after) {trail : Trail}
    (elsewhere : ¬ region trail) {content : List UInt8}
    (found : before.get? trail = some (file content)) :
    after.get? trail = some (.file content) := by
  rw [← standing_eq_file_iff] at found ⊢
  exact (reshapes.outside elsewhere).trans found

theorem put {front : Trail} (holds : tree.HasDirectory front) {new : FileTree}
    (planned : ∀ rest, plan (front ++ [name] ++ rest) = new.standing rest) :
    Reshapes plan (fun trail => front ++ [name] <+: trail) tree
      (tree.put (front ++ [name]) new) := by
  refine ⟨?_, fun without => (AgreesOff.put tree (front ++ [name]) new).outside without⟩
  rintro trail ⟨rest, rfl⟩
  rw [standing_append, get?_put holds, Option.bind_some, planned]

theorem remove (sound : tree.Sound) (named : place ≠ []) :
    Reshapes (fun _ => none) (fun trail => place <+: trail) tree (tree.remove place) := by
  refine ⟨fun {trail} within => ?_, fun {trail} without => ?_⟩
  · rw [standing_remove sound named, if_pos within]
  · rw [standing_remove sound named, if_neg without]

end Reshapes

/-- A directory in which nothing stands. -/
theorem get?_empty_iff :
    tree.get? place = some (directory []) ↔
      tree.standing place = some empty ∧ ∀ name, tree.standing (place ++ [name]) = none := by
  constructor
  · intro found
    refine ⟨by rw [standing, found]; rfl, fun name => ?_⟩
    rw [standing_append, found]
    rfl
  · rintro ⟨stands, nothing⟩
    obtain ⟨entries, found⟩ := (hasDirectory_iff_standing ..).mpr stands
    cases entries with
    | nil => exact found
    | cons entry rest =>
      have first := get?_isSome found (List.mem_map.mpr ⟨entry, List.mem_cons_self .., rfl⟩)
      rw [← isSome_standing, nothing] at first
      exact absurd first (by simp)

/-- A directory without entries stays one where nothing at it or below is reshaped. -/
theorem Reshapes.empty {plan : Trail → Option FileTree} {region : Trail → Prop}
    {before after : FileTree} (reshapes : Reshapes plan region before after)
    (elsewhere : ∀ rest, ¬ region (place ++ rest))
    (found : before.get? place = some (directory [])) : after.get? place = some (directory []) := by
  rw [get?_empty_iff] at found ⊢
  refine ⟨?_, fun name => (reshapes.outside (elsewhere [name])).trans (found.2 name)⟩
  have here := elsewhere []
  rw [List.append_nil] at here
  exact (reshapes.outside here).trans found.1

/-! ### Names in a directory -/

section Names

open MiniShell.Action

variable {entries : List (Text × FileTree)}

theorem nodup_names (distinct : (entries.map Prod.fst).Nodup)
    (choose : Text × FileTree → Bool) : ((entries.filter choose).map Prod.fst).Nodup :=
  distinct.sublist (List.filter_sublist.map Prod.fst)

theorem mem_directoryNames (distinct : (entries.map Prod.fst).Nodup) :
    name ∈ directoryNames entries ↔ ∃ inner, child? name entries = some (directory inner) := by
  simp only [directoryNames, List.mem_map, List.mem_filter]
  constructor
  · rintro ⟨⟨other, tree⟩, ⟨member, isDirectory⟩, rfl⟩
    cases tree with
    | file content => exact absurd isDirectory (by simp [FileTree.isDirectory])
    | directory inner => exact ⟨inner, child?_of_mem distinct member⟩
  · rintro ⟨inner, found⟩
    exact ⟨_, ⟨mem_of_child? found, rfl⟩, rfl⟩

theorem mem_fileNames (distinct : (entries.map Prod.fst).Nodup) :
    name ∈ fileNames entries ↔ ∃ content, child? name entries = some (file content) := by
  simp only [fileNames, List.mem_map, List.mem_filter]
  constructor
  · rintro ⟨⟨other, tree⟩, ⟨member, isFile⟩, rfl⟩
    cases tree with
    | directory inner => exact absurd isFile (by simp [FileTree.isDirectory])
    | file content => exact ⟨content, child?_of_mem distinct member⟩
  · rintro ⟨content, found⟩
    exact ⟨_, ⟨mem_of_child? found, rfl⟩, rfl⟩

/-- What stands in a directory is the child of its name. -/
theorem get?_entry (found : tree.get? place = some (directory entries)) (name : Text) :
    tree.get? (place ++ [name]) = child? name entries := by
  rw [get?_append, found, Option.bind_some, get?_cons]
  cases child? name entries <;> rfl

/-- All that stands below a directory stands at a listed name or below one. -/
theorem mem_names_of_isSome {rest : Trail} (distinct : (entries.map Prod.fst).Nodup)
    (found : tree.get? place = some (directory entries))
    (stands : (tree.get? (place ++ name :: rest)).isSome = true) :
    name ∈ directoryNames entries ∨ name ∈ fileNames entries := by
  rw [get?_append, found, Option.bind_some, get?_cons] at stands
  cases child : child? name entries with
  | none => simp [child] at stands
  | some below =>
    cases below with
    | directory inner => exact Or.inl ((mem_directoryNames distinct).mpr ⟨inner, child⟩)
    | file content => exact Or.inr ((mem_fileNames distinct).mpr ⟨content, child⟩)

end Names

end FileTree

/-! ### Loops -/

namespace Action

/-- A loop over names reshapes the regions of all the names if each step reshapes the region of its
name. A step may rely on what the steps before have left behind. -/
theorem forM_reshapes {plan : Trail → Option FileTree} {region : Text → Trail → Prop}
    {invariant : Session → Prop} {action : Text → Action Unit} {session : Session}
    (names : List Text) (distinct : names.Nodup)
    (each : ∀ name ∈ names, ∀ earlier : List Text, name ∉ earlier → ∀ current, invariant current →
      FileTree.Reshapes plan (fun trail => ∃ other ∈ earlier, region other trail)
        session.files current.files →
      ∃ after, (action name).start current = (.ok ⟨⟩, after) ∧ invariant after ∧
        FileTree.Reshapes plan (region name) current.files after.files)
    (holds : invariant session) :
    ∃ after, (names.forM action).start session = (.ok ⟨⟩, after) ∧ invariant after ∧
      FileTree.Reshapes plan (fun trail => ∃ name ∈ names, region name trail)
        session.files after.files := by
  -- The names that have been worked through are kept in front of those that are left.
  suffices onward : ∀ earlier later current, names = earlier ++ later → invariant current →
      FileTree.Reshapes plan (fun trail => ∃ other ∈ earlier, region other trail)
        session.files current.files →
      ∃ after, (later.forM action).start current = (.ok ⟨⟩, after) ∧ invariant after ∧
        FileTree.Reshapes plan (fun trail => ∃ name ∈ names, region name trail)
          session.files after.files by
    exact onward [] names session rfl holds
      ((FileTree.Reshapes.refl plan _).widen False.elim (by simp))
  intro earlier later
  induction later generalizing earlier with
  | nil =>
    intro current isAll stillHolds reshaped
    rw [List.append_nil] at isAll
    exact ⟨current, rfl, stillHolds, isAll ▸ reshaped⟩
  | cons name rest inductionHypothesis =>
    intro current isAll stillHolds reshaped
    have fresh : name ∉ earlier := by
      rw [isAll, List.nodup_append] at distinct
      exact fun member => distinct.2.2 name member name (List.mem_cons_self ..) rfl
    obtain ⟨next, stepped, holdsNext, reshapedNext⟩ :=
      each name (by simp [isAll]) earlier fresh current stillHolds reshaped
    rw [List.forM_eq_forM, List.forM_cons, start_bind_ok stepped, ← List.forM_eq_forM]
    refine inductionHypothesis (earlier ++ [name]) next (by simp [isAll]) holdsNext ?_
    refine (reshaped.trans reshapedNext).widen (fun either => ?_) fun within neither => ?_
    · rcases either with ⟨other, member, inside⟩ | inside
      · exact ⟨other, List.mem_append_left _ member, inside⟩
      · exact ⟨name, by simp, inside⟩
    · obtain ⟨other, member, inside⟩ := within
      rcases List.mem_append.mp member with before | own
      · exact absurd (Or.inl ⟨other, before, inside⟩) neither
      · exact absurd (Or.inr (List.mem_singleton.mp own ▸ inside)) neither

/-- A walk lists the directory that its path leads to. -/
theorem start_listForWalk {session : Session} {path : Text}
    (approaches : session.surroundings.Approaches path place) (noNull : '\x00' ∉ path)
    (short : (Text.encode path).length < Path.tooLong) {entries : List (Text × FileTree)}
    (found : session.files.get? place = some (.directory entries)) :
    (listForWalk path).start session = (.ok (some entries), session) := by
  rw [listForWalk, start_tryCatch, start_map, start_listDirectory, if_neg noNull,
    approaches.list short found]
  rfl

end Action

end MiniShell
