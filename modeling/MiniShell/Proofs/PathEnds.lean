/-
This file cuts paths at their last slash. The part behind it is the last part
of the path, unless the path ends in a slash; what stands before it, without
the slashes at its end, is the path of the directory that holds the last part.
A path that goes down by names only is taken apart in this way, name by name.

These are the parts that copying and moving ask for: the name under which
something is put into a directory, and the directory that has to be there for
it.
-/

import MiniShell.Proofs.PathWays

namespace MiniShell.Path

open Text

/-! ### Last parts -/

theorem exists_last_slash (path : Text) :
    '/' ∉ path ∨ ∃ front rest, path = front ++ '/' :: rest ∧ '/' ∉ rest := by
  by_cases member : '/' ∈ path
  · obtain ⟨behind, before, cut, unmarked⟩ :=
      List.eq_append_cons_of_mem (List.mem_reverse.mpr member)
    refine Or.inr ⟨before.reverse, behind.reverse, ?_, by simpa using unmarked⟩
    rw [← List.reverse_reverse path, cut]
    simp
  · exact Or.inl member

theorem baseName_noSlash {path : Text} (noSlash : '/' ∉ path) : baseName path = path := by
  rw [baseName, splitAt_unmarked (unmarked_of_noSlash noSlash)]
  rfl

theorem baseName_append_slash (front : Text) {rest : Text} (noSlash : '/' ∉ rest) :
    baseName (front ++ '/' :: rest) = rest := by
  rw [baseName, splitAt_append_mark (by decide), splitAt_unmarked (unmarked_of_noSlash noSlash)]
  simp

theorem dropEnd_append_slash (text : Text) :
    dropEnd isSlash (text ++ ['/']) = dropEnd isSlash text :=
  dropEnd_concat rfl text

/-- A path is what is left without the slashes at its end, drawn out by these slashes. -/
theorem exists_drawnOut (text : Text) : ∃ count, text = drawnOut (dropEnd isSlash text) count := by
  induction text with
  | nil => exact ⟨0, rfl⟩
  | cons character rest inductionHypothesis =>
    obtain ⟨count, isDrawnOut⟩ := inductionHypothesis
    rw [dropEnd]
    split
    · next nothing =>
      rw [nothing, drawnOut, List.nil_append] at isDrawnOut
      split
      · next slash =>
        refine ⟨count + 1, ?_⟩
        rw [(isSlash_iff _).mp slash, isDrawnOut]
        rfl
      · refine ⟨count, ?_⟩
        rw [isDrawnOut]
        simp [drawnOut]
    · refine ⟨count, ?_⟩
      rw [drawnOut, List.cons_append, ← drawnOut, ← isDrawnOut]

theorem getLast?_dropEnd (text : Text) : (dropEnd isSlash text).getLast? ≠ some '/' := by
  induction text with
  | nil => exact fun ends => absurd ends (by simp [dropEnd])
  | cons character rest inductionHypothesis =>
    rw [dropEnd]
    split
    · split
      · exact fun ends => absurd ends (by simp)
      · next notSlash =>
        intro ends
        exact notSlash ((isSlash_iff _).mpr (Option.some.inj ends))
    · next kept =>
      cases rest' : dropEnd isSlash rest with
      | nil => exact absurd rest' kept
      | cons next more =>
        rw [rest'] at inductionHypothesis
        rwa [List.getLast?_cons_cons]

theorem parts_dropEnd (text : Text) :
    (ofText (dropEnd isSlash text)).parts = (ofText text).parts := by
  obtain ⟨count, isDrawnOut⟩ := exists_drawnOut text
  rw [← parts_drawnOut (dropEnd isSlash text) count, ← isDrawnOut]

theorem isAbsolute_dropEnd {text : Text} (relative : isAbsolute text = false) :
    isAbsolute (dropEnd isSlash text) = false := by
  obtain ⟨count, isDrawnOut⟩ := exists_drawnOut text
  cases kept : dropEnd isSlash text with
  | nil => rfl
  | cons character rest =>
    rw [kept] at isDrawnOut
    rw [isDrawnOut] at relative
    exact relative

/-- The path of the directory that holds the last part of a relative path. -/
theorem parentPath_append_slash {front rest : Text} (noSlash : '/' ∉ rest) (nonempty : front ≠ [])
    (relative : isAbsolute front = false) :
    parentPath (front ++ '/' :: rest) = dropEnd isSlash front := by
  have before : (front ++ '/' :: rest).take ((front ++ '/' :: rest).length - rest.length) =
      front ++ ['/'] := by
    have whole : front ++ '/' :: rest = front ++ ['/'] ++ rest := by simp
    have length : (front ++ ['/'] ++ rest).length = (front ++ ['/']).length + rest.length :=
      List.length_append
    rw [whole, length, Nat.add_sub_cancel, List.take_left]
  have notAll : ¬ (front ++ ['/']).all isSlash = true := by
    cases front with
    | nil => exact absurd rfl nonempty
    | cons character more =>
      intro all
      have slash := List.all_eq_true.mp all character (by simp)
      rw [(isSlash_iff _).mp slash] at relative
      exact absurd relative (by simp [isAbsolute])
  rw [parentPath, baseName_append_slash front noSlash]
  simp only [before]
  rw [if_neg notAll, dropEnd_append_slash]

theorem parentPath_noSlash {path : Text} (noSlash : '/' ∉ path) : parentPath path = [] := by
  simp [parentPath, baseName_noSlash noSlash]

/-! ### Paths that go down -/

theorem parts_ne_nil {text : Text} (nonempty : text ≠ []) (relative : isAbsolute text = false) :
    (ofText text).parts ≠ [] := by
  cases text with
  | nil => exact absurd rfl nonempty
  | cons character rest =>
    have notSlash : isSlash character = false := by
      rw [Bool.eq_false_iff]
      intro slash
      rw [(isSlash_iff _).mp slash] at relative
      exact absurd relative (by simp [isAbsolute])
    obtain ⟨part, parts, cut⟩ :=
      List.exists_cons_of_ne_nil (List.splitOnP_ne_nil isSlash rest)
    rw [← splitAt_eq_splitOnP] at cut
    simp [ofText, splitAt, cut, notSlash]

theorem exists_last_part {text : Text} (nonempty : text ≠ []) (relative : isAbsolute text = false) :
    ∃ front last, (ofText text).parts = front ++ [last] :=
  ⟨_, _, (List.dropLast_concat_getLast (parts_ne_nil nonempty relative)).symm⟩

theorem noNull_of_parts {text : Text} (noNulls : ∀ part ∈ (ofText text).parts, '\x00' ∉ part) :
    '\x00' ∉ text := by
  intro member
  obtain ⟨part, among, inside⟩ := exists_mem_splitAt member (by decide : isSlash '\x00' = false)
  refine noNulls part (List.mem_filter.mpr ⟨among, ?_⟩) inside
  simpa using List.ne_nil_of_mem inside

/-- A path has at least as many characters as parts. -/
theorem length_parts_le (text : Text) : (ofText text).parts.length ≤ text.length := by
  induction text with
  | nil => exact Nat.le_refl 0
  | cons character rest inductionHypothesis =>
    obtain ⟨part, parts, cut⟩ := List.exists_cons_of_ne_nil (List.splitOnP_ne_nil isSlash rest)
    rw [← splitAt_eq_splitOnP] at cut
    simp only [ofText, splitAt, cut] at inductionHypothesis ⊢
    rw [List.length_cons]
    split
    · exact Nat.le_succ_of_le inductionHypothesis
    · refine Nat.le_trans ?_ (Nat.succ_le_succ inductionHypothesis)
      rw [List.filter_cons_of_pos (by simp), List.length_cons]
      exact Nat.succ_le_succ ((List.sublist_cons_self part parts).filter _).length_le

/-- A path that starts at the working directory, goes down by names and does not end in a slash. -/
structure GoesDown (path : Text) (names : List Text) : Prop where
  relative : isAbsolute path = false
  parts : (ofText path).parts = names
  tight : path.getLast? ≠ some '/'

namespace GoesDown

variable {path : Text} {front : List Text} {last : Text}

/-- A path that goes down is a single name, or its last name is held by a directory whose path goes
down too. -/
theorem cut (goesDown : GoesDown path (front ++ [last])) :
    front = [] ∧ baseName path = last ∧ parentPath path = [] ∨
      baseName path = last ∧ parentPath path ≠ [] ∧ GoesDown (parentPath path) front ∧
        (encode (parentPath path)).length < (encode path).length := by
  obtain ⟨relative, parts, tight⟩ := goesDown
  rcases exists_last_slash path with noSlash | ⟨before, rest, rfl, noSlash⟩
  · left
    have nonempty : path ≠ [] := by
      rintro rfl
      exact absurd parts (by simp [ofText, splitAt])
    rw [parts_noSlash nonempty noSlash, ← List.nil_append [path]] at parts
    obtain ⟨isNil, same⟩ := List.append_inj' parts rfl
    exact ⟨isNil.symm, (baseName_noSlash noSlash).trans (List.cons.inj same).1,
      parentPath_noSlash noSlash⟩
  · right
    have restNonempty : rest ≠ [] := by
      rintro rfl
      exact tight (by simp)
    have nonempty : before ≠ [] := by
      rintro rfl
      exact absurd relative (by simp [isAbsolute])
    have relativeBefore : isAbsolute before = false := by
      cases before with
      | nil => exact absurd rfl nonempty
      | cons character more => exact relative
    rw [parts_append_slash, parts_noSlash restNonempty noSlash] at parts
    obtain ⟨isFront, same⟩ := List.append_inj' parts rfl
    rw [parentPath_append_slash noSlash nonempty relativeBefore]
    refine ⟨(baseName_append_slash before noSlash).trans (List.cons.inj same).1, ?_,
      ⟨isAbsolute_dropEnd relativeBefore, (parts_dropEnd before).trans isFront,
        getLast?_dropEnd before⟩, ?_⟩
    · intro nothing
      refine parts_ne_nil nonempty relativeBefore ?_
      rw [← parts_dropEnd, nothing]
      rfl
    · -- The path of the parent also loses the slashes at its end.
      obtain ⟨count, isDrawnOut⟩ := exists_drawnOut before
      have beforeLength := congrArg (fun text => (encode text).length) isDrawnOut
      have behindLength := length_le_encode ('/' :: rest)
      simp only [length_drawnOut] at beforeLength
      rw [List.length_cons] at behindLength
      rw [length_encode_append]
      omega

/-- A path that goes down, continued by names. -/
theorem below {path : Text} (relative : isAbsolute path = false) {names : List Text}
    (areNames : ∀ name ∈ names, IsName name) (further : names ≠ []) :
    GoesDown (Text.below path names) ((ofText path).parts ++ names) := by
  obtain ⟨parts, absolute⟩ := parts_below path areNames
  refine ⟨absolute.trans relative, parts, ?_⟩
  obtain ⟨front, last, rfl⟩ := (List.eq_nil_or_concat names).resolve_left further
  rw [List.concat_eq_append, below_snoc]
  exact of_decide_eq_false ((areNames last (by simp)).slash_joinPath _)

/-- A path that goes down, without the slashes at its end. -/
theorem dropEnd {path : Text} (relative : isAbsolute path = false) :
    GoesDown (Text.dropEnd isSlash path) (ofText path).parts :=
  ⟨isAbsolute_dropEnd relative, parts_dropEnd path, getLast?_dropEnd path⟩

end GoesDown

/-! ### Ways down -/

theorem joinPath_tight {path further : Text} (nonempty : path ≠ [])
    (tight : path.getLast? ≠ some '/') (relative : isAbsolute further = false) :
    joinPath path further = path ++ '/' :: further := by
  simp [joinPath, relative, nonempty, tight]

theorem isAbsolute_append {text : Text} (nonempty : text ≠ []) (rest : Text) :
    isAbsolute (text ++ rest) = isAbsolute text := by
  cases text with
  | nil => exact absurd rfl nonempty
  | cons character more => rfl

theorem IsName.joinPath_append {name : Text} (isName : IsName name) (path rest : Text) :
    joinPath path (name ++ rest) = joinPath path name ++ rest := by
  simp only [joinPath, isAbsolute_append isName.nonempty, isName.relative, Bool.false_eq_true,
    if_false]
  split <;> simp

/-- Joining a path with names that are joined by slashes is joining it with one name after the
other. -/
theorem joinPath_join (path : Text) {names : List Text} (areNames : ∀ name ∈ names, IsName name)
    (further : names ≠ []) : joinPath path (join ['/'] names) = Text.below path names := by
  induction names generalizing path with
  | nil => exact absurd rfl further
  | cons name rest inductionHypothesis =>
    obtain ⟨isName, others⟩ := List.forall_mem_cons.mp areNames
    cases rest with
    | nil => rfl
    | cons second more =>
      have secondName := others second (List.mem_cons_self ..)
      have relative : isAbsolute (join ['/'] (second :: more)) = false := by
        cases more with
        | nil => exact secondName.relative
        | cons third others =>
          rw [join, List.append_assoc, isAbsolute_append secondName.nonempty]
          exact secondName.relative
      have tight := of_decide_eq_false (isName.slash_joinPath path)
      rw [Text.below, List.foldl_cons, ← Text.below, ← inductionHypothesis _ others (by simp),
        joinPath_tight (isName.joinPath_ne_nil path) tight relative, join, List.append_assoc,
        List.singleton_append, isName.joinPath_append]

theorem joinPath_wayDown (path : Text) {way : List Text} (areNames : ∀ name ∈ way, IsName name)
    (further : way ≠ []) : joinPath path (wayDown way) = Text.below path way := by
  rw [wayDown, if_neg further, joinPath_join path areNames further]

/-- The last part of a path that ends in staying. -/
theorem cut_joinPath_here {path : Text} (nonempty : path ≠ [])
    (relative : isAbsolute path = false) :
    baseName (joinPath path here) = here ∧
      parentPath (joinPath path here) = Text.dropEnd isSlash path := by
  have noSlash : '/' ∉ here := by decide
  by_cases ends : path.getLast? = some '/'
  · obtain ⟨front, rfl⟩ := List.getLast?_eq_some_iff.mp ends
    have frontNonempty : front ≠ [] := by
      rintro rfl
      exact absurd relative (by simp [isAbsolute])
    have joined : joinPath (front ++ ['/']) here = front ++ '/' :: here := by
      simp [joinPath, ends, show isAbsolute here = false by decide]
    rw [isAbsolute_append frontNonempty] at relative
    rw [joined, baseName_append_slash front noSlash,
      parentPath_append_slash noSlash frontNonempty relative, dropEnd_append_slash]
    exact ⟨rfl, rfl⟩
  · rw [joinPath_tight nonempty ends (by decide), baseName_append_slash path noSlash,
      parentPath_append_slash noSlash nonempty relative]
    exact ⟨rfl, rfl⟩

end MiniShell.Path
