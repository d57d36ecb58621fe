/-
This file says what joining does to the parts of a path. A path that is
continued by names has its own parts and then the names, and so has its normal
form; so the way from a directory to one below it is made up of the names in
between. Every name makes a path longer.

A path is refused if it has too many bytes. So that the paths of a walk can be
known not to be refused, the lengths of joined paths are told as well.
-/

import MiniShell.FileTree.Lookup
import MiniShell.Proofs.CutParts

namespace MiniShell

variable {text further : Text} {names : List Text}

/-! ### Names -/

/-- A text that can name an entry of a directory. -/
structure Path.IsName (name : Text) : Prop where
  nonempty : name ≠ []
  noSlash : '/' ∉ name
  notHere : name ≠ Path.here
  notAbove : name ≠ Path.above

namespace Text

theorem isSlash_iff (character : Char) : isSlash character = true ↔ character = '/' := by
  simp [isSlash]

theorem unmarked_of_noSlash (noSlash : '/' ∉ text) :
    ∀ character ∈ text, isSlash character = false := fun _ member =>
  Bool.eq_false_iff.mpr fun slash => noSlash ((isSlash_iff _).mp slash ▸ member)

/-- No part holds a mark. -/
theorem unmarked_of_mem_splitAt {isMark : Char → Bool} {part : Text}
    (member : part ∈ splitAt isMark text) : ∀ character ∈ part, isMark character = false := by
  induction text generalizing part with
  | nil =>
    obtain rfl : part = [] := by simpa [splitAt] using member
    exact fun _ inside => absurd inside (by simp)
  | cons first rest inductionHypothesis =>
    rw [splitAt] at member
    split at member
    · obtain rfl : part = [] := by simpa using member
      exact fun _ inside => absurd inside (by simp)
    · rename_i front others cut
      rw [cut] at inductionHypothesis
      split at member
      · rcases List.mem_cons.mp member with rfl | later
        · exact fun _ inside => absurd inside (by simp)
        · exact inductionHypothesis later
      · rename_i notMark
        rcases List.mem_cons.mp member with rfl | later
        · intro character inside
          rcases List.mem_cons.mp inside with rfl | further
          · simpa using notMark
          · exact inductionHypothesis (List.mem_cons_self ..) character further
        · exact inductionHypothesis (List.mem_cons_of_mem _ later)

/-- Every character but the marks is in a part. -/
theorem exists_mem_splitAt {isMark : Char → Bool} {character : Char} (member : character ∈ text)
    (unmarked : isMark character = false) : ∃ part ∈ splitAt isMark text, character ∈ part := by
  induction text with
  | nil => exact absurd member (by simp)
  | cons first rest inductionHypothesis =>
    obtain ⟨part, parts, cut⟩ := List.exists_cons_of_ne_nil (List.splitOnP_ne_nil isMark rest)
    rw [← splitAt_eq_splitOnP] at cut
    rw [splitAt, cut]
    rw [cut] at inductionHypothesis
    rcases List.mem_cons.mp member with rfl | later
    · refine ⟨character :: part, ?_, List.mem_cons_self ..⟩
      simp [unmarked]
    · obtain ⟨other, among, inside⟩ := inductionHypothesis later
      by_cases isMarked : isMark first = true
      · exact ⟨other, by simpa [isMarked] using Or.inr among, inside⟩
      · rcases List.mem_cons.mp among with rfl | further
        · exact ⟨first :: other, by simp [isMarked], List.mem_cons_of_mem _ inside⟩
        · exact ⟨other, by simp [isMarked, further], inside⟩

/-- A path that is continued by names, one after the other. -/
def below (path : Text) (names : List Text) : Text := names.foldl joinPath path

theorem below_snoc (path : Text) (names : List Text) (name : Text) :
    below path (names ++ [name]) = joinPath (below path names) name := by
  rw [below, below, List.foldl_append, List.foldl_cons, List.foldl_nil]

end Text

namespace Path

open Text

theorem noNull_joinPath {path : Text} (noNull : '\x00' ∉ path) (alsoNone : '\x00' ∉ further) :
    '\x00' ∉ joinPath path further := by
  unfold joinPath
  split
  · exact alsoNone
  · split <;> simp [noNull, alsoNone]

theorem noNull_below {path : Text} (noNull : '\x00' ∉ path)
    (noNulls : ∀ name ∈ names, '\x00' ∉ name) : '\x00' ∉ below path names := by
  induction names generalizing path with
  | nil => exact noNull
  | cons name rest inductionHypothesis =>
    obtain ⟨own, others⟩ := List.forall_mem_cons.mp noNulls
    rw [below, List.foldl_cons]
    exact inductionHypothesis (noNull_joinPath noNull own) others

theorem plain_of_mem_parts {part : Text} (member : part ∈ (ofText text).parts) :
    part ≠ [] ∧ '/' ∉ part := by
  obtain ⟨inParts, nonempty⟩ := List.mem_filter.mp member
  refine ⟨by simpa using nonempty, fun slash => ?_⟩
  have unmarked := unmarked_of_mem_splitAt inParts '/' slash
  exact absurd unmarked (by decide)

/-- The last part of a path is a name unless it stands for a directory by its place. -/
theorem isName_of_mem_parts {part : Text} (member : part ∈ (ofText text).parts)
    (notHere : part ≠ here) (notAbove : part ≠ above) : IsName part :=
  ⟨(plain_of_mem_parts member).1, (plain_of_mem_parts member).2, notHere, notAbove⟩

/-! ### Parts of joined paths -/

theorem parts_noSlash (nonempty : text ≠ []) (noSlash : '/' ∉ text) :
    (ofText text).parts = [text] := by
  rw [ofText, splitAt_unmarked (unmarked_of_noSlash noSlash)]
  simp [nonempty]

theorem parts_append_slash (text rest : Text) :
    (ofText (text ++ '/' :: rest)).parts = (ofText text).parts ++ (ofText rest).parts := by
  rw [ofText, splitAt_append_mark (by decide), List.filter_append]
  rfl

/-- The parts of a joined path are those of the two paths. -/
theorem parts_joinPath (path : Text) (relative : isAbsolute further = false) :
    (ofText (joinPath path further)).parts = (ofText path).parts ++ (ofText further).parts := by
  unfold joinPath
  rw [if_neg (by simp [relative])]
  split
  · rename_i ends
    rcases (Bool.or_eq_true ..).mp ends with empty | slash
    · obtain rfl : path = [] := by simpa using empty
      rfl
    · obtain ⟨front, rfl⟩ := List.getLast?_eq_some_iff.mp (of_decide_eq_true slash)
      have whole : front ++ ['/'] ++ further = front ++ '/' :: further := by simp
      have nothing : (ofText []).parts = [] := rfl
      rw [whole, parts_append_slash, parts_append_slash, nothing, List.append_nil]
  · exact parts_append_slash path further

theorem isAbsolute_joinPath (path : Text) (relative : isAbsolute further = false) :
    isAbsolute (joinPath path further) = isAbsolute path := by
  unfold joinPath
  rw [if_neg (by simp [relative])]
  cases path with
  | nil => exact relative
  | cons first rest => split <;> rfl

namespace IsName

variable {name : Text} (isName : IsName name)
include isName

theorem relative : isAbsolute name = false := by
  cases name with
  | nil => rfl
  | cons first rest =>
    have notSlash : first ≠ '/' := fun slash => isName.noSlash (by simp [slash])
    simp [isAbsolute, notSlash]

theorem parts : (ofText name).parts = [name] :=
  parts_noSlash isName.nonempty isName.noSlash

end IsName

theorem IsName.slash_joinPath {name : Text} (isName : IsName name) (path : Text) :
    (ofText (joinPath path name)).slash = false := by
  have last : ∀ front : Text, (front ++ name).getLast? ≠ some '/' := by
    intro front ends
    obtain ⟨character, isLast⟩ := Option.isSome_iff_exists.mp
      (List.getLast?_isSome.mpr isName.nonempty)
    rw [List.getLast?_append, isLast, Option.some_or] at ends
    exact isName.noSlash (Option.some.inj ends ▸ List.mem_of_getLast? isLast)
  refine decide_eq_false ?_
  unfold joinPath
  rw [if_neg (by simp [isName.relative])]
  split
  · exact last path
  · rw [List.append_cons]
    exact last _

/-- A path that is continued by names has their parts behind its own. -/
theorem parts_below (path : Text) (areNames : ∀ name ∈ names, IsName name) :
    (ofText (below path names)).parts = (ofText path).parts ++ names ∧
      isAbsolute (below path names) = isAbsolute path := by
  induction names generalizing path with
  | nil => exact ⟨(List.append_nil _).symm, rfl⟩
  | cons name rest inductionHypothesis =>
    have isName := areNames name (List.mem_cons_self ..)
    obtain ⟨parts, absolute⟩ := inductionHypothesis (joinPath path name)
      fun other member => areNames other (List.mem_cons_of_mem _ member)
    rw [below, List.foldl_cons, ← below, parts, absolute, parts_joinPath path isName.relative,
      isName.parts, isAbsolute_joinPath path isName.relative, List.append_assoc]
    exact ⟨rfl, rfl⟩

/-! ### Normal forms -/

/-- Names stay in a normal form. -/
theorem foldl_normalStep_names (absolute : Bool) (kept : List Text)
    (areNames : ∀ name ∈ names, IsName name) :
    names.foldl (normalStep absolute) kept = names.reverse ++ kept := by
  induction names generalizing kept with
  | nil => rfl
  | cons name rest inductionHypothesis =>
    have isName := areNames name (List.mem_cons_self ..)
    have step : normalStep absolute kept name = name :: kept := by
      simp [normalStep, isName.notHere, isName.notAbove]
    rw [List.foldl_cons, step,
      inductionHypothesis _ fun other member => areNames other (List.mem_cons_of_mem _ member)]
    simp

/-- The normal form of a path that is continued by names is continued by these names. -/
theorem normalParts_of_parts {path longer : Path} (absolute : longer.absolute = path.absolute)
    (parts : longer.parts = path.parts ++ names) (areNames : ∀ name ∈ names, IsName name) :
    longer.normalParts = path.normalParts ++ names := by
  rw [normalParts, absolute, parts, List.foldl_append, foldl_normalStep_names _ _ areNames,
    List.reverse_append, List.reverse_reverse, normalParts]

theorem commonLength_append (parts names : List Text) :
    commonLength parts (parts ++ names) = parts.length := by
  induction parts with
  | nil => cases names <;> rfl
  | cons part rest inductionHypothesis =>
    rw [List.cons_append, commonLength, if_pos rfl, inductionHypothesis, List.length_cons]

/-- The way to a directory below. -/
def wayDown (names : List Text) : Text := if names = [] then here else Text.join ['/'] names

theorem wayBetween_append (parts names : List Text) :
    wayBetween parts (parts ++ names) = wayDown names := by
  simp [wayBetween, wayDown, commonLength_append]

/-! ### Lengths -/

theorem length_encode_append (text rest : Text) :
    (encode (text ++ rest)).length = (encode text).length + (encode rest).length := by
  rw [encode, List.flatMap_append, List.length_append]
  rfl

theorem length_le_encode (text : Text) : text.length ≤ (encode text).length := by
  induction text with
  | nil => exact Nat.le_refl 0
  | cons character rest inductionHypothesis =>
    have positive : 0 < (encodeCharacter character).length := by
      simp only [encodeCharacter]
      split
      · exact Nat.one_pos
      · split
        · exact Nat.two_pos
        · split <;> exact Nat.succ_pos _
    rw [encode, List.flatMap_cons, List.length_append, List.length_cons, ← encode]
    omega

/-- A path that is drawn out by slashes at its end. -/
def drawnOut (text : Text) (count : Nat) : Text := text ++ List.replicate count '/'

theorem head?_drawnOut (nonempty : text ≠ []) (count : Nat) :
    (drawnOut text count).head? = text.head? := by
  cases text with
  | nil => exact absurd rfl nonempty
  | cons character rest => rfl

theorem parts_drawnOut (text : Text) (count : Nat) :
    (ofText (drawnOut text count)).parts = (ofText text).parts := by
  induction count with
  | zero => rw [drawnOut, List.replicate_zero, List.append_nil]
  | succ count inductionHypothesis =>
    have nothing : (ofText []).parts = [] := rfl
    rw [drawnOut, List.replicate_succ', ← List.append_assoc, ← drawnOut, parts_append_slash,
      inductionHypothesis, nothing, List.append_nil]

theorem length_drawnOut (text : Text) (count : Nat) :
    (encode (drawnOut text count)).length = (encode text).length + count := by
  have slashes : (encode (List.replicate count '/')).length = count := by
    induction count with
    | zero => rfl
    | succ count inductionHypothesis =>
      have slash : (encode ['/']).length = 1 := rfl
      rw [List.replicate_succ', length_encode_append, inductionHypothesis, slash]
  rw [drawnOut, length_encode_append, slashes]

theorem noNull_drawnOut (noNull : '\x00' ∉ text) (count : Nat) : '\x00' ∉ drawnOut text count := by
  intro member
  rcases List.mem_append.mp member with inText | isSlash
  · exact noNull inText
  · exact absurd (List.eq_of_mem_replicate isSlash) (by decide)

theorem joinPath_drawnOut (text : Text) (count : Nat) (relative : isAbsolute further = false) :
    joinPath (drawnOut text (count + 1)) further = drawnOut text (count + 1) ++ further := by
  unfold joinPath
  rw [if_neg (by simp [relative]), if_pos]
  simp [drawnOut, List.replicate_succ', List.getLast?_append]

/-- Slashes at the end of a path leave less room for what comes behind it. -/
theorem length_joinPath_drawnOut (text : Text) {count : Nat} (drawn : 0 < count)
    (relative : isAbsolute further = false) :
    (encode text).length + count + further.length ≤
      (encode (joinPath (drawnOut text count) further)).length := by
  obtain ⟨less, rfl⟩ := Nat.exists_eq_succ_of_ne_zero (Nat.ne_of_gt drawn)
  rw [joinPath_drawnOut text less relative, length_encode_append, length_drawnOut]
  exact Nat.add_le_add_left (length_le_encode further) _

/-- Every name makes a path longer. -/
theorem IsName.length_joinPath {name : Text} (isName : IsName name) (path : Text) :
    (encode path).length < (encode (joinPath path name)).length := by
  have positive : 0 < (encode name).length :=
    Nat.lt_of_lt_of_le (List.length_pos_iff.mpr isName.nonempty) (length_le_encode name)
  unfold joinPath
  rw [if_neg (by simp [isName.relative])]
  split
  · rw [length_encode_append]
    omega
  · have longer := length_le_encode ('/' :: name)
    rw [List.length_cons] at longer
    rw [length_encode_append]
    omega

theorem IsName.joinPath_ne_nil {name : Text} (isName : IsName name) (path : Text) :
    joinPath path name ≠ [] := by
  intro isNil
  have longer := isName.length_joinPath path
  rw [isNil] at longer
  exact absurd longer (by simp [encode])

theorem length_below (path : Text) (areNames : ∀ name ∈ names, IsName name) :
    (encode path).length + names.length ≤ (encode (below path names)).length := by
  induction names generalizing path with
  | nil => exact Nat.le_refl _
  | cons name rest inductionHypothesis =>
    have step := (areNames name (List.mem_cons_self ..)).length_joinPath path
    have onward := inductionHypothesis (joinPath path name)
      fun other member => areNames other (List.mem_cons_of_mem _ member)
    rw [List.length_cons, below, List.foldl_cons, ← below]
    omega

end Path

/-! ### Ends of paths -/

namespace Surroundings

theorem mem_of_start {surroundings : Surroundings} {path : Path} {first : Location}
    {parts : List Text} (started : surroundings.start path = .ok (first, parts)) {part : Text}
    (member : part ∈ parts) : part ∈ path.parts := by
  unfold start at started
  split at started
  · split at started
    · obtain ⟨-, rfl⟩ := Prod.mk.inj (Except.ok.inj started)
      exact List.mem_of_mem_drop member
    · split at started
      · obtain ⟨-, rfl⟩ := Prod.mk.inj (Except.ok.inj started)
        exact absurd member (by simp)
      · exact absurd started (by simp)
  · obtain ⟨-, rfl⟩ := Prod.mk.inj (Except.ok.inj started)
    exact member

/-- A path that ends in an entry ends in a name, and what stands before it is followed. -/
theorem goal_entry_inv {surroundings : Surroundings} {path name : Text} {location : Location}
    {slash : Bool} (reached : surroundings.goal path = .ok (.entry location name slash)) :
    Path.IsName name ∧ path ≠ [] ∧ (Text.encode path).length < Path.tooLong ∧
      ∃ first front, surroundings.start (Path.ofText path) = .ok (first, front ++ [name]) ∧
        surroundings.follow first front = .ok location := by
  unfold goal at reached
  split at reached
  · exact absurd reached (by simp)
  next nonempty =>
  split at reached
  · exact absurd reached (by simp)
  next short =>
  cases started : surroundings.start (Path.ofText path) with
  | error error => simp [started] at reached
  | ok begun =>
    obtain ⟨first, parts⟩ := begun
    simp only [started] at reached
    cases ending : parts.getLast? with
    | none => simp [ending] at reached
    | some last =>
      obtain ⟨front, rfl⟩ := List.getLast?_eq_some_iff.mp ending
      simp only [ending, List.dropLast_concat] at reached
      cases followed : surroundings.follow first front with
      | error error => simp [followed] at reached
      | ok between =>
        simp only [followed] at reached
        split at reached
        · exact absurd reached (by simp)
        next notHere =>
        split at reached
        · exact absurd reached (by simp)
        next notAbove =>
        obtain ⟨rfl, rfl, -⟩ := Goal.entry.inj (Except.ok.inj reached)
        have isName := Path.isName_of_mem_parts
          (mem_of_start started (List.mem_of_getLast? ending)) notHere notAbove
        exact ⟨isName, nonempty, Nat.lt_of_not_le short, first, front, rfl, followed⟩

end Surroundings

end MiniShell
