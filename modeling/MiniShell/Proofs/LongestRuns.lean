/-
This file cuts lists into their longest runs of neighbours that are alike,
where two elements are alike if they have the same key. Every list can be cut
in this way. Removing the neighbours that do not differ keeps the first element
of each run.

The runs are described by what they are and not by how they are found: all
elements of a run have one key, and the element behind it has another.
-/

import Mathlib.Data.List.Destutter

namespace MiniShell

variable {Element Key : Type} {key : Element → Key}

/-- A list is cut into its longest runs: all elements of a run have the key of the first one, and
what follows the run has another key. -/
inductive LongestRuns (key : Element → Key) : List Element → List (List Element) → Prop
  | nil : LongestRuns key [] []
  | cons {first : Element} {others rest : List Element} {runs : List (List Element)}
      (alike : ∀ other ∈ others, key other = key first)
      (stops : ∀ next ∈ rest.head?, key next ≠ key first)
      (further : LongestRuns key rest runs) :
      LongestRuns key (first :: others ++ rest) ((first :: others) :: runs)

/-- Every list can be cut into its longest runs. -/
theorem exists_longestRuns (key : Element → Key) (list : List Element) :
    ∃ runs, LongestRuns key list runs := by
  induction list with
  | nil => exact ⟨[], .nil⟩
  | cons element rest inductionHypothesis =>
    -- The element is a run by itself, unless it goes with the first run of the rest.
    have alone {runs : List (List Element)} (stops : ∀ next ∈ rest.head?, key next ≠ key element)
        (further : LongestRuns key rest runs) :
        LongestRuns key ([element] ++ rest) ([element] :: runs) :=
      .cons (List.forall_mem_nil _) stops further
    obtain ⟨runs, areRuns⟩ := inductionHypothesis
    cases areRuns with
    | nil => exact ⟨[[element]], alone (by simp) .nil⟩
    | @cons first others rest runs alike stops further =>
      by_cases same : key first = key element
      · refine ⟨(element :: first :: others) :: runs, .cons ?_ (same ▸ stops) further⟩
        exact List.forall_mem_cons.mpr ⟨same, same ▸ alike⟩
      · exact ⟨[element] :: (first :: others) :: runs,
          alone (by simpa using same) (.cons alike stops further)⟩

section Destutter

/-- Two elements that are not alike. -/
abbrev Unlike (key : Element → Key) (first second : Element) : Prop := key first ≠ key second

variable [DecidableRel (Unlike key)]

/-- What is like the element at hand is removed. -/
theorem destutter'_alike {first : Element} {others : List Element}
    (alike : ∀ other ∈ others, key other = key first) (rest : List Element) :
    (others ++ rest).destutter' (Unlike key) first = rest.destutter' (Unlike key) first := by
  induction others with
  | nil => rfl
  | cons other others inductionHypothesis =>
    obtain ⟨same, further⟩ := List.forall_mem_cons.mp alike
    have notUnlike : ¬ Unlike key first other := fun unlike => unlike same.symm
    rw [List.cons_append, List.destutter'_cons_neg _ notUnlike, inductionHypothesis further]

/-- The first elements of the runs are what is left. -/
theorem LongestRuns.destutter {list : List Element} {runs : List (List Element)}
    (areRuns : LongestRuns key list runs) :
    list.destutter (Unlike key) = runs.filterMap List.head? := by
  induction areRuns with
  | nil => rfl
  | @cons first others rest runs alike stops further inductionHypothesis =>
    rw [List.cons_append, List.destutter_cons', destutter'_alike alike]
    cases rest with
    | nil =>
      rw [List.destutter_nil] at inductionHypothesis
      simp [← inductionHypothesis]
    | cons next rest =>
      have unlike : Unlike key first next := Ne.symm (stops next rfl)
      rw [List.destutter'_cons_pos _ unlike, ← List.destutter_cons', inductionHypothesis]
      rfl

end Destutter

end MiniShell
