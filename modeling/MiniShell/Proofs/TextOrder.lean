/-
This file says what the order of texts is: the order of their code points,
compared one after the other from the front. So it is the order of dictionaries
over the numbers, and it has the laws of that order.

Sorted files and sorted directories rest on it.
-/

import MiniShell.Text.Basic

namespace MiniShell.Text

/-- The code points of a text. -/
def codes (text : Text) : List Nat := text.map Char.toNat

theorem codes_inj {first second : Text} : first.codes = second.codes ↔ first = second :=
  List.map_inj_right fun _ _ => Char.toNat_inj.mp

theorem precedes_iff {first second : Text} :
    precedes first second = true ↔ first.codes < second.codes := by
  fun_induction precedes first second with
  | case1 text => simp [codes]
  | case2 character rest => simp [codes]
  | case3 first rest others inductionHypothesis =>
    rw [inductionHypothesis]
    simp [codes]
  | case4 first rest second others different =>
    have notSame : ¬ first.toNat = second.toNat := fun same => different (Char.toNat_inj.mp same)
    simp only [codes, List.map_cons, List.cons_lt_cons_iff, notSame, false_and, or_false,
      decide_eq_true_eq]
    exact Iff.rfl

theorem precedes_asymm {first second : Text} (before : precedes first second = true) :
    precedes second first = false := by
  rw [precedes_iff] at before
  rw [Bool.eq_false_iff, ne_eq, precedes_iff]
  exact List.lt_asymm before

theorem precedes_trans {first second third : Text} (before : precedes first second = true)
    (further : precedes second third = true) : precedes first third = true := by
  rw [precedes_iff] at before further ⊢
  exact List.lt_trans before further

/-- Of two texts one comes before the other, unless they are the same. -/
theorem precedes_of_ne {first second : Text} (different : first ≠ second)
    (notBefore : precedes second first = false) : precedes first second = true := by
  rw [Bool.eq_false_iff, ne_eq, precedes_iff] at notBefore
  rw [precedes_iff]
  refine Decidable.not_not.mp fun notAfter => different (codes_inj.mp ?_)
  exact List.le_antisymm notBefore notAfter

theorem atMost_iff {first second : Text} :
    atMost first second = true ↔ ¬ second.codes < first.codes := by
  rw [atMost, Bool.not_eq_true', ← precedes_iff, Bool.eq_false_iff]

theorem atMost_total (first second : Text) :
    (atMost first second || atMost second first) = true := by
  rw [Bool.or_eq_true, atMost_iff, atMost_iff]
  exact List.le_total first.codes second.codes

theorem atMost_trans {first second third : Text} (before : atMost first second = true)
    (further : atMost second third = true) : atMost first third = true := by
  rw [atMost_iff] at before further ⊢
  exact List.le_trans before further

end MiniShell.Text
