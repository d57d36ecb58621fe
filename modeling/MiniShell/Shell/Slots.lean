/-
This file puts numbers into a table of slots and takes them out again, slot after slot. The words
of an argument that hold a star are replaced in the order in which the positions of these words
come out of such a table. Positions below eight come out in order, but a larger one goes into the
slot of its last binary digits, or near it if that slot is taken, and so may come out before a
smaller one.
-/

namespace MiniShell

/-- A table of slots, each of them free or taken by a number. The number of slots is a power of
two. -/
abbrev Slots := List (Option Nat)

namespace Slots

/-- A table of free slots. -/
def free (size : Nat) : Slots := List.replicate size none

/-- The numbers in a table, in the order of their slots. -/
def numbers (slots : Slots) : List Nat := slots.filterMap id

/-- How many slots are tried behind the first one of a row. -/
def stretch : Nat := 9

/-- The slots that are tried for a number, in some rows of neighbours. A row that would leave the
table has only its first slot. Where the next row begins depends on the digits of the number that
have not been used yet. -/
def probes (size : Nat) : Nat → Nat → Nat → List Nat
  | 0, _, _ => []
  | rows + 1, slot, digits =>
    let length := if slot + stretch < size then stretch + 1 else 1
    let digits := digits / 32
    List.range' slot length ++ probes size rows ((5 * slot + 1 + digits) % size) digits

/-- Puts a number into the first slot of its probes that is free. There is one, since a table
never fills up; otherwise a slot is added. -/
def put (slots : Slots) (number : Nat) : Slots :=
  let size := slots.length
  let tried := probes size (size + Nat.log2 number + 1) (number % size) number
  match tried.find? fun slot => slots.getD slot (some number) == none with
  | some slot => slots.set slot (some number)
  | none => slots ++ [some number]

/-- The least size of a table, from eight on, that is above a number. -/
def sizeAbove (least : Nat) : Nat := Nat.max 8 (1 <<< (Nat.log2 least + 1))

/-- Puts a number into a table. If three fifths of the slots are taken then, all numbers go to a
larger table. -/
def add (slots : Slots) (number : Nat) : Slots :=
  let filled := slots.put number
  let used := filled.numbers.length
  if 5 * used < 3 * (filled.length - 1) then filled
  else
    let least := if used > 50000 then 2 * used else 4 * used
    filled.numbers.foldl put (free (sizeAbove least))

/-- The order in which different numbers come out of a table that they are put into one after the
other. -/
def order (numbers : List Nat) : List Nat := (numbers.foldl add (free 8)).numbers

/-! ### No number is lost -/

@[simp] theorem numbers_free (size : Nat) : (free size).numbers = [] := by
  simp [free, numbers]

@[simp] theorem order_nil : order [] = [] := rfl

theorem numbers_set {slots : Slots} {slot : Nat} (isFree : slots[slot]? = some none)
    (number : Nat) : (numbers (slots.set slot (some number))).Perm (number :: slots.numbers) := by
  induction slots generalizing slot with
  | nil => simp at isFree
  | cons first rest inductionHypothesis =>
    cases slot with
    | zero =>
      obtain rfl : first = none := by simpa using isFree
      simp [numbers]
    | succ slot =>
      have further := inductionHypothesis (by simpa using isFree)
      cases first with
      | none => simpa [numbers] using further
      | some other => exact (further.cons other).trans (.swap number other _)

theorem numbers_put (slots : Slots) (number : Nat) :
    (slots.put number).numbers.Perm (number :: slots.numbers) := by
  rw [put]
  split
  · next slot found =>
    refine numbers_set ?_ number
    have isFree := List.find?_some found
    rw [beq_iff_eq, List.getD_eq_getElem?_getD] at isFree
    cases taken : slots[slot]? with
    | none => simp [taken] at isFree
    | some content => simpa [taken] using isFree
  · simp [numbers]

theorem numbers_foldl {step : Slots → Nat → Slots}
    (keeps : ∀ slots number, (step slots number).numbers.Perm (number :: slots.numbers))
    (slots : Slots) (others : List Nat) :
    (others.foldl step slots).numbers.Perm (others ++ slots.numbers) := by
  induction others generalizing slots with
  | nil => exact .refl _
  | cons number rest inductionHypothesis =>
    refine (inductionHypothesis (step slots number)).trans ?_
    exact ((keeps slots number).append_left rest).trans List.perm_middle

theorem numbers_add (slots : Slots) (number : Nat) :
    (slots.add number).numbers.Perm (number :: slots.numbers) := by
  rw [add]
  split
  · exact numbers_put slots number
  · refine (numbers_foldl numbers_put _ _).trans ?_
    rw [numbers_free, List.append_nil]
    exact numbers_put slots number

/-- The numbers that are put into a table come out of it, each as often as it was put in. -/
theorem order_perm (others : List Nat) : (order others).Perm others := by
  simpa [order] using numbers_foldl numbers_add (free 8) others

example : order [1, 8] = [8, 1] := by decide

end Slots

end MiniShell
