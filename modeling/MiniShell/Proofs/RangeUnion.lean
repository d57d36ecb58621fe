/-
This file proves that a list of ranges shows exactly the characters that it
names. The items of the list may come in any order, overlap, repeat each other
or be empty; they are put in the order of their beginnings, and an item that
begins inside the range at hand is joined to it. What is left is a row of
ranges, each of which ends before the next one begins. Cutting these out of a
line one after the other gives every character that lies in an item, once and
in order.

The invariant of joining is that the ranges so far lie apart from each other
and before the one at hand, and that together with the items to come they hold
the positions that the list names. Numerals are read digit by digit, as numbers
in base ten.
-/

import Mathlib.Data.List.Basic
import MiniShell.Command.Cutting
import MiniShell.Proofs.CutParts

namespace MiniShell

/-! ### Numerals -/

namespace Text

/-- A numeral that can be read: decimal digits of any script, and not too many of them. -/
structure Numeral where
  digits : Text
  nonempty : digits ≠ []
  decimal : ∀ digit ∈ digits, isDecimal digit = true
  short : digits.length ≤ digitLimit

/-- Whether a text is such a numeral. -/
def isNumeral (text : Text) : Bool :=
  !text.isEmpty && text.all isDecimal && text.length ≤ digitLimit

def Numeral.ofText (text : Text) (isNumeral : text.isNumeral = true) : Numeral where
  digits := text
  nonempty := by
    rintro rfl
    simp [Text.isNumeral] at isNumeral
  decimal := by
    rw [Text.isNumeral, Bool.and_eq_true_iff, Bool.and_eq_true_iff] at isNumeral
    exact List.all_eq_true.mp isNumeral.1.2
  short := by
    rw [Text.isNumeral, Bool.and_eq_true_iff] at isNumeral
    exact of_decide_eq_true isNumeral.2

/-- The number that digits stand for, behind digits that stand for another one. -/
def digitsValue (value : Nat) (digits : Text) : Nat :=
  digits.foldl (fun value digit => 10 * value + (digitValue? digit).getD 0) value

def Numeral.value (numeral : Numeral) : Nat := digitsValue 0 numeral.digits

/-- Decimal digits are read to their end, with their number and their value. -/
theorem digits_decimal {text : Text} (decimal : ∀ digit ∈ text, isDecimal digit = true)
    (count value : Nat) :
    digits true count value text = some (count + text.length, digitsValue value text, []) := by
  induction text generalizing count value with
  | nil => rfl
  | cons digit rest inductionHypothesis =>
    obtain ⟨number, isNumber⟩ := Option.isSome_iff_exists.mp (decimal digit List.mem_cons_self)
    have further := inductionHypothesis (fun other member =>
      decimal other (List.mem_cons_of_mem _ member)) (count + 1) (10 * value + number)
    rw [digits, isNumber]
    simp only [further, List.length_cons, digitsValue, List.foldl_cons, isNumber, Option.getD_some]
    rw [Nat.add_right_comm, Nat.add_assoc]

/-- A decimal digit is one of ten characters in a row. -/
theorem exists_zeros {digit : Char} (decimal : isDecimal digit = true) :
    ∃ first ∈ zeros, ∃ value < 10, digit.toNat = first + value := by
  rw [isDecimal, digitValue?, Option.isSome_map, List.find?_isSome] at decimal
  obtain ⟨first, isZero, bounds⟩ := decimal
  simp only [Bool.and_eq_true, decide_eq_true_eq] at bounds
  exact ⟨first, isZero, digit.toNat - first, by omega, by omega⟩

theorem isNumeralSpace_decimal {digit : Char} (decimal : isDecimal digit = true) :
    isNumeralSpace digit = false := by
  have spaces : ∀ first ∈ zeros, ∀ value < 10, 48 ≤ first ∧
      within false spaceBoundaries (first + value) = false := by
    decide +kernel
  obtain ⟨first, isZero, value, small, code⟩ := exists_zeros decimal
  obtain ⟨large, outside⟩ := spaces first isZero value small
  have notBlank : digit ≠ ' ' := by
    rintro rfl
    exact absurd decimal (by decide)
  rw [isNumeralSpace]
  split
  · simp [notBlank]
    omega
  · rw [isSpace, inTable, code, outside]

/-- Reading a numeral gives its value. -/
theorem toInt_numeral (numeral : Numeral) : toInt numeral.digits = .ok numeral.value := by
  obtain ⟨_ | ⟨first, rest⟩, nonempty, decimal, short⟩ := numeral
  · exact absurd rfl nonempty
  · have isDigit := decimal first List.mem_cons_self
    have noSpace : (first :: rest).dropWhile isNumeralSpace = first :: rest := by
      simp [isNumeralSpace_decimal isDigit]
    have noSign : sign (first :: rest) = (false, first :: rest) := by
      unfold sign
      split
      · next equal => exact absurd isDigit (by rw [(List.cons.inj equal).1]; decide)
      · next equal => exact absurd isDigit (by rw [(List.cons.inj equal).1]; decide)
      · rfl
    obtain ⟨number, isNumber⟩ := Option.isSome_iff_exists.mp isDigit
    have read : digits false 0 0 (first :: rest) =
        some (rest.length + 1, digitsValue 0 (first :: rest), []) := by
      rw [digits, isNumber]
      simp only
      rw [digits_decimal fun digit member => decimal digit (List.mem_cons_of_mem _ member)]
      simp [digitsValue, isNumber, Nat.add_comm]
    simp only [toInt, noSpace, noSign, read]
    rw [if_neg (Nat.succ_ne_zero _), ← List.length_cons, if_neg (Nat.not_lt.mpr short)]
    rfl

end Text

namespace Command

open Text (Numeral)

theorem numberOf_numeral (numeral : Numeral) : numberOf numeral.digits = .ok numeral.value := by
  rw [numberOf, Text.toInt_numeral]

/-! ### Items -/

/-- A position counts from one. -/
abbrev Position := { numeral : Numeral // 1 ≤ numeral.value }

/-- An item of a list of ranges. -/
inductive Item
  | single (position : Position)
  | between (first : Position) (last : Numeral)
  | onward (first : Position)
  | upTo (last : Numeral)

namespace Item

def text : Item → Text
  | single position => position.val.digits
  | between first last => first.val.digits ++ '-' :: last.digits
  | onward first => first.val.digits ++ ['-']
  | upTo last => '-' :: last.digits

/-- Whether a position lies in an item. -/
def covers (position : Nat) : Item → Bool
  | single only => position = only.val.value
  | between first last => first.val.value ≤ position && position ≤ last.value
  | onward first => first.val.value ≤ position
  | upTo last => position ≤ last.value

end Item

/-- A list of ranges as it is written. -/
def Item.list (items : List Item) : Text := Text.join [','] (items.map Item.text)

/-! ### Spans -/

/-- A range from one position to another, or from one position onward. -/
structure Span where
  first : Numeral
  last : Option Numeral

namespace Span

/-- A span as a range. -/
def range (span : Span) : Range := ⟨span.first.digits, (span.last.map Numeral.digits).getD []⟩

/-- The parts that a span is read from. -/
def parts (span : Span) : List Text := [span.range.first, span.range.last]

def covers (position : Nat) (span : Span) : Bool :=
  span.first.value ≤ position && span.last.all fun last => position ≤ last.value

/-- One span ends before another one begins. -/
def Before (span other : Span) : Prop := ∃ last ∈ span.last, last.value < other.first.value

end Span

/-- The numeral of the first position. -/
def firstPosition : Numeral := .ofText ['1'] (by decide)

/-- The span that an item stands for. -/
def Item.span : Item → Span
  | single position => ⟨position.val, some position.val⟩
  | between first last => ⟨first.val, some last⟩
  | onward first => ⟨first.val, none⟩
  | upTo last => ⟨firstPosition, some last⟩

theorem Span.covers_iff (span : Span) (position : Nat) :
    span.covers position = true ↔
      span.first.value ≤ position ∧ ∀ last ∈ span.last, position ≤ last.value := by
  obtain ⟨first, last⟩ := span
  cases last <;> simp [covers]

theorem firstPosition_value : firstPosition.value = 1 := rfl

theorem Item.one_le_span (item : Item) : 1 ≤ item.span.first.value := by
  cases item with
  | single position => exact position.property
  | between first last => exact first.property
  | onward first => exact first.property
  | upTo last => exact Nat.le_of_eq firstPosition_value.symm

theorem Item.covers_span (item : Item) {position : Nat} (positive : 1 ≤ position) :
    item.span.covers position = item.covers position := by
  rw [Bool.eq_iff_iff, Span.covers_iff]
  cases item with
  | single only =>
    simp [Item.span, Item.covers]
    omega
  | between first last => simp [Item.span, Item.covers]
  | onward first => simp [Item.span, Item.covers]
  | upTo last => simp [Item.span, Item.covers, firstPosition_value, positive]

/-! ### Reading a list of ranges -/

theorem numeral_unmarked (numeral : Numeral) {mark : Char} (noDigit : Text.isDecimal mark = false) :
    ∀ character ∈ numeral.digits, decide (character = mark) = false := by
  intro character member
  refine decide_eq_false ?_
  rintro rfl
  exact absurd (numeral.decimal _ member) (by rw [noDigit]; decide)

theorem Item.text_unmarked (item : Item) :
    ∀ character ∈ item.text, decide (character = ',') = false := by
  have plain (numeral : Numeral) :
      ∀ character ∈ numeral.digits, decide (character = ',') = false :=
    numeral_unmarked numeral (by decide)
  have dash : decide ('-' = ',') = false := by decide
  cases item with
  | single position => exact plain position.val
  | between first last =>
    exact List.forall_mem_append.mpr ⟨plain first.val, List.forall_mem_cons.mpr ⟨dash, plain last⟩⟩
  | onward first =>
    exact List.forall_mem_append.mpr ⟨plain first.val, List.forall_mem_singleton.mpr dash⟩
  | upTo last => exact List.forall_mem_cons.mpr ⟨dash, plain last⟩

/-- An item of a list is read as the two ends of its span. -/
theorem rangeParts_item (item : Item) : rangeParts item.text = item.span.parts := by
  let isDash (character : Char) : Bool := character = '-'
  have whole (numeral : Numeral) : Text.splitAt isDash numeral.digits = [numeral.digits] :=
    Text.splitAt_unmarked (numeral_unmarked numeral (by decide))
  have halves (text rest : Text) :
      Text.splitAt isDash (text ++ '-' :: rest) =
        Text.splitAt isDash text ++ Text.splitAt isDash rest :=
    Text.splitAt_append_mark rfl text rest
  cases item with
  | single position =>
    rw [Item.text, rangeParts, whole]
    rfl
  | between first last =>
    obtain ⟨digit, rest, digits⟩ := List.exists_cons_of_ne_nil first.val.nonempty
    rw [Item.text, rangeParts, halves, whole, whole, digits]
    simp [Item.span, Span.parts, Span.range, digits]
  | onward first =>
    obtain ⟨digit, rest, digits⟩ := List.exists_cons_of_ne_nil first.val.nonempty
    rw [Item.text, rangeParts, halves, whole, digits]
    simp [Item.span, Span.parts, Span.range, digits, Text.splitAt]
  | upTo last =>
    rw [Item.text, rangeParts, ← List.nil_append ('-' :: last.digits), halves, whole]
    rfl

/-- The items of a list, cut apart and read. -/
theorem splitAt_list {items : List Item} (some : items ≠ []) :
    (Text.splitAt (fun character => character = ',') (Item.list items)).map rangeParts =
      (items.map Item.span).map Span.parts := by
  rw [Item.list, Text.splitAt_join rfl (by simpa using some), List.map_map, List.map_map]
  · exact List.map_congr_left fun item _ => rangeParts_item item
  · intro text member
    obtain ⟨item, _, rfl⟩ := List.mem_map.mp member
    exact item.text_unmarked

theorem withBeginnings_parts (spans : List Span) :
    withBeginnings (spans.map Span.parts) =
      .ok (spans.map fun span => ((span.first.value : Int), span.parts)) := by
  induction spans with
  | nil => rfl
  | cons span rest inductionHypothesis =>
    rw [withBeginnings] at inductionHypothesis ⊢
    have beginning : numberOf (span.parts.headD []) = .ok span.first.value :=
      numberOf_numeral span.first
    rw [List.map_cons, List.mapM_cons, inductionHypothesis, beginning]
    rfl

/-- Spans in the order of their beginnings. -/
def inOrder (spans : List Span) : List Span :=
  spans.mergeSort fun span other => span.first.value ≤ other.first.value

theorem inOrder_pairwise (spans : List Span) :
    (inOrder spans).Pairwise fun span other => span.first.value ≤ other.first.value := by
  have sorted := @List.pairwise_mergeSort _
    (fun span other : Span => span.first.value ≤ other.first.value)
    (by simp; omega) (by simp; omega) spans
  simpa [inOrder] using sorted

theorem mergeSort_beginnings (spans : List Span) :
    ((spans.map fun span => ((span.first.value : Int), span.parts)).mergeSort
      fun first second => first.1 ≤ second.1).map Prod.snd = (inOrder spans).map Span.parts := by
  rw [inOrder, ← List.map_mergeSort (r := fun span other => span.first.value ≤ other.first.value)
    (by simp), List.map_map]
  rfl

/-! ### Joining -/

/-- Spans that are apart and show what other spans show. -/
structure Unites (spans result : List Span) : Prop where
  nonempty : result ≠ []
  apart : result.Pairwise Span.Before
  begins : ∀ span ∈ result, ∃ other ∈ spans, other.first = span.first
  covers : ∀ position, (∃ span ∈ result, span.covers position = true) ↔
    ∃ span ∈ spans, span.covers position = true

namespace Unites

variable {current span : Span} {rest result : List Span} {last : Numeral}

theorem single (span : Span) : Unites [span] [span] :=
  ⟨List.cons_ne_nil _ _, List.pairwise_singleton _ _, fun span member => ⟨span, member, rfl⟩,
    fun _ => Iff.rfl⟩

/-- Nothing is added by what lies behind the beginning of a span without an end. -/
theorem onward (isOpen : span.last = none)
    (behind : ∀ other ∈ rest, span.first.value ≤ other.first.value) :
    Unites (span :: rest) [span] := by
  refine ⟨List.cons_ne_nil _ _, List.pairwise_singleton _ _, ?_, fun position => ?_⟩
  · simp
  · simp only [List.exists_mem_cons_iff, List.not_mem_nil, false_and, exists_false, or_false]
    refine ⟨Or.inl, fun covered => covered.elim id fun ⟨other, member, covers⟩ => ?_⟩
    have begun := behind other member
    rw [Span.covers_iff] at covers ⊢
    exact ⟨by omega, by simp [isOpen]⟩

/-- Where a span begins inside the one at hand, the two can be exchanged for one that shows what
they show. -/
theorem exchange {joined : Span} (unites : Unites (joined :: rest) result)
    (begins : joined.first = current.first)
    (covers : ∀ position, joined.covers position = true ↔
      current.covers position = true ∨ span.covers position = true) :
    Unites (current :: span :: rest) result := by
  refine ⟨unites.nonempty, unites.apart, fun other member => ?_, fun position => ?_⟩
  · obtain ⟨first, isFirst, same⟩ := unites.begins other member
    rcases List.mem_cons.mp isFirst with rfl | inRest
    · exact ⟨current, by simp, begins ▸ same⟩
    · exact ⟨first, by simp [inRest], same⟩
  · rw [unites.covers]
    simp only [List.exists_mem_cons_iff, covers, or_assoc]

/-- A span that begins behind the one at hand leaves it as it is. -/
theorem cons (closed : current.last = some last)
    (behind : ∀ other ∈ span :: rest, last.value < other.first.value)
    (unites : Unites (span :: rest) result) :
    Unites (current :: span :: rest) (current :: result) := by
  refine ⟨List.cons_ne_nil _ _, List.pairwise_cons.mpr ⟨fun other member => ?_, unites.apart⟩,
    fun other member => ?_, fun position => ?_⟩
  · obtain ⟨first, isFirst, same⟩ := unites.begins other member
    exact ⟨last, closed, same ▸ behind first isFirst⟩
  · rcases List.mem_cons.mp member with rfl | inResult
    · exact ⟨other, by simp, rfl⟩
    · obtain ⟨first, isFirst, same⟩ := unites.begins other inResult
      exact ⟨first, List.mem_cons_of_mem _ isFirst, same⟩
  · rw [List.exists_mem_cons_iff, unites.covers]
    simp only [List.exists_mem_cons_iff]

theorem of_perm {spans others : List Span} (unites : Unites spans result)
    (perm : spans.Perm others) : Unites others result := by
  refine ⟨unites.nonempty, unites.apart, ?_, ?_⟩
  · simpa only [perm.mem_iff] using unites.begins
  · simpa only [perm.mem_iff] using unites.covers

end Unites

section Steps

variable (joined : List Range) {current span : Span} {last : Numeral}
  (closed : current.last = some last) (rest : List Span)
include closed

theorem numberOf_last : numberOf current.range.last = .ok last.value := by
  rw [Span.range, closed]
  exact numberOf_numeral last

/-- What becomes of the range at hand if the next span has no end. -/
theorem joinRanges_onward (isOpen : span.last = none) :
    joinRanges joined current.range ((span :: rest).map Span.parts) =
      if span.first.value ≤ last.value then
        .ok (.opened (joined ++ [Span.range ⟨current.first, none⟩]))
      else .ok (.closed (joined ++ [current.range]) span.range) := by
  have beginning : numberOf (span.parts.headD []) = .ok span.first.value :=
    numberOf_numeral span.first
  have noEnd : (span.parts.drop 1).headD [] = [] := by simp [Span.parts, Span.range, isOpen]
  rw [List.map_cons, joinRanges, beginning, numberOf_last closed]
  simp only [bind, Except.bind, if_pos noEnd, Int.ofNat_le]
  rfl

/-- What becomes of the range at hand if the next span has an end. -/
theorem joinRanges_ended {ending : Numeral} (ends : span.last = some ending) :
    joinRanges joined current.range ((span :: rest).map Span.parts) =
      if span.first.value ≤ last.value then
        if last.value < ending.value then
          joinRanges joined (Span.range ⟨current.first, ending⟩) (rest.map Span.parts)
        else joinRanges joined current.range (rest.map Span.parts)
      else joinRanges (joined ++ [current.range]) span.range (rest.map Span.parts) := by
  have beginning : numberOf (span.parts.headD []) = .ok span.first.value :=
    numberOf_numeral span.first
  have isEnd : (span.parts.drop 1).headD [] = ending.digits := by
    simp [Span.parts, Span.range, ends]
  rw [List.map_cons, joinRanges, beginning, numberOf_last closed]
  simp only [bind, Except.bind, isEnd, if_neg ending.nonempty, numberOf_numeral, Int.ofNat_le,
    gt_iff_lt, Int.ofNat_lt]
  rfl

end Steps

/-- All ranges that have been joined. -/
def Joining.ranges : Joining → List Range
  | closed joined current => joined ++ [current]
  | opened joined => joined

/-- Joining spans in the order of their beginnings unites them. -/
theorem joinRanges_unites (joined : List Range) {current : Span} {last : Numeral}
    (closed : current.last = some last) (spans : List Span)
    (sorted : (current :: spans).Pairwise fun span other => span.first.value ≤ other.first.value) :
    ∃ joining result, joinRanges joined current.range (spans.map Span.parts) = .ok joining ∧
      joining.ranges = joined ++ result.map Span.range ∧ Unites (current :: spans) result := by
  induction spans generalizing joined current last with
  | nil => exact ⟨.closed joined current.range, [current], rfl, rfl, .single current⟩
  | cons span rest inductionHypothesis =>
    obtain ⟨fromCurrent, sortedRest⟩ := List.pairwise_cons.mp sorted
    have fromSpan := (List.pairwise_cons.mp sortedRest).1
    -- The range at hand may become longer, but it keeps its beginning.
    have sortedFrom (range : Span) (begins : range.first = current.first) :
        (range :: rest).Pairwise fun span other => span.first.value ≤ other.first.value :=
      List.pairwise_cons.mpr ⟨fun other member =>
        begins ▸ fromCurrent other (List.mem_cons_of_mem _ member), sortedRest.of_cons⟩
    have after := fromCurrent span List.mem_cons_self
    by_cases inside : span.first.value ≤ last.value
    · cases ends : span.last with
      | none =>
        rw [joinRanges_onward joined closed rest ends, if_pos inside]
        let range : Span := ⟨current.first, none⟩
        have unites : Unites (range :: rest) [range] :=
          .onward rfl (List.pairwise_cons.mp (sortedFrom range rfl)).1
        refine ⟨_, [range], rfl, rfl, unites.exchange rfl fun position => ?_⟩
        simp only [Span.covers_iff, closed, ends, range]
        simp
        omega
      | some ending =>
        rw [joinRanges_ended joined closed rest ends, if_pos inside]
        by_cases longer : last.value < ending.value
        · rw [if_pos longer]
          let range : Span := ⟨current.first, ending⟩
          obtain ⟨joining, result, ran, all, unites⟩ :=
            @inductionHypothesis joined range ending rfl (sortedFrom range rfl)
          refine ⟨joining, result, ran, all, unites.exchange rfl fun position => ?_⟩
          simp only [Span.covers_iff, closed, ends, range]
          simp
          omega
        · rw [if_neg longer]
          obtain ⟨joining, result, ran, all, unites⟩ :=
            inductionHypothesis joined closed (sortedFrom current rfl)
          refine ⟨joining, result, ran, all, unites.exchange rfl fun position => ?_⟩
          simp only [Span.covers_iff, closed, ends]
          simp
          omega
    · have behind : ∀ other ∈ span :: rest, last.value < other.first.value := by
        intro other member
        rcases List.mem_cons.mp member with rfl | inRest
        · omega
        · have := fromSpan other inRest
          omega
      cases ends : span.last with
      | none =>
        rw [joinRanges_onward joined closed rest ends, if_neg inside]
        exact ⟨_, [current, span], rfl, by simp [Joining.ranges],
          .cons closed behind (.onward ends fromSpan)⟩
      | some ending =>
        rw [joinRanges_ended joined closed rest ends, if_neg inside]
        obtain ⟨joining, result, ran, all, unites⟩ :=
          inductionHypothesis (joined ++ [current.range]) ends sortedRest
        exact ⟨joining, current :: result, ran, by simp [all], unites.cons closed behind⟩

/-- The numeral of the position before the first. -/
def noPosition : Numeral := .ofText ['0'] (by decide)

/-- The range at hand before the first item is empty, and is the first one to be joined. -/
theorem joinRanges_first {spans : List Span} (nonempty : spans ≠ [])
    (positive : ∀ span ∈ spans, 1 ≤ span.first.value)
    (sorted : spans.Pairwise fun span other => span.first.value ≤ other.first.value) :
    ∃ joining result, joinRanges [] ⟨['0'], ['0']⟩ (spans.map Span.parts) = .ok joining ∧
      joining.ranges = ⟨['0'], ['0']⟩ :: result.map Span.range ∧ Unites spans result := by
  obtain ⟨span, rest, rfl⟩ := List.exists_cons_of_ne_nil nonempty
  let before : Span := ⟨noPosition, some noPosition⟩
  have behind : ¬ span.first.value ≤ noPosition.value :=
    Nat.not_le.mpr (positive span List.mem_cons_self)
  show ∃ joining result,
    joinRanges [] before.range ((span :: rest).map Span.parts) = .ok joining ∧ _
  cases ends : span.last with
  | none =>
    rw [joinRanges_onward [] rfl rest ends, if_neg behind]
    exact ⟨_, [span], rfl, rfl, .onward ends (List.pairwise_cons.mp sorted).1⟩
  | some ending =>
    rw [joinRanges_ended [] rfl rest ends, if_neg behind]
    exact joinRanges_unites [before.range] ends rest sorted

/-- A list of ranges stands for a row of spans that are apart. -/
theorem ranges_unites {items : List Item} (nonempty : items ≠ []) :
    ∃ result, ranges (Item.list items) = .ok (result.map Span.range) ∧
      Unites (items.map Item.span) result := by
  let spans := items.map Item.span
  have perm : (inOrder spans).Perm spans := List.mergeSort_perm _ _
  have sortedNonempty : inOrder spans ≠ [] := by
    intro none
    rw [none] at perm
    exact nonempty (by simpa [spans] using perm.symm.eq_nil)
  have positive : ∀ span ∈ inOrder spans, 1 ≤ span.first.value := by
    intro span member
    obtain ⟨item, _, rfl⟩ := List.mem_map.mp (perm.mem_iff.mp member)
    exact item.one_le_span
  obtain ⟨joining, result, ran, all, unites⟩ :=
    joinRanges_first sortedNonempty positive (inOrder_pairwise spans)
  refine ⟨result, ?_, unites.of_perm perm⟩
  rw [ranges, splitAt_list nonempty]
  simp only [withBeginnings_parts, bind, Except.bind, mergeSort_beginnings]
  rw [show joinRanges [] ⟨['0'], ['0']⟩ ((inOrder (items.map Item.span)).map Span.parts) = _
    from ran]
  cases joining with
  | opened joined =>
    rw [show joined = _ from all]
    rfl
  | closed joined current =>
    have some : joined ≠ [] := by
      rintro rfl
      exact unites.nonempty (by simpa using (List.cons.inj all).2.symm)
    simp only [if_neg some]
    rw [show joined ++ [current] = _ from all]
    rfl

/-! ### Cutting spans out of a line -/

/-- The characters of a line whose positions are chosen. The first one has the position `start`. -/
def chosen (start : Nat) (choose : Nat → Bool) (line : Text) : Text :=
  ((line.zipIdx start).filter fun entry => choose entry.2).map Prod.fst

theorem chosen_cons (start : Nat) (choose : Nat → Bool) (character : Char) (rest : Text) :
    chosen start choose (character :: rest) =
      if choose start then character :: chosen (start + 1) choose rest
      else chosen (start + 1) choose rest := by
  rw [chosen, List.zipIdx_cons, List.filter_cons]
  split <;> rfl

theorem chosen_congr {start : Nat} {choose other : Nat → Bool} {line : Text}
    (same : ∀ position, start ≤ position → position < start + line.length →
      choose position = other position) :
    chosen start choose line = chosen start other line := by
  induction line generalizing start with
  | nil => rfl
  | cons character rest inductionHypothesis =>
    rw [List.length_cons] at same
    rw [chosen_cons, chosen_cons, same start (Nat.le_refl _) (by omega),
      inductionHypothesis fun position later earlier => same position (by omega) (by omega)]

theorem chosen_none (start : Nat) (line : Text) : chosen start (fun _ => false) line = [] := by
  simp [chosen]

/-- The characters up to one position and those behind it can be chosen one after the other. -/
theorem chosen_append {choose other : Nat → Bool} {last : Nat}
    (before : ∀ position, choose position = true → position ≤ last)
    (behind : ∀ position, other position = true → last < position) (start : Nat) (line : Text) :
    chosen start choose line ++ chosen start other line =
      chosen start (fun position => choose position || other position) line := by
  have noneBehind : ∀ position, last < position → choose position = false := fun position later =>
    Bool.eq_false_iff.mpr fun chosen => Nat.not_lt.mpr (before position chosen) later
  induction line generalizing start with
  | nil => rfl
  | cons character rest inductionHypothesis =>
    by_cases early : start ≤ last
    · have notOther : other start = false :=
        Bool.eq_false_iff.mpr fun chosen => Nat.not_lt.mpr early (behind start chosen)
      simp only [chosen_cons, notOther, Bool.or_false, ← inductionHypothesis]
      split <;> rfl
    · have nothing : chosen start choose (character :: rest) = [] := by
        rw [← chosen_none start (character :: rest)]
        exact chosen_congr fun position later _ => noneBehind position (by omega)
      rw [nothing, List.nil_append]
      refine chosen_congr fun position later _ => ?_
      rw [noneBehind position (by omega), Bool.false_or]

/-- Choosing the positions between two bounds cuts a piece out of the line. -/
theorem chosen_between (first last start : Nat) (line : Text) :
    chosen start (fun position => first ≤ position && position ≤ last) line =
      (line.take (last + 1 - start)).drop (first - start) := by
  induction line generalizing start with
  | nil => simp [chosen]
  | cons character rest inductionHypothesis =>
    rw [chosen_cons, inductionHypothesis]
    by_cases late : last < start
    · have none : last + 1 - start = 0 := by omega
      have still : last + 1 - (start + 1) = 0 := by omega
      simp [none, still, Nat.not_le.mpr late]
    · have more : last + 1 - start = last + 1 - (start + 1) + 1 := by omega
      rw [more, List.take_succ_cons]
      by_cases early : start < first
      · have further : first - start = first - (start + 1) + 1 := by omega
        rw [further, List.drop_succ_cons, if_neg (by simp; omega)]
      · have here : first - start = 0 := by omega
        have there : first - (start + 1) = 0 := by omega
        rw [here, there, if_pos (by simp; omega)]
        rfl

theorem offsetIn_natCast (line : Text) (position : Nat) : offsetIn line position = position := by
  rw [offsetIn, if_neg (by omega), Int.toNat_natCast]

theorem offsetIn_before (line : Text) {position : Nat} (positive : 1 ≤ position) :
    offsetIn line ((position : Int) - 1) = position - 1 := by
  rw [← offsetIn_natCast line (position - 1), Int.ofNat_sub positive]
  rfl

/-- Cutting out a span chooses the characters whose positions lie in it. -/
theorem slice_range {span : Span} (positive : 1 ≤ span.first.value) (line : Text) :
    slice line span.range = .ok (chosen 1 (fun position => span.covers position) line) := by
  obtain ⟨first, last⟩ := span
  cases last with
  | none =>
    have whole : slice line (Span.range ⟨first, none⟩) =
        .ok ((line.take (line.length + 1 - 1)).drop (first.value - 1)) := by
      simp only [slice, Span.range, if_neg first.nonempty, numberOf_numeral, bind, Except.bind]
      simp [offsetIn_before line positive, offsetIn_natCast, pure, Except.pure]
    rw [whole, ← chosen_between]
    -- The line has no positions behind its end.
    refine congrArg Except.ok (chosen_congr fun position _ within => ?_)
    simp [Span.covers]
    omega
  | some ending =>
    have part : slice line (Span.range ⟨first, some ending⟩) =
        .ok ((line.take (ending.value + 1 - 1)).drop (first.value - 1)) := by
      simp only [slice, Span.range, if_neg first.nonempty, numberOf_numeral, bind, Except.bind]
      simp [ending.nonempty, numberOf_numeral, offsetIn_before line positive, offsetIn_natCast,
        pure, Except.pure]
    rw [part, ← chosen_between]
    rfl

/-- Spans that are apart choose, one after the other, all that they choose together. -/
theorem flatten_chosen {spans : List Span} (apart : spans.Pairwise Span.Before) (line : Text) :
    (spans.map fun span => chosen 1 (fun position => span.covers position) line).flatten =
      chosen 1 (fun position => spans.any (Span.covers position)) line := by
  induction spans with
  | nil => exact (chosen_none 1 line).symm
  | cons span rest inductionHypothesis =>
    obtain ⟨before, apartRest⟩ := List.pairwise_cons.mp apart
    rw [List.map_cons, List.flatten_cons, inductionHypothesis apartRest]
    cases ends : span.last with
    | none =>
      -- Nothing comes behind a span without an end.
      have nothing : rest = [] := List.eq_nil_iff_forall_not_mem.mpr fun other member => by
        obtain ⟨last, isLast, _⟩ := before other member
        exact absurd (ends ▸ isLast) (by simp)
      simp [nothing, chosen_none]
    | some last =>
      refine @chosen_append _ _ last.value (fun position covered => ?_) (fun position covered => ?_)
        1 line
      · exact ((span.covers_iff position).mp covered).2 last ends
      · obtain ⟨other, member, inOther⟩ := List.any_eq_true.mp covered
        obtain ⟨own, isOwn, earlier⟩ := before other member
        obtain rfl : own = last := Option.some.inj (isOwn.symm.trans ends)
        exact Nat.lt_of_lt_of_le earlier ((other.covers_iff position).mp inOther).1

theorem mapM_slice {spans : List Span} (positive : ∀ span ∈ spans, 1 ≤ span.first.value)
    (line : Text) :
    (spans.map Span.range).mapM (slice line) =
      .ok (spans.map fun span => chosen 1 (fun position => span.covers position) line) := by
  induction spans with
  | nil => rfl
  | cons span rest inductionHypothesis =>
    obtain ⟨first, others⟩ := List.forall_mem_cons.mp positive
    rw [List.map_cons, List.mapM_cons, slice_range first, inductionHypothesis others]
    rfl

/-- A list of ranges shows exactly the characters that it names. Whatever the order of the items is,
and however they overlap, the ranges that the list stands for can be cut out of every line, and
together they are the characters of the line whose positions lie in an item, each once and in
order. -/
theorem ranges_show (items : List Item) (nonempty : items ≠ []) :
    ∃ joined, ranges (Item.list items) = .ok joined ∧ ∀ line : Text,
      List.flatten <$> joined.mapM (slice line) =
        .ok (((line.zipIdx 1).filter fun entry =>
          items.any (Item.covers entry.2)).map Prod.fst) := by
  obtain ⟨result, read, unites⟩ := ranges_unites nonempty
  refine ⟨_, read, fun line => ?_⟩
  have positive : ∀ span ∈ result, 1 ≤ span.first.value := by
    intro span member
    obtain ⟨other, isOther, same⟩ := unites.begins span member
    obtain ⟨item, _, rfl⟩ := List.mem_map.mp isOther
    exact same ▸ item.one_le_span
  have covered : ∀ position, 1 ≤ position → position < 1 + line.length →
      result.any (Span.covers position) = items.any (Item.covers position) := by
    intro position positive _
    rw [Bool.eq_iff_iff, List.any_eq_true, List.any_eq_true, unites.covers]
    simp [Item.covers_span _ positive]
  rw [mapM_slice positive]
  show Except.ok _ = _
  rw [flatten_chosen unites.apart, chosen_congr covered]
  rfl

/-- Items out of order: one without an end, two that overlap, an empty one and one that repeats a
part of another. -/
def mixedItems : List Item :=
  let numeral (digit : Char) (isNumeral : Text.isNumeral [digit] = true) : Numeral :=
    .ofText [digit] isNumeral
  [.onward ⟨numeral '7' rfl, by decide⟩, .upTo (numeral '2' rfl),
    .between ⟨numeral '4' rfl, by decide⟩ (numeral '5' rfl),
    .between ⟨numeral '5' rfl, by decide⟩ (numeral '6' rfl),
    .between ⟨numeral '3' rfl, by decide⟩ (numeral '1' rfl), .single ⟨numeral '2' rfl, by decide⟩]

theorem ranges_show_mixed :
    mixedItems ≠ [] ∧ Item.list mixedItems = "7-,-2,4-5,5-6,3-1,2".toList ∧
      ∃ joined, ranges "7-,-2,4-5,5-6,3-1,2".toList = .ok joined ∧
        List.flatten <$> joined.mapM (slice "abcdefgh".toList) = .ok "abdefgh".toList := by
  have nonempty : mixedItems ≠ [] := List.cons_ne_nil _ _
  have written : Item.list mixedItems = "7-,-2,4-5,5-6,3-1,2".toList := by decide
  obtain ⟨joined, read, shown⟩ := ranges_show mixedItems nonempty
  refine ⟨nonempty, written, joined, written ▸ read, ?_⟩
  rw [shown]
  decide

end Command

end MiniShell
