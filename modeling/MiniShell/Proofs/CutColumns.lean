/-
This file says which characters of a line are cut out by their positions. White
space at both ends of a line is dropped before the positions are counted, and
not only the line feed. So the positions are those of the line itself exactly
where no line begins or ends with white space; a line that is indented is cut
too far to the right.

What ranges show of a line is known for lines whose ends have been dropped. It
is carried over to lines as they are, and the condition under which this can be
done is shown to be exact.
-/

import Mathlib.Data.List.DropRight
import MiniShell.Proofs.LineContents
import MiniShell.Proofs.RangeUnion

namespace MiniShell

open MiniShell.Action

/-! ### White space at the ends -/

namespace Text

section Trim

variable {isDropped : Char → Bool}

theorem dropEnd_concat_kept {last : Char} (kept : isDropped last = false) (text : Text) :
    dropEnd isDropped (text ++ [last]) = text ++ [last] := by
  induction text with
  | nil => simp [dropEnd, kept]
  | cons character rest inductionHypothesis =>
    rw [List.cons_append, dropEnd, inductionHypothesis]
    cases rest <;> rfl

theorem dropEnd_eq_rdropWhile (isDropped : Char → Bool) (text : Text) :
    dropEnd isDropped text = text.rdropWhile isDropped := by
  induction text using List.reverseRecOn with
  | nil => rfl
  | append_singleton text last inductionHypothesis =>
    cases kind : isDropped last with
    | true => rw [dropEnd_concat kind, List.rdropWhile_concat_pos _ _ _ kind, inductionHypothesis]
    | false => rw [dropEnd_concat_kept kind, List.rdropWhile_concat_neg _ _ _ (by simp [kind])]

/-- Nothing is dropped from a text that begins and ends with characters that are kept. -/
theorem trim_eq_self_iff {text : Text} :
    trim isDropped text = text ↔
      (∀ first ∈ text.head?, isDropped first = false) ∧
        ∀ last ∈ text.getLast?, isDropped last = false := by
  have begins : text.dropWhile isDropped = text ↔
      ∀ first ∈ text.head?, isDropped first = false := by
    cases text <;> simp [List.dropWhile_eq_self_iff]
  have ends : text.rdropWhile isDropped = text ↔
      ∀ last ∈ text.getLast?, isDropped last = false := by
    rcases List.eq_nil_or_concat' text with rfl | ⟨front, last, rfl⟩ <;>
      simp [List.rdropWhile_eq_self_iff]
  rw [trim, dropEnd_eq_rdropWhile, ← begins, ← ends]
  constructor
  · intro same
    have isPrefix : (text.dropWhile isDropped).rdropWhile isDropped <+: text.dropWhile isDropped :=
      List.rdropWhile_prefix isDropped _
    rw [same] at isPrefix
    have whole := (List.dropWhile_suffix isDropped).eq_of_length_le isPrefix.length_le
    rw [whole] at same
    exact ⟨whole, same⟩
  · rintro ⟨whole, same⟩
    rw [whole, same]

end Trim

/-- The line feed of a line is dropped with other white space. -/
theorem strip_eq_strip_content {text line : Text} (member : line ∈ lines text) :
    strip line = strip line.content := by
  rcases (eq_content_of_mem_lines member).2 with isLine | isOpen
  · calc strip line = strip line.content.terminated := congrArg strip isLine
      _ = strip line.content := trim_concat (by decide) _
  · exact congrArg strip isOpen

end Text

/-! ### Cutting lines -/

namespace Command

/-- The characters of a line whose positions lie in an item, in order. -/
def Item.select (items : List Item) (line : Text) : Text :=
  chosen 1 (fun position => items.any (Item.covers position)) line

section Unites

variable {items : List Item} {result : List Span}

theorem Unites.one_le (unites : Unites (items.map Item.span) result) :
    ∀ span ∈ result, 1 ≤ span.first.value := by
  intro span member
  obtain ⟨other, isOther, same⟩ := unites.begins span member
  obtain ⟨item, _, rfl⟩ := List.mem_map.mp isOther
  exact same ▸ item.one_le_span

theorem Unites.select_eq (unites : Unites (items.map Item.span) result) (line : Text) :
    chosen 1 (fun position => result.any (Span.covers position)) line =
      Item.select items line := by
  refine chosen_congr fun position positive _ => ?_
  rw [Bool.eq_iff_iff, List.any_eq_true, List.any_eq_true, unites.covers]
  simp [Item.covers_span _ positive]

/-- Positions count from the first character of a line that is not white space. -/
theorem cutLine_unites (unites : Unites (items.map Item.span) result) (line : Text) :
    cutLine (result.map Span.range) line =
      .ok (Item.select items (Text.strip line)).terminated := by
  rw [cutLine, mapM_slice unites.one_le, ← unites.select_eq, ← flatten_chosen unites.apart]
  rfl

end Unites

/-- Cutting line after line adds what is cut out of each. -/
theorem start_forM_cutLine {ranges : List Range} {cutOut : Text → Text}
    (cuts : ∀ line, cutLine ranges line = .ok (cutOut line)) (lines : List Text)
    (session : Session) :
    (lines.forM fun line => do emit [← orThrow (cutLine ranges line)]).start session =
      (.ok ⟨⟩, { session with out := session.out ++ lines.map cutOut }) := by
  induction lines generalizing session with
  | nil => simp
  | cons line rest inductionHypothesis =>
    have first : (do emit [← orThrow (cutLine ranges line)] : Action Unit).start session =
        (.ok ⟨⟩, { session with out := session.out ++ [cutOut line] }) := by
      rw [cuts]
      rfl
    rw [List.forM_eq_forM, List.forM_cons, start_bind_ok first, ← List.forM_eq_forM,
      inductionHypothesis]
    simp

theorem start_cut {items : List Item} (nonempty : items ≠ []) {session : Session}
    {file text : Text} (shown : session.Shows file text) :
    (cut ["-b".toList, Item.list items, file]).start session =
      (.ok ⟨⟩, { session with
        out := session.out ++ (Text.lines (Text.unifyNewlines text)).map fun line =>
          (Item.select items (Text.strip line)).terminated }) := by
  obtain ⟨trail, holds⟩ := shown.holds
  obtain ⟨result, read, unites⟩ := ranges_unites nonempty
  have reads : cut ["-b".toList, Item.list items, file] = (do
      let lines ← fileLines file
      let ranges ← orThrow (ranges (Item.list items))
      lines.forM fun line => do emit [← orThrow (cutLine ranges line)]) := by
    simp [cut]
  rw [reads, start_bind_ok (start_fileLines holds.readLines), read]
  exact start_forM_cutLine (cutLine_unites unites) _ session

/-- The item that every position lies in. -/
def wholeLine : Item := .onward ⟨firstPosition, Nat.le_of_eq firstPosition_value.symm⟩

theorem select_wholeLine (line : Text) : Item.select [wholeLine] line = line := by
  have all : Item.select [wholeLine] line =
      chosen 1 (fun position => 1 ≤ position && position ≤ line.length) line := by
    refine chosen_congr fun position positive within => ?_
    have inside : position ≤ line.length := by omega
    simp [wholeLine, Item.covers, firstPosition_value, positive, inside]
  rw [all, chosen_between]
  simp

/-- Cutting a file by positions passes on a line for each of its lines: the characters at these
positions, counted without the white space at both ends of the line. They are the characters at
these positions of the line itself, whatever the positions are, exactly where no line of the file
begins or ends with white space, its line feed aside. -/
theorem cut_columns_iff {session : Session} {file text : Text}
    (shown : session.Shows file text) :
    let lines := Text.lines (Text.unifyNewlines text)
    (∀ items, items ≠ [] → (cut ["-b".toList, Item.list items, file]).start session =
        (.ok ⟨⟩, { session with out := session.out ++ lines.map fun line =>
          (Item.select items (Text.strip line)).terminated })) ∧
      ((∀ items, items ≠ [] → (cut ["-b".toList, Item.list items, file]).start session =
          (.ok ⟨⟩, { session with out := session.out ++ lines.map fun line =>
            (Item.select items line.content).terminated })) ↔
        ∀ line ∈ lines, (∀ first ∈ line.content.head?, Text.isSpace first = false) ∧
          ∀ last ∈ line.content.getLast?, Text.isSpace last = false) := by
  intro lines
  have cuts (items : List Item) (nonempty : items ≠ []) := start_cut nonempty shown
  have stripped (line : Text) (member : line ∈ lines) : Text.strip line = line.content ↔
      (∀ first ∈ line.content.head?, Text.isSpace first = false) ∧
        ∀ last ∈ line.content.getLast?, Text.isSpace last = false := by
    rw [Text.strip_eq_strip_content member]
    exact Text.trim_eq_self_iff
  refine ⟨cuts, ?_, ?_⟩
  · -- Cutting out the whole line shows what has been dropped.
    intro counts line member
    have same := (cuts [wholeLine] (List.cons_ne_nil _ _)).symm.trans
      (counts [wholeLine] (List.cons_ne_nil _ _))
    have outs := List.append_cancel_left (congrArg (fun ended => ended.2.out) same)
    have atLine := List.append_cancel_right (List.map_inj_left.mp outs line member)
    rw [select_wholeLine, select_wholeLine] at atLine
    exact (stripped line member).mp atLine
  · intro plain items nonempty
    rw [cuts items nonempty]
    have same : lines.map (fun line => (Item.select items (Text.strip line)).terminated) =
        lines.map fun line => (Item.select items line.content).terminated :=
      List.map_congr_left fun line member => by
        rw [(stripped line member).mpr (plain line member)]
    rw [same]

/-- White space inside of a line is counted. -/
theorem cut_columns_iff_inside :
    let session := textFile "ab c\n\nd".toList
    (cut ["-b".toList, "7-,-2,4-5,5-6,3-1,2".toList, "f".toList]).start session =
      (.ok ⟨⟩, { session with out := ["abc\n".toList, "\n".toList, "d\n".toList] }) := by
  intro session
  have shown : session.Shows "f".toList "ab c\n\nd".toList := ⟨_, textFile_leads _, rfl⟩
  have written : Item.list mixedItems = "7-,-2,4-5,5-6,3-1,2".toList := by decide
  have kept : ∀ line ∈ Text.lines (Text.unifyNewlines "ab c\n\nd".toList),
      Text.strip line.content = line.content := by
    decide
  have counted := (cut_columns_iff shown).2.mpr
    (fun line member => Text.trim_eq_self_iff.mp (kept line member)) mixedItems
    (List.cons_ne_nil _ _)
  rw [written] at counted
  exact counted

/-- The item that only the first position lies in. -/
def firstColumn : Item := .single ⟨firstPosition, Nat.le_of_eq firstPosition_value.symm⟩

/-- The first character of an indented line is a blank, but its second one is cut out. -/
theorem cut_shifts :
    let session := textFile " a\n".toList
    Item.list [firstColumn] = "1".toList ∧
      Item.select [firstColumn] " a".toList = " ".toList ∧
      (cut ["-b".toList, "1".toList, "f".toList]).start session =
        (.ok ⟨⟩, { session with out := ["a\n".toList] }) := by
  intro session
  have shown : session.Shows "f".toList " a\n".toList := ⟨_, textFile_leads _, rfl⟩
  exact ⟨by decide, by decide, start_cut (List.cons_ne_nil firstColumn []) shown⟩

end Command

end MiniShell
