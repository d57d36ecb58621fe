/-
This file compares two orders of lines: that of the lines as they are read,
with their line feeds, and that of what they hold. The two agree unless a line
goes on where another one ends, with a character that comes before the line
feed: the longer one comes later by what it holds, but its next character is
compared with the line feed of the shorter one, and so its line comes first.
Sorting a file compares lines, so it sorts by what they hold exactly where no
line overtakes another in this way.
-/

import Mathlib.Data.List.Pairwise
import MiniShell.Proofs.SortedFile

namespace MiniShell

open MiniShell.Action

/-! ### The order of lines -/

namespace Text

/-- The line that holds a text. -/
def terminated (text : Text) : Text := text ++ ['\n']

/-- A text goes on where another one ends, with a character that comes before the line feed. -/
def Overtakes (longer shorter : Text) : Prop :=
  ∃ next rest, longer = shorter ++ next :: rest ∧ next.toNat < '\n'.toNat

theorem not_overtakes_nil (text : Text) : ¬ Overtakes [] text := by
  rintro ⟨next, rest, equal, -⟩
  simp at equal

theorem overtakes_nil_iff {next : Char} {rest : Text} :
    Overtakes (next :: rest) [] ↔ next.toNat < '\n'.toNat := by
  simp [Overtakes]

theorem overtakes_cons_iff {first second : Char} {longer shorter : Text} :
    Overtakes (first :: longer) (second :: shorter) ↔
      first = second ∧ Overtakes longer shorter := by
  constructor
  · rintro ⟨next, rest, equal, before⟩
    obtain ⟨same, longerIs⟩ := List.cons.inj equal
    exact ⟨same, next, rest, longerIs, before⟩
  · rintro ⟨rfl, next, rest, rfl, before⟩
    exact ⟨next, rest, rfl, before⟩

theorem not_overtakes_self (text : Text) : ¬ Overtakes text text := by
  rintro ⟨next, rest, equal, -⟩
  simp at equal

/-- By what it holds, the longer text comes later. -/
theorem Overtakes.codes_lt {longer shorter : Text} (overtakes : Overtakes longer shorter) :
    shorter.codes < longer.codes := by
  obtain ⟨next, rest, rfl, -⟩ := overtakes
  have longest : shorter.codes ++ [] < shorter.codes ++ codes (next :: rest) :=
    List.append_left_lt (List.nil_lt_cons _ _)
  rwa [List.append_nil, codes, codes, ← List.map_append] at longest

theorem codes_cons_lt_iff {first second : Char} {rest others : Text} :
    codes (first :: rest) < codes (second :: others) ↔
      first.toNat < second.toNat ∨ first = second ∧ codes rest < codes others := by
  rw [← Char.toNat_inj]
  exact List.cons_lt_cons_iff

theorem not_codes_lt_nil (text : Text) : ¬ codes text < codes [] := List.not_lt_nil _

/-- Lines are ordered as what they hold, apart from those that overtake each other. -/
theorem codes_terminated_lt_iff {first second : Text} (noFeed : '\n' ∉ first)
    (neitherFeed : '\n' ∉ second) :
    first.terminated.codes < second.terminated.codes ↔
      (first.codes < second.codes ∧ ¬ second.Overtakes first) ∨ first.Overtakes second := by
  have notFeed {character : Char} {rest : Text} (outside : '\n' ∉ character :: rest) :
      character ≠ '\n' := (List.ne_of_not_mem_cons outside).symm
  -- Where one line has ended its line feed is compared with a character of the other one.
  induction first generalizing second with
  | nil =>
    cases second with
    | nil =>
      have same : ¬ (terminated []).codes < (terminated []).codes := List.lt_irrefl _
      simp only [same, not_overtakes_nil, not_codes_lt_nil, false_and, or_false]
    | cons character rest =>
      have differ := mt Char.toNat_inj.mp (notFeed neitherFeed)
      have later : codes [] < codes (character :: rest) := List.nil_lt_cons _ _
      rw [overtakes_nil_iff]
      simp only [not_overtakes_nil, later, true_and, or_false]
      show codes ('\n' :: []) < codes (character :: terminated rest) ↔ _
      simp only [codes_cons_lt_iff, (notFeed neitherFeed).symm, false_and, or_false]
      omega
  | cons character rest inductionHypothesis =>
    cases second with
    | nil =>
      rw [overtakes_nil_iff]
      simp only [not_codes_lt_nil, false_and, false_or]
      show codes (character :: terminated rest) < codes ('\n' :: []) ↔ _
      simp only [codes_cons_lt_iff, notFeed noFeed, false_and, or_false]
    | cons other others =>
      have further := @inductionHypothesis others (List.not_mem_of_not_mem_cons noFeed)
        (List.not_mem_of_not_mem_cons neitherFeed)
      show codes (character :: terminated rest) < codes (other :: terminated others) ↔ _
      rw [codes_cons_lt_iff, codes_cons_lt_iff, overtakes_cons_iff, overtakes_cons_iff]
      by_cases same : character = other
      · simp only [same, Nat.lt_irrefl, true_and, false_or]
        exact further
      · simp [same, Ne.symm same]

end Text

/-! ### Sorting -/

namespace Command

theorem lineOrder_antisymm {reverse : Bool} {first second : Text}
    (before : lineOrder reverse first second = true)
    (after : lineOrder reverse second first = true) : first = second := by
  rw [lineOrder_iff] at before after
  refine Text.codes_inj.mp ?_
  cases reverse with
  | false => exact List.le_antisymm before after
  | true => exact List.le_antisymm after before

/-- Lines that are in order are the only result of sorting them. -/
theorem sortLines_of_perm {reverse : Bool} {lines others : List Text}
    (ordered : Ordered reverse others) (permuted : others.Perm lines) :
    sortLines reverse lines = others := by
  have sorted := (sortLines_ordered reverse lines).imp lineOrder_iff.mpr
  exact List.Perm.eq_of_pairwise (fun _ _ _ _ => lineOrder_antisymm) sorted
    (ordered.imp lineOrder_iff.mpr) ((sortLines_perm reverse lines).trans permuted.symm)

section Contents

variable {reverse : Bool} {first second : Text}

/-- Where neither text overtakes the other, their lines are in the same order. -/
theorem lineOrder_terminated (noFeed : '\n' ∉ first) (neitherFeed : '\n' ∉ second)
    (behind : ¬ first.Overtakes second) (ahead : ¬ second.Overtakes first) :
    lineOrder reverse first.terminated second.terminated = lineOrder reverse first second := by
  rw [Bool.eq_iff_iff, lineOrder_iff, lineOrder_iff,
    Text.codes_terminated_lt_iff noFeed neitherFeed,
    Text.codes_terminated_lt_iff neitherFeed noFeed]
  simp only [behind, ahead, not_false_eq_true, and_true, or_false]

/-- Where one text overtakes the other, they are not in order together with their lines. -/
theorem not_overtakes_of_lineOrder (noFeed : '\n' ∉ first) (neitherFeed : '\n' ∉ second)
    (before : lineOrder reverse first second = true)
    (lineBefore : lineOrder reverse first.terminated second.terminated = true) :
    ¬ first.Overtakes second ∧ ¬ second.Overtakes first := by
  have earlier := @Text.codes_terminated_lt_iff first second noFeed neitherFeed
  have later := @Text.codes_terminated_lt_iff second first neitherFeed noFeed
  rw [lineOrder_iff] at before lineBefore
  constructor
  · intro overtakes
    cases reverse with
    | false => exact before overtakes.codes_lt
    | true => exact lineBefore (earlier.mpr (Or.inr overtakes))
  · intro overtakes
    cases reverse with
    | false => exact lineBefore (later.mpr (Or.inr overtakes))
    | true => exact before overtakes.codes_lt

end Contents

/-- Lines are sorted by what they hold exactly where no line overtakes another. -/
theorem sortLines_contents_iff (reverse : Bool) {contents : List Text}
    (noFeed : ∀ content ∈ contents, '\n' ∉ content) :
    (∃ sorted : List Text, sorted.Perm contents ∧ Ordered reverse sorted ∧
        sortLines reverse (contents.map Text.terminated) = sorted.map Text.terminated) ↔
      ∀ first ∈ contents, ∀ second ∈ contents, ¬ first.Overtakes second := by
  constructor
  · rintro ⟨sorted, permuted, ordered, result⟩
    have linesOrdered := sortLines_ordered reverse (contents.map Text.terminated)
    rw [result, Ordered, List.pairwise_map] at linesOrdered
    have unfed := fun content member => noFeed content (permuted.mem_iff.mp member)
    have apart : sorted.Pairwise fun first second =>
        ¬ first.Overtakes second ∧ ¬ second.Overtakes first := by
      refine (List.Pairwise.and ordered linesOrdered).imp_of_mem ?_
      intro first second inSorted alsoInSorted both
      exact not_overtakes_of_lineOrder (unfed first inSorted) (unfed second alsoInSorted)
        (lineOrder_iff.mpr both.1) (lineOrder_iff.mpr both.2)
    -- Two lines that are both in the list come in one order or the other.
    have symmetric : Std.Symm fun first second : Text =>
        ¬ first.Overtakes second ∧ ¬ second.Overtakes first := ⟨fun _ _ both => both.symm⟩
    intro first inContents second alsoInContents
    exact (apart.forall_of_forall
      (fun text _ => ⟨text.not_overtakes_self, text.not_overtakes_self⟩)
      (permuted.mem_iff.mpr inContents) (permuted.mem_iff.mpr alsoInContents)).1
  · intro apart
    refine ⟨sortLines reverse contents, sortLines_perm reverse contents,
      sortLines_ordered reverse contents, ?_⟩
    refine sortLines_of_perm (List.pairwise_map.mpr ?_) ((sortLines_perm reverse contents).map _)
    refine (sortLines_ordered reverse contents).imp_of_mem ?_
    intro first second inSorted alsoInSorted before
    have inContents := (sortLines_perm reverse contents).mem_iff.mp inSorted
    have alsoInContents := (sortLines_perm reverse contents).mem_iff.mp alsoInSorted
    rw [← lineOrder_iff, lineOrder_terminated (noFeed first inContents)
      (noFeed second alsoInContents) (apart first inContents second alsoInContents)
      (apart second alsoInContents first inContents)]
    exact lineOrder_iff.mpr before

/-! ### Sorting a file of lines -/

theorem areLines_terminated {contents : List Text}
    (noFeed : ∀ content ∈ contents, '\n' ∉ content) :
    ∀ line ∈ contents.map Text.terminated, Text.IsLine line := by
  intro line member
  obtain ⟨content, inContents, rfl⟩ := List.mem_map.mp member
  exact ⟨content, rfl, noFeed content inContents⟩

/-- A file that holds the lines of texts is read as these lines. -/
theorem holds_terminated {session : Session} {path : Text} {trail : Trail} {contents : List Text}
    (whole : ∀ content ∈ contents, '\n' ∉ content ∧ '\r' ∉ content)
    (leads : session.LeadsTo path trail)
    (found : session.files.get? trail =
      some (.file (Text.encode (contents.map Text.terminated).flatten))) :
    session.Holds path trail (Text.encode (contents.map Text.terminated).flatten)
      (contents.map Text.terminated) := by
  have areLines := areLines_terminated fun content member => (whole content member).1
  have noReturn : '\r' ∉ (contents.map Text.terminated).flatten := by
    intro member
    obtain ⟨line, inLines, inLine⟩ := List.mem_flatten.mp member
    obtain ⟨content, inContents, rfl⟩ := List.mem_map.mp inLines
    rcases List.mem_append.mp inLine with inContent | isFeed
    · exact (whole content inContents).2 inContent
    · exact absurd isFeed (by decide)
  refine ⟨leads, found, _, Text.decode_encode _, ?_⟩
  rw [Text.unifyNewlines_of_notMem noReturn, Text.lines_flatten areLines]

theorem start_sort_terminated (reverse : Bool) {file : Text}
    (notFlag : reverse = false → file ≠ "-r".toList) {contents : List Text}
    (whole : ∀ content ∈ contents, '\n' ∉ content ∧ '\r' ∉ content) {session : Session}
    {trail : Trail} (leads : session.LeadsTo file trail)
    (found : session.files.get? trail =
      some (.file (Text.encode (contents.map Text.terminated).flatten))) :
    (sort ((if reverse then ["-r".toList] else []) ++ [file])).start session =
      (.ok ⟨⟩, { session with
        out := session.out ++ sortLines reverse (contents.map Text.terminated) }) := by
  have holds := holds_terminated whole leads found
  have closed : close (contents.map Text.terminated) = contents.map Text.terminated :=
    close_of_areLines (areLines_terminated fun content member => (whole content member).1)
  show (sort ((Reader.sort reverse).options ++ [file])).start session = _
  rw [sort_named reverse notFlag leads.ne_nil, start_bind_ok (start_endedLines holds.readLines),
    closed]
  rfl

/-- Sorting a file passes on its lines in the order of the lines. This is the order of what they
hold exactly where no line overtakes another. -/
theorem sort_contents_iff (reverse : Bool) {file : Text}
    (notFlag : reverse = false → file ≠ "-r".toList) {contents : List Text}
    (whole : ∀ content ∈ contents, '\n' ∉ content ∧ '\r' ∉ content) {session : Session}
    {trail : Trail} (leads : session.LeadsTo file trail)
    (found : session.files.get? trail =
      some (.file (Text.encode (contents.map Text.terminated).flatten))) :
    ∃ lines, (sort ((if reverse then ["-r".toList] else []) ++ [file])).start session =
        (.ok ⟨⟩, { session with out := session.out ++ lines }) ∧
      lines.Perm (contents.map Text.terminated) ∧ Ordered reverse lines ∧
      ((∃ sorted : List Text, sorted.Perm contents ∧ Ordered reverse sorted ∧
          lines = sorted.map Text.terminated) ↔
        ∀ first ∈ contents, ∀ second ∈ contents, ¬ first.Overtakes second) :=
  ⟨_, start_sort_terminated reverse notFlag whole leads found, sortLines_perm reverse _,
    sortLines_ordered reverse _,
    sortLines_contents_iff reverse fun content member => (whole content member).1⟩

/-- A session with one file of text. -/
def textFile (text : Text) : Session where
  files := .directory [("f".toList, .file (Text.encode text))]
  home := "/home".toList
  inputs := []

theorem textFile_leads (text : Text) : (textFile text).LeadsTo "f".toList ["f".toList] :=
  ⟨by decide, ⟨[], 0⟩, "f".toList, rfl, rfl, by decide, rfl⟩

/-- A line that begins another one stands behind it in reverse order. -/
theorem sort_contents_iff_reverse :
    let session := textFile "a\nab\n\n".toList
    ∃ sorted : List Text, (sort ["-r".toList, "f".toList]).start session =
        (.ok ⟨⟩, { session with out := sorted.map Text.terminated }) ∧
      sorted.Perm ["a".toList, "ab".toList, []] ∧ Ordered true sorted := by
  intro session
  obtain ⟨lines, ran, -, -, agree⟩ := @sort_contents_iff true "f".toList (by simp)
    ["a".toList, "ab".toList, []] (by decide) session _ (textFile_leads _) rfl
  have apart : ∀ first ∈ ["a".toList, "ab".toList, []],
      ∀ second ∈ ["a".toList, "ab".toList, []], ¬ Text.Overtakes first second := by
    simp [Text.not_overtakes_nil, Text.overtakes_nil_iff, Text.overtakes_cons_iff]
  obtain ⟨sorted, permuted, ordered, rfl⟩ := agree.mpr apart
  exact ⟨sorted, ran, permuted, ordered⟩

/-- A tab comes before the line feed, so a line that is longer by a tab comes first. -/
theorem sort_misplaces :
    let session := textFile "a\na\t\n".toList
    (sort ["f".toList]).start session =
        (.ok ⟨⟩, { session with out := ["a\t\n".toList, "a\n".toList] }) ∧
      ¬ Ordered false ["a\t".toList, "a".toList] := by
  intro session
  have ran := @start_sort_terminated false "f".toList (by simp) ["a".toList, "a\t".toList]
    (by decide) session _ (textFile_leads _) rfl
  have sorted : sortLines false (["a".toList, "a\t".toList].map Text.terminated) =
      ["a\t\n".toList, "a\n".toList] :=
    sortLines_of_perm (by unfold Ordered; decide) (by decide)
  rw [sorted] at ran
  exact ⟨ran, by unfold Ordered; decide⟩

end Command

end MiniShell
