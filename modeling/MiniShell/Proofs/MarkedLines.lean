/-
This file says when a search through several files keeps its results apart.
Every result is a line of a file, marked with the name of the file; its line
feed is the one that it has in the file, and a line feed is added only at the
very end of the output. So a line that ends a file without a line feed runs
together with the next result, if there is one. The output is a row of complete
lines exactly where no such line is found in a file before another file with
results.

In any case the output is the marked lines, written one after the other. The
condition says when cutting it at its line feeds gives these lines back.
-/

import MiniShell.Proofs.SortedFile

namespace MiniShell

open MiniShell.Action

/-! ### Missing line feeds -/

namespace Text

theorem ended_open {text : Text} (nonempty : text ≠ []) (isOpen : text.getLast? ≠ some '\n') :
    ended text = text ++ ['\n'] :=
  if_neg (not_or.mpr ⟨nonempty, isOpen⟩)

theorem ended_eq_self_iff {text : Text} (nonempty : text ≠ []) :
    ended text = text ↔ text.getLast? = some '\n' := by
  constructor
  · intro same
    refine Decidable.not_not.mp fun isOpen => ?_
    rw [ended_open nonempty isOpen] at same
    simp at same
  · intro ends
    exact if_pos (Or.inr ends)

/-- Only the last line of a text may lack its line feed. -/
theorem pairwise_lines (text : Text) :
    (lines text).Pairwise fun line _ => line.getLast? = some '\n' := by
  obtain ⟨parts, last, areLines, noFeed, rfl⟩ := exists_parts text
  have rest : (lines last).Pairwise fun line _ => line.getLast? = some '\n' := by
    by_cases none : last = []
    · simp [none, lines]
    · simp [lines_unfed none noFeed]
  rw [lines_flatten_append areLines]
  refine List.pairwise_append.mpr
    ⟨?_, rest, fun line member _ _ => (areLines line member).getLast?⟩
  exact List.pairwise_of_forall_mem_list fun line member _ _ => (areLines line member).getLast?

/-- Every text that gets a line feed becomes longer by one character. -/
theorem length_flatten_ended (texts : List Text) :
    (texts.map ended).flatten.length =
      texts.flatten.length + texts.countP fun text => ended text ≠ text := by
  induction texts with
  | nil => rfl
  | cons text rest inductionHypothesis =>
    rw [List.map_cons, List.flatten_cons, List.flatten_cons, List.length_append,
      List.length_append, inductionHypothesis, List.countP_cons]
    by_cases complete : text = [] ∨ text.getLast? = some '\n'
    · have same : ended text = text := if_pos complete
      simp only [same, ne_eq, not_true, decide_false, Bool.false_eq_true, if_false]
      omega
    · have longer : ended text = text ++ ['\n'] := if_neg complete
      simp [longer]
      omega

theorem flatten_ended_iff {texts : List Text} (solid : ∀ text ∈ texts, text ≠ []) :
    texts.flatten = (texts.map ended).flatten ↔
      ∀ text ∈ texts, text.getLast? = some '\n' := by
  constructor
  · intro same text member
    have lengths := length_flatten_ended texts
    rw [← same, Nat.left_eq_add, List.countP_eq_zero] at lengths
    have complete : ended text = text := by simpa using lengths text member
    exact (ended_eq_self_iff (solid text member)).mp complete
  · intro ends
    have same := List.map_congr_left fun text member =>
      (ended_eq_self_iff (solid text member)).mpr (ends text member)
    rw [same, List.map_id']

end Text

namespace Command

/-- Lines are complete with a line feed at the end of the last one exactly where no other lacks
it. -/
theorem flatten_close_iff {lines : List Text} (solid : ∀ line ∈ lines, line ≠ []) :
    (close lines).flatten = (lines.map Text.ended).flatten ↔
      lines.Pairwise fun line _ => line.getLast? = some '\n' := by
  rcases List.eq_nil_or_concat' lines with rfl | ⟨front, last, rfl⟩
  · exact ⟨fun _ => List.Pairwise.nil, fun _ => rfl⟩
  · have nonempty : last ≠ [] := solid last (by simp)
    have closed : close (front ++ [last]) = front ++ [Text.ended last] := by
      by_cases ends : last.getLast? = some '\n'
      · rw [(Text.ended_eq_self_iff nonempty).mpr ends]
        exact close_of_isClosed solid (by simpa [IsClosed] using ends)
      · rw [close_concat front nonempty ends, Text.ended_open nonempty ends]
    rw [closed, List.map_append, List.flatten_append, List.flatten_append, List.map_singleton,
      List.append_cancel_right_eq,
      Text.flatten_ended_iff fun line member => solid line (List.mem_append_left _ member)]
    constructor
    · intro ends
      exact List.pairwise_append.mpr ⟨List.pairwise_of_forall_mem_list fun line member _ _ =>
        ends line member, List.pairwise_singleton _ _, fun line member _ _ => ends line member⟩
    · intro apart line member
      exact (List.pairwise_append.mp apart).2.2 line member last (List.mem_singleton_self last)

/-! ### Searching through files -/

/-- The results of a search in one of several files: its matching lines behind its name. -/
def markedLines (pattern : Text) (source : Text × List Text) : List Text :=
  (source.2.filter (matchesLine pattern)).map fun line => source.1 ++ ':' :: line

theorem mem_markedLines_iff {pattern result : Text} {source : Text × List Text} :
    result ∈ markedLines pattern source ↔
      ∃ line ∈ source.2, matchesLine pattern line = true ∧ source.1 ++ ':' :: line = result := by
  simp [markedLines, and_assoc]

/-- Passes on the results of a search in one of several files. -/
def searchMarked (pattern name : Text) : Action Unit :=
  rephrase (searchFault pattern name) do
    let lines ← readLines name
    let found ← orFlaw (matchingLines pattern lines)
    emit (found.map fun line => name ++ ':' :: line)

theorem grep_several (pattern : Text) {files : List Text} (several : 2 ≤ files.length) :
    grep (pattern :: files) = (do
      files.forM (searchMarked pattern)
      endSomeOutput) := by
  have searches : grep (pattern :: files) = searchFiles pattern files := by
    cases files with
    | nil => exact absurd several (by simp)
    | cons first rest => rfl
  have marked : files.length > 1 := several
  rw [searches, searchFiles]
  simp only [if_pos marked]
  rfl

section Search

variable {pattern : Text} {session after : Session}

theorem start_searchMarked {name : Text} {trail : Trail} {content : List UInt8}
    {lines : List Text} (holds : session.Holds name trail content lines)
    (ran : (searchMarked pattern name).start session = (.ok ⟨⟩, after)) :
    after = { session with out := session.out ++ markedLines pattern (name, lines) } := by
  rw [searchMarked, start_rephrase, start_bind_ok holds.readLines] at ran
  cases searched : matchingLines pattern lines with
  | error flaw =>
    rw [searched] at ran
    exact absurd (congrArg Prod.fst ran) (by simp [orFlaw])
  | ok found =>
    rw [searched] at ran
    rw [markedLines, ← matchingLines_eq searched]
    exact (Prod.mk.inj ran).2.symm

/-- Searching file after file adds the results of each. -/
theorem start_forM_searchMarked {sources : List (Text × List Text)}
    (readable : ∀ source ∈ sources, ∃ trail content,
      session.Holds source.1 trail content source.2)
    (ran : ((sources.map Prod.fst).forM (searchMarked pattern)).start session =
      (.ok ⟨⟩, after)) :
    after = { session with out := session.out ++ sources.flatMap (markedLines pattern) } := by
  induction sources generalizing session with
  | nil =>
    rw [List.flatMap_nil, List.append_nil]
    exact (Prod.mk.inj ran).2.symm
  | cons source rest inductionHypothesis =>
    obtain ⟨⟨trail, content, holds⟩, others⟩ := List.forall_mem_cons.mp readable
    rw [List.map_cons, List.forM_eq_forM, List.forM_cons] at ran
    obtain ⟨_, between, searched, further⟩ := start_bind_inv ran
    rw [start_searchMarked holds searched] at further
    have stillReadable : ∀ other ∈ rest, ∃ trail content,
        ({ session with out := session.out ++ markedLines pattern source } : Session).Holds
          other.1 trail content other.2 := by
      intro other member
      obtain ⟨trail, content, holds⟩ := others other member
      exact ⟨trail, content, holds.withOut _⟩
    rw [inductionHypothesis stillReadable further, List.flatMap_cons, List.append_assoc]

end Search

/-! ### Results that run together -/

/-- No file with a result that lacks its line feed stands before another file with results. -/
def Separated (pattern : Text) (sources : List (Text × List Text)) : Prop :=
  sources.Pairwise fun earlier later =>
    (∃ line ∈ earlier.2, matchesLine pattern line = true ∧ line.getLast? ≠ some '\n') →
      ∀ line ∈ later.2, matchesLine pattern line = false

theorem getLast?_marked_iff (name line : Text) :
    (name ++ ':' :: line).getLast? = some '\n' ↔ line.getLast? = some '\n' := by
  rw [List.getLast?_append_of_ne_nil _ (List.cons_ne_nil _ _), List.getLast?_cons]
  cases line.getLast? with
  | none => simp
  | some last => simp

/-- The results are kept apart exactly where none but the last lacks its line feed. -/
theorem separated_iff (pattern : Text) {sources : List (Text × List Text)}
    (cut : ∀ source ∈ sources, ∃ text, source.2 = Text.lines text) :
    Separated pattern sources ↔ (sources.flatMap (markedLines pattern)).Pairwise fun result _ =>
      result.getLast? = some '\n' := by
  have within : ∀ source ∈ sources, (markedLines pattern source).Pairwise fun result _ =>
      result.getLast? = some '\n' := by
    intro source member
    obtain ⟨text, isText⟩ := cut source member
    have feeds := (Text.pairwise_lines text).filter (matchesLine pattern)
    rw [markedLines, isText, List.pairwise_map]
    exact feeds.imp fun ends => (getLast?_marked_iff _ _).mpr ends
  rw [List.pairwise_flatMap, and_iff_right within, Separated]
  refine List.Pairwise.iff fun earlier later => ?_
  constructor
  · intro silent result isResult other isOther
    obtain ⟨line, inEarlier, begins, rfl⟩ := mem_markedLines_iff.mp isResult
    obtain ⟨next, inLater, alsoBegins, rfl⟩ := mem_markedLines_iff.mp isOther
    refine (getLast?_marked_iff _ _).mpr (Decidable.not_not.mp fun isOpen => ?_)
    rw [silent ⟨line, inEarlier, begins, isOpen⟩ next inLater] at alsoBegins
    exact absurd alsoBegins (by simp)
  · rintro apart ⟨line, inEarlier, begins, isOpen⟩ next inLater
    rw [Bool.eq_false_iff]
    intro alsoBegins
    have isResult := mem_markedLines_iff.mpr ⟨line, inEarlier, begins, rfl⟩
    have isOther := mem_markedLines_iff.mpr ⟨next, inLater, alsoBegins, rfl⟩
    exact isOpen ((getLast?_marked_iff _ _).mp (apart _ isResult _ isOther))

theorem ended_marked (name : Text) {line : Text} (nonempty : line ≠ []) :
    Text.ended (name ++ ':' :: line) = name ++ ':' :: Text.ended line := by
  by_cases ends : line.getLast? = some '\n'
  · rw [(Text.ended_eq_self_iff nonempty).mpr ends]
    exact (Text.ended_eq_self_iff (by simp)).mpr ((getLast?_marked_iff name line).mpr ends)
  · have isOpen := mt (getLast?_marked_iff name line).mp ends
    rw [Text.ended_open (by simp) isOpen, Text.ended_open nonempty ends, List.append_assoc,
      List.cons_append]

/-- The results of a search as a row of complete lines. -/
def results (pattern : Text) (sources : List (Text × List Text)) : Text :=
  sources.flatMap fun source =>
    (source.2.filter (matchesLine pattern)).flatMap fun line => source.1 ++ ':' :: Text.ended line

theorem flatten_ended_marked (pattern : Text) {sources : List (Text × List Text)}
    (solid : ∀ source ∈ sources, ∀ line ∈ source.2, line ≠ []) :
    ((sources.flatMap (markedLines pattern)).map Text.ended).flatten = results pattern sources := by
  rw [← List.flatMap_def, List.flatMap_assoc, results]
  refine List.flatMap_congr fun source member => ?_
  rw [markedLines, List.flatMap_map]
  exact List.flatMap_congr fun line found =>
    ended_marked source.1 (solid source member line (List.mem_of_mem_filter found))

/-- A search through several files passes on their matching lines in order, each behind the name of
its file, with a line feed at the very end. Together they are a row of complete lines exactly where
no result that lacks its line feed stands before a file with results. -/
theorem grep_separates_iff (pattern : Text) {sources : List (Text × List Text)}
    (several : 2 ≤ sources.length) {session after : Session} (silent : session.out = [])
    (readable : ∀ source ∈ sources, ∃ trail content,
      session.Holds source.1 trail content source.2)
    (ran : (grep (pattern :: sources.map Prod.fst)).start session = (.ok ⟨⟩, after)) :
    after = { session with out := close (sources.flatMap (markedLines pattern)) } ∧
      (after.out.flatten = results pattern sources ↔ Separated pattern sources) := by
  have cut : ∀ source ∈ sources, ∃ text, source.2 = Text.lines text := by
    intro source member
    obtain ⟨_, _, -, -, text, -, isText⟩ := readable source member
    exact ⟨_, isText.symm⟩
  have solid : ∀ source ∈ sources, ∀ line ∈ source.2, line ≠ [] := by
    intro source member line isLine
    obtain ⟨text, isText⟩ := cut source member
    rw [isText] at isLine
    exact Text.ne_nil_of_mem_lines isLine
  have filled : ∀ result ∈ sources.flatMap (markedLines pattern), result ≠ [] := by
    intro result member
    obtain ⟨source, -, isMarked⟩ := List.mem_flatMap.mp member
    obtain ⟨line, -, -, rfl⟩ := mem_markedLines_iff.mp isMarked
    simp
  rw [grep_several pattern (by simpa using several)] at ran
  obtain ⟨_, between, searched, closed⟩ := start_bind_inv ran
  have found := start_forM_searchMarked readable searched
  rw [silent, List.nil_append] at found
  rw [found, start_endSomeOutput filled] at closed
  obtain rfl := (Prod.mk.inj closed).2
  refine ⟨rfl, ?_⟩
  rw [separated_iff pattern cut, ← flatten_close_iff filled, flatten_ended_marked pattern solid]

/-- A session with two files that end without a line feed. -/
def openFiles : Session where
  files := .directory [("f".toList, .file (Text.encode "a".toList)),
    ("g".toList, .file (Text.encode "b\na".toList))]
  home := "/home".toList
  inputs := []

/-- The lines of the two files. -/
def openSources : List (Text × List Text) :=
  [("f".toList, ["a".toList]), ("g".toList, ["b\n".toList, "a".toList])]

theorem openFiles_holds : ∀ source ∈ openSources, ∃ trail content,
    openFiles.Holds source.1 trail content source.2 := by
  have leads : ∀ name ∈ ["f".toList, "g".toList], openFiles.LeadsTo name [name] := by
    simp only [List.forall_mem_cons, List.not_mem_nil, false_imp_iff, implies_true, and_true]
    exact ⟨⟨by decide, ⟨[], 0⟩, "f".toList, rfl, rfl, by decide, rfl⟩,
      ⟨by decide, ⟨[], 0⟩, "g".toList, rfl, rfl, by decide, rfl⟩⟩
  refine List.forall_mem_cons.mpr ⟨?_, List.forall_mem_cons.mpr ⟨?_, by simp⟩⟩
  · exact ⟨_, _, leads _ (by simp), rfl, _, Text.decode_encode _, rfl⟩
  · exact ⟨_, _, leads _ (by simp), rfl, _, Text.decode_encode _, rfl⟩

/-- The line without a line feed in the first file is no result. -/
theorem grep_separates_iff_apart :
    let searched := (grep ["b".toList, "f".toList, "g".toList]).start openFiles
    searched.1.toOption = some () ∧ Separated "b".toList openSources ∧
      searched.2.out.flatten = results "b".toList openSources := by
  intro searched
  have succeeds : searched.1.toOption = some () := by decide +kernel
  have separated : Separated "b".toList openSources := by
    unfold Separated
    decide +kernel
  have found := grep_separates_iff "b".toList (by decide) rfl openFiles_holds
    (start_of_toOption succeeds)
  exact ⟨succeeds, separated, found.2.mpr separated⟩

/-- The results of two files run together. -/
theorem grep_merges :
    let searched := (grep ["a".toList, "f".toList, "g".toList]).start openFiles
    searched.1.toOption = some () ∧ searched.2.out.flatten = "f:ag:a\n".toList := by
  decide +kernel

end Command

end MiniShell
