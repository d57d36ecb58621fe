/-
This file proves that cutting a line is a longest-match tiling. The lexemes of
a line lie end to end. Each token is the longest beginning of what is left of
the line that any kind of token allows. Text is dropped only where no beginning
of the rest is a token: up to the first character after which no token can come
of it, or to the end of the line if there is no such character. These rules
leave no choice, so they determine the lexemes.

Most kinds of token are known by their first character and end at the first one
of a class. Text in double quotes is followed character by character, with the
two readings of a back quote side by side: the set of lengths at which a
reading closes has a greatest element, and that is the one that the scan
remembers.
-/

import Mathlib.Data.List.TakeWhile
import MiniShell.Grammar.Report
import MiniShell.Proofs.TokenLanguage

namespace MiniShell

open Computability

variable {rest other read tail : Text} {kind : Kind} {first : Char}

/-! ### Tilings -/

/-- The longest beginning of a text that is a token. -/
structure LongestToken (kind : Kind) (text whole : Text) : Prop where
  begins : text <+: whole
  isToken : text ∈ kind.language
  longest : ∀ other, other <+: whole → IsToken other → other.length ≤ text.length

/-- The beginning of a text that is dropped, because no beginning is a token: the shortest one
that no token begins with, or the whole text if there is none. -/
structure Dropped (text whole : Text) : Prop where
  begins : text <+: whole
  nonempty : text ≠ []
  noToken : ∀ other, other <+: whole → ¬ IsToken other
  ends : ¬ Viable text ∧ (∀ shorter, shorter <+: text → shorter ≠ text → Viable shorter) ∨
    text = whole ∧ ∀ other, other <+: whole → Viable other

/-- What is cut off from the beginning of a text: a token of some kind, or dropped text. -/
def CutFrom (whole : Text) : Option Kind → Text → Prop
  | some kind, text => LongestToken kind text whole
  | none, text => Dropped text whole

/-- Lexemes that lie end to end from a position on, each of them cut off from the beginning of what
is left. -/
inductive Tiling : Mark → Text → List Lexeme → Prop
  | nil (mark : Mark) : Tiling mark [] []
  | cons {mark : Mark} {kind : Option Kind} {text rest : Text} {lexemes : List Lexeme}
      (cut : CutFrom (text ++ rest) kind text) (others : Tiling (mark.after text) rest lexemes) :
      Tiling mark (text ++ rest) (⟨kind, text, mark⟩ :: lexemes)

theorem viable_nil : Viable [] := ⟨[';'], .semicolon, rfl⟩

theorem LongestToken.nonempty {text whole : Text} (token : LongestToken kind text whole) :
    text ≠ [] := ne_nil_of_mem token.isToken

theorem eq_of_prefix_of_length {text whole : Text} (begins : text <+: whole)
    (otherBegins : other <+: whole) (same : text.length = other.length) : text = other := by
  rw [List.prefix_iff_eq_take.mp begins, List.prefix_iff_eq_take.mp otherBegins, same]

theorem Dropped.not_longer {text whole : Text} (dropped : Dropped text whole)
    (otherDropped : Dropped other whole) : other.length ≤ text.length := by
  by_contra longer
  have isBefore : text <+: other :=
    List.prefix_of_prefix_length_le dropped.begins otherDropped.begins (by omega)
  have different : text ≠ other := fun same => longer (by rw [same])
  rcases dropped.ends with ⟨dead, _⟩ | ⟨rfl, _⟩
  · rcases otherDropped.ends with ⟨_, viable⟩ | ⟨_, viable⟩
    · exact dead (viable text isBefore different)
    · exact dead (viable text dropped.begins)
  · exact longer otherDropped.begins.length_le

/-- What is cut off is determined. -/
theorem CutFrom.unique {whole text : Text} {kind otherKind : Option Kind}
    (cut : CutFrom whole kind text) (otherCut : CutFrom whole otherKind other) :
    kind = otherKind ∧ text = other := by
  match kind, otherKind, cut, otherCut with
  | some kind, some otherKind, token, otherToken =>
    have same := eq_of_prefix_of_length token.begins otherToken.begins (Nat.le_antisymm
      (otherToken.longest text token.begins ⟨kind, token.isToken⟩)
      (token.longest other otherToken.begins ⟨otherKind, otherToken.isToken⟩))
    exact ⟨congrArg some (kind_unique token.isToken (same ▸ otherToken.isToken)), same⟩
  | some kind, none, token, dropped =>
    exact absurd ⟨kind, token.isToken⟩ (dropped.noToken text token.begins)
  | none, some otherKind, dropped, token =>
    exact absurd ⟨otherKind, token.isToken⟩ (dropped.noToken other token.begins)
  | none, none, dropped, otherDropped =>
    exact ⟨rfl, eq_of_prefix_of_length dropped.begins otherDropped.begins (Nat.le_antisymm
      (otherDropped.not_longer dropped) (dropped.not_longer otherDropped))⟩

/-- The rules of a tiling leave no choice. -/
theorem Tiling.unique {mark : Mark} {line : Text} {lexemes others : List Lexeme}
    (tiling : Tiling mark line lexemes) (other : Tiling mark line others) : lexemes = others := by
  induction tiling generalizing others with
  | nil mark =>
    generalize empty : ([] : Text) = line at other
    cases other with
    | nil => rfl
    | @cons _ kind text rest _ cut _ =>
      obtain ⟨rfl, rfl⟩ := List.append_eq_nil_iff.mp empty.symm
      cases kind with
      | none => exact absurd rfl cut.nonempty
      | some kind => exact absurd rfl cut.nonempty
  | @cons mark kind text rest lexemes cut _ inductionHypothesis =>
    generalize whole : text ++ rest = line at other
    cases other with
    | nil =>
      obtain ⟨rfl, rfl⟩ := List.append_eq_nil_iff.mp whole
      cases kind with
      | none => exact absurd rfl cut.nonempty
      | some kind => exact absurd rfl cut.nonempty
    | cons otherCut further =>
      rw [whole] at cut
      obtain ⟨rfl, rfl⟩ := cut.unique otherCut
      obtain rfl := List.append_cancel_left whole
      rw [inductionHypothesis further]

/-! ### Tokens that are known by their first character -/

theorem family_eq {other : Kind} (same : kind.family = other) (notAngle : other ≠ .greater) :
    kind = other := by
  revert same notAngle
  cases kind <;> cases other <;> decide

/-- A token at the beginning of a text is of the kind that the first character tells. -/
theorem token_of_first (begins : Kind.ofFirst first = some kind) (notAngle : kind ≠ .greater)
    (isPrefix : other <+: first :: rest) (isToken : IsToken other) :
    ∃ tail, other = first :: tail ∧ tail <+: rest ∧ first :: tail ∈ kind.language := by
  obtain ⟨own, member⟩ := isToken
  rcases List.prefix_cons_iff.mp isPrefix with rfl | ⟨tail, rfl, isTail⟩
  · exact absurd rfl (ne_nil_of_mem member)
  · have same := Option.some.inj ((family_of_mem member).symm.trans begins)
    obtain rfl := family_eq same notAngle
    exact ⟨tail, rfl, isTail, member⟩

theorem longest_of_first {first : Char} {rest tail : Text} {kind : Kind}
    (begins : Kind.ofFirst first = some kind) (notAngle : kind ≠ .greater) (isTail : tail <+: rest)
    (isToken : first :: tail ∈ kind.language)
    (longest : ∀ other, other <+: rest → first :: other ∈ kind.language →
      other.length ≤ tail.length) :
    LongestToken kind (first :: tail) (first :: rest) := by
  refine ⟨(List.prefix_cons_inj first).mpr isTail, isToken, fun other isPrefix isToken => ?_⟩
  obtain ⟨others, rfl, isOthers, member⟩ := token_of_first begins notAngle isPrefix isToken
  exact Nat.succ_le_succ (longest others isOthers member)

theorem viable_first (begins : Kind.ofFirst first = some kind) (notAngle : kind ≠ .greater)
    (viable : Viable (first :: tail)) : ∃ more, first :: (tail ++ more) ∈ kind.language := by
  obtain ⟨more, isToken⟩ := viable
  obtain ⟨others, same, _, member⟩ := token_of_first begins notAngle (List.prefix_refl _) isToken
  rw [← (List.cons.inj same).2] at member
  exact ⟨more, member⟩

theorem viable_of_first (viable : ∀ tail, tail <+: rest → Viable (first :: tail))
    (isPrefix : other <+: first :: rest) : Viable other := by
  rcases List.prefix_cons_iff.mp isPrefix with rfl | ⟨tail, rfl, isTail⟩
  · exact viable_nil
  · exact viable tail isTail

theorem dropped_of_first {first : Char} {rest tail : Text} {kind : Kind}
    (begins : Kind.ofFirst first = some kind) (notAngle : kind ≠ .greater) (isTail : tail <+: rest)
    (noToken : ∀ other, other <+: rest → first :: other ∉ kind.language)
    (ends : ¬ Viable (first :: tail) ∧
        (∀ shorter, shorter <+: tail → shorter ≠ tail → Viable (first :: shorter)) ∨
      tail = rest ∧ ∀ other, other <+: rest → Viable (first :: other)) :
    Dropped (first :: tail) (first :: rest) := by
  refine ⟨(List.prefix_cons_inj first).mpr isTail, List.cons_ne_nil _ _,
    fun other isPrefix isToken => ?_, ?_⟩
  · obtain ⟨others, _, isOthers, member⟩ := token_of_first begins notAngle isPrefix isToken
    exact noToken others isOthers member
  · rcases ends with ⟨dead, viable⟩ | ⟨rfl, viable⟩
    · refine Or.inl ⟨dead, fun shorter isShorter different => ?_⟩
      rcases List.prefix_cons_iff.mp isShorter with rfl | ⟨others, rfl, isOthers⟩
      · exact viable_nil
      · exact viable others isOthers fun same => different (by rw [same])
    · exact Or.inr ⟨rfl, fun other => viable_of_first viable⟩

/-! ### Operators and runs -/

theorem cut_operator (begins : Kind.ofFirst first = some kind) (notAngle : kind ≠ .greater)
    (only : ∀ text, text ∈ kind.language ↔ text = [first]) :
    LongestToken kind [first] (first :: rest) := by
  refine longest_of_first begins notAngle List.nil_prefix ((only _).mpr rfl) ?_
  intro other _ member
  rw [(List.cons.inj ((only _).mp member)).2]

/-- A token that begins with an angle is one angle or two. -/
theorem token_of_angle (isPrefix : other <+: '>' :: rest) (isToken : IsToken other) :
    other = ['>'] ∨ other = ['>', '>'] := by
  obtain ⟨kind, member⟩ := isToken
  rcases List.prefix_cons_iff.mp isPrefix with rfl | ⟨tail, rfl, _⟩
  · exact absurd rfl (ne_nil_of_mem member)
  · have same := Option.some.inj (family_of_mem member)
    cases kind with
    | greater => exact Or.inl member
    | doubleGreater => exact Or.inr member
    | _ => exact absurd same (by decide)

theorem cut_twoAngles (rest : Text) :
    LongestToken .doubleGreater ['>', '>'] ('>' :: '>' :: rest) := by
  refine ⟨⟨rest, rfl⟩, rfl, fun other isPrefix isToken => ?_⟩
  rcases token_of_angle isPrefix isToken with rfl | rfl <;> simp

theorem cut_oneAngle (alone : ∀ others, rest ≠ '>' :: others) :
    LongestToken .greater ['>'] ('>' :: rest) := by
  refine ⟨⟨rest, rfl⟩, rfl, fun other isPrefix isToken => ?_⟩
  rcases token_of_angle isPrefix isToken with rfl | rfl
  · exact Nat.le_refl _
  · obtain ⟨others, equal⟩ := isPrefix
    exact absurd (List.cons.inj equal).2.symm (alone others)

theorem begins_takeWhile {allowed : Char → Bool} (isPrefix : other <+: rest)
    (all : ∀ character ∈ other, allowed character = true) : other <+: rest.takeWhile allowed := by
  obtain ⟨more, rfl⟩ := isPrefix
  rw [List.takeWhile_append_of_pos all]
  exact List.prefix_append _ _

theorem take_takeWhile (allowed : Char → Bool) (text : Text) :
    text.take (text.takeWhile allowed).length = text.takeWhile allowed :=
  (List.prefix_iff_eq_take.mp (List.takeWhile_prefix _)).symm

/-- A run of characters of one class is a token as long as the class goes on. -/
theorem cut_run {first : Char} {rest : Text} {kind : Kind} {allowed : Char → Bool}
    (begins : Kind.ofFirst first = some kind) (notAngle : kind ≠ .greater)
    (isAllowed : allowed first = true)
    (run : ∀ text, text ∈ kind.language ↔
      text ≠ [] ∧ ∀ character ∈ text, allowed character = true) :
    LongestToken kind (first :: rest.takeWhile allowed) (first :: rest) := by
  refine longest_of_first begins notAngle (List.takeWhile_prefix _) ?_ ?_
  · refine (run _).mpr ⟨List.cons_ne_nil _ _, fun character member => ?_⟩
    rcases List.mem_cons.mp member with rfl | inRun
    · exact isAllowed
    · exact List.mem_takeWhile_imp inRun
  · intro other isPrefix member
    have all := ((run _).mp member).2
    exact (begins_takeWhile isPrefix fun character inOther => all character (by
      simp [inOther])).length_le

/-! ### Quotes -/

/-- Where the text behind a quote ends: at the next quote, at a line feed before that, or with the
line. -/
theorem quoted_cases (quote : Char) (rest : Text) :
    ∃ inside, (∀ character ∈ inside, character ∉ ['\n', quote]) ∧
      ((∃ behind, rest = inside ++ quote :: behind) ∨ (∃ behind, rest = inside ++ '\n' :: behind) ∨
        rest = inside) := by
  induction rest with
  | nil => exact ⟨[], by simp, Or.inr (Or.inr rfl)⟩
  | cons character rest inductionHypothesis =>
    by_cases closes : character = quote
    · exact ⟨[], by simp, Or.inl ⟨rest, by rw [closes, List.nil_append]⟩⟩
    by_cases breaks : character = '\n'
    · exact ⟨[], by simp, Or.inr (Or.inl ⟨rest, by rw [breaks, List.nil_append]⟩)⟩
    obtain ⟨inside, ordinary, ends⟩ := inductionHypothesis
    refine ⟨character :: inside, fun other member => ?_, ?_⟩
    · rcases List.mem_cons.mp member with rfl | later
      · simp [closes, breaks]
      · exact ordinary other later
    · rcases ends with ⟨behind, rfl⟩ | ⟨behind, rfl⟩ | rfl
      · exact Or.inl ⟨behind, rfl⟩
      · exact Or.inr (Or.inl ⟨behind, rfl⟩)
      · exact Or.inr (Or.inr rfl)

theorem quotedLength_append {quote : Char} {inside : Text}
    (ordinary : ∀ character ∈ inside, character ∉ ['\n', quote]) (behind : Text) :
    Lexeme.quotedLength quote (inside ++ behind) =
      ((Lexeme.quotedLength quote behind).1,
        (Lexeme.quotedLength quote behind).2 + inside.length) := by
  induction inside with
  | nil => rfl
  | cons character rest inductionHypothesis =>
    have here := ordinary character (by simp)
    simp only [List.mem_cons, List.not_mem_nil, or_false, not_or] at here
    rw [List.cons_append, Lexeme.quotedLength, if_neg here.2, if_neg here.1,
      inductionHypothesis fun other member => ordinary other (by simp [member])]
    simp [Nat.add_assoc]

/-- Text up to the first character that is not allowed is determined. -/
theorem stop_unique {allowed : Char → Prop} {inside behind more : Text} {stop otherStop : Char}
    (all : ∀ character ∈ inside, allowed character)
    (otherAll : ∀ character ∈ other, allowed character) (stops : ¬ allowed stop)
    (otherStops : ¬ allowed otherStop)
    (same : inside ++ stop :: behind = other ++ otherStop :: more) :
    inside = other ∧ stop = otherStop := by
  induction inside generalizing other with
  | nil =>
    cases other with
    | nil => exact ⟨rfl, (List.cons.inj same).1⟩
    | cons character rest =>
      rw [(List.cons.inj same).1] at stops
      exact absurd (otherAll character (by simp)) stops
  | cons character rest inductionHypothesis =>
    cases other with
    | nil =>
      rw [← (List.cons.inj same).1] at otherStops
      exact absurd (all character (by simp)) otherStops
    | cons head tail =>
      obtain ⟨rfl, further⟩ := List.cons.inj same
      obtain ⟨rfl, sameStop⟩ := inductionHypothesis
        (fun other member => all other (by simp [member]))
        (fun other member => otherAll other (by simp [member])) further
      exact ⟨rfl, sameStop⟩

section Quotes

variable {quote : Char} {kind : Kind}

theorem mem_quoted (language : kind.language = enclosed quote (noneOf ['\n', quote])∗) :
    quote :: tail ∈ kind.language ↔
      ∃ inside, (∀ character ∈ inside, character ∉ ['\n', quote]) ∧ tail = inside ++ [quote] := by
  rw [language, mem_enclosed_noneOf]
  exact exists_congr fun inside => and_congr_right fun _ => by simp

/-- A token between quotes ends at the first quote or line feed. -/
theorem quoted_stops (language : kind.language = enclosed quote (noneOf ['\n', quote])∗)
    {inside more behind : Text} {stop : Char}
    (ordinary : ∀ character ∈ inside, character ∉ ['\n', quote]) (stops : stop ∈ ['\n', quote])
    (member : quote :: tail ∈ kind.language) (same : tail ++ more = inside ++ stop :: behind) :
    tail = inside ++ [quote] ∧ stop = quote := by
  obtain ⟨other, otherOrdinary, rfl⟩ := (mem_quoted language).mp member
  simp only [List.append_assoc, List.singleton_append] at same
  obtain ⟨rfl, rfl⟩ := stop_unique otherOrdinary ordinary (by simp) (not_not.mpr stops) same
  exact ⟨rfl, rfl⟩

variable (begins : Kind.ofFirst quote = some kind) (notAngle : kind ≠ .greater)
  (language : kind.language = enclosed quote (noneOf ['\n', quote])∗) {inside : Text}
  (ordinary : ∀ character ∈ inside, character ∉ ['\n', quote])

include language ordinary

/-- Text without the quote and without line feeds can still be closed. -/
theorem viable_quoted {shorter : Text} (isShorter : shorter <+: inside) :
    Viable (quote :: shorter) :=
  ⟨[quote], kind, (mem_quoted language).mpr
    ⟨shorter, fun character member => ordinary character (isShorter.subset member), rfl⟩⟩

include begins notAngle

theorem cut_closed (behind : Text) :
    LongestToken kind (quote :: (inside ++ [quote])) (quote :: (inside ++ quote :: behind)) := by
  refine longest_of_first begins notAngle ⟨behind, by simp⟩
    ((mem_quoted language).mpr ⟨inside, ordinary, rfl⟩) ?_
  rintro other ⟨more, same⟩ member
  rw [(quoted_stops language ordinary (by simp) member same).1]

theorem cut_broken (notFeed : quote ≠ '\n') (behind : Text) :
    Dropped (quote :: (inside ++ ['\n'])) (quote :: (inside ++ '\n' :: behind)) := by
  have never : ∀ tail more behind, tail ++ more = inside ++ '\n' :: behind →
      quote :: tail ∉ kind.language := fun tail more behind same member =>
    notFeed (quoted_stops language ordinary (by simp) member same).2.symm
  refine dropped_of_first begins notAngle ⟨behind, by simp⟩ ?_ (Or.inl ⟨fun viable => ?_, ?_⟩)
  · rintro other ⟨more, same⟩
    exact never other more behind same
  · obtain ⟨more, member⟩ := viable_first begins notAngle viable
    exact never _ [] more (by simp) member
  · intro shorter isShorter different
    refine viable_quoted language ordinary ?_
    rcases List.prefix_concat_iff.mp isShorter with whole | before
    · exact absurd whole different
    · exact before

theorem cut_unclosed : Dropped (quote :: inside) (quote :: inside) := by
  refine dropped_of_first begins notAngle (List.prefix_refl _) ?_
    (Or.inr ⟨rfl, fun other => viable_quoted language ordinary⟩)
  intro other isPrefix member
  obtain ⟨front, _, rfl⟩ := (mem_quoted language).mp member
  exact ordinary quote (isPrefix.subset (by simp)) (by simp)

omit ordinary in
theorem cut_quoted (notFeed : quote ≠ '\n') (rest : Text) :
    CutFrom (quote :: rest)
      (if (Lexeme.quotedLength quote rest).1 then some kind else none)
      (quote :: rest.take (Lexeme.quotedLength quote rest).2) := by
  obtain ⟨inside, ordinary, ends⟩ := quoted_cases quote rest
  rcases ends with ⟨behind, rfl⟩ | ⟨behind, rfl⟩ | rfl
  · have scanned : Lexeme.quotedLength quote (inside ++ quote :: behind) =
        (true, 1 + inside.length) := by
      rw [quotedLength_append ordinary, Lexeme.quotedLength, if_pos rfl]
    rw [scanned, if_pos rfl, Nat.add_comm, List.take_length_add_append]
    exact cut_closed begins notAngle language ordinary behind
  · have scanned : Lexeme.quotedLength quote (inside ++ '\n' :: behind) =
        (false, 1 + inside.length) := by
      rw [quotedLength_append ordinary, Lexeme.quotedLength, if_neg (Ne.symm notFeed), if_pos rfl]
    rw [scanned, Nat.add_comm, List.take_length_add_append]
    exact cut_broken begins notAngle language ordinary notFeed behind
  · have scanned : Lexeme.quotedLength quote rest = (false, 0 + rest.length) := by
      have whole := quotedLength_append ordinary []
      rwa [List.append_nil] at whole
    rw [scanned, Nat.zero_add, List.take_length]
    exact cut_unclosed begins notAngle language ordinary

end Quotes

/-! ### Text in double quotes -/

/-- A body with the quote that closes it. -/
def Closes (read : Text) : Prop := ∃ body ∈ doubleQuotedBody, read = body ++ ['"']

theorem closes_iff : Closes tail ↔ '"' :: tail ∈ Kind.doubleQuoted.language := by
  refine Iff.trans ?_ mem_enclosed.symm
  exact exists_congr fun body => and_congr_right fun _ => by simp

theorem closes_snoc {character : Char} :
    Closes (read ++ [character]) ↔ read ∈ doubleQuotedBody ∧ character = '"' := by
  constructor
  · rintro ⟨body, member, same⟩
    obtain ⟨rfl, sameLast⟩ := List.append_inj' same rfl
    exact ⟨member, by simpa using sameLast⟩
  · rintro ⟨member, rfl⟩
    exact ⟨read, member, rfl⟩

/-- What comes before a closing quote is the beginning of a body. -/
theorem Closes.unfinished {more : Text} (closes : Closes (read ++ more)) (nonempty : more ≠ []) :
    Unfinished read := by
  obtain ⟨body, member, same⟩ := closes
  rw [← List.dropLast_concat_getLast nonempty, ← List.append_assoc] at same
  obtain ⟨rfl, _⟩ := List.append_inj' same rfl
  exact Unfinished.of_append (Or.inl member)

/-- The two readings that are open after the text that has been read. -/
structure Scans (read : Text) (plain inner : Bool) : Prop where
  plain : plain = true ↔ read ∈ doubleQuotedBody
  inner : inner = true ↔ read ∈ unclosedBody

theorem Scans.start : Scans [] true false := by
  refine ⟨by simp [nil_mem_body], by simp [mem_unclosedBody]⟩

theorem Scans.unfinished {plain inner : Bool} (scans : Scans read plain inner) :
    (plain || inner) = true ↔ Unfinished read := by
  rw [Bool.or_eq_true, scans.plain, scans.inner]
  exact Iff.rfl

theorem Scans.next {plain inner : Bool} (scans : Scans read plain inner) (character : Char) :
    Scans (read ++ [character])
      (plain && character ≠ '"' && character ≠ '\n' || inner && character = '`')
      (plain && character = '`' || inner && character ≠ '`' && character ≠ '\n') := by
  constructor
  · rw [snoc_mem_body, ← scans.plain, ← scans.inner]
    simp [and_comm, and_left_comm]
  · rw [snoc_mem_unclosed, ← scans.plain, ← scans.inner]
    simp [and_comm, and_left_comm]

/-- The greatest number with a property, or nothing if there is none. -/
def Greatest (holds : Nat → Prop) : Option Nat → Prop
  | some number => holds number ∧ ∀ other, holds other → other ≤ number
  | none => ∀ number, ¬ holds number

theorem Greatest.congr {holds others : Nat → Prop} {result : Option Nat}
    (greatest : Greatest holds result) (same : ∀ number, others number ↔ holds number) :
    Greatest others result := by
  rwa [show others = holds from funext fun number => propext (same number)]

/-- The lengths at which text in double quotes is closed, from what has been read on. -/
def ClosesAt (read rest : Text) (length : Nat) : Prop :=
  ∃ more, more <+: rest ∧ more ≠ [] ∧ Closes (read ++ more) ∧ length = (read ++ more).length

theorem closesAt_nil (read : Text) (length : Nat) : ¬ ClosesAt read [] length := by
  rintro ⟨more, isPrefix, nonempty, _⟩
  exact nonempty (List.prefix_nil.mp isPrefix)

/-- A reading closes at the next character if that is a quote and all before it is a body, or it
closes later. -/
theorem closesAt_cons {character : Char} {length : Nat} :
    ClosesAt read (character :: rest) length ↔
      (read ∈ doubleQuotedBody ∧ character = '"' ∧ length = read.length + 1) ∨
        ClosesAt (read ++ [character]) rest length := by
  constructor
  · rintro ⟨more, isPrefix, nonempty, closes, rfl⟩
    rcases List.prefix_cons_iff.mp isPrefix with rfl | ⟨tail, rfl, isTail⟩
    · exact absurd rfl nonempty
    by_cases empty : tail = []
    · subst empty
      obtain ⟨member, isQuote⟩ := closes_snoc.mp closes
      exact Or.inl ⟨member, isQuote, by simp⟩
    · exact Or.inr ⟨tail, isTail, empty, by simpa using closes, by simp⟩
  · rintro (⟨member, isQuote, rfl⟩ | ⟨more, isPrefix, _, closes, rfl⟩)
    · exact ⟨[character], by simp, by simp, closes_snoc.mpr ⟨member, isQuote⟩, by simp⟩
    · exact ⟨character :: more, (List.prefix_cons_inj character).mpr isPrefix, by simp,
        by simpa using closes, by simp⟩

theorem closesAt_of_mem (isPrefix : other <+: rest)
    (member : '"' :: other ∈ Kind.doubleQuoted.language) : ClosesAt [] rest other.length := by
  have closes := closes_iff.mpr member
  refine ⟨other, isPrefix, ?_, closes, rfl⟩
  rintro rfl
  obtain ⟨body, _, same⟩ := closes
  simp at same

/-- The scan remembers the last place at which a reading closed. -/
theorem doubleQuotedLength_greatest (rest : Text) {plain inner : Bool} {closed : Option Nat}
    {earlier : Nat → Prop} (scans : Scans read plain inner) (greatest : Greatest earlier closed)
    (behind : ∀ length, earlier length → length ≤ read.length) :
    Greatest (fun length => earlier length ∨ ClosesAt read rest length)
      (Lexeme.doubleQuotedLength plain inner read.length closed rest).1 := by
  induction rest generalizing read plain inner closed earlier with
  | nil => exact greatest.congr fun length => by simp [closesAt_nil]
  | cons character rest inductionHypothesis =>
    have next := scans.next character
    -- What has closed by now: at an earlier place, or with this character.
    let now := fun length => earlier length ∨
      (read ∈ doubleQuotedBody ∧ character = '"' ∧ length = read.length + 1)
    have greatestNow : Greatest now
        (if plain && character = '"' then some (read.length + 1) else closed) := by
      by_cases closes : (plain && character = '"') = true
      · rw [if_pos closes]
        rw [Bool.and_eq_true, scans.plain, decide_eq_true_eq] at closes
        refine ⟨Or.inr ⟨closes.1, closes.2, rfl⟩, fun length before => ?_⟩
        rcases before with before | ⟨_, _, rfl⟩
        · exact Nat.le_succ_of_le (behind length before)
        · exact Nat.le_refl _
      · rw [if_neg closes]
        rw [Bool.and_eq_true, scans.plain, decide_eq_true_eq] at closes
        refine greatest.congr fun length => ?_
        exact or_iff_left fun other => closes ⟨other.1, other.2.1⟩
    have behindNow : ∀ length, now length → length ≤ (read ++ [character]).length := by
      rintro length (before | ⟨_, _, rfl⟩)
      · exact Nat.le_trans (behind length before) (by simp)
      · simp
    have regrouped : ∀ length, (earlier length ∨ ClosesAt read (character :: rest) length) ↔
        (now length ∨ ClosesAt (read ++ [character]) rest length) := fun length => by
      rw [closesAt_cons, or_assoc]
    rw [Lexeme.doubleQuotedLength]
    by_cases goesOn : ((plain && character ≠ '"' && character ≠ '\n' || inner && character = '`') ||
        (plain && character = '`' || inner && character ≠ '`' && character ≠ '\n')) = true
    · rw [if_pos goesOn]
      have further := inductionHypothesis next greatestNow behindNow
      rw [List.length_append, List.length_singleton] at further
      exact further.congr regrouped
    · rw [if_neg goesOn]
      refine greatestNow.congr fun length => (regrouped length).trans (or_iff_left ?_)
      -- Nothing closes after both readings have ended.
      rintro ⟨more, _, nonempty, closes, _⟩
      exact goesOn (next.unfinished.mpr (closes.unfinished nonempty))

/-- The scan ends after the first character that no body can have there, or with the line. -/
theorem doubleQuotedLength_end (rest : Text) {plain inner : Bool} (closed : Option Nat)
    (scans : Scans read plain inner) (unfinished : Unfinished read) :
    ∃ more, more <+: rest ∧
      (Lexeme.doubleQuotedLength plain inner read.length closed rest).2 =
        read.length + more.length ∧
      (∀ shorter, shorter <+: more → shorter ≠ more → Unfinished (read ++ shorter)) ∧
      (¬ Unfinished (read ++ more) ∨ more = rest ∧ Unfinished (read ++ more)) := by
  induction rest generalizing read plain inner closed with
  | nil =>
    refine ⟨[], List.prefix_refl _, rfl, fun shorter isShorter different => ?_, Or.inr ⟨rfl, ?_⟩⟩
    · exact absurd (List.prefix_nil.mp isShorter) different
    · simpa using unfinished
  | cons character rest inductionHypothesis =>
    have next := scans.next character
    -- A beginning of the text from this character on is empty or begins with it.
    have extend : ∀ {more : Text}, (∀ shorter, shorter <+: more → shorter ≠ more →
        Unfinished (read ++ [character] ++ shorter)) →
        ∀ shorter, shorter <+: character :: more → shorter ≠ character :: more →
        Unfinished (read ++ shorter) := by
      intro more each shorter isShorter different
      rcases List.prefix_cons_iff.mp isShorter with rfl | ⟨tail, rfl, isTail⟩
      · simpa using unfinished
      · simpa using each tail isTail fun same => different (by rw [same])
    rw [Lexeme.doubleQuotedLength]
    by_cases goesOn : ((plain && character ≠ '"' && character ≠ '\n' || inner && character = '`') ||
        (plain && character = '`' || inner && character ≠ '`' && character ≠ '\n')) = true
    · rw [if_pos goesOn]
      obtain ⟨more, isPrefix, length, each, last⟩ := inductionHypothesis
        (if plain && character = '"' then some (read.length + 1) else closed) next
        (next.unfinished.mp goesOn)
      rw [List.length_append, List.length_singleton] at length
      refine ⟨character :: more, (List.prefix_cons_inj character).mpr isPrefix, ?_, extend each, ?_⟩
      · rw [length, List.length_cons]
        omega
      · rcases last with dead | ⟨rfl, alive⟩
        · exact Or.inl (by simpa using dead)
        · exact Or.inr ⟨rfl, by simpa using alive⟩
    · rw [if_neg goesOn]
      refine ⟨[character], by simp, rfl, extend fun shorter isShorter different => ?_, Or.inl ?_⟩
      · exact absurd (List.prefix_nil.mp isShorter) different
      · exact fun alive => goesOn (next.unfinished.mpr alive)

theorem doubleQuotedLength_closes (rest : Text) :
    Greatest (ClosesAt [] rest) (Lexeme.doubleQuotedLength true false 0 none rest).1 := by
  have greatest := doubleQuotedLength_greatest rest Scans.start
    (show Greatest (fun _ => False) none from fun _ => id) fun _ => False.elim
  exact greatest.congr fun length => by simp

theorem cut_doubleQuoted {length : Nat}
    (closed : (Lexeme.doubleQuotedLength true false 0 none rest).1 = some length) :
    LongestToken .doubleQuoted ('"' :: rest.take length) ('"' :: rest) := by
  have greatest := doubleQuotedLength_closes rest
  rw [closed] at greatest
  obtain ⟨⟨more, isPrefix, _, closes, rfl⟩, longest⟩ := greatest
  rw [List.nil_append] at closes longest ⊢
  rw [← List.prefix_iff_eq_take.mp isPrefix]
  exact longest_of_first rfl (by decide) isPrefix (closes_iff.mp closes)
    fun other otherPrefix member => longest other.length (closesAt_of_mem otherPrefix member)

/-- Text behind a double quote that is never closed is dropped, as far as it was scanned. -/
theorem drop_doubleQuoted (unclosed : (Lexeme.doubleQuotedLength true false 0 none rest).1 = none) :
    Dropped ('"' :: rest.take (Lexeme.doubleQuotedLength true false 0 none rest).2)
      ('"' :: rest) := by
  have greatest := doubleQuotedLength_closes rest
  rw [unclosed] at greatest
  have noToken : ∀ other, other <+: rest → '"' :: other ∉ Kind.doubleQuoted.language :=
    fun other isPrefix member => greatest other.length (closesAt_of_mem isPrefix member)
  obtain ⟨more, isPrefix, length, each, last⟩ :=
    doubleQuotedLength_end rest none Scans.start (Or.inl nil_mem_body)
  rw [List.length_nil, Nat.zero_add] at length
  rw [length, ← List.prefix_iff_eq_take.mp isPrefix]
  refine dropped_of_first rfl (by decide) isPrefix noToken ?_
  rcases last with dead | ⟨rfl, alive⟩
  · refine Or.inl ⟨fun viable => ?_, fun shorter isShorter different =>
      (each shorter isShorter different).viable⟩
    obtain ⟨further, member⟩ := viable_first rfl (by decide) viable
    by_cases empty : further = []
    · rw [empty, List.append_nil] at member
      exact noToken more isPrefix member
    · exact dead ((closes_iff.mpr member).unfinished empty)
  · refine Or.inr ⟨rfl, fun other isOther => ?_⟩
    obtain ⟨further, whole⟩ := isOther
    rw [List.nil_append, ← whole] at alive
    exact (Unfinished.of_append alive).viable

/-! ### Every first lexeme -/

/-- A line feed outside of quotes is dropped by itself. -/
theorem drop_lineFeed (rest : Text) : Dropped ['\n'] ('\n' :: rest) := by
  have never : ∀ {kind : Kind} {tail : Text}, '\n' :: tail ∉ kind.language := by
    intro kind tail member
    exact absurd (family_of_mem member) (by simp [Kind.ofFirst])
  refine ⟨⟨rest, rfl⟩, List.cons_ne_nil _ _, ?_, Or.inl ⟨?_, ?_⟩⟩
  · rintro other isPrefix ⟨kind, member⟩
    rcases List.prefix_cons_iff.mp isPrefix with rfl | ⟨tail, rfl, _⟩
    · exact ne_nil_of_mem member rfl
    · exact never member
  · rintro ⟨more, kind, member⟩
    exact never member
  · intro shorter isShorter different
    rcases List.prefix_cons_iff.mp isShorter with rfl | ⟨tail, rfl, isTail⟩
    · exact viable_nil
    · exact absurd (by rw [List.prefix_nil.mp isTail]) different

/-- The first lexeme of a text is cut off by the rules of a tiling. -/
theorem measure_cut (first : Char) (rest : Text) :
    CutFrom (first :: rest) (Lexeme.measure first rest).1
      (first :: rest.take (Lexeme.measure first rest).2) := by
  unfold Lexeme.measure
  split_ifs with semicolon bar less greater single back double feed blank
  · subst semicolon
    exact cut_operator rfl (by decide) fun _ => Iff.rfl
  · subst bar
    exact cut_operator rfl (by decide) fun _ => Iff.rfl
  · subst less
    exact cut_operator rfl (by decide) fun _ => Iff.rfl
  · subst greater
    split
    · exact cut_twoAngles _
    · rename_i alone
      exact cut_oneAngle alone
  · subst single
    have cut := @cut_quoted '\'' .singleQuoted rfl (by decide) rfl (by decide) rest
    rcases scanned : Lexeme.quotedLength '\'' rest with ⟨closed, length⟩
    rw [scanned] at cut
    cases closed <;> exact cut
  · subst back
    have cut := @cut_quoted '`' .backQuoted rfl (by decide) rfl (by decide) rest
    rcases scanned : Lexeme.quotedLength '`' rest with ⟨closed, length⟩
    rw [scanned] at cut
    cases closed <;> exact cut
  · subst double
    rcases scanned : Lexeme.doubleQuotedLength true false 0 none rest with ⟨_ | length, last⟩
    · have dropped := @drop_doubleQuoted rest (by rw [scanned])
      rw [scanned] at dropped
      exact dropped
    · exact cut_doubleQuoted (by rw [scanned])
  · subst feed
    exact drop_lineFeed rest
  · rw [take_takeWhile]
    exact cut_run (ofFirst_blank blank) (by decide) blank fun _ => mem_blank
  · have plain : Lexeme.isPlain first = true := by
      simp [Lexeme.isPlain, semicolon, bar, less, greater, single, back, double, feed, blank]
    rw [take_takeWhile]
    exact cut_run (ofFirst_plain plain) (by decide) plain fun _ => mem_unquoted

/-! ### The whole line -/

/-- Cutting a line with enough fuel gives a tiling of it. -/
theorem cut_tiling (fuel : Nat) (mark : Mark) (line : Text) (enough : line.length ≤ fuel) :
    Tiling mark line (Lexeme.cut fuel mark line) := by
  induction fuel generalizing mark line with
  | zero =>
    rw [List.length_eq_zero_iff.mp (Nat.le_zero.mp enough)]
    exact .nil mark
  | succ fuel inductionHypothesis =>
    cases line with
    | nil => exact .nil mark
    | cons first rest =>
      have cut := measure_cut first rest
      rw [Lexeme.cut]
      generalize Lexeme.measure first rest = measured at cut ⊢
      obtain ⟨kind, length⟩ := measured
      rw [List.length_cons] at enough
      have further := inductionHypothesis (mark.after (first :: rest.take length))
        (rest.drop length) (by rw [List.length_drop]; omega)
      have whole : first :: rest = first :: rest.take length ++ rest.drop length := by simp
      rw [whole] at cut ⊢
      exact .cons cut further

theorem after_offset (mark : Mark) (text : Text) :
    (mark.after text).offset = mark.offset + text.length := by
  induction text generalizing mark with
  | nil => rfl
  | cons character rest inductionHypothesis =>
    have step : (mark.next character).offset = mark.offset + 1 := by
      unfold Mark.next
      split <;> rfl
    rw [Mark.after, List.foldl_cons, ← Mark.after, inductionHypothesis, step, List.length_cons]
    omega

theorem Tiling.whole {mark : Mark} {line : Text} {lexemes : List Lexeme}
    (tiling : Tiling mark line lexemes) : lexemes.flatMap Lexeme.text = line := by
  induction tiling with
  | nil => rfl
  | cons _ _ inductionHypothesis => rw [List.flatMap_cons, inductionHypothesis]

/-- Every lexeme begins where the ones before it end. -/
theorem Tiling.offset {mark : Mark} {line : Text} {lexemes : List Lexeme}
    (tiling : Tiling mark line lexemes) {before behind : List Lexeme} {lexeme : Lexeme}
    (split : lexemes = before ++ lexeme :: behind) :
    lexeme.mark.offset = mark.offset + (before.flatMap Lexeme.text).length := by
  induction tiling generalizing before with
  | nil => simp at split
  | @cons mark kind text rest lexemes _ _ inductionHypothesis =>
    cases before with
    | nil =>
      obtain ⟨rfl, _⟩ := List.cons.inj split
      rfl
    | cons head tail =>
      obtain ⟨rfl, further⟩ := List.cons.inj split
      rw [inductionHypothesis further, after_offset, List.flatMap_cons, List.length_append,
        Nat.add_assoc]

/-- The report about a lexeme that was dropped. -/
def Lexeme.complaint? (lexeme : Lexeme) : Option Report :=
  match lexeme.kind with
  | some _ => none
  | none => some ⟨lexeme.mark, .unrecognised lexeme.text⟩

theorem ofLexemes_reports (count : Nat) (lexemes : List Lexeme) :
    (Report.ofLexemes count lexemes).map Prod.snd = lexemes.filterMap Lexeme.complaint? := by
  induction lexemes generalizing count with
  | nil => rfl
  | cons lexeme rest inductionHypothesis =>
    obtain ⟨_ | kind, text, mark⟩ := lexeme
    · rw [Report.ofLexemes, List.map_cons, inductionHypothesis]
      rfl
    · rw [Report.ofLexemes, inductionHypothesis]
      rfl

/-- Cutting a line is a longest-match tiling: the lexemes together are the line, each begins where
the ones before it end, and each is the longest token at its place or is dropped because there is
none. The tokens of the line and the reports about dropped text are these lexemes, and no other
lexemes tile the line. -/
theorem ofLine_tiling (line : Text) :
    (Lexeme.ofLine line).flatMap Lexeme.text = line ∧
    (∀ before lexeme behind, Lexeme.ofLine line = before ++ lexeme :: behind →
      lexeme.mark.offset = (before.flatMap Lexeme.text).length) ∧
    (∀ lexemes, Tiling Mark.start line lexemes ↔ lexemes = Lexeme.ofLine line) ∧
    Token.ofLine line = (Lexeme.ofLine line).filterMap Lexeme.token? ∧
    (Report.ofLexemes 0 (Lexeme.ofLine line)).map Prod.snd =
      (Lexeme.ofLine line).filterMap Lexeme.complaint? := by
  have tiling : Tiling Mark.start line (Lexeme.ofLine line) :=
    cut_tiling line.length Mark.start line (Nat.le_refl _)
  refine ⟨tiling.whole, fun before lexeme behind split => ?_, fun lexemes => ?_, rfl,
    ofLexemes_reports 0 _⟩
  · rw [tiling.offset split]
    exact Nat.zero_add _
  · constructor
    · exact fun other => other.unique tiling
    · rintro rfl
      exact tiling

end MiniShell
