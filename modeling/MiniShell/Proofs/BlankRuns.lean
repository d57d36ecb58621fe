/-
This file exchanges one run of blanks for another. Whether a text is a token
never depends on how many blanks stand somewhere inside of it, or on which
blanks these are. Since a line is cut by longest match, and that only asks
which beginnings of the line are tokens, a run of blanks that is a token can be
written in any other way: the line is cut in the same places.

Blanks in quotes are no run of their own, and exchanging them would change a
word. They have to be followed all the same, because a longer token might begin
before a run of blanks and reach over it.
-/

import MiniShell.Proofs.Quoting

namespace MiniShell

open Computability

/-! ### Blanks inside of a token -/

/-- A language that does not tell one run of blanks from another. -/
def IgnoresGaps (language : Language Char) : Prop :=
  ∀ (gap other : Gap) (before behind : Text),
    before ++ gap.text ++ behind ∈ language → before ++ other.text ++ behind ∈ language

namespace IgnoresGaps

/-- No text of the language holds a blank. -/
theorem of_solid {language : Language Char}
    (solid : ∀ text ∈ language, ∀ character ∈ text, Lexeme.isBlank character = false) :
    IgnoresGaps language := by
  intro gap other before behind member
  obtain ⟨first, tail, text⟩ := List.exists_cons_of_ne_nil gap.nonempty
  have notBlank := solid _ member first (by simp [text])
  rw [(isBlank_iff first).mpr (gap.blank first (by simp [text]))] at notBlank
  exact absurd notBlank (by decide)

theorem of_only {text : Text} (solid : ∀ character ∈ text, Lexeme.isBlank character = false) :
    IgnoresGaps {text} := by
  refine of_solid fun other member => ?_
  rw [Set.mem_singleton_iff.mp member]
  exact solid

theorem kstar_single {allowed : Char → Prop}
    (blanks : ∀ character ∈ [' ', '\t'], allowed character) :
    IgnoresGaps (single allowed)∗ := by
  intro gap other before behind member
  rw [mem_kstar_single] at member ⊢
  intro character inText
  rw [List.mem_append, List.mem_append] at inText
  rcases inText with (inBefore | inOther) | inBehind
  · exact member character (by simp [inBefore])
  · exact blanks character (other.blank character inOther)
  · exact member character (by simp [inBehind])

/-- Blanks between quotes are blanks of what is enclosed, for a quote is no blank. -/
theorem enclosed {quote : Char} (notBlank : quote ∉ [' ', '\t']) {inside : Language Char}
    (ignores : IgnoresGaps inside) : IgnoresGaps (enclosed quote inside) := by
  intro gap other before behind member
  obtain ⟨part, inInside, whole⟩ := mem_enclosed.mp member
  cases before with
  | nil =>
    obtain ⟨first, tail, text⟩ := List.exists_cons_of_ne_nil gap.nonempty
    rw [text] at whole
    obtain rfl : first = quote := (List.cons.inj whole).1
    exact absurd (gap.blank first (by simp [text])) notBlank
  | cons opening before =>
    rcases List.eq_nil_or_concat behind with rfl | ⟨behind, closing, rfl⟩
    · obtain ⟨front, last, text⟩ : ∃ front last, gap.text = front ++ [last] :=
        ⟨_, _, (List.dropLast_concat_getLast gap.nonempty).symm⟩
      rw [text, List.append_nil, ← List.append_assoc, ← List.cons_append] at whole
      obtain rfl : last = quote := by simpa using (List.append_inj' whole rfl).2
      exact absurd (gap.blank last (by simp [text])) notBlank
    · rw [List.concat_eq_append, ← List.append_assoc, ← List.cons_append] at whole
      obtain ⟨front, closes⟩ := List.append_inj' whole rfl
      obtain rfl : closing = quote := by simpa using closes
      obtain ⟨rfl, rfl⟩ : opening = closing ∧ before ++ gap.text ++ behind = part := by
        simpa using front
      exact mem_enclosed.mpr
        ⟨before ++ other.text ++ behind, ignores gap other before behind inInside, by simp⟩

end IgnoresGaps

/-- Blanks in double quotes leave it open which readings of the back quotes there are. -/
theorem append_gap_mem_body {read run : Text}
    (blank : ∀ character ∈ run, character ∈ [' ', '\t']) :
    (read ++ run ∈ doubleQuotedBody ↔ read ∈ doubleQuotedBody) ∧
      (read ++ run ∈ unclosedBody ↔ read ∈ unclosedBody) := by
  induction run using List.reverseRecOn with
  | nil => simp
  | append_singleton run character inductionHypothesis =>
    obtain ⟨body, unclosed⟩ :=
      inductionHypothesis fun other member => blank other (by simp [member])
    have ordinary : character ∉ ['\n', '"'] ∧ character ∉ ['\n', '`'] ∧ character ≠ '`' := by
      rcases List.mem_pair.mp (blank character (by simp)) with rfl | rfl <;> decide
    rw [← List.append_assoc, snoc_mem_body, snoc_mem_unclosed, body, unclosed]
    simp [ordinary]

/-- What may follow a beginning of a body is known from the readings that are left. -/
theorem append_mem_body_congr {read other : Text}
    (body : read ∈ doubleQuotedBody ↔ other ∈ doubleQuotedBody)
    (unclosed : read ∈ unclosedBody ↔ other ∈ unclosedBody) (behind : Text) :
    (read ++ behind ∈ doubleQuotedBody ↔ other ++ behind ∈ doubleQuotedBody) ∧
      (read ++ behind ∈ unclosedBody ↔ other ++ behind ∈ unclosedBody) := by
  induction behind using List.reverseRecOn with
  | nil => simpa using ⟨body, unclosed⟩
  | append_singleton behind character inductionHypothesis =>
    obtain ⟨bodies, others⟩ := inductionHypothesis
    rw [← List.append_assoc, ← List.append_assoc, snoc_mem_body, snoc_mem_body, snoc_mem_unclosed,
      snoc_mem_unclosed, bodies, others]
    exact ⟨Iff.rfl, Iff.rfl⟩

theorem doubleQuotedBody_ignoresGaps : IgnoresGaps doubleQuotedBody := by
  intro gap other before behind member
  obtain ⟨body, unclosed⟩ := @append_gap_mem_body before gap.text gap.blank
  obtain ⟨otherBody, otherUnclosed⟩ := @append_gap_mem_body before other.text other.blank
  exact (append_mem_body_congr (body.trans otherBody.symm) (unclosed.trans otherUnclosed.symm)
    behind).1.mp member

/-- No kind of token tells one run of blanks from another. -/
theorem language_ignoresGaps (kind : Kind) : IgnoresGaps kind.language := by
  cases kind with
  | semicolon => exact .of_only (by simp [Lexeme.isBlank])
  | bar => exact .of_only (by simp [Lexeme.isBlank])
  | less => exact .of_only (by simp [Lexeme.isBlank])
  | greater => exact .of_only (by simp [Lexeme.isBlank])
  | doubleGreater => exact .of_only (by simp [Lexeme.isBlank])
  | unquoted =>
    refine .of_solid fun text member character inText => ?_
    have plain := (mem_unquoted.mp member).2 character inText
    simp only [Lexeme.isPlain, Bool.not_eq_true', Bool.or_eq_false_iff] at plain
    exact plain.1.1.1.1.1.1.1.1
  | singleQuoted => exact .enclosed (by simp) (.kstar_single (by simp))
  | backQuoted => exact .enclosed (by simp) (.kstar_single (by simp))
  | doubleQuoted => exact .enclosed (by simp) doubleQuotedBody_ignoresGaps
  | blank =>
    intro gap other before behind member
    rw [mem_blank] at member ⊢
    refine ⟨by simp [other.nonempty], fun character inText => ?_⟩
    rw [List.mem_append, List.mem_append] at inText
    rcases inText with (inBefore | inOther) | inBehind
    · exact member.2 character (by simp [inBefore])
    · exact (isBlank_iff character).mpr (other.blank character inOther)
    · exact member.2 character (by simp [inBehind])
  | lineEnd => exact fun _ _ _ _ member => absurd member (Language.notMem_zero _)

/-! ### Longest tokens -/

/-- A beginning of two texts ends in the first one or goes on in the second. -/
theorem prefix_append_cases {text first second : Text} (begins : text <+: first ++ second) :
    text <+: first ∨ ∃ more, text = first ++ more ∧ more <+: second := by
  rcases List.prefix_or_prefix_of_prefix begins (List.prefix_append first second) with
    inFirst | ⟨more, rfl⟩
  · exact Or.inl inFirst
  · exact Or.inr ⟨more, rfl, (List.prefix_append_right_inj first).mp begins⟩

variable {gap other : Gap}

/-- A token at the beginning of a line ends before the blanks, or there is one that ends behind
the beginning of the blanks also where they are written in another way. -/
theorem exists_longer_token {before behind text : Text}
    (begins : text <+: before ++ other.text ++ behind) (isToken : IsToken text) :
    text <+: before ∨ ∃ longer, longer <+: before ++ gap.text ++ behind ∧ IsToken longer ∧
      before.length < longer.length := by
  have room := List.length_pos_of_ne_nil gap.nonempty
  obtain ⟨kind, member⟩ := isToken
  rw [List.append_assoc] at begins
  rcases prefix_append_cases begins with inBefore | ⟨more, rfl, isMore⟩
  · exact Or.inl inBefore
  by_cases none : more = []
  · rw [none, List.append_nil]
    exact Or.inl (List.prefix_refl _)
  right
  rcases prefix_append_cases isMore with inGap | ⟨rest, rfl, isRest⟩
  · have partOfGap : ∀ character ∈ more, character ∈ [' ', '\t'] :=
      fun character inMore => other.blank character (inGap.subset inMore)
    refine ⟨before ++ gap.text, List.prefix_append _ _, ⟨kind, ?_⟩, by simp [room]⟩
    have exchanged := language_ignoresGaps kind ⟨more, none, partOfGap⟩ gap before []
      (by simpa using member)
    simpa using exchanged
  · refine ⟨before ++ gap.text ++ rest, (List.prefix_append_right_inj _).mpr isRest, ⟨kind, ?_⟩, ?_⟩
    · exact language_ignoresGaps kind other gap before rest (by simpa using member)
    · simp only [List.length_append]
      omega

/-- What is cut off before the blanks does not change. -/
theorem CutFrom.exchange {kind : Option Kind} {text between behind : Text}
    (cut : CutFrom (text ++ (between ++ (gap.text ++ behind))) kind text) :
    CutFrom (text ++ (between ++ (other.text ++ behind))) kind text := by
  have shared {before : Text} (inBefore : before <+: text ++ between) :
      before <+: text ++ (between ++ (gap.text ++ behind)) :=
    inBefore.trans (by rw [← List.append_assoc]; exact List.prefix_append _ _)
  have exchanged {token : Text} (begins : token <+: text ++ (between ++ (other.text ++ behind)))
      (isToken : IsToken token) : token <+: text ++ between ∨
        ∃ longer, longer <+: text ++ (between ++ (gap.text ++ behind)) ∧ IsToken longer ∧
          (text ++ between).length < longer.length := by
    have found := @exists_longer_token gap other (text ++ between) behind token
      (by simpa using begins) isToken
    simpa using found
  cases kind with
  | none =>
    refine ⟨List.prefix_append _ _, cut.nonempty, fun token begins isToken => ?_, ?_⟩
    · rcases exchanged begins isToken with inBefore | ⟨longer, isLonger, alsoToken, _⟩
      · exact cut.noToken token (shared inBefore) isToken
      · exact cut.noToken longer isLonger alsoToken
    · rcases cut.ends with dead | ⟨whole, _⟩
      · exact Or.inl dead
      · -- The text is not the whole line, because blanks follow it.
        have empty : between ++ (gap.text ++ behind) = [] := by simpa using whole.symm
        exact absurd empty (by simp [gap.nonempty])
  | some kind =>
    refine ⟨List.prefix_append _ _, cut.isToken, fun token begins isToken => ?_⟩
    rcases exchanged begins isToken with inBefore | ⟨longer, isLonger, alsoToken, length⟩
    · exact cut.longest token (shared inBefore) isToken
    · have bound := cut.longest longer isLonger alsoToken
      rw [List.length_append] at length
      omega

/-- The blanks themselves are cut off as one token. -/
theorem gap_longest {behind : Text}
    (longest : LongestToken .blank gap.text (gap.text ++ behind)) :
    LongestToken .blank other.text (other.text ++ behind) := by
  refine ⟨List.prefix_append _ _, other.mem_blank, fun token begins isToken => ?_⟩
  rcases prefix_append_cases begins with inGap | ⟨more, rfl, isMore⟩
  · exact inGap.length_le
  · obtain ⟨kind, member⟩ := isToken
    have bound := longest.longest (gap.text ++ more) ((List.prefix_append_right_inj _).mpr isMore)
      ⟨kind, language_ignoresGaps kind other gap [] more member⟩
    rw [List.length_append] at bound ⊢
    omega

/-! ### Whole lines -/

/-- A lexeme without its position. -/
abbrev Stretch := Option Kind × Text

def Lexeme.stretch (lexeme : Lexeme) : Stretch := (lexeme.kind, lexeme.text)

/-- The text of stretches end to end. -/
def textAlong (stretches : List Stretch) : Text := stretches.flatMap Prod.snd

/-- Each stretch is cut off where it stands. -/
def CutApart : List Stretch → Prop
  | [] => True
  | stretch :: rest => CutFrom (stretch.2 ++ textAlong rest) stretch.1 stretch.2 ∧ CutApart rest

@[simp] theorem textAlong_cons (stretch : Stretch) (rest : List Stretch) :
    textAlong (stretch :: rest) = stretch.2 ++ textAlong rest := List.flatMap_cons

@[simp] theorem textAlong_append (stretches others : List Stretch) :
    textAlong (stretches ++ others) = textAlong stretches ++ textAlong others := List.flatMap_append

theorem Tiling.cutApart {mark : Mark} {line : Text} {lexemes : List Lexeme}
    (tiling : Tiling mark line lexemes) :
    line = textAlong (lexemes.map Lexeme.stretch) ∧ CutApart (lexemes.map Lexeme.stretch) := by
  induction tiling with
  | nil => exact ⟨rfl, trivial⟩
  | cons cut _ inductionHypothesis =>
    obtain ⟨rfl, apart⟩ := inductionHypothesis
    exact ⟨rfl, cut, apart⟩

theorem CutApart.tiling {stretches : List Stretch} (apart : CutApart stretches) (mark : Mark) :
    ∃ lexemes, Tiling mark (textAlong stretches) lexemes ∧
      lexemes.map Lexeme.stretch = stretches := by
  induction stretches generalizing mark with
  | nil => exact ⟨[], .nil mark, rfl⟩
  | cons stretch rest inductionHypothesis =>
    obtain ⟨lexemes, tiling, same⟩ := inductionHypothesis apart.2 (mark.after stretch.2)
    refine ⟨⟨stretch.1, stretch.2, mark⟩ :: lexemes, ?_, by rw [List.map_cons, same]; rfl⟩
    rw [textAlong_cons]
    exact .cons apart.1 tiling

theorem CutApart.exchange {front back : List Stretch}
    (apart : CutApart (front ++ (some .blank, gap.text) :: back)) :
    CutApart (front ++ (some .blank, other.text) :: back) := by
  induction front with
  | nil => exact ⟨gap_longest apart.1, apart.2⟩
  | cons stretch rest inductionHypothesis =>
    rw [List.cons_append] at apart ⊢
    obtain ⟨cut, others⟩ := apart
    refine ⟨?_, inductionHypothesis others⟩
    rw [textAlong_append, textAlong_cons] at cut ⊢
    exact cut.exchange

theorem CutApart.isToken {front back : List Stretch} {kind : Kind} {text : Text}
    (apart : CutApart (front ++ (some kind, text) :: back)) : text ∈ kind.language := by
  induction front with
  | nil => exact LongestToken.isToken apart.1
  | cons _ _ inductionHypothesis => exact inductionHypothesis apart.2

/-- If blanks are written in another way, the line is cut in the same places. -/
theorem ofLine_exchange {line : Text} {front back : List Lexeme} {blank : Lexeme}
    (cut : Lexeme.ofLine line = front ++ blank :: back) (isBlank : blank.kind = some .blank)
    (gap : Gap) :
    (Lexeme.ofLine (front.flatMap Lexeme.text ++ gap.text ++ back.flatMap Lexeme.text)).map
        Lexeme.stretch =
      front.map Lexeme.stretch ++ (some .blank, gap.text) :: back.map Lexeme.stretch := by
  have written (lexemes : List Lexeme) :
      textAlong (lexemes.map Lexeme.stretch) = lexemes.flatMap Lexeme.text := by
    rw [textAlong, List.flatMap_map]
    rfl
  have tiling : Tiling Mark.start line (Lexeme.ofLine line) := cut_tiling _ _ _ (Nat.le_refl _)
  have apart := tiling.cutApart.2
  rw [cut, List.map_append, List.map_cons, Lexeme.stretch, isBlank] at apart
  obtain ⟨nonempty, blanks⟩ := mem_blank.mp apart.isToken
  let before : Gap := ⟨blank.text, nonempty, fun character member =>
    (isBlank_iff character).mp (blanks character member)⟩
  obtain ⟨lexemes, exchanged, same⟩ := (@CutApart.exchange before gap _ _ apart).tiling Mark.start
  rw [textAlong_append, textAlong_cons, written, written, ← List.append_assoc] at exchanged
  rw [← same, exchanged.unique (cut_tiling _ _ _ (Nat.le_refl _))]
  rfl

end MiniShell
