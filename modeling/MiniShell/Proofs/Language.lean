/-
This file describes the lines that can be derived, as sequences of calls with
separators between them. Inside a pipe any sequence is allowed, with calls
missing anywhere. Outside of every pipe a bar must stand between two calls, and
the second bar of a pipe leads inside. The tokens of every command make a line
of the second kind. For a line of the first kind the look ahead finds out
whether it is of the second kind too, and that is what the choice between a
call and a command after a bar rests on.

Both kinds of lines are relations that follow a line from its first item on. So
does the look ahead, which keeps no stack: it only remembers whether a bar has
been seen.
-/

import MiniShell.Proofs.Lookahead

namespace MiniShell

open MiniShell.Derivation

/-! ### Lines inside and outside of pipes -/

/-- A tight call, or nothing. -/
abbrev Item := Option { call : Call // call.Tight }

def Item.tokens : Item → List Token
  | none => []
  | some call => call.val.tokens

/-- The lines that may stand inside a pipe: calls that may be missing, with separators
between them. -/
inductive Inside : List Token → Prop
  | last (item : Item) : Inside item.tokens
  | more (item : Item) (separator : Token) (isSeparator : separator.kind.isSeparator = true)
      (rest : List Token) (others : Inside rest) : Inside (item.tokens ++ separator :: rest)

/-- The lines that may stand outside of every pipe. `barSeen` tells that a bar stands before
the line, so that it has to begin with a call. -/
inductive Outside : Bool → List Token → Prop
  | empty : Outside false []
  | last (barSeen : Bool) (call : Call) (tight : call.Tight) : Outside barSeen call.tokens
  | skip (semicolon : Semicolon) (rest : List Token) (others : Outside false rest) :
      Outside false (semicolon.val :: rest)
  | next (barSeen : Bool) (call : Call) (tight : call.Tight) (semicolon : Semicolon)
      (rest : List Token) (others : Outside false rest) :
      Outside barSeen (call.tokens ++ semicolon.val :: rest)
  | first (call : Call) (tight : call.Tight) (bar : Bar) (rest : List Token)
      (others : Outside true rest) : Outside false (call.tokens ++ bar.val :: rest)
  | second (call : Call) (tight : call.Tight) (bar : Bar) (rest : List Token)
      (others : Inside rest) : Outside true (call.tokens ++ bar.val :: rest)

variable {tokens : List Token}

theorem semicolon_isSeparator (semicolon : Semicolon) :
    semicolon.val.kind.isSeparator = true := by
  rw [semicolon.property]
  rfl

theorem bar_isSeparator (bar : Bar) : bar.val.kind.isSeparator = true := by
  rw [bar.property]
  rfl

/-- Lines outside of pipes are allowed inside of them, too. -/
theorem Outside.inside {barSeen : Bool} (line : Outside barSeen tokens) : Inside tokens := by
  induction line with
  | empty => exact .last none
  | last barSeen call tight => exact .last (some ⟨call, tight⟩)
  | skip semicolon rest _ inductionHypothesis =>
    exact .more none _ (semicolon_isSeparator semicolon) rest inductionHypothesis
  | next barSeen call tight semicolon rest _ inductionHypothesis =>
    exact .more (some ⟨call, tight⟩) _ (semicolon_isSeparator semicolon) rest inductionHypothesis
  | first call tight bar rest _ inductionHypothesis =>
    exact .more (some ⟨call, tight⟩) _ (bar_isSeparator bar) rest inductionHypothesis
  | second call tight bar rest others =>
    exact .more (some ⟨call, tight⟩) _ (bar_isSeparator bar) rest others

/-- Inside a pipe lines can be joined by any separator. -/
theorem Inside.append {first second : List Token} (before : Inside first)
    (behind : Inside second) (separator : Token)
    (isSeparator : separator.kind.isSeparator = true) :
    Inside (first ++ separator :: second) := by
  induction before with
  | last item => exact .more item separator isSeparator second behind
  | more item other isOther rest _ inductionHypothesis =>
    rw [List.append_assoc, List.cons_append]
    exact .more item other isOther _ inductionHypothesis

/-- Outside of pipes lines can be joined by semicolons. -/
theorem Outside.append {barSeen : Bool} {first second : List Token}
    (before : Outside barSeen first) (behind : Outside false second) (semicolon : Semicolon) :
    Outside barSeen (first ++ semicolon.val :: second) := by
  induction before with
  | empty => exact .skip semicolon second behind
  | last barSeen call tight => exact .next barSeen call tight semicolon second behind
  | skip other rest _ inductionHypothesis => exact .skip other _ inductionHypothesis
  | next barSeen call tight other rest _ inductionHypothesis =>
    rw [List.append_assoc, List.cons_append]
    exact .next barSeen call tight other _ inductionHypothesis
  | first call tight bar rest _ inductionHypothesis =>
    rw [List.append_assoc, List.cons_append]
    exact .first call tight bar _ inductionHypothesis
  | second call tight bar rest others =>
    rw [List.append_assoc, List.cons_append]
    exact .second call tight bar _
      (others.append behind.inside semicolon.val (semicolon_isSeparator semicolon))

/-! ### The tokens of commands -/

theorem Inside.ofCall (call : Call) : Inside call.tokens := by
  obtain ⟨tightened, tight, same⟩ := call.exists_tight
  rw [← same]
  exact .last (some ⟨tightened, tight⟩)

theorem Outside.ofCall (barSeen : Bool) (call : Call) : Outside barSeen call.tokens := by
  obtain ⟨tightened, tight, same⟩ := call.exists_tight
  rw [← same]
  exact .last barSeen tightened tight

theorem Outside.ofFirst (call : Call) (bar : Bar) {rest : List Token}
    (others : Outside true rest) : Outside false (call.tokens ++ bar.val :: rest) := by
  obtain ⟨tightened, tight, same⟩ := call.exists_tight
  rw [← same]
  exact .first tightened tight bar rest others

theorem Outside.ofSecond (call : Call) (bar : Bar) {rest : List Token}
    (others : Inside rest) : Outside true (call.tokens ++ bar.val :: rest) := by
  obtain ⟨tightened, tight, same⟩ := call.exists_tight
  rw [← same]
  exact .second tightened tight bar rest others

/-- A pipe is a call and a bar with more behind it, and can go on inside. -/
def PipeLike (tokens : List Token) : Prop :=
  ∃ (call : Call) (bar : Bar) (rest : List Token),
    tokens = call.tokens ++ bar.val :: rest ∧ Outside true rest ∧
      ∀ (other : Bar) (further : List Token), Inside further →
        Outside true (rest ++ other.val :: further)

theorem PipeLike.calls (left : Call) (bar : Bar) (right : Call) :
    PipeLike (left.tokens ++ bar.val :: right.tokens) :=
  ⟨left, bar, right.tokens, rfl, Outside.ofCall true right,
    fun other _ inside => Outside.ofSecond right other inside⟩

theorem PipeLike.continue (pipe : PipeLike tokens) (bar : Bar) {further : List Token}
    (inside : Inside further) : PipeLike (tokens ++ bar.val :: further) := by
  obtain ⟨call, first, rest, rfl, _, goesOn⟩ := pipe
  refine ⟨call, first, rest ++ bar.val :: further, ?_, goesOn bar further inside, ?_⟩
  · rw [List.append_assoc, List.cons_append]
  · intro other beyond insideBeyond
    rw [List.append_assoc, List.cons_append]
    exact goesOn bar _ (inside.append insideBeyond other.val (bar_isSeparator other))

theorem PipeLike.outside (pipe : PipeLike tokens) : Outside false tokens := by
  obtain ⟨call, bar, rest, rfl, others, _⟩ := pipe
  exact Outside.ofFirst call bar others

mutual

theorem Derivation.Pipe.pipeLike (pipe : Pipe) : PipeLike pipe.tokens :=
  match pipe with
  | .calls left bar right => by
    rw [Pipe.tokens]
    exact PipeLike.calls left bar right
  | .call left bar right => by
    rw [Pipe.tokens]
    exact left.pipeLike.continue bar (Inside.ofCall right)
  | .command left bar right => by
    rw [Pipe.tokens]
    exact left.pipeLike.continue bar right.outside.inside

/-- The tokens of a command are a line outside of pipes. -/
theorem Derivation.Command.outside (command : Derivation.Command) :
    Outside false command.tokens :=
  match command with
  | .pipe pipe => by
    rw [Command.tokens]
    exact pipe.pipeLike.outside
  | .sequence left semicolon right => by
    rw [Command.tokens]
    exact left.outside.append right.outside semicolon
  | .call call => by
    rw [Command.tokens]
    exact Outside.ofCall false call
  | .empty => by
    rw [Command.tokens]
    exact .empty

end

theorem Derivable.outside (derivable : Derivable tokens) : Outside false tokens := by
  obtain ⟨command, rfl⟩ := derivable
  exact command.outside

/-! ### Cutting off the first item -/

/-- The lines inside or outside of pipes. -/
def Line (inside : Bool) (tokens : List Token) : Prop :=
  if inside then Inside tokens else Outside false tokens

theorem line_outside : Line false tokens ↔ Outside false tokens := Iff.rfl

/-- What may follow a call of a pipe that stands in a line: nothing, the rest of the line after
a semicolon, or more of the pipe. -/
inductive Behind (inside : Bool) : List Token → Prop
  | done : Behind inside []
  | semicolon (semicolon : Semicolon) (rest : List Token) (line : Line inside rest) :
      Behind inside (semicolon.val :: rest)
  | bar (bar : Bar) (rest : List Token) (others : Inside rest) : Behind inside (bar.val :: rest)

theorem Behind.boundary {inside : Bool} (behind : Behind inside tokens) : Boundary tokens := by
  cases behind with
  | done => trivial
  | semicolon semicolon rest line => exact semicolon_isSeparator semicolon
  | bar bar rest others => exact bar_isSeparator bar

/-- A separator is a semicolon or a bar. -/
theorem separator_cases {token : Token} (isSeparator : token.kind.isSeparator = true) :
    token.kind = .semicolon ∨ token.kind = .bar := by
  revert isSeparator
  cases token.kind <;> decide

theorem Behind.ofSeparator {separator : Token} (isSeparator : separator.kind.isSeparator = true)
    {rest : List Token} (inside : Inside rest) : Behind true (separator :: rest) := by
  rcases separator_cases isSeparator with semicolon | bar
  · exact .semicolon ⟨separator, semicolon⟩ rest inside
  · exact .bar ⟨separator, bar⟩ rest inside

/-- A line inside a pipe begins with a call or with nothing. -/
theorem Inside.cut (line : Inside tokens) :
    Behind true tokens ∨ ∃ (call : Call) (rest : List Token), call.Tight ∧
      tokens = call.tokens ++ rest ∧ Behind true rest := by
  cases line with
  | last item =>
    cases item with
    | none => exact Or.inl .done
    | some call => exact Or.inr ⟨call.val, [], call.property, (List.append_nil _).symm, .done⟩
  | more item separator isSeparator rest others =>
    have behind := Behind.ofSeparator isSeparator others
    cases item with
    | none => exact Or.inl behind
    | some call => exact Or.inr ⟨call.val, separator :: rest, call.property, rfl, behind⟩

/-- A line after the first bar of a pipe begins with a call. -/
theorem Outside.cutSecond (line : Outside true tokens) :
    ∃ (call : Call) (rest : List Token), call.Tight ∧ tokens = call.tokens ++ rest ∧
      Behind false rest := by
  cases line with
  | last _ call tight => exact ⟨call, [], tight, (List.append_nil _).symm, .done⟩
  | next _ call tight semicolon rest others =>
    exact ⟨call, _, tight, rfl, .semicolon semicolon rest others⟩
  | second call tight bar rest others => exact ⟨call, _, tight, rfl, .bar bar rest others⟩

/-- The ways in which a line can begin: with nothing, with a call by itself, or with a pipe.
Inside a pipe a call by itself may stand before a bar with nothing behind it. -/
inductive Beginning (inside : Bool) : List Token → Prop
  | nothing (tokens : List Token) (behind : Behind inside tokens)
      (bars : inside = false → ∀ bar rest, tokens ≠ bar :: rest ∨ bar.kind ≠ .bar) :
      Beginning inside tokens
  | call (call : Call) (tight : call.Tight) (rest : List Token) (behind : Behind inside rest)
      (bars : ∀ bar others, rest = bar :: others → bar.kind = .bar →
        inside = true ∧ Behind true others) : Beginning inside (call.tokens ++ rest)
  | pipe (left : Call) (leftTight : left.Tight) (bar : Bar) (right : Call)
      (rightTight : right.Tight) (rest : List Token) (behind : Behind inside rest) :
      Beginning inside (left.tokens ++ bar.val :: (right.tokens ++ rest))

theorem Line.beginning {inside : Bool} (line : Line inside tokens) : Beginning inside tokens := by
  cases inside with
  | true =>
    rcases Inside.cut line with behind | ⟨call, rest, tight, rfl, behind⟩
    · exact .nothing tokens behind fun outside => absurd outside (by decide)
    · cases behind with
      | done => exact .call call tight [] .done fun _ _ equal => absurd equal (by simp)
      | semicolon semicolon others further =>
        refine .call call tight _ (.semicolon semicolon others further)
          fun bar rest equal isBar => ?_
        obtain ⟨rfl, rfl⟩ := List.cons.inj equal
        exact absurd (semicolon.property.symm.trans isBar) (by decide)
      | bar bar others inside =>
        rcases inside.cut with behind | ⟨second, rest, secondTight, rfl, behind⟩
        · refine .call call tight _ (.bar bar others inside) fun bar rest equal _ => ?_
          obtain ⟨rfl, rfl⟩ := List.cons.inj equal
          exact ⟨rfl, behind⟩
        · exact .pipe call tight bar second secondTight rest behind
  | false =>
    cases (line_outside.mp line) with
    | empty => exact .nothing [] .done fun _ _ _ => Or.inl (by simp)
    | last _ call tight =>
      rw [← List.append_nil call.tokens]
      exact .call call tight [] .done fun _ _ equal => absurd equal (by simp)
    | skip semicolon rest others =>
      refine .nothing _ (.semicolon semicolon rest others) fun _ bar rest => ?_
      by_cases same : semicolon.val = bar
      · rw [← same, semicolon.property]
        exact Or.inr (by decide)
      · exact Or.inl fun equal => same (List.cons.inj equal).1
    | next _ call tight semicolon rest others =>
      refine .call call tight _ (.semicolon semicolon rest others) fun bar rest equal isBar => ?_
      obtain ⟨rfl, rfl⟩ := List.cons.inj equal
      exact absurd (semicolon.property.symm.trans isBar) (by decide)
    | first call tight bar rest others =>
      obtain ⟨second, further, secondTight, rfl, behind⟩ := others.cutSecond
      exact .pipe call tight bar second secondTight further behind

/-! ### Looking ahead over the rest of a line -/

theorem lookOutside_call_semicolon (barSeen : Bool) (call : Call) (semicolon : Semicolon)
    (rest : List Token) :
    (lookOutside barSeen .start (kindsOf (call.tokens ++ semicolon.val :: rest))).1 =
      (lookOutside false .start (kindsOf rest)).1 := by
  obtain ⟨part, whole, belong⟩ := through_call call
  rw [kindsOf_append, CallPart.lookOutside_of_through _ _ belong, kindsOf_cons, semicolon.property]
  simp [lookOutside, CallPart.step_separator part .semicolon rfl, whole]

theorem lookOutside_call_bar (barSeen : Bool) (call : Call) (bar : Bar) (rest : List Token) :
    (lookOutside barSeen .start (kindsOf (call.tokens ++ bar.val :: rest))).1 =
      (barSeen || (lookOutside true .start (kindsOf rest)).1) := by
  obtain ⟨part, whole, belong⟩ := through_call call
  have notStart : (part == .start) = false := by
    revert whole
    cases part <;> decide
  rw [kindsOf_append, CallPart.lookOutside_of_through _ _ belong, kindsOf_cons, bar.property]
  cases barSeen <;> simp [lookOutside, CallPart.step_separator part .bar rfl, whole, notStart]

/-- A line outside of pipes passes the look ahead. -/
theorem Outside.fits {barSeen : Bool} (line : Outside barSeen tokens) :
    (lookOutside barSeen .start (kindsOf tokens)).1 = true := by
  induction line with
  | empty => rfl
  | last barSeen call tight =>
    obtain ⟨part, whole, belong⟩ := through_call call
    rw [← List.append_nil (kindsOf call.tokens), CallPart.lookOutside_of_through _ _ belong]
    simp [lookOutside, CallPart.hasWord_of_isWhole whole]
  | skip semicolon rest others inductionHypothesis =>
    rw [kindsOf_cons, semicolon.property]
    exact inductionHypothesis
  | next barSeen call tight semicolon rest others inductionHypothesis =>
    rw [lookOutside_call_semicolon, inductionHypothesis]
  | first call tight bar rest others inductionHypothesis =>
    rw [lookOutside_call_bar, inductionHypothesis, Bool.or_true]
  | second call tight bar rest others => rw [lookOutside_call_bar, Bool.true_or]

/-- A line inside a pipe that passes the look ahead can stand outside of pipes. -/
theorem Inside.outside_of_fits (line : Inside tokens) (barSeen : Bool)
    (fits : (lookOutside barSeen .start (kindsOf tokens)).1 = true) : Outside barSeen tokens := by
  induction line generalizing barSeen with
  | last item =>
    cases item with
    | none =>
      cases barSeen with
      | false => exact .empty
      | true => exact absurd fits (by decide)
    | some call => exact .last barSeen call.val call.property
  | more item separator isSeparator rest others inductionHypothesis =>
    cases item with
    | none =>
      rw [Item.tokens, List.nil_append, kindsOf_cons] at fits
      rcases separator_cases isSeparator with semicolon | bar
      · rw [semicolon] at fits
        cases barSeen with
        | false => exact .skip ⟨separator, semicolon⟩ rest (inductionHypothesis false fits)
        | true =>
          exact absurd fits (by
            simp [lookOutside, CallPart.step_separator .start .semicolon rfl, CallPart.isWhole,
              CallPart.hasWord])
      · rw [bar] at fits
        exact absurd fits (by
          cases barSeen <;>
            simp [lookOutside, CallPart.step_separator .start .bar rfl, CallPart.isWhole,
              CallPart.hasWord])
    | some call =>
      obtain ⟨part, whole, belong⟩ := through_call call.val
      -- Behind a call the look ahead is not at its start any more, so that a bar may follow.
      have notStart : (part == .start) = false := by
        revert whole
        cases part <;> decide
      rw [Item.tokens, kindsOf_append, CallPart.lookOutside_of_through _ _ belong, kindsOf_cons]
        at fits
      rcases separator_cases isSeparator with semicolon | bar
      · rw [semicolon] at fits
        simp only [lookOutside, CallPart.step_separator part .semicolon rfl, whole, Bool.true_or,
          if_true] at fits
        exact .next barSeen call.val call.property ⟨separator, semicolon⟩ rest
          (inductionHypothesis false fits)
      · cases barSeen with
        | true => exact .second call.val call.property ⟨separator, bar⟩ rest others
        | false =>
          rw [bar] at fits
          simp [lookOutside, CallPart.step_separator part .bar rfl, whole, notStart] at fits
          exact .first call.val call.property ⟨separator, bar⟩ rest
            (inductionHypothesis true fits)

end MiniShell
