/-
This file tells on which lines reading comes to an early end. Outside of every
pipe no rule takes a bar in two cases: where a command begins with it, and
where it follows a call and no whole call follows it. There reading stops
without a report, and what stands behind is not even looked at.

A line that is cut off there is a row of commands with semicolons between them,
and the last of them is nothing or a call. A pipe of more than two calls may
stand in the row only if a call behind the cut breaks off in a redirection.
Otherwise the look ahead at the semicolon behind such a pipe would fail, and
the pipe would take what follows as one of its commands.

The part that is read is also the longest beginning of the line that the
grammar derives and that ends at the end of the line or before a separator. So
a line is cut off in one place only, and a line that is cut off cannot be
derived.
-/

import MiniShell.Proofs.Acceptance
import MiniShell.Proofs.CallShape

namespace MiniShell

open MiniShell.Derivation

/-! ### Lines that are cut off -/

/-- Nothing, a call, or two calls with a bar between them. -/
def Derivation.Command.isShort : Derivation.Command → Bool
  | .empty | .call _ | .pipe (.calls _ _ _) => true
  | _ => false

/-- A call is ahead with its first word, and it breaks off in a redirection after that word, which
lacks its file. -/
def Dangling (tokens : List Token) : Prop :=
  (CallPart.start.run (kindsOf tokens)).1.hasWord = true ∧
    (CallPart.start.run (kindsOf tokens)).1.isWhole = false

/-- The beginnings of a line that reading stops behind if a bar follows, with the given tokens
behind the bar. -/
inductive StopsBefore (rest : List Token) : List Token → Prop
  | nothing : StopsBefore rest []
  | call (call : Call) (broken : (CallPart.start.run (kindsOf rest)).1.isWhole = false) :
      StopsBefore rest call.tokens
  | later {others : List Token} (command : Derivation.Command) (semicolon : Semicolon)
      (stands : command.isShort = true ∨ Dangling rest) (behind : StopsBefore rest others) :
      StopsBefore rest (command.tokens ++ semicolon.val :: others)

/-- A line that is cut off at a bar, and what is left of it. -/
def Severed (tokens unread : List Token) : Prop :=
  ∃ (read : List Token) (bar : Bar) (rest : List Token),
    tokens = read ++ unread ∧ unread = bar.val :: rest ∧ StopsBefore rest read

/-- What stands before the cut is a command. -/
theorem StopsBefore.derivable {rest read : List Token} (stops : StopsBefore rest read) :
    Derivable read := by
  induction stops with
  | nothing => exact ⟨.empty, rfl⟩
  | call call broken => exact ⟨.call call, rfl⟩
  | later command semicolon stands behind inductionHypothesis =>
    obtain ⟨others, rfl⟩ := inductionHypothesis
    exact ⟨.sequence command semicolon others, rfl⟩

/-! ### The look ahead over a cut -/

/-- Where no whole call lies ahead, the look ahead after the first bar of a pipe comes to the first
word of a call or fails. -/
theorem lookOutside_of_run {part : CallPart} {kinds : List Kind}
    (broken : (part.run kinds).1.isWhole = false) :
    (lookOutside true part kinds).1 = (part.run kinds).1.hasWord := by
  induction kinds generalizing part with
  | nil => rfl
  | cons kind rest inductionHypothesis =>
    rw [CallPart.run] at broken ⊢
    rw [lookOutside]
    cases stepped : part.step kind with
    | none =>
      rw [stepped] at broken
      simp only [broken, Bool.not_true, Bool.and_false, Bool.or_false, Bool.false_eq_true,
        if_false, Bool.false_or]
    | some next =>
      rw [stepped] at broken
      exact inductionHypothesis broken

/-- A line that is cut off does not pass the look ahead outside of pipes, unless a call behind the
cut breaks off in a redirection. Only the first call behind the cut matters. -/
theorem StopsBefore.misfit {rest read : List Token} (stops : StopsBefore rest read)
    (sound : ¬ Dangling rest) (bar : Bar) {middle : List Token}
    (same : (CallPart.start.run (kindsOf middle)).1 = (CallPart.start.run (kindsOf rest)).1) :
    (lookOutside false .start (kindsOf (read ++ bar.val :: middle))).1 = false := by
  induction stops with
  | nothing =>
    rw [List.nil_append, kindsOf_cons, bar.property]
    rfl
  | call call broken =>
    rw [lookOutside_call_bar, Bool.false_or, lookOutside_of_run (by rw [same, broken]), same]
    exact Bool.eq_false_iff.mpr fun word => sound ⟨word, broken⟩
  | later command semicolon stands behind inductionHypothesis =>
    rw [List.append_assoc, List.cons_append]
    have short := stands.resolve_right sound
    cases command with
    | empty =>
      rw [Command.tokens, List.nil_append, kindsOf_cons, semicolon.property]
      exact inductionHypothesis
    | call call => rw [Command.tokens, lookOutside_call_semicolon, inductionHypothesis]
    | sequence => exact absurd short (by simp [Command.isShort])
    | pipe pipe =>
      cases pipe with
      | calls left bar right =>
        rw [Command.tokens, Pipe.tokens, List.append_assoc, List.cons_append,
          lookOutside_call_bar, Bool.false_or, lookOutside_call_semicolon, inductionHypothesis]
      | call | command => exact absurd short (by simp [Command.isShort])

/-! ### What the grammar derives of such a line -/

/-- What stands behind an item and a separator inside a pipe is a line inside the pipe. -/
theorem Inside.behindItem {separator : Token} (isSeparator : separator.kind.isSeparator = true)
    {rest : List Token} (item : Item) (line : Inside (item.tokens ++ separator :: rest)) :
    Inside rest := by
  have beyond {tokens : List Token} (behind : Behind true tokens)
      (same : tokens = separator :: rest) : Inside rest := by
    cases behind with
    | done => exact absurd same (by simp)
    | semicolon _ others line => exact (List.cons.inj same).2 ▸ line
    | bar _ others line => exact (List.cons.inj same).2 ▸ line
  rcases line.cut with behind | ⟨call, others, _, split, behind⟩
  · cases item with
    | none => exact beyond behind rfl
    | some call =>
      obtain ⟨token, tail, tokens, noSeparator⟩ := call_head call.val
      have boundary := behind.boundary
      rw [Item.tokens, tokens] at boundary
      exact absurd (noSeparator.symm.trans boundary) (by decide)
  · cases item with
    | none =>
      obtain ⟨token, tail, tokens, noSeparator⟩ := call_head call
      rw [Item.tokens, List.nil_append, tokens, List.cons_append] at split
      rw [(List.cons.inj split).1, noSeparator] at isSeparator
      exact absurd isSeparator (by decide)
    | some first =>
      have boundary : Boundary (separator :: rest) := isSeparator
      have same := (boundary.ends first.val).tokens_unique (behind.boundary.ends call) split
      rw [Item.tokens, same] at split
      exact beyond behind (List.append_cancel_left split).symm

/-- What stands behind a line inside a pipe and a separator is such a line too. -/
theorem Inside.behind {separator : Token} (isSeparator : separator.kind.isSeparator = true)
    {first second : List Token} (before : Inside first)
    (line : Inside (first ++ separator :: second)) : Inside second := by
  induction before with
  | last item => exact line.behindItem isSeparator item
  | more item other isOther rest _ inductionHypothesis =>
    rw [List.append_assoc, List.cons_append] at line
    exact inductionHypothesis (line.behindItem isOther item)

/-- No call dangles at the beginning of a line inside a pipe. -/
theorem Inside.not_dangling {tokens : List Token} (line : Inside tokens) : ¬ Dangling tokens := by
  rintro ⟨word, broken⟩
  rcases line.cut with behind | ⟨call, rest, _, rfl, behind⟩
  · rw [run_boundary _ _ behind.boundary] at word
    exact absurd word Bool.false_ne_true
  · obtain ⟨part, whole, run⟩ := run_call call rest behind.boundary
    rw [run, whole] at broken
    exact absurd broken (by decide)

/-- A run over tokens stops before a boundary at the latest. -/
theorem run_before_boundary (part : CallPart) (tokens : List Token) {more : List Token}
    (boundary : Boundary more) :
    (part.run (kindsOf (tokens ++ more))).1 = (part.run (kindsOf tokens)).1 := by
  induction tokens generalizing part with
  | nil => rw [List.nil_append, run_boundary part more boundary, kindsOf_nil, CallPart.run]
  | cons token rest inductionHypothesis =>
    rw [List.cons_append, kindsOf_cons, kindsOf_cons, CallPart.run, CallPart.run]
    cases part.step token.kind with
    | none => rfl
    | some next => exact inductionHypothesis next

/-- The grammar derives no beginning of the line that ends behind the cut, at the end of the line
or before a separator. -/
theorem StopsBefore.not_outside {read middle more : List Token}
    (stops : StopsBefore (middle ++ more) read) (boundary : Boundary more) (bar : Bar) :
    ¬ Outside false (read ++ bar.val :: middle) := by
  intro line
  have same := run_before_boundary .start middle boundary
  by_cases dangling : Dangling (middle ++ more)
  · obtain ⟨command, tokens⟩ := stops.derivable
    have inside : Inside middle :=
      (tokens ▸ command.outside.inside).behind (bar_isSeparator bar) line.inside
    rw [Dangling, same] at dangling
    exact inside.not_dangling dangling
  · have fits := line.fits
    rw [stops.misfit dangling bar same.symm] at fits
    exact absurd fits (by decide)

namespace Severed

variable {tokens unread : List Token}

/-- What is read of a line that is cut off is the longest beginning that can be derived and ends at
the end of the line or before a separator. -/
theorem longest (severed : Severed tokens unread) {first more : List Token}
    (derivable : Derivable first) (boundary : Boundary more) (split : tokens = first ++ more) :
    unread.length ≤ more.length := by
  obtain ⟨read, bar, rest, rfl, rfl, stops⟩ := severed
  rcases List.append_eq_append_iff.mp split with ⟨middle, longer, within⟩ | ⟨middle, _, rfl⟩
  · cases middle with
    | nil => exact Nat.le_of_eq (congrArg List.length within)
    | cons token middle =>
      obtain ⟨rfl, rfl⟩ := List.cons.inj within
      rw [longer] at derivable
      exact absurd derivable.outside (stops.not_outside boundary bar)
  · rw [List.length_append]
    exact Nat.le_add_left _ _

theorem derivable (severed : Severed tokens unread) :
    ∃ read, tokens = read ++ unread ∧ Derivable read ∧ Boundary unread := by
  obtain ⟨read, bar, rest, split, rfl, stops⟩ := severed
  exact ⟨read, split, stops.derivable, bar_isSeparator bar⟩

theorem nonempty (severed : Severed tokens unread) : unread ≠ [] := by
  obtain ⟨_, _, _, _, rfl, _⟩ := severed
  exact List.cons_ne_nil _ _

/-- A line is cut off in one place only. -/
theorem unique {other : List Token} (severed : Severed tokens unread)
    (otherwise : Severed tokens other) : unread = other := by
  obtain ⟨read, split, derivable, boundary⟩ := severed.derivable
  obtain ⟨otherRead, otherSplit, otherDerivable, otherBoundary⟩ := otherwise.derivable
  have shorter := severed.longest otherDerivable otherBoundary otherSplit
  have longer := otherwise.longest derivable boundary split
  exact List.append_inj_right' (split.symm.trans otherSplit) (Nat.le_antisymm shorter longer)

/-- A line that is cut off cannot be derived. -/
theorem not_derivable (severed : Severed tokens unread) : ¬ Derivable tokens := by
  intro derivable
  have short := severed.longest derivable (show Boundary [] from trivial)
    (List.append_nil tokens).symm
  exact severed.nonempty (List.eq_nil_of_length_eq_zero (Nat.le_zero.mp short))

end Severed

end MiniShell
