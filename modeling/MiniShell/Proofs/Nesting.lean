/-
This file shows that commands in back quotes do not nest. A line comes to a
command if it matters to the line what running the command does; since running
it may fail, that is so for every command that is run. The commands that a line
comes to are taken out of its tokens in two ways: from between the back quotes
of a token, and from between back quotes inside of double quotes. Neither way
lets a back quote through, and a line without back quotes has no token that a
command is taken from.

So running a line asks for other lines to be run, but these ask for none. A way
to run lines that runs their commands in the same way is therefore no circle,
and there is only one.
-/

import MiniShell.Proofs.Interpolation

namespace MiniShell

open MiniShell.Evaluator (Substitute)

/-! ### Commands in tokens -/

/-- A command inside of double quotes is what stands between two neighbouring back quotes. -/
theorem Segment.quiet_command {steps : Nat} {text line : Text}
    (member : .command line ∈ Segment.cut steps text) : '`' ∉ line := by
  fun_induction Segment.cut steps text with
  | case1 | case2 => exact absurd member List.not_mem_nil
  | case3 steps character rest plain inductionHypothesis =>
    rcases List.mem_cons.mp member with isPlain | later
    · cases isPlain
    · exact inductionHypothesis later
  | case4 steps rest notPlain noneCloses inductionHypothesis => exact inductionHypothesis member
  | case5 steps rest quote further closes notPlain empty inductionHypothesis =>
    rcases List.mem_cons.mp member with isPlain | later
    · cases isPlain
    · exact inductionHypothesis later
  | case6 steps rest quote further closes notPlain nonempty inductionHypothesis =>
    rcases List.mem_cons.mp member with isCommand | later
    · intro inLine
      rw [Segment.command.inj isCommand] at inLine
      exact absurd (List.mem_takeWhile_imp inLine) (by simp)
    · exact inductionHypothesis later
  | case7 steps character rest notPlain notQuote inductionHypothesis =>
    exact inductionHypothesis member

/-- No command line in a token has a back quote in it. -/
theorem quiet_of_mem_innerLines {line command : Text} (member : command ∈ innerLines line) :
    '`' ∉ command := by
  obtain ⟨⟨kind, text, mark⟩, isToken, inToken⟩ := List.mem_flatMap.mp member
  have tiling : Tiling Mark.start line (Lexeme.ofLine line) :=
    cut_tiling line.length Mark.start line (Nat.le_refl _)
  have isText := (tiling.token isToken).2
  cases kind with
  | backQuoted =>
    obtain ⟨inside, isInside, rfl⟩ := mem_enclosed.mp isText
    obtain rfl : command = inside := by
      simpa [Token.lines, Token.constituents, Constituent.command?, unquoted] using inToken
    intro inCommand
    exact absurd (mem_kstar_single.mp isInside '`' inCommand) (by simp)
  | doubleQuoted =>
    obtain ⟨part, isPart, isCommand⟩ := List.mem_filterMap.mp inToken
    obtain ⟨segment, isSegment, rfl⟩ := List.mem_map.mp isPart
    cases segment with
    | plain text => cases isCommand
    | command inner =>
      obtain rfl := Option.some.inj isCommand
      exact Segment.quiet_command isSegment
  | _ => simp [Token.lines, Token.constituents, Constituent.command?] at inToken

/-! ### Commands that a line comes to -/

/-- The evaluation of a line in a session comes to a command: it matters what running the command
does. A failure ends the evaluation, and running the command may fail in more than one way; so this
is true of every command that is run, whatever the others do. -/
def ComesTo (session : Session) (line command : Text) : Prop :=
  ∃ first second : Substitute, (∀ other, other ≠ command → first other = second other) ∧
    evaluateLine first line session ≠ evaluateLine second line session

theorem ComesTo.mem {session : Session} {line command : Text}
    (comes : ComesTo session line command) : command ∈ innerLines line := by
  obtain ⟨first, second, elsewhere, differ⟩ := comes
  refine Decidable.not_not.mp fun notInner => differ ?_
  have agree : ∀ inner ∈ innerLines line, first inner = second inner := fun inner member =>
    elsewhere inner fun same => notInner (same ▸ member)
  rw [evaluateLine_agree agree]

/-- A command that a line comes to has no back quotes, and so it comes to nothing itself. -/
theorem ComesTo.quiet {session : Session} {line command : Text}
    (comes : ComesTo session line command) : '`' ∉ command :=
  quiet_of_mem_innerLines comes.mem

theorem not_comesTo_of_quiet {line : Text} (quiet : '`' ∉ line) (session : Session)
    (command : Text) : ¬ ComesTo session line command := by
  intro comes
  have member := comes.mem
  rw [innerLines_of_quiet quiet] at member
  exact absurd member List.not_mem_nil

theorem wellFounded_comesTo :
    WellFounded fun command line => ∃ session, ComesTo session line command := by
  refine ⟨fun line => Acc.intro line ?_⟩
  rintro command ⟨_, comes⟩
  refine Acc.intro command ?_
  rintro deeper ⟨later, further⟩
  exact absurd further (not_comesTo_of_quiet comes.quiet later deeper)

/-- A line that is the output of a command comes to the command, which may as well fail. -/
theorem comesTo_quoted : ComesTo oneFile "`a`".toList "a".toList := by
  let prints : Substitute := fun _ => pure ["echo".toList]
  let fails : Substitute := fun other =>
    if other = "a".toList then throw .noInput else prints other
  refine ⟨prints, fails, fun other different => (if_neg different).symm, fun same => ?_⟩
  have ends := congrArg (fun evaluated => evaluated.1.toOption.isSome) same
  exact absurd ends (by decide +kernel)

/-! ### Running lines -/

/-- It does not matter what would be done for a command inside of a command. -/
theorem evaluateLine_deeper (deeper : Substitute) (line : Text) :
    evaluateLine (outputOfLine deeper) line = evaluateLine runLine line :=
  evaluateLine_agree fun _ member => outputOfLine_quiet (quiet_of_mem_innerLines member) _ _

/-- Running a line runs its commands in the same way. -/
theorem outputOfLine_runLine (line : Text) : outputOfLine runLine line = runLine line :=
  (outputOfLine_congr (evaluateLine_deeper (fun _ => pure []) line)).symm

theorem outputOfLine_deeper (deeper : Substitute) (line : Text) :
    outputOfLine (outputOfLine deeper) line = runLine line :=
  (outputOfLine_congr (evaluateLine_deeper deeper line)).trans (outputOfLine_runLine line)

theorem interpret_deeper (depth : Nat) (line : Text) :
    interpret (depth + 1) line = runLine line := by
  cases depth with
  | zero => rfl
  | succ depth => exact outputOfLine_deeper (interpret depth) line

/-- A way to run lines that runs their commands in the same way. -/
theorem eq_runLine_iff (run : Substitute) :
    (∀ line, run line = outputOfLine run line) ↔ run = runLine := by
  constructor
  · intro fixed
    funext line
    calc run line
      _ = outputOfLine run line := fixed line
      _ = outputOfLine (outputOfLine run) line := congrArg (outputOfLine · line) (funext fixed)
      _ = runLine line := outputOfLine_deeper run line
  · rintro rfl line
    exact (outputOfLine_runLine line).symm

/-- Commands in back quotes do not nest. No command that a line comes to, in any session, has a back
quote in it, and so it comes to no further command. Lines therefore come to commands in a
well-founded way and to a depth of one at most, which is reached: allowing for more changes nothing,
and there is exactly one way to run lines that runs their commands in the same way. -/
theorem runLine_unnested :
    (∀ session line command, ComesTo session line command →
      '`' ∉ command ∧ ∀ later deeper, ¬ ComesTo later command deeper) ∧
    WellFounded (fun command line => ∃ session, ComesTo session line command) ∧
    (∀ depth line, interpret (depth + 1) line = runLine line) ∧
    (∀ run : Substitute, (∀ line, run line = outputOfLine run line) ↔ run = runLine) ∧
    ∃ session line command, ComesTo session line command :=
  ⟨fun _ _ _ comes => ⟨comes.quiet, not_comesTo_of_quiet comes.quiet⟩, wellFounded_comesTo,
    interpret_deeper, eq_runLine_iff, _, _, _, comesTo_quoted⟩

end MiniShell
