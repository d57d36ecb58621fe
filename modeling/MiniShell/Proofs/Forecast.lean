/-
This file tells what the forecasts choose on lines that can be derived. The
beginning of a line decides between the alternatives of a command. After a bar
a call is chosen wherever a call stands, with one exception: outside of every
pipe, when a semicolon follows and the rest of the line behind it could only be
read inside the pipe, a command is chosen.

A forecast runs the automaton for calls over the tokens ahead, looks at the
rest of the line and compares the rank of an operator with the precedence at
hand. The last part goes the other way, from a choice to what must be ahead.
-/

import MiniShell.Proofs.Language

namespace MiniShell

open MiniShell.Derivation

/-! ### The alternatives of a command -/

theorem forecastCommand_nothing (inPipe : Bool) (tokens : List Token)
    (boundary : Boundary tokens) :
    (forecastCommand inPipe (kindsOf tokens)).choice = some .empty := by
  cases tokens with
  | nil => rfl
  | cons token rest =>
    rcases separator_cases boundary with semicolon | bar
    · rw [kindsOf_cons, semicolon]
      rfl
    · rw [kindsOf_cons, bar]
      rfl

/-- A call ahead, with the automaton stopped behind it. -/
theorem forecastCommand_run (inPipe : Bool) (call : Call) (rest : List Token)
    (boundary : Boundary rest) :
    (forecastCommand inPipe (kindsOf (call.tokens ++ rest))).choice =
      some (match kindsOf rest with
        | .bar :: others =>
          if (CallPart.start.run others).1.isWhole then CommandChoice.pipe else CommandChoice.call
        | _ => CommandChoice.call) := by
  obtain ⟨token, tail, tokens, notSeparator⟩ := call_head call
  obtain ⟨part, whole, run⟩ := run_call call rest boundary
  have head : kindsOf (call.tokens ++ rest) = token.kind :: kindsOf (tail ++ rest) := by
    rw [tokens, List.cons_append, kindsOf_cons]
  unfold forecastCommand
  split
  · exact absurd head (by simp_all)
  · rename_i others equal
    rw [equal] at head
    rw [← (List.cons.inj head).1] at notSeparator
    exact absurd notSeparator (by decide)
  · rename_i others equal
    rw [equal] at head
    rw [← (List.cons.inj head).1] at notSeparator
    exact absurd notSeparator (by decide)
  · simp only [run, whole, if_true]
    cases rest with
    | nil => rfl
    | cons separator others =>
      rcases separator_cases boundary with semicolon | bar
      · simp only [kindsOf_cons, semicolon]
      · simp only [kindsOf_cons, bar]
        by_cases second : (CallPart.start.run (kindsOf others)).1.isWhole = true
        · simp only [second, if_true]
          split <;> rfl
        · simp only [second, if_false, Bool.false_eq_true]

theorem forecastCommand_call (inPipe : Bool) (call : Call) (rest : List Token)
    (boundary : Boundary rest)
    (bars : ∀ bar others, rest = bar :: others → bar.kind = .bar → Boundary others) :
    (forecastCommand inPipe (kindsOf (call.tokens ++ rest))).choice = some .call := by
  rw [forecastCommand_run inPipe call rest boundary]
  cases rest with
  | nil => rfl
  | cons token others =>
    rw [kindsOf_cons]
    rcases separator_cases boundary with semicolon | bar
    · rw [semicolon]
    · rw [bar]
      simp only [run_boundary .start others (bars token others rfl bar)]
      rfl

theorem forecastCommand_pipe (inPipe : Bool) (left : Call) (bar : Bar) (right : Call)
    (rest : List Token) (boundary : Boundary rest) :
    (forecastCommand inPipe
      (kindsOf (left.tokens ++ bar.val :: (right.tokens ++ rest)))).choice = some .pipe := by
  obtain ⟨part, whole, run⟩ := run_call right rest boundary
  rw [forecastCommand_run inPipe left (bar.val :: (right.tokens ++ rest)) (bar_isSeparator bar),
    kindsOf_cons, bar.property]
  simp only [run, whole, if_true]

/-! ### Semicolons and bars -/

theorem forecastSemicolon_again (precedence : Int)
    (low : precedence ≤ Operator.semicolon.rank) (sites : List Site)
    (semicolon : Semicolon) (rest : List Token) :
    (forecastSemicolon precedence sites (kindsOf (semicolon.val :: rest))).choice =
      some .again := by
  rw [kindsOf_cons, semicolon.property]
  unfold forecastSemicolon
  simp only [if_pos low]
  split
  · split <;> rfl
  · rfl

/-- A semicolon is left to an outer command where the precedence is too high for it, and
there is no other token that the loop takes. -/
theorem forecastSemicolon_done (precedence : Int) (sites : List Site) (tokens : List Token)
    (stops : ∀ token rest, tokens = token :: rest → token.kind = .semicolon →
      Operator.semicolon.rank < precedence) :
    (forecastSemicolon precedence sites (kindsOf tokens)).choice = some .done := by
  unfold forecastSemicolon
  split
  · rename_i rest equal
    cases tokens with
    | nil => exact absurd equal (by simp)
    | cons token others =>
      have high := stops token others rfl (List.cons.inj equal).1
      rw [if_neg (by omega)]
  · rfl

theorem forecastBar_again (sites : List Site) (bar : Bar) (rest : List Token) :
    (forecastBar 0 sites (kindsOf (bar.val :: rest))).choice = some .again := by
  rw [kindsOf_cons, bar.property]
  rfl

theorem forecastBar_done (precedence : Int) (sites : List Site) (tokens : List Token)
    (noBar : ∀ token rest, tokens = token :: rest → token.kind ≠ .bar) :
    (forecastBar precedence sites (kindsOf tokens)).choice = some .done := by
  unfold forecastBar
  split
  · rename_i rest equal
    cases tokens with
    | nil => exact absurd equal (by simp)
    | cons token others => exact absurd (List.cons.inj equal).1 (noBar token others rfl)
  · rfl

/-! ### What stands after a bar -/

theorem forecastStage_nothing (sites : List Site) (bar : Bar) (tokens : List Token)
    (boundary : Boundary tokens) :
    (forecastStage 0 sites (kindsOf (bar.val :: tokens))).choice = some .command := by
  rw [kindsOf_cons, bar.property]
  cases tokens with
  | nil => rfl
  | cons token rest =>
    rcases separator_cases boundary with semicolon | bar
    · rw [kindsOf_cons, semicolon]
      rfl
    · rw [kindsOf_cons, bar]
      rfl

/-- The choice after a bar when something else than a separator follows. It depends on where
the automaton stops: only a semicolon there leaves a question. -/
theorem forecastStage_ahead (sites : List Site) (nested : sites ≠ []) (bar : Bar) (token : Token)
    (tail : List Token) (notSeparator : token.kind.isSeparator = false) :
    (forecastStage 0 sites (kindsOf (bar.val :: token :: tail))).choice =
      if (CallPart.start.run (kindsOf (token :: tail))).1.isWhole then
        some (match (CallPart.start.run (kindsOf (token :: tail))).2.2 with
          | .semicolon :: others =>
            if insidePipe sites || (lookOutside false .start others).1 then PipeChoice.call
            else PipeChoice.command
          | _ => PipeChoice.call)
      else none := by
  rw [kindsOf_cons, bar.property]
  unfold forecastStage
  simp only
  split
  · rename_i equal
    exact absurd equal (by simp)
  · rename_i others equal
    rw [(List.cons.inj equal).1] at notSeparator
    exact absurd notSeparator (by decide)
  · rename_i others equal
    rw [(List.cons.inj equal).1] at notSeparator
    exact absurd notSeparator (by decide)
  · obtain ⟨part, count, rest⟩ := CallPart.start.run (kindsOf (token :: tail))
    by_cases whole : part.isWhole = true
    · simp only [whole, if_true]
      -- At this precedence a call is possible, and what stands behind it decides.
      rw [if_pos (by decide)]
      split
      · by_cases inside : insidePipe sites = true
        · simp [inside]
        · simp [inside, nested]
      · split
        · split <;> rfl
        · rfl
      · rename_i noSemicolon _
        split
        · exact absurd rfl (noSemicolon _)
        · rfl
    · simp only [whole, if_false, Bool.false_eq_true]

/-- The choice after a bar, with the automaton stopped behind the call that follows. -/
theorem forecastStage_run (sites : List Site) (nested : sites ≠ []) (bar : Bar) (call : Call)
    (rest : List Token) (boundary : Boundary rest) :
    (forecastStage 0 sites (kindsOf (bar.val :: (call.tokens ++ rest)))).choice =
      some (match kindsOf rest with
        | .semicolon :: others =>
          if insidePipe sites || (lookOutside false .start others).1 then PipeChoice.call
          else PipeChoice.command
        | _ => PipeChoice.call) := by
  obtain ⟨token, tail, tokens, notSeparator⟩ := call_head call
  obtain ⟨part, whole, run⟩ := run_call call rest boundary
  rw [tokens, List.cons_append] at run ⊢
  rw [forecastStage_ahead sites nested bar token _ notSeparator, run]
  simp only [whole, if_true]

/-- A command is chosen after a bar only if a semicolon follows and the line behind it does not
fit outside of pipes, or if nothing stands after the bar. -/
theorem forecastStage_command {sites : List Site} (nested : sites ≠ []) {bar : Bar}
    {token : Token} {tail : List Token} (notSeparator : token.kind.isSeparator = false)
    (chosen : (forecastStage 0 sites (kindsOf (bar.val :: token :: tail))).choice =
      some .command) :
    ∃ others, (CallPart.start.run (kindsOf (token :: tail))).2.2 = .semicolon :: others ∧
      (lookOutside false .start others).1 = false := by
  rw [forecastStage_ahead sites nested bar token tail notSeparator] at chosen
  split at chosen
  · split at chosen
    · rename_i others stops
      refine ⟨others, stops, ?_⟩
      cases fits : (lookOutside false .start others).1 with
      | false => rfl
      | true => simp [fits] at chosen
    · exact absurd chosen (by simp)
  · exact absurd chosen (by simp)

/-- A call is chosen after a bar if nothing behind it asks for a command. -/
theorem forecastStage_call (sites : List Site) (nested : sites ≠ []) (bar : Bar) (call : Call)
    (rest : List Token) (boundary : Boundary rest)
    (fits : ∀ semicolon others, rest = semicolon :: others → semicolon.kind = .semicolon →
      insidePipe sites = true ∨ (lookOutside false .start (kindsOf others)).1 = true) :
    (forecastStage 0 sites (kindsOf (bar.val :: (call.tokens ++ rest)))).choice = some .call := by
  rw [forecastStage_run sites nested bar call rest boundary]
  cases rest with
  | nil => rfl
  | cons token others =>
    rw [kindsOf_cons]
    rcases separator_cases boundary with semicolon | isBar
    · rw [semicolon]
      rcases fits token others rfl semicolon with inside | fit
      · simp [inside]
      · simp [fit]
    · rw [isBar]

/-- A command is chosen after a bar if the line behind the next semicolon has to be read
inside the pipe. -/
theorem forecastStage_needed (sites : List Site) (nested : sites ≠ []) (bar : Bar)
    (call : Call) (semicolon : Semicolon) (rest : List Token) (outside : insidePipe sites = false)
    (misfit : (lookOutside false .start (kindsOf rest)).1 = false) :
    (forecastStage 0 sites
      (kindsOf (bar.val :: (call.tokens ++ semicolon.val :: rest)))).choice = some .command := by
  rw [forecastStage_run sites nested bar call (semicolon.val :: rest)
    (semicolon_isSeparator semicolon), kindsOf_cons, semicolon.property]
  simp [outside, misfit]

/-! ### What a choice tells about the tokens ahead -/

/-- Where nothing is chosen, a separator or the end of the line is ahead. -/
theorem forecastCommand_empty {inPipe : Bool} {tokens : List Token}
    (chosen : (forecastCommand inPipe (kindsOf tokens)).choice = some .empty) :
    Boundary tokens := by
  cases tokens with
  | nil => trivial
  | cons token rest =>
    show token.kind.isSeparator = true
    rw [kindsOf_cons] at chosen
    unfold forecastCommand at chosen
    split at chosen
    · rename_i impossible
      exact absurd impossible (by simp)
    · rename_i equal
      rw [(List.cons.inj equal).1]
      rfl
    · rename_i equal
      rw [(List.cons.inj equal).1]
      rfl
    · exfalso
      revert chosen
      dsimp only
      split
      · split
        · split
          · split <;> simp
          · simp
        · simp
      · simp

/-- Where a call is chosen, a whole call lies ahead. -/
theorem forecastCommand_whole {inPipe : Bool} {kinds : List Kind}
    (chosen : (forecastCommand inPipe kinds).choice = some .call) :
    (CallPart.start.run kinds).1.isWhole = true := by
  unfold forecastCommand at chosen
  split at chosen
  · exact absurd chosen (by simp)
  · exact absurd chosen (by simp)
  · exact absurd chosen (by simp)
  · dsimp only at chosen
    split at chosen
    · assumption
    · exact absurd chosen (by simp)

/-- Where a pipe is chosen, two whole calls with a bar between them lie ahead. -/
theorem forecastCommand_twice {inPipe : Bool} {kinds : List Kind}
    (chosen : (forecastCommand inPipe kinds).choice = some .pipe) :
    (CallPart.start.run kinds).1.isWhole = true ∧
      ∃ others, (CallPart.start.run kinds).2.2 = .bar :: others ∧
        (CallPart.start.run others).1.isWhole = true := by
  unfold forecastCommand at chosen
  split at chosen
  · exact absurd chosen (by simp)
  · exact absurd chosen (by simp)
  · exact absurd chosen (by simp)
  · dsimp only at chosen
    split at chosen
    · rename_i whole
      refine ⟨whole, ?_⟩
      split at chosen
      · rename_i others behind
        refine ⟨others, behind, ?_⟩
        split at chosen
        · assumption
        · exact absurd chosen (by simp)
      · exact absurd chosen (by simp)
    · exact absurd chosen (by simp)

theorem forecastCommand_none {inPipe : Bool} {kinds : List Kind}
    (none : (forecastCommand inPipe kinds).choice = .none) :
    kinds ≠ [] ∧ (CallPart.start.run kinds).1.isWhole = false := by
  unfold forecastCommand at none
  split at none
  · exact absurd none (by simp)
  · exact absurd none (by simp)
  · exact absurd none (by simp)
  · rename_i present _ _
    refine ⟨present, ?_⟩
    dsimp only at none
    split at none
    · split at none
      · split at none
        · split at none <;> exact absurd none (by simp)
        · exact absurd none (by simp)
      · exact absurd none (by simp)
    · rename_i broken
      simpa using broken

theorem forecastSemicolon_some (precedence : Int) (sites : List Site) (tokens : List Token) :
    (forecastSemicolon precedence sites (kindsOf tokens)).choice ≠ none := by
  unfold forecastSemicolon
  split
  · split
    · split
      · split <;> simp
      · simp
    · simp
  · simp

theorem forecastBar_some (precedence : Int) (sites : List Site) (tokens : List Token) :
    (forecastBar precedence sites (kindsOf tokens)).choice ≠ none := by
  unfold forecastBar
  split
  · split
    · simp
    · split <;> simp
  · simp

/-- Where a call is chosen after a bar, a whole call lies ahead. -/
theorem forecastStage_whole {sites : List Site} (nested : sites ≠ []) {bar : Bar}
    {tokens : List Token}
    (chosen : (forecastStage 0 sites (kindsOf (bar.val :: tokens))).choice = some .call) :
    (CallPart.start.run (kindsOf tokens)).1.isWhole = true := by
  by_cases boundary : Boundary tokens
  · rw [forecastStage_nothing sites bar tokens boundary] at chosen
    exact absurd chosen (by simp)
  · cases tokens with
    | nil => exact absurd trivial boundary
    | cons token rest =>
      have notSeparator : token.kind.isSeparator = false := by simpa [Boundary] using boundary
      rw [forecastStage_ahead sites nested bar token rest notSeparator] at chosen
      split at chosen
      · assumption
      · exact absurd chosen (by simp)

end MiniShell
