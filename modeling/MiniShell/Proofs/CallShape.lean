/-
This file shows that the automaton for calls accepts nothing but calls. What it
has seen in each of its states is the beginning of a call of a certain shape,
and every step keeps to these shapes. Where it stops and has seen a whole call,
the tokens it ran over are those of a call, and the token behind them does not
continue it.

The shapes are a relation with one constructor for each state, so that an
induction over the tokens is one over the steps of the automaton. That it runs
through every call is proved with the look ahead; together the two say that it
finds the calls and nothing else.
-/

import MiniShell.Proofs.Lookahead

namespace MiniShell

open MiniShell.Derivation

namespace Derivation

/-- A call with one more atom at its end. A blank that stood there now parts them. -/
def Call.snoc (call : Call) (atom : Atom) : Call :=
  { call with atoms := call.atoms ++ [(call.trail, atom)], trail := none }

theorem Call.snoc_tokens (call : Call) (atom : Atom) :
    (call.snoc atom).tokens = call.tokens ++ atom.tokens := by
  simp [Call.snoc, Call.tokens, atomTokens, blankTokens]

end Derivation

/-! ### The beginnings of calls -/

/-- What is seen after the operator of a redirection, if there can be one. -/
def CallPart.afterOperator : CallPart → Option CallPart
  | start | lead => some leadOperator
  | words | wordsBlank => some operator
  | _ => none

theorem CallPart.step_redirection (part : CallPart) (kind : Kind)
    (isOperator : kind.isRedirection = true) : part.step kind = part.afterOperator := by
  cases part <;> cases kind <;> first | rfl | exact absurd isOperator (by decide)

/-- The tokens before the first word of a call. -/
def openingTokens (lead : Option Blank) (leading : List (Redirection × Blank)) : List Token :=
  blankTokens lead ++ leadingTokens leading

/-- What the tokens seen by the automaton are in each of its states. -/
inductive Shape : CallPart → List Token → Prop
  | start : Shape .start []
  | lead (lead : Option Blank) (leading : List (Redirection × Blank)) :
      Shape .lead (openingTokens lead leading)
  | leadOperator (lead : Option Blank) (leading : List (Redirection × Blank)) {operator : Token}
      (isOperator : operator.kind.isRedirection = true) :
      Shape .leadOperator (openingTokens lead leading ++ [operator])
  | leadOperatorBlank (lead : Option Blank) (leading : List (Redirection × Blank))
      {operator : Token} (isOperator : operator.kind.isRedirection = true) (blank : Blank) :
      Shape .leadOperatorBlank (openingTokens lead leading ++ [operator, blank.val])
  | leadTarget (lead : Option Blank) (leading : List (Redirection × Blank))
      (redirection : Redirection) :
      Shape .leadTarget (openingTokens lead leading ++ redirection.tokens)
  | words (call : Call) (bare : call.trail = none) : Shape .words call.tokens
  | wordsBlank (call : Call) (spaced : call.trail ≠ none) : Shape .wordsBlank call.tokens
  | operator (call : Call) {operator : Token} (isOperator : operator.kind.isRedirection = true) :
      Shape .operator (call.tokens ++ [operator])
  | operatorBlank (call : Call) {operator : Token}
      (isOperator : operator.kind.isRedirection = true) (blank : Blank) :
      Shape .operatorBlank (call.tokens ++ [operator, blank.val])

namespace Shape

variable {token : Token}

/-- The first word of a call begins. -/
theorem firstWord (lead : Option Blank) (leading : List (Redirection × Blank))
    (isPiece : token.kind.isPiece = true) :
    Shape .words (openingTokens lead leading ++ [token]) := by
  have shape := words ⟨lead, leading, .single ⟨token, isPiece⟩, [], none⟩ rfl
  simpa [Call.tokens, Argument.single, Argument.tokens, atomTokens, openingTokens] using shape

/-- A call goes on with a word. -/
theorem nextWord (call : Call) (isPiece : token.kind.isPiece = true) :
    Shape .words (call.tokens ++ [token]) := by
  have shape := words (call.snoc (.argument (.single ⟨token, isPiece⟩))) rfl
  rw [Call.snoc_tokens] at shape
  exact shape

/-- A call goes on with a redirection. -/
theorem nextRedirection (call : Call) (redirection : Redirection) :
    Shape .words (call.tokens ++ redirection.tokens) := by
  have shape := words (call.snoc (.redirection redirection)) rfl
  rw [Call.snoc_tokens] at shape
  exact shape

/-- One more piece of text. -/
theorem piece {part : CallPart} {tokens : List Token} (shape : Shape part tokens)
    (isPiece : token.kind.isPiece = true) : Shape part.afterPiece (tokens ++ [token]) := by
  cases shape with
  | start => exact firstWord none [] isPiece
  | lead opening leading => exact firstWord opening leading isPiece
  | leadOperator opening leading isOperator =>
    rw [List.append_assoc]
    exact leadTarget opening leading ⟨_, isOperator, none, .single ⟨token, isPiece⟩⟩
  | leadOperatorBlank opening leading isOperator blank =>
    rw [List.append_assoc]
    exact leadTarget opening leading ⟨_, isOperator, some blank, .single ⟨token, isPiece⟩⟩
  | leadTarget opening leading redirection =>
    have shape := leadTarget opening leading
      { redirection with target := redirection.target.append (.single ⟨token, isPiece⟩) }
    show Shape .leadTarget _
    simpa [Redirection.tokens, Argument.tokens, Argument.append, Argument.single] using shape
  | words call bare => exact nextWord call isPiece
  | wordsBlank call spaced => exact nextWord call isPiece
  | operator call isOperator =>
    rw [List.append_assoc]
    exact nextRedirection call ⟨_, isOperator, none, .single ⟨token, isPiece⟩⟩
  | operatorBlank call isOperator blank =>
    rw [List.append_assoc]
    exact nextRedirection call ⟨_, isOperator, some blank, .single ⟨token, isPiece⟩⟩

/-- One more blank. -/
theorem blank {part next : CallPart} {tokens : List Token} (shape : Shape part tokens)
    (isBlank : token.kind = .blank) (stepped : part.step .blank = some next) :
    Shape next (tokens ++ [token]) := by
  cases shape with
  | start =>
    obtain rfl := Option.some.inj stepped
    exact lead (some ⟨token, isBlank⟩) []
  | leadOperator opening leading isOperator =>
    obtain rfl := Option.some.inj stepped
    rw [List.append_assoc]
    exact leadOperatorBlank opening leading isOperator ⟨token, isBlank⟩
  | leadTarget opening leading redirection =>
    obtain rfl := Option.some.inj stepped
    have shape := lead opening (leading ++ [(redirection, ⟨token, isBlank⟩)])
    simpa [openingTokens, leadingTokens] using shape
  | words call bare =>
    obtain rfl := Option.some.inj stepped
    have shape := wordsBlank { call with trail := some ⟨token, isBlank⟩ } (by simp)
    simpa [Call.tokens, bare] using shape
  | operator call isOperator =>
    obtain rfl := Option.some.inj stepped
    rw [List.append_assoc]
    exact operatorBlank call isOperator ⟨token, isBlank⟩
  | lead | leadOperatorBlank | wordsBlank | operatorBlank =>
    exact absurd (show none = some next from stepped) (by simp)

/-- One more operator of a redirection. -/
theorem redirection {part next : CallPart} {tokens : List Token} (shape : Shape part tokens)
    (isOperator : token.kind.isRedirection = true) (stepped : part.step token.kind = some next) :
    Shape next (tokens ++ [token]) := by
  rw [part.step_redirection token.kind isOperator] at stepped
  cases shape with
  | start =>
    obtain rfl := Option.some.inj stepped
    exact leadOperator none [] isOperator
  | lead opening leading =>
    obtain rfl := Option.some.inj stepped
    exact leadOperator opening leading isOperator
  | words call bare =>
    obtain rfl := Option.some.inj stepped
    exact operator call isOperator
  | wordsBlank call spaced =>
    obtain rfl := Option.some.inj stepped
    exact operator call isOperator
  | leadOperator | leadOperatorBlank | leadTarget | operator | operatorBlank =>
    exact absurd (show none = some next from stepped) (by simp)

/-- One more token that the automaton takes. -/
theorem step {part next : CallPart} {tokens : List Token} (shape : Shape part tokens)
    (stepped : part.step token.kind = some next) : Shape next (tokens ++ [token]) := by
  by_cases isPiece : token.kind.isPiece = true
  · rw [part.step_piece token.kind isPiece] at stepped
    exact Option.some.inj stepped ▸ shape.piece isPiece
  · by_cases isBlank : token.kind = .blank
    · exact shape.blank isBlank (isBlank ▸ stepped)
    · by_cases isOperator : token.kind.isRedirection = true
      · exact shape.redirection isOperator stepped
      · have stuck : part.step token.kind = none := by
          revert isPiece isBlank isOperator
          cases part <;> cases token.kind <;> decide
        exact absurd (stuck.symm.trans stepped) (by simp)

/-- All the tokens that the automaton takes. -/
theorem through {part last : CallPart} {tokens more : List Token} (shape : Shape part tokens)
    (belong : part.through (kindsOf more) = some last) : Shape last (tokens ++ more) := by
  induction more generalizing part tokens with
  | nil =>
    obtain rfl := Option.some.inj belong
    rw [List.append_nil]
    exact shape
  | cons token others inductionHypothesis =>
    rw [kindsOf_cons, CallPart.through] at belong
    cases stepped : part.step token.kind with
    | none => simp [stepped] at belong
    | some next =>
      simp only [stepped] at belong
      have grown := inductionHypothesis (shape.step stepped) belong
      rwa [List.append_assoc, List.singleton_append] at grown

end Shape

/-! ### Where the automaton stops -/

/-- The automaton takes a beginning of the tokens and stops at the next one. -/
theorem run_splits (part : CallPart) (tokens : List Token) :
    ∃ front rest, tokens = front ++ rest ∧
      part.through (kindsOf front) = some (part.run (kindsOf tokens)).1 ∧
      (part.run (kindsOf tokens)).2.2 = kindsOf rest ∧
      ∀ token others, rest = token :: others →
        (part.run (kindsOf tokens)).1.step token.kind = none := by
  induction tokens generalizing part with
  | nil => exact ⟨[], [], rfl, rfl, rfl, fun _ _ equal => absurd equal (by simp)⟩
  | cons token tokens inductionHypothesis =>
    rw [kindsOf_cons, CallPart.run]
    cases stepped : part.step token.kind with
    | none =>
      refine ⟨[], token :: tokens, rfl, rfl, rfl, fun other others equal => ?_⟩
      rw [← (List.cons.inj equal).1]
      exact stepped
    | some next =>
      obtain ⟨front, rest, rfl, belong, left, stops⟩ := inductionHypothesis next
      refine ⟨token :: front, rest, rfl, ?_, left, stops⟩
      rw [kindsOf_cons, CallPart.through, stepped]
      exact belong

/-- Where the automaton has seen a whole call, the tokens begin with a call that ends there. -/
theorem exists_call_of_run {tokens : List Token}
    (whole : (CallPart.start.run (kindsOf tokens)).1.isWhole = true) :
    ∃ (call : Call) (rest : List Token), call.Tight ∧ tokens = call.tokens ++ rest ∧
      call.Ends rest ∧ (CallPart.start.run (kindsOf tokens)).2.2 = kindsOf rest := by
  obtain ⟨front, rest, rfl, belong, left, stops⟩ := run_splits .start tokens
  have shape := Shape.start.through belong
  rw [List.nil_append] at shape
  obtain ⟨call, rfl⟩ : ∃ call : Call, call.tokens = front := by
    generalize (CallPart.start.run (kindsOf (front ++ rest))).1 = part at shape whole
    cases shape with
    | words call | wordsBlank call => exact ⟨call, rfl⟩
    | _ => exact absurd whole (by decide)
  obtain ⟨tightened, tight, same⟩ := call.exists_tight
  refine ⟨tightened, rest, tight, by rw [same], fun token others behind => ?_, left⟩
  have part := through_lastPart tightened
  rw [same, belong] at part
  rw [← Option.some.inj part]
  exact stops token others behind

theorem run_ends_isWhole {call : Call} {rest : List Token} (ends : call.Ends rest) :
    (CallPart.start.run (kindsOf (call.tokens ++ rest))).1.isWhole = true := by
  rw [run_ends ends]
  exact lastPart_isWhole call

/-- There is only one way for tokens to begin with a call that ends where nothing continues it. -/
theorem Derivation.Call.Ends.tokens_unique {call other : Call} {rest others : List Token}
    (ends : call.Ends rest) (otherEnds : other.Ends others)
    (same : call.tokens ++ rest = other.tokens ++ others) : call.tokens = other.tokens := by
  have run := run_ends ends
  rw [same, run_ends otherEnds] at run
  have length : other.tokens.length = call.tokens.length := congrArg (·.2.1) run
  exact List.append_inj_left same length.symm

end MiniShell
