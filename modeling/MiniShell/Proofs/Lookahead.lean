/-
This file relates the look ahead to the derivations of the grammar. The
automaton for calls runs through the tokens of every call and stops at the
separator behind it. A line is then a sequence of calls, some of them missing,
with separators between them, and two languages of such lines matter: inside a
pipe everything is allowed, while outside of every pipe a bar must stand
between two calls. The tokens of every command lie in the second language, and
the look ahead over the rest of a line decides it for lines of the first.
-/

import MiniShell.Grammar.Lookahead
import MiniShell.Proofs.Derivation

namespace MiniShell

open MiniShell.Derivation

/-! ### The automaton for calls -/

namespace CallPart

/-- The part of a call that is seen with all the given tokens, if they can belong to it. -/
def through (part : CallPart) : List Kind → Option CallPart
  | [] => some part
  | kind :: rest =>
    match part.step kind with
    | none => none
    | some next => next.through rest

/-- What is seen after a piece of text: the name in a redirection before the first word, or
words. -/
def afterPiece : CallPart → CallPart
  | leadOperator | leadOperatorBlank | leadTarget => leadTarget
  | _ => words

theorem step_piece (part : CallPart) (kind : Kind) (piece : kind.isPiece = true) :
    part.step kind = some part.afterPiece := by
  cases part <;> cases kind <;> first | rfl | exact absurd piece (by decide)

theorem step_separator (part : CallPart) (kind : Kind) (separator : kind.isSeparator = true) :
    part.step kind = none := by
  cases part <;> cases kind <;> first | rfl | exact absurd separator (by decide)

theorem hasWord_of_isWhole {part : CallPart} (whole : part.isWhole = true) :
    part.hasWord = true := by
  revert whole
  cases part <;> decide

theorem afterPiece_afterPiece (part : CallPart) : part.afterPiece.afterPiece = part.afterPiece := by
  cases part <;> rfl

theorem through_append (part : CallPart) (first second : List Kind) :
    part.through (first ++ second) =
      (part.through first).bind fun middle => middle.through second := by
  induction first generalizing part with
  | nil => rfl
  | cons kind rest inductionHypothesis =>
    simp only [List.cons_append, through]
    cases part.step kind with
    | none => rfl
    | some next => exact inductionHypothesis next

theorem through_append_of_some {part middle last : CallPart} {first second : List Kind}
    (before : part.through first = some middle) (behind : middle.through second = some last) :
    part.through (first ++ second) = some last := by
  rw [through_append, before]
  exact behind

/-- A run over tokens that belong to the call goes on behind them. -/
theorem run_of_through {part middle : CallPart} {first : List Kind} (rest : List Kind)
    (belong : part.through first = some middle) :
    part.run (first ++ rest) =
      ((middle.run rest).1, first.length + (middle.run rest).2.1, (middle.run rest).2.2) := by
  induction first generalizing part with
  | nil =>
    obtain rfl := Option.some.inj belong
    simp
  | cons kind others inductionHypothesis =>
    simp only [through] at belong
    simp only [List.cons_append, run]
    cases stepped : part.step kind with
    | none => simp [stepped] at belong
    | some next =>
      simp only [stepped] at belong
      simp only [inductionHypothesis belong, List.length_cons]
      rw [Nat.add_right_comm]

/-- The look ahead over the rest of a line goes on behind tokens that belong to a call. -/
theorem lookOutside_of_through {part middle : CallPart} {first : List Kind} (rest : List Kind)
    (barSeen : Bool) (belong : part.through first = some middle) :
    (lookOutside barSeen part (first ++ rest)).1 = (lookOutside barSeen middle rest).1 := by
  induction first generalizing part with
  | nil =>
    obtain rfl := Option.some.inj belong
    rfl
  | cons kind others inductionHypothesis =>
    simp only [through] at belong
    simp only [List.cons_append, lookOutside]
    cases stepped : part.step kind with
    | none => simp [stepped] at belong
    | some next =>
      simp only [stepped] at belong
      exact inductionHypothesis belong

end CallPart

/-! ### The tokens of a call -/

/-- The kinds of tokens. -/
def kindsOf (tokens : List Token) : List Kind := tokens.map Token.kind

@[simp] theorem kindsOf_nil : kindsOf [] = [] := rfl

@[simp] theorem kindsOf_cons (token : Token) (rest : List Token) :
    kindsOf (token :: rest) = token.kind :: kindsOf rest := rfl

@[simp] theorem kindsOf_append (first second : List Token) :
    kindsOf (first ++ second) = kindsOf first ++ kindsOf second := List.map_append

@[simp] theorem kindsOf_length (tokens : List Token) : (kindsOf tokens).length = tokens.length :=
  List.length_map _

theorem through_pieces (part : CallPart) (pieces : List Token) (nonempty : pieces ≠ [])
    (arePieces : ∀ piece ∈ pieces, piece.kind.isPiece = true) :
    part.through (kindsOf pieces) = some part.afterPiece := by
  induction pieces generalizing part with
  | nil => exact absurd rfl nonempty
  | cons piece rest inductionHypothesis =>
    simp only [kindsOf_cons, CallPart.through,
      CallPart.step_piece part piece.kind (arePieces piece List.mem_cons_self)]
    cases rest with
    | nil => rfl
    | cons second others =>
      rw [inductionHypothesis part.afterPiece (by simp)
        fun other member => arePieces other (List.mem_cons_of_mem _ member)]
      rw [CallPart.afterPiece_afterPiece]

theorem through_argument (part : CallPart) (argument : Argument) :
    part.through (kindsOf argument.tokens) = some part.afterPiece :=
  through_pieces part argument.pieces argument.nonempty argument.arePieces

theorem through_blank (part next : CallPart) (step : part.step .blank = some next)
    (blank : Blank) : part.through (kindsOf [blank.val]) = some next := by
  simp [CallPart.through, blank.property, step]

/-- A redirection before the first word. -/
theorem through_leadingRedirection {part : CallPart} (opens : part = .start ∨ part = .lead)
    (redirection : Redirection) :
    part.through (kindsOf redirection.tokens) = some .leadTarget := by
  have operator : part.step redirection.operator.kind = some .leadOperator := by
    have isOperator := redirection.isOperator
    rcases opens with rfl | rfl <;> revert isOperator <;> cases redirection.operator.kind <;> decide
  simp only [Redirection.tokens, kindsOf_cons, CallPart.through, operator, kindsOf_append]
  cases redirection.blank with
  | none => exact through_argument .leadOperator redirection.target
  | some blank =>
    exact CallPart.through_append_of_some (through_blank .leadOperator .leadOperatorBlank rfl blank)
      (through_argument .leadOperatorBlank redirection.target)

/-- A redirection after the first word. -/
theorem through_redirection {part : CallPart} (whole : part.isWhole = true)
    (redirection : Redirection) :
    part.through (kindsOf redirection.tokens) = some .words := by
  have operator : part.step redirection.operator.kind = some .operator := by
    have isOperator := redirection.isOperator
    revert whole isOperator
    cases part <;> cases redirection.operator.kind <;> decide
  simp only [Redirection.tokens, kindsOf_cons, CallPart.through, operator, kindsOf_append]
  cases redirection.blank with
  | none => exact through_argument .operator redirection.target
  | some blank =>
    exact CallPart.through_append_of_some (through_blank .operator .operatorBlank rfl blank)
      (through_argument .operatorBlank redirection.target)

theorem through_atom {part : CallPart} (whole : part.isWhole = true) (atom : Atom) :
    part.through (kindsOf atom.tokens) = some .words := by
  cases atom with
  | redirection redirection => exact through_redirection whole redirection
  | argument argument =>
    have words : part.afterPiece = .words := by
      revert whole
      cases part <;> decide
    exact words ▸ through_argument part argument

theorem through_atoms (atoms : List (Option Blank × Atom)) :
    CallPart.words.through (kindsOf (atomTokens atoms)) = some .words := by
  induction atoms with
  | nil => rfl
  | cons entry rest inductionHypothesis =>
    obtain ⟨blank, atom⟩ := entry
    rw [atomTokens_cons, kindsOf_append]
    refine CallPart.through_append_of_some ?_ inductionHypothesis
    cases blank with
    | none => exact through_atom rfl atom
    | some blank =>
      rw [kindsOf_append]
      exact CallPart.through_append_of_some (through_blank .words .wordsBlank rfl blank)
        (through_atom rfl atom)

/-- The redirections before the first word, which lead on to that word. -/
theorem through_leading (leading : List (Redirection × Blank)) (part : CallPart)
    (opens : part = .start ∨ part = .lead) :
    ∃ next : CallPart, (next = .start ∨ next = .lead) ∧
      part.through (kindsOf (leadingTokens leading)) = some next := by
  induction leading generalizing part with
  | nil => exact ⟨part, opens, rfl⟩
  | cons entry rest inductionHypothesis =>
    obtain ⟨redirection, blank⟩ := entry
    obtain ⟨next, opensNext, behind⟩ := inductionHypothesis .lead (Or.inr rfl)
    refine ⟨next, opensNext, ?_⟩
    rw [leadingTokens_cons, kindsOf_append, kindsOf_append]
    exact CallPart.through_append_of_some
      (CallPart.through_append_of_some (through_leadingRedirection opens redirection)
        (through_blank .leadTarget .lead rfl blank)) behind

/-- What the automaton has seen after a call. -/
def Derivation.Call.lastPart (call : Call) : CallPart :=
  match call.trail with
  | none => .words
  | some _ => .wordsBlank

theorem lastPart_isWhole (call : Call) : call.lastPart.isWhole = true := by
  unfold Call.lastPart
  cases call.trail <;> rfl

/-- The automaton runs through the tokens of a call, into the state that belongs to its last part.
-/
theorem through_lastPart (call : Call) :
    CallPart.start.through (kindsOf call.tokens) = some call.lastPart := by
  have lead : ∃ part : CallPart, (part = .start ∨ part = .lead) ∧
      CallPart.start.through (kindsOf (blankTokens call.lead)) = some part := by
    cases call.lead with
    | none => exact ⟨.start, Or.inl rfl, rfl⟩
    | some blank => exact ⟨.lead, Or.inr rfl, through_blank .start .lead rfl blank⟩
  obtain ⟨opening, isOpening, leadBelongs⟩ := lead
  obtain ⟨next, isNext, leadingBelongs⟩ := through_leading call.leading opening isOpening
  -- Whatever came before the first word, the automaton is in the words behind it.
  have first : next.through (kindsOf call.first.tokens) = some .words := by
    rw [through_argument]
    rcases isNext with rfl | rfl <;> rfl
  have trail : CallPart.words.through (kindsOf (blankTokens call.trail)) = some call.lastPart := by
    unfold Call.lastPart
    cases call.trail with
    | none => rfl
    | some blank => exact through_blank .words .wordsBlank rfl blank
  simp only [Call.tokens, kindsOf_append]
  exact CallPart.through_append_of_some (CallPart.through_append_of_some
    (CallPart.through_append_of_some (CallPart.through_append_of_some leadBelongs leadingBelongs)
      first) (through_atoms call.atoms)) trail

/-- What stands behind a call does not continue it. -/
def Derivation.Call.Ends (call : Call) (rest : List Token) : Prop :=
  ∀ token others, rest = token :: others → call.lastPart.step token.kind = none

/-- The automaton runs through the tokens of a call and has seen a whole call then. -/
theorem through_call (call : Call) :
    ∃ part : CallPart, part.isWhole = true ∧
      CallPart.start.through (kindsOf call.tokens) = some part :=
  ⟨call.lastPart, lastPart_isWhole call, through_lastPart call⟩

/-- A call has a first token, and that is no separator. -/
theorem call_head (call : Call) :
    ∃ token rest, call.tokens = token :: rest ∧ token.kind.isSeparator = false := by
  obtain ⟨part, whole, belong⟩ := through_call call
  cases tokens : call.tokens with
  | nil =>
    rw [tokens] at belong
    obtain rfl := Option.some.inj belong
    exact absurd whole (by decide)
  | cons token rest =>
    refine ⟨token, rest, rfl, ?_⟩
    cases separator : token.kind.isSeparator with
    | false => rfl
    | true =>
      rw [tokens, kindsOf_cons, CallPart.through, CallPart.step_separator _ _ separator] at belong
      exact absurd belong (by simp)

/-- Where a call may end: at the end of the line or before a separator. -/
def Boundary : List Token → Prop
  | [] => True
  | token :: _ => token.kind.isSeparator = true

theorem run_boundary (part : CallPart) (rest : List Token) (boundary : Boundary rest) :
    part.run (kindsOf rest) = (part, 0, kindsOf rest) := by
  cases rest with
  | nil => rfl
  | cons token others =>
    simp only [kindsOf_cons, CallPart.run, CallPart.step_separator part token.kind boundary]

theorem Boundary.ends {rest : List Token} (boundary : Boundary rest) (call : Call) :
    call.Ends rest := by
  rintro token others rfl
  exact CallPart.step_separator _ token.kind boundary

/-- The automaton takes a call and stops where nothing continues it. -/
theorem run_ends {call : Call} {rest : List Token} (ends : call.Ends rest) :
    CallPart.start.run (kindsOf (call.tokens ++ rest)) =
      (call.lastPart, call.tokens.length, kindsOf rest) := by
  have stuck : call.lastPart.run (kindsOf rest) = (call.lastPart, 0, kindsOf rest) := by
    cases rest with
    | nil => rfl
    | cons token others => rw [kindsOf_cons, CallPart.run, ends token others rfl]
  rw [kindsOf_append, CallPart.run_of_through _ (through_lastPart call), stuck]
  simp

/-- The automaton stops behind a call and has seen a whole call. -/
theorem run_call (call : Call) (rest : List Token) (boundary : Boundary rest) :
    ∃ part : CallPart, part.isWhole = true ∧
      CallPart.start.run (kindsOf (call.tokens ++ rest)) =
        (part, call.tokens.length, kindsOf rest) :=
  ⟨call.lastPart, lastPart_isWhole call, run_ends (boundary.ends call)⟩

/-- The automaton stops behind a call that cannot be continued by the next token. -/
theorem run_stops (call : Call) (rest : List Token)
    (stops : ∀ token others, rest = token :: others →
      atomKinds.contains token.kind = false ∧ (call.trail = none → token.kind ≠ .blank)) :
    (CallPart.start.run (kindsOf (call.tokens ++ rest))).2.2 = kindsOf rest := by
  have ends : call.Ends rest := by
    intro token others behind
    obtain ⟨noAtom, noBlank⟩ := stops token others behind
    unfold Call.lastPart
    cases trail : call.trail with
    | none =>
      have other := noBlank trail
      show CallPart.words.step token.kind = none
      revert noAtom other
      cases token.kind <;> decide
    | some blank =>
      show CallPart.wordsBlank.step token.kind = none
      revert noAtom
      cases token.kind <;> decide
  rw [run_ends ends]

end MiniShell
