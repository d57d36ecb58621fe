/-
This file follows reading through lines without empty commands: calls that are
joined by bars into chains, and chains that are joined by semicolons into a
series. The tree of such a line is known exactly, because every choice on the
way is forced: a call stands after every bar, and the line behind every
semicolon is a command by itself.

Scripts and rows of arguments are read by way of this. Their tokens are those
of a series, so one theorem gives the trees of all of them.
-/

import MiniShell.Proofs.Acceptance

namespace MiniShell

open MiniShell.Derivation

/-! ### Chains and series -/

/-- Calls with bars between them. -/
structure Chain where
  first : Call
  later : List (Bar × Call)

namespace Chain

/-- A pipe continued by calls. -/
def extend (pipe : Pipe) : List (Bar × Call) → Pipe
  | [] => pipe
  | (bar, call) :: rest => extend (.call pipe bar call) rest

/-- The command that a chain is. -/
def command : Chain → Derivation.Command
  | ⟨first, []⟩ => .call first
  | ⟨first, (bar, second) :: rest⟩ => .pipe (extend (.calls first bar second) rest)

/-- The tokens of the calls after the first, with the bars before them. -/
def laterTokens : List (Bar × Call) → List Token
  | [] => []
  | (bar, call) :: rest => bar.val :: (call.tokens ++ laterTokens rest)

def tokens (chain : Chain) : List Token := chain.first.tokens ++ laterTokens chain.later

/-- All calls of a chain are tight. -/
def Tight (chain : Chain) : Prop :=
  chain.first.Tight ∧ ∀ entry ∈ chain.later, entry.2.Tight

theorem extend_tokens (pipe : Pipe) (later : List (Bar × Call)) :
    (extend pipe later).tokens = pipe.tokens ++ laterTokens later := by
  induction later generalizing pipe with
  | nil => rw [extend, laterTokens, List.append_nil]
  | cons entry rest inductionHypothesis =>
    rw [extend, inductionHypothesis, Pipe.tokens, laterTokens, List.append_assoc, List.cons_append]

theorem command_tokens (chain : Chain) : chain.command.tokens = chain.tokens := by
  obtain ⟨first, later⟩ := chain
  cases later with
  | nil => rw [command, Command.tokens, tokens, laterTokens, List.append_nil]
  | cons entry rest =>
    rw [command, Command.tokens, extend_tokens, Pipe.tokens, tokens, laterTokens,
      List.append_assoc, List.cons_append]

end Chain

/-- Chains with semicolons between them. -/
structure Series where
  first : Chain
  later : List (Semicolon × Chain)

namespace Series

/-- A command followed by chains. -/
def extend (command : Derivation.Command) : List (Semicolon × Chain) → Derivation.Command
  | [] => command
  | (semicolon, chain) :: rest => extend (.sequence command semicolon chain.command) rest

/-- The command that a series is. -/
def command (series : Series) : Derivation.Command := extend series.first.command series.later

/-- The tokens of the chains after the first, with the semicolons before them. -/
def laterTokens : List (Semicolon × Chain) → List Token
  | [] => []
  | (semicolon, chain) :: rest => semicolon.val :: (chain.tokens ++ laterTokens rest)

def tokens (series : Series) : List Token := series.first.tokens ++ laterTokens series.later

/-- All calls of a series are tight. -/
def Tight (series : Series) : Prop :=
  series.first.Tight ∧ ∀ entry ∈ series.later, entry.2.Tight

theorem extend_tokens (command : Derivation.Command) (later : List (Semicolon × Chain)) :
    (extend command later).tokens = command.tokens ++ laterTokens later := by
  induction later generalizing command with
  | nil => rw [extend, laterTokens, List.append_nil]
  | cons entry rest inductionHypothesis =>
    rw [extend, inductionHypothesis, Command.tokens, laterTokens, Chain.command_tokens,
      List.append_assoc, List.cons_append]

/-- The line behind each semicolon is a command by itself. -/
theorem derivable_chain (chain : Chain) (later : List (Semicolon × Chain)) :
    Derivable (chain.tokens ++ laterTokens later) :=
  ⟨extend chain.command later, by rw [extend_tokens, Chain.command_tokens]⟩

end Series

/-! ### Reading a chain -/

namespace Recogniser

/-- What may follow a chain: the end of the line, or a semicolon with a line behind it that fits
outside of pipes. -/
structure Finishes (rest : List Token) : Prop where
  boundary : Boundary rest
  noBar : headKind rest ≠ .bar
  fits : ∀ semicolon others, rest = semicolon :: others → semicolon.kind = .semicolon →
    (lookOutside false .start (kindsOf others)).1 = true

theorem finishes_series (later : List (Semicolon × Chain)) :
    Finishes (Series.laterTokens later) := by
  cases later with
  | nil =>
    rw [Series.laterTokens]
    exact ⟨trivial, by simp [headKind], fun _ _ equal => absurd equal (by simp)⟩
  | cons entry rest =>
    obtain ⟨semicolon, chain⟩ := entry
    refine ⟨semicolon_isSeparator semicolon, ?_, ?_⟩
    · rw [Series.laterTokens, headKind, semicolon.property]
      decide
    · intro token others equal _
      rw [Series.laterTokens] at equal
      rw [← (List.cons.inj equal).2]
      exact (Series.derivable_chain chain rest).outside.fits

theorem boundary_chain (later : List (Bar × Call)) {rest : List Token} (boundary : Boundary rest) :
    Boundary (Chain.laterTokens later ++ rest) := by
  cases later with
  | nil => exact boundary
  | cons entry others => exact bar_isSeparator entry.1

/-- Only the end of a chain can be followed by a semicolon. -/
theorem chain_fits {rest : List Token} (finishes : Finishes rest) (later : List (Bar × Call))
    {semicolon : Token} {others : List Token}
    (equal : Chain.laterTokens later ++ rest = semicolon :: others)
    (isSemicolon : semicolon.kind = .semicolon) :
    (lookOutside false .start (kindsOf others)).1 = true := by
  cases later with
  | nil => exact finishes.fits semicolon others equal isSemicolon
  | cons entry further =>
    have isBar := entry.1.property
    rw [(List.cons.inj equal).1, isSemicolon] at isBar
    exact absurd isBar (by decide)

/-- The loop over bars takes the calls of a chain. -/
theorem runs_stages {fuel : Nat} {sites : List Site} (nested : sites ≠ [])
    {later : List (Bar × Call)} (tight : ∀ entry ∈ later, entry.2.Tight) {rest : List Token}
    (finishes : Finishes rest) (pipe : Pipe)
    (enough : (Chain.laterTokens later).length < fuel) :
    (stages fuel 0 sites).Runs (Chain.laterTokens later ++ rest, pipe.parts)
      (rest, (Chain.extend pipe later).parts) := by
  induction later generalizing fuel pipe with
  | nil =>
    cases fuel with
    | zero => exact absurd enough (Nat.not_lt_zero _)
    | succ fuel =>
      refine Runs.follow .done (forecastBar_done 0 sites rest ?_) (Runs.pure _)
      rintro token others rfl
      exact finishes.noBar
  | cons entry others inductionHypothesis =>
    obtain ⟨bar, call⟩ := entry
    rw [Chain.laterTokens, List.length_cons, List.length_append] at enough
    cases fuel with
    | zero => exact absurd enough (Nat.not_lt_zero _)
    | succ fuel =>
      have tightCall : call.Tight := tight (bar, call) (by simp)
      have boundary := boundary_chain others finishes.boundary
      have goesOn : (stages fuel 0 sites).Runs
          (Chain.laterTokens others ++ rest, [.node .pipe pipe.parts, .leaf bar.val, call.tree])
          (rest, (Chain.extend (.call pipe bar call) others).parts) := by
        have runs : (stages fuel 0 sites).Runs _ _ := inductionHypothesis
          (fun entry member => tight entry (List.mem_cons_of_mem _ member))
          (.call pipe bar call) (by omega)
        rw [Pipe.parts] at runs
        exact runs
      -- A semicolon can only follow the last call of the chain, and the look ahead passes there.
      have chosen := forecastStage_call sites nested bar call _ boundary
        fun semicolon _ equal isSemicolon =>
          Or.inr (chain_fits finishes others equal isSemicolon)
      rw [Chain.laterTokens, Chain.extend, List.cons_append, List.append_assoc]
      exact runs_stage ((Runs.call tightCall [.node .pipe pipe.parts, .leaf bar.val] (by omega)
        boundary fun first => absurd first (by simp [beforeFirstBar])).bind goesOn) chosen

/-- A chain is read as a command, with what the loop over semicolons makes of it. -/
theorem runs_chain {fuel : Nat} {precedence : Int} {sites : List Site} {chain : Chain}
    (tight : chain.Tight) {rest last : List Token} {parts : List Tree} (trees : List Tree)
    (finishes : Finishes rest) (enough : chain.tokens.length + 1 < fuel)
    (goesOn : (operands fuel precedence sites).Runs (rest, chain.command.parts) (last, parts)) :
    (liftM (command (fuel + 1) precedence sites) : Recogniser Unit).Runs
      (chain.tokens ++ rest, trees) (last, trees ++ [.node .command parts]) := by
  obtain ⟨first, later⟩ := chain
  cases later with
  | nil =>
    rw [Chain.tokens, Chain.laterTokens, List.append_nil] at enough ⊢
    rw [Chain.command, Command.parts] at goesOn
    refine Runs.within trees (Runs.follow .call (forecastCommand_call _ first rest
      finishes.boundary ?_) ((Runs.call tight.1 [] (by omega) finishes.boundary ?_).bind goesOn))
    · rintro bar others rfl isBar
      exact absurd isBar finishes.noBar
    · exact fun isFirst => absurd isFirst (by simp [beforeFirstBar])
  | cons entry others =>
    obtain ⟨bar, second⟩ := entry
    have tightSecond : second.Tight := tight.2 (bar, second) (by simp)
    have boundary := boundary_chain others finishes.boundary
    rw [Chain.tokens, Chain.laterTokens, List.length_append, List.length_cons, List.length_append]
      at enough
    rw [Chain.command, Command.parts] at goesOn
    obtain ⟨less, rfl⟩ : ∃ less, fuel = less + 1 := ⟨fuel - 1, by omega⟩
    have loop : (stages less 0 (.pipeOfCommand :: sites)).Runs _ _ :=
      runs_stages (by simp) (fun entry member => tight.2 entry (List.mem_cons_of_mem _ member))
        finishes (.calls first bar second) (by omega)
    rw [Pipe.parts] at loop
    rw [Chain.tokens, Chain.laterTokens, List.append_assoc, List.cons_append, List.append_assoc]
    exact Runs.within trees (Runs.follow .pipe (forecastCommand_pipe _ first bar second _ boundary)
      ((runs_pipe bar tight.1 tightSecond [] (by omega) boundary loop).bind goesOn))

/-- The loop over semicolons takes the chains of a series. -/
theorem runs_operands {fuel : Nat} {later : List (Semicolon × Chain)}
    (tight : ∀ entry ∈ later, entry.2.Tight) (left : Derivation.Command)
    (enough : 2 * (Series.laterTokens later).length + 3 ≤ fuel) :
    (operands fuel 0 []).Runs (Series.laterTokens later, left.parts)
      ([], (Series.extend left later).parts) := by
  induction later generalizing fuel left with
  | nil =>
    obtain ⟨less, rfl⟩ : ∃ less, fuel = less + 1 := ⟨fuel - 1, by omega⟩
    exact Runs.follow .done (forecastSemicolon_done 0 [] []
      fun _ _ equal => absurd equal (by simp)) (Runs.pure _)
  | cons entry others inductionHypothesis =>
    obtain ⟨semicolon, chain⟩ := entry
    rw [Series.laterTokens, List.length_cons, List.length_append] at enough
    obtain ⟨less, rfl⟩ : ∃ less, fuel = less + 2 := ⟨fuel - 2, by omega⟩
    have finishes := finishes_series others
    have tightChain : chain.Tight := tight (semicolon, chain) (by simp)
    have stays : (operands less Operator.semicolon.operandLevel [.operand]).Runs
        (Series.laterTokens others, chain.command.parts)
        (Series.laterTokens others, chain.command.parts) := by
      obtain ⟨fewer, rfl⟩ : ∃ fewer, less = fewer + 1 := ⟨less - 1, by omega⟩
      exact Runs.follow .done (forecastSemicolon_done _ [.operand] _ fun _ _ _ _ => by decide)
        (Runs.pure _)
    have goesOn : (operands (less + 1) 0 []).Runs _ _ := inductionHypothesis
      (fun entry member => tight entry (List.mem_cons_of_mem _ member))
      (.sequence left semicolon chain.command) (by omega)
    rw [Command.parts] at goesOn
    rw [Series.laterTokens, Series.extend]
    exact Runs.follow .again (forecastSemicolon_again 0 (by decide) [] semicolon _)
      ((Runs.wrapCommand _ left.parts).bind ((Runs.accept semicolon.val _ _).bind
        ((runs_chain tightChain _ finishes (by omega) stays).bind goesOn)))

end Recogniser

/-- The tree of a series is known exactly. -/
theorem readLine_series {line : Text} {series : Series} (tight : series.Tight)
    (tokens : Token.ofLine line = series.tokens) :
    (readLine line .command 0).tree = series.command.tree := by
  have length : (Token.ofLine line).length =
      series.first.tokens.length + (Series.laterTokens series.later).length := by
    rw [tokens, Series.tokens, List.length_append]
  have loop : (Recogniser.operands (4 * (Token.ofLine line).length + 7) 0 []).Runs _ _ :=
    Recogniser.runs_operands tight.2 series.first.command (by omega)
  have runs := Recogniser.runs_chain tight.1 [] (Recogniser.finishes_series series.later)
    (by omega) loop
  rw [← Series.tokens, ← tokens] at runs
  obtain ⟨last, finished, _, _, _, children⟩ :=
    runs (Cursor.start (Token.ofLine line) (Mark.start.after line)) rfl rfl rfl
  have isLast : lastCursor line = last := congrArg Prod.snd finished
  rw [readLine_tree, isLast, children]
  rfl

end MiniShell
