/-
This file tells what becomes of a line that does not fit the grammar. Reading
drops tokens in two places only: where a command should begin, and in a pipe
from a later bar on. Everything else is read as it is in a line that fits, so
the tree shows a command of the grammar with error leaves in these two places,
and the evaluator passes over them. No call is ever mended: a call that is left
has all its tokens.

So no line is rejected. What is run is the tree without its error leaves,
however much was reported. The tree is not what reading would make of the
tokens that are left, had they stood alone: the choices between the rules were
made when the dropped tokens were still there. Behind a second bar, for
instance, a semicolon goes to the stage if a dropped bar follows it and ends
the pipe if nothing does.
-/

import MiniShell.Proofs.CallShape
import MiniShell.Proofs.Recovery
import MiniShell.Proofs.Sequence
import MiniShell.Proofs.TokenAccount

namespace MiniShell

open MiniShell.Derivation
open Cursor (Took)
open MiniShell.Tree (leafTokensAll)

/-! ### Trees with dropped tokens -/

mutual

/-- The children of the node of a pipe that shows the given pipe, with tokens dropped inside of
its commands. -/
inductive MendedPipe : List Tree → Pipe → Prop
  | calls {left right : Call} (leftTight : left.Tight) (bar : Bar) (rightTight : right.Tight) :
      MendedPipe [left.tree, .leaf bar.val, right.tree] (.calls left bar right)
  | call {parts : List Tree} {left : Pipe} {right : Call} (mended : MendedPipe parts left)
      (bar : Bar) (tight : right.Tight) :
      MendedPipe [.node .pipe parts, .leaf bar.val, right.tree] (.call left bar right)
  | command {parts others : List Tree} {left : Pipe} {right : Derivation.Command}
      (mended : MendedPipe parts left) (bar : Bar) (stage : MendedCommand others right) :
      MendedPipe [.node .pipe parts, .leaf bar.val, .node .command others]
        (.command left bar right)

/-- The children of the node of a command that shows the given command, with tokens dropped at the
beginnings of commands and at the ends of pipes. -/
inductive MendedCommand : List Tree → Derivation.Command → Prop
  | nothing (dropped : List Token) : MendedCommand (dropped.map .error) .empty
  | call {call : Call} (tight : call.Tight) : MendedCommand [call.tree] (.call call)
  | pipe {parts : List Tree} {pipe : Pipe} (mended : MendedPipe parts pipe)
      (dropped : List Token) :
      MendedCommand [.node .pipe (parts ++ dropped.map .error)] (.pipe pipe)
  | sequence {parts others : List Tree} {left right : Derivation.Command}
      (first : MendedCommand parts left) (semicolon : Semicolon)
      (second : MendedCommand others right) :
      MendedCommand [.node .command parts, .leaf semicolon.val, .node .command others]
        (.sequence left semicolon right)

end

theorem leafTokensAll_errors (dropped : List Token) :
    leafTokensAll (dropped.map .error) = dropped := by
  induction dropped with
  | nil => rfl
  | cons token rest inductionHypothesis =>
    rw [List.map_cons, Tree.leafTokensAll_cons, inductionHypothesis]
    rfl

mutual

/-- The tokens of the pipe that is shown are among the leaves, in their order. -/
theorem MendedPipe.sublist {parts : List Tree} {pipe : Pipe} :
    (mended : MendedPipe parts pipe) → pipe.tokens.Sublist (leafTokensAll parts)
  | .calls _ bar _ => by simp [Pipe.tokens, Call.leafTokens]
  | .call mended bar _ => by
    have before := mended.sublist
    simp only [Pipe.tokens, Tree.leafTokensAll_cons, Tree.leafTokens_node, Tree.leafTokens_leaf,
      Tree.leafTokensAll_nil, Call.leafTokens, List.append_nil, List.singleton_append]
    exact before.append (List.Sublist.refl _)
  | .command mended bar stage => by
    have before := mended.sublist
    have behind := stage.sublist
    simp only [Pipe.tokens, Tree.leafTokensAll_cons, Tree.leafTokens_node, Tree.leafTokens_leaf,
      Tree.leafTokensAll_nil, List.append_nil, List.singleton_append]
    exact before.append (behind.cons_cons _)

/-- The tokens of the command that is shown are among the leaves, in their order. -/
theorem MendedCommand.sublist {parts : List Tree} {command : Derivation.Command} :
    (mended : MendedCommand parts command) → command.tokens.Sublist (leafTokensAll parts)
  | .nothing dropped => List.nil_sublist _
  | .call _ => by simp [Command.tokens, Call.leafTokens]
  | .pipe mended dropped => by
    have before := mended.sublist
    simp only [Command.tokens, Tree.leafTokensAll_single, Tree.leafTokens_node,
      Tree.leafTokensAll_append]
    exact before.trans (List.sublist_append_left _ _)
  | .sequence first semicolon second => by
    have before := first.sublist
    have behind := second.sublist
    simp only [Command.tokens, Tree.leafTokensAll_cons, Tree.leafTokens_node, Tree.leafTokens_leaf,
      Tree.leafTokensAll_nil, List.append_nil, List.singleton_append]
    exact before.append (behind.cons_cons _)

end

/-! ### The calls of a command -/

namespace Derivation

mutual

/-- The calls of a pipe from left to right. -/
def Pipe.allCalls : Pipe → List Call
  | .calls left _ right => [left, right]
  | .call left _ right => left.allCalls ++ [right]
  | .command left _ right => left.allCalls ++ right.allCalls

/-- The calls of a command from left to right. -/
def Command.allCalls : Command → List Call
  | .pipe pipe => pipe.allCalls
  | .sequence left _ right => left.allCalls ++ right.allCalls
  | .call call => [call]
  | .empty => []

end

end Derivation

theorem Derivation.Pipe.allCalls_nonempty (pipe : Pipe) : pipe.allCalls ≠ [] := by
  cases pipe with
  | calls left bar right => exact List.cons_ne_nil left [right]
  | call left bar right =>
    exact List.append_ne_nil_of_right_ne_nil _ (List.cons_ne_nil right [])
  | command left bar right => exact List.append_ne_nil_of_left_ne_nil left.allCalls_nonempty _

/-- Tight calls with the same tokens have the same tree. -/
theorem tree_unique {call other : Call} (tight : call.Tight) (otherTight : other.Tight)
    (same : call.tokens = other.tokens) : call.tree = other.tree := by
  have read (call : Call) (tight : call.Tight) : ∃ last : Cursor,
      (liftM (Recogniser.call (call.tokens.length + 1) []) : Recogniser Unit).start
        (Cursor.start (call.tokens ++ []) Mark.start) = (.ok (), last) ∧
      last.children = [call.tree] := by
    have ends : call.Ends [] := fun _ _ equal => absurd equal (by simp)
    obtain ⟨last, started, _, _, _, children⟩ := Recogniser.Runs.endedCall tight []
      (Nat.lt_succ_self _) ends (fun _ => by decide) (Cursor.start (call.tokens ++ []) Mark.start)
      rfl rfl rfl
    exact ⟨last, started, children⟩
  obtain ⟨last, started, children⟩ := read call tight
  obtain ⟨otherLast, otherStarted, otherChildren⟩ := read other otherTight
  rw [same, otherStarted] at started
  have lasts : otherLast = last := congrArg Prod.snd started
  rw [← lasts, otherChildren] at children
  exact ((List.cons.inj children).1).symm

/-- Whether a command with these tokens can go on behind a semicolon: it begins with a whole call,
or with the semicolon itself. -/
def GoesOn (tokens : List Token) : Prop :=
  (CallPart.start.run (kindsOf tokens)).1.isWhole = true ∨
    Recogniser.headKind tokens = .semicolon

/-- A command begins as the tokens do: with the call that they begin with, and with nothing at all
if there is no such call and no semicolon. -/
structure Begins (tokens : List Token) (command : Derivation.Command) : Prop where
  calls : ∀ (call : Call) (rest : List Token), tokens = call.tokens ++ rest → call.Tight →
    call.Ends rest → ∃ first others, command.allCalls = first :: others ∧ first.tree = call.tree
  nothing : ¬ GoesOn tokens → command = .empty

namespace Begins

theorem ofCall {call : Call} {rest : List Token} {command : Derivation.Command}
    {others : List Call} (tight : call.Tight) (ends : call.Ends rest)
    (first : command.allCalls = call :: others) : Begins (call.tokens ++ rest) command where
  calls _ _ same otherTight otherEnds :=
    ⟨call, others, first, tree_unique tight otherTight (ends.tokens_unique otherEnds same)⟩
  nothing stuck := absurd (Or.inl (run_ends_isWhole ends)) stuck

theorem ofBoundary {tokens : List Token} (boundary : Boundary tokens) :
    Begins tokens .empty where
  calls call rest same _ _ := by
    obtain ⟨token, others, callTokens, notSeparator⟩ := call_head call
    rw [same, callTokens] at boundary
    have separator : token.kind.isSeparator = true := boundary
    rw [notSeparator] at separator
    exact absurd separator (by decide)
  nothing _ := rfl

theorem ofBroken {tokens : List Token}
    (broken : (CallPart.start.run (kindsOf tokens)).1.isWhole = false) :
    Begins tokens .empty where
  calls call rest same _ ends := by
    rw [same, run_ends_isWhole ends] at broken
    exact absurd broken (by decide)
  nothing _ := rfl

/-- More commands behind a semicolon do not change how a command begins. -/
theorem sequence {tokens : List Token} {left : Derivation.Command} (begins : Begins tokens left)
    (goesOn : GoesOn tokens) (semicolon : Semicolon) (right : Derivation.Command) :
    Begins tokens (.sequence left semicolon right) where
  calls call rest same tight ends := by
    obtain ⟨first, others, calls, tree⟩ := begins.calls call rest same tight ends
    exact ⟨first, others ++ right.allCalls, by rw [Command.allCalls, calls, List.cons_append], tree⟩
  nothing stuck := absurd goesOn stuck

end Begins

/-! ### Evaluating them -/

section

open Evaluator

variable (substitute : Substitute)

theorem visitAll_errors (dropped : List Token) :
    visitAll substitute (dropped.map .error) = pure () := by
  induction dropped with
  | nil => rfl
  | cons token rest inductionHypothesis =>
    rw [List.map_cons, visitAll_cons, inductionHypothesis]
    rfl

mutual

/-- The dropped tokens of a pipe do not matter to the evaluator. -/
theorem MendedPipe.visit {parts : List Tree} {pipe : Pipe} (others : List Tree) :
    (mended : MendedPipe parts pipe) →
      Evaluator.visit substitute (.node .pipe (parts ++ others)) =
        Evaluator.visit substitute pipe.tree
  | .calls _ _ _ => rfl
  | @MendedPipe.call parts left right mended bar _ => by
    have before := mended.visit []
    rw [List.append_nil] at before
    show (do
      Evaluator.visit substitute (.node .pipe parts)
      pipeInto substitute right) = Evaluator.visit substitute (Pipe.call left bar right).tree
    rw [before, visit_pipe]
  | @MendedPipe.command parts stages left right mended bar stage => by
    have before := mended.visit []
    rw [List.append_nil] at before
    show (do
      Evaluator.visit substitute (.node .pipe parts)
      let piped ← popOutput .emptyStack
      beginCall
      visitAll substitute stages
      endCall piped) = Evaluator.visit substitute (Pipe.command left bar right).tree
    rw [before, visit_stage, stage.visitAll]

/-- The dropped tokens of a command do not matter to the evaluator. -/
theorem MendedCommand.visitAll {parts : List Tree} {command : Derivation.Command} :
    (mended : MendedCommand parts command) →
      Evaluator.visitAll substitute parts = Evaluator.visitAll substitute command.parts
  | .nothing dropped => visitAll_errors substitute dropped
  | .call _ => rfl
  | .pipe mended dropped => by
    rw [visitAll_single, mended.visit, Command.parts, visitAll_single]
    rfl
  | .sequence first semicolon second => by
    rw [Command.parts, visitAll_cons, visitAll_cons, visitAll_single, visitAll_cons, visitAll_cons,
      visitAll_single, visit_command, visit_command, visit_command, visit_command, first.visitAll,
      second.visitAll]

end

/-- A pipe runs its first call before anything else. -/
theorem visit_pipe_first {call : Call} {others : List Call} :
    (pipe : Pipe) → pipe.allCalls = call :: others →
      ∃ further, visit substitute pipe.tree = (do visit substitute call.tree; further)
  | .calls left bar right, calls => by
    obtain ⟨rfl, _⟩ := List.cons.inj calls
    exact ⟨_, visit_calls substitute left bar right⟩
  | .call left bar right, calls => by
    obtain ⟨first, more, before⟩ := List.exists_cons_of_ne_nil left.allCalls_nonempty
    rw [Pipe.allCalls, before] at calls
    obtain ⟨rfl, _⟩ := List.cons.inj calls
    obtain ⟨further, same⟩ := visit_pipe_first left before
    exact ⟨_, by rw [visit_pipe, same, bind_assoc]⟩
  | .command left bar right, calls => by
    obtain ⟨first, more, before⟩ := List.exists_cons_of_ne_nil left.allCalls_nonempty
    rw [Pipe.allCalls, before] at calls
    obtain ⟨rfl, _⟩ := List.cons.inj calls
    obtain ⟨further, same⟩ := visit_pipe_first left before
    exact ⟨_, by rw [visit_stage, same, bind_assoc]⟩

/-- A command without calls does nothing. -/
theorem visit_idle : (command : Derivation.Command) → command.allCalls = [] →
    visit substitute command.tree = pure ()
  | .pipe pipe, idle => absurd idle pipe.allCalls_nonempty
  | .sequence left semicolon right, idle => by
    obtain ⟨leftIdle, rightIdle⟩ := List.append_eq_nil_iff.mp idle
    rw [visit_sequence, visit_idle left leftIdle, visit_idle right rightIdle, pure_bind]
  | .call call, idle => absurd idle (List.cons_ne_nil call [])
  | .empty, _ => rfl

/-- A command runs its first call before anything else. -/
theorem visit_first {call : Call} {others : List Call} :
    (command : Derivation.Command) → command.allCalls = call :: others →
      ∃ further, visit substitute command.tree = (do visit substitute call.tree; further)
  | .pipe pipe, calls => by
    obtain ⟨further, same⟩ := visit_pipe_first substitute pipe calls
    refine ⟨further, ?_⟩
    rw [Command.tree, visit_command, Command.parts, visitAll_single]
    exact same
  | .sequence left semicolon right, calls => by
    rw [visit_sequence]
    cases before : left.allCalls with
    | nil =>
      rw [Command.allCalls, before] at calls
      rw [visit_idle substitute left before, pure_bind]
      exact visit_first right calls
    | cons first more =>
      rw [Command.allCalls, before] at calls
      obtain ⟨rfl, _⟩ := List.cons.inj calls
      obtain ⟨further, same⟩ := visit_first left before
      exact ⟨_, by rw [same, bind_assoc]⟩
  | .call other, calls => by
    obtain ⟨rfl, _⟩ := List.cons.inj calls
    refine ⟨pure (), ?_⟩
    rw [Command.tree, visit_command, Command.parts, visitAll_single, bind_pure]
  | .empty, calls => absurd calls.symm (List.cons_ne_nil call others)

end

/-! ### What has been read so far -/

namespace Recogniser

/-- What has been read of the tokens since a command began is a command with dropped tokens. -/
def CommandShown (tokens : List Token) (cursor : Cursor) : Prop :=
  (∃ command, MendedCommand cursor.children command ∧ Begins tokens command) ∧
    tokens = leafTokensAll cursor.children ++ cursor.rest

/-- What has been read of the tokens since a pipe began is a pipe with the given first call. -/
def StagesShown (first : Call) (tokens : List Token) (cursor : Cursor) : Prop :=
  (∃ pipe others, MendedPipe cursor.children pipe ∧ pipe.allCalls = first :: others) ∧
    tokens = leafTokensAll cursor.children ++ cursor.rest

/-- The same with dropped tokens behind the pipe. -/
def PipeShown (first : Call) (tokens : List Token) (cursor : Cursor) : Prop :=
  (∃ parts pipe others dropped, MendedPipe parts pipe ∧ pipe.allCalls = first :: others ∧
    cursor.children = parts ++ List.map Tree.error dropped) ∧
    tokens = leafTokensAll cursor.children ++ cursor.rest

variable {tokens rest : List Token} {cursor : Cursor}

namespace CommandShown

theorem length_le (shown : CommandShown tokens cursor) :
    cursor.rest.length ≤ tokens.length := by
  rw [shown.2, List.length_append]
  omega

theorem look {looked : Cursor} (shown : CommandShown tokens cursor)
    (took : Took [] [] cursor looked) : CommandShown tokens looked := by
  obtain ⟨rest, children⟩ := took.same
  rw [CommandShown, rest, children]
  exact shown

theorem empty (bare : cursor.children = []) (boundary : Boundary cursor.rest) :
    CommandShown cursor.rest cursor := by
  refine ⟨⟨.empty, bare ▸ .nothing [], .ofBoundary boundary⟩, ?_⟩
  rw [bare]
  rfl

theorem call {call : Call} (tight : call.Tight) (ends : call.Ends rest)
    (children : cursor.children = [call.tree]) (behind : cursor.rest = rest) :
    CommandShown (call.tokens ++ rest) cursor := by
  refine ⟨⟨.call call, children ▸ .call tight, .ofCall tight ends rfl⟩, ?_⟩
  rw [children, behind, Tree.leafTokensAll_single, call.leafTokens]

theorem pipe {left : Call} {inner : Cursor} (tight : left.Tight) (ends : left.Ends rest)
    (shown : PipeShown left (left.tokens ++ rest) inner)
    (children : cursor.children = [.node .pipe inner.children])
    (behind : cursor.rest = inner.rest) : CommandShown (left.tokens ++ rest) cursor := by
  obtain ⟨⟨parts, pipe, others, dropped, mended, calls, innerChildren⟩, account⟩ := shown
  refine ⟨⟨.pipe pipe, ?_, .ofCall tight ends calls⟩, ?_⟩
  · rw [children, innerChildren]
    exact .pipe mended dropped
  · rw [children, behind, account, Tree.leafTokensAll_single, Tree.leafTokens_node]

/-- A command and another one behind a semicolon. -/
theorem sequence {inner after : Cursor} (shown : CommandShown tokens cursor)
    (goesOn : GoesOn tokens) {semicolon : Semicolon} (ahead : cursor.rest = semicolon.val :: rest)
    (next : CommandShown rest inner) (behind : after.rest = inner.rest)
    (children : after.children =
      [.node .command cursor.children, .leaf semicolon.val, .node .command inner.children]) :
    CommandShown tokens after := by
  obtain ⟨⟨left, first, begins⟩, account⟩ := shown
  obtain ⟨⟨right, second, _⟩, accountNext⟩ := next
  refine ⟨⟨.sequence left semicolon right, ?_, begins.sequence goesOn semicolon right⟩, ?_⟩
  · rw [children]
    exact .sequence first semicolon second
  · rw [account, ahead, accountNext, children, behind]
    simp

/-- Where no alternative fits, a command drops what it recovers from. -/
theorem recover (sites : List Site) (stumble : Stumble) (bare : cursor.children = [])
    (present : cursor.rest ≠ [])
    (broken : (CallPart.start.run (kindsOf cursor.rest)).1.isWhole = false) :
    CommandShown cursor.rest (cursor.recover sites stumble) := by
  obtain ⟨dropped, took⟩ := cursor.recover_took sites stumble present
  have children : (cursor.recover sites stumble).children = dropped.map .error := by
    rw [took.children, bare, List.nil_append]
  refine ⟨⟨.empty, children ▸ .nothing dropped, .ofBroken broken⟩, ?_⟩
  rw [children, leafTokensAll_errors, ← took.rest]

end CommandShown

namespace StagesShown

variable {first : Call}

theorem look {looked : Cursor} (shown : StagesShown first tokens cursor)
    (took : Took [] [] cursor looked) : StagesShown first tokens looked := by
  obtain ⟨rest, children⟩ := took.same
  rw [StagesShown, rest, children]
  exact shown

theorem calls {right : Call} {bar : Bar} (leftTight : first.Tight) (rightTight : right.Tight)
    (children : cursor.children = [first.tree, .leaf bar.val, right.tree])
    (behind : cursor.rest = rest) :
    StagesShown first (first.tokens ++ bar.val :: (right.tokens ++ rest)) cursor := by
  refine ⟨⟨.calls first bar right, [right], children ▸ .calls leftTight bar rightTight, rfl⟩, ?_⟩
  rw [children, behind]
  simp [Call.leafTokens]

/-- A pipe and a call behind a bar. -/
theorem call {call : Call} {after : Cursor} (shown : StagesShown first tokens cursor) {bar : Bar}
    (ahead : cursor.rest = bar.val :: (call.tokens ++ rest)) (tight : call.Tight)
    (behind : after.rest = rest)
    (children : after.children = [.node .pipe cursor.children, .leaf bar.val, call.tree]) :
    StagesShown first tokens after := by
  obtain ⟨⟨left, others, mended, calls⟩, account⟩ := shown
  refine ⟨⟨.call left bar call, others ++ [call], children ▸ .call mended bar tight, ?_⟩, ?_⟩
  · rw [Pipe.allCalls, calls, List.cons_append]
  · rw [account, ahead, children, behind]
    simp [Call.leafTokens]

/-- A pipe and a command behind a bar. -/
theorem command {inner after : Cursor} (shown : StagesShown first tokens cursor) {bar : Bar}
    (ahead : cursor.rest = bar.val :: rest) (next : CommandShown rest inner)
    (behind : after.rest = inner.rest)
    (children : after.children =
      [.node .pipe cursor.children, .leaf bar.val, .node .command inner.children]) :
    StagesShown first tokens after := by
  obtain ⟨⟨left, others, mended, calls⟩, account⟩ := shown
  obtain ⟨⟨right, stage, _⟩, accountNext⟩ := next
  refine ⟨⟨.command left bar right, others ++ right.allCalls, ?_, ?_⟩, ?_⟩
  · rw [children]
    exact .command mended bar stage
  · rw [Pipe.allCalls, calls, List.cons_append]
  · rw [account, ahead, accountNext, children, behind]
    simp

theorem ended (shown : StagesShown first tokens cursor) : PipeShown first tokens cursor := by
  obtain ⟨⟨pipe, others, mended, calls⟩, account⟩ := shown
  exact ⟨⟨cursor.children, pipe, others, [], mended, calls, (List.append_nil _).symm⟩, account⟩

/-- Where a later stage does not fit, a pipe drops what it recovers from. -/
theorem recover (shown : StagesShown first tokens cursor) (sites : List Site) (stumble : Stumble)
    (present : cursor.rest ≠ []) : PipeShown first tokens (cursor.recover sites stumble) := by
  obtain ⟨⟨pipe, others, mended, calls⟩, account⟩ := shown
  obtain ⟨dropped, took⟩ := cursor.recover_took sites stumble present
  refine ⟨⟨cursor.children, pipe, others, dropped, mended, calls, took.children⟩, ?_⟩
  rw [account, took.rest, took.children, Tree.leafTokensAll_append, leafTokensAll_errors,
    List.append_assoc]

end StagesShown

/-! ### One round of each rule -/

/-- A rule has added its node. -/
def Adds (rule : Rule) (shown : List Token → Cursor → Prop) (before after : Cursor) : Prop :=
  ∃ inner, shown before.rest inner ∧ after.rest = inner.rest ∧
    after.children = before.children ++ [.node rule inner.children]

/-- What a command comes to on any tokens. -/
def CommandMends (fuel : Nat) : Prop :=
  ∀ (precedence : Int) (sites : List Site) (cursor : Cursor), cursor.recovering = false →
    2 * cursor.rest.length + 4 ≤ fuel →
    Adds .command CommandShown cursor ((Recogniser.command fuel precedence sites).run cursor).2

/-- What the loop over semicolons comes to. -/
def OperandsMend (fuel : Nat) : Prop :=
  ∀ (precedence : Int) (sites : List Site) (tokens : List Token) (cursor : Cursor),
    (headKind cursor.rest = .semicolon → GoesOn tokens) → CommandShown tokens cursor →
    2 * cursor.rest.length + 3 ≤ fuel →
    (operands fuel precedence sites).Yields cursor (fun _ after => CommandShown tokens after)
      fun _ => False

/-- What a pipe comes to where two whole calls with a bar between them lie ahead. -/
def PipeMends (fuel : Nat) : Prop :=
  ∀ (sites : List Site) (left : Call) (bar : Bar) (right : Call) (rest : List Token)
    (cursor : Cursor), sites ≠ [] → left.Tight → right.Tight → right.Ends rest →
    cursor.rest = left.tokens ++ bar.val :: (right.tokens ++ rest) →
    cursor.recovering = false → 2 * cursor.rest.length + 3 ≤ fuel →
    Adds .pipe (PipeShown left) cursor ((Recogniser.pipe fuel 0 sites).run cursor).2

/-- What the loop over bars comes to. It breaks off only before a bar. -/
def StagesMend (fuel : Nat) : Prop :=
  ∀ (sites : List Site) (first : Call) (tokens : List Token) (cursor : Cursor), sites ≠ [] →
    StagesShown first tokens cursor → 2 * cursor.rest.length + 3 ≤ fuel →
    (stages fuel 0 sites).Yields cursor (fun _ after => StagesShown first tokens after)
      fun after => StagesShown first tokens after ∧ after.rest ≠ []

/-- The calls of a pipe that lies ahead. -/
theorem exists_calls_of_forecast {inPipe : Bool}
    (chosen : (forecastCommand inPipe (kindsOf tokens)).choice = some .pipe) :
    ∃ (left : Call) (bar : Bar) (right : Call) (rest : List Token), left.Tight ∧ right.Tight ∧
      right.Ends rest ∧ tokens = left.tokens ++ bar.val :: (right.tokens ++ rest) := by
  obtain ⟨whole, others, behind, wholeNext⟩ := forecastCommand_twice chosen
  obtain ⟨left, middle, leftTight, rfl, _, stops⟩ := exists_call_of_run whole
  rw [behind] at stops
  cases middle with
  | nil => exact absurd stops (by simp)
  | cons bar further =>
    obtain ⟨isBar, rfl⟩ := List.cons.inj stops
    obtain ⟨right, rest, rightTight, rfl, ends, _⟩ := exists_call_of_run wholeNext
    exact ⟨left, ⟨bar, isBar.symm⟩, right, rest, leftTight, rightTight, ends, rfl⟩

/-- What has been read becomes one node, and the separator behind it is taken. -/
theorem accept_wrapped (rule : Rule) {token : Token} (ahead : cursor.rest = token :: rest) :
    (cursor.wrap rule).accept.recovering = false ∧ (cursor.wrap rule).accept.rest = rest ∧
      (cursor.wrap rule).accept.children = [.node rule cursor.children, .leaf token] := by
  have wrapped : (cursor.wrap rule).rest = token :: rest := ahead
  have took := Cursor.accept_of_rest wrapped
  exact ⟨pass_recovering _, (List.cons.inj (took.rest.symm.trans wrapped)).2, took.children⟩

/-- One more operand behind a semicolon is a command that may be mended itself. -/
theorem operandsMend_succ {fuel : Nat} (commands : CommandMends fuel) (loop : OperandsMend fuel) :
    OperandsMend (fuel + 1) := by
  intro precedence sites tokens cursor grows shown enough
  refine Yields.follow (fun choice looked chosen took _ => ?_)
    fun looked none _ => absurd none (forecastSemicolon_some precedence sites cursor.rest)
  have shownLooked := shown.look took
  rcases forecastSemicolon_inv chosen with ⟨rfl, _, semicolon, rest, ahead⟩ | ⟨rfl, _⟩
  · have lookedAhead : looked.rest = semicolon.val :: rest := took.same.1.trans ahead
    refine Yields.modify (Yields.modify (Yields.lift ?_))
    obtain ⟨calm, accepted, children⟩ :=
      accept_wrapped .command (show (looked.announceExit .command).rest = _ from lookedAhead)
    rw [ahead, List.length_cons] at enough
    obtain ⟨inner, next, innerRest, innerChildren⟩ :=
      commands Operator.semicolon.operandLevel (.operand :: sites) _ calm (by rw [accepted]; omega)
    rw [accepted] at next
    rw [children] at innerChildren
    have shorter := next.length_le
    have goesOn := grows (by rw [ahead]; exact semicolon.property)
    exact loop precedence sites tokens _ (fun _ => goesOn)
      (shownLooked.sequence goesOn lookedAhead next innerRest innerChildren)
      (by rw [innerRest]; omega)
  · exact Yields.pure shownLooked

/-- A command begins with nothing, a call or a pipe, whichever is ahead, and goes on with the loop
for semicolons. What cannot begin a command is dropped. -/
theorem commandMends_succ {fuel : Nat} (pipes : PipeMends fuel) (loop : OperandsMend fuel) :
    CommandMends (fuel + 1) := by
  intro precedence sites cursor calm enough
  -- The first part of a command is followed by the loop over semicolons, which never breaks off.
  have further (after : Cursor) (grows : headKind after.rest = .semicolon → GoesOn cursor.rest)
      (shown : CommandShown cursor.rest after) : (operands fuel precedence sites).Yields after
        (fun _ inner => CommandShown cursor.rest inner)
        fun inner => ∀ stumble, CommandShown cursor.rest (inner.recover sites stumble) := by
    have shorter := shown.length_le
    exact (loop precedence sites cursor.rest after grows shown (by omega)).weaken
      (fun _ _ holds => holds) fun _ impossible => impossible.elim
  refine Yields.within .command sites (Yields.follow (fun choice looked chosen took same => ?_)
    fun looked none took => ?_)
  · have rest : looked.rest = cursor.rest := took.same.1
    have bare : looked.children = [] := took.same.2
    have lookedCalm : looked.recovering = false := same.trans calm
    cases choice with
    | empty =>
      have shown := CommandShown.empty bare (rest ▸ forecastCommand_empty chosen)
      exact further looked (fun isSemicolon => Or.inr (rest ▸ isSemicolon)) (rest ▸ shown)
    | call =>
      have whole := forecastCommand_whole chosen
      obtain ⟨call, behind, tight, ahead, ends, _⟩ := exists_call_of_run whole
      have ahead : cursor.rest = call.tokens ++ behind := ahead
      rw [ahead, List.length_append] at enough
      refine Yields.runs (Runs.endedCall tight [] (by omega) ends
        fun first => absurd first (by simp [beforeFirstBar])) lookedCalm (rest.trans ahead) bare
        fun last _ lastRest children => further last (fun _ => Or.inl whole) ?_
      rw [ahead]
      exact .call tight ends children lastRest
    | pipe =>
      obtain ⟨left, bar, right, behind, leftTight, rightTight, ends, ahead⟩ :=
        exists_calls_of_forecast chosen
      have ahead : looked.rest = left.tokens ++ bar.val :: (right.tokens ++ behind) :=
        rest.trans ahead
      obtain ⟨inner, shown, innerRest, children⟩ :=
        pipes (.pipeOfCommand :: sites) left bar right behind looked (by simp) leftTight rightTight
          ends ahead lookedCalm (by rw [rest]; omega)
      have barAhead : Boundary (bar.val :: (right.tokens ++ behind)) := bar_isSeparator bar
      refine Yields.lift (further _ (fun _ => Or.inl (forecastCommand_twice chosen).1) ?_)
      rw [ahead] at shown
      rw [bare] at children
      rw [← rest, ahead]
      exact .pipe leftTight (barAhead.ends left) shown children innerRest
  · intro stumble
    obtain ⟨present, broken⟩ := forecastCommand_none none
    have rest : looked.rest = cursor.rest := took.same.1
    rw [← rest]
    exact CommandShown.recover sites stumble took.same.2
      (fun empty => present (congrArg kindsOf (rest.symm.trans empty))) (rest ▸ broken)

/-- A pipe is begun only where two calls are ahead, so these are never mended. -/
theorem pipeMends_succ {fuel : Nat} (loop : StagesMend fuel) : PipeMends (fuel + 1) := by
  intro sites left bar right rest cursor nested leftTight rightTight ends ahead calm enough
  rw [ahead, List.length_append, List.length_cons, List.length_append] at enough
  have barNext : headKind (bar.val :: (right.tokens ++ rest)) ≠ .semicolon := by
    rw [headKind, bar.property]
    decide
  have barBoundary : Boundary (bar.val :: (right.tokens ++ rest)) := bar_isSeparator bar
  refine Yields.within .pipe sites
    (Yields.runs (Runs.call leftTight [] (by omega) barBoundary fun _ => barNext) calm ahead rfl
      fun first firstCalm firstRest firstBuilt =>
    Yields.runs (Runs.requireOne bar.val _ _ (by rw [bar.property]; rfl)) firstCalm firstRest
      firstBuilt fun second secondCalm secondRest secondBuilt =>
    Yields.runs (Runs.endedCall rightTight _ (by omega) ends
      fun first => absurd first (by simp [beforeFirstBar])) secondCalm secondRest secondBuilt
      fun third _ thirdRest thirdBuilt => ?_)
  have shown := StagesShown.calls leftTight rightTight thirdBuilt thirdRest
  rw [← ahead] at shown
  exact (loop sites left cursor.rest third nested shown (by rw [thirdRest]; omega)).weaken
    (fun _ _ stages => stages.ended)
    fun _ broken stumble => broken.1.recover sites stumble broken.2

/-- One more stage is a call, or a command that may be mended itself. Where neither fits, the rest
of the pipe is dropped. -/
theorem stagesMend_succ {fuel : Nat} (commands : CommandMends fuel) (loop : StagesMend fuel) :
    StagesMend (fuel + 1) := by
  intro sites first tokens cursor nested shown enough
  refine Yields.follow (fun choice looked chosen took _ => ?_)
    fun looked none _ => absurd none (forecastBar_some 0 sites cursor.rest)
  have shownLooked := shown.look took
  cases choice with
  | done => exact Yields.pure shownLooked
  | again =>
    obtain ⟨bar, rest, ahead⟩ := forecastBar_inv chosen
    have lookedAhead : looked.rest = bar.val :: rest := took.same.1.trans ahead
    rw [ahead, List.length_cons] at enough
    refine Yields.modify (Yields.follow (fun choice staging chosenStage took _ => ?_)
      fun staging none took => ?_)
    · have shownStaging : StagesShown first tokens staging :=
        shownLooked.look ⟨took.rest, took.children⟩
      have stagingAhead : staging.rest = bar.val :: rest := took.same.1.trans lookedAhead
      have chosenBehind : (forecastStage 0 sites (kindsOf (bar.val :: rest))).choice =
          some choice := by
        rw [← lookedAhead]
        exact chosenStage
      refine Yields.modify ?_
      obtain ⟨calm, accepted, children⟩ := accept_wrapped .pipe stagingAhead
      cases choice with
      | call =>
        obtain ⟨call, behind, tight, rfl, ends, _⟩ :=
          exists_call_of_run (forecastStage_whole nested chosenBehind)
        rw [List.length_append] at enough
        exact Yields.runs (Runs.endedCall tight _ (by omega) ends
          fun first => absurd first (by simp [beforeFirstBar])) calm accepted children
          fun last _ lastRest built => loop sites first tokens last nested
            (shownStaging.call stagingAhead tight lastRest built) (by rw [lastRest]; omega)
      | command =>
        obtain ⟨inner, next, innerRest, built⟩ :=
          commands 0 (.nextCommand :: sites) _ calm (by rw [accepted]; omega)
        rw [accepted] at next
        rw [children] at built
        have shorter := next.length_le
        exact Yields.lift (loop sites first tokens _ nested
          (shownStaging.command stagingAhead next innerRest built) (by rw [innerRest]; omega))
    · refine ⟨shownLooked.look ⟨took.rest, took.children⟩, ?_⟩
      rw [took.same.1]
      show looked.rest ≠ []
      rw [lookedAhead]
      exact List.cons_ne_nil _ _

/-- All rounds together, by induction on the fuel. -/
theorem rounds_mend (fuel : Nat) :
    CommandMends fuel ∧ OperandsMend fuel ∧ PipeMends fuel ∧ StagesMend fuel := by
  induction fuel with
  | zero =>
    refine ⟨?_, ?_, ?_, ?_⟩
    · exact fun _ _ cursor _ enough => by omega
    · exact fun _ _ _ cursor _ _ enough => by omega
    · exact fun _ _ _ _ _ cursor _ _ _ _ _ _ enough => by omega
    · exact fun _ _ _ cursor _ _ enough => by omega
  | succ fuel inductionHypothesis =>
    obtain ⟨commands, operands, pipes, stages⟩ := inductionHypothesis
    exact ⟨commandMends_succ pipes operands, operandsMend_succ commands operands,
      pipeMends_succ stages, stagesMend_succ commands stages⟩

end Recogniser

/-! ### Lines that do not fit -/

/-- The tree of every line shows a command with dropped tokens. -/
theorem readLine_mended (line : Text) :
    ∃ (parts : List Tree) (command : Derivation.Command),
      (readLine line .command 0).tree = .node .command parts ∧ MendedCommand parts command ∧
      Begins (Token.ofLine line) command ∧
      Token.ofLine line = leafTokensAll parts ++ (readLine line .command 0).unread := by
  obtain ⟨inner, ⟨⟨command, mended, begins⟩, account⟩, rest, children⟩ :=
    (Recogniser.rounds_mend (4 * (Token.ofLine line).length + 8)).1 0 []
      (Cursor.start (Token.ofLine line) (Mark.start.after line)) rfl
      (show 2 * (Token.ofLine line).length + 4 ≤ _ by omega)
  refine ⟨inner.children, command, ?_, mended, begins, ?_⟩
  · exact congrArg (fun trees : List Tree => trees.headD (.node .command [])) children
  · rw [readLine_unread]
    exact account.trans (congrArg _ rest.symm)

/-- A line is run as the command that its tree shows. -/
theorem MendedCommand.outputOfLine {line : Text} {parts : List Tree}
    {command : Derivation.Command} (mended : MendedCommand parts command)
    (tree : (readLine line .command 0).tree = .node .command parts)
    (substitute : Evaluator.Substitute) :
    MiniShell.outputOfLine substitute line = outputOfTree substitute command.tree := by
  have same : Evaluator.visit substitute (readLine line .command 0).tree =
      Evaluator.visit substitute command.tree := by
    rw [tree, Command.tree, Evaluator.visit_command, Evaluator.visit_command, mended.visitAll]
  unfold MiniShell.outputOfLine evaluateLine outputOfTree
  rw [same]

/-- A command without calls has no output and changes nothing. -/
theorem outputOfTree_idle {command : Derivation.Command} (idle : command.allCalls = [])
    (substitute : Evaluator.Substitute) (session : Session) :
    (outputOfTree substitute command.tree).start session = (.ok [], session) := by
  rw [start_outputOfTree, visit_idle substitute command idle]
  rfl

/-- Every line is run, whatever was reported about it, as the command that its tree shows when the
error leaves are taken out of it. Tokens are dropped only at the beginnings of commands and at the
ends of pipes, and the others keep their order. A call that the line begins with is run before
anything else, however the line goes on. The line has no effect if no call is left, which is so if
it begins neither with a call nor with a semicolon. -/
theorem outputOfLine_mends (line : Text) :
    ∃ (parts : List Tree) (command : Derivation.Command),
      (readLine line .command 0).tree = .node .command parts ∧ MendedCommand parts command ∧
      Token.ofLine line = leafTokensAll parts ++ (readLine line .command 0).unread ∧
      command.tokens.Sublist (Token.ofLine line) ∧
      (∀ substitute, outputOfLine substitute line = outputOfTree substitute command.tree) ∧
      (∀ (call : Call) (rest : List Token), Token.ofLine line = call.tokens ++ rest →
        call.Tight → call.Ends rest → ∀ substitute, ∃ further,
          Evaluator.visit substitute command.tree = (do
            Evaluator.visit substitute call.tree
            further)) ∧
      (command.allCalls = [] → ∀ substitute session,
        (outputOfLine substitute line).start session = (.ok [], session)) ∧
      ((∀ (call : Call) (rest : List Token), Token.ofLine line = call.tokens ++ rest →
          ¬ call.Ends rest) →
        Recogniser.headKind (Token.ofLine line) ≠ .semicolon → command.allCalls = []) := by
  obtain ⟨parts, command, tree, mended, begins, account⟩ := readLine_mended line
  have runs := mended.outputOfLine tree
  refine ⟨parts, command, tree, mended, account, ?_, runs, ?_, ?_, ?_⟩
  · rw [account]
    exact mended.sublist.trans (List.sublist_append_left _ _)
  · intro call rest begun tight ends substitute
    obtain ⟨first, others, calls, same⟩ := begins.calls call rest begun tight ends
    rw [← same]
    exact visit_first substitute command calls
  · intro idle substitute session
    rw [runs]
    exact outputOfTree_idle idle substitute session
  · intro noCall noSemicolon
    have stuck : ¬ GoesOn (Token.ofLine line) := by
      rintro (whole | isSemicolon)
      · obtain ⟨call, rest, _, begun, ends, _⟩ := exists_call_of_run whole
        exact noCall call rest begun ends
      · exact noSemicolon isSemicolon
    rw [begins.nothing stuck]
    rfl

/-- The tokens that are left of a line may be read in another way when they stand alone. The first
line is one pipe, whose last stage has the semicolon in it. Without the bar and the operator, which
are dropped from it, the semicolon stands between a pipe and a command that is empty. -/
example :
    ((readLine "a|b|c;|<".toList .command 0).tree.nodes .pipe).length = 1 ∧
    ((readLine "a|b|c;".toList .command 0).tree.nodes .command).length = 2 := by
  decide +kernel

/-- A session with a file `f`. -/
def oneFile : Session where
  files := .directory [("f".toList, .file [])]
  home := "/".toList
  inputs := []

/-- A line is reported, and still it removes a file. -/
theorem runLine_reported_removes :
    (readLine "remove f ; <".toList .command 0).reports ≠ [] ∧
    (oneFile.files.get? ["f".toList]).isSome = true ∧
    (((runLine "remove f ; <".toList).start oneFile).2.files.get? ["f".toList]).isSome = false := by
  refine ⟨fun silent => ?_, by decide +kernel, by decide +kernel⟩
  have unreported := (quiet_iff _).mp (quiet_of_silent silent)
  exact absurd (congrArg List.length unreported) (by decide +kernel)

end MiniShell
