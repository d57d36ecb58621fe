/-
This file compares two ways to run commands with a semicolon between them:
together, on one stack of outputs, and apart, each from scratch. They are the
same if every pipe of the second command takes only output that its own left
side left. A pipe whose left side sends its output to a file finds none there
and takes the output of an earlier command instead, or fails where there is
none.

Whether a pipe finds the output of its left side depends on the last call on
that side, and it can be read off the tree before anything is run.
-/

import MiniShell.Proofs.Acceptance
import MiniShell.Proofs.Frame

namespace MiniShell

open MiniShell.Derivation

variable {evaluation last : Evaluation} {right : Derivation.Command}

/-! ### Pipes that match -/

namespace Tree

/-- Whether a call, or the last call of a pipe, sends its output to a file. -/
def endsRedirected : Tree → Bool
  | .node .pipe (_ :: _ :: right :: _) => right.redirectsOutput
  | other => other.redirectsOutput

mutual

/-- Whether no pipe in a tree has its output on the left sent to a file. -/
def pipesMatch : Tree → Bool
  | .node rule children =>
    (rule ≠ .pipe || !(children.headD (.node .call [])).endsRedirected) && pipesMatchAll children
  | _ => true

/-- Whether no pipe in some trees has its output on the left sent to a file. -/
def pipesMatchAll : List Tree → Bool
  | [] => true
  | tree :: rest => tree.pipesMatch && pipesMatchAll rest

end

theorem pipesMatchAll_iff (trees : List Tree) :
    pipesMatchAll trees = true ↔ ∀ tree ∈ trees, tree.pipesMatch = true := by
  induction trees with
  | nil => simp [pipesMatchAll]
  | cons tree rest inductionHypothesis => simp [pipesMatchAll, inductionHypothesis]

theorem pipesMatch_leaf (token : Token) : (Tree.leaf token).pipesMatch = true := by
  simp [pipesMatch]

end Tree

theorem argument_pipesMatch (argument : Argument) : argument.tree.pipesMatch = true := by
  simp only [Argument.tree, Tree.pipesMatch, Tree.pipesMatchAll_iff, Bool.and_eq_true,
    List.forall_mem_map]
  refine ⟨by simp, fun piece _ => ?_⟩
  rw [pieceTree]
  split <;> simp [Tree.pipesMatch, Tree.pipesMatchAll]

theorem redirection_pipesMatch (redirection : Redirection) :
    redirection.tree.pipesMatch = true := by
  cases blank : redirection.blank <;>
    simp [Redirection.tree, Redirection.parts, Tree.pipesMatch, Tree.pipesMatchAll, blank,
      argument_pipesMatch]

theorem atom_pipesMatch (atom : Atom) : atom.tree.pipesMatch = true := by
  cases atom <;> simp [Atom.tree, Atom.inner, Tree.pipesMatch, Tree.pipesMatchAll,
    argument_pipesMatch, redirection_pipesMatch]

/-- There are no pipes in a call. -/
theorem call_pipesMatch (call : Call) : call.tree.pipesMatch = true := by
  simp only [Call.tree, Tree.pipesMatch, Tree.pipesMatchAll_iff, Bool.and_eq_true]
  exact ⟨by simp, Call.forall_parts Tree.pipesMatch_leaf redirection_pipesMatch
    argument_pipesMatch atom_pipesMatch call⟩

theorem endsRedirected_call (call : Call) :
    call.tree.endsRedirected = call.tree.redirectsOutput := rfl

theorem calls_pipesMatch (left : Call) (bar : Bar) (right : Call) :
    (Pipe.calls left bar right).tree.pipesMatch = !left.tree.redirectsOutput := by
  simp [Pipe.tree, Pipe.parts, Tree.pipesMatch, Tree.pipesMatchAll, call_pipesMatch,
    endsRedirected_call]

theorem pipe_pipesMatch (left : Pipe) (bar : Bar) (right : Call) :
    (Pipe.call left bar right).tree.pipesMatch =
      (!left.tree.endsRedirected && left.tree.pipesMatch) := by
  simp [Pipe.tree, Pipe.parts, Tree.pipesMatch, Tree.pipesMatchAll, call_pipesMatch]

theorem stage_pipesMatch (left : Pipe) (bar : Bar) (right : Derivation.Command) :
    (Pipe.command left bar right).tree.pipesMatch =
      (!left.tree.endsRedirected && (left.tree.pipesMatch && right.tree.pipesMatch)) := by
  simp [Pipe.tree, Pipe.parts, Command.tree, Tree.pipesMatch, Tree.pipesMatchAll]

theorem sequence_pipesMatch (left : Derivation.Command) (semicolon : Semicolon)
    (right : Derivation.Command) :
    (Command.sequence left semicolon right).tree.pipesMatch =
      (left.tree.pipesMatch && right.tree.pipesMatch) := by
  simp [Command.tree, Command.parts, Tree.pipesMatch, Tree.pipesMatchAll]

theorem command_pipesMatch (pipe : Pipe) :
    (Command.pipe pipe).tree.pipesMatch = pipe.tree.pipesMatch := by
  simp [Command.tree, Command.parts, Pipe.tree, Tree.pipesMatch, Tree.pipesMatchAll]

/-! ### Evaluations that succeed -/

namespace Evaluator

variable (substitute : Substitute)

/-- Output can be taken away only where there is some. -/
theorem popOutput_inv {missing : Fault} {lines : List Text}
    (ran : (popOutput missing).start evaluation = (.ok lines, last)) :
    ∃ outputs, evaluation.outputs = outputs ++ [lines] ∧ last = { evaluation with outputs } := by
  rcases List.eq_nil_or_concat evaluation.outputs with empty | ⟨outputs, other, split⟩
  · rw [popOutput, start_bind_ok (start_get _), empty] at ran
    exact absurd (congrArg Prod.fst ran) (by simp)
  · rw [List.concat_eq_append] at split
    rw [start_popOutput missing split] at ran
    cases ran
    exact ⟨outputs, split, rfl⟩

theorem pipeInto_inv {call : Call} (idle : Idle evaluation)
    (ran : (pipeInto substitute call).start evaluation = (.ok (), last)) :
    ∃ outputs lines, evaluation.outputs = outputs ++ [lines] ∧
      Leaves call.tree.redirectsOutput outputs evaluation last := by
  obtain ⟨lines, _, popped, _⟩ := start_bind_inv ran
  obtain ⟨outputs, split, _⟩ := popOutput_inv popped
  exact ⟨outputs, lines, split, (pipeInto_keeps substitute call idle split).ends _ _ ran⟩

/-- A call without words fails. -/
theorem endCall_fails (piped : List Text) (noWords : evaluation.words.getLastD [] = []) :
    (endCall piped).start evaluation ≠ (.ok (), last) := by
  intro ran
  rw [endCall, start_bind_ok (start_get _), start_bind_ok (start_set _ _), noWords, runCall,
    start_bind_ok (start_get _)] at ran
  split at ran
  · exact absurd (congrArg Prod.fst ran) (by simp)
  · obtain ⟨_, between, _, further⟩ := start_bind_inv ran
    obtain ⟨_, _, words, _⟩ := start_bind_inv further
    rw [runWords, start_bind_ok (start_get _)] at words
    split at words <;> exact absurd (congrArg Prod.fst words) (by simp)

theorem endCall_keeps_noWords (piped : List Text) (nonempty : evaluation.outputs ≠ [])
    (noWords : evaluation.words.getLastD [] = []) :
    (endCall piped).Keeps evaluation fun _ _ => False :=
  ⟨(endCall_keeps piped (List.dropLast_concat_getLast nonempty).symm).framed,
    fun _ _ ran => endCall_fails piped noWords ran⟩

/-- Only the session and the outputs differ. -/
def Tidy (evaluation last : Evaluation) : Prop :=
  ∃ session outputs, last = { evaluation with session, outputs }

theorem Tidy.idle (tidy : Tidy evaluation last) (idle : Idle evaluation) : Idle last := by
  obtain ⟨_, _, rfl⟩ := tidy
  exact idle

theorem Tidy.trans {between : Evaluation} (first : Tidy evaluation between)
    (second : Tidy between last) : Tidy evaluation last := by
  obtain ⟨_, _, rfl⟩ := first
  obtain ⟨session, outputs, rfl⟩ := second
  exact ⟨session, outputs, rfl⟩

theorem Leaves.tidy {sends : Bool} {outputs : List (List Text)}
    (leaves : Leaves sends outputs evaluation last) : Tidy evaluation last := by
  obtain ⟨session, _, rfl⟩ := leaves
  exact ⟨session, _, rfl⟩

/-- A command cannot stand behind a bar: the call that is made of it has no words. -/
theorem stage_fails {left : Pipe} {right : Derivation.Command}
    (leftTidy : ∀ {evaluation last}, Idle evaluation →
      (visit substitute left.tree).start evaluation = (.ok (), last) → Tidy evaluation last)
    (rightTidy : ∀ {evaluation last}, Idle evaluation →
      (visit substitute right.tree).start evaluation = (.ok (), last) → Tidy evaluation last)
    (bar : Bar) {evaluation : Evaluation} (idle : Idle evaluation) (last : Evaluation) :
    (visit substitute (Pipe.command left bar right).tree).start evaluation ≠ (.ok (), last) := by
  intro ran
  rw [visit_stage] at ran
  obtain ⟨_, between, first, further⟩ := start_bind_inv ran
  obtain ⟨_, _, rfl⟩ := leftTidy idle first
  obtain ⟨piped, _, popped, further⟩ := start_bind_inv further
  obtain ⟨outputs, _, rfl⟩ := popOutput_inv popped
  rw [beginCall, start_bind_ok (start_modify _ _)] at further
  obtain ⟨_, _, inside, ended⟩ := start_bind_inv further
  rw [← visit_command] at inside
  obtain ⟨_, _, rfl⟩ := rightTidy (by exact idle) inside
  exact endCall_fails piped (by simp) ended

mutual

theorem pipe_tidy (pipe : Pipe) {evaluation last : Evaluation} (idle : Idle evaluation)
    (ran : (visit substitute pipe.tree).start evaluation = (.ok (), last)) :
    Tidy evaluation last := by
  cases pipe with
  | calls left bar right =>
    rw [visit_calls] at ran
    obtain ⟨_, between, first, second⟩ := start_bind_inv ran
    have tidy := ((call_keeps substitute left idle).ends _ _ first).tidy
    obtain ⟨_, _, _, leaves⟩ := pipeInto_inv substitute (tidy.idle idle) second
    exact tidy.trans leaves.tidy
  | call left bar right =>
    rw [visit_pipe] at ran
    obtain ⟨_, between, first, second⟩ := start_bind_inv ran
    have tidy := pipe_tidy left idle first
    obtain ⟨_, _, _, leaves⟩ := pipeInto_inv substitute (tidy.idle idle) second
    exact tidy.trans leaves.tidy
  | command left bar right =>
    exact absurd ran (stage_fails substitute (pipe_tidy left) (command_tidy right) bar idle last)

/-- A command that succeeds changes nothing but the session and the outputs. -/
theorem command_tidy (command : Derivation.Command) {evaluation last : Evaluation}
    (idle : Idle evaluation)
    (ran : (visit substitute command.tree).start evaluation = (.ok (), last)) :
    Tidy evaluation last := by
  cases command with
  | pipe pipe =>
    rw [Command.tree, visit_command, Command.parts, visitAll_single] at ran
    exact pipe_tidy pipe idle ran
  | sequence left semicolon right =>
    rw [visit_sequence] at ran
    obtain ⟨_, between, first, second⟩ := start_bind_inv ran
    have tidy := command_tidy left idle first
    exact tidy.trans (command_tidy right (tidy.idle idle) second)
  | call call =>
    rw [Command.tree, visit_command, Command.parts, visitAll_single] at ran
    exact ((call_keeps substitute call idle).ends _ _ ran).tidy
  | empty =>
    rw [Command.tree, visit_command, Command.parts, visitAll_nil] at ran
    cases ran
    exact ⟨_, _, rfl⟩

end

/-! ### Commands whose pipes match -/

/-- Outputs are only added. -/
def Grows (evaluation last : Evaluation) : Prop :=
  ∃ session more, last = { evaluation with session, outputs := evaluation.outputs ++ more }

theorem Leaves.grows {sends : Bool} (leaves : Leaves sends evaluation.outputs evaluation last) :
    Grows evaluation last := by
  obtain ⟨session, lines, rfl⟩ := leaves
  exact ⟨session, _, rfl⟩

/-- A call behind a bar keeps what is below the output that was left for it. -/
theorem pipeInto_after (call : Call) {between : Evaluation} (idle : Idle evaluation)
    (leaves : Leaves false evaluation.outputs evaluation between) :
    (pipeInto substitute call).Keeps between fun _ =>
      Leaves call.tree.redirectsOutput evaluation.outputs evaluation := by
  obtain ⟨session, lines, rfl⟩ := leaves
  exact pipeInto_keeps substitute call (by exact idle) rfl

mutual

/-- A pipe that matches keeps what is below, and leaves one output or none. -/
theorem pipe_keeps (pipe : Pipe) (fits : pipe.tree.pipesMatch = true) {evaluation : Evaluation}
    (idle : Idle evaluation) :
    (visit substitute pipe.tree).Keeps evaluation fun _ =>
      Leaves pipe.tree.endsRedirected evaluation.outputs evaluation := by
  cases pipe with
  | calls left bar right =>
    rw [calls_pipesMatch, Bool.not_eq_true'] at fits
    rw [visit_calls]
    refine (call_keeps substitute left idle).bind fun _ between leaves => ?_
    rw [fits] at leaves
    exact pipeInto_after substitute right idle leaves
  | call left bar right =>
    rw [pipe_pipesMatch, Bool.and_eq_true, Bool.not_eq_true'] at fits
    rw [visit_pipe]
    refine (pipe_keeps left fits.2 idle).bind fun _ between leaves => ?_
    rw [fits.1] at leaves
    exact pipeInto_after substitute right idle leaves
  | command left bar right =>
    rw [stage_pipesMatch, Bool.and_eq_true, Bool.and_eq_true, Bool.not_eq_true'] at fits
    suffices keeps : (visit substitute (Pipe.command left bar right).tree).Keeps evaluation
        fun _ _ => False from keeps.weaken fun _ _ impossible => impossible.elim
    rw [visit_stage]
    refine (pipe_keeps left fits.2.1 idle).bind ?_
    rintro _ _ ⟨session, lines, rfl⟩
    rw [fits.1]
    refine (popOutput_keeps .emptyStack rfl).bind ?_
    rintro _ _ ⟨rfl, rfl⟩
    refine (Keeps.modify fun earlier => by simp [Evaluation.above]).bind ?_
    rintro _ _ rfl
    rw [← visit_command]
    refine (command_keeps right fits.2.2 (by exact idle)).bind ?_
    rintro _ _ ⟨session, more, rfl⟩
    exact endCall_keeps_noWords _ (by simp) (by simp)

/-- A command whose pipes match keeps what is below, and only adds outputs. -/
theorem command_keeps (command : Derivation.Command) (fits : command.tree.pipesMatch = true)
    {evaluation : Evaluation} (idle : Idle evaluation) :
    (visit substitute command.tree).Keeps evaluation fun _ => Grows evaluation := by
  cases command with
  | pipe pipe =>
    rw [command_pipesMatch] at fits
    rw [Command.tree, visit_command, Command.parts, visitAll_single]
    exact (pipe_keeps pipe fits idle).weaken fun _ _ => Leaves.grows
  | sequence left semicolon right =>
    rw [sequence_pipesMatch, Bool.and_eq_true] at fits
    rw [visit_sequence]
    refine (command_keeps left fits.1 idle).bind ?_
    rintro _ _ ⟨session, more, rfl⟩
    refine (command_keeps right fits.2 (by exact idle)).weaken ?_
    rintro _ _ ⟨last, others, rfl⟩
    exact ⟨last, more ++ others, by simp⟩
  | call call =>
    rw [Command.tree, visit_command, Command.parts, visitAll_single]
    exact (call_keeps substitute call idle).weaken fun _ _ => Leaves.grows
  | empty =>
    rw [Command.tree, visit_command, Command.parts, visitAll_nil]
    refine (Keeps.pure _ _).weaken fun _ _ same => ⟨evaluation.session, [], ?_⟩
    rw [same.2, List.append_nil]

end

/-! ### Commands that succeed from scratch -/

/-- A pipe that succeeds without any output below matches. -/
theorem pipe_fits (pipe : Pipe) {evaluation last : Evaluation} (idle : Idle evaluation)
    (scratch : evaluation.outputs = [])
    (ran : (visit substitute pipe.tree).start evaluation = (.ok (), last)) :
    pipe.tree.pipesMatch = true ∧
      Leaves pipe.tree.endsRedirected evaluation.outputs evaluation last := by
  -- Output that was sent to a file leaves nothing for the call behind the bar.
  have follows : ∀ {sends : Bool} {call : Call} {between : Evaluation},
      Leaves sends evaluation.outputs evaluation between →
      (pipeInto substitute call).start between = (.ok (), last) →
      sends = false ∧ Leaves call.tree.redirectsOutput evaluation.outputs evaluation last := by
    intro sends call between leaves second
    cases sends with
    | true =>
      obtain ⟨session, lines, rfl⟩ := leaves
      obtain ⟨outputs, lines, split, _⟩ := pipeInto_inv substitute (by exact idle) second
      simp [scratch] at split
    | false =>
      exact ⟨rfl, (pipeInto_after substitute call idle leaves).ends _ _ second⟩
  cases pipe with
  | calls left bar right =>
    rw [visit_calls] at ran
    obtain ⟨_, between, first, second⟩ := start_bind_inv ran
    obtain ⟨fits, leaves⟩ := follows ((call_keeps substitute left idle).ends _ _ first) second
    rw [calls_pipesMatch, fits]
    exact ⟨rfl, leaves⟩
  | call left bar right =>
    rw [visit_pipe] at ran
    obtain ⟨_, between, first, second⟩ := start_bind_inv ran
    obtain ⟨leftFits, leavesLeft⟩ := pipe_fits left idle scratch first
    obtain ⟨fits, leaves⟩ := follows leavesLeft second
    rw [pipe_pipesMatch, fits, leftFits]
    exact ⟨rfl, leaves⟩
  | command left bar right =>
    exact absurd ran (stage_fails substitute (pipe_tidy substitute left)
      (command_tidy substitute right) bar idle last)

/-- A command without a semicolon that succeeds from scratch has pipes that match. -/
theorem command_fits {command : Derivation.Command} (single : command.isSequence = false)
    {session : Session} {last : Evaluation}
    (ran : (visit substitute command.tree).start { session } = (.ok (), last)) :
    command.tree.pipesMatch = true := by
  cases command with
  | pipe pipe =>
    rw [Command.tree, visit_command, Command.parts, visitAll_single] at ran
    rw [command_pipesMatch]
    exact (pipe_fits substitute pipe ⟨rfl, rfl⟩ rfl ran).1
  | sequence left semicolon right => exact absurd single (by simp [Command.isSequence])
  | call call =>
    simp [Command.tree, Command.parts, Tree.pipesMatch, Tree.pipesMatchAll, call_pipesMatch]
  | empty => simp [Command.tree, Command.parts, Tree.pipesMatch, Tree.pipesMatchAll]

end Evaluator

/-! ### Together and apart -/

/-- Evaluates a tree from scratch and gives its output. -/
def outputOfTree (substitute : Evaluator.Substitute) (tree : Tree) : Action (List Text) :=
  fun session =>
    let (result, evaluation) := Evaluator.start (Evaluator.visit substitute tree) { session }
    (result.map fun _ => evaluation.outputs.flatten, evaluation.session)

/-- Evaluates two trees one after the other, each from scratch, and gives the output of both. -/
def outputApart (substitute : Evaluator.Substitute) (first second : Tree) :
    Action (List Text) := do
  let output ← outputOfTree substitute first
  let more ← outputOfTree substitute second
  return output ++ more

theorem start_outputOfTree (substitute : Evaluator.Substitute) (tree : Tree) (session : Session) :
    (outputOfTree substitute tree).start session =
      (((Evaluator.visit substitute tree).start { session }).1.map fun _ =>
          ((Evaluator.visit substitute tree).start { session }).2.outputs.flatten,
        ((Evaluator.visit substitute tree).start { session }).2.session) := rfl

theorem start_outputApart (substitute : Evaluator.Substitute) (first second : Tree)
    (session : Session) :
    (outputApart substitute first second).start session =
      match (outputOfTree substitute first).start session with
      | (.ok output, between) =>
        (((outputOfTree substitute second).start between).1.map (output ++ ·),
          ((outputOfTree substitute second).start between).2)
      | (.error fault, between) => (.error fault, between) := by
  rw [outputApart, Action.start_bind]
  rcases (outputOfTree substitute first).start session with ⟨fault | output, between⟩
  · rfl
  · simp only [bind_pure_comp, Action.start_map]

/-- The tree of a sequence shows its two commands. -/
theorem sequence_of_tree {command : Derivation.Command} {first second : Tree} {semicolon : Token}
    (shape : command.tree = .node .command [first, .leaf semicolon, second]) :
    ∃ left mark right, command = .sequence left mark right ∧ left.tree = first ∧
      right.tree = second := by
  cases command with
  | pipe pipe => simp [Command.tree, Command.parts] at shape
  | sequence left mark right =>
    simp [Command.tree, Command.parts] at shape
    exact ⟨left, mark, right, rfl, shape.1, shape.2.2⟩
  | call call => simp [Command.tree, Command.parts] at shape
  | empty => simp [Command.tree, Command.parts] at shape

/-- If the pipes of the second command match, commands do the same together as apart. -/
theorem outputOfTree_sequence (substitute : Evaluator.Substitute) (left : Derivation.Command)
    (semicolon : Semicolon) (fits : right.tree.pipesMatch = true) (session : Session) :
    (outputOfTree substitute (Command.sequence left semicolon right).tree).start session =
      (outputApart substitute left.tree right.tree).start session := by
  rw [start_outputApart, start_outputOfTree, start_outputOfTree, Evaluator.visit_sequence,
    Evaluator.start_bind]
  rcases ran : (Evaluator.visit substitute left.tree).start { session } with
    ⟨fault | _, between⟩
  · rfl
  · obtain ⟨after, outputs, rfl⟩ := Evaluator.command_tidy substitute left ⟨rfl, rfl⟩ ran
    have framed := (Evaluator.command_keeps substitute right fits
      (show Evaluator.Idle { session := after } from ⟨rfl, rfl⟩)).framed outputs
    have isAbove : ({ session := after, outputs } : Evaluation) =
        Evaluation.above { session := after } outputs := by
      simp [Evaluation.above]
    simp only [isAbove, framed, Except.map, start_outputOfTree]
    rcases (Evaluator.visit substitute right.tree).start { session := after } with
      ⟨fault | _, last⟩ <;> simp [Evaluation.above]

/-- If commands succeed apart, the pipes of the second match. -/
theorem pipesMatch_of_apart {substitute : Evaluator.Substitute} {first : Tree}
    (single : right.isSequence = false) {session after : Session} {output : List Text}
    (ran : (outputApart substitute first right.tree).start session = (.ok output, after)) :
    right.tree.pipesMatch = true := by
  rw [start_outputApart] at ran
  rcases started : (outputOfTree substitute first).start session with
    ⟨fault | produced, between⟩
  · rw [started] at ran
    exact absurd (congrArg Prod.fst ran) (by simp)
  · rw [started] at ran
    have succeeded : ((outputOfTree substitute right.tree).start between).1.map (produced ++ ·) =
        .ok output := congrArg Prod.fst ran
    rw [start_outputOfTree] at succeeded
    rcases second : (Evaluator.visit substitute right.tree).start { session := between } with
      ⟨fault | _, last⟩
    · rw [second] at succeeded
      exact absurd succeeded (by simp [Except.map])
    · exact Evaluator.command_fits substitute single second

/-- Commands with a semicolon between them, read without a report, do the same together as each
from scratch one after the other, if no pipe of the second command has its output on the left
sent to a file: the output, the fault and the session that is left are the same. Where they
succeed together, this is also necessary. -/
theorem outputOfLine_sequence {line : Text} {first second : Tree} {semicolon : Token}
    (quiet : (readLine line .command 0).Quiet)
    (shape : (readLine line .command 0).tree = .node .command [first, .leaf semicolon, second])
    (substitute : Evaluator.Substitute) (session : Session) :
    (second.pipesMatch = true → (outputOfLine substitute line).start session =
      (outputApart substitute first second).start session) ∧
    ∀ output after, (outputOfLine substitute line).start session = (.ok output, after) →
      ((outputOfLine substitute line).start session =
        (outputApart substitute first second).start session ↔ second.pipesMatch = true) := by
  obtain ⟨command, _, tree, settled⟩ := derivation_of_quiet quiet
  obtain ⟨left, mark, right, rfl, rfl, rfl⟩ := sequence_of_tree (tree.symm.trans shape)
  have together : outputOfLine substitute line =
      outputOfTree substitute (Command.sequence left mark right).tree := by
    rw [← tree]
    rfl
  rw [together]
  have same : right.tree.pipesMatch = true → _ :=
    fun fits => outputOfTree_sequence substitute left mark fits session
  exact ⟨same, fun output after ran =>
    ⟨fun equal => pipesMatch_of_apart settled.2.2 (equal.symm.trans ran), same⟩⟩

/-! ### Trees part by part -/

namespace Tree

mutual

/-- Whether two trees have the same parts. -/
def same : Tree → Tree → Bool
  | .node rule children, .node other others => rule = other && sameAll children others
  | .leaf token, .leaf other => token = other
  | .error token, .error other => token = other
  | .missing kind, .missing other => kind = other
  | _, _ => false

def sameAll : List Tree → List Tree → Bool
  | [], [] => true
  | tree :: rest, other :: others => tree.same other && sameAll rest others
  | _, _ => false

end

mutual

theorem eq_of_same (tree other : Tree) (alike : tree.same other = true) : tree = other := by
  cases tree with
  | node rule children =>
    cases other with
    | node otherRule others =>
      simp only [same, Bool.and_eq_true, decide_eq_true_eq] at alike
      rw [alike.1, eq_of_sameAll children others alike.2]
    | _ => simp [same] at alike
  | leaf token => cases other <;> simp_all [same]
  | error token => cases other <;> simp_all [same]
  | missing kind => cases other <;> simp_all [same]

theorem eq_of_sameAll (trees others : List Tree) (alike : sameAll trees others = true) :
    trees = others := by
  cases trees with
  | nil => cases others <;> simp_all [sameAll]
  | cons tree rest =>
    cases others with
    | nil => simp [sameAll] at alike
    | cons other more =>
      simp only [sameAll, Bool.and_eq_true] at alike
      rw [eq_of_same tree other alike.1, eq_of_sameAll rest more alike.2]

end

end Tree

/-! ### Two lines with a semicolon -/

/-- A session without files and without input. -/
def emptySession : Session where
  files := .empty
  home := ['/']
  inputs := []

/-- A word in the first line of a text. -/
def wordAt (column : Nat) (text : Text) : Tree :=
  .node .argument [.leaf ⟨.unquoted, text, ⟨column, 1, column⟩⟩]

/-- The tree of the command before the semicolon in `echo x;echo y|cat`. -/
def plainEcho : Tree :=
  .node .command [.node .call
    [wordAt 0 "echo", .leaf ⟨.blank, [' '], ⟨4, 1, 4⟩⟩, .node .atom [wordAt 5 "x"]]]

/-- The tree of the command behind the semicolon in `echo x;echo y|cat`. -/
def pipedEcho : Tree :=
  .node .command [.node .pipe
    [.node .call
      [wordAt 7 "echo", .leaf ⟨.blank, [' '], ⟨11, 1, 11⟩⟩, .node .atom [wordAt 12 "y"]],
      .leaf ⟨.bar, ['|'], ⟨13, 1, 13⟩⟩, .node .call [wordAt 14 "cat"]]]

theorem outputOfLine_sequence_echo :
    (readLine "echo x;echo y|cat" .command 0).Quiet ∧
      (readLine "echo x;echo y|cat" .command 0).tree =
        .node .command [plainEcho, .leaf ⟨.semicolon, [';'], ⟨6, 1, 6⟩⟩, pipedEcho] ∧
      pipedEcho.pipesMatch = true ∧
      (outputOfLine (interpret 0) "echo x;echo y|cat").start emptySession =
        (outputApart (interpret 0) plainEcho pipedEcho).start emptySession := by
  have quiet : (readLine "echo x;echo y|cat" .command 0).Quiet :=
    (quiet_iff _).mpr (List.isEmpty_iff.mp (by decide +kernel))
  have tree : (readLine "echo x;echo y|cat" .command 0).tree =
      .node .command [plainEcho, .leaf ⟨.semicolon, [';'], ⟨6, 1, 6⟩⟩, pipedEcho] :=
    Tree.eq_of_same _ _ (by decide +kernel)
  have fits : pipedEcho.pipesMatch = true := by decide +kernel
  exact ⟨quiet, tree, fits,
    (outputOfLine_sequence quiet tree (interpret 0) emptySession).1 fits⟩

/-- The tree of the command behind the semicolon in `echo x;echo y>f|cat`. -/
def redirectedEcho : Tree :=
  .node .command [.node .pipe
    [.node .call
      [wordAt 7 "echo", .leaf ⟨.blank, [' '], ⟨11, 1, 11⟩⟩, .node .atom [wordAt 12 "y"],
        .node .atom [.node .redirection [.leaf ⟨.greater, ['>'], ⟨13, 1, 13⟩⟩, wordAt 14 "f"]]],
      .leaf ⟨.bar, ['|'], ⟨15, 1, 15⟩⟩, .node .call [wordAt 16 "cat"]]]

/-- A pipe whose left side sends its output to a file takes the output of an earlier command. By
itself it fails. -/
theorem sequence_takes_output :
    ((outputOfLine (interpret 0) "echo x;echo y>f|cat").start emptySession).1.toOption =
        some ["x\n".toList] ∧
      ((outputApart (interpret 0) plainEcho redirectedEcho).start emptySession).1.toOption =
        none ∧
      (readLine "echo x;echo y>f|cat" .command 0).tree =
        .node .command [plainEcho, .leaf ⟨.semicolon, [';'], ⟨6, 1, 6⟩⟩, redirectedEcho] := by
  have tree : (readLine "echo x;echo y>f|cat" .command 0).tree =
      .node .command [plainEcho, .leaf ⟨.semicolon, [';'], ⟨6, 1, 6⟩⟩, redirectedEcho] :=
    Tree.eq_of_same _ _ (by decide +kernel)
  have together : outputOfLine (interpret 0) "echo x;echo y>f|cat" =
      outputOfTree (interpret 0) (.node .command
        [plainEcho, .leaf ⟨.semicolon, [';'], ⟨6, 1, 6⟩⟩, redirectedEcho]) := by
    rw [← tree]
    rfl
  refine ⟨?_, ?_, tree⟩
  · rw [together]
    decide +kernel
  · decide +kernel

end MiniShell
