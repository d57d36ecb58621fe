/-
This file proves that reading keeps account of the tokens of a line. Whatever
reading leaves out, makes up or skips, each token that it passes becomes one
leaf of the tree, in the order of the line, and those that it does not pass are
still ahead. The account is kept by every single change that reading can make
to a cursor, so it is kept by every passage, and the reading of a line by any
rule is a passage.

Leaves that recovery has made up are not counted, while error leaves are: they
are tokens of the line that no rule could use.
-/

import MiniShell.Proofs.Settling

namespace MiniShell

/-! ### The tokens at the leaves -/

namespace Tree

/-- The token that a leaf stands for. A token that was made up stands for none. -/
def token? : Tree → Option Token
  | leaf token => some token
  | error token => some token
  | _ => none

/-- The tokens at the leaves of a tree, from left to right. -/
def leafTokens (tree : Tree) : List Token := tree.leaves.filterMap token?

/-- The tokens at the leaves of several trees, from left to right. -/
def leafTokensAll (trees : List Tree) : List Token := (leavesAll trees).filterMap token?

theorem leavesAll_append (trees others : List Tree) :
    leavesAll (trees ++ others) = leavesAll trees ++ leavesAll others := by
  induction trees with
  | nil => rfl
  | cons tree rest inductionHypothesis =>
    rw [List.cons_append, leavesAll, leavesAll, inductionHypothesis, List.append_assoc]

@[simp] theorem leafTokensAll_nil : leafTokensAll [] = [] := rfl

@[simp] theorem leafTokensAll_append (trees others : List Tree) :
    leafTokensAll (trees ++ others) = leafTokensAll trees ++ leafTokensAll others := by
  rw [leafTokensAll, leavesAll_append, List.filterMap_append]
  rfl

@[simp] theorem leafTokensAll_single (tree : Tree) : leafTokensAll [tree] = tree.leafTokens := by
  rw [leafTokensAll, leavesAll, leavesAll, List.append_nil]
  rfl

@[simp] theorem leafTokens_node (rule : Rule) (children : List Tree) :
    (node rule children).leafTokens = leafTokensAll children := rfl

@[simp] theorem leafTokensAll_cons (tree : Tree) (rest : List Tree) :
    leafTokensAll (tree :: rest) = tree.leafTokens ++ leafTokensAll rest := by
  rw [leafTokensAll, leavesAll, List.filterMap_append]
  rfl

@[simp] theorem leafTokens_leaf (token : Token) : (leaf token).leafTokens = [token] := rfl

@[simp] theorem leafTokens_missing (kind : Kind) : (missing kind).leafTokens = [] := rfl

end Tree

/-! ### The leaves of a derivation -/

namespace Derivation

open MiniShell.Tree (leavesAll leavesAll_append)

theorem leavesAll_pieces (pieces : List Token) :
    leavesAll (pieces.map pieceTree) = pieces.map .leaf := by
  have single (piece : Token) : (pieceTree piece).leaves = [.leaf piece] := by
    unfold pieceTree
    split <;> rfl
  induction pieces with
  | nil => rfl
  | cons piece rest inductionHypothesis =>
    rw [List.map_cons, leavesAll, single, inductionHypothesis]
    rfl

theorem leavesAll_blank (blank : Option Blank) :
    leavesAll (blankLeaves blank) = (blankTokens blank).map .leaf := by
  cases blank <;> rfl

theorem Redirection.leaves (redirection : Redirection) :
    redirection.tree.leaves = redirection.tokens.map .leaf := by
  rw [Redirection.tree, Tree.leaves, Redirection.parts, Redirection.tokens]
  simp [leavesAll, leavesAll_append, leavesAll_blank, Argument.tree, leavesAll_pieces, Tree.leaves,
    Argument.tokens]

theorem Atom.leaves (atom : Atom) : atom.tree.leaves = atom.tokens.map .leaf := by
  rw [Atom.tree, Tree.leaves, leavesAll, leavesAll, List.append_nil]
  cases atom with
  | redirection redirection => exact redirection.leaves
  | argument argument => exact leavesAll_pieces argument.pieces

theorem leavesAll_leading (leading : List (Redirection × Blank)) :
    leavesAll (leadingTrees leading) = (leadingTokens leading).map .leaf := by
  induction leading with
  | nil => rfl
  | cons entry rest inductionHypothesis =>
    obtain ⟨redirection, blank⟩ := entry
    simp [leavesAll, redirection.leaves, inductionHypothesis, Tree.leaves]

theorem leavesAll_atoms (atoms : List (Option Blank × Atom)) :
    leavesAll (atomTrees atoms) = (atomTokens atoms).map .leaf := by
  induction atoms with
  | nil => rfl
  | cons entry rest inductionHypothesis =>
    obtain ⟨blank, atom⟩ := entry
    simp [leavesAll_append, leavesAll, atom.leaves, leavesAll_blank, inductionHypothesis]

theorem Call.leaves (call : Call) : call.tree.leaves = call.tokens.map .leaf := by
  rw [Call.tree, Tree.leaves, Call.parts, Call.tokens]
  simp [leavesAll_append, leavesAll_blank, leavesAll_leading, leavesAll_atoms, leavesAll,
    Argument.tree, Tree.leaves, leavesAll_pieces, Argument.tokens]

theorem Call.leafTokens (call : Call) : call.tree.leafTokens = call.tokens := by
  rw [Tree.leafTokens, call.leaves, List.filterMap_map]
  exact List.filterMap_some

mutual

theorem Pipe.leaves : (pipe : Pipe) → leavesAll pipe.parts = pipe.tokens.map .leaf
  | .calls left bar right => by
    simp [Pipe.parts, Pipe.tokens, leavesAll, left.leaves, right.leaves, Tree.leaves]
  | .call left bar right => by
    simp [Pipe.parts, Pipe.tokens, leavesAll, left.leaves, right.leaves, Tree.leaves]
  | .command left bar right => by
    simp [Pipe.parts, Pipe.tokens, leavesAll, left.leaves, right.leaves, Tree.leaves]

theorem Command.leaves : (command : Command) → leavesAll command.parts = command.tokens.map .leaf
  | .pipe pipe => by simp [Command.parts, Command.tokens, leavesAll, pipe.leaves, Tree.leaves]
  | .sequence left semicolon right => by
    simp [Command.parts, Command.tokens, leavesAll, left.leaves, right.leaves, Tree.leaves]
  | .call call => by simp [Command.parts, Command.tokens, leavesAll, call.leaves]
  | .empty => rfl

end

end Derivation

open MiniShell.Tree (leafTokensAll)

/-! ### The account of a cursor -/

/-- Between two cursors account is kept: the tokens taken from what was ahead are the tokens of
the leaves that were added. The end of the line is never taken, but it can leave leaves when there
is nothing else ahead. -/
def Cursor.Accounts (before after : Cursor) : Prop :=
  ∃ (taken : List Token) (ends : Nat), before.rest = taken ++ after.rest ∧
    leafTokensAll after.children =
      leafTokensAll before.children ++ taken ++ List.replicate ends (.lineEnd before.finish) ∧
    (ends = 0 ∨ after.rest = []) ∧ after.finish = before.finish

namespace Cursor.Accounts

/-- A change that takes nothing and adds no leaf. -/
theorem same {before after : Cursor} (rest : after.rest = before.rest)
    (leaves : leafTokensAll after.children = leafTokensAll before.children)
    (finish : after.finish = before.finish) : Accounts before after :=
  ⟨[], 0, by rw [rest]; rfl, by simp [leaves], Or.inl rfl, finish⟩

theorem trans {before middle after : Cursor} (first : Accounts before middle)
    (second : Accounts middle after) : Accounts before after := by
  obtain ⟨taken, ends, rest, leaves, atEnd, finish⟩ := first
  obtain ⟨more, moreEnds, moreRest, moreLeaves, moreAtEnd, moreFinish⟩ := second
  refine ⟨taken ++ more, ends + moreEnds, ?_, ?_, ?_, moreFinish.trans finish⟩
  · rw [rest, moreRest, List.append_assoc]
  · rw [moreLeaves, leaves, finish]
    rcases atEnd with none | finished
    · simp [none]
    · -- Behind the end of the line nothing is left to be taken.
      obtain ⟨nothing, _⟩ := List.append_eq_nil_iff.mp (moreRest.symm.trans finished)
      simp [nothing]
  · rcases atEnd with none | finished
    · rcases moreAtEnd with moreNone | moreOver
      · exact Or.inl (by rw [none, moreNone])
      · exact Or.inr moreOver
    · exact Or.inr (List.append_eq_nil_iff.mp (moreRest.symm.trans finished)).2

theorem addLeaf_children (token : Token) (cursor : Cursor) :
    leafTokensAll (cursor.addLeaf token).children = leafTokensAll cursor.children ++ [token] := by
  unfold Cursor.addLeaf
  split <;> simp [Tree.leafTokens, Tree.leaves, Tree.token?]

theorem addLeaf_rest (token : Token) (cursor : Cursor) :
    (cursor.addLeaf token).rest = cursor.rest := by
  unfold Cursor.addLeaf
  split <;> rfl

theorem addLeaf_finish (token : Token) (cursor : Cursor) :
    (cursor.addLeaf token).finish = cursor.finish := by
  unfold Cursor.addLeaf
  split <;> rfl

/-- Passing takes the token ahead, or leaves a leaf for the end of the line. -/
theorem pass (cursor : Cursor) : Accounts cursor cursor.pass := by
  unfold Cursor.pass
  split
  · rename_i finished
    refine ⟨[], 1, ?_, ?_, Or.inr ?_, addLeaf_finish _ _⟩
    · rw [addLeaf_rest, List.nil_append]
    · rw [addLeaf_children, Cursor.current, finished]
      simp
    · rw [addLeaf_rest, finished]
  · rename_i token rest ahead
    refine ⟨[token], 0, ?_, ?_, Or.inl rfl, addLeaf_finish _ _⟩
    · rw [addLeaf_rest, ahead]
      rfl
    · rw [addLeaf_children]
      simp [Cursor.look]

/-- The node of a rule has the leaves of its children. -/
theorem node {cursor inner : Cursor} (rule : Rule)
    (below : Accounts { cursor with children := [] } inner) :
    Accounts cursor { inner with children := cursor.children ++ [.node rule inner.children] } := by
  obtain ⟨taken, ends, rest, leaves, atEnd, finish⟩ := below
  refine ⟨taken, ends, rest, ?_, atEnd, finish⟩
  rw [leafTokensAll, Tree.leavesAll_append, List.filterMap_append]
  show leafTokensAll cursor.children ++ leafTokensAll [.node rule inner.children] = _
  rw [Tree.leafTokensAll_single, Tree.leafTokens_node, leaves]
  simp

end Cursor.Accounts

/-- Every passage keeps account of the tokens. -/
theorem Passage.accounts {start finish : Cursor} (passage : Passage start finish) :
    start.Accounts finish := by
  induction passage with
  | refl cursor => exact .same rfl rfl rfl
  | look count _ inductionHypothesis => exact inductionHypothesis.trans (.same rfl rfl rfl)
  | report mark complaint _ _ inductionHypothesis =>
    exact inductionHypothesis.trans (.same rfl rfl rfl)
  | pass _ inductionHypothesis => exact inductionHypothesis.trans (.pass _)
  | settle _ inductionHypothesis => exact inductionHypothesis.trans (.same rfl rfl rfl)
  | stumble _ _ _ inductionHypothesis => exact inductionHypothesis.trans (.same rfl rfl rfl)
  | enlist event _ inductionHypothesis => exact inductionHypothesis.trans (.same rfl rfl rfl)
  | makeUp kind _ inductionHypothesis => exact inductionHypothesis.trans (.same rfl (by simp) rfl)
  | wrap rule _ inductionHypothesis =>
    exact inductionHypothesis.trans (.same rfl (by simp [Cursor.wrap]) rfl)
  | node rule _ _ before below => exact before.trans (.node rule below)

/-! ### Every rule makes a passage -/

namespace Recogniser

variable {Result Other : Type}

/-- An action that does nothing to the cursor but what reading does. -/
def Reads (action : Recogniser Result) : Prop := action.Sound fun _ _ _ => True

theorem Sound.reads {action : Recogniser Result} {relation : Cursor → Result → Cursor → Prop}
    (sound : action.Sound relation) : action.Reads := sound.weaken fun _ _ _ _ _ => trivial

namespace Reads

theorem bind {action : Recogniser Result} {next : Result → Recogniser Other}
    (reads : action.Reads) (onward : ∀ result, (next result).Reads) : (action >>= next).Reads :=
  (Sound.bind reads onward).reads

theorem pure (result : Result) : (Pure.pure result : Recogniser Result).Reads :=
  (Sound.pure result).reads

theorem within (rule : Rule) (sites : List Site) {body : Recogniser Unit} (reads : body.Reads) :
    (liftM (MiniShell.within rule sites body) : Recogniser Unit).Reads :=
  (within_sound rule sites reads).reads

theorem call (fuel : Nat) (sites : List Site) :
    (liftM (Recogniser.call fuel sites) : Recogniser Unit).Reads := (call_sound fuel sites).reads

theorem follow {Choice : Type} (place : Place) (forecast : List Kind → Forecast Choice) :
    (Recogniser.follow place forecast).Reads := (follow_sound place forecast).reads

/-- The rules for commands and pipes use one another, so they are treated at once, by induction on
the fuel. -/
theorem rounds (fuel : Nat) :
    (∀ precedence sites,
      (liftM (Recogniser.command fuel precedence sites) : Recogniser Unit).Reads) ∧
    (∀ precedence sites, (operands fuel precedence sites).Reads) ∧
    (∀ precedence sites, (liftM (Recogniser.pipe fuel precedence sites) : Recogniser Unit).Reads) ∧
    (∀ precedence sites, (stages fuel precedence sites).Reads) := by
  induction fuel with
  | zero => exact ⟨fun _ _ => pure (), fun _ _ => pure (), fun _ _ => pure (), fun _ _ => pure ()⟩
  | succ fuel inductionHypothesis =>
    obtain ⟨command, operands, pipe, stages⟩ := inductionHypothesis
    refine ⟨fun precedence sites => ?_, fun precedence sites => ?_, fun precedence sites => ?_,
      fun precedence sites => ?_⟩
    · refine within .command sites ((follow _ _).bind fun choice => ?_)
      cases choice with
      | pipe => exact (pipe 0 _).bind fun _ => operands precedence sites
      | call => exact (call fuel _).bind fun _ => operands precedence sites
      | empty => exact operands precedence sites
    · refine (follow _ _).bind fun choice => ?_
      cases choice with
      | again =>
        exact (wrap_sound .command).reads.bind fun _ => accept_sound.reads.bind fun _ =>
          (command _ _).bind fun _ => operands precedence sites
      | done => exact pure ()
    · exact within .pipe sites ((call fuel _).bind fun _ =>
        (requireOne_sound .bar .firstBar sites).reads.bind fun _ => (call fuel _).bind fun _ =>
          stages precedence sites)
    · refine (follow _ _).bind fun choice => ?_
      cases choice with
      | done => exact pure ()
      | again =>
        refine (announce_sound .pipe).reads.bind fun _ => (follow _ _).bind fun choice =>
          wrapAccept_sound.reads.bind fun _ => ?_
        cases choice with
        | call => exact (call fuel _).bind fun _ => stages precedence sites
        | command => exact (command 0 _).bind fun _ => stages precedence sites

/-- Reading by any rule makes a passage. -/
theorem rule (fuel : Nat) (precedence : Int) (rule : Rule) :
    (liftM (Recogniser.rule fuel precedence rule) : Recogniser Unit).Reads := by
  cases rule with
  | command => exact (rounds fuel).1 precedence []
  | pipe => exact (rounds fuel).2.2.1 precedence []
  | call => exact call fuel []
  | atom => exact (atom_sound fuel []).reads
  | argument => exact (argument_sound fuel []).reads
  | redirection => exact (redirection_sound fuel []).reads
  | quoted => exact (quoted_sound []).reads

end Reads

end Recogniser

/-! ### The account of a line -/

/-- The state in which the reading of a line by a rule ends. -/
def lastCursorBy (rule : Rule) (precedence : Int) (line : Text) : Cursor :=
  ((Recogniser.rule (4 * (Token.ofLine line).length + 8) precedence rule).run
    (Cursor.start (Token.ofLine line) (Mark.start.after line))).2

/-- A rule leaves one node. -/
theorem lastCursorBy_children (rule : Rule) (precedence : Int) (line : Text) :
    ∃ children, (lastCursorBy rule precedence line).children = [.node rule children] := by
  have built (sites : List Site) (body : Recogniser Unit) (cursor : Cursor)
      (bare : cursor.children = []) :
      ∃ children, ((within rule sites body).run cursor).2.children = [.node rule children] := by
    rw [Recogniser.run_within, bare]
    split
    · exact ⟨_, rfl⟩
    · exact ⟨_, rfl⟩
  unfold lastCursorBy
  cases rule <;> exact built _ _ _ rfl

/-- Reading by any rule accounts for every token, whether the line fits the rule or not. The tokens
at the leaves of the tree are those that were read, each once and in the order of the line, and
the others are left unread. Only where nothing is left unread can there be leaves for the end of
the line behind them. -/
theorem readLine_accounts (line : Text) (rule : Rule) (precedence : Int) :
    ∃ (taken : List Token) (ends : Nat),
      Token.ofLine line = taken ++ (readLine line rule precedence).unread ∧
      (readLine line rule precedence).tree.leafTokens =
        taken ++ List.replicate ends (.lineEnd (Mark.start.after line)) ∧
      (ends = 0 ∨ (readLine line rule precedence).unread = []) := by
  obtain ⟨taken, ends, rest, leaves, atEnd, _⟩ :=
    ((Recogniser.Reads.rule (4 * (Token.ofLine line).length + 8) precedence rule).passage
      (Cursor.start (Token.ofLine line) (Mark.start.after line))).accounts
  refine ⟨taken, ends, rest, ?_, atEnd⟩
  obtain ⟨children, built⟩ := lastCursorBy_children rule precedence line
  have tree : (readLine line rule precedence).tree = .node rule children :=
    congrArg (fun trees : List Tree => trees.headD (.node rule [])) built
  have last : leafTokensAll (lastCursorBy rule precedence line).children =
      taken ++ List.replicate ends (.lineEnd (Mark.start.after line)) := leaves
  rw [tree, ← Tree.leafTokensAll_single, ← built, last]

end MiniShell
