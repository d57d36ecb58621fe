/-
This file defines the derivations of the grammar. Each type below is a rule and
each of its constructors an alternative of that rule, so that a value shows how
a sequence of tokens comes out of the rules. A derivation knows the tokens it
derives and the tree that shows it.

The grammar is ambiguous. Pieces of text that stand side by side can be one
argument or several, and a semicolon or a bar can go to several rules. The file
singles out the tight calls, in which pieces side by side are one argument, and
the settled commands, in which semicolons nest to the left and a command stands
after a bar only where it has to.
-/

import MiniShell.Grammar.Tree

namespace MiniShell

namespace Derivation

/-! ### Words and redirections -/

/-- A run of blanks. -/
abbrev Blank := { token : Token // token.kind = .blank }

/-- A semicolon. -/
abbrev Semicolon := { token : Token // token.kind = .semicolon }

/-- A bar. -/
abbrev Bar := { token : Token // token.kind = .bar }

/-- A piece of an argument. -/
abbrev Piece := { token : Token // token.kind.isPiece = true }

/-- The tokens of a blank that may be missing. -/
def blankTokens : Option Blank → List Token
  | none => []
  | some blank => [blank.val]

/-- The leaves of a blank that may be missing. -/
def blankLeaves : Option Blank → List Tree
  | none => []
  | some blank => [.leaf blank.val]

/-- The tree of a piece of an argument. -/
def pieceTree (piece : Token) : Tree :=
  if piece.kind.isQuoted then .node .quoted [.leaf piece] else .leaf piece

/-- An argument: quoted and unquoted pieces side by side. -/
structure Argument where
  pieces : List Token
  nonempty : pieces ≠ []
  arePieces : ∀ piece ∈ pieces, piece.kind.isPiece = true

namespace Argument

def tokens (argument : Argument) : List Token := argument.pieces

def tree (argument : Argument) : Tree := .node .argument (argument.pieces.map pieceTree)

/-- An argument of one piece. -/
def single (piece : Piece) : Argument where
  pieces := [piece.val]
  nonempty := List.cons_ne_nil _ _
  arePieces := by
    intro other member
    rw [List.mem_singleton.mp member]
    exact piece.property

/-- One argument right after another, read as a single one. -/
def append (argument other : Argument) : Argument where
  pieces := argument.pieces ++ other.pieces
  nonempty := by simp [argument.nonempty]
  arePieces := by
    intro piece member
    rcases List.mem_append.mp member with left | right
    · exact argument.arePieces piece left
    · exact other.arePieces piece right

end Argument

/-- A redirection: an operator and the argument that names a file. -/
structure Redirection where
  operator : Token
  isOperator : operator.kind.isRedirection = true
  blank : Option Blank
  target : Argument

namespace Redirection

def tokens (redirection : Redirection) : List Token :=
  redirection.operator :: (blankTokens redirection.blank ++ redirection.target.tokens)

/-- The parts that the node of a redirection has. -/
def parts (redirection : Redirection) : List Tree :=
  .leaf redirection.operator :: (blankLeaves redirection.blank ++ [redirection.target.tree])

def tree (redirection : Redirection) : Tree := .node .redirection redirection.parts

end Redirection

/-- An atom: a redirection or an argument. -/
inductive Atom
  | redirection (redirection : Redirection)
  | argument (argument : Argument)

namespace Atom

def tokens : Atom → List Token
  | .redirection part => part.tokens
  | .argument part => part.tokens

/-- The node inside the node of an atom. -/
def inner : Atom → Tree
  | .redirection part => part.tree
  | .argument part => part.tree

def tree (atom : Atom) : Tree := .node .atom [atom.inner]

def isRedirection : Atom → Bool
  | .redirection _ => true
  | .argument _ => false

theorem tokens_nonempty (atom : Atom) : atom.tokens ≠ [] := by
  cases atom with
  | redirection redirection => exact List.cons_ne_nil _ _
  | argument argument => exact argument.nonempty

/-- An atom with the argument at its end continued by another one. -/
def extend (other : Argument) : Atom → Atom
  | .redirection part => .redirection { part with target := part.target.append other }
  | .argument part => .argument (part.append other)

end Atom

/-! ### Calls -/

/-- A call: redirections that are each followed by a blank, an argument, and atoms with or
without blanks before them. -/
structure Call where
  lead : Option Blank
  leading : List (Redirection × Blank)
  first : Argument
  atoms : List (Option Blank × Atom)
  trail : Option Blank

/-- The tokens of the redirections before the first word of a call. -/
def leadingTokens (leading : List (Redirection × Blank)) : List Token :=
  leading.flatMap fun (redirection, blank) => redirection.tokens ++ [blank.val]

/-- The trees of the redirections before the first word of a call. -/
def leadingTrees (leading : List (Redirection × Blank)) : List Tree :=
  leading.flatMap fun (redirection, blank) => [redirection.tree, .leaf blank.val]

/-- The tokens of the atoms after the first word of a call. -/
def atomTokens (atoms : List (Option Blank × Atom)) : List Token :=
  atoms.flatMap fun (blank, atom) => blankTokens blank ++ atom.tokens

/-- The trees of the atoms after the first word of a call. -/
def atomTrees (atoms : List (Option Blank × Atom)) : List Tree :=
  atoms.flatMap fun (blank, atom) => blankLeaves blank ++ [atom.tree]

@[simp] theorem blankTokens_none : blankTokens none = [] := rfl

@[simp] theorem blankTokens_some (blank : Blank) : blankTokens (some blank) = [blank.val] := rfl

@[simp] theorem blankLeaves_none : blankLeaves none = [] := rfl

@[simp] theorem blankLeaves_some (blank : Blank) :
    blankLeaves (some blank) = [.leaf blank.val] := rfl

@[simp] theorem leadingTokens_nil : leadingTokens [] = [] := rfl

@[simp] theorem leadingTokens_cons (redirection : Redirection) (blank : Blank)
    (rest : List (Redirection × Blank)) :
    leadingTokens ((redirection, blank) :: rest) =
      redirection.tokens ++ [blank.val] ++ leadingTokens rest := rfl

@[simp] theorem leadingTrees_nil : leadingTrees [] = [] := rfl

@[simp] theorem leadingTrees_cons (redirection : Redirection) (blank : Blank)
    (rest : List (Redirection × Blank)) :
    leadingTrees ((redirection, blank) :: rest) =
      [redirection.tree, .leaf blank.val] ++ leadingTrees rest := rfl

@[simp] theorem atomTokens_cons (blank : Option Blank) (atom : Atom)
    (rest : List (Option Blank × Atom)) :
    atomTokens ((blank, atom) :: rest) = blankTokens blank ++ atom.tokens ++ atomTokens rest := rfl

@[simp] theorem atomTrees_nil : atomTrees [] = [] := rfl

@[simp] theorem atomTrees_cons (blank : Option Blank) (atom : Atom)
    (rest : List (Option Blank × Atom)) :
    atomTrees ((blank, atom) :: rest) = blankLeaves blank ++ [atom.tree] ++ atomTrees rest := rfl

namespace Call

def tokens (call : Call) : List Token :=
  blankTokens call.lead ++ leadingTokens call.leading ++ call.first.tokens ++
    atomTokens call.atoms ++ blankTokens call.trail

/-- The children of the node of a call. -/
def parts (call : Call) : List Tree :=
  blankLeaves call.lead ++ leadingTrees call.leading ++ [call.first.tree] ++
    atomTrees call.atoms ++ blankLeaves call.trail

def tree (call : Call) : Tree := .node .call call.parts

/-- What holds of blanks, redirections, arguments and atoms holds of all parts of a call. -/
theorem forall_parts {holds : Tree → Prop} (blank : ∀ token, holds (.leaf token))
    (redirection : ∀ part : Redirection, holds part.tree)
    (argument : ∀ part : Argument, holds part.tree) (atom : ∀ part : Atom, holds part.tree)
    (call : Call) : ∀ tree ∈ call.parts, holds tree := by
  have optional : ∀ (option : Option Blank), ∀ tree ∈ blankLeaves option, holds tree := by
    rintro (_ | token) tree member
    · exact absurd member (by simp)
    · obtain rfl : tree = .leaf token.val := by simpa using member
      exact blank _
  intro tree member
  simp only [parts, List.mem_append, List.mem_singleton, or_assoc] at member
  rcases member with lead | leading | rfl | atoms | trail
  · exact optional _ tree lead
  · obtain ⟨entry, _, inEntry⟩ := List.mem_flatMap.mp leading
    rcases List.mem_cons.mp inEntry with rfl | last
    · exact redirection entry.1
    · obtain rfl : tree = .leaf entry.2.val := by simpa using last
      exact blank _
  · exact argument call.first
  · obtain ⟨entry, _, inEntry⟩ := List.mem_flatMap.mp atoms
    rcases List.mem_append.mp inEntry with before | last
    · exact optional _ tree before
    · obtain rfl : tree = entry.2.tree := by simpa using last
      exact atom entry.2
  · exact optional _ tree trail

end Call

/-- An argument among the atoms follows a blank, so that it is no part of the word before. -/
def TightAtoms (atoms : List (Option Blank × Atom)) : Prop :=
  ∀ entry ∈ atoms, entry.1 = none → entry.2.isRedirection = true

/-- In a tight call pieces that stand side by side are one argument. -/
def Call.Tight (call : Call) : Prop := TightAtoms call.atoms

/-! ### Pipes and commands -/

mutual

/-- A pipe: calls with bars between them. After the second bar any command may stand. -/
inductive Pipe
  | calls (left : Call) (bar : Bar) (right : Call)
  | call (left : Pipe) (bar : Bar) (right : Call)
  | command (left : Pipe) (bar : Bar) (right : Command)

/-- A command. -/
inductive Command
  | pipe (pipe : Pipe)
  | sequence (left : Command) (semicolon : Semicolon) (right : Command)
  | call (call : Call)
  | empty

end

mutual

def Pipe.tokens : Pipe → List Token
  | .calls left bar right => left.tokens ++ bar.val :: right.tokens
  | .call left bar right => left.tokens ++ bar.val :: right.tokens
  | .command left bar right => left.tokens ++ bar.val :: right.tokens

def Command.tokens : Command → List Token
  | .pipe pipe => pipe.tokens
  | .sequence left semicolon right => left.tokens ++ semicolon.val :: right.tokens
  | .call call => call.tokens
  | .empty => []

end

mutual

/-- The children of the node of a pipe. -/
def Pipe.parts : Pipe → List Tree
  | .calls left bar right => [left.tree, .leaf bar.val, right.tree]
  | .call left bar right => [.node .pipe left.parts, .leaf bar.val, right.tree]
  | .command left bar right =>
    [.node .pipe left.parts, .leaf bar.val, .node .command right.parts]

/-- The children of the node of a command. -/
def Command.parts : Command → List Tree
  | .pipe pipe => [.node .pipe pipe.parts]
  | .sequence left semicolon right =>
    [.node .command left.parts, .leaf semicolon.val, .node .command right.parts]
  | .call call => [call.tree]
  | .empty => []

end

def Pipe.tree (pipe : Pipe) : Tree := .node .pipe pipe.parts

def Command.tree (command : Command) : Tree := .node .command command.parts

end Derivation

/-- Whether tokens can be derived from the rule for commands. -/
def Derivable (tokens : List Token) : Prop :=
  ∃ command : Derivation.Command, command.tokens = tokens

namespace Derivation

/-! ### Settled commands -/

/-- Whether a command has a semicolon at its top. -/
def Command.isSequence : Command → Bool
  | .sequence _ _ _ => true
  | _ => false

/-- Whether a command begins with nothing. -/
def Command.beginsEmpty : Command → Bool
  | .sequence left _ _ => left.beginsEmpty
  | .empty => true
  | _ => false

/-- A command that stands after a bar where a call could not: it begins with nothing, or it
begins with a call and a semicolon after which the rest of the line is no command by itself.
`after` holds the tokens that follow the command. -/
def Command.Needed (after : List Token) (command : Command) : Prop :=
  command.beginsEmpty = true ∨
    ∃ (call : Call) (semicolon : Semicolon) (rest : List Token),
      command.tokens = call.tokens ++ semicolon.val :: rest ∧ ¬ Derivable (rest ++ after)

mutual

/-- The choices in a pipe that has the given tokens after it: a command stands after a bar
only where it is needed. -/
def Pipe.Settled (after : List Token) : Pipe → Prop
  | .calls _ _ _ => True
  | .call left bar right => left.Settled (bar.val :: (right.tokens ++ after))
  | .command left bar right =>
    left.Settled (bar.val :: (right.tokens ++ after)) ∧ right.Settled after ∧ right.Needed after

/-- The choices in a command that has the given tokens after it: semicolons nest to the left,
and a command stands after a bar only where it is needed. -/
def Command.Settled (after : List Token) : Command → Prop
  | .pipe pipe => pipe.Settled after
  | .sequence left semicolon right =>
    left.Settled (semicolon.val :: (right.tokens ++ after)) ∧ right.Settled after ∧
      right.isSequence = false
  | .call _ => True
  | .empty => True

end

/-! ### Every call is a tight call -/

/-- Joins an argument that follows without a blank to the atom before it. -/
def joinAtom (blank : Option Blank) (atom : Atom) :
    List (Option Blank × Atom) → List (Option Blank × Atom)
  | (none, .argument other) :: rest => (blank, atom.extend other) :: rest
  | rest => (blank, atom) :: rest

/-- Joins all arguments that stand side by side, from the last to the first. -/
def joinAtoms : List (Option Blank × Atom) → List (Option Blank × Atom)
  | [] => []
  | (blank, atom) :: rest => joinAtom blank atom (joinAtoms rest)

theorem extend_tokens (other : Argument) (atom : Atom) :
    (atom.extend other).tokens = atom.tokens ++ other.tokens := by
  cases atom with
  | redirection redirection =>
    simp [Atom.extend, Atom.tokens, Redirection.tokens, Argument.tokens, Argument.append]
  | argument argument => rfl

theorem joinAtom_tokens (blank : Option Blank) (atom : Atom)
    (rest : List (Option Blank × Atom)) :
    atomTokens (joinAtom blank atom rest) =
      blankTokens blank ++ atom.tokens ++ atomTokens rest := by
  unfold joinAtom
  split
  · rw [atomTokens_cons, atomTokens_cons, extend_tokens]
    simp [Atom.tokens]
  · rw [atomTokens_cons]

theorem joinAtoms_tokens (atoms : List (Option Blank × Atom)) :
    atomTokens (joinAtoms atoms) = atomTokens atoms := by
  induction atoms with
  | nil => rfl
  | cons entry rest inductionHypothesis =>
    obtain ⟨blank, atom⟩ := entry
    rw [joinAtoms, joinAtom_tokens, inductionHypothesis]
    rfl

/-- After joining, only the first atom can still be an argument without a blank. -/
theorem joinAtoms_tight (atoms : List (Option Blank × Atom)) :
    TightAtoms (joinAtoms atoms).tail := by
  induction atoms with
  | nil => exact fun entry member => absurd member List.not_mem_nil
  | cons entry rest inductionHypothesis =>
    obtain ⟨blank, atom⟩ := entry
    rw [joinAtoms]
    unfold joinAtom
    split
    · rename_i other tail joined
      rw [joined] at inductionHypothesis
      exact inductionHypothesis
    · rename_i loose
      intro entry member unspaced
      rw [List.tail_cons] at member
      cases joined : joinAtoms rest with
      | nil => simp [joined] at member
      | cons head tail =>
        rw [joined] at member inductionHypothesis
        rcases List.mem_cons.mp member with rfl | inTail
        · obtain ⟨headBlank, headAtom⟩ := entry
          cases headAtom with
          | redirection redirection => rfl
          | argument other =>
            simp only at unspaced
            exact absurd (by rw [joined, unspaced]) (loose other tail)
        · exact inductionHypothesis entry inTail unspaced

/-- The tokens of a call are those of a tight call. -/
theorem Call.exists_tight (call : Call) :
    ∃ tightened : Call, tightened.Tight ∧ tightened.tokens = call.tokens := by
  have tight := joinAtoms_tight call.atoms
  have same := joinAtoms_tokens call.atoms
  cases joined : joinAtoms call.atoms with
  | nil =>
    rw [joined] at same
    refine ⟨{ call with atoms := [] }, fun entry member => absurd member List.not_mem_nil, ?_⟩
    simp [Call.tokens, ← same]
  | cons head tail =>
    rw [joined] at same tight
    obtain ⟨blank, atom⟩ := head
    -- An argument right behind the first one belongs to it.
    by_cases loose : ∃ other, (blank, atom) = (none, Atom.argument other)
    · obtain ⟨other, equal⟩ := loose
      refine ⟨{ call with first := call.first.append other, atoms := tail }, tight, ?_⟩
      obtain ⟨rfl, rfl⟩ := Prod.mk.inj equal
      rw [Call.tokens, Call.tokens, ← same, atomTokens_cons]
      simp [Atom.tokens, Argument.tokens, Argument.append]
    · refine ⟨{ call with atoms := (blank, atom) :: tail }, ?_, ?_⟩
      · intro entry member unspaced
        rcases List.mem_cons.mp member with rfl | inTail
        · cases atom with
          | redirection redirection => rfl
          | argument other =>
            simp only at unspaced
            exact absurd ⟨other, by rw [unspaced]⟩ loose
        · exact tight entry inTail unspaced
      · simp [Call.tokens, ← same]

end Derivation

end MiniShell
