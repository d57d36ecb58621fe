/-
This file defines the trees that a command line is read into. A tree shows how
the rules of the grammar were applied. Tokens that fit no rule are kept in it as
error leaves, and a token the reader had to make up is recorded by its kind, so
the leaves of a tree always show what was read.
-/

import MiniShell.Token.Basic

namespace MiniShell

/-- The rules of the grammar. -/
inductive Rule
  | command
  | pipe
  | call
  | atom
  | argument
  | redirection
  | quoted
  deriving DecidableEq, Repr

/-- The name of a rule. -/
def Rule.name : Rule → Text
  | .command => "command"
  | .pipe => "pipe"
  | .call => "call"
  | .atom => "atom"
  | .argument => "argument"
  | .redirection => "redirection"
  | .quoted => "quoted"

/-- A parse tree. -/
inductive Tree
  | node (rule : Rule) (children : List Tree)
  | leaf (token : Token)
  | error (token : Token)
  | missing (kind : Kind)

namespace Tree

/-- The text that stands for a token that was made up. -/
def missingText (kind : Kind) : Text := "<missing ".toList ++ kind.display ++ ">".toList

mutual
/-- The texts of all leaves of a tree, joined from left to right. -/
def text : Tree → Text
  | node _ children => textAll children
  | leaf token => token.text
  | error token => token.text
  | missing kind => missingText kind

/-- The texts of the leaves of several trees, joined from left to right. -/
def textAll : List Tree → Text
  | [] => []
  | tree :: rest => tree.text ++ textAll rest
end

mutual
/-- The leaves of a tree from left to right. -/
def leaves : Tree → List Tree
  | node _ children => leavesAll children
  | tree => [tree]

/-- The leaves of several trees from left to right. -/
def leavesAll : List Tree → List Tree
  | [] => []
  | tree :: rest => tree.leaves ++ leavesAll rest
end

/-- The children of a node; a leaf has none. -/
def children : Tree → List Tree
  | node _ children => children
  | _ => []

/-- Whether the tree is a node of the given rule. -/
def isNode (rule : Rule) : Tree → Bool
  | node other _ => other == rule
  | _ => false

/-- Whether the tree is a leaf for a token of the given kind. A token that was
made up counts as one of its kind. -/
def isToken (kind : Kind) : Tree → Bool
  | node _ _ => false
  | leaf token => token.kind == kind
  | error token => token.kind == kind
  | missing other => other == kind

/-- The children that are nodes of the given rule. -/
def nodes (tree : Tree) (rule : Rule) : List Tree := tree.children.filter (isNode rule)

/-- The children that are tokens of the given kind. -/
def tokens (tree : Tree) (kind : Kind) : List Tree := tree.children.filter (isToken kind)

/-! ### Walking a tree -/

/-- What a walk meets: the beginning and the end of a node, and leaves. The end
of a node comes with the text that the node covers. -/
inductive Event
  | enter (rule : Rule)
  | exit (rule : Rule) (text : Text)
  | token (text : Text)
  | error (text : Text)

mutual
/-- Walks a tree from left to right. -/
def walk : Tree → List Event
  | node rule children =>
    .enter rule :: walkAll children ++ [.exit rule (textAll children)]
  | leaf token => [.token token.text]
  | error token => [.error token.text]
  | missing kind => [.error (missingText kind)]

/-- Walks several trees one after the other. -/
def walkAll : List Tree → List Event
  | [] => []
  | tree :: rest => tree.walk ++ walkAll rest
end

mutual
/-- All nodes of a tree, each before the nodes below it. -/
def subtrees : Tree → List Tree
  | node rule children => node rule children :: subtreesAll children
  | _ => []

/-- All nodes of several trees. -/
def subtreesAll : List Tree → List Tree
  | [] => []
  | tree :: rest => tree.subtrees ++ subtreesAll rest
end

end Tree

end MiniShell
