/-
This file defines patterns: sequences of items, each of which matches a part of a text or
tests a position in it. It also gives the number of characters that a pattern can match.
-/

import MiniShell.Text.Basic

namespace MiniShell.Pattern

/-! ### Options -/

/-- How letters, lines and blanks are treated. -/
structure Options where
  /-- Capitals equal their lower-case letters. -/
  ignoreCase : Bool := false
  /-- Lines inside the text have a start and an end. -/
  multiline : Bool := false
  /-- A dot also stands for a line feed. -/
  dotAll : Bool := false
  /-- Blanks and comments in the pattern mean nothing. -/
  verbose : Bool := false
  /-- Letters and digits are those of ASCII. -/
  ascii : Bool := false
  /-- Letters and digits are those of all scripts. -/
  unicode : Bool := false
  /-- The pattern has no repetitions. -/
  template : Bool := false
  deriving DecidableEq

namespace Options

/-- The options of either set. -/
def union (options others : Options) : Options where
  ignoreCase := options.ignoreCase || others.ignoreCase
  multiline := options.multiline || others.multiline
  dotAll := options.dotAll || others.dotAll
  verbose := options.verbose || others.verbose
  ascii := options.ascii || others.ascii
  unicode := options.unicode || others.unicode
  template := options.template || others.template

/-- The options of the first set that are not in the second. -/
def minus (options others : Options) : Options where
  ignoreCase := options.ignoreCase && !others.ignoreCase
  multiline := options.multiline && !others.multiline
  dotAll := options.dotAll && !others.dotAll
  verbose := options.verbose && !others.verbose
  ascii := options.ascii && !others.ascii
  unicode := options.unicode && !others.unicode
  template := options.template && !others.template

/-- The options common to both sets. -/
def common (options others : Options) : Options := options.minus (options.minus others)

/-- Whether the set chooses which letters there are. -/
def choosesScript (options : Options) : Bool := options.ascii || options.unicode

/-- The options inside a group that adds some and drops others. A choice of letters
replaces the choice outside. -/
def inside (options added dropped : Options) : Options :=
  let options :=
    if added.choosesScript then { options with ascii := false, unicode := false } else options
  (options.union added).minus dropped

end Options

/-! ### Items -/

/-- A kind of character. -/
inductive Category
  | digit
  | space
  | word
  deriving DecidableEq

/-- What a set of characters is made of. Characters are given by their code points. -/
inductive Member
  | literal (code : Nat)
  | range (low high : Nat)
  | category (kind : Category) (negated : Bool)
  deriving DecidableEq

/-- A test of a position. -/
inductive Anchor
  | lineStart
  | lineEnd
  | textStart
  | textEnd
  | boundary
  | notBoundary
  deriving DecidableEq

/-- How a repetition chooses its number of rounds. -/
inductive Greed
  /-- As many as possible first. -/
  | greedy
  /-- As few as possible first. -/
  | reluctant
  /-- As many as possible, and no other number after that. -/
  | possessive
  deriving DecidableEq

/-- What a pattern is made of. -/
inductive Item
  | literal (code : Nat)
  | notLiteral (code : Nat)
  | set (negated : Bool) (members : List Member)
  | any
  | anchor (anchor : Anchor)
  /-- A group, with its number if what it matches is kept. -/
  | group (number : Option Nat) (added dropped : Options) (body : List Item)
  /-- What a group has matched. -/
  | reference (number : Nat)
  /-- One of two patterns, by whether a group has matched. -/
  | condition (number : Nat) (yes : List Item) (no : List Item)
  /-- A test of what follows. -/
  | ahead (positive : Bool) (body : List Item)
  /-- A test of what stands before. -/
  | behind (positive : Bool) (body : List Item)
  /-- The first way of matching, and no other after that. -/
  | atomic (body : List Item)
  | repetition (greed : Greed) (least : Nat) (most : Option Nat) (body : List Item)
  /-- The first of the patterns that leads to a match. -/
  | branch (alternatives : List (List Item))

namespace Item

/-- Whether two items are the same and match in one way at most. -/
def sameUnit : Item → Item → Bool
  | literal code, literal other => code = other
  | notLiteral code, notLiteral other => code = other
  | set negated members, set inverted others => negated = inverted && members = others
  | any, any => true
  | anchor test, anchor other => test = other
  | reference number, reference other => number = other
  | _, _ => false

/-- Whether an item tests a position. -/
def isAnchor : Item → Bool
  | anchor _ => true
  | _ => false

/-- Whether an item is a repetition. -/
def isRepetition : Item → Bool
  | repetition _ _ _ _ => true
  | _ => false

/-- The body of a group that only holds its items together. -/
def plainBody? : Item → Option (List Item)
  | group none added dropped body =>
    if added = {} && dropped = {} then some body else none
  | _ => none

end Item

/-! ### Widths -/

/-- The least and the greatest number of characters that something matches. -/
structure Width where
  least : Nat
  most : Nat
  deriving DecidableEq

namespace Width

/-- Greater widths are not told apart. -/
def limit : Nat := Nat.pow 2 64

def zero : Width := ⟨0, 0⟩

def one : Width := ⟨1, 1⟩

/-- One thing after the other. -/
def add (width other : Width) : Width := ⟨width.least + other.least, width.most + other.most⟩

/-- One thing or the other. -/
def either (width other : Width) : Width :=
  ⟨min width.least other.least, max width.most other.most⟩

/-- A width cut off at the limit. -/
def clamp (width : Width) : Width := ⟨min width.least limit, min width.most limit⟩

/-- Something repeated. -/
def times (width : Width) (least : Nat) (most : Option Nat) : Width where
  least := width.least * least
  most :=
    match most with
    | some most => width.most * most
    | none => if width.most = 0 then 0 else limit

end Width

mutual

/-- The width of an item, given the widths of the groups that it may refer to. -/
def Item.width (groups : List (Option Width)) : Item → Width
  | .literal _ | .notLiteral _ | .set _ _ | .any => .one
  | .anchor _ | .ahead _ _ | .behind _ _ => .zero
  | .group _ _ _ body | .atomic body => widthOf groups body
  | .reference number => ((groups[number]?).getD none).getD .zero
  | .condition _ yes no => (widthOf groups yes).either (widthOf groups no)
  | .repetition _ least most body => (widthOf groups body).times least most
  | .branch alternatives => widthOfBranch groups alternatives

/-- The width of a sequence. -/
def widthOf (groups : List (Option Width)) : List Item → Width
  | [] => .zero
  | item :: rest => ((item.width groups).add (widthOf groups rest)).clamp

/-- The width of a choice. -/
def widthOfBranch (groups : List (Option Width)) : List (List Item) → Width
  | [] => ⟨Width.limit, 0⟩
  | items :: rest => (widthOf groups items).either (widthOfBranch groups rest)

end

end MiniShell.Pattern
