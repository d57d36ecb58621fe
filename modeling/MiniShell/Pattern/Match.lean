/-
This file matches patterns against texts. Every item is tried together with what is to be
matched after it, and the first way that leads to a match is taken, so the order in which
alternatives are tried decides what is found. Groups remember where they began and ended.
-/

import MiniShell.Pattern.Character
import MiniShell.Pattern.Expression

namespace MiniShell.Pattern

/-! ### Spots -/

/-- Where a group began last and where it ended last. -/
structure Capture where
  start : Option Nat := none
  stop : Option Nat := none
  deriving DecidableEq

/-- A position in a text, with what the groups have matched on the way to it. -/
structure Spot where
  /-- The characters before the position, the nearest first. -/
  before : List Char
  /-- The characters behind the position. -/
  after : Text
  /-- The number of characters before the position. -/
  offset : Nat
  /-- What the groups have matched, from group one on. -/
  captures : List Capture

namespace Spot

/-- The start of a text. -/
def start (groups : Nat) (text : Text) : Spot :=
  ⟨[], text, 0, List.replicate groups {}⟩

/-- The spot behind the next character. -/
def forward (spot : Spot) : Spot :=
  match spot.after with
  | [] => spot
  | character :: rest =>
    { spot with before := character :: spot.before, after := rest, offset := spot.offset + 1 }

/-- The spot a number of characters before, if there are so many. -/
def back? : Nat → Spot → Option Spot
  | 0, spot => some spot
  | number + 1, spot =>
    match spot.before with
    | [] => none
    | character :: rest =>
      back? number
        { spot with before := rest, after := character :: spot.after, offset := spot.offset - 1 }

/-- The spot without memory of groups. -/
def forget (spot : Spot) : Spot :=
  { spot with captures := spot.captures.map fun _ => {} }

/-- The whole text. -/
def text (spot : Spot) : Text := spot.before.reverse ++ spot.after

/-- Lets a group begin here. -/
def openGroup (number : Nat) (spot : Spot) : Spot :=
  { spot with
    captures := spot.captures.modify (number - 1) fun capture =>
      { capture with start := some spot.offset } }

/-- Lets a group end here. -/
def closeGroup (number : Nat) (spot : Spot) : Spot :=
  { spot with
    captures := spot.captures.modify (number - 1) fun capture =>
      { capture with stop := some spot.offset } }

/-- What a group has matched. -/
def captured? (number : Nat) (spot : Spot) : Option Text :=
  match spot.captures[number - 1]? with
  | some ⟨some start, some stop⟩ =>
    if start ≤ stop then some ((spot.text.drop start).take (stop - start)) else none
  | _ => none

/-- Whether there is a word character before the spot. -/
def wordBefore (ascii : Bool) (spot : Spot) : Bool :=
  (spot.before.head?.map fun character => Category.word.holds ascii character.toNat).getD false

/-- Whether there is a word character behind the spot. -/
def wordAfter (ascii : Bool) (spot : Spot) : Bool :=
  (spot.after.head?.map fun character => Category.word.holds ascii character.toNat).getD false

end Spot

/-- Whether a position passes a test. In an empty text, no position is a boundary and none is
not. -/
def Anchor.holds (options : Options) (spot : Spot) : Anchor → Bool
  | textStart => spot.before.isEmpty
  | textEnd => spot.after.isEmpty
  | lineStart =>
    spot.before.isEmpty || options.multiline && spot.before.head? = some '\n'
  | lineEnd =>
    spot.after.isEmpty || spot.after = ['\n'] ||
      options.multiline && spot.after.head? = some '\n'
  | boundary =>
    !(spot.before.isEmpty && spot.after.isEmpty) &&
      spot.wordBefore options.ascii != spot.wordAfter options.ascii
  | notBoundary =>
    !(spot.before.isEmpty && spot.after.isEmpty) &&
      spot.wordBefore options.ascii == spot.wordAfter options.ascii

/-! ### Ways on -/

/-- What is to be matched next: it gives the last spot of a match. -/
abbrev Onward := Spot → Option Spot

/-- Something that is matched before what is to be matched next. -/
abbrev Matcher := Onward → Spot → Option Spot

/-- Matches a character that passes a test. -/
def matchCharacter (test : Nat → Bool) : Matcher := fun onward spot =>
  match spot.after with
  | [] => none
  | character :: _ => if test character.toNat then onward spot.forward else none

/-- Matches a text once more. -/
def matchText (options : Options) : Text → Matcher
  | [], onward, spot => onward spot
  | character :: rest, onward, spot =>
    matchCharacter (sameCharacter options character.toNat) (matchText options rest onward) spot

/-! ### Repetitions -/

/-- Whether one more round is allowed after a number of rounds. A round that began at the same
offset as the one before it is not. -/
def mayRepeat (most : Option Nat) (count : Nat) (last : Option Nat) (spot : Spot) : Bool :=
  (most.map fun most => decide (count < most)).getD true && last != some spot.offset

/-- Repeats as often as possible first. Only rounds beyond the least number remember where
they began. -/
def repeatGreedy (body : Matcher) (least : Nat) (most : Option Nat) (onward : Onward) :
    Nat → Nat → Option Nat → Onward
  | 0, _, _, spot => onward spot
  | rounds + 1, count, last, spot =>
    if count < least then
      body (repeatGreedy body least most onward rounds (count + 1) last) spot
    else if mayRepeat most count last spot then
      match body
          (repeatGreedy body least most onward rounds (count + 1) (some spot.offset)) spot with
      | some found => some found
      | none => onward spot
    else onward spot

/-- Repeats as seldom as possible first. -/
def repeatReluctant (body : Matcher) (least : Nat) (most : Option Nat) (onward : Onward) :
    Nat → Nat → Option Nat → Onward
  | 0, _, _, spot => onward spot
  | rounds + 1, count, last, spot =>
    if count < least then
      body (repeatReluctant body least most onward rounds (count + 1) last) spot
    else
      match onward spot with
      | some found => some found
      | none =>
        if mayRepeat most count last spot then
          body (repeatReluctant body least most onward rounds (count + 1) (some spot.offset)) spot
        else none

/-- Repeats as often as possible, each round in the first way it finds. -/
def repeatPossessive (body : Matcher) (least : Nat) (most : Option Nat) (onward : Onward) :
    Nat → Nat → Option Nat → Onward
  | 0, _, _, spot => onward spot
  | rounds + 1, count, last, spot =>
    if count < least then
      match body some spot with
      | none => none
      | some next => repeatPossessive body least most onward rounds (count + 1) last next
    else if mayRepeat most count last spot then
      match body some spot with
      | none => onward spot
      | some next =>
        repeatPossessive body least most onward rounds (count + 1) (some spot.offset) next
    else onward spot

/-- Repeats a matcher. A round beyond the least number takes a character or is the last. -/
def matchRepeated (greed : Greed) (body : Matcher) (least : Nat) (most : Option Nat) : Matcher :=
  fun onward spot =>
    let rounds := least + spot.after.length + 2
    match greed with
    | .greedy => repeatGreedy body least most onward rounds 0 none spot
    | .reluctant => repeatReluctant body least most onward rounds 0 none spot
    | .possessive => repeatPossessive body least most onward rounds 0 none spot

/-! ### Items -/

mutual

/-- Matches an item. -/
def matchItem (widths : List (Option Width)) : Item → Options → Matcher
  | .literal code, options, onward, spot =>
    matchCharacter (literalHolds options code) onward spot
  | .notLiteral code, options, onward, spot =>
    matchCharacter (fun other => !literalHolds options code other) onward spot
  | .set negated members, options, onward, spot =>
    matchCharacter (setHolds options negated members) onward spot
  | .any, options, onward, spot =>
    matchCharacter (fun code => options.dotAll || code != 0x0A) onward spot
  | .anchor anchor, options, onward, spot =>
    if anchor.holds options spot then onward spot else none
  | .group none added dropped body, options, onward, spot =>
    matchItems widths body (options.inside added dropped) onward spot
  | .group (some number) added dropped body, options, onward, spot =>
    matchItems widths body (options.inside added dropped)
      (fun next => onward (next.closeGroup number)) (spot.openGroup number)
  | .reference number, options, onward, spot =>
    match spot.captured? number with
    | none => none
    | some text => matchText options text onward spot
  | .condition number yes no, options, onward, spot =>
    if (spot.captured? number).isSome then matchItems widths yes options onward spot
    else matchItems widths no options onward spot
  | .ahead positive body, options, onward, spot =>
    match matchItems widths body options some spot with
    | some found => if positive then onward { spot with captures := found.captures } else none
    | none => if positive then none else onward spot
  | .behind positive body, options, onward, spot =>
    match spot.back? (widthOf widths body).least with
    | none => if positive then none else onward spot
    | some start =>
      match matchItems widths body options some start with
      | some found => if positive then onward { spot with captures := found.captures } else none
      | none => if positive then none else onward spot
  | .atomic body, options, onward, spot =>
    match matchItems widths body options some spot with
    | some found => onward found
    | none => none
  | .repetition greed least most body, options, onward, spot =>
    matchRepeated greed (fun further next => matchItems widths body options further next)
      least most onward spot
  | .branch alternatives, options, onward, spot =>
    matchBranch widths alternatives options onward spot

/-- Matches a sequence. -/
def matchItems (widths : List (Option Width)) : List Item → Options → Matcher
  | [], _, onward, spot => onward spot
  | item :: rest, options, onward, spot =>
    matchItem widths item options (fun next => matchItems widths rest options onward next) spot

/-- Matches the first alternative that leads to a match. -/
def matchBranch (widths : List (Option Width)) : List (List Item) → Options → Matcher
  | [], _, _, _ => none
  | items :: rest, options, onward, spot =>
    match matchItems widths items options onward spot with
    | some found => some found
    | none => matchBranch widths rest options onward spot

end

namespace Expression

/-- The end of a match that begins at a spot. It may be required not to be empty. -/
def matchAt (expression : Expression) (advances : Bool) (spot : Spot) : Option Spot :=
  matchItems expression.widths expression.items expression.options
    (fun found => if advances && found.offset = spot.offset then none else some found) spot

/-- Whether a text begins with a match. -/
def matchesStart (expression : Expression) (text : Text) : Bool :=
  (expression.matchAt false (Spot.start expression.groups text)).isSome

/-- The first match that begins at a spot or later: its first and its last spot. The characters
behind the spot are given once more, to go through them. -/
def searchFrom (expression : Expression) : Text → Bool → Spot → Option (Spot × Spot)
  | [], advances, spot => (expression.matchAt advances spot).map fun found => (spot, found)
  | _ :: rest, advances, spot =>
    match expression.matchAt advances spot with
    | some found => some (spot, found)
    | none => expression.searchFrom rest false spot.forward

/-- The first match that begins at a spot or later. A match that begins at the spot itself may
be required not to be empty. -/
def search (expression : Expression) (advances : Bool) (spot : Spot) : Option (Spot × Spot) :=
  expression.searchFrom spot.after advances spot

end Expression

end MiniShell.Pattern
