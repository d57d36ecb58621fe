/-
This file reads patterns. A text is a choice of sequences of items, and groups hold choices
again. Every call of the reader is allowed a number of steps; twice the number of characters
is enough, because only a call that has taken a sign leads to more than one other call.
-/

import MiniShell.Pattern.Opening

namespace MiniShell.Pattern

/-! ### Choices -/

/-- Takes the items that a sequence has in common with all others at their beginnings. The
result holds the common items and what is left of each. -/
def takeCommon : List Item → List (List Item) → List Item × List (List Item)
  | [], others => ([], [] :: others)
  | item :: rest, others =>
    if others.all fun other => (other.head?.map item.sameUnit).getD false then
      let (common, left) := takeCommon rest (others.map List.tail)
      (item :: common, left)
    else ([], (item :: rest) :: others)

/-- The members of a sequence that is a single character or a set that is not negated. -/
def membersOf? : List Item → Option (List Member)
  | [.literal code] => some [.literal code]
  | [.set false members] => some members
  | _ => none

/-- The choice between sequences. What they have in common comes first, and a choice of
single characters is a set. -/
def choice : List (List Item) → List Item
  | [] => []
  | [items] => items
  | items :: others =>
    let (common, left) := takeCommon items others
    match left.mapM membersOf? with
    | some members => common ++ [.set false (distinct members.flatten)]
    | none => common ++ [.branch left]

/-- The items without the groups that only hold items together. -/
def unpack (items : List Item) : List Item :=
  items.flatMap fun item => item.plainBody?.getD [item]

/-! ### Sequences -/

namespace Reader

/-- Reads how a repetition chooses its number of rounds. -/
def greed : Reader Greed := do
  if ← accept '?' then return .reluctant
  if ← accept '+' then return .possessive
  return .greedy

/-- Repeats the last of the items. `start` is the position behind the sign that asks for it. -/
def repeatLast (start : Nat) (least : Nat) (most : Option Nat) (items : List Item) :
    Reader (List Item) := do
  match items.getLast? with
  | none => failAt (start - 1) "nothing to repeat"
  | some item =>
    if item.isAnchor then failAt (start - 1) "nothing to repeat"
    else if item.isRepetition then failAt (start - 1) "multiple repeat"
    else
      let greed ← greed
      return items.dropLast ++ [.repetition greed least most (item.plainBody?.getD [item])]

/-- Gives a new group its number. -/
def openGroup (name : Option Text) : Reader Nat := do
  let number := (← get).groups.length
  modify fun cursor => { cursor with groups := cursor.groups ++ [none] }
  match name with
  | none => return number
  | some name =>
    match ← groupNamed? name with
    | some other =>
      failBefore (name.length + 1)
        ("redefinition of group name ".toList ++ Text.quoted name ++ " as group ".toList ++
          Text.ofNat number ++ "; was group ".toList ++ Text.ofNat other)
    | none =>
      modify fun cursor => { cursor with names := cursor.names ++ [(name, number)] }
      return number

/-- Notes the width of a group that has been read. -/
def closeGroup (number : Nat) (body : List Item) : Reader Unit :=
  modify fun cursor =>
    { cursor with groups := cursor.groups.set number (some (widthOf cursor.groups body)) }

/-- Takes the parenthesis that closes a group opened at a position. -/
def close (opened : Nat) : Reader Unit := do
  if ← accept ')' then return ()
  else failAt opened "missing ), unterminated subpattern"

/-- Runs a reader inside a test of what stands before. -/
def inBehind (reader : Reader α) : Reader α := do
  let outer := (← get).behind
  modify fun cursor => { cursor with behind := some (outer.getD cursor.groups.length) }
  let result ← reader
  modify fun cursor => { cursor with behind := outer }
  return result

/-- Adds options to the whole pattern, which is possible only at its start. -/
def addOptions (opened : Nat) (atStart : Bool) (added : Options) : Reader Unit := do
  modify fun cursor => { cursor with options := cursor.options.union added }
  if atStart then return ()
  else failAt opened "global flags not at the start of the expression"

mutual

/-- Reads a choice after the sequences found. The options of the whole pattern can only stand
in the first sequence at the top. -/
def alternatives : Nat → Bool → Bool → List (List Item) → Reader (List Item)
  | 0, _, _, found => return choice found
  | steps + 1, verbose, top, found => do
    let items ← sequence steps verbose (top && found.isEmpty) []
    if ← accept '|' then
      let options := (← get).options
      alternatives steps (if top then options.verbose else verbose) top (found ++ [items])
    else return choice (found ++ [items])

/-- Reads a sequence after the items found. -/
def sequence : Nat → Bool → Bool → List Item → Reader (List Item)
  | 0, _, _, items => return unpack items
  | steps + 1, verbose, first, items => do
    match ← peek with
    | some ['\\', character] =>
      let _ ← take
      let item ← escape character
      sequence steps verbose first (items ++ [item])
    | some [character] =>
      if character = '|' || character = ')' then return unpack items
      else
        let _ ← take
        if verbose && isBlankSign character then sequence steps verbose first items
        else if verbose && character = '#' then
          skipUntil '\n' ((← get).rest.length + 2)
          sequence steps verbose first items
        else
          match character with
          | '[' =>
            let item ← characterSet
            sequence steps verbose first (items ++ [item])
          | '.' => sequence steps verbose first (items ++ [.any])
          | '^' => sequence steps verbose first (items ++ [.anchor .lineStart])
          | '$' => sequence steps verbose first (items ++ [.anchor .lineEnd])
          | '*' | '+' | '?' | '{' =>
            let start ← position
            match ← bounds character with
            | none => sequence steps verbose first (items ++ [.literal character.toNat])
            | some (least, most) =>
              let items ← repeatLast start least most items
              sequence steps verbose first items
          | '(' =>
            let opened := (← position) - 1
            match ← opening with
            | .comment => sequence steps verbose first items
            | .reference number => sequence steps verbose first (items ++ [.reference number])
            | .options added =>
              addOptions opened (first && items.isEmpty) added
              sequence steps (← get).options.verbose first items
            | .kept name =>
              let number ← openGroup name
              let body ← alternatives steps verbose false []
              close opened
              closeGroup number body
              sequence steps verbose first (items ++ [.group (some number) {} {} body])
            | .plain added dropped =>
              let inner := (verbose || added.verbose) && !dropped.verbose
              let body ← alternatives steps inner false []
              close opened
              sequence steps verbose first (items ++ [.group none added dropped body])
            | .atomic =>
              let body ← alternatives steps verbose false []
              close opened
              sequence steps verbose first (items ++ [.atomic body])
            | .ahead positive =>
              let body ← alternatives steps verbose false []
              close opened
              sequence steps verbose first (items ++ [.ahead positive body])
            | .behind positive =>
              let body ← inBehind (alternatives steps verbose false [])
              close opened
              sequence steps verbose first (items ++ [.behind positive body])
            | .condition number =>
              let yes ← sequence steps verbose false []
              let no ← if ← accept '|' then sequence steps verbose false [] else pure []
              if ← sees '|' then fail "conditional backref with more than two branches"
              else
                close opened
                sequence steps verbose first (items ++ [.condition number yes no])
          | _ => sequence steps verbose first (items ++ [.literal character.toNat])
    | _ => return unpack items

end

end Reader

/-! ### Checks -/

/-- The name under which a repetition is refused where there may be none. -/
def Greed.operator : Greed → Text
  | .greedy => "MAX_REPEAT"
  | .reluctant => "MIN_REPEAT"
  | .possessive => "POSSESSIVE_REPEAT"

/-- The greatest number of characters that a test can look back. -/
def longestBehind : Nat := 4294967295

mutual

/-- What is wrong with an item although it could be read. -/
def Item.refusal? (groups : List (Option Width)) (template : Bool) : Item → Option Text
  | .repetition greed _ _ body =>
    if template then some ("internal: unsupported template operator ".toList ++ greed.operator)
    else refusalIn? groups template body
  | .group _ _ _ body | .atomic body | .ahead _ body => refusalIn? groups template body
  | .behind _ body =>
    let width := widthOf groups body
    if longestBehind < width.least then some "looks too much behind".toList
    else if width.least ≠ width.most then
      some "look-behind requires fixed-width pattern".toList
    else refusalIn? groups template body
  | .condition _ yes no =>
    match refusalIn? groups template yes with
    | some reason => some reason
    | none => refusalIn? groups template no
  | .branch alternatives => refusalInBranch? groups template alternatives
  | _ => none

/-- What is wrong with a sequence. -/
def refusalIn? (groups : List (Option Width)) (template : Bool) : List Item → Option Text
  | [] => none
  | item :: rest =>
    match item.refusal? groups template with
    | some reason => some reason
    | none => refusalIn? groups template rest

/-- What is wrong with a choice. -/
def refusalInBranch? (groups : List (Option Width)) (template : Bool) :
    List (List Item) → Option Text
  | [] => none
  | items :: rest =>
    match refusalIn? groups template items with
    | some reason => some reason
    | none => refusalInBranch? groups template rest

end

/-! ### Expressions -/

/-- A pattern that has been read. -/
structure Expression where
  items : List Item
  options : Options
  /-- The number of groups that are kept. -/
  groups : Nat
  /-- The numbers of the named groups. -/
  names : List (Text × Nat)
  /-- The widths of the groups. -/
  widths : List (Option Width)

/-- Reads a whole pattern. -/
def Reader.expression : Reader Expression := do
  let items ← alternatives (2 * (← get).text.length + 8) false true []
  let cursor ← get
  if cursor.options.ascii && cursor.options.unicode then throw .scripts
  else if cursor.next.isSome then fail "unbalanced parenthesis"
  else
    match cursor.conditions.find? fun entry => cursor.groups.length ≤ entry.1 with
    | some (number, place) =>
      failAt place ("invalid group reference ".toList ++ Text.ofNat number)
    | none =>
      match refusalIn? cursor.groups cursor.options.template items with
      | some reason => throw (.malformed reason none cursor.text)
      | none =>
        return {
          items
          options := cursor.options
          groups := cursor.groups.length - 1
          names := cursor.names
          widths := cursor.groups }

/-- The pattern that a text stands for. -/
def Expression.ofText (text : Text) : Except Flaw Expression := do
  let cursor ← Cursor.ofText text
  let (expression, _) ← Reader.expression.run cursor
  return expression

end MiniShell.Pattern
