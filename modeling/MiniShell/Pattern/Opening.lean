/-
This file reads the parts of a pattern that hold no other patterns: sets of characters,
the counts of repetitions, and what follows the opening of a group.
-/

import MiniShell.Pattern.Escape

namespace MiniShell.Pattern

/-- The members of a set, each once. -/
def distinct (members : List Member) : List Member :=
  members.foldl (fun kept member => if kept.contains member then kept else kept ++ [member]) []

/-- The item for a set. A set of one character is that character. -/
def setItem (negated : Bool) (members : List Member) : Item :=
  match distinct members with
  | [.literal code] => if negated then .notLiteral code else .literal code
  | members => .set negated members

namespace Reader

/-! ### Sets -/

/-- The member that a sign in a set stands for. -/
def setMember : Text → Reader Member
  | ['\\', character] => setEscape character
  | sign => return .literal ((sign.headD ' ').toNat)

/-- Takes a sign of the set that was opened at a position. -/
def takeInSet (opened : Nat) : Reader Text := do
  match ← take with
  | some sign => return sign
  | none => failAt opened "unterminated character set"

/-- Reads the members of a set after those found. -/
def setMembers (opened : Nat) : Nat → List Member → Reader (List Member)
  | 0, found => return found
  | steps + 1, found => do
    let sign ← takeInSet opened
    if sign = [']'] && found ≠ [] then return found
    else
      let member ← setMember sign
      if ← accept '-' then
        let last ← takeInSet opened
        if last = [']'] then return found ++ [member, .literal '-'.toNat]
        else
          let other ← setMember last
          match member, other with
          | .literal low, .literal high =>
            if high < low then badRange sign last
            else setMembers opened steps (found ++ [.range low high])
          | _, _ => badRange sign last
      else setMembers opened steps (found ++ [member])
where
  badRange (first last : Text) : Reader (List Member) :=
    failBefore (first.length + 1 + last.length)
      ("bad character range ".toList ++ first ++ '-' :: last)

/-- Reads a set whose bracket has been taken. -/
def characterSet : Reader Item := do
  let opened := (← position) - 1
  let negated ← accept '^'
  let members ← setMembers opened ((← get).rest.length + 2) []
  return setItem negated members

/-! ### Counts -/

/-- Greater counts are refused. -/
def countLimit : Nat := 4294967295

/-- The bounds of a repetition, given by the sign that was taken. There are none where a
brace does not open a count. -/
def bounds (sign : Char) : Reader (Option (Nat × Option Nat)) := do
  if sign = '?' then return some (0, some 1)
  else if sign = '*' then return some (0, none)
  else if sign = '+' then return some (1, none)
  else if ← sees '}' then return none
  else
    let start ← position
    let low ← takeAll isDigitSign
    let high ← if ← accept ',' then takeAll isDigitSign else pure low
    if ← accept '}' then
      let least ← if low = [] then pure 0 else limited low
      if high = [] then return some (least, none)
      else
        let most ← limited high
        if most < least then failAt start "min repeat greater than max repeat"
        else return some (least, some most)
    else
      goTo start
      return none
where
  limited (digits : Text) : Reader Nat := do
    let count ← readCount digits
    if countLimit ≤ count then throw .repetition else return count

/-! ### Options -/

/-- The options that a letter stands for. -/
def option? : Text → Option Options
  | ['i'] => some { ignoreCase := true }
  | ['m'] => some { multiline := true }
  | ['s'] => some { dotAll := true }
  | ['x'] => some { verbose := true }
  | ['a'] => some { ascii := true }
  | ['u'] => some { unicode := true }
  | ['t'] => some { template := true }
  | ['L'] => some {}
  | _ => none

/-- Whether a sign is a single letter. -/
def isLetterAlone : Text → Bool
  | [character] => Text.isLetter character
  | _ => false

/-- Fails at a sign that is no option. -/
def noOption (sign otherwise : Text) : Reader α :=
  failBefore sign.length (if isLetterAlone sign then "unknown flag".toList else otherwise)

/-- Reads options that are added, beginning with a sign that has been taken. The result
holds the sign that ends them. -/
def addedOptions : Nat → Text → Options → Reader (Options × Text)
  | 0, sign, added => return (added, sign)
  | steps + 1, sign, added => do
    match option? sign with
    | none => noOption sign "missing -, : or )"
    | some option =>
      if sign = ['L'] then fail "bad inline flags: cannot use 'L' flag with a str pattern"
      else
        let added := added.union option
        if option.choosesScript && added.ascii && added.unicode then
          fail "bad inline flags: flags 'a', 'u' and 'L' are incompatible"
        else
          match ← take with
          | none => fail "missing -, : or )"
          | some next =>
            if next = [')'] || next = ['-'] || next = [':'] then return (added, next)
            else addedOptions steps next added

/-- Reads options that are dropped, up to a colon. -/
def droppedOptions : Nat → Text → Options → Reader Options
  | 0, _, dropped => return dropped
  | steps + 1, sign, dropped => do
    match option? sign with
    | none => noOption sign "missing :"
    | some option =>
      if option.choosesScript || sign = ['L'] then
        fail "bad inline flags: cannot turn off flags 'a', 'u' and 'L'"
      else
        let dropped := dropped.union option
        match ← take with
        | none => fail "missing :"
        | some next =>
          if next = [':'] then return dropped else droppedOptions steps next dropped

/-- What options are for. -/
inductive OptionScope
  /-- The whole pattern. -/
  | everywhere (added : Options)
  /-- A group. -/
  | inGroup (added dropped : Options)

/-- Reads options, beginning with a sign that has been taken. -/
def groupOptions (sign : Text) : Reader OptionScope := do
  let steps := (← get).rest.length + 2
  let (added, last) ← if sign = ['-'] then pure ({}, sign) else addedOptions steps sign {}
  if last = [')'] then return .everywhere added
  else if added.template then failBefore 1 "bad inline flags: cannot turn on global flag"
  else
    let dropped ←
      if last = ['-'] then
        match ← take with
        | none => fail "missing flag"
        | some next =>
          if (option? next).isNone then noOption next "missing flag"
          else droppedOptions steps next {}
      else pure {}
    if dropped.template then failBefore 1 "bad inline flags: cannot turn off global flag"
    else if added.common dropped ≠ {} then
      failBefore 1 "bad inline flags: flag turned on and off"
    else return .inGroup added dropped

/-! ### Groups -/

/-- What a parenthesis opens. -/
inductive Opening
  /-- Nothing that matches: it has been read to its end. -/
  | comment
  /-- A reference, which has been read to its end. -/
  | reference (number : Nat)
  /-- Options for the whole pattern, which have been read to their end. -/
  | options (added : Options)
  /-- A group that is kept, perhaps under a name. -/
  | kept (name : Option Text)
  /-- A group that is not kept. -/
  | plain (added dropped : Options)
  | atomic
  | ahead (positive : Bool)
  | behind (positive : Bool)
  | condition (number : Nat)

/-- The number of a group by its name. -/
def groupNamed? (name : Text) : Reader (Option Nat) := do
  return (← get).names.lookup name

/-- The number of the group that a name stands for, where it has just been read. -/
def groupNamed (name : Text) : Reader Nat := do
  match ← groupNamed? name with
  | some number => return number
  | none => failBefore (name.length + 1) ("unknown group name ".toList ++ Text.quoted name)

/-- Fails at a name that has just been read. -/
def badName (name : Text) : Reader α :=
  failBefore (name.length + 1) ("bad character in group name ".toList ++ Text.quoted name)

/-- Reads the name of a group. -/
def groupName (terminator : Char) : Reader Text := do
  let name ← takeUntil terminator "group name"
  if Text.isIdentifier name then return name else badName name

/-- No group has this number. -/
def groupLimit : Nat := 1073741823

/-- Reads the group that a condition asks for. -/
def conditionGroup : Reader Nat := do
  let name ← takeUntil ')' "group name"
  let number ←
    if Text.isIdentifier name then groupNamed name
    else
      match Text.toInt name with
      | .error _ => badName name
      | .ok number =>
        if number < 0 then badName name
        else if number = 0 then failBefore (name.length + 1) "bad group number"
        else if groupLimit ≤ number.toNat then
          failBefore (name.length + 1)
            ("invalid group reference ".toList ++ Text.ofNat number.toNat)
        else
          let place := (← position) - name.length - 1
          modify fun cursor =>
            if (cursor.conditions.lookup number.toNat).isSome then cursor
            else { cursor with conditions := cursor.conditions ++ [(number.toNat, place)] }
          pure number.toNat
  checkBehind number
  return number

/-- Takes a sign that has to be there. -/
def takeSome : Reader Text := do
  match ← take with
  | some sign => return sign
  | none => fail "unexpected end of pattern"

/-- Skips a comment to its end, which has to be there. -/
def comment (opened : Nat) : Nat → Reader Unit
  | 0 => return ()
  | steps + 1 => do
    match ← peek with
    | none => failAt opened "missing ), unterminated comment"
    | some sign =>
      let _ ← take
      if sign = [')'] then return () else comment opened steps

/-- Reads what follows a parenthesis, up to the patterns that it holds. -/
def opening : Reader Opening := do
  let opened := (← position) - 1
  if ← accept '?' then
    match ← takeSome with
    | ['P'] =>
      if ← accept '<' then return .kept (some (← groupName '>'))
      else if ← accept '=' then
        let name ← groupName ')'
        let number ← groupNamed name
        if !(← isClosed number) then
          failBefore (name.length + 1) "cannot refer to an open group"
        else
          checkBehind number
          return .reference number
      else
        let sign ← takeSome
        failBefore (sign.length + 2) ("unknown extension ?P".toList ++ sign)
    | [':'] => return .plain {} {}
    | ['#'] =>
      comment opened ((← get).rest.length + 2)
      return .comment
    | ['='] => return .ahead true
    | ['!'] => return .ahead false
    | ['<'] =>
      match ← takeSome with
      | ['='] => return .behind true
      | ['!'] => return .behind false
      | sign => failBefore (sign.length + 2) ("unknown extension ?<".toList ++ sign)
    | ['('] => return .condition (← conditionGroup)
    | ['>'] => return .atomic
    | sign =>
      if (option? sign).isSome || sign = ['-'] then
        match ← groupOptions sign with
        | .everywhere added => return .options added
        | .inGroup added dropped => return .plain added dropped
      else failBefore (sign.length + 1) ("unknown extension ?".toList ++ sign)
  else return .kept none

end Reader

end MiniShell.Pattern
