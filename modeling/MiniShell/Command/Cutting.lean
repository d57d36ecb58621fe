/-
This file defines the command that cuts ranges of characters out of lines. A list of ranges
is put in order and ranges that overlap are joined, so that every character is shown once.
-/

import MiniShell.Command.Reading

namespace MiniShell.Command

/-- A range of positions as it is written: its ends are numerals, or empty where the range is
open. -/
structure Range where
  first : Text
  last : Text
  deriving DecidableEq

/-- The parts of a range as they are written. A single position begins and ends its range, and
a missing beginning is the first position. -/
def rangeParts (item : Text) : List Text :=
  match Text.splitAt (fun character => character = '-') item with
  | [single] => [single, single]
  | [] :: rest => ['1'] :: rest
  | parts => parts

/-- The number of a numeral, or the fault of a text that is none. -/
def numberOf (text : Text) : Except Fault Int :=
  match Text.toInt text with
  | .ok number => .ok number
  | .error cause => .error (.numeral cause)

/-- The parts of the ranges with the numbers of their beginnings. -/
def withBeginnings (items : List (List Text)) : Except Fault (List (Int × List Text)) :=
  items.mapM fun parts => do
    return (← numberOf (parts.headD []), parts)

/-- The ranges with two ends each. -/
def twoEnds : List Text → Except Fault Range
  | [first, last] => .ok ⟨first, last⟩
  | _ => .error .tooManyEnds

/-- How the ranges that are left are joined to the one at hand. -/
inductive Joining
  /-- All ranges have been joined, and the one at hand is still to be added. -/
  | closed (joined : List Range) (current : Range)
  /-- The last range is open and has been added. -/
  | opened (joined : List Range)

/-- Joins ranges in the order of their beginnings. `current` is the range at hand, and `joined`
holds those before it. -/
def joinRanges (joined : List Range) (current : Range) :
    List (List Text) → Except Fault Joining
  | [] => .ok (.closed joined current)
  | parts :: rest => do
    let first := parts.headD []
    let last := (parts.drop 1).headD []
    let beginning ← numberOf first
    let ending ← numberOf current.last
    if last = [] then
      if beginning ≤ ending then return .opened (joined ++ [⟨current.first, []⟩])
      else
        let next ← twoEnds parts
        return .closed (joined ++ [current]) next
    else if beginning ≤ ending then
      if (← numberOf last) > ending then
        joinRanges joined { current with last } rest
      else joinRanges joined current rest
    else
      let next ← twoEnds parts
      joinRanges (joined ++ [current]) next rest

/-- The ranges that a list of ranges stands for. The first one that is joined is the empty one
before the first position, and is dropped. -/
def ranges (list : Text) : Except Fault (List Range) := do
  let items := (Text.splitAt (fun character => character = ',') list).map rangeParts
  let beginnings ← withBeginnings items
  let ordered := beginnings.mergeSort fun first second => first.1 ≤ second.1
  match ← joinRanges [] ⟨['0'], ['0']⟩ (ordered.map Prod.snd) with
  | .opened joined => return joined.tail
  | .closed joined current =>
    if joined = [] then .error .listIndex else return (joined ++ [current]).tail

/-- A position that counts from the beginning, or from the end where it is negative. -/
def offsetIn (text : Text) (position : Int) : Nat :=
  if position < 0 then (position + text.length).toNat else position.toNat

/-- The characters of a line in a range. -/
def slice (line : Text) (range : Range) : Except Fault Text := do
  let first ← if range.first = [] then pure 1 else numberOf range.first
  let last ← if range.last = [] then pure (line.length : Int) else numberOf range.last
  return (line.take (offsetIn line last)).drop (offsetIn line (first - 1))

/-- The characters of a line in some ranges, on a line of their own. White space at both ends
of the line does not count. -/
def cutLine (ranges : List Range) (line : Text) : Except Fault Text := do
  let slices ← ranges.mapM (slice (Text.strip line))
  return slices.flatten ++ ['\n']

/-- Gives a result, or ends in its fault. -/
def orThrow : Except Fault α → Action α
  | .ok result => pure result
  | .error fault => throw fault

/-- Cuts ranges of characters out of lines. -/
def cut (arguments : List Text) : Action Unit := do
  let usage : Text := " [cut -b <byte_range> <file>?]"
  if arguments = [] || arguments.length > 3 then
    throw (.wrongCount (List.replicate 16 ' ' ++ usage))
  else if arguments.head? ≠ some "-b".toList then
    throw (.wrongFlags ("Wrong flag".toList ++ usage))
  else
    match arguments.tail with
    | [] => throw .listIndex
    | list :: files =>
      let lines ←
        match files with
        | [] => Action.someInputLines
        | file :: _ => fileLines file
      let ranges ← orThrow (ranges list)
      lines.forM fun line => do
        Action.emit [← orThrow (cutLine ranges line)]

end MiniShell.Command
