/-
This file decides between the alternatives of the rules by looking at the tokens
ahead. A call is recognised by a small automaton that runs over their kinds. Where
the first calls leave two alternatives open, the rest of the line decides: outside
of every pipe a bar must stand between calls, while inside a pipe it may stand
between any two commands, empty ones included.

Every forecast also tells how many tokens were looked at, because text that no
token allows is reported when the token after it is first looked at.
-/

import MiniShell.Grammar.Place

namespace MiniShell

/-! ### The shape of a call -/

/-- How much of a call has been seen. -/
inductive CallPart
  /-- Nothing yet. -/
  | start
  /-- A blank before the first word; a word or a redirection must follow. -/
  | lead
  /-- The operator of a redirection before the first word. -/
  | leadOperator
  /-- That operator and a blank. -/
  | leadOperatorBlank
  /-- That redirection with a file name that may go on. -/
  | leadTarget
  /-- At least one word, possibly still going on. -/
  | words
  /-- At least one word and a blank. -/
  | wordsBlank
  /-- The operator of a redirection after the first word. -/
  | operator
  /-- That operator and a blank. -/
  | operatorBlank
  deriving DecidableEq

namespace CallPart

/-- The part of a call that is seen with one more token, if it can belong to the call. -/
def step : CallPart → Kind → Option CallPart
  | start, kind =>
    if kind = .blank then some lead
    else if kind.isRedirection then some leadOperator
    else if kind.isPiece then some words
    else none
  | lead, kind =>
    if kind.isRedirection then some leadOperator
    else if kind.isPiece then some words
    else none
  | leadOperator, kind =>
    if kind = .blank then some leadOperatorBlank
    else if kind.isPiece then some leadTarget
    else none
  | leadOperatorBlank, kind => if kind.isPiece then some leadTarget else none
  | leadTarget, kind =>
    if kind = .blank then some lead
    else if kind.isPiece then some leadTarget
    else none
  | words, kind =>
    if kind = .blank then some wordsBlank
    else if kind.isRedirection then some operator
    else if kind.isPiece then some words
    else none
  | wordsBlank, kind =>
    if kind.isRedirection then some operator
    else if kind.isPiece then some words
    else none
  | operator, kind =>
    if kind = .blank then some operatorBlank
    else if kind.isPiece then some words
    else none
  | operatorBlank, kind => if kind.isPiece then some words else none

/-- Whether what has been seen is a whole call. -/
def isWhole : CallPart → Bool
  | words | wordsBlank => true
  | _ => false

/-- Whether the first word of the call has been seen. A redirection after it may still lack
its file. -/
def hasWord : CallPart → Bool
  | words | wordsBlank | operator | operatorBlank => true
  | _ => false

/-- Runs over the kinds as long as they belong to the call. The result is what has
been seen, how many tokens that took, and the kinds that are left. -/
def run (part : CallPart) : List Kind → CallPart × Nat × List Kind
  | [] => (part, 0, [])
  | kind :: rest =>
    match part.step kind with
    | none => (part, 0, kind :: rest)
    | some next =>
      let (last, count, left) := next.run rest
      (last, count + 1, left)

end CallPart

/-! ### The rest of the line -/

/-- How many tokens of the rest of a line are looked at where commands may be empty
and separated in any way. The look ahead stops at a token that breaks off a call or
at the end of the line; that token, or the end, is counted. -/
def lookInside : CallPart → List Kind → Nat
  | _, [] => 1
  | part, kind :: rest =>
    match part.step kind with
    | some next => lookInside next rest + 1
    | none =>
      if kind.isSeparator && (part == .start || part.isWhole) then lookInside .start rest + 1
      else 1

/-- Looks at the rest of a line outside of every pipe: whether it can be read on
that assumption up to a token that breaks off a call or the end of the line, and how
many tokens are looked at. `barSeen` says whether the call before the current one
belongs to the same pipe. Such a call must have come to its first word where the look
ahead stops. After a second bar the line goes on inside a pipe. -/
def lookOutside (barSeen : Bool) : CallPart → List Kind → Bool × Nat
  | part, [] => (!barSeen || part.hasWord, 1)
  | part, kind :: rest =>
    match part.step kind with
    | some next =>
      let (fits, count) := lookOutside barSeen next rest
      (fits, count + 1)
    | none =>
      if part.isWhole || part == .start && !barSeen then
        if kind = .semicolon then
          let (fits, count) := lookOutside false .start rest
          (fits, count + 1)
        else if kind = .bar then
          if part == .start then (false, 1)
          else if barSeen then (true, lookInside .start rest + 1)
          else
            let (fits, count) := lookOutside true .start rest
            (fits, count + 1)
        else (true, 1)
      else (!barSeen || part.hasWord, 1)

/-! ### Forecasts -/

/-- The alternative that the tokens ahead call for, if there is one, and how many of
them were looked at to find it. When there is none, the last token looked at is the
one that ruled out every alternative. -/
structure Forecast (Choice : Type) where
  choice : Option Choice
  looked : Nat

/-- The alternatives of a command. -/
inductive CommandChoice
  | pipe
  | call
  | empty

/-- A command is a pipe when two whole calls with a bar between them lie ahead, and a
call when one does. `inPipe` says whether the command stands inside a pipe. -/
def forecastCommand (inPipe : Bool) (ahead : List Kind) : Forecast CommandChoice :=
  match ahead with
  | [] | .semicolon :: _ | .bar :: _ => ⟨some .empty, 1⟩
  | _ =>
    let (first, firstCount, rest) := CallPart.start.run ahead
    if first.isWhole then
      match rest with
      | .bar :: rest =>
        let (second, secondCount, rest) := CallPart.start.run rest
        let looked := firstCount + 1 + secondCount + 1
        if second.isWhole then
          match rest with
          | .bar :: rest =>
            ⟨some .pipe, if inPipe then looked + lookInside .start rest else looked⟩
          | _ => ⟨some .pipe, looked⟩
        else ⟨some .call, looked⟩
      | _ => ⟨some .call, firstCount + 1⟩
    else ⟨none, firstCount + 1⟩

/-- How a loop goes on. -/
inductive LoopChoice
  | again
  | done

/-- Whether a command stands inside a pipe, given the sites of the rules in use. -/
def insidePipe (sites : List Site) : Bool := sites.contains .nextCommand

/-- A semicolon goes to the innermost command whose precedence admits it. -/
def forecastSemicolon (precedence : Int) (sites : List Site) (ahead : List Kind) :
    Forecast LoopChoice :=
  match ahead with
  | .semicolon :: rest =>
    if precedence ≤ Operator.semicolon.rank then
      match sites with
      | .nextCommand :: .pipeOfCommand :: outer =>
        if insidePipe outer then ⟨some .again, lookInside .start rest + 1⟩
        else ⟨some .again, (lookOutside false .start rest).2 + 1⟩
      | _ => ⟨some .again, 1⟩
    else ⟨some .done, 1⟩
  | _ => ⟨some .done, 1⟩

/-- A bar goes to the innermost pipe whose precedence admits it. Above the rank of bars
before commands a pipe admits only calls after its bars, so a whole call must lie
ahead. -/
def forecastBar (precedence : Int) (sites : List Site) (ahead : List Kind) :
    Forecast LoopChoice :=
  match ahead with
  | .bar :: rest =>
    if precedence ≤ Operator.barBeforeCommand.rank then
      ⟨some .again, if insidePipe sites then lookInside .start rest + 1 else 1⟩
    else if precedence ≤ Operator.barBeforeCall.rank then
      let (part, count, _) := CallPart.start.run rest
      ⟨some (if part.isWhole then .again else .done), count + 2⟩
    else ⟨some .done, 1⟩
  | _ => ⟨some .done, 1⟩

/-- What stands after a later bar of a pipe. -/
inductive PipeChoice
  | call
  | command

/-- After a later bar of a pipe stands a call, unless the line can be read only with a
command there. -/
def forecastStage (precedence : Int) (sites : List Site) (ahead : List Kind) :
    Forecast PipeChoice :=
  match ahead with
  | .bar :: ahead =>
    match ahead with
    | [] | .semicolon :: _ | .bar :: _ => ⟨some .command, 2⟩
    | _ =>
      let (part, count, rest) := CallPart.start.run ahead
      let looked := count + 2
      if part.isWhole then
        if precedence ≤ Operator.barBeforeCommand.rank then
          match rest with
          | .semicolon :: rest =>
            if insidePipe sites then ⟨some .call, looked + lookInside .start rest⟩
            else if sites.isEmpty then ⟨some .command, looked⟩
            else
              let (fits, count) := lookOutside false .start rest
              ⟨some (if fits then .call else .command), looked + count⟩
          | .bar :: rest =>
            let (next, count, rest) := CallPart.start.run rest
            match rest with
            | .bar :: rest =>
              if next.isWhole then ⟨some .call, looked + count + 1 + lookInside .start rest⟩
              else ⟨some .call, looked + count + 1⟩
            | _ => ⟨some .call, looked + count + 1⟩
          | _ => ⟨some .call, looked⟩
        else ⟨some .call, looked⟩
      else ⟨none, looked⟩
  | _ => ⟨none, 1⟩

/-- Another atom follows when one opens here or after a blank. -/
def forecastAtom (ahead : List Kind) : Forecast LoopChoice :=
  match ahead with
  | .blank :: next :: _ => ⟨some (if atomKinds.contains next then .again else .done), 2⟩
  | .blank :: [] => ⟨some .done, 2⟩
  | kind :: _ => ⟨some (if atomKinds.contains kind then .again else .done), 1⟩
  | [] => ⟨some .done, 1⟩

/-- Whether a word belongs to the call before the first bar of a pipe and is not the
name in a redirection at its beginning, nor an atom of its own. There the end of the
word must not be followed by a semicolon. -/
def beforeFirstBar : List Site → Bool
  | .firstWord :: .firstCall :: _ => true
  | .target :: .redirectionOfAtom :: .atomOfCall :: .firstCall :: _ => true
  | _ => false

/-- A word goes on as long as pieces follow. -/
def forecastPiece (sites : List Site) (ahead : List Kind) : Forecast LoopChoice :=
  match ahead with
  | kind :: rest =>
    if kind.isPiece then
      let run := rest.takeWhile Kind.isPiece
      let looked := run.length + 2
      match rest.drop run.length with
      | .semicolon :: _ =>
        if beforeFirstBar sites then ⟨none, looked⟩ else ⟨some .again, looked⟩
      | _ => ⟨some .again, looked⟩
    else ⟨some .done, 1⟩
  | [] => ⟨some .done, 1⟩

end MiniShell
