/-
This file reads the tokens of a command line by the rules of the grammar and
builds the tree. Reading never fails: where the tokens do not fit, a report is
made, tokens are left out, made up or skipped, and reading goes on. Every token
that is passed becomes a leaf of the tree.
-/

import MiniShell.Grammar.Lookahead
import MiniShell.Grammar.Report
import MiniShell.Grammar.Tree

namespace MiniShell

/-! ### The state of reading -/

/-- The tokens still to read and what has come of the others. -/
structure Cursor where
  /-- The tokens that have not been passed. -/
  rest : List Token
  /-- Where the line ends. -/
  finish : Mark
  /-- How many tokens have been passed. -/
  passed : Nat
  /-- How many tokens have been looked at, the end of the line included. -/
  looked : Nat
  /-- The children of the node that is being built. -/
  children : List Tree
  /-- The beginnings and ends of nodes and the tokens passed, in order. -/
  log : List Tree.Event
  /-- The reports made, each with the number of tokens looked at by then. -/
  reports : List (Nat × Report)
  /-- Whether a report has been made since the last token that fitted. -/
  recovering : Bool
  /-- How many tokens had been passed at the last recovery, if none fitted since. -/
  stumbledAt : Option Nat
  /-- The places of the recoveries since the last token that fitted. -/
  stumbles : List Place

namespace Cursor

/-- The beginning of a line. -/
def start (tokens : List Token) (finish : Mark) : Cursor :=
  { rest := tokens, finish, passed := 0, looked := 1, children := [], log := [],
    reports := [], recovering := false, stumbledAt := none, stumbles := [] }

/-- The token ahead. -/
def current (cursor : Cursor) : Token :=
  match cursor.rest with
  | [] => .lineEnd cursor.finish
  | token :: _ => token

/-- The kind of the token after the one ahead. -/
def second (cursor : Cursor) : Kind :=
  match cursor.rest with
  | _ :: token :: _ => token.kind
  | _ => .lineEnd

/-- The kinds of the tokens ahead. -/
def ahead (cursor : Cursor) : List Kind := cursor.rest.map Token.kind

/-- Records that the given number of tokens ahead has been looked at. -/
def look (count : Nat) (cursor : Cursor) : Cursor :=
  { cursor with
    looked := max cursor.looked (cursor.passed + min count (cursor.rest.length + 1)) }

/-- Adds a report about a token. -/
def report (mark : Mark) (complaint : Complaint) (cursor : Cursor) : Cursor :=
  { cursor with reports := cursor.reports ++ [(cursor.looked, ⟨mark, complaint⟩)] }

/-- Adds a leaf for a token: an error leaf while recovering. -/
def addLeaf (token : Token) (cursor : Cursor) : Cursor :=
  if cursor.recovering then
    { cursor with
      children := cursor.children ++ [.error token]
      log := cursor.log ++ [.error token.text] }
  else
    { cursor with
      children := cursor.children ++ [.leaf token]
      log := cursor.log ++ [.token token.text] }

/-- Passes the token ahead. The end of the line is never passed, but it too leaves
a leaf. -/
def pass (cursor : Cursor) : Cursor :=
  match cursor.rest with
  | [] => cursor.addLeaf cursor.current
  | token :: rest =>
    Cursor.addLeaf token
      { cursor.look 2 with rest, passed := cursor.passed + 1 }

/-- Ends recovery: a token has been found that fits. -/
def settle (cursor : Cursor) : Cursor :=
  { cursor with recovering := false, stumbledAt := none, stumbles := [] }

/-- Passes a token that fits. -/
def accept (cursor : Cursor) : Cursor := cursor.settle.pass

/-- Passes the given number of tokens. -/
def passMany : Nat → Cursor → Cursor
  | 0, cursor => cursor
  | count + 1, cursor => passMany count cursor.pass

/-- Passes tokens up to the first of one of the given kinds or the end of the line. -/
def skipUntil (kinds : List Kind) (cursor : Cursor) : Cursor :=
  passMany (cursor.rest.takeWhile fun token => !kinds.contains token.kind).length cursor

/-- Reports a token that can be left out, unless a report has been made already. -/
def unwanted (cursor : Cursor) : Cursor :=
  if cursor.recovering then cursor
  else { cursor.report cursor.current.mark (.extraneous cursor.current.text) with
    recovering := true }

/-- Adds an entry to the log. -/
def enlist (event : Tree.Event) (cursor : Cursor) : Cursor :=
  { cursor with log := cursor.log ++ [event] }

/-- Logs the end of the node being built. -/
def announceExit (rule : Rule) (cursor : Cursor) : Cursor :=
  cursor.enlist (.exit rule (Tree.textAll cursor.children))

/-- Makes the node built so far the first child of a new node of the same rule. -/
def wrap (rule : Rule) (cursor : Cursor) : Cursor :=
  { cursor.enlist (.enter rule) with children := [.node rule cursor.children] }

end Cursor

/-! ### Leaving a rule early -/

/-- Why the reading of a rule broke off. -/
structure Stumble where
  place : Place
  mark : Mark
  complaint : Complaint
  /-- Whether the whole line is looked at before the report is made. -/
  looksOn : Bool

/-- A step of reading that may break off; what has been read by then stays. -/
abbrev Recogniser := ExceptT Stumble (StateM Cursor)

namespace Recogniser

/-- Breaks off because of the token ahead. -/
def mismatch {Result : Type} (place : Place) : Recogniser Result := do
  let token := (← get).current
  throw ⟨place, token.mark, .mismatched token.text, false⟩

/-- Follows a forecast, or breaks off when it sees no alternative. -/
def follow {Choice : Type} (place : Place)
    (forecast : List Kind → Forecast Choice) : Recogniser Choice := do
  let cursor ← get
  let forecast := forecast cursor.ahead
  set (cursor.look forecast.looked)
  match forecast.choice with
  | some choice => pure choice
  | none =>
    let seen := cursor.rest.take forecast.looked
    let offending := (cursor.rest.drop (forecast.looked - 1)).headD (.lineEnd cursor.finish)
    let text := if cursor.rest.isEmpty then cursor.current.text else seen.flatMap Token.text
    throw ⟨place, offending.mark, .noAlternative text, true⟩

/-- Leaves out the token ahead if the one after it is expected. -/
def leaveOut (place : Place) (sites : List Site) : Recogniser Bool := do
  modify (Cursor.look 2)
  if (expected place.next sites).contains (← get).second then
    modify fun cursor => cursor.unwanted.pass.settle
    pure true
  else pure false

/-- Checks that the token ahead may stand here, and repairs or breaks off if not.
While recovering nothing is checked. -/
def check (place : Place) (sites : List Site) : Recogniser Unit := do
  let cursor ← get
  if cursor.recovering || place.next.kinds.contains cursor.current.kind then pure ()
  else if ← leaveOut place sites then pure ()
  else mismatch place

/-- Checks the token ahead between two rounds of a loop: tokens that cannot stand
here are skipped. -/
def checkAgain (place : Place) (sites : List Site) : Recogniser Unit := do
  let cursor ← get
  if cursor.recovering || place.next.kinds.contains cursor.current.kind then pure ()
  else set (cursor.unwanted.skipUntil (expected place.next sites ++ resumption sites))

/-- Passes a token of one of the kinds a place asks for. If another one is ahead, that
one is left out, or a token is made up, or reading breaks off. The result is whether
a token was made up. -/
def require (place : Place) (sites : List Site) : Recogniser Bool := do
  let cursor ← get
  let token := cursor.current
  let kinds := place.next.kinds
  if kinds.contains token.kind then
    set cursor.accept
    pure false
  else if ← leaveOut place sites then
    modify Cursor.pass
    pure false
  else if (expected place.afterToken sites).contains token.kind then
    modify fun cursor =>
      if cursor.recovering then cursor
      else { cursor.report token.mark (.missing kinds token.text) with recovering := true }
    pure true
  else mismatch place

/-- Passes a token of the one kind a place asks for, which becomes a leaf also when it
is made up. -/
def requireOne (kind : Kind) (place : Place) (sites : List Site) : Recogniser Unit := do
  if ← require place sites then
    modify fun cursor => { cursor with children := cursor.children ++ [.missing kind] }

end Recogniser

/-! ### The frame of a rule -/

/-- Takes up reading after a rule broke off: the trouble is reported, and tokens are
skipped up to one that may follow a rule in use. A second recovery at the same token
and place passes that token, so that reading comes to an end. -/
def Cursor.recover (sites : List Site) (stumble : Stumble) (cursor : Cursor) : Cursor :=
  let cursor :=
    if cursor.recovering then cursor
    else
      let cursor := if stumble.looksOn then cursor.look (cursor.rest.length + 1) else cursor
      { cursor.report stumble.mark stumble.complaint with recovering := true }
  let cursor :=
    if cursor.stumbledAt = some cursor.passed ∧ stumble.place ∈ cursor.stumbles then cursor.pass
    else cursor
  Cursor.skipUntil (resumption sites)
    { cursor with
      stumbledAt := some cursor.passed
      stumbles := stumble.place :: cursor.stumbles }

/-- Builds the node of a rule from what its body reads. -/
def within (rule : Rule) (sites : List Site) (body : Recogniser Unit) : StateM Cursor Unit := do
  let outer := (← get).children
  modify fun cursor => { cursor.enlist (.enter rule) with children := [] }
  match ← body.run with
  | .ok () => pure ()
  | .error stumble => modify (Cursor.recover sites stumble)
  modify (Cursor.announceExit rule)
  modify fun cursor =>
    { cursor with children := outer ++ [.node rule cursor.children] }

namespace Recogniser

/-! ### Words and redirections -/

/-- Reads quoted text. -/
def quoted (sites : List Site) : StateM Cursor Unit :=
  within .quoted sites do
    let _ ← require .quotedStart sites

/-- Reads one piece of a word. -/
def piece (sites : List Site) : Recogniser Unit := do
  let kind := (← get).current.kind
  if kind.isQuoted then quoted (.quotedPiece :: sites)
  else if kind = .unquoted then modify Cursor.accept
  else mismatch .pieceStart

/-- Reads the next piece of a word, and then the others. -/
def pieces (sites : List Site) : Nat → Recogniser Unit
  | 0 => pure ()
  | fuel + 1 => do
    piece sites
    match ← follow .pieceNext (forecastPiece sites) with
    | .again => pieces sites fuel
    | .done => pure ()

/-- Reads a word. -/
def argument (fuel : Nat) (sites : List Site) : StateM Cursor Unit :=
  within .argument sites do
    check .pieceStart sites
    pieces sites fuel

/-- Reads a blank if there is one. -/
def optionalBlank : Recogniser Unit := do
  if (← get).current.kind = .blank then modify Cursor.accept

/-- Reads a redirection. -/
def redirection (fuel : Nat) (sites : List Site) : StateM Cursor Unit :=
  within .redirection sites do
    check .redirectionStart sites
    let operator := (← get).current.kind
    if operator.isRedirection then
      modify Cursor.accept
      check (.redirectionBlank operator) sites
      optionalBlank
      argument fuel (.target :: sites)
    else mismatch .redirectionStart

/-- Reads an atom. -/
def atom (fuel : Nat) (sites : List Site) : StateM Cursor Unit :=
  within .atom sites do
    check .atomStart sites
    let kind := (← get).current.kind
    if kind.isRedirection then redirection fuel (.redirectionOfAtom :: sites)
    else if kind.isPiece then argument fuel (.argumentOfAtom :: sites)
    else mismatch .atomStart

/-! ### Calls -/

/-- Reads the redirections before the first word of a call. -/
def leading (sites : List Site) : Nat → Recogniser Unit
  | 0 => pure ()
  | fuel + 1 => do
    if (← get).current.kind.isRedirection then
      redirection fuel (.leadingRedirection :: sites)
      requireOne .blank .leadingBlank sites
      checkAgain .leadingAgain sites
      leading sites fuel

/-- Reads the atoms after the first word of a call. -/
def atoms (sites : List Site) : Nat → Recogniser Unit
  | 0 => pure ()
  | fuel + 1 => do
    match ← follow .atomStart forecastAtom with
    | .again =>
      optionalBlank
      atom fuel (.atomOfCall :: sites)
      atoms sites fuel
    | .done => pure ()

/-- Reads a call. -/
def call (fuel : Nat) (sites : List Site) : StateM Cursor Unit :=
  within .call sites do
    check .callStart sites
    optionalBlank
    check .leading sites
    leading sites fuel
    argument fuel (.firstWord :: sites)
    atoms sites fuel
    optionalBlank

/-! ### Commands and pipes -/

mutual
/-- Reads a command. -/
def command : Nat → Int → List Site → StateM Cursor Unit
  | 0, _, _ => pure ()
  | fuel + 1, precedence, sites =>
    within .command sites do
      match ← follow .commandStart (forecastCommand (insidePipe sites)) with
      | .pipe => pipe fuel 0 (.pipeOfCommand :: sites)
      | .call => call fuel (.callOfCommand :: sites)
      | .empty => pure ()
      operands fuel precedence sites

/-- Reads the commands that follow a command after semicolons. -/
def operands : Nat → Int → List Site → Recogniser Unit
  | 0, _, _ => pure ()
  | fuel + 1, precedence, sites => do
    match ← follow .commandStart (forecastSemicolon precedence sites) with
    | .again =>
      modify fun cursor => (cursor.announceExit .command).wrap .command
      modify Cursor.accept
      command fuel Operator.semicolon.operandLevel (.operand :: sites)
      operands fuel precedence sites
    | .done => pure ()

/-- Reads a pipe. -/
def pipe : Nat → Int → List Site → StateM Cursor Unit
  | 0, _, _ => pure ()
  | fuel + 1, precedence, sites =>
    within .pipe sites do
      call fuel (.firstCall :: sites)
      requireOne .bar .firstBar sites
      call fuel (.secondCall :: sites)
      stages fuel precedence sites

/-- Reads what follows after the later bars of a pipe. -/
def stages : Nat → Int → List Site → Recogniser Unit
  | 0, _, _ => pure ()
  | fuel + 1, precedence, sites => do
    match ← follow .pipeChoice (forecastBar precedence sites) with
    | .again =>
      modify (Cursor.announceExit .pipe)
      let choice ← follow .pipeChoice (forecastStage precedence sites)
      modify fun cursor => (cursor.wrap .pipe).accept
      match choice with
      | .call => call fuel (.nextCall :: sites)
      | .command => command fuel 0 (.nextCommand :: sites)
      stages fuel precedence sites
    | .done => pure ()
end

/-- Reads by the given rule. The precedence matters only to commands and pipes. -/
def rule (fuel : Nat) (precedence : Int) : Rule → StateM Cursor Unit
  | .command => command fuel precedence []
  | .pipe => pipe fuel precedence []
  | .call => call fuel []
  | .atom => atom fuel []
  | .argument => argument fuel []
  | .redirection => redirection fuel []
  | .quoted => quoted []

end Recogniser

/-! ### Reading a line -/

/-- What comes of reading a line: the tree, the events in the order in which they
happened, the reports, and the tokens that were left unread. -/
structure Reading where
  tree : Tree
  log : List Tree.Event
  reports : List Report
  unread : List Token

/-- Reads a line by the given rule. Every step passes a token or goes down one of a
bounded number of rules, so the fuel is enough. -/
def readLine (line : Text) (rule : Rule) (precedence : Int) : Reading :=
  let lexemes := Lexeme.ofLine line
  let tokens := lexemes.filterMap Lexeme.token?
  let cursor := Cursor.start tokens (Mark.start.after line)
  let ((), cursor) := (Recogniser.rule (4 * tokens.length + 8) precedence rule).run cursor
  { tree := cursor.children.headD (.node rule [])
    log := cursor.log
    reports :=
      Report.merge
        ((Report.ofLexemes 0 lexemes).filter fun (number, _) => number ≤ cursor.looked)
        cursor.reports
    unread := cursor.rest }

end MiniShell
