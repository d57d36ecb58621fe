/-
This file defines the reports about a command line that does not follow the
grammar: where the trouble is, what it is, and how it is worded.
-/

import MiniShell.Token.Lexer

namespace MiniShell

/-- What is wrong with a line. -/
inductive Complaint
  /-- No kind of token allows this text. -/
  | unrecognised (text : Text)
  /-- A token that is none of those expected. -/
  | mismatched (text : Text)
  /-- A token that can be left out. -/
  | extraneous (text : Text)
  /-- A token of one of these kinds could be put in before the one with this text. -/
  | missing (kinds : List Kind) (text : Text)
  /-- No alternative begins with these tokens. -/
  | noAlternative (text : Text)

namespace Complaint

/-- Line feeds, carriage returns and tabs are shown by their escapes. -/
def visible (text : Text) : Text :=
  text.flatMap fun character =>
    if character = '\n' then "\\n"
    else if character = '\r' then "\\r"
    else if character = '\t' then "\\t"
    else [character]

/-- A text as it is shown inside a message. -/
def quote (text : Text) : Text := '\'' :: visible text ++ ['\'']

/-- Several kinds are shown as a set, a single one by itself. -/
def displayKinds : List Kind → Text
  | [kind] => kind.display
  | kinds => '\x7b' :: Text.join ", " (kinds.map Kind.display) ++ ['\x7d']

/-- The wording of a complaint. -/
def message : Complaint → Text
  | unrecognised text => "token recognition error at: ".toList ++ quote text
  | mismatched text => "mismatched input ".toList ++ quote text
  | extraneous text => "extraneous input ".toList ++ quote text
  | missing kinds text =>
    "missing ".toList ++ displayKinds kinds ++ " at ".toList ++ quote text
  | noAlternative text => "no viable alternative at input ".toList ++ quote text

end Complaint

/-- A complaint and where it arose. -/
structure Report where
  mark : Mark
  complaint : Complaint

namespace Report

/-- A report as one line of text. -/
def render (report : Report) : Text :=
  "line ".toList ++ Text.ofNat report.mark.line ++ ":".toList ++
    Text.ofNat report.mark.column ++ " ".toList ++ report.complaint.message

/-- The reports about the dropped text of a line, each with the number of tokens
that have been looked at when it is made: the dropped text is noticed on the way to
the token after it. -/
def ofLexemes (count : Nat) : List Lexeme → List (Nat × Report)
  | [] => []
  | lexeme :: rest =>
    match lexeme.kind with
    | some _ => ofLexemes (count + 1) rest
    | none => (count + 1, ⟨lexeme.mark, .unrecognised lexeme.text⟩) :: ofLexemes count rest

/-- Puts two lists of numbered reports in one order by their numbers. Of equal ones
those of the first list come first. -/
def merge : List (Nat × Report) → List (Nat × Report) → List Report
  | [], others => others.map Prod.snd
  | firsts, [] => firsts.map Prod.snd
  | (number, report) :: firsts, (other, second) :: others =>
    if number ≤ other then report :: merge firsts ((other, second) :: others)
    else second :: merge ((number, report) :: firsts) others

end Report

end MiniShell
