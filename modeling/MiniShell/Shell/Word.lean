/-
This file builds words out of the pieces of an argument. Quoted text joins the word it stands
beside. The output of a command in back quotes is cut at its blanks, so that one argument may
become several words.
-/

import MiniShell.Text.Space

namespace MiniShell

/-! ### Text in double quotes -/

/-- A part of a text in double quotes. -/
inductive Segment
  | plain (text : Text)
  /-- A command in back quotes. -/
  | command (line : Text)
  deriving DecidableEq

namespace Segment

/-- Whether a character stands for itself inside double quotes. -/
def isPlain (character : Char) : Bool := character ≠ '"' && character ≠ '`'

/-- Cuts a text into its parts, with a bound on their number. A double quote is dropped, and so
is a back quote that nothing closes. Back quotes with nothing between them stand for
themselves. -/
def cut : Nat → Text → List Segment
  | 0, _ => []
  | _, [] => []
  | steps + 1, character :: rest =>
    if isPlain character then
      plain (character :: rest.takeWhile isPlain) :: cut steps (rest.dropWhile isPlain)
    else if character = '`' then
      match rest.dropWhile fun other => other ≠ '`' with
      | [] => cut steps rest
      | _ :: further =>
        match rest.takeWhile fun other => other ≠ '`' with
        | [] => plain ['`', '`'] :: cut steps further
        | line => command line :: cut steps further
    else cut steps rest

/-- The parts of a text. -/
def ofText (text : Text) : List Segment := cut text.length text

end Segment

/-- What is between the first and the last character. -/
def unquoted (text : Text) : Text := (text.drop 1).dropLast

/-- The output of a command as it is put into a line: line feeds become blanks, and white space
at the end is dropped. -/
def flattenOutput (output : List Text) : Text :=
  Text.trimEnd (Text.replace '\n' ' ' output.flatten)

/-- The words of a text: its parts between blanks. -/
def blankWords (text : Text) : List Text :=
  (Text.splitAt (fun character => character = ' ') text).filter fun word => word ≠ []

/-! ### Drafts -/

/-- The words of an argument, as far as its pieces have been read. -/
structure Draft where
  /-- The words before the last. -/
  finished : List Text
  /-- The last word, which the next piece is joined to. -/
  last : Text
  /-- The positions of the words that hold a star, in order. -/
  starred : List Nat

namespace Draft

/-- The draft of an argument without pieces: an empty word. -/
def empty : Draft := ⟨[], [], []⟩

/-- The words of a draft. -/
def words (draft : Draft) : List Text := draft.finished ++ [draft.last]

/-- Joins a piece of text to the last word. A star in it asks for the names of files. -/
def addText (text : Text) (draft : Draft) : Draft :=
  let position := draft.finished.length
  { draft with
    last := draft.last ++ text
    starred :=
      if text.contains '*' && !draft.starred.contains position then
        draft.starred ++ [position]
      else draft.starred }

/-- Joins words: the first to the last word, and the others after it. -/
def addWords (words : List Text) (draft : Draft) : Draft :=
  match words with
  | [] => draft
  | first :: rest =>
    let joined := draft.finished ++ (draft.last ++ first) :: rest
    { draft with finished := joined.dropLast, last := joined.getLastD [] }

end Draft

end MiniShell
