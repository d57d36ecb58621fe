/-
This file reads standard input. A stream decodes all that its source has at once. Where the
source ends inside a character, the text before it can still be read line by line, but not
the last line, and the bytes of that character stay behind.
-/

import MiniShell.Session.Files

namespace MiniShell

namespace Source

/-- The bytes that a source still has. -/
def bytes (files : FileTree) : Source → List UInt8
  | nothing => []
  | file trail offset => (((files.get? trail).map FileTree.content).getD []).drop offset
  | nameless rest => rest

/-- The source after all its bytes have been taken. -/
def exhaust (files : FileTree) : Source → Source
  | nothing => nothing
  | file trail offset => file trail (offset + (bytes files (file trail offset)).length)
  | nameless _ => nameless []

end Source

namespace Stream

/-- A stream that reads a file from its beginning. -/
def ofFile (trail : Trail) : Stream where
  ready := []
  source := .file trail 0

/-- Decodes what the source has. Bytes that are no text are lost. A carriage return waits for
the character after it, and is lost where the source ends inside that. -/
def fill (files : FileTree) (stream : Stream) : Except Text.DecodeFault Stream × Stream :=
  let bytes := stream.pending ++ stream.source.bytes files
  let after := { stream with source := stream.source.exhaust files }
  match Text.decode bytes with
  | .ok text =>
    let filled := { after with ready := stream.ready ++ Text.unifyNewlines text, pending := [] }
    (.ok filled, filled)
  | .error fault =>
    match fault.flaw with
    | .unfinished =>
      match Text.decode (bytes.take fault.position) with
      | .error other => (.error other, after)
      | .ok text =>
        let whole := if text.getLast? = some '\r' then text.dropLast else text
        let filled :=
          { after with
            ready := stream.ready ++ Text.unifyNewlines whole
            pending := bytes.drop fault.position }
        (.ok filled, filled)
    | _ => (.error (fault.inBlocks bytes), { after with ready := [] })

/-- The fault at the end of a stream that ends inside a character. -/
def endFault? (stream : Stream) : Option Text.DecodeFault :=
  match Text.decode stream.pending with
  | .ok _ => none
  | .error fault => some (fault.inBlocks stream.pending)

/-- Everything that is left to read, decoded as a whole. -/
def remaining (files : FileTree) (stream : Stream) : Except Text.DecodeFault Text :=
  match Text.decode (stream.pending ++ stream.source.bytes files) with
  | .ok text => .ok (stream.ready ++ Text.unifyNewlines text)
  | .error fault => .error fault

end Stream

namespace Action

/-- The stream in use. -/
def currentInput : Action Stream := do
  return (← get).inputs.headD { ready := [] }

/-- Replaces the stream in use. -/
def setInput (stream : Stream) : Action Unit :=
  modify fun session => { session with inputs := stream :: session.inputs.tail }

/-- Puts a stream in front of standard input. -/
def pushInput (stream : Stream) : Action Unit :=
  modify fun session => { session with inputs := stream :: session.inputs }

/-- Uncovers the stream behind the one in use. -/
def popInput : Action Unit :=
  modify fun session => { session with inputs := session.inputs.tail }

/-- Makes all that can be read ready. -/
def fillInput : Action Stream := do
  let (result, stream) := (← currentInput).fill (← get).files
  setInput stream
  match result with
  | .ok filled => pure filled
  | .error fault => throw (.undecodable fault)

/-- The lines of standard input up to its end. A user who interrupts the shell there takes
them all back. -/
def inputLines : Action (List Text) := do
  let stream ← fillInput
  setInput { stream with ready := [] }
  match stream.endFault? with
  | some fault => throw (.undecodable fault)
  | none => if stream.interrupts then throw .interrupt else pure (Text.lines stream.ready)

/-- The lines of standard input, of which there has to be one. -/
def someInputLines : Action (List Text) := do
  let lines ← inputLines
  if lines = [] then throw .noInput else pure lines

/-- The next line of standard input, with its line feed. It is empty at the end. -/
def inputLine : Action Text := do
  let stream ← currentInput
  let stream ← if stream.ready.contains '\n' then pure stream else fillInput
  match Text.lines stream.ready with
  | line :: _ :: _ =>
    setInput { stream with ready := stream.ready.drop line.length }
    pure line
  | ends =>
    let line := ends.headD []
    setInput { stream with ready := [] }
    match stream.endFault? with
    | some fault => if line.getLast? = some '\n' then pure line else throw (.undecodable fault)
    | none => pure line

end Action

end MiniShell
