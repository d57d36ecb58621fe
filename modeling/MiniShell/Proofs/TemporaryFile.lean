/-
This file proves that a pipe and a temporary file do the same. The output of a
call reaches a filter as text that is ready to be read, or as the bytes of a
file that the call is redirected to and the filter reads. Both offer the same
lines, because decoding undoes encoding, and a filter sees nothing but its
input. What is left behind differs only in the file itself.

The file has to be free, in a directory that stands, when the call is done: a
call may remove the directory that was to hold the file.
-/

import MiniShell.Proofs.Encoding
import MiniShell.Proofs.FileUpdate
import MiniShell.Proofs.Filter
import MiniShell.Proofs.Meaning

namespace MiniShell

open MiniShell.Action

/-! ### What a stream offers -/

/-- All that can be read from a stream, to its end and without a fault, is a text. -/
def Stream.Offers (stream : Stream) (files : FileTree) (text : Text) : Prop :=
  ∃ filled, stream.fill files = (.ok filled, filled) ∧ filled.ready = text ∧
    filled.pending = [] ∧ filled.interrupts = false

theorem offers_ready (text : Text) (files : FileTree) :
    Stream.Offers { ready := text } files text := by
  refine ⟨{ ready := text }, ?_, rfl, rfl, rfl⟩
  simp [Stream.fill, Source.bytes, Source.exhaust, Text.decode, Text.decodeFrom,
    Text.unifyNewlines]

/-- A file that holds text offers it, with all its line ends as line feeds. -/
theorem offers_decoded {files : FileTree} {trail : Trail} {content : List UInt8} {text : Text}
    (holds : files.get? trail = some (.file content)) (decoded : Text.decode content = .ok text) :
    Stream.Offers (Stream.ofFile trail) files (Text.unifyNewlines text) := by
  have bytes : (Stream.ofFile trail).pending ++ (Stream.ofFile trail).source.bytes files =
      content := by
    simp [Stream.ofFile, Source.bytes, holds, FileTree.content]
  refine ⟨{ ready := Text.unifyNewlines text
            source := (Stream.ofFile trail).source.exhaust files }, ?_, rfl, rfl, rfl⟩
  simp only [Stream.fill, bytes, decoded]
  rfl

/-- A file that holds a text without carriage returns offers it. -/
theorem offers_file {files : FileTree} {trail : Trail} {text : Text}
    (holds : files.get? trail = some (.file (Text.encode text))) (noReturn : '\r' ∉ text) :
    Stream.Offers (Stream.ofFile trail) files text := by
  have offers := offers_decoded holds (Text.decode_encode text)
  rwa [Text.unifyNewlines_of_notMem noReturn] at offers

/-- What reading the lines of a text to its end gives. -/
def linesRead (text : Text) : Except Fault (List Text) :=
  if Text.lines text = [] then .error .noInput else .ok (Text.lines text)

/-- Reading to the end gives the lines that the stream in use offers. -/
theorem someInputLines_of_offers {session : Session} {stream : Stream} {rest : List Stream}
    {text : Text} (inUse : session.inputs = stream :: rest)
    (offers : stream.Offers session.files text) :
    ∃ after, ∀ out, someInputLines.start { session with out } =
      (linesRead text, { session with out, inputs := after :: rest }) := by
  obtain ⟨filled, fills, rfl, whole, patient⟩ := offers
  refine ⟨{ filled with ready := [] }, fun out => ?_⟩
  have noFault : filled.endFault? = none := by
    rw [Stream.endFault?, whole]
    rfl
  have read : inputLines.start { session with out } =
      (.ok (Text.lines filled.ready),
        { session with out, inputs := { filled with ready := [] } :: rest }) := by
    simp [inputLines, fillInput, currentInput, setInput, start_bind, start_map, inUse, fills,
      noFault, patient, Except.map]
  rw [someInputLines, start_bind, read, linesRead]
  by_cases none : Text.lines filled.ready = []
  · simp only [if_pos none]
    rfl
  · simp only [if_neg none]
    rfl

/-- Sessions whose streams in use offer the same text are twins. -/
theorem twins_of_offers {first second : Session} {stream other : Stream}
    {rest others : List Stream} {text : Text} (written : first.out = second.out)
    (firstInUse : first.inputs = stream :: rest) (offers : stream.Offers first.files text)
    (secondInUse : second.inputs = other :: others)
    (otherOffers : other.Offers second.files text) : Twins first second := by
  obtain ⟨after, reads⟩ := someInputLines_of_offers firstInUse offers
  obtain ⟨otherAfter, otherReads⟩ := someInputLines_of_offers secondInUse otherOffers
  exact ⟨written, linesRead text, after :: rest, otherAfter :: others,
    fun out => ⟨reads out, otherReads out⟩⟩

/-! ### Running a filter on a stream -/

/-- Runs a call with a stream in front of standard input. -/
def Invocation.runOn (call : Invocation) (stream : Stream) : Action (List Text) := do
  pushInput stream
  let lines ← call.run
  popInput
  return lines

/-- The result of a call is what its command puts out, on an output of its own. -/
theorem start_run (call : Invocation) (session : Session) {after : Session}
    {result : Except Fault Unit}
    (ran : (Catalog.run call.name.text (call.arguments.map PlainWord.text)).start
      { session with out := [] } = (result, after)) :
    call.run.start session =
      (result.map fun _ => after.out, { after with out := session.out }) := by
  rw [Invocation.run, start_bind, start_collect, ran]
  cases result <;> rfl

/-- A filter gives the same result on streams that offer the same text, and leaves all but
standard input as it was. -/
theorem Filter.runOn_alike (filter : Filter) (first second : Session) {stream other : Stream}
    {text : Text} (offers : stream.Offers first.files text)
    (otherOffers : other.Offers second.files text) :
    ∃ result inputs others,
      (filter.call.runOn stream).start first = (result, { first with inputs }) ∧
      (filter.call.runOn other).start second = (result, { second with inputs := others }) := by
  -- A call begins with an output of its own, so both runs begin with none.
  have twins : Twins { first with inputs := stream :: first.inputs, out := [] }
      { second with inputs := other :: second.inputs, out := [] } :=
    twins_of_offers rfl rfl offers rfl otherOffers
  obtain ⟨result, lines, inputs, others, ran, ranOther⟩ := filter.filters _ _ twins
  have runs : filter.call.run.start { first with inputs := stream :: first.inputs } =
      (result.map fun _ => lines, { first with inputs }) :=
    start_run filter.call { first with inputs := stream :: first.inputs } ran
  have runsOther : filter.call.run.start { second with inputs := other :: second.inputs } =
      (result.map fun _ => lines, { second with inputs := others }) :=
    start_run filter.call { second with inputs := other :: second.inputs } ranOther
  rw [Invocation.runOn, Invocation.runOn, start_bind, start_bind]
  simp only [pushInput, start_modify]
  rw [start_bind, start_bind, runs, runsOther]
  cases result with
  | error fault => exact ⟨.error fault, inputs, others, rfl, rfl⟩
  | ok _ => exact ⟨.ok lines, inputs.tail, others.tail, rfl, rfl⟩

/-- A call that makes an output of the lines of its input, on text that is ready. -/
theorem start_runOn_ready {call : Invocation} {next : List Text → Action Unit} {text : Text}
    {out : List Text} (some : Text.lines text ≠ [])
    (reads : Catalog.run call.name.text (call.arguments.map PlainWord.text) =
      someInputLines >>= next)
    (writes : next (Text.lines text) = emit out) (session : Session) :
    (call.runOn { ready := text }).start session = (.ok out, session) := by
  let fed : Session := { session with inputs := { ready := text } :: session.inputs }
  obtain ⟨after, read⟩ := @someInputLines_of_offers fed _ _ _ rfl (offers_ready text session.files)
  have lines := read []
  rw [linesRead, if_neg some] at lines
  have ran : (Catalog.run call.name.text (call.arguments.map PlainWord.text)).start
      { fed with out := [] } = (.ok ⟨⟩, { fed with inputs := after :: session.inputs, out }) := by
    rw [reads, start_bind_ok lines, writes]
    rfl
  have pushed : (pushInput { ready := text }).start session = (.ok ⟨⟩, fed) := rfl
  rw [Invocation.runOn, start_bind_ok pushed, start_bind_ok (start_run call fed ran)]
  rfl

/-! ### New files -/

/-- A path names a new file: it leads to a place in a directory where nothing stands yet. -/
def Session.Vacant (session : Session) (path : Text) (trail : Trail) : Prop :=
  session.LeadsTo path trail ∧ session.files.HasDirectory trail.dropLast ∧
    session.files.get? trail = none

namespace Session.Vacant

variable {session : Session} {path : Text} {trail : Trail}

theorem free (vacant : session.Vacant path trail) : ¬ session.files.HasDirectory trail := by
  rintro ⟨entries, found⟩
  exact absurd (vacant.2.2.symm.trans found) (by simp)

/-- A new file can be written. -/
theorem writeFile (vacant : session.Vacant path trail) (text : Text) :
    (Action.writeFile path text).start session =
      (.ok ⟨⟩, session.withFiles (session.files.put trail (.file (Text.encode text)))) :=
  writeFile_leads vacant.1 vacant.free text

/-- Its path still leads to it. -/
theorem leadsTo (vacant : session.Vacant path trail) (content : List UInt8) :
    (session.withFiles (session.files.put trail (.file content))).LeadsTo path trail :=
  vacant.1.withFiles fun _ => FileTree.hasDirectory_put vacant.free content

/-- It holds what was written. -/
theorem get?_put (vacant : session.Vacant path trail) (new : FileTree) :
    (session.files.put trail new).get? trail = some new := by
  obtain ⟨⟨_, location, name, _, _, _, rfl⟩, holds, _⟩ := vacant
  rw [List.dropLast_concat] at holds
  exact FileTree.get?_put holds new

end Session.Vacant

/-! ### The two command lines -/

/-- A call by itself. -/
def Script.single (call : Invocation) : Script := ⟨⟨none, call, [], none⟩, []⟩

/-- A call whose output a filter reads through a pipe. -/
def Script.piped (call : Invocation) (filter : Filter) : Script :=
  ⟨⟨none, call, [filter.call], none⟩, []⟩

theorem Stage.render_plain (call : Invocation) :
    Stage.render ⟨call, none, none⟩ =
      Text.join [' '] (call.name.text :: call.arguments.map PlainWord.text) := by
  have parts : Stage.parts ⟨call, none, none⟩ = call.arguments.map .word := by
    simp [Stage.parts]
  rw [Stage.render, Stage.texts, parts, List.flatMap_map]
  exact congrArg (fun words => Text.join [' '] (call.name.text :: words)) List.map_eq_flatMap.symm

/-- A pipe stands between the words of the call and those of the filter. -/
theorem Script.render_piped (call : Invocation) (filter : Filter) :
    (Script.piped call filter).render =
      Text.join [' '] (call.name.text :: call.arguments.map PlainWord.text) ++ " | ".toList ++
        Text.join [' '] (filter.program.name :: filter.arguments.map PlainWord.text) := by
  show Stage.render ⟨call, none, none⟩ ++ " | ".toList ++ Stage.render ⟨filter.call, none, none⟩ = _
  rw [Stage.render_plain, Stage.render_plain]
  rfl

/-- A call whose output goes to a file that a filter reads. -/
def Script.filed (call : Invocation) (filter : Filter) (file : PlainWord) : Script :=
  ⟨⟨none, call, [], some ⟨file, false⟩⟩, [⟨some file, filter.call, [], none⟩]⟩

/-- The line of a script carries it out. -/
theorem runLine_of_render {line : Text} {script : Script} (written : script.render = line) :
    runLine line = script.run := by
  rw [← written]
  exact outputOfLine_render (interpret 0) script

theorem run_one (pipeline : Pipeline) : Script.run ⟨pipeline, []⟩ = pipeline.run := by
  simp [Script.run, Script.pipelines]

theorem run_two (first second : Pipeline) :
    Script.run ⟨first, [second]⟩ = (do
      let lines ← first.run
      let others ← second.run
      return lines ++ others) := by
  simp [Script.run, Script.pipelines]

theorem run_stage (call : Invocation) (input : Option PlainWord) (output : Option Destination) :
    Pipeline.run ⟨input, call, [], output⟩ = Stage.run ⟨call, input, output⟩ [] := by
  rw [Pipeline.run, Pipeline.stages, stagesFrom, runStages_cons]
  exact bind_pure _

theorem stage_plain (call : Invocation) : Stage.run ⟨call, none, none⟩ [] = call.run := by
  simp [Stage.run, Stage.feed, Stage.deliver]

theorem stage_piped (call : Invocation) {lines : List Text} (nonempty : lines ≠ []) :
    Stage.run ⟨call, none, none⟩ lines = call.runOn { ready := lines.flatten } := by
  simp [Stage.run, Stage.feed, Stage.deliver, Invocation.runOn, nonempty]

theorem stage_written (call : Invocation) (file : PlainWord) :
    Stage.run ⟨call, none, some ⟨file, false⟩⟩ [] = (do
      let lines ← call.run
      writeFile file.text lines.flatten
      return []) := by
  simp [Stage.run, Stage.feed, Stage.deliver, Destination.write]

/-- A stage that reads a file runs its command on the stream of the file. -/
theorem stage_read (call : Invocation) {session : Session} {file : PlainWord} {trail : Trail}
    {content : List UInt8} (leads : session.LeadsTo file.text trail)
    (found : session.files.get? trail = some (.file content)) :
    (Stage.run ⟨call, some file, none⟩ []).start session =
      (call.runOn (Stream.ofFile trail)).start session := by
  have opened : (Evaluator.openInput file.text).start session =
      (pushInput (Stream.ofFile trail)).start session := by
    rw [Evaluator.openInput, start_bind, start_rephrase, openFile_leads leads found]
    rfl
  have fed : Stage.run ⟨call, some file, none⟩ [] = (do
      Evaluator.openInput file.text
      let lines ← call.run
      popInput
      return lines) := by
    simp [Stage.run, Stage.feed, Stage.deliver]
  rw [fed, Invocation.runOn, start_bind, start_bind, opened]

theorem run_single (call : Invocation) : (Script.single call).run = call.run := by
  rw [Script.single, run_one, run_stage, stage_plain]

/-- Through a pipe, the filter runs on text that is ready. -/
theorem run_piped {call : Invocation} (filter : Filter) {session after : Session}
    {lines : List Text} (ran : call.run.start session = (.ok lines, after))
    (nonempty : lines ≠ []) :
    (Script.piped call filter).run.start session =
      (filter.call.runOn { ready := lines.flatten }).start after := by
  rw [Script.piped, run_one, Pipeline.run, Pipeline.stages, stagesFrom, runStages_cons,
    stage_plain, start_bind_ok ran, stagesFrom, runStages_cons, stage_piped filter.call nonempty]
  exact congrArg (start · after) (bind_pure _)

/-- Through a file, the filter runs on the file in the session that writing it leaves. -/
theorem run_filed {call : Invocation} (filter : Filter) {file : PlainWord}
    {session after : Session} {lines : List Text} {trail : Trail}
    (ran : call.run.start session = (.ok lines, after)) (vacant : after.Vacant file.text trail) :
    (Script.filed call filter file).run.start session =
      (filter.call.runOn (Stream.ofFile trail)).start
        (after.withFiles (after.files.put trail (.file (Text.encode lines.flatten)))) := by
  have written : (Pipeline.run ⟨none, call, [], some ⟨file, false⟩⟩).start session =
      (.ok [], after.withFiles (after.files.put trail (.file (Text.encode lines.flatten)))) := by
    rw [run_stage, stage_written, start_bind_ok ran,
      start_bind_ok (vacant.writeFile lines.flatten)]
    rfl
  rw [Script.filed, run_two, start_bind_ok written]
  show (Pipeline.run ⟨some file, filter.call, [], none⟩ >>= fun lines => pure lines).start _ = _
  rw [bind_pure, run_stage]
  exact stage_read filter.call (vacant.leadsTo _) (vacant.get?_put _)

/-! ### The theorem -/

/-- A pipe equals a temporary file. Where a call has output without carriage returns, and leaves
a place for a new file, a filter that reads the output through a pipe and a filter that reads it
from the file give the same output or the same fault, and the same files stand afterwards, with
the same bytes, apart from the new one. -/
theorem runLine_pipe_file (call : Invocation) (filter : Filter) (file : PlainWord)
    {session after : Session} {lines : List Text} {trail : Trail}
    (ran : (runLine (Script.single call).render).start session = (.ok lines, after))
    (nonempty : lines ≠ []) (noReturn : ∀ line ∈ lines, '\r' ∉ line)
    (vacant : after.Vacant file.text trail) :
    let piped := (runLine (Script.piped call filter).render).start session
    let filed := (runLine (Script.filed call filter file).render).start session
    piped.1 = filed.1 ∧
      ∀ other, other ≠ trail → piped.2.files.standing other = filed.2.files.standing other := by
  have meaning : ∀ script : Script, runLine script.render = script.run :=
    outputOfLine_render (interpret 0)
  have noReturn : '\r' ∉ lines.flatten := by
    intro member
    obtain ⟨line, isLine, inLine⟩ := List.mem_flatten.mp member
    exact noReturn line isLine inLine
  let files := after.files.put trail (.file (Text.encode lines.flatten))
  obtain ⟨result, inputs, others, piped, filed⟩ := filter.runOn_alike after
    (after.withFiles files) (offers_ready lines.flatten after.files)
    (offers_file (vacant.get?_put _) noReturn)
  -- Both lines come down to the filter, on a stream that offers the output of the call.
  rw [meaning, run_single] at ran
  rw [meaning, meaning, run_piped filter ran nonempty, run_filed filter ran vacant, piped, filed]
  refine ⟨rfl, fun other different => ?_⟩
  exact (FileTree.standing_put vacant.free _ different).symm

/-- A session with an empty directory. -/
def directorySession : Session where
  files := .directory [("s".toList, .empty)]
  home := "/home".toList
  inputs := []

/-- A file in that directory. -/
def fileInDirectory : PlainWord := .ofText "s/f".toList (by decide)

def fileTrail : Trail := ["s".toList, "f".toList]

theorem directorySession_vacant : directorySession.Vacant fileInDirectory.text fileTrail :=
  ⟨⟨by decide, ⟨["s".toList], 0⟩, "f".toList, rfl, rfl, by decide, rfl⟩, ⟨[], rfl⟩, rfl⟩

def echoCall : Invocation := ⟨Program.echo.word, [.ofText "x".toList (by decide)]⟩

theorem runLine_pipe_file_echo :
    let count : Filter := .wc [⟨['w'], by simp [specialCharacters]⟩]
    let piped := (runLine (Script.piped echoCall count).render).start directorySession
    let filed :=
      (runLine (Script.filed echoCall count fileInDirectory).render).start directorySession
    piped.1 = filed.1 ∧ ∀ other, other ≠ fileTrail →
      piped.2.files.standing other = filed.2.files.standing other := by
  have ran : (runLine (Script.single echoCall).render).start directorySession =
      (.ok ["x\n".toList], directorySession) := by
    rw [show runLine _ = _ from outputOfLine_render (interpret 0) _, run_single]
    rfl
  exact runLine_pipe_file echoCall _ fileInDirectory ran (by decide) (by decide)
    directorySession_vacant

/-- A guarded call that removes all directories of the session. It reports that it cannot remove
the working directory, which is its output. -/
def clearCall : Invocation where
  name := .ofText "_rmdir".toList (by decide)
  arguments :=
    [.ofText "-r".toList (by decide), .ofText ".".toList (by decide)]

/-- It is not enough that a file can be created before the call. Here the call removes the
directory that was to hold the file: a filter reads the output through a pipe, but not through
the file. -/
theorem pipe_needs_no_directory :
    let complaint := "An exception occurred: [Errno 22] Invalid argument: '.'\n".toList
    let alone := (runLine (Script.single clearCall).render).start directorySession
    let piped := (runLine (Script.piped clearCall .cat).render).start directorySession
    let filed :=
      (runLine (Script.filed clearCall .cat fileInDirectory).render).start directorySession
    directorySession.Vacant fileInDirectory.text fileTrail ∧
      alone.1.toOption = some [complaint] ∧ alone.2.files.get? fileTrail = none ∧
      piped.1.toOption = some [complaint] ∧ filed.1.toOption = none := by
  have meaning : ∀ script : Script, runLine script.render = script.run :=
    outputOfLine_render (interpret 0)
  rw [meaning, meaning, meaning]
  refine ⟨directorySession_vacant, ?_, Option.isNone_iff_eq_none.mp ?_, ?_, ?_⟩ <;>
    decide +kernel

end MiniShell
