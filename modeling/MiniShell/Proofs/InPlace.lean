/-
This file says what is left of a file when replacing matches in it fails. The
file is emptied before the pattern is read, and it gets its lines back one by
one; so what fails before that leaves the file alone, and what fails later
leaves behind what has been written. That is nothing if the pattern or the
replacement is flawed, because then the very first line cannot be changed, and
it is all the changed lines if only the end of the output is at fault.

The loop opens the file anew for every line and adds the line at its end. Its
invariant is that the file holds the beginning of the changed lines that has
been gone through.
-/

import MiniShell.Proofs.CutParts
import MiniShell.Proofs.Encoding
import MiniShell.Proofs.FileUpdate

namespace MiniShell

open MiniShell.Action

/-! ### Changing lines -/

namespace Command

/-- What a substitution does to every line. It is flawed for all lines or for none. -/
def Substitution.change (substitution : Substitution) : Except Pattern.Flaw (Text → Text) := do
  let expression ← Pattern.Expression.ofText substitution.pattern
  let parts ← Pattern.partsOf expression substitution.replacement
  return expression.replace parts substitution.everywhere

/-- The bytes that a file of lines is left with. -/
def Substitution.remains (substitution : Substitution) (lines : List Text) : List UInt8 :=
  match substitution.change with
  | .ok change => Text.encode (lines.map change).flatten
  | .error _ => []

theorem substitute_eq (substitution : Substitution) (line : Text) :
    substitute substitution line = substitution.change.map fun change => change line := by
  unfold substitute Substitution.change
  cases Pattern.Expression.ofText substitution.pattern with
  | error flaw => rfl
  | ok expression =>
    show (Pattern.partsOf expression _ >>= _) = Except.map _ (Pattern.partsOf expression _ >>= _)
    cases Pattern.partsOf expression substitution.replacement <;> rfl

/-- Changes a line of a file and passes it on. -/
def writeChanged (substitution : Substitution) (name line : Text) : Action Unit := do
  let changed ← orFlaw (substitute substitution line)
  Action.appendFile name changed
  Action.emit [changed]

end Command

/-! ### Files of lines -/

namespace Session

/-- A file without lines is empty, and no other is. -/
theorem Holds.lines_eq_nil_iff {session : Session} {path : Text} {trail : Trail}
    {content : List UInt8} {lines : List Text} (holds : session.Holds path trail content lines) :
    lines = [] ↔ content = [] := by
  obtain ⟨text, decoded, rfl⟩ := holds.decoded
  constructor
  · intro none
    have noText : text = [] := Classical.byContradiction fun nonempty =>
      Text.lines_ne_nil (Text.unifyNewlines_ne_nil nonempty) none
    rw [noText] at decoded
    exact (Text.decodeFrom_nil decoded).2
  · rintro rfl
    rw [← Except.ok.inj decoded]
    rfl

/-- The session in which the file at a place holds other bytes, and this has been put out. -/
def rewriting (session : Session) (trail : Trail) (bytes : List UInt8) (out : List Text) :
    Session :=
  { session.withFiles (session.files.put trail (.file bytes)) with out }

end Session

/-! ### Writing the changed lines -/

namespace Command

open Session

variable {session : Session} {name : Text} {trail : Trail} {content : List UInt8}
  {lines : List Text} (holds : session.Holds name trail content lines)
include holds

theorem appendFile_rewriting (bytes : List UInt8) (out : List Text) (text : Text) :
    (appendFile name text).start (session.rewriting trail bytes out) =
      (.ok ⟨⟩, session.rewriting trail (bytes ++ Text.encode text) out) := by
  have held : (session.files.put trail (.file bytes)).contentAt trail = bytes := by
    rw [FileTree.contentAt, FileTree.get?_put_file holds.found]
    rfl
  have appended := @appendFile_put trail name { session with out } holds.leads holds.free bytes text
  rw [show ({ session with out } : Session).files = session.files from rfl, held] at appended
  exact appended

/-- A line that is changed is added to the file and to the output. -/
theorem start_writeChanged {substitution : Substitution} {change : Text → Text}
    (sound : substitution.change = .ok change) (bytes : List UInt8) (out : List Text)
    (line : Text) :
    (writeChanged substitution name line).start (session.rewriting trail bytes out) =
      (.ok ⟨⟩, session.rewriting trail (bytes ++ Text.encode (change line))
        (out ++ [change line])) := by
  have changes : substitute substitution line = .ok (change line) := by
    rw [substitute_eq, sound]
    rfl
  rw [writeChanged, changes, orFlaw, pure_bind, start_bind_ok (appendFile_rewriting holds _ _ _)]
  rfl

theorem start_forM_writeChanged {substitution : Substitution} {change : Text → Text}
    (sound : substitution.change = .ok change) (bytes : List UInt8) (out others : List Text) :
    Action.start (others.forM (writeChanged substitution name))
        (session.rewriting trail bytes out) =
      (.ok ⟨⟩, session.rewriting trail (bytes ++ Text.encode (others.map change).flatten)
        (out ++ others.map change)) := by
  induction others generalizing bytes out with
  | nil => simp [Text.encode]
  | cons line rest inductionHypothesis =>
    rw [List.forM_eq_forM, List.forM_cons, start_bind_ok (start_writeChanged holds sound _ _ _),
      ← List.forM_eq_forM, inductionHypothesis]
    simp [Text.encode]

/-- The file is emptied before its lines are changed. -/
theorem start_substituteInFile (substitution : Substitution) :
    (substituteInFile substitution name).start session =
      (do lines.forM (writeChanged substitution name); endOutput).start
        (session.rewriting trail [] session.out) := by
  have found : (Action.pathExists name).start session = (.ok true, session) :=
    congrArg (fun stands => (Except.ok stands, session)) holds.pathExists
  rw [substituteInFile, start_bind_ok found]
  simp only [Bool.not_true, Bool.false_eq_true, if_false]
  rw [start_bind_ok holds.readLines, start_bind_ok (writeFile_leads holds.leads holds.free [])]
  rfl

/-- Without a flaw, all lines are changed. -/
theorem substituteInFile_sound {substitution : Substitution} {change : Text → Text}
    (sound : substitution.change = .ok change) :
    (substituteInFile substitution name).start session =
      endOutput.start (session.rewriting trail (Text.encode (lines.map change).flatten)
        (session.out ++ lines.map change)) := by
  rw [start_substituteInFile holds, start_bind_ok (start_forM_writeChanged holds sound _ _ _)]
  rfl

/-- With a flaw, the first line is the one that fails, so that nothing has been written. -/
theorem substituteInFile_flawed {substitution : Substitution} {flaw : Pattern.Flaw}
    (flawed : substitution.change = .error flaw) (some : lines ≠ []) :
    (substituteInFile substitution name).start session =
      (.error (.pattern flaw), session.rewriting trail [] session.out) := by
  obtain ⟨line, rest, rfl⟩ := List.exists_cons_of_ne_nil some
  have fails : (writeChanged substitution name line).start
      (session.rewriting trail [] session.out) =
        (.error (.pattern flaw), session.rewriting trail [] session.out) := by
    rw [writeChanged, substitute_eq, flawed]
    rfl
  rw [start_substituteInFile holds, List.forM_eq_forM, List.forM_cons, bind_assoc, start_bind,
    fails]

omit holds in
theorem endOutput_files (session : Session) :
    (endOutput.start session).2.files = session.files := by
  rw [endOutput, start_bind_ok (start_get _)]
  cases endLast session.out <;> rfl

end Command

/-! ### What a failure leaves -/

/-- A command to replace matches in a file gets as far as the lines of the file. -/
structure Command.Applies (session : Session) (expression name : Text)
    (substitution : Substitution) (trail : Trail) (content : List UInt8) (lines : List Text) :
    Prop where
  meaning : substitution? expression = some substitution
  holds : session.Holds name trail content lines

namespace Command

variable {session after : Session} {expression name : Text} {fault : Fault}

theorem start_sed {substitution : Substitution}
    (meaning : substitution? expression = some substitution) (name : Text) (session : Session) :
    (sed [expression, name]).start session =
      (substituteInFile substitution name).start session := by
  simp only [sed, Command.substitution, meaning, pure_bind]

/-- What does not get that far changes nothing. -/
theorem sed_cases (session : Session) (expression name : Text) :
    (∃ fault, (sed [expression, name]).start session = (.error fault, session)) ∨
      ∃ substitution trail content lines,
        Applies session expression name substitution trail content lines := by
  cases meaning : substitution? expression with
  | none =>
    refine Or.inl ⟨.badSubstitution expression, ?_⟩
    simp only [sed, substitution, meaning]
    rfl
  | some substitution =>
    rw [start_sed meaning, substituteInFile]
    rcases session.readLines_cases name with ⟨fault, refused⟩ | ⟨trail, content, lines, holds⟩
    · refine Or.inl ?_
      have looked : (Action.pathExists name).start session =
          (.ok (session.surroundings.pathExists name), session) := rfl
      rw [start_bind_ok looked]
      cases session.surroundings.pathExists name with
      | false => exact ⟨.namedFileMissing name, rfl⟩
      | true =>
        simp only [Bool.not_true, Bool.false_eq_true, if_false]
        exact ⟨fault, by rw [start_bind, refused]⟩
    · exact Or.inr ⟨substitution, trail, content, lines, meaning, holds⟩

namespace Applies

variable {substitution : Substitution} {trail : Trail} {content : List UInt8} {lines : List Text}

theorem unique (applies : Applies session expression name substitution trail content lines)
    {otherSubstitution : Substitution} {otherTrail : Trail} {otherContent : List UInt8}
    {otherLines : List Text} (alsoApplies : Applies session expression name otherSubstitution
      otherTrail otherContent otherLines) :
    otherSubstitution = substitution ∧ otherTrail = trail ∧ otherContent = content ∧
      otherLines = lines := by
  obtain rfl := alsoApplies.holds.leads.unique applies.holds.leads
  have sameTree := alsoApplies.holds.found.symm.trans applies.holds.found
  obtain rfl := FileTree.file.inj (Option.some.inj sameTree)
  obtain ⟨text, decoded, rfl⟩ := applies.holds.decoded
  obtain ⟨otherText, otherDecoded, rfl⟩ := alsoApplies.holds.decoded
  obtain rfl := Except.ok.inj (otherDecoded.symm.trans decoded)
  exact ⟨Option.some.inj (alsoApplies.meaning.symm.trans applies.meaning), rfl, rfl, rfl⟩

theorem start_sed_files
    (applies : Applies session expression name substitution trail content lines) :
    ((sed [expression, name]).start session).2.files =
      session.files.put trail (.file (substitution.remains lines)) := by
  rw [start_sed applies.meaning, Substitution.remains]
  cases changes : substitution.change with
  | ok change =>
    rw [substituteInFile_sound applies.holds changes, endOutput_files]
    rfl
  | error flaw =>
    by_cases none : lines = []
    · rw [start_substituteInFile applies.holds, none]
      exact endOutput_files _
    · rw [substituteInFile_flawed applies.holds changes none]
      rfl

/-- A file is left as it was if it is empty, or if the changed lines are what it held. -/
theorem remains_eq_iff
    (applies : Applies session expression name substitution trail content lines) :
    substitution.remains lines = content ↔ lines = [] ∨ ∃ change,
      substitution.change = .ok change ∧ Text.encode (lines.map change).flatten = content := by
  have noLines := applies.holds.lines_eq_nil_iff
  rw [Substitution.remains]
  cases substitution.change with
  | error flaw => simp [noLines, eq_comm]
  | ok change =>
    constructor
    · exact fun same => Or.inr ⟨change, rfl, same⟩
    · rintro (none | ⟨_, isChange, same⟩)
      · rw [none, noLines.mp none]
        rfl
      · rw [Except.ok.inj isChange]
        exact same

end Applies

/-- What a failed replacement leaves. Every other file stays as it is. The named one does too,
unless its lines can be read and it has some; then it stays only if the pattern and the replacement
have no flaw and the changed lines are what it held. -/
theorem sed_spares_iff (failed : (sed [expression, name]).start session = (.error fault, after)) :
    (∀ other, ¬ session.LeadsTo name other →
      after.files.standing other = session.files.standing other) ∧
    (∀ substitution trail content lines,
      Applies session expression name substitution trail content lines →
        after.files.get? trail = some (.file (substitution.remains lines))) ∧
    ((∀ place, after.files.standing place = session.files.standing place) ↔
      ∀ substitution trail content lines,
        Applies session expression name substitution trail content lines →
          lines = [] ∨ ∃ change, substitution.change = .ok change ∧
            Text.encode (lines.map change).flatten = content) := by
  have isAfter : after = ((sed [expression, name]).start session).2 := by rw [failed]
  by_cases late : ∃ substitution trail content lines,
      Applies session expression name substitution trail content lines
  · obtain ⟨substitution, trail, content, lines, applies⟩ := late
    have files := applies.start_sed_files
    rw [← isAfter] at files
    rw [files]
    refine ⟨fun other notNamed => ?_, fun _ _ _ _ alsoApplies => ?_, ?_⟩
    · refine FileTree.standing_put applies.holds.free _ ?_
      rintro rfl
      exact notNamed applies.holds.leads
    · obtain ⟨rfl, rfl, rfl, rfl⟩ := applies.unique alsoApplies
      exact FileTree.get?_put_file applies.holds.found _
    · rw [FileTree.standing_put_iff applies.holds.found, applies.remains_eq_iff]
      constructor
      · intro stays _ _ _ _ alsoApplies
        obtain ⟨rfl, rfl, rfl, rfl⟩ := applies.unique alsoApplies
        exact stays
      · intro stays
        exact stays _ _ _ _ applies
  · have untouched : after = session := by
      rcases sed_cases session expression name with ⟨_, refused⟩ | applies
      · rw [isAfter, refused]
      · exact absurd applies late
    have never substitution trail content lines :
        ¬ Applies session expression name substitution trail content lines := fun applies =>
      late ⟨substitution, trail, content, lines, applies⟩
    rw [untouched]
    refine ⟨fun _ _ => rfl, fun _ _ _ _ applies => (never _ _ _ _ applies).elim, ?_⟩
    exact ⟨fun _ _ _ _ _ applies => (never _ _ _ _ applies).elim, fun _ _ => rfl⟩

theorem exists_fault {action : Action Unit} (fails : (action.start session).1.toOption = none) :
    ∃ fault, action.start session = (.error fault, (action.start session).2) := by
  cases result : (action.start session).1 with
  | error fault => exact ⟨fault, Prod.ext result rfl⟩
  | ok done => simp [result, Except.toOption] at fails

/-- A session with two files, the first of which ends without a line feed. -/
def twoFiles : Session where
  files := .directory [("f".toList, .file (Text.encode "a\na".toList)),
    ("g".toList, .file (Text.encode "b".toList))]
  home := "/home".toList
  inputs := []

/-- The first match of a single letter is taken away. -/
def letterRemoval : Substitution := ⟨"a".toList, [], false⟩

theorem twoFiles_applies : Applies twoFiles "s/a//".toList "f".toList letterRemoval ["f".toList]
    (Text.encode "a\na".toList) ["a\n".toList, "a".toList] where
  meaning := rfl
  holds := ⟨⟨by decide, ⟨[], 0⟩, "f".toList, rfl, rfl, by decide, rfl⟩, rfl, "a\na".toList,
    Text.decode_encode _, by decide⟩

/-- Taking away the last letter of a file fails when the file has been rewritten. -/
theorem sed_spares_iff_emptied :
    let ended := (sed ["s/a//".toList, "f".toList]).start twoFiles
    ended.1.toOption = none ∧
      ended.2.files.standing ["g".toList] = some (.file (Text.encode "b".toList)) ∧
      ended.2.files.get? ["f".toList] = some (.file (Text.encode "\n".toList)) ∧
      ¬ ∀ place, ended.2.files.standing place = twoFiles.files.standing place := by
  have fails : ((sed ["s/a//".toList, "f".toList]).start twoFiles).1.toOption = none := by
    decide +kernel
  obtain ⟨fault, failed⟩ := exists_fault fails
  obtain ⟨others, left, spared⟩ := sed_spares_iff failed
  refine ⟨fails, ?_⟩
  have elsewhere : ¬ twoFiles.LeadsTo "f".toList ["g".toList] := fun leads =>
    absurd (leads.unique twoFiles_applies.holds.leads) (by decide)
  have remains : letterRemoval.remains ["a\n".toList, "a".toList] = Text.encode "\n".toList := by
    decide +kernel
  have rewritten := left _ _ _ _ twoFiles_applies
  rw [remains] at rewritten
  refine ⟨others _ elsewhere, rewritten, fun same => ?_⟩
  rcases spared.mp same _ _ _ _ twoFiles_applies with none | ⟨change, isChange, unchanged⟩
  · exact absurd none (by simp)
  · rw [Substitution.remains, isChange] at remains
    exact absurd (remains.symm.trans unchanged) (by decide)

/-- A flawed pattern costs the whole file. -/
theorem sed_flawed_empties :
    let ended := (sed ["s/(/x/".toList, "f".toList]).start twoFiles
    ended.1.toOption = none ∧ ended.2.files.contentAt ["f".toList] = [] := by
  decide +kernel

end Command

end MiniShell
