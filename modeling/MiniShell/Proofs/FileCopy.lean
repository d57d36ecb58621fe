/-
This file says when the copy of a file has the bytes of the file. A copy is
made by way of text: the bytes are decoded, the ends of lines become line
feeds, and what is written is encoded again. Decoding and encoding lose
nothing, so the copy differs from its original exactly if the original has a
carriage return in it.

So the copy holds the text of the original in any case. Only its bytes may be
others.
-/

import MiniShell.Proofs.Moving
import MiniShell.Proofs.TreeCopy
import MiniShell.Proofs.TemporaryFile

namespace MiniShell

open MiniShell.Action

/-- Bytes stay the same by way of text, if and only if no line in them ends with a carriage
return. -/
theorem Text.encode_unifyNewlines_iff {content : List UInt8} {text : Text}
    (decoded : decode content = .ok text) :
    encode (unifyNewlines text) = content ↔ 0x0D ∉ content := by
  obtain rfl := encode_of_decode decoded
  have isReturn : (0x0D : UInt8) = UInt8.ofNat '\r'.toNat := rfl
  rw [isReturn, mem_encode_iff (by decide), ← unifyNewlines_eq_iff]
  refine ⟨fun same => ?_, fun same => by rw [same]⟩
  have again := decode_encode (unifyNewlines text)
  rw [same, decoded] at again
  exact (Except.ok.inj again).symm

namespace Command

theorem cp_single {source : Text} (undashed : source.head? ≠ some '-') (target : Text) :
    cp [source, target] = copy source target false false := by
  have options : copyOptions false false [source, target] =
      .ok (false, false, [source, target]) := by
    simp [copyOptions, undashed]
  rw [cp, if_neg (by simp), options]

/-- A file is copied to a path that leads nowhere by copying its text. -/
theorem start_copy_file {session : Session} {source target : Text} {place : Trail}
    {content : List UInt8} (found : session.surroundings.find source = .ok (.file place content))
    (missing : session.surroundings.pathExists target = false) :
    (copy source target false false).start session = (copyText source target).start session := by
  have isFile : session.surroundings.isFile source = true := by
    rw [Surroundings.isFile, found]
  have targeted : (copyTarget source target).start session = (.ok target, session) := by
    simp [copyTarget, start_bind, Action.isFile, isFile]
  rw [copy, start_bind_ok targeted]
  simp [start_bind, Action.pathExists, missing]

/-- Copying a file of text to a path in a directory where nothing is. If that succeeds, the copy
holds the text of the file, the file and all else stay as they are, and the copy has the bytes of
the file if and only if there is no carriage return among them. -/
theorem cp_copies_iff {session after : Session} {source target : Text}
    (undashed : source.head? ≠ some '-') {place : Trail} {content : List UInt8}
    (found : session.surroundings.find source = .ok (.file place content)) {text : Text}
    (decoded : Text.decode content = .ok text)
    (missing : session.surroundings.pathExists target = false)
    (directory : ∀ trail, session.LeadsTo target trail →
      session.files.HasDirectory trail.dropLast)
    (copied : (cp [source, target]).start session = (.ok ⟨⟩, after)) :
    ∃ trail, session.Vacant target trail ∧
      after.files.get? trail = some (.file (Text.encode (Text.unifyNewlines text))) ∧
      after.files.get? place = some (.file content) ∧
      (∀ other, other ≠ trail → after.files.standing other = session.files.standing other) ∧
      (after.files.get? trail = some (.file content) ↔ 0x0D ∉ content) := by
  rw [cp_single undashed, start_copy_file found missing] at copied
  rcases copyText_cases session source target with
    ⟨fault, refused⟩ | ⟨_, _, lines, trail, holds, leads, free, done⟩
  · exact absurd (Prod.mk.inj (refused.symm.trans copied)).1 (by simp)
  obtain rfl := (Prod.mk.inj (done.symm.trans copied)).2
  obtain ⟨rfl, rfl⟩ := Surroundings.Found.file.inj
    (Except.ok.inj ((find_leads holds.leads holds.found).symm.trans found))
  obtain ⟨sameText, alsoDecoded, rfl⟩ := holds.decoded
  obtain rfl := Except.ok.inj (alsoDecoded.symm.trans decoded)
  -- A directory could not have been written, and a file would have been found.
  have nothing : session.files.get? trail = none := by
    cases held : session.files.get? trail with
    | none => rfl
    | some tree =>
      cases tree with
      | directory entries => exact absurd ⟨entries, held⟩ free
      | file bytes =>
        rw [Surroundings.pathExists, find_leads leads held] at missing
        exact absurd missing (by simp)
  have vacant : session.Vacant target trail := ⟨leads, directory trail leads, nothing⟩
  have written := vacant.get?_put (.file (Text.encode (Text.unifyNewlines sameText)))
  rw [Text.flatten_lines]
  refine ⟨trail, vacant, written, ?_, fun other different => ?_, ?_⟩
  · refine FileTree.get?_put_leaf free (FileTree.standing_file_below _) ?_ holds.found
    rintro rfl
    exact absurd (nothing.symm.trans holds.found) (by simp)
  · exact FileTree.standing_put free _ different
  · rw [← Text.encode_unifyNewlines_iff decoded]
    refine ⟨fun same => ?_, fun same => same ▸ written⟩
    exact FileTree.file.inj (Option.some.inj (written.symm.trans same))

/-- A session with a file whose line ends with a line feed, and one whose lines do not. -/
def lineEndSession : Session where
  files := .directory [("f".toList, .file (Text.encode "é\n".toList)),
    ("g".toList, .file (Text.encode "x\r\ny\r".toList))]
  home := "/home".toList
  inputs := []

/-- The first of them is copied byte by byte. -/
theorem cp_copies_iff_letter :
    let copied := (cp ["f".toList, "h".toList]).start lineEndSession
    copied.1.toOption = some () ∧ 0x0D ∉ Text.encode "é\n".toList ∧
      copied.2.files.get? ["h".toList] = some (.file (Text.encode "é\n".toList)) := by
  have succeeds : ((cp ["f".toList, "h".toList]).start lineEndSession).1.toOption = some () := by
    decide +kernel
  have noReturn : 0x0D ∉ Text.encode "é\n".toList := by decide
  have atTop : lineEndSession.LeadsTo "h".toList ["h".toList] :=
    ⟨by decide, ⟨[], 0⟩, "h".toList, rfl, rfl, by decide, rfl⟩
  have directory : ∀ trail, lineEndSession.LeadsTo "h".toList trail →
      lineEndSession.files.HasDirectory trail.dropLast := by
    intro trail leads
    obtain rfl := leads.unique atTop
    exact ⟨_, rfl⟩
  obtain ⟨trail, vacant, -, -, -, sameBytes⟩ := cp_copies_iff (by decide) rfl
    (Text.decode_encode _) rfl directory (start_of_toOption succeeds)
  obtain rfl := vacant.1.unique atTop
  exact ⟨succeeds, noReturn, sameBytes.mpr noReturn⟩

/-- The second is copied with line feeds. -/
theorem cp_unifies :
    let copied := (cp ["g".toList, "h".toList]).start lineEndSession
    copied.1.toOption = some () ∧
      lineEndSession.files.contentAt ["g".toList] = Text.encode "x\r\ny\r".toList ∧
      copied.2.files.contentAt ["h".toList] = Text.encode "x\ny\n".toList := by
  decide +kernel

end Command

end MiniShell
