/-
This file says once what reading can do to a cursor. A passage is a sequence of
the changes that the recogniser makes: it looks at tokens, reports, passes
tokens, makes up tokens and builds nodes. Reports are only ever added, so a
reading without reports had none at any point.

An action of the recogniser is sound for a relation if every run of it is a
passage, and if a run that starts outside of recovery and makes no report stays
outside of recovery and, where it does not break off, relates the cursor before
to the result and the cursor after. Sound actions compose, which is how the
rules of the grammar are treated one by one later.
-/

import MiniShell.Grammar.Recogniser

namespace MiniShell

/-! ### Running actions -/

namespace Recogniser

variable {Result Other : Type}

/-- Runs an action on a cursor. -/
def start (action : Recogniser Result) (cursor : Cursor) : Except Stumble Result × Cursor :=
  (ExceptT.run action).run cursor

@[simp] theorem start_pure (result : Result) (cursor : Cursor) :
    (pure result : Recogniser Result).start cursor = (.ok result, cursor) := rfl

@[simp] theorem start_get (cursor : Cursor) :
    (get : Recogniser Cursor).start cursor = (.ok cursor, cursor) := rfl

@[simp] theorem start_set (next cursor : Cursor) :
    (set next : Recogniser PUnit).start cursor = (.ok ⟨⟩, next) := rfl

@[simp] theorem start_modify (change : Cursor → Cursor) (cursor : Cursor) :
    (modify change : Recogniser PUnit).start cursor = (.ok ⟨⟩, change cursor) := rfl

@[simp] theorem start_throw (stumble : Stumble) (cursor : Cursor) :
    (throw stumble : Recogniser Result).start cursor = (.error stumble, cursor) := rfl

@[simp] theorem start_lift (action : StateM Cursor Result) (cursor : Cursor) :
    (liftM action : Recogniser Result).start cursor =
      (.ok (action.run cursor).1, (action.run cursor).2) := rfl

theorem start_bind (action : Recogniser Result) (next : Result → Recogniser Other)
    (cursor : Cursor) :
    (action >>= next).start cursor =
      match action.start cursor with
      | (.ok result, after) => (next result).start after
      | (.error stumble, after) => (.error stumble, after) := by
  show (ExceptT.bindCont next (action.start cursor).1).run (action.start cursor).2 = _
  rcases action.start cursor with ⟨stumble | result, after⟩ <;> rfl

end Recogniser

/-! ### Passages -/

/-- Whether a complaint is about tokens, and not about text that is no token. -/
def Complaint.isAboutTokens : Complaint → Bool
  | .unrecognised _ => false
  | _ => true

/-- What reading can do to a cursor, step by step. The node of a rule is built from the
children that a passage of its own has collected. -/
inductive Passage : Cursor → Cursor → Prop
  | refl (start : Cursor) : Passage start start
  | look {start cursor : Cursor} (count : Nat) (before : Passage start cursor) :
      Passage start (cursor.look count)
  | report {start cursor : Cursor} (mark : Mark) (complaint : Complaint)
      (isAbout : complaint.isAboutTokens = true) (before : Passage start cursor) :
      Passage start { cursor.report mark complaint with recovering := true }
  | pass {start cursor : Cursor} (before : Passage start cursor) : Passage start cursor.pass
  | settle {start cursor : Cursor} (before : Passage start cursor) : Passage start cursor.settle
  | stumble {start cursor : Cursor} (stumbledAt : Option Nat) (stumbles : List Place)
      (before : Passage start cursor) : Passage start { cursor with stumbledAt, stumbles }
  | enlist {start cursor : Cursor} (event : Tree.Event) (before : Passage start cursor) :
      Passage start (cursor.enlist event)
  | makeUp {start cursor : Cursor} (kind : Kind) (before : Passage start cursor) :
      Passage start { cursor with children := cursor.children ++ [.missing kind] }
  | wrap {start cursor : Cursor} (rule : Rule) (before : Passage start cursor) :
      Passage start (cursor.wrap rule)
  | node {start cursor inner : Cursor} (rule : Rule) (before : Passage start cursor)
      (below : Passage { cursor with children := [] } inner) :
      Passage start { inner with children := cursor.children ++ [.node rule inner.children] }

namespace Passage

theorem trans {start middle finish : Cursor} (before : Passage start middle)
    (behind : Passage middle finish) : Passage start finish := by
  induction behind with
  | refl _ => exact before
  | look count _ inductionHypothesis => exact (inductionHypothesis before).look count
  | report mark complaint isAbout _ inductionHypothesis =>
    exact (inductionHypothesis before).report mark complaint isAbout
  | pass _ inductionHypothesis => exact (inductionHypothesis before).pass
  | settle _ inductionHypothesis => exact (inductionHypothesis before).settle
  | stumble stumbledAt stumbles _ inductionHypothesis =>
    exact (inductionHypothesis before).stumble stumbledAt stumbles
  | enlist event _ inductionHypothesis => exact (inductionHypothesis before).enlist event
  | makeUp kind _ inductionHypothesis => exact (inductionHypothesis before).makeUp kind
  | wrap rule _ inductionHypothesis => exact (inductionHypothesis before).wrap rule
  | node rule _ below inductionHypothesis _ => exact (inductionHypothesis before).node rule below

/-! ### Combined changes -/

theorem accept (cursor : Cursor) : Passage cursor cursor.accept := (refl cursor).settle.pass

theorem passMany (count : Nat) (cursor : Cursor) :
    Passage cursor (Cursor.passMany count cursor) := by
  induction count generalizing cursor with
  | zero => exact refl cursor
  | succ count inductionHypothesis =>
    exact (refl cursor).pass.trans (inductionHypothesis cursor.pass)

theorem skipUntil (kinds : List Kind) (cursor : Cursor) :
    Passage cursor (cursor.skipUntil kinds) := passMany _ cursor

theorem unwanted (cursor : Cursor) : Passage cursor cursor.unwanted := by
  unfold Cursor.unwanted
  split
  · exact refl cursor
  · exact (refl cursor).report _ _ rfl

theorem recover (sites : List Site) (stumble : Stumble)
    (isAbout : stumble.complaint.isAboutTokens = true) (cursor : Cursor) :
    Passage cursor (cursor.recover sites stumble) := by
  unfold Cursor.recover
  extract_lets looked complaining reported settled
  have toLooked : Passage cursor looked := by
    unfold looked
    split
    · exact (refl cursor).look _
    · exact refl cursor
  have toReported : Passage cursor reported := by
    unfold reported
    split
    · exact refl cursor
    · exact toLooked.report stumble.mark stumble.complaint isAbout
  have toSettled : Passage cursor settled := by
    unfold settled
    split
    · exact toReported.pass
    · exact toReported
  exact (toSettled.stumble _ _).trans (skipUntil _ _)

/-! ### Reports -/

@[simp] theorem addLeaf_reports (token : Token) (cursor : Cursor) :
    (cursor.addLeaf token).reports = cursor.reports := by
  unfold Cursor.addLeaf
  split <;> rfl

@[simp] theorem pass_reports (cursor : Cursor) : cursor.pass.reports = cursor.reports := by
  unfold Cursor.pass
  split
  · exact addLeaf_reports _ _
  · exact addLeaf_reports _ _

/-- Reports are only ever added, and those that are added are about tokens. -/
theorem reports_append {start finish : Cursor} (passage : Passage start finish) :
    ∃ added : List (Nat × Report), finish.reports = start.reports ++ added ∧
      ∀ entry ∈ added, entry.2.complaint.isAboutTokens = true := by
  induction passage with
  | refl cursor =>
    exact ⟨[], (List.append_nil _).symm, fun _ member => absurd member List.not_mem_nil⟩
  | look count _ inductionHypothesis => exact inductionHypothesis
  | @report start cursor mark complaint isAbout _ inductionHypothesis =>
    obtain ⟨added, reports, areAbout⟩ := inductionHypothesis
    refine ⟨added ++ [(cursor.looked, ⟨mark, complaint⟩)], ?_, ?_⟩
    · simp only [Cursor.report, reports, List.append_assoc]
    · intro entry member
      rcases List.mem_append.mp member with inAdded | isNew
      · exact areAbout entry inAdded
      · rw [List.mem_singleton.mp isNew]
        exact isAbout
  | pass _ inductionHypothesis =>
    rw [pass_reports]
    exact inductionHypothesis
  | settle _ inductionHypothesis => exact inductionHypothesis
  | stumble stumbledAt stumbles _ inductionHypothesis => exact inductionHypothesis
  | enlist event _ inductionHypothesis => exact inductionHypothesis
  | makeUp kind _ inductionHypothesis => exact inductionHypothesis
  | wrap rule _ inductionHypothesis => exact inductionHypothesis
  | node rule _ _ before below =>
    obtain ⟨added, reports, areAbout⟩ := before
    obtain ⟨more, reportsBelow, moreAbout⟩ := below
    refine ⟨added ++ more, ?_, ?_⟩
    · rw [reportsBelow, reports, List.append_assoc]
    · intro entry member
      rcases List.mem_append.mp member with inAdded | inMore
      · exact areAbout entry inAdded
      · exact moreAbout entry inMore

theorem reports_le {start finish : Cursor} (passage : Passage start finish) :
    start.reports.length ≤ finish.reports.length := by
  obtain ⟨added, reports, _⟩ := passage.reports_append
  rw [reports, List.length_append]
  exact Nat.le_add_right _ _

end Passage

/-! ### Sound actions -/

namespace Recogniser

variable {Result Other : Type}

/-- An action is sound for a relation if its runs are passages, if what it breaks off for is
about tokens, and if every run that starts outside of recovery and makes no report ends outside
of recovery and, unless it breaks off, in the relation. -/
structure Sound (action : Recogniser Result) (relation : Cursor → Result → Cursor → Prop) :
    Prop where
  passage : ∀ cursor, Passage cursor (action.start cursor).2
  stumbles : ∀ cursor stumble, (action.start cursor).1 = .error stumble →
    stumble.complaint.isAboutTokens = true
  quiet : ∀ cursor, cursor.recovering = false →
    (action.start cursor).2.reports.length = cursor.reports.length →
    (action.start cursor).2.recovering = false ∧
      ∀ result, (action.start cursor).1 = .ok result →
        relation cursor result (action.start cursor).2

namespace Sound

theorem weaken {action : Recogniser Result} {relation other : Cursor → Result → Cursor → Prop}
    (sound : action.Sound relation)
    (implies : ∀ before result after, before.recovering = false →
      relation before result after → other before result after) :
    action.Sound other where
  passage := sound.passage
  stumbles := sound.stumbles
  quiet cursor calm silent := by
    obtain ⟨calmAfter, related⟩ := sound.quiet cursor calm silent
    exact ⟨calmAfter, fun result outcome => implies _ _ _ calm (related result outcome)⟩

/-- An action that never comes to its end without a report. -/
theorem never {action : Recogniser Result} {relation : Cursor → Result → Cursor → Prop}
    (sound : action.Sound relation)
    (impossible : ∀ before result after, ¬ relation before result after) :
    action.Sound fun _ _ _ => False :=
  sound.weaken fun before result after _ => impossible before result after

/-- Sound actions compose. A report in either part would be a report of the whole. -/
theorem bind {action : Recogniser Result} {next : Result → Recogniser Other}
    {first : Cursor → Result → Cursor → Prop}
    {second : Result → Cursor → Other → Cursor → Prop}
    (sound : action.Sound first) (soundNext : ∀ result, (next result).Sound (second result)) :
    (action >>= next).Sound fun before other after =>
      ∃ result middle, first before result middle ∧ second result middle other after where
  passage cursor := by
    have passage := sound.passage cursor
    rw [start_bind]
    rcases outcome : action.start cursor with ⟨stumble | result, middle⟩
    · rw [outcome] at passage
      exact passage
    · rw [outcome] at passage
      exact passage.trans ((soundNext result).passage middle)
  stumbles cursor stumble := by
    have stumbles := sound.stumbles cursor
    rw [start_bind]
    rcases outcome : action.start cursor with ⟨other | result, middle⟩
    · rw [outcome] at stumbles
      exact fun equal => Except.error.inj equal ▸ stumbles other rfl
    · exact (soundNext result).stumbles middle stumble
  quiet cursor calm silent := by
    have passage := sound.passage cursor
    have quiet := sound.quiet cursor calm
    rw [start_bind] at silent ⊢
    rcases outcome : action.start cursor with ⟨stumble | result, middle⟩
    · rw [outcome] at quiet silent
      exact ⟨(quiet silent).1, fun result equal => absurd equal (by simp)⟩
    · rw [outcome] at quiet passage silent
      have more := ((soundNext result).passage middle).reports_le
      have middleSilent : middle.reports.length = cursor.reports.length :=
        Nat.le_antisymm (Nat.le_trans more (Nat.le_of_eq silent)) passage.reports_le
      obtain ⟨calmMiddle, related⟩ := quiet middleSilent
      obtain ⟨calmAfter, relatedNext⟩ :=
        (soundNext result).quiet middle calmMiddle (silent.trans middleSilent.symm)
      exact ⟨calmAfter, fun other equal =>
        ⟨result, middle, related result rfl, relatedNext other equal⟩⟩

theorem pure (result : Result) :
    (Pure.pure result : Recogniser Result).Sound fun before value after =>
      value = result ∧ after = before where
  passage := Passage.refl
  stumbles _ _ equal := absurd equal (by simp)
  quiet _ calm _ := ⟨calm, fun _ equal => ⟨(Except.ok.inj equal).symm, rfl⟩⟩

theorem get :
    (MonadState.get : Recogniser Cursor).Sound fun before value after =>
      value = before ∧ after = before where
  passage := Passage.refl
  stumbles _ _ equal := absurd equal (by simp)
  quiet _ calm _ := ⟨calm, fun _ equal => ⟨(Except.ok.inj equal).symm, rfl⟩⟩

/-- A change of the cursor is sound if it is a passage that does not go into recovery without
a report. -/
theorem changing {change : Cursor → Cursor} (passage : ∀ cursor, Passage cursor (change cursor))
    (calm : ∀ cursor, cursor.recovering = false →
      (change cursor).reports.length = cursor.reports.length →
      (change cursor).recovering = false) :
    (modify change : Recogniser PUnit).Sound fun before _ after =>
      after = change before where
  passage := passage
  stumbles _ _ equal := absurd equal (by simp)
  quiet cursor calmBefore silent := ⟨calm cursor calmBefore silent, fun _ _ => rfl⟩

theorem throw (stumble : Stumble) (isAbout : stumble.complaint.isAboutTokens = true) :
    (MonadExcept.throw stumble : Recogniser Result).Sound fun _ _ _ => False where
  passage := Passage.refl
  stumbles _ _ equal := Except.error.inj equal ▸ isAbout
  quiet _ calm _ := ⟨calm, fun _ equal => absurd equal (by simp)⟩

theorem branch (condition : Prop) [Decidable condition] {action other : Recogniser Result}
    {first second : Cursor → Result → Cursor → Prop} (sound : action.Sound first)
    (soundOther : other.Sound second) :
    (if condition then action else other).Sound fun before result after =>
      (condition ∧ first before result after) ∨ (¬ condition ∧ second before result after) := by
  by_cases holds : condition
  · rw [if_pos holds]
    exact sound.weaken fun _ _ _ _ related => Or.inl ⟨holds, related⟩
  · rw [if_neg holds]
    exact soundOther.weaken fun _ _ _ _ related => Or.inr ⟨holds, related⟩

/-- An action that puts a new cursor in place on some condition and does something else
otherwise. -/
theorem setting (condition : Cursor → Prop) [DecidablePred condition] {next : Cursor → Cursor}
    (passage : ∀ cursor, Passage cursor (next cursor))
    (calm : ∀ cursor, (next cursor).recovering = false) (result : Result)
    {other : Cursor → Recogniser Result} {relation : Cursor → Result → Cursor → Prop}
    (sound : ∀ cursor, (other cursor).Sound relation) :
    (MonadState.get >>= fun cursor =>
      if condition cursor then MonadState.set (next cursor) >>= fun _ => Pure.pure result
      else other cursor : Recogniser Result).Sound fun before value after =>
        (condition before ∧ value = result ∧ after = next before) ∨
          relation before value after := by
  constructor
  · intro cursor
    rw [start_bind]
    by_cases holds : condition cursor
    · simp only [start_get, if_pos holds]
      exact passage cursor
    · simp only [start_get, if_neg holds]
      exact (sound cursor).passage cursor
  · intro cursor stumble
    rw [start_bind]
    by_cases holds : condition cursor
    · simp only [start_get, if_pos holds]
      exact fun equal => absurd (show Except.ok result = Except.error stumble from equal) (by simp)
    · simp only [start_get, if_neg holds]
      exact (sound cursor).stumbles cursor stumble
  · intro cursor calmBefore silent
    rw [start_bind] at silent ⊢
    by_cases holds : condition cursor
    · simp only [start_get, if_pos holds]
      exact ⟨calm cursor, fun value equal => Or.inl ⟨holds, (Except.ok.inj equal).symm, rfl⟩⟩
    · simp only [start_get, if_neg holds] at silent ⊢
      obtain ⟨calmAfter, related⟩ := (sound cursor).quiet cursor calmBefore silent
      exact ⟨calmAfter, fun value equal => Or.inr (related value equal)⟩

end Sound

/-! ### The single steps of reading -/

theorem mismatch_sound (place : Place) :
    (mismatch place : Recogniser Result).Sound fun _ _ _ => False :=
  (Sound.get.bind fun _ => Sound.throw _ rfl).weaken fun _ _ _ _ ⟨_, _, _, impossible⟩ => impossible

/-- Following a forecast looks ahead and takes the alternative it sees, if there is one. -/
theorem start_follow {Choice : Type} (place : Place) (forecast : List Kind → Forecast Choice)
    (cursor : Cursor) :
    ∃ stumble : Stumble, stumble.complaint.isAboutTokens = true ∧
      (follow place forecast).start cursor =
      ((forecast cursor.ahead).choice.elim (.error stumble) .ok,
        cursor.look (forecast cursor.ahead).looked) := by
  unfold follow
  simp only [start_bind, start_get, start_set]
  cases (forecast cursor.ahead).choice with
  | none => exact ⟨_, rfl, rfl⟩
  | some choice => exact ⟨⟨place, cursor.finish, .noAlternative [], true⟩, rfl, rfl⟩

/-- Following a forecast without a report takes the choice that it makes. -/
theorem follow_sound {Choice : Type} (place : Place) (forecast : List Kind → Forecast Choice) :
    (follow place forecast).Sound fun before choice after =>
      (forecast before.ahead).choice = some choice ∧
        after = before.look (forecast before.ahead).looked := by
  constructor
  · intro cursor
    obtain ⟨stumble, _, run⟩ := start_follow place forecast cursor
    rw [run]
    exact (Passage.refl cursor).look _
  · intro cursor other
    obtain ⟨stumble, isAbout, run⟩ := start_follow place forecast cursor
    rw [run]
    cases (forecast cursor.ahead).choice with
    | none => exact fun equal => Except.error.inj equal ▸ isAbout
    | some choice => exact fun equal => absurd equal (by simp)
  · intro cursor calm _
    obtain ⟨stumble, _, run⟩ := start_follow place forecast cursor
    rw [run]
    refine ⟨calm, fun choice equal => ⟨?_, rfl⟩⟩
    cases seen : (forecast cursor.ahead).choice with
    | none => simp [seen] at equal
    | some other => simpa [seen] using equal

theorem unwanted_reports {cursor : Cursor} (calm : cursor.recovering = false) :
    cursor.unwanted.reports.length = cursor.reports.length + 1 := by
  simp [Cursor.unwanted, Cursor.report, calm]

/-- Leaving out a token makes a report. -/
theorem leaveOut_sound (place : Place) (sites : List Site) :
    (leaveOut place sites).Sound fun before result after =>
      result = false ∧ after = before.look 2 := by
  have run (cursor : Cursor) : (leaveOut place sites).start cursor =
      if (expected place.next sites).contains (cursor.look 2).second then
        (.ok true, (cursor.look 2).unwanted.pass.settle)
      else (.ok false, cursor.look 2) := by
    unfold leaveOut
    simp only [start_bind, start_modify, start_get]
    split <;> rfl
  constructor
  · intro cursor
    rw [run]
    split
    · exact (((Passage.refl cursor).look 2).trans (Passage.unwanted _)).pass.settle
    · exact (Passage.refl cursor).look 2
  · intro cursor stumble
    rw [run]
    split <;> exact fun equal => absurd equal (by simp)
  · intro cursor calm silent
    rw [run] at silent ⊢
    split at silent
    · have reported : (cursor.look 2).unwanted.reports.length = cursor.reports.length + 1 :=
        unwanted_reports calm
      have same : (cursor.look 2).unwanted.pass.settle.reports =
          (cursor.look 2).unwanted.reports := Passage.pass_reports _
      simp only [same, reported] at silent
      omega
    · rename_i unexpected
      rw [if_neg unexpected]
      exact ⟨calm, fun result equal => ⟨(Except.ok.inj equal).symm, rfl⟩⟩

/-- Without a report the token ahead is one that the place asks for. -/
theorem check_sound (place : Place) (sites : List Site) :
    (check place sites).Sound fun before _ after =>
      place.next.kinds.contains before.current.kind = true ∧ after = before := by
  have branches (cursor : Cursor) := Sound.branch
    ((cursor.recovering || place.next.kinds.contains cursor.current.kind) = true)
    (Sound.pure ()) ((leaveOut_sound place sites).bind fun left =>
      Sound.branch (left = true) (Sound.pure ()) (mismatch_sound place))
  refine (Sound.get.bind branches).weaken ?_
  rintro before _ after calm ⟨cursor, middle, ⟨rfl, rfl⟩, related⟩
  rcases related with ⟨fits, _, rfl⟩ | ⟨_, left, last, ⟨rfl, _⟩, related⟩
  · rw [calm, Bool.false_or] at fits
    exact ⟨fits, rfl⟩
  · rcases related with ⟨impossible, _⟩ | ⟨_, impossible⟩
    · exact absurd impossible (by decide)
    · exact impossible.elim

/-- The check before another round of a loop changes nothing, unless it reports. -/
theorem checkAgain_sound (place : Place) (sites : List Site) :
    (checkAgain place sites).Sound fun before _ after => after = before := by
  have run (cursor : Cursor) : (checkAgain place sites).start cursor =
      (.ok (), if cursor.recovering || place.next.kinds.contains cursor.current.kind then cursor
        else cursor.unwanted.skipUntil (expected place.next sites ++ resumption sites)) := by
    unfold checkAgain
    simp only [start_bind, start_get]
    split <;> rfl
  have skipped (cursor : Cursor) : Passage cursor.unwanted
      (cursor.unwanted.skipUntil (expected place.next sites ++ resumption sites)) :=
    Passage.skipUntil _ _
  constructor
  · intro cursor
    rw [run]
    split
    · exact Passage.refl cursor
    · exact (Passage.unwanted cursor).trans (skipped cursor)
  · intro cursor stumble
    rw [run]
    exact fun equal => absurd equal (by simp)
  · intro cursor calm silent
    rw [run] at silent ⊢
    split at silent
    · rename_i fits
      rw [if_pos fits]
      exact ⟨calm, fun _ _ => rfl⟩
    · have more := (skipped cursor).reports_le
      rw [unwanted_reports calm] at more
      simp only at silent
      omega

@[simp] theorem pass_recovering (cursor : Cursor) :
    cursor.pass.recovering = cursor.recovering := by
  have leaf (token : Token) (cursor : Cursor) :
      (cursor.addLeaf token).recovering = cursor.recovering := by
    unfold Cursor.addLeaf
    split <;> rfl
  unfold Cursor.pass
  split <;> exact leaf _ _

/-- A complaint made outside of recovery is a report. -/
theorem complain_sound (mark : Mark) (complaint : Complaint)
    (isAbout : complaint.isAboutTokens = true) :
    (modify fun cursor => if cursor.recovering then cursor
      else { cursor.report mark complaint with recovering := true } :
      Recogniser PUnit).Sound fun _ _ _ => False := by
  constructor
  · intro cursor
    rw [start_modify]
    split
    · exact Passage.refl cursor
    · exact (Passage.refl cursor).report mark complaint isAbout
  · exact fun cursor stumble equal => absurd equal (by simp)
  · intro cursor calm silent
    simp [calm, Cursor.report] at silent

/-- Without a report the token that a place asks for is there and is passed. -/
theorem require_sound (place : Place) (sites : List Site) :
    (require place sites).Sound fun before result after => result = false ∧
      place.next.kinds.contains before.current.kind = true ∧ after = before.accept := by
  -- What happens when another token is ahead never stays without a report.
  have left := (Sound.changing (fun cursor => (Passage.refl cursor).pass)
    fun cursor calm _ => (pass_recovering cursor).trans calm).bind fun _ => Sound.pure false
  have missing (token : Token) := Sound.never
    (Sound.branch ((expected place.afterToken sites).contains token.kind = true)
      ((complain_sound token.mark (.missing place.next.kinds token.text) rfl).bind
        fun _ => Sound.pure true) (mismatch_sound place))
    (by
      rintro before result after (⟨_, _, _, impossible, _⟩ | ⟨_, impossible⟩)
      · exact impossible
      · exact impossible)
  have other (token : Token) := Sound.never
    ((leaveOut_sound place sites).bind fun isLeft =>
      Sound.branch (isLeft = true) left (missing token))
    (by
      rintro before result after ⟨isLeft, _, ⟨rfl, _⟩, ⟨impossible, _⟩ | ⟨_, impossible⟩⟩
      · exact absurd impossible (by decide)
      · exact impossible)
  refine (Sound.setting (fun cursor => place.next.kinds.contains cursor.current.kind = true)
    Passage.accept (fun cursor => pass_recovering cursor.settle) false
    fun cursor => other cursor.current).weaken ?_
  rintro before result after _ (⟨fits, rfl, rfl⟩ | impossible)
  · exact ⟨rfl, fits, rfl⟩
  · exact impossible.elim

theorem requireOne_sound (kind : Kind) (place : Place) (sites : List Site) :
    (requireOne kind place sites).Sound fun before _ after =>
      place.next.kinds.contains before.current.kind = true ∧ after = before.accept := by
  have branches (madeUp : Bool) := Sound.branch (madeUp = true)
    (Sound.changing (fun cursor => (Passage.refl cursor).makeUp kind)
      fun cursor calm _ => calm)
    (Sound.pure ())
  refine ((require_sound place sites).bind branches).weaken ?_
  rintro before _ after _ ⟨madeUp, middle, ⟨rfl, fits, rfl⟩, ⟨impossible, _⟩ | ⟨_, _, rfl⟩⟩
  · exact absurd impossible (by decide)
  · exact ⟨fits, rfl⟩

/-! ### The frame of a rule -/

theorem run_within (rule : Rule) (sites : List Site) (body : Recogniser Unit) (cursor : Cursor) :
    (within rule sites body).run cursor =
      match body.start { cursor.enlist (.enter rule) with children := [] } with
      | (.ok _, inner) => ((), { inner.announceExit rule with
          children := cursor.children ++ [.node rule inner.children] })
      | (.error stumble, inner) =>
        ((), { (inner.recover sites stumble).announceExit rule with
          children :=
            cursor.children ++ [.node rule (inner.recover sites stumble).children] }) := by
  have body_run : (ExceptT.run body).run { cursor.enlist (.enter rule) with children := [] } =
      body.start { cursor.enlist (.enter rule) with children := [] } := rfl
  simp only [within, StateT.run_bind, StateT.run_get, StateT.run_modify, pure_bind]
  rw [body_run]
  rcases body.start { cursor.enlist (.enter rule) with children := [] } with
    ⟨stumble | result, inner⟩ <;> rfl

/-- Outside of recovery a rule that breaks off makes a report. -/
theorem recover_reports (sites : List Site) (stumble : Stumble) {cursor : Cursor}
    (calm : cursor.recovering = false) :
    cursor.reports.length < (cursor.recover sites stumble).reports.length := by
  unfold Cursor.recover
  rw [if_neg (by simp [calm])]
  extract_lets looked reporting complaining settled
  have reported : complaining.reports.length = cursor.reports.length + 1 := by
    have same : looked.reports = cursor.reports := by
      unfold looked
      split <;> rfl
    simp [complaining, reporting, Cursor.report, same]
  have toSettled : Passage complaining settled := by
    unfold settled
    split
    · exact (Passage.refl complaining).pass
    · exact Passage.refl complaining
  have more := ((toSettled.stumble (some settled.passed)
    (stumble.place :: settled.stumbles)).trans (Passage.skipUntil (resumption sites) _)).reports_le
  omega

/-- The node of a rule holds the children that its body has read. -/
theorem within_sound (rule : Rule) (sites : List Site) {body : Recogniser Unit}
    {relation : Cursor → Unit → Cursor → Prop} (sound : body.Sound relation) :
    (liftM (within rule sites body) : Recogniser Unit).Sound fun before _ after =>
      ∃ inner, relation { before.enlist (.enter rule) with children := [] } () inner ∧
        after.rest = inner.rest ∧
        after.children = before.children ++ [.node rule inner.children] := by
  constructor
  · intro cursor
    have entered : Passage cursor (cursor.enlist (.enter rule)) := (Passage.refl cursor).enlist _
    have below := sound.passage { cursor.enlist (.enter rule) with children := [] }
    rw [start_lift, run_within]
    rcases outcome : body.start { cursor.enlist (.enter rule) with children := [] } with
      ⟨stumble | result, inner⟩
    · rw [outcome] at below
      have isAbout := sound.stumbles _ stumble (congrArg Prod.fst outcome)
      exact entered.node rule ((below.trans (Passage.recover sites stumble isAbout inner)).enlist _)
    · rw [outcome] at below
      exact entered.node rule (below.enlist _)
  · exact fun cursor stumble equal => absurd equal (by simp)
  · intro cursor calm silent
    have below := sound.passage { cursor.enlist (.enter rule) with children := [] }
    have quiet := sound.quiet { cursor.enlist (.enter rule) with children := [] } calm
    rw [start_lift, run_within] at silent ⊢
    rcases outcome : body.start { cursor.enlist (.enter rule) with children := [] } with
      ⟨stumble | result, inner⟩
    · rw [outcome] at below quiet silent
      have isAbout := sound.stumbles _ stumble (congrArg Prod.fst outcome)
      have recovered := (Passage.recover sites stumble isAbout inner).reports_le
      have more := below.reports_le
      have same : inner.reports.length = cursor.reports.length :=
        Nat.le_antisymm (Nat.le_trans recovered (Nat.le_of_eq silent)) more
      -- A body that stumbles is recovered from with a report, so that it cannot have been silent.
      have reported : inner.reports.length < (inner.recover sites stumble).reports.length :=
        recover_reports sites stumble (quiet same).1
      have overall : (inner.recover sites stumble).reports.length = cursor.reports.length := silent
      omega
    · rw [outcome] at quiet silent
      obtain ⟨calmAfter, related⟩ := quiet silent
      exact ⟨calmAfter, fun _ _ => ⟨inner, related result rfl, rfl, rfl⟩⟩

end Recogniser

end MiniShell
