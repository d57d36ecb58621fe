/-
This file shows that a line read without a report is read to its end, unless it
is one of the lines that are cut off at a bar. Reading stops only where no rule
can go on: at the end of the line, before a separator, or between two blanks.
Blanks that stand side by side are one token, so two of them are parted by text
that is no token, and that is reported. A semicolon is taken by the innermost
command that admits it, so a bar remains.

Which bar remains follows from the look ahead: a call before a bar is taken by
itself only if no whole call follows, and a pipe that has come to its second
bar takes everything up to a semicolon behind which the line fits outside of
pipes. Of the lines that are cut off only those fit in which a call breaks off
in a redirection behind the cut.

Reading is followed from the end of the line to its beginning: what a loop
leaves is known from what the rest of the loop leaves, so that each round has
only to put one more command in front.
-/

import MiniShell.Proofs.Severed
import MiniShell.Proofs.Tiling
import MiniShell.Proofs.TokenAccount

namespace MiniShell

open MiniShell.Derivation
open Cursor (Took)

variable {line : Text} {rest tokens : List Token} {lexemes : List Lexeme} {sites : List Site}

/-! ### Where a call stops -/

/-- No two blanks stand side by side in the tokens up to and including the first one of the rest,
and the end of the line is not among the tokens. -/
structure Spaced (tokens rest : List Token) : Prop where
  present : ∀ token ∈ tokens, token.kind ≠ .lineEnd
  apart : ∀ front first second behind, tokens = front ++ first :: second :: behind →
    rest.length ≤ behind.length + 1 → first.kind = .blank → second.kind ≠ .blank

namespace Spaced

theorem behind {taken : List Token} (spaced : Spaced (taken ++ tokens) rest) :
    Spaced tokens rest where
  present token member := spaced.present token (List.mem_append_right taken member)
  apart front first second behind split :=
    spaced.apart (taken ++ front) first second behind (by rw [split, List.append_assoc])

theorem tail {token : Token} (spaced : Spaced (token :: tokens) rest) : Spaced tokens rest := by
  rw [← List.singleton_append] at spaced
  exact spaced.behind

theorem sooner {middle : List Token} (spaced : Spaced tokens rest) (ends : rest <:+ middle) :
    Spaced tokens middle where
  present := spaced.present
  apart front first second behind split inside :=
    spaced.apart front first second behind split (Nat.le_trans ends.length_le inside)

end Spaced

theorem run_length_le (part : CallPart) (kinds : List Kind) :
    (part.run kinds).2.2.length ≤ kinds.length := by
  induction kinds generalizing part with
  | nil => exact Nat.le_refl _
  | cons kind rest inductionHypothesis =>
    rw [CallPart.run]
    cases part.step kind with
    | none => exact Nat.le_refl _
    | some next => exact Nat.le_succ_of_le (inductionHypothesis next)

/-- The automaton has stopped behind a call, so the next token does not continue the call. -/
theorem step_of_stops {call : Call} {token : Token} {rest : List Token}
    (stops : (CallPart.start.run (kindsOf (call.tokens ++ token :: rest))).2.2 =
      kindsOf (token :: rest)) : call.lastPart.step token.kind = none := by
  rw [kindsOf_append, CallPart.run_of_through _ (through_lastPart call), kindsOf_cons,
    CallPart.run] at stops
  cases stepped : call.lastPart.step token.kind with
  | none => rfl
  | some next =>
    rw [stepped] at stops
    have shorter := run_length_le next (kindsOf rest)
    have same : (next.run (kindsOf rest)).2.2 = token.kind :: kindsOf rest := stops
    rw [same, List.length_cons] at shorter
    omega

/-- Where no two blanks stand side by side, reading a call stops at the end of the line or before
a separator. -/
theorem boundary_of_stops {call : Call} (spaced : Spaced (call.tokens ++ rest) rest)
    (stops : (CallPart.start.run (kindsOf (call.tokens ++ rest))).2.2 = kindsOf rest) :
    Boundary rest := by
  cases rest with
  | nil => trivial
  | cons token others =>
    have stuck := step_of_stops stops
    have present := spaced.present token (by simp)
    unfold Call.lastPart at stuck
    show token.kind.isSeparator = true
    cases trail : call.trail with
    | none =>
      rw [trail] at stuck
      have stuckWords : CallPart.words.step token.kind = none := stuck
      revert stuckWords present
      cases token.kind <;> decide
    | some blank =>
      rw [trail] at stuck
      have stuckBlank : CallPart.wordsBlank.step token.kind = none := stuck
      have notBlank : token.kind ≠ .blank := by
        refine spaced.apart (blankTokens call.lead ++ leadingTokens call.leading ++
          call.first.tokens ++ atomTokens call.atoms) blank.val token others ?_ (by simp)
          blank.property
        rw [Call.tokens, trail, List.append_assoc]
        rfl
      revert stuckBlank present notBlank
      cases token.kind <;> decide

/-! ### What is left behind the parts of a line -/

/-- Behind a pipe that has come to its second bar: nothing, or a semicolon behind which the line
fits outside of pipes. -/
def Fitting (rest : List Token) : Prop :=
  ∀ token others, rest = token :: others → token.kind = .semicolon ∧
    (lookOutside false .start (kindsOf others)).1 = true

/-- One operand was read. It is short, or else what stands behind it is fitting. -/
def OperandRead (tokens rest : List Token) : Prop :=
  ∃ operand : Derivation.Command, tokens = operand.tokens ++ rest ∧
    (operand.isShort = true ∨ Fitting rest) ∧
    ∀ bar others, rest = bar :: others → bar.kind = .bar → StopsBefore others operand.tokens

/-- What remains of a line that is read as a command. -/
def Remains (tokens unread : List Token) : Prop := unread = [] ∨ Severed tokens unread

/-- What remains where commands behind semicolons are read, if there are any. -/
def OthersRemain (tokens unread : List Token) : Prop :=
  (unread = tokens ∧ ∀ token rest, tokens = token :: rest → token.kind ≠ .semicolon) ∨
    ∃ (semicolon : Semicolon) (rest : List Token), tokens = semicolon.val :: rest ∧
      Remains rest unread

/-- What remains behind an operand and the commands after it. -/
theorem OperandRead.remains {unread : List Token} (read : OperandRead tokens rest)
    (boundary : Boundary rest) (others : OthersRemain rest unread) : Remains tokens unread := by
  obtain ⟨operand, rfl, stands, stops⟩ := read
  rcases others with ⟨rfl, noSemicolon⟩ | ⟨semicolon, behind, rfl, empty | severed⟩
  · cases unread with
    | nil => exact Or.inl rfl
    | cons token others =>
      rcases separator_cases boundary with isSemicolon | isBar
      · exact absurd isSemicolon (noSemicolon token others rfl)
      · exact Or.inr ⟨operand.tokens, ⟨token, isBar⟩, others, rfl, rfl,
          stops token others rfl isBar⟩
  · exact Or.inl empty
  · obtain ⟨read, bar, rest, rfl, rfl, others⟩ := severed
    refine Or.inr ⟨_, bar, rest, (List.append_assoc _ (semicolon.val :: read) _).symm, rfl,
      .later operand semicolon (stands.imp_right fun fitting => ?_) others⟩
    -- Behind a long pipe the line fits, and of the lines that are cut off only one kind does.
    by_contra sound
    have fits := (fitting semicolon.val _ rfl).2
    rw [others.misfit sound bar rfl] at fits
    exact absurd fits (by decide)

/-! ### Readings seen from the tokens ahead -/

namespace Recogniser

variable {Result : Type}

/-- Without a report an action relates the tokens ahead before it to those ahead after it, which
are the last of them. -/
def Leaves (action : Recogniser Result) (relation : List Token → List Token → Prop) : Prop :=
  action.Sound fun before _ after =>
    after.rest <:+ before.rest ∧ relation before.rest after.rest

theorem Sound.leaves {action : Recogniser Result} {relation : Cursor → Result → Cursor → Prop}
    {tokens : List Token → List Token → Prop} (sound : action.Sound relation)
    (implies : ∀ before result after, relation before result after →
      tokens before.rest after.rest) : action.Leaves tokens where
  passage := sound.passage
  stumbles := sound.stumbles
  quiet cursor calm silent := by
    obtain ⟨calmAfter, related⟩ := sound.quiet cursor calm silent
    obtain ⟨taken, _, rest, _⟩ := (sound.passage cursor).accounts
    exact ⟨calmAfter, fun result outcome =>
      ⟨⟨taken, rest.symm⟩, implies _ _ _ (related result outcome)⟩⟩

namespace Leaves

variable {first second : List Token → List Token → Prop}

theorem both {action : Recogniser Result} (leaves : action.Leaves first)
    (others : action.Leaves second) :
    action.Leaves fun tokens rest => first tokens rest ∧ second tokens rest where
  passage := leaves.passage
  stumbles := leaves.stumbles
  quiet cursor calm silent := by
    obtain ⟨calmAfter, related⟩ := leaves.quiet cursor calm silent
    obtain ⟨_, otherRelated⟩ := others.quiet cursor calm silent
    exact ⟨calmAfter, fun result outcome =>
      ⟨(related result outcome).1, (related result outcome).2, (otherRelated result outcome).2⟩⟩

theorem weaken {action : Recogniser Result} (leaves : action.Leaves first)
    (implies : ∀ tokens rest, rest <:+ tokens → first tokens rest → second tokens rest) :
    action.Leaves second :=
  Sound.weaken leaves fun _ _ _ _ related =>
    ⟨related.1, implies _ _ related.1 related.2⟩

theorem bind {Other : Type} {action : Recogniser Result} {next : Result → Recogniser Other}
    (leaves : action.Leaves first) (onward : ∀ result, (next result).Leaves second) :
    (action >>= next).Leaves fun tokens rest =>
      ∃ middle, middle <:+ tokens ∧ rest <:+ middle ∧ first tokens middle ∧ second middle rest := by
  refine (Sound.bind leaves onward).leaves ?_
  rintro before _ after ⟨_, middle, ⟨ends, related⟩, endsNext, relatedNext⟩
  exact ⟨middle.rest, ends, endsNext, related, relatedNext⟩

theorem pure (result : Result) :
    (Pure.pure result : Recogniser Result).Leaves fun tokens rest => rest = tokens :=
  (Sound.pure result).leaves fun _ _ _ related => congrArg Cursor.rest related.2

/-- An action that follows a forecast. -/
theorem follow {Choice : Type} (place : Place) (forecast : List Kind → Forecast Choice)
    {next : Choice → Recogniser Result} {relation : Choice → List Token → List Token → Prop}
    (leaves : ∀ choice, (next choice).Leaves (relation choice)) :
    (Recogniser.follow place forecast >>= next).Leaves fun tokens rest =>
      ∃ choice, (forecast (kindsOf tokens)).choice = some choice ∧ relation choice tokens rest := by
  refine ((follow_took place forecast).bind leaves).leaves ?_
  rintro before _ after ⟨choice, looked, ⟨chosen, look⟩, _, related⟩
  rw [look.same.1] at related
  exact ⟨choice, chosen, related⟩

/-- The two ways a loop can go. -/
theorem loop {again done : Recogniser Result} (leavesAgain : again.Leaves first)
    (leavesDone : done.Leaves second) (choice : LoopChoice) :
    (match choice with | .again => again | .done => done : Recogniser Result).Leaves
      fun tokens rest => (choice = .again ∧ first tokens rest) ∨
        (choice = .done ∧ second tokens rest) := by
  cases choice with
  | again => exact leavesAgain.weaken fun _ _ _ related => Or.inl ⟨rfl, related⟩
  | done => exact leavesDone.weaken fun _ _ _ related => Or.inr ⟨rfl, related⟩

theorem accept : (modify Cursor.accept : Recogniser PUnit).Leaves fun tokens rest =>
    ∀ token others, tokens = token :: others → rest = others := by
  refine accept_sound.leaves ?_
  rintro before _ after rfl token others ahead
  have behind := (Cursor.accept_of_rest ahead).rest.symm.trans ahead
  exact (List.cons.inj behind).2

theorem wrapCommand :
    (modify fun cursor => (cursor.announceExit .command).wrap .command :
      Recogniser PUnit).Leaves fun tokens rest => rest = tokens :=
  (wrap_sound .command).leaves fun _ _ _ related => related.1

theorem announce (rule : Rule) :
    (modify (Cursor.announceExit rule) : Recogniser PUnit).Leaves fun tokens rest =>
      rest = tokens :=
  (announce_sound rule).leaves fun _ _ _ related => related.same.1

theorem wrapPipe : (modify fun cursor => (cursor.wrap .pipe).accept : Recogniser PUnit).Leaves
    fun tokens rest => ∀ token others, tokens = token :: others → rest = others := by
  refine wrapAccept_sound.leaves ?_
  rintro before _ after rfl token others ahead
  have wrapped : (before.wrap .pipe).rest = token :: others := ahead
  have behind := (Cursor.accept_of_rest wrapped).rest.symm.trans wrapped
  exact (List.cons.inj behind).2

theorem within (rule : Rule) (sites : List Site) {body : Recogniser Unit}
    (leaves : body.Leaves first) :
    (liftM (MiniShell.within rule sites body) : Recogniser Unit).Leaves first := by
  refine (within_sound rule sites leaves).leaves ?_
  rintro before _ after ⟨inner, ⟨_, related⟩, rest, _⟩
  rw [rest]
  exact related

/-- Reading a call. -/
theorem call (fuel : Nat) (sites : List Site) :
    (liftM (Recogniser.call fuel sites) : Recogniser Unit).Leaves fun tokens rest =>
      tokens.length < fuel → ∃ call : Call, tokens = call.tokens ++ rest ∧
        (Spaced tokens rest → Boundary rest) := by
  refine (call_sound fuel sites).leaves ?_
  rintro before _ after taken enough
  obtain ⟨call, took, stops⟩ := taken enough
  exact ⟨call, took.rest, fun spaced => boundary_of_stops (took.rest ▸ spaced) stops⟩

/-- Reading the first bar of a pipe. -/
theorem firstBar (sites : List Site) :
    (requireOne .bar .firstBar sites).Leaves fun tokens rest =>
      ∃ bar : Bar, tokens = bar.val :: rest := by
  refine (requireOne_sound .bar .firstBar sites).leaves ?_
  rintro before _ after ⟨contains, rfl⟩
  have isBar : before.current.kind = .bar := by simpa [Place.next] using contains
  exact ⟨⟨_, isBar⟩, (Cursor.accept_took (by rw [isBar]; decide)).rest⟩

end Leaves

/-! ### One round of each rule -/

/-- What a command leaves. Behind a semicolon it is one operand. -/
def CommandLeaves (fuel : Nat) (precedence : Int) (sites : List Site) (tokens rest : List Token) :
    Prop :=
  2 * tokens.length + 4 ≤ fuel → Spaced tokens rest →
    Boundary rest ∧ (insidePipe sites = false →
      (Operator.semicolon.rank < precedence → OperandRead tokens rest) ∧
      (precedence ≤ Operator.semicolon.rank → Remains tokens rest))

/-- What the loop over semicolons leaves. -/
def OperandsLeave (fuel : Nat) (precedence : Int) (sites : List Site) (tokens rest : List Token) :
    Prop :=
  2 * tokens.length + 3 ≤ fuel → Spaced tokens rest → Boundary tokens →
    Boundary rest ∧ (insidePipe sites = false →
      (Operator.semicolon.rank < precedence → rest = tokens) ∧
      (precedence ≤ Operator.semicolon.rank → OthersRemain tokens rest))

/-- What a pipe leaves. -/
def PipeLeaves (fuel : Nat) (sites : List Site) (tokens rest : List Token) : Prop :=
  2 * tokens.length + 3 ≤ fuel → Spaced tokens rest →
    Boundary rest ∧ (insidePipe sites = false → OperandRead tokens rest)

/-- What the loop over bars leaves. -/
def StagesLeave (fuel : Nat) (sites : List Site) (tokens rest : List Token) : Prop :=
  2 * tokens.length + 3 ≤ fuel → Spaced tokens rest → Boundary tokens →
    Boundary rest ∧ (insidePipe sites = false →
      (rest = tokens ∧ ∀ token others, tokens = token :: others → token.kind ≠ .bar) ∨
        Fitting rest)

/-- What the rules for commands and pipes leave with so much fuel. -/
structure LeavingRounds (fuel : Nat) : Prop where
  command : ∀ precedence sites, (liftM (command fuel precedence sites) : Recogniser Unit).Leaves
    (CommandLeaves fuel precedence sites)
  operands : ∀ precedence sites,
    (operands fuel precedence sites).Leaves (OperandsLeave fuel precedence sites)
  pipe : ∀ sites, sites ≠ [] →
    (liftM (pipe fuel 0 sites) : Recogniser Unit).Leaves (PipeLeaves fuel sites)
  stages : ∀ sites, sites ≠ [] → (stages fuel 0 sites).Leaves (StagesLeave fuel sites)

variable {fuel : Nat}

/-- What the loop for semicolons leaves is what its last operand leaves. -/
theorem operandsLeave_succ {precedence : Int} (rounds : LeavingRounds fuel) :
    (operands (fuel + 1) precedence sites).Leaves (OperandsLeave (fuel + 1) precedence sites) := by
  have round := Leaves.wrapCommand.bind fun _ => Leaves.accept.bind fun _ =>
    (rounds.command Operator.semicolon.operandLevel (.operand :: sites)).bind
      fun _ => rounds.operands precedence sites
  refine (Leaves.follow _ _ fun choice => Leaves.loop round (Leaves.pure ()) choice).weaken ?_
  rintro tokens last _ ⟨choice, chosen, ⟨rfl, _, _, _, rfl, _, _, _, accepted, middle, ends,
    endsLast, commandLeaves, operandsLeave⟩ | ⟨rfl, rfl⟩⟩ enough spaced boundary
  · obtain ⟨_, low, semicolon, behind, rfl⟩ | ⟨impossible, _⟩ := forecastSemicolon_inv chosen
    · obtain rfl := accepted semicolon.val behind rfl
      rw [List.length_cons] at enough
      have shorter := ends.length_le
      obtain ⟨boundaryMiddle, operand⟩ :=
        commandLeaves (by omega) (spaced.tail.sooner endsLast)
      obtain ⟨taken, rfl⟩ := ends
      obtain ⟨boundaryLast, others⟩ := operandsLeave (by omega) spaced.tail.behind boundaryMiddle
      refine ⟨boundaryLast, fun outside => ⟨fun high => by omega, fun _ => ?_⟩⟩
      have read := (operand (by rw [insidePipe_cons .operand sites (by decide)]; exact outside)).1
        (by decide)
      exact Or.inr ⟨semicolon, _, rfl, read.remains boundaryMiddle ((others outside).2 low)⟩
    · exact absurd impossible (by simp)
  · obtain ⟨impossible, _⟩ | ⟨_, finished⟩ := forecastSemicolon_inv chosen
    · exact absurd impossible (by simp)
    · exact ⟨boundary, fun _ => ⟨fun _ => rfl, fun low => Or.inl ⟨rfl, finished low⟩⟩⟩

/-- What the first part of a command leaves. -/
theorem leaves_choice (rounds : LeavingRounds fuel) {next : Recogniser Unit}
    {relation : List Token → List Token → Prop} (goesOn : next.Leaves relation)
    (choice : CommandChoice) :
    (match choice with
      | .pipe => liftM (pipe fuel 0 (.pipeOfCommand :: sites)) >>= fun _ => next
      | .call => liftM (call fuel (.callOfCommand :: sites)) >>= fun _ => next
      | .empty => next : Recogniser Unit).Leaves
      fun tokens last => (forecastCommand (insidePipe sites) (kindsOf tokens)).choice =
          some choice → 2 * tokens.length + 3 ≤ fuel → Spaced tokens last →
        ∃ middle, middle <:+ tokens ∧ last <:+ middle ∧ Boundary middle ∧
          (insidePipe sites = false → OperandRead tokens middle) ∧ relation middle last := by
  cases choice with
  | pipe =>
    refine ((rounds.pipe (.pipeOfCommand :: sites) (List.cons_ne_nil _ _)).bind fun _ =>
      goesOn).weaken ?_
    rintro tokens last _ ⟨middle, ends, endsLast, pipeLeaves, related⟩ _ enough spaced
    obtain ⟨boundary, read⟩ := pipeLeaves enough (spaced.sooner endsLast)
    rw [insidePipe_cons .pipeOfCommand sites (by decide)] at read
    exact ⟨middle, ends, endsLast, boundary, read, related⟩
  | call =>
    refine ((Leaves.call fuel (.callOfCommand :: sites)).bind fun _ => goesOn).weaken ?_
    rintro tokens last _ ⟨middle, ends, endsLast, callLeaves, related⟩ chosen enough spaced
    obtain ⟨call, rfl, stops⟩ := callLeaves (by omega)
    have boundary := stops (spaced.sooner endsLast)
    refine ⟨middle, ends, endsLast, boundary, fun _ => ⟨.call call, rfl, Or.inl rfl,
      fun bar others behind isBar => .call call ?_⟩, related⟩
    rw [forecastCommand_run _ call middle boundary, behind, kindsOf_cons, isBar] at chosen
    cases whole : (CallPart.start.run (kindsOf others)).1.isWhole with
    | false => rfl
    | true => simp [whole] at chosen
  | empty =>
    refine goesOn.weaken ?_
    rintro tokens last ends related chosen _ _
    exact ⟨tokens, List.suffix_refl tokens, ends, forecastCommand_empty chosen,
      fun _ => ⟨.empty, rfl, Or.inl rfl, fun _ _ _ _ => .nothing⟩, related⟩

/-- A command leaves what its operands leave, with its first part put in front. -/
theorem commandLeaves_succ {precedence : Int} (rounds : LeavingRounds fuel) :
    (liftM (command (fuel + 1) precedence sites) : Recogniser Unit).Leaves
      (CommandLeaves (fuel + 1) precedence sites) := by
  refine Leaves.within .command sites ((Leaves.follow _ _
    (leaves_choice rounds (rounds.operands precedence sites))).weaken ?_)
  rintro tokens last _ ⟨choice, chosen, read⟩ enough spaced
  obtain ⟨middle, ends, endsLast, boundary, operand, operandsLeave⟩ :=
    read chosen (by omega) spaced
  have shorter := ends.length_le
  obtain ⟨taken, rfl⟩ := ends
  obtain ⟨boundaryLast, others⟩ := operandsLeave (by omega) spaced.behind boundary
  refine ⟨boundaryLast, fun outside => ⟨fun high => ?_, fun low => ?_⟩⟩
  · rw [(others outside).1 high]
    exact operand outside
  · exact (operand outside).remains boundary ((others outside).2 low)

/-- Reading a pipe. -/
theorem Leaves.derivedPipe (fuel : Nat) (nested : sites ≠ []) :
    (liftM (pipe fuel 0 sites) : Recogniser Unit).Leaves fun tokens rest =>
      2 * tokens.length + 3 ≤ fuel → ∃ pipe : Pipe, tokens = pipe.tokens ++ rest := by
  refine ((rounds_sound fuel).pipe sites nested).leaves ?_
  rintro before _ after taken enough
  obtain ⟨pipe, took, _⟩ := taken enough
  exact ⟨pipe, took.rest⟩

/-- A pipe leaves what its stages leave, with two calls put in front. -/
theorem pipeLeaves_succ (rounds : LeavingRounds fuel) (nested : sites ≠ []) :
    (liftM (pipe (fuel + 1) 0 sites) : Recogniser Unit).Leaves (PipeLeaves (fuel + 1) sites) := by
  have parts := Leaves.within .pipe sites ((Leaves.call fuel (.firstCall :: sites)).bind fun _ =>
    (Leaves.firstBar sites).bind fun _ => (Leaves.call fuel (.secondCall :: sites)).bind
      fun _ => rounds.stages sites nested)
  refine (parts.both (Leaves.derivedPipe (fuel + 1) nested)).weaken ?_
  rintro tokens last _ ⟨⟨_, _, _, first, _, _, _, ⟨bar, rfl⟩, middle, _, endsLast, second,
    stagesLeave⟩, derived⟩ enough spaced
  obtain ⟨pipe, whole⟩ := derived enough
  obtain ⟨left, rfl, _⟩ := first (by omega)
  rw [List.length_append, List.length_cons] at enough
  obtain ⟨right, rfl, stops⟩ := second (by omega)
  rw [List.length_append] at enough
  have boundary := stops (spaced.behind.tail.sooner endsLast)
  obtain ⟨boundaryLast, others⟩ := stagesLeave (by omega) spaced.behind.tail.behind boundary
  refine ⟨boundaryLast, fun outside => ?_⟩
  rcases others outside with ⟨rfl, noBar⟩ | fitting
  · exact ⟨.pipe (.calls left bar right), by simp [Command.tokens, Pipe.tokens], Or.inl rfl,
      fun token others behind isBar => absurd isBar (noBar token others behind)⟩
  · refine ⟨.pipe pipe, whole, Or.inr fitting, fun token others behind isBar => ?_⟩
    exact absurd ((fitting token others behind).1.symm.trans isBar) (by decide)

/-- A command of low precedence leaves no semicolon. -/
theorem Leaves.finishedCommand (fuel : Nat) (sites : List Site) :
    (liftM (command fuel 0 sites) : Recogniser Unit).Leaves fun tokens rest =>
      2 * tokens.length + 4 ≤ fuel → ∀ token others, rest = token :: others →
        token.kind ≠ .semicolon := by
  refine (command_sound fuel 0 sites).leaves ?_
  rintro before _ after taken enough
  obtain ⟨command, _, ends⟩ := taken enough
  exact ends.finished (by decide)

/-- What is left behind a call or a command after a later bar of a pipe. Outside of pipes it is
fitting, unless another bar follows. -/
theorem leaves_stage (rounds : LeavingRounds fuel) (nested : sites ≠ [])
    {next : Recogniser Unit} {relation : List Token → List Token → Prop}
    (goesOn : next.Leaves relation) (choice : PipeChoice) :
    (match choice with
      | .call => liftM (call fuel (.nextCall :: sites)) >>= fun _ => next
      | .command => liftM (command fuel 0 (.nextCommand :: sites)) >>= fun _ => next :
      Recogniser Unit).Leaves
      fun tokens last => ∀ bar : Bar,
        (forecastStage 0 sites (kindsOf (bar.val :: tokens))).choice = some choice →
        2 * tokens.length + 4 ≤ fuel → Spaced tokens last →
        ∃ middle, middle <:+ tokens ∧ last <:+ middle ∧ Boundary middle ∧ relation middle last ∧
          (insidePipe sites = false →
            (∀ token others, middle = token :: others → token.kind ≠ .bar) → Fitting middle) := by
  cases choice with
  | call =>
    refine ((Leaves.call fuel (.nextCall :: sites)).bind fun _ => goesOn).weaken ?_
    rintro tokens last _ ⟨middle, ends, endsLast, callLeaves, related⟩ bar chosen enough spaced
    obtain ⟨call, rfl, stops⟩ := callLeaves (by omega)
    have boundary := stops (spaced.sooner endsLast)
    refine ⟨middle, ends, endsLast, boundary, related, fun outside noBar => ?_⟩
    rintro token others rfl
    rcases separator_cases boundary with isSemicolon | isBar
    · refine ⟨isSemicolon, ?_⟩
      -- Had the rest not been fitting, a command would have been chosen here.
      rw [forecastStage_run sites nested bar call _ boundary, kindsOf_cons, isSemicolon] at chosen
      cases fits : (lookOutside false .start (kindsOf others)).1 with
      | true => rfl
      | false => simp [fits, outside] at chosen
    · exact absurd isBar (noBar token others rfl)
  | command =>
    refine (((rounds.command 0 (.nextCommand :: sites)).both
      (Leaves.finishedCommand fuel _)).bind fun _ => goesOn).weaken ?_
    rintro tokens last _ ⟨middle, ends, endsLast, ⟨commandLeaves, finished⟩, related⟩ bar _ enough
      spaced
    obtain ⟨boundary, _⟩ := commandLeaves enough (spaced.sooner endsLast)
    refine ⟨middle, ends, endsLast, boundary, related, fun _ noBar => ?_⟩
    rintro token others rfl
    rcases separator_cases boundary with isSemicolon | isBar
    · exact absurd isSemicolon (finished enough token others rfl)
    · exact absurd isBar (noBar token others rfl)

/-- What the loop for bars leaves is what its last stage leaves. -/
theorem stagesLeave_succ (rounds : LeavingRounds fuel) (nested : sites ≠ []) :
    (stages (fuel + 1) 0 sites).Leaves (StagesLeave (fuel + 1) sites) := by
  have round := (Leaves.announce .pipe).bind fun _ => Leaves.follow .pipeChoice
    (forecastStage 0 sites) fun choice =>
      Leaves.wrapPipe.bind fun _ =>
        leaves_stage rounds nested (rounds.stages sites nested) choice
  refine (Leaves.follow _ _ fun choice => Leaves.loop round (Leaves.pure ()) choice).weaken ?_
  rintro tokens last _ ⟨choice, chosen, ⟨rfl, _, _, _, rfl, choice, chosenStage, _, _, _, wrapped,
    stage⟩ | ⟨rfl, rfl⟩⟩ enough spaced boundary
  · obtain ⟨bar, behind, rfl⟩ := forecastBar_inv chosen
    obtain rfl := wrapped bar.val behind rfl
    rw [List.length_cons] at enough
    obtain ⟨middle, ends, endsLast, boundaryMiddle, stagesLeave, fits⟩ :=
      stage bar chosenStage (by omega) spaced.tail
    have shorter := ends.length_le
    obtain ⟨taken, rfl⟩ := ends
    obtain ⟨boundaryLast, others⟩ := stagesLeave (by omega) spaced.tail.behind boundaryMiddle
    refine ⟨boundaryLast, fun outside => Or.inr ?_⟩
    rcases others outside with ⟨rfl, noBar⟩ | fitting
    · exact fits outside noBar
    · exact fitting
  · refine ⟨boundary, fun _ => Or.inl ⟨rfl, fun token others ahead isBar => ?_⟩⟩
    subst ahead
    rw [forecastBar_again sites ⟨token, isBar⟩ others] at chosen
    exact absurd chosen (by simp)

/-- All rounds together, by induction on the fuel. -/
theorem rounds_leave (fuel : Nat) : LeavingRounds fuel := by
  induction fuel with
  | zero =>
    refine ⟨fun _ _ => ?_, fun _ _ => ?_, fun _ _ => ?_, fun _ _ => ?_⟩
    · exact (Leaves.pure ()).weaken fun _ _ _ _ enough => by omega
    · exact (Leaves.pure ()).weaken fun _ _ _ _ enough => by omega
    · exact (Leaves.pure ()).weaken fun _ _ _ _ enough => by omega
    · exact (Leaves.pure ()).weaken fun _ _ _ _ enough => by omega
  | succ fuel rounds =>
    exact ⟨fun _ _ => commandLeaves_succ rounds, fun _ _ => operandsLeave_succ rounds,
      fun _ nested => pipeLeaves_succ rounds nested,
      fun _ nested => stagesLeave_succ rounds nested⟩

end Recogniser

/-! ### How far the line has been looked at -/

/-- Reading has always looked further than it has passed, and what is ahead are the tokens that it
has not passed. -/
theorem Passage.looked_lt {start finish : Cursor} (passage : Passage start finish)
    (further : start.passed < start.looked) :
    finish.passed < finish.looked ∧
      finish.passed + finish.rest.length = start.passed + start.rest.length := by
  have leaf (token : Token) (cursor : Cursor) :
      (cursor.addLeaf token).passed = cursor.passed ∧
      (cursor.addLeaf token).looked = cursor.looked ∧
      (cursor.addLeaf token).rest = cursor.rest := by
    unfold Cursor.addLeaf
    split <;> exact ⟨rfl, rfl, rfl⟩
  induction passage with
  | refl cursor => exact ⟨further, rfl⟩
  | @look start cursor count _ inductionHypothesis =>
    obtain ⟨less, same⟩ := inductionHypothesis further
    exact ⟨Nat.lt_of_lt_of_le less (Nat.le_max_left _ _), same⟩
  | report mark complaint _ _ inductionHypothesis => exact inductionHypothesis further
  -- Passing a token looks at the one behind it first.
  | @pass start cursor _ inductionHypothesis =>
    obtain ⟨less, same⟩ := inductionHypothesis further
    unfold Cursor.pass
    split
    · obtain ⟨passed, looked, rest⟩ := leaf cursor.current cursor
      rw [passed, looked, rest]
      exact ⟨less, same⟩
    · rename_i token rest ahead
      obtain ⟨passed, looked, others⟩ :=
        leaf token { cursor.look 2 with rest, passed := cursor.passed + 1 }
      rw [passed, looked, others]
      rw [ahead, List.length_cons] at same
      simp only [Cursor.look, ahead, List.length_cons]
      omega
  | settle _ inductionHypothesis => exact inductionHypothesis further
  | stumble _ _ _ inductionHypothesis => exact inductionHypothesis further
  | enlist event _ inductionHypothesis => exact inductionHypothesis further
  | makeUp kind _ inductionHypothesis => exact inductionHypothesis further
  | wrap rule _ inductionHypothesis => exact inductionHypothesis further
  | node rule _ _ before below =>
    obtain ⟨less, same⟩ := before further
    obtain ⟨lessBelow, sameBelow⟩ := below less
    exact ⟨lessBelow, sameBelow.trans same⟩

/-- Up to the given number of tokens, none of the dropped text has been come across. -/
def Unbroken (count looked : Nat) (lexemes : List Lexeme) : Prop :=
  ∀ entry ∈ Report.ofLexemes count lexemes, looked < entry.1

theorem Unbroken.none {count looked : Nat} {text : Text} {mark : Mark}
    (unbroken : Unbroken count looked (⟨none, text, mark⟩ :: lexemes)) : looked ≤ count := by
  have entry := unbroken (count + 1, ⟨mark, .unrecognised text⟩) (by simp [Report.ofLexemes])
  exact Nat.le_of_lt_succ entry

theorem Unbroken.some {count looked : Nat} {kind : Kind} {text : Text} {mark : Mark}
    (unbroken : Unbroken count looked (⟨some kind, text, mark⟩ :: lexemes)) :
    Unbroken (count + 1) looked lexemes := unbroken

theorem blank_append {first second : Text} (firstBlank : first ∈ Kind.blank.language)
    (secondBlank : second ∈ Kind.blank.language) : first ++ second ∈ Kind.blank.language := by
  obtain ⟨nonempty, blanks⟩ := mem_blank.mp firstBlank
  obtain ⟨_, others⟩ := mem_blank.mp secondBlank
  refine mem_blank.mpr ⟨by simp [nonempty], fun character member => ?_⟩
  rcases List.mem_append.mp member with inFirst | inSecond
  · exact blanks character inFirst
  · exact others character inSecond

/-- The end of the line is not a token of a line. -/
theorem Tiling.present {mark : Mark} (tiling : Tiling mark line lexemes) :
    ∀ token ∈ lexemes.filterMap Lexeme.token?, token.kind ≠ .lineEnd := by
  induction tiling with
  | nil => simp
  | @cons mark kind text rest lexemes cut _ inductionHypothesis =>
    cases kind with
    | none => exact inductionHypothesis
    | some kind =>
      intro token member
      rcases List.mem_cons.mp member with rfl | inRest
      · rintro rfl
        exact cut.isToken
      · exact inductionHypothesis token inRest

/-- Between two tokens that are both blank text has been dropped. -/
theorem Tiling.apart {mark : Mark} (tiling : Tiling mark line lexemes) {count looked : Nat}
    (unbroken : Unbroken count looked lexemes) {front behind : List Token} {first second : Token}
    (split : lexemes.filterMap Lexeme.token? = front ++ first :: second :: behind)
    (inside : count + front.length + 2 ≤ looked) (isBlank : first.kind = .blank) :
    second.kind ≠ .blank := by
  induction tiling generalizing count front with
  | nil => exact absurd split (by simp)
  | @cons mark kind text rest lexemes cut others inductionHypothesis =>
    cases kind with
    | none => exact absurd unbroken.none (by omega)
    | some kind =>
      cases front with
      | cons token further =>
        rw [List.length_cons] at inside
        exact inductionHypothesis unbroken.some (List.cons.inj split).2 (by omega)
      | nil =>
        obtain ⟨rfl, next⟩ := List.cons.inj split
        cases others with
        | nil => exact absurd next (by simp)
        | @cons _ nextKind nextText nextRest _ nextCut _ =>
          cases nextKind with
          | none => exact absurd unbroken.some.none (by rw [List.length_nil] at inside; omega)
          | some nextKind =>
            obtain ⟨rfl, _⟩ := List.cons.inj next
            rintro isNext
            obtain rfl : kind = .blank := isBlank
            obtain rfl : nextKind = .blank := isNext
            -- Both together would be a longer token.
            have longer := cut.longest (text ++ nextText) ⟨nextRest, by rw [List.append_assoc]⟩
              ⟨.blank, blank_append cut.isToken nextCut.isToken⟩
            have nonempty := List.length_pos_iff.mpr nextCut.nonempty
            rw [List.length_append] at longer
            omega

/-- Where no text has been dropped up to the end of a line, its tokens are the whole line. -/
theorem Tiling.text {mark : Mark} (tiling : Tiling mark line lexemes) {count looked : Nat}
    (unbroken : Unbroken count looked lexemes)
    (inside : count + (lexemes.filterMap Lexeme.token?).length < looked) :
    (lexemes.filterMap Lexeme.token?).flatMap Token.text = line := by
  induction tiling generalizing count with
  | nil => rfl
  | @cons mark kind text rest lexemes cut _ inductionHypothesis =>
    cases kind with
    | none => exact absurd unbroken.none (by omega)
    | some kind =>
      have length : (List.filterMap Lexeme.token? (⟨some kind, text, mark⟩ :: lexemes)).length =
        (lexemes.filterMap Lexeme.token?).length + 1 := rfl
      rw [length] at inside
      have others := inductionHypothesis unbroken.some (by omega)
      show text ++ (lexemes.filterMap Lexeme.token?).flatMap Token.text = text ++ rest
      rw [others]

/-! ### The text of a tree -/

mutual

theorem Tree.text_eq_leaves : (tree : Tree) → tree.text = tree.leaves.flatMap Tree.text
  | .node rule children => by rw [Tree.text, Tree.leaves, textAll_eq_leaves children]
  | .leaf token => by simp [Tree.leaves]
  | .error token => by simp [Tree.leaves]
  | .missing kind => by simp [Tree.leaves]

theorem Tree.textAll_eq_leaves :
    (trees : List Tree) → Tree.textAll trees = (Tree.leavesAll trees).flatMap Tree.text
  | [] => rfl
  | tree :: rest => by
    rw [Tree.textAll, Tree.leavesAll, text_eq_leaves tree, textAll_eq_leaves rest,
      List.flatMap_append]

end

/-! ### Lines read without a report -/

theorem unbroken_of_silent (silent : (readLine line .command 0).reports = []) :
    Unbroken 0 (lastCursor line).looked (Lexeme.ofLine line) := by
  intro entry member
  by_contra seen
  have reported : entry.2 ∈ (readLine line .command 0).reports := by
    rw [readLine_reports]
    exact (Report.mem_merge _ _ _).mpr (Or.inl (List.mem_map_of_mem
      (List.mem_filter.mpr ⟨member, by simpa using Nat.le_of_not_lt seen⟩)))
  rw [silent] at reported
  exact absurd reported List.not_mem_nil

/-- All tokens that have been read and the one behind them have been looked at. -/
theorem tokens_lt_looked (line : Text) : (Token.ofLine line).length <
    (lastCursor line).looked + (readLine line .command 0).unread.length := by
  obtain ⟨less, same⟩ :=
    ((Recogniser.command_sound (4 * (Token.ofLine line).length + 8) 0 []).passage
      (Cursor.start (Token.ofLine line) (Mark.start.after line))).looked_lt Nat.zero_lt_one
  have lessLast : (lastCursor line).passed < (lastCursor line).looked := less
  have sameLast : (lastCursor line).passed + (lastCursor line).rest.length =
      0 + (Token.ofLine line).length := same
  rw [readLine_unread]
  omega

theorem spaced_of_silent (silent : (readLine line .command 0).reports = []) :
    Spaced (Token.ofLine line) (readLine line .command 0).unread := by
  have tiling : Tiling Mark.start line (Lexeme.ofLine line) :=
    cut_tiling line.length Mark.start line (Nat.le_refl _)
  refine ⟨tiling.present, fun front first second behind split inside =>
    tiling.apart (unbroken_of_silent silent) split ?_⟩
  have looked := tokens_lt_looked line
  rw [split, List.length_append, List.length_cons, List.length_cons] at looked
  omega

/-- What is left of a line that is read without a report. -/
theorem remains_of_silent (silent : (readLine line .command 0).reports = []) :
    Remains (Token.ofLine line) (readLine line .command 0).unread := by
  have noReport : (lastCursor line).reports.length = ([] : List (Nat × Report)).length :=
    congrArg List.length ((quiet_iff line).mp (quiet_of_silent silent))
  obtain ⟨_, taken⟩ := ((Recogniser.rounds_leave (4 * (Token.ofLine line).length + 8)).command 0
    []).quiet
    (Cursor.start (Token.ofLine line) (Mark.start.after line)) rfl noReport
  obtain ⟨_, leaves⟩ := taken () rfl
  have enough : 2 * (Token.ofLine line).length + 4 ≤ 4 * (Token.ofLine line).length + 8 := by omega
  exact ((leaves enough (spaced_of_silent silent)).2 rfl).2 (by decide)

/-- A line that is read without a report is read to its end if and only if the grammar derives it,
and if and only if it is not cut off at a bar. If it is cut off, what is left unread is what stands
behind the cut. The leaves of the tree are the tokens that were read, in their order, and a tree
that leaves none unread covers the whole text of the line. -/
theorem readLine_covers_iff (line : Text) (silent : (readLine line .command 0).reports = []) :
    ((readLine line .command 0).unread = [] ↔ Derivable (Token.ofLine line)) ∧
    ((readLine line .command 0).unread = [] ↔ ∀ rest, ¬ Severed (Token.ofLine line) rest) ∧
    (∀ rest, Severed (Token.ofLine line) rest → (readLine line .command 0).unread = rest) ∧
    (readLine line .command 0).tree.leaves ++ (readLine line .command 0).unread.map .leaf =
      (Token.ofLine line).map .leaf ∧
    ((readLine line .command 0).unread = [] → (readLine line .command 0).tree.text = line) := by
  obtain ⟨command, tokens, tree, _⟩ := derivation_of_quiet (quiet_of_silent silent)
  have leaves : (readLine line .command 0).tree.leaves = command.tokens.map .leaf := by
    rw [tree]
    exact command.leaves
  have remains := remains_of_silent silent
  have derived (finished : (readLine line .command 0).unread = []) :
      Derivable (Token.ofLine line) := by
    rw [finished, List.append_nil] at tokens
    exact ⟨command, tokens.symm⟩
  refine ⟨⟨derived, fun derivable => ?_⟩, ⟨fun finished rest severed => ?_, fun whole => ?_⟩,
    fun rest severed => ?_, ?_, fun finished => ?_⟩
  · exact remains.resolve_right fun severed => severed.not_derivable derivable
  · exact severed.not_derivable (derived finished)
  · exact remains.resolve_right (whole _)
  · rcases remains with finished | cut
    · exact absurd (derived finished) severed.not_derivable
    · exact cut.unique severed
  · rw [leaves, tokens, List.map_append]
  · have tiling : Tiling Mark.start line (Lexeme.ofLine line) :=
      cut_tiling line.length Mark.start line (Nat.le_refl _)
    rw [Tree.text_eq_leaves, leaves]
    rw [finished, List.append_nil] at tokens
    rw [← tokens, List.flatMap_map]
    have looked := tokens_lt_looked line
    rw [finished, List.length_nil] at looked
    exact tiling.text (unbroken_of_silent silent) (by rw [Nat.zero_add]; exact looked)

theorem readLine_covers_iff_sequence :
    (readLine "a|b;c".toList .command 0).reports = [] ∧
    (∀ rest, ¬ Severed (Token.ofLine "a|b;c".toList) rest) ∧
    (readLine "a|b;c".toList .command 0).tree.text = "a|b;c".toList := by
  have silent : (readLine "a|b;c".toList .command 0).reports = [] := by
    refine reports_nil ?_ ?_ <;> decide +kernel
  obtain ⟨_, covers, _, _, text⟩ := readLine_covers_iff "a|b;c".toList silent
  have finished : (readLine "a|b;c".toList .command 0).unread = [] :=
    List.isEmpty_iff.mp (by decide +kernel)
  exact ⟨silent, covers.mp finished, text finished⟩

-- Behind the semicolon a call breaks off in a redirection, so the pipe of three calls ends there.
example : (readLine "a|b|c;d|e<".toList .command 0).unread.map Token.text =
    ["|".toList, "e".toList, "<".toList] := by
  decide +kernel

/-- A bar at the end of a line is left unread, and nothing is reported. -/
theorem readLine_trailing_bar :
    (readLine "a|".toList .command 0).reports = [] ∧
    (readLine "a|".toList .command 0).unread.map Token.text = ["|".toList] := by
  refine ⟨reports_nil ?_ ?_, ?_⟩ <;> decide +kernel

end MiniShell
