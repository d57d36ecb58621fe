/-
This file carries the soundness of reading on to pipes and commands. A reading
without a report derives what it reads, and the derivation is settled:
semicolons nest to the left, and after a bar a command stands only where the
line cannot be read with a call there.

The loops for semicolons and bars make the node built so far the first child of
a new one. What they keep is therefore about a derivation that grows at its
right end, and about the tokens that are still ahead.
-/

import MiniShell.Grammar.Guard
import MiniShell.Proofs.Soundness

namespace MiniShell

open MiniShell.Derivation
open Cursor (Took)

variable {tokens after : List Token} {precedence : Int} {sites : List Site} {fuel : Nat}

/-! ### How a part of a line begins and ends -/

/-- The tokens of a part begin with a call, and the automaton stops behind that call. -/
def LeadingCall (after tokens : List Token) : Prop :=
  ∃ (call : Call) (rest : List Token), tokens = call.tokens ++ rest ∧
    (CallPart.start.run (kindsOf (tokens ++ after))).2.2 = kindsOf (rest ++ after)

theorem LeadingCall.extend {more : List Token} (leading : LeadingCall (more ++ after) tokens) :
    LeadingCall after (tokens ++ more) := by
  obtain ⟨call, rest, rfl, stops⟩ := leading
  refine ⟨call, rest ++ more, List.append_assoc _ _ _, ?_⟩
  rw [List.append_assoc, stops, List.append_assoc]

/-- What reading finds out about a pipe with the given tokens behind it. -/
structure Derivation.Pipe.Read (after : List Token) (pipe : Pipe) : Prop where
  settled : pipe.Settled after
  opens : LeadingCall after pipe.tokens

/-- What reading finds out about a command with the given tokens behind it. -/
structure Derivation.Command.Read (after : List Token) (command : Derivation.Command) : Prop where
  settled : command.Settled after
  opens : command.beginsEmpty = true ∨ LeadingCall after command.tokens

/-- The end of a command: a high precedence leaves semicolons to the commands outside, and a
low one leaves none. -/
structure Derivation.Command.Ends (precedence : Int) (after : List Token)
    (command : Derivation.Command) : Prop where
  read : command.Read after
  single : Operator.semicolon.rank < precedence → command.isSequence = false
  finished : precedence ≤ Operator.semicolon.rank → ∀ token rest, after = token :: rest →
    token.kind ≠ .semicolon

/-- One more command behind a semicolon. -/
theorem Derivation.Command.Read.sequence {left right : Derivation.Command} {semicolon : Semicolon}
    (leftRead : left.Read (semicolon.val :: (right.tokens ++ after))) (rightRead : right.Read after)
    (single : right.isSequence = false) :
    (Derivation.Command.sequence left semicolon right).Read after where
  settled := by
    rw [Command.Settled]
    exact ⟨leftRead.settled, rightRead.settled, single⟩
  opens := by
    rw [Command.tokens, Command.beginsEmpty]
    rcases leftRead.opens with empty | leading
    · exact Or.inl empty
    · exact Or.inr leading.extend

/-- A command is chosen after a bar only where it is needed. -/
theorem needed_of_forecast (sites : List Site) (nested : sites ≠ []) (bar : Bar)
    {command : Derivation.Command} {after : List Token} (ends : command.Ends 0 after)
    (chosen : (forecastStage 0 sites (kindsOf (bar.val :: (command.tokens ++ after)))).choice =
      some .command) : command.Needed after := by
  rcases ends.read.opens with empty | ⟨call, rest, tokens, stops⟩
  · exact Or.inl empty
  · obtain ⟨token, tail, callTokens, notSeparator⟩ := call_head call
    have ahead : command.tokens ++ after = token :: (tail ++ rest ++ after) := by
      rw [tokens, callTokens]
      rfl
    rw [ahead] at stops chosen
    obtain ⟨others, semicolonNext, misfit⟩ := forecastStage_command nested notSeparator chosen
    rw [stops] at semicolonNext
    cases rest with
    | nil =>
      -- The command is the call by itself, and no semicolon follows a finished command.
      cases after with
      | nil => exact absurd semicolonNext (by simp)
      | cons next further =>
        exact absurd (List.cons.inj semicolonNext).1 (ends.finished (by decide) next further rfl)
    | cons semicolon further =>
      rw [List.cons_append, kindsOf_cons] at semicolonNext
      obtain ⟨isSemicolon, rfl⟩ := List.cons.inj semicolonNext
      refine Or.inr ⟨call, ⟨semicolon, isSemicolon⟩, further, tokens, fun derivable => ?_⟩
      rw [derivable.outside.fits] at misfit
      exact absurd misfit (by decide)

/-! ### One round of each rule -/

namespace Recogniser

/-- What reading a command comes to. -/
def CommandTaken (fuel : Nat) (precedence : Int) (before : Cursor) (_ : Unit) (after : Cursor) :
    Prop :=
  2 * before.rest.length + 4 ≤ fuel → ∃ command : Derivation.Command,
    Took command.tokens [command.tree] before after ∧ command.Ends precedence after.rest

/-- What the loop over semicolons comes to: the command built so far grows. -/
def OperandsTaken (fuel : Nat) (precedence : Int) (before : Cursor) (_ : Unit) (after : Cursor) :
    Prop :=
  2 * before.rest.length + 3 ≤ fuel → ∀ left : Derivation.Command,
    before.children = left.parts → left.Read before.rest →
    (Operator.semicolon.rank < precedence → left.isSequence = false) →
    ∃ (command : Derivation.Command) (taken : List Token), before.rest = taken ++ after.rest ∧
      command.tokens = left.tokens ++ taken ∧ after.children = command.parts ∧
      command.Ends precedence after.rest

/-- What reading a pipe comes to. -/
def PipeTaken (fuel : Nat) (before : Cursor) (_ : Unit) (after : Cursor) : Prop :=
  2 * before.rest.length + 3 ≤ fuel → ∃ pipe : Pipe,
    Took pipe.tokens [pipe.tree] before after ∧ pipe.Read after.rest

/-- What the loop over bars comes to: the pipe built so far grows. -/
def StagesTaken (fuel : Nat) (before : Cursor) (_ : Unit) (after : Cursor) : Prop :=
  2 * before.rest.length + 3 ≤ fuel → ∀ left : Pipe,
    before.children = left.parts → left.Read before.rest →
    ∃ (pipe : Pipe) (taken : List Token), before.rest = taken ++ after.rest ∧
      pipe.tokens = left.tokens ++ taken ∧ after.children = pipe.parts ∧ pipe.Read after.rest

/-- What the choice at a semicolon tells about the token ahead and the precedence at hand. -/
theorem forecastSemicolon_inv {choice : LoopChoice}
    (chosen : (forecastSemicolon precedence sites (kindsOf tokens)).choice = some choice) :
    (choice = .again ∧ precedence ≤ Operator.semicolon.rank ∧
      ∃ (semicolon : Semicolon) (rest : List Token), tokens = semicolon.val :: rest) ∨
    (choice = .done ∧
      (precedence ≤ Operator.semicolon.rank → ∀ token rest, tokens = token :: rest →
        token.kind ≠ .semicolon)) := by
  by_cases goesOn : precedence ≤ Operator.semicolon.rank ∧
      ∃ (semicolon : Semicolon) (rest : List Token), tokens = semicolon.val :: rest
  · obtain ⟨low, semicolon, rest, rfl⟩ := goesOn
    rw [forecastSemicolon_again precedence low] at chosen
    exact Or.inl ⟨(Option.some.inj chosen).symm, low, semicolon, rest, rfl⟩
  · have stops : precedence ≤ Operator.semicolon.rank → ∀ token rest, tokens = token :: rest →
        token.kind ≠ .semicolon :=
      fun low token rest equal isSemicolon => goesOn ⟨low, ⟨token, isSemicolon⟩, rest, equal⟩
    rw [forecastSemicolon_done precedence sites tokens fun token rest equal isSemicolon =>
      Int.not_le.mp fun low => stops low token rest equal isSemicolon] at chosen
    exact Or.inr ⟨(Option.some.inj chosen).symm, stops⟩

/-- The loop goes on at a semicolon exactly where the guard of the rule admits the operator. -/
theorem forecastSemicolon_guarded (semicolon : Semicolon) (rest : List Token) :
    (forecastSemicolon precedence sites (kindsOf (semicolon.val :: rest))).choice =
        some .again ↔ operatorAllowed precedence 0 0 = .ok (some true) := by
  have guard : operatorAllowed precedence 0 0 =
      .ok (some (decide (precedence ≤ Operator.semicolon.rank))) := rfl
  rw [guard]
  constructor
  · intro again
    rcases forecastSemicolon_inv again with ⟨_, low, _⟩ | ⟨isDone, _⟩
    · rw [decide_eq_true low]
    · cases isDone
  · intro allowed
    exact forecastSemicolon_again precedence (by simpa using allowed) sites semicolon rest

theorem wrap_sound (rule : Rule) :
    (modify fun cursor => (cursor.announceExit rule).wrap rule : Recogniser PUnit).Sound
      fun before _ after => after.rest = before.rest ∧
        after.children = [.node rule before.children] :=
  (Sound.changing (fun cursor => ((Passage.refl cursor).enlist _).wrap rule)
    fun cursor calm _ => calm).weaken fun before _ after _ equal => by
      rw [equal]
      exact ⟨rfl, rfl⟩

theorem announce_sound (rule : Rule) :
    (modify (Cursor.announceExit rule) : Recogniser PUnit).Sound fun before _ after =>
      Took [] [] before after :=
  (Sound.changing (fun cursor => (Passage.refl cursor).enlist _) fun _ calm _ => calm).weaken
    fun before _ after _ equal => by
      rw [equal]
      exact ⟨rfl, (List.append_nil _).symm⟩

theorem wrapAccept_sound :
    (modify fun cursor => (cursor.wrap .pipe).accept : Recogniser PUnit).Sound
      fun before _ after => after = (before.wrap .pipe).accept :=
  Sound.changing (fun cursor => ((Passage.refl cursor).wrap .pipe).settle.pass)
    fun _ _ _ => pass_recovering _

/-- What the rules for commands and pipes come to with so much fuel. -/
structure SoundRounds (fuel : Nat) : Prop where
  command : ∀ precedence sites,
    (liftM (command fuel precedence sites) : Recogniser Unit).Sound (CommandTaken fuel precedence)
  operands : ∀ precedence sites,
    (operands fuel precedence sites).Sound (OperandsTaken fuel precedence)
  pipe : ∀ sites, sites ≠ [] →
    (liftM (pipe fuel 0 sites) : Recogniser Unit).Sound (PipeTaken fuel)
  stages : ∀ sites, sites ≠ [] → (stages fuel 0 sites).Sound (StagesTaken fuel)

/-- One more operand is read so closely that semicolons nest to the left. -/
theorem operands_step (rounds : SoundRounds fuel) :
    (operands (fuel + 1) precedence sites).Sound (OperandsTaken (fuel + 1) precedence) := by
  have round := (wrap_sound .command).bind fun _ => accept_sound.bind fun _ =>
    (rounds.command Operator.semicolon.operandLevel (.operand :: sites)).bind fun _ =>
      rounds.operands precedence sites
  refine ((follow_took .commandStart (forecastSemicolon precedence sites)).bind fun choice =>
    loop_sound round (Sound.pure ()) choice).weaken ?_
  rintro before _ after _ ⟨choice, looked, ⟨chosen, look⟩, related⟩ enough left children read single
  obtain ⟨sameRest, sameChildren⟩ := look.same
  rcases forecastSemicolon_inv chosen with ⟨rfl, low, semicolon, rest, ahead⟩ | ⟨rfl, finished⟩
  · rcases related with ⟨_, _, wrapped, ⟨wrappedRest, wrappedChildren⟩, _, _, rfl, _, middle,
      commandTaken, operandsTaken⟩ | ⟨impossible, _⟩
    · have tookSemicolon := Cursor.accept_of_rest ((wrappedRest.trans sameRest).trans ahead)
      have length := tookSemicolon.length_le
      rw [wrappedRest, sameRest, List.length_singleton] at length
      obtain ⟨right, tookRight, ends⟩ := commandTaken (by omega)
      have took := tookSemicolon.trans tookRight
      have shorter := took.length_le
      rw [wrappedRest, sameRest, List.length_append, List.length_singleton] at shorter
      have middleChildren : middle.children =
          (Derivation.Command.sequence left semicolon right).parts := by
        rw [took.children, wrappedChildren, sameChildren, children, Command.parts]
        rfl
      have aheadRight : before.rest = semicolon.val :: (right.tokens ++ middle.rest) := by
        rw [← sameRest, ← wrappedRest, took.rest]
        rfl
      rw [aheadRight] at read
      -- The loop goes on with the longer command on its left.
      obtain ⟨command, taken, restTaken, tokens, grown, finished⟩ := operandsTaken (by omega)
        (.sequence left semicolon right) middleChildren
        (read.sequence ends.read (ends.single (by decide))) fun high => by omega
      refine ⟨command, semicolon.val :: (right.tokens ++ taken), ?_, ?_, grown, finished⟩
      · rw [aheadRight, restTaken, List.cons_append, List.append_assoc]
      · rw [tokens, Command.tokens, List.append_assoc, List.cons_append]
    · exact absurd impossible (by simp)
  · rcases related with ⟨impossible, _⟩ | ⟨_, _, rfl⟩
    · exact absurd impossible (by simp)
    · refine ⟨left, [], sameRest.symm, (List.append_nil _).symm, sameChildren.trans children, ?_⟩
      rw [sameRest]
      exact ⟨read, single, finished⟩

theorem leadingCall_of_stops {call : Call}
    (stops : (CallPart.start.run (kindsOf (call.tokens ++ after))).2.2 = kindsOf after) :
    LeadingCall after call.tokens :=
  ⟨call, [], (List.append_nil _).symm, stops⟩

/-- The first part of a command and the operands that follow it. -/
theorem command_of_operands {before middle after : Cursor}
    (operandsTaken : OperandsTaken fuel precedence middle () after) (left : Derivation.Command)
    (enough : 2 * before.rest.length + 3 ≤ fuel) (ahead : before.rest = left.tokens ++ middle.rest)
    (children : middle.children = left.parts) (read : left.Read middle.rest)
    (single : left.isSequence = false) :
    ∃ command : Derivation.Command, before.rest = command.tokens ++ after.rest ∧
      after.children = command.parts ∧ command.Ends precedence after.rest := by
  have length : middle.rest.length ≤ before.rest.length := by
    rw [ahead, List.length_append]
    omega
  obtain ⟨command, taken, rest, tokens, grown, ends⟩ :=
    operandsTaken (by omega) left children read fun _ => single
  refine ⟨command, ?_, grown, ends⟩
  rw [ahead, rest, tokens, List.append_assoc]

/-- Whatever is chosen, a command is read as a pipe, a call or nothing, and then its operands. -/
theorem choice_sound (rounds : SoundRounds fuel) (choice : CommandChoice) :
    (match choice with
      | .pipe => liftM (pipe fuel 0 (.pipeOfCommand :: sites)) >>= fun _ =>
          operands fuel precedence sites
      | .call => liftM (call fuel (.callOfCommand :: sites)) >>= fun _ =>
          operands fuel precedence sites
      | .empty => operands fuel precedence sites : Recogniser Unit).Sound
      fun before _ after => 2 * before.rest.length + 3 ≤ fuel → before.children = [] →
        ∃ command : Derivation.Command, before.rest = command.tokens ++ after.rest ∧
          after.children = command.parts ∧ command.Ends precedence after.rest := by
  have operandsSound := rounds.operands precedence sites
  cases choice with
  | pipe =>
    refine ((rounds.pipe (.pipeOfCommand :: sites) (List.cons_ne_nil _ _)).bind fun _ =>
      operandsSound).weaken ?_
    rintro before _ after _ ⟨_, middle, pipeTaken, operandsTaken⟩ enough bare
    obtain ⟨pipe, took, read⟩ := pipeTaken enough
    refine command_of_operands operandsTaken (.pipe pipe) enough took.rest ?_ ?_ rfl
    · rw [took.children, bare]
      rfl
    · exact ⟨by rw [Command.Settled]; exact read.settled, Or.inr read.opens⟩
  | call =>
    refine ((call_sound fuel (.callOfCommand :: sites)).bind fun _ => operandsSound).weaken ?_
    rintro before _ after _ ⟨_, middle, callTaken, operandsTaken⟩ enough bare
    obtain ⟨call, took, stops⟩ := callTaken (by omega)
    refine command_of_operands operandsTaken (.call call) enough took.rest ?_ ?_ rfl
    · rw [took.children, bare]
      rfl
    · exact ⟨by rw [Command.Settled]; trivial, Or.inr (leadingCall_of_stops stops)⟩
  | empty =>
    refine operandsSound.weaken ?_
    rintro before _ after _ operandsTaken enough bare
    exact command_of_operands operandsTaken .empty enough rfl bare
      ⟨by rw [Command.Settled]; trivial, Or.inl rfl⟩ rfl

theorem command_step (rounds : SoundRounds fuel) :
    (liftM (command (fuel + 1) precedence sites) : Recogniser Unit).Sound
      (CommandTaken (fuel + 1) precedence) := by
  refine within_built .command sites Command.tokens Command.parts
    (fun rest => 2 * rest.length + 4 ≤ fuel + 1)
    (fun command rest => command.Ends precedence rest) ?_
  refine ((follow_took .commandStart (forecastCommand (insidePipe sites))).bind
    (choice_sound rounds)).weaken ?_
  rintro before _ after _ ⟨choice, looked, ⟨_, look⟩, read⟩ enough bare
  obtain ⟨sameRest, sameChildren⟩ := look.same
  rw [sameRest, sameChildren] at read
  exact read (by omega) bare

theorem forecastBar_inv
    (chosen : (forecastBar precedence sites (kindsOf tokens)).choice = some .again) :
    ∃ (bar : Bar) (rest : List Token), tokens = bar.val :: rest := by
  by_cases goesOn : ∃ (bar : Bar) (rest : List Token), tokens = bar.val :: rest
  · exact goesOn
  · rw [forecastBar_done precedence sites tokens
      fun token rest equal isBar => goesOn ⟨⟨token, isBar⟩, rest, equal⟩] at chosen
    exact absurd chosen (by simp)

/-- A pipe begins with two calls and a bar, and its loop adds the stages. -/
theorem pipe_step (rounds : SoundRounds fuel) (nested : sites ≠ []) :
    (liftM (pipe (fuel + 1) 0 sites) : Recogniser Unit).Sound (PipeTaken (fuel + 1)) := by
  refine within_built .pipe sites Pipe.tokens Pipe.parts
    (fun rest => 2 * rest.length + 3 ≤ fuel + 1) (fun pipe rest => pipe.Read rest) ?_
  refine ((call_sound fuel (.firstCall :: sites)).bind fun _ =>
    (requireOne_sound .bar .firstBar sites).bind fun _ =>
      (call_sound fuel (.secondCall :: sites)).bind fun _ => rounds.stages sites nested).weaken ?_
  rintro before _ after _ ⟨_, first, firstTaken, _, _, ⟨contains, rfl⟩, _, second, secondTaken,
    stagesTaken⟩ enough bare
  obtain ⟨left, tookLeft, stops⟩ := firstTaken (by omega)
  have isBar : first.current.kind = .bar := by simpa [Place.next] using contains
  have tookBar : Took [first.current] [.leaf first.current] first first.accept :=
    Cursor.accept_took (by rw [isBar]; decide)
  have length := (tookLeft.trans tookBar).length_le
  rw [List.length_append, List.length_singleton] at length
  obtain ⟨right, tookRight, _⟩ := secondTaken (by omega)
  have tookBehind := tookBar.trans tookRight
  have took := tookLeft.trans tookBehind
  have shorter := took.length_le
  simp only [List.length_append, List.length_singleton] at shorter
  have opens : LeadingCall second.rest (Pipe.calls left ⟨_, isBar⟩ right).tokens := by
    rw [Pipe.tokens]
    rw [tookBehind.rest] at stops
    exact (leadingCall_of_stops stops).extend
  obtain ⟨pipe, taken, rest, tokens, grown, read⟩ := stagesTaken (by omega)
    (.calls left ⟨_, isBar⟩ right) (by rw [took.children, bare, Pipe.parts]; rfl)
    ⟨by rw [Pipe.Settled]; trivial, opens⟩
  refine ⟨pipe, ?_, grown, read⟩
  rw [took.rest, rest, tokens, Pipe.tokens]
  simp

/-- A pipe that has grown by what stands after a bar goes on growing. -/
theorem stages_grow {before middle after : Cursor} (stagesTaken : StagesTaken fuel middle () after)
    {left : Pipe} (next : Pipe) {bar : Bar} (enough : 2 * before.rest.length + 3 ≤ fuel + 1)
    (ahead : before.rest = bar.val :: (tokens ++ middle.rest))
    (nextTokens : next.tokens = left.tokens ++ bar.val :: tokens)
    (children : middle.children = next.parts) (read : left.Read before.rest)
    (settled : next.Settled middle.rest) :
    ∃ (pipe : Pipe) (taken : List Token), before.rest = taken ++ after.rest ∧
      pipe.tokens = left.tokens ++ taken ∧ after.children = pipe.parts ∧ pipe.Read after.rest := by
  have length : middle.rest.length < before.rest.length := by
    rw [ahead, List.length_cons, List.length_append]
    omega
  have opens : LeadingCall middle.rest next.tokens := by
    have leading := read.opens
    rw [ahead] at leading
    rw [nextTokens]
    exact leading.extend
  obtain ⟨pipe, taken, rest, pipeTokens, grown, pipeRead⟩ :=
    stagesTaken (by omega) next children ⟨settled, opens⟩
  refine ⟨pipe, bar.val :: (tokens ++ taken), ?_, ?_, grown, pipeRead⟩
  · rw [ahead, rest, List.cons_append, List.append_assoc]
  · rw [pipeTokens, nextTokens, List.append_assoc, List.cons_append]

/-- Whatever is chosen after a bar, a call or a command is read, and then the other stages. -/
theorem stage_sound (rounds : SoundRounds fuel) (nested : sites ≠ []) (choice : PipeChoice) :
    (match choice with
      | .call => liftM (call fuel (.nextCall :: sites)) >>= fun _ => stages fuel 0 sites
      | .command => liftM (command fuel 0 (.nextCommand :: sites)) >>= fun _ =>
          stages fuel 0 sites : Recogniser Unit).Sound
      fun before _ after => 2 * before.rest.length + 4 ≤ fuel →
        ∃ middle, StagesTaken fuel middle () after ∧
          ((choice = .call ∧ ∃ call : Call, Took call.tokens [call.tree] before middle) ∨
            (choice = .command ∧ ∃ command : Derivation.Command,
              Took command.tokens [command.tree] before middle ∧ command.Ends 0 middle.rest)) := by
  have stagesSound := rounds.stages sites nested
  cases choice with
  | call =>
    refine ((call_sound fuel (.nextCall :: sites)).bind fun _ => stagesSound).weaken ?_
    rintro before _ after _ ⟨_, middle, callTaken, stagesTaken⟩ enough
    obtain ⟨call, took, _⟩ := callTaken (by omega)
    exact ⟨middle, stagesTaken, Or.inl ⟨rfl, call, took⟩⟩
  | command =>
    refine ((rounds.command 0 (.nextCommand :: sites)).bind fun _ => stagesSound).weaken ?_
    rintro before _ after _ ⟨_, middle, commandTaken, stagesTaken⟩ enough
    exact ⟨middle, stagesTaken, Or.inr ⟨rfl, commandTaken enough⟩⟩

/-- One more bar of a pipe. -/
theorem stages_step (rounds : SoundRounds fuel) (nested : sites ≠ []) :
    (stages (fuel + 1) 0 sites).Sound (StagesTaken (fuel + 1)) := by
  have round := (announce_sound .pipe).bind fun _ =>
    (follow_took .pipeChoice (forecastStage 0 sites)).bind fun choice =>
      wrapAccept_sound.bind fun _ => stage_sound rounds nested choice
  refine ((follow_took .pipeChoice (forecastBar 0 sites)).bind fun choice =>
    loop_sound round (Sound.pure ()) choice).weaken ?_
  rintro before _ after _ ⟨choice, looked, ⟨chosen, look⟩, related⟩ enough left children read
  obtain ⟨sameRest, sameChildren⟩ := look.same
  rcases related with ⟨rfl, _, announcing, announced, choice, staging, ⟨chosenStage, lookStage⟩, _,
    _, rfl, staged⟩ | ⟨rfl, _, rfl⟩
  · obtain ⟨bar, rest, ahead⟩ := forecastBar_inv chosen
    obtain ⟨announcedRest, _⟩ := (look.trans announced).same
    obtain ⟨stagedRest, stagedChildren⟩ := ((look.trans announced).trans lookStage).same
    -- The pipe read so far becomes the left side of the next one when the bar is accepted.
    have tookBar : Took [bar.val] [.leaf bar.val] (staging.wrap .pipe)
        (staging.wrap .pipe).accept :=
      Cursor.accept_of_rest (stagedRest.trans ahead)
    have barRest : before.rest = bar.val :: (staging.wrap .pipe).accept.rest :=
      stagedRest.symm.trans tookBar.rest
    have length : (staging.wrap .pipe).accept.rest.length + 1 = before.rest.length := by
      rw [barRest, List.length_cons]
    have wrapped : (staging.wrap .pipe).children = [.node .pipe left.parts] := by
      rw [← children, ← stagedChildren]
      rfl
    obtain ⟨middle, stagesTaken, ⟨rfl, call, took⟩ | ⟨rfl, command, took, ends⟩⟩ :=
      staged (by omega)
    · have beyond : before.rest = bar.val :: (call.tokens ++ middle.rest) := by
        rw [barRest, took.rest]
      refine stages_grow stagesTaken (.call left bar call) enough beyond ?_ ?_ read ?_
      · rw [Pipe.tokens]
      · rw [took.children, tookBar.children, wrapped, Pipe.parts]
        rfl
      · rw [Pipe.Settled, ← beyond]
        exact read.settled
    · have beyond : before.rest = bar.val :: (command.tokens ++ middle.rest) := by
        rw [barRest, took.rest]
      rw [announcedRest, beyond] at chosenStage
      refine stages_grow stagesTaken (.command left bar command) enough beyond ?_ ?_ read ?_
      · rw [Pipe.tokens]
      · rw [took.children, tookBar.children, wrapped, Pipe.parts]
        rfl
      · rw [Pipe.Settled, ← beyond]
        exact ⟨read.settled, ends.read.settled,
          needed_of_forecast sites nested bar ends chosenStage⟩
  · refine ⟨left, [], sameRest.symm, (List.append_nil _).symm, sameChildren.trans children, ?_⟩
    rw [sameRest]
    exact read

/-! ### Whole commands -/

/-- All rounds together. The rules use one another, so they are treated at once, by induction
on the fuel. -/
theorem rounds_sound (fuel : Nat) : SoundRounds fuel := by
  induction fuel with
  | zero =>
    have idle : (Pure.pure () : Recogniser Unit).Sound fun before _ after => after = before :=
      (Sound.pure ()).weaken fun _ _ _ _ related => related.2
    refine ⟨fun precedence sites => ?_, fun precedence sites => ?_, fun sites _ => ?_,
      fun sites _ => ?_⟩
    · exact idle.weaken fun before _ _ _ _ enough => by omega
    · exact idle.weaken fun before _ _ _ _ enough => by omega
    · exact idle.weaken fun before _ _ _ _ enough => by omega
    · exact idle.weaken fun before _ _ _ _ enough => by omega
  | succ fuel rounds =>
    exact ⟨fun _ _ => command_step rounds, fun _ _ => operands_step rounds,
      fun _ nested => pipe_step rounds nested, fun _ nested => stages_step rounds nested⟩

theorem command_sound (fuel : Nat) (precedence : Int) (sites : List Site) :
    (liftM (command fuel precedence sites) : Recogniser Unit).Sound
      (CommandTaken fuel precedence) :=
  (rounds_sound fuel).command precedence sites

end Recogniser

end MiniShell
