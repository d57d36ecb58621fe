/-
This file shows that reading accepts exactly what the grammar derives. The
tokens of every command are a line outside of pipes, and such lines are read to
their end without a report: each rule takes a beginning of the line and leaves
something that the rules in use around it can go on with. Together with the
soundness of reading that settles which lines are accepted, and which of the
derivations of a line its tree shows.

The rules for commands, pipes and their loops call each other, so what they
accept is proved for all of them together, by induction on the fuel. Each
statement says which lines a rule takes up, and what it may leave for the rules
outside.
-/

import MiniShell.Proofs.Completeness
import MiniShell.Proofs.Settling

namespace MiniShell

open MiniShell.Derivation

namespace Recogniser

/-! ### What a part of a line leaves -/

/-- What a command leaves to the rules around it. Outside of pipes it leaves no bar. -/
structure Left (inside : Bool) (tokens : List Token) : Prop where
  behind : Behind inside tokens
  noBar : inside = false → headKind tokens ≠ .bar

/-- A command of low precedence leaves no semicolon either, so what it leaves can be left by any
part of a pipe. -/
theorem Left.behind_of_noSemicolon {inside other : Bool} {tokens : List Token}
    (left : Left inside tokens) (noSemicolon : headKind tokens ≠ .semicolon) :
    Behind other tokens := by
  cases left.behind with
  | done => exact .done
  | semicolon semicolon rest line => exact absurd semicolon.property noSemicolon
  | bar bar rest others => exact .bar bar rest others

theorem insidePipe_cons (site : Site) (sites : List Site) (other : site ≠ .nextCommand) :
    insidePipe (site :: sites) = insidePipe sites := by
  unfold insidePipe
  rw [List.contains_cons, beq_eq_false_iff_ne.mpr (Ne.symm other), Bool.false_or]

/-- What reading a command comes to on a line. -/
def CommandAccepts (fuel : Nat) : Prop :=
  ∀ (precedence : Int) (sites : List Site) (tokens : List Token) (trees : List Tree),
    2 * tokens.length + 4 ≤ fuel → Line (insidePipe sites) tokens →
    ∃ (tree : Tree) (rest : List Token),
      (liftM (command fuel precedence sites) : Recogniser Unit).Runs (tokens, trees)
        (rest, trees ++ [tree]) ∧ rest.length ≤ tokens.length ∧ Left (insidePipe sites) rest ∧
      (precedence ≤ Operator.semicolon.rank → headKind rest ≠ .semicolon)

/-- What the loop over semicolons comes to. -/
def OperandsAccept (fuel : Nat) : Prop :=
  ∀ (precedence : Int) (sites : List Site) (tokens : List Token) (trees : List Tree),
    2 * tokens.length + 3 ≤ fuel → Left (insidePipe sites) tokens →
    ∃ (parts : List Tree) (rest : List Token),
      (operands fuel precedence sites).Runs (tokens, trees) (rest, parts) ∧
      rest.length ≤ tokens.length ∧ Left (insidePipe sites) rest ∧
      (precedence ≤ Operator.semicolon.rank → headKind rest ≠ .semicolon)

/-- What reading a pipe comes to on a line that begins with one. -/
def PipeAccepts (fuel : Nat) : Prop :=
  ∀ (sites : List Site) (left : Call) (bar : Bar) (right : Call) (tokens : List Token)
    (trees : List Tree), sites ≠ [] → left.Tight → right.Tight →
    2 * (left.tokens ++ bar.val :: (right.tokens ++ tokens)).length + 3 ≤ fuel →
    Behind (insidePipe sites) tokens → ∃ (tree : Tree) (rest : List Token),
      (liftM (pipe fuel 0 sites) : Recogniser Unit).Runs
        (left.tokens ++ bar.val :: (right.tokens ++ tokens), trees) (rest, trees ++ [tree]) ∧
      rest.length ≤ tokens.length ∧ Behind (insidePipe sites) rest ∧ headKind rest ≠ .bar

/-- What the loop over bars comes to. -/
def StagesAccept (fuel : Nat) : Prop :=
  ∀ (sites : List Site) (tokens : List Token) (trees : List Tree), sites ≠ [] →
    2 * tokens.length + 3 ≤ fuel → Behind (insidePipe sites) tokens →
    ∃ (parts : List Tree) (rest : List Token),
      (stages fuel 0 sites).Runs (tokens, trees) (rest, parts) ∧
      rest.length ≤ tokens.length ∧ Behind (insidePipe sites) rest ∧ headKind rest ≠ .bar

/-! ### One round of each rule -/

/-- The loop for semicolons goes on while one is ahead that the precedence at hand admits. -/
theorem operandsAccept_succ {fuel : Nat} (commands : CommandAccepts fuel)
    (loop : OperandsAccept fuel) : OperandsAccept (fuel + 1) := by
  intro precedence sites tokens trees enough left
  by_cases again : precedence ≤ Operator.semicolon.rank ∧ headKind tokens = .semicolon
  · obtain ⟨low, isSemicolon⟩ := again
    cases left.behind with
    | done => exact absurd isSemicolon (by simp [headKind])
    | bar bar rest others =>
      rw [headKind, bar.property] at isSemicolon
      exact absurd isSemicolon (by decide)
    | semicolon semicolon rest line =>
      rw [List.length_cons] at enough
      obtain ⟨tree, middle, reads, shorter, leaves, _⟩ :=
        commands Operator.semicolon.operandLevel (.operand :: sites) rest
        [.node .command trees, .leaf semicolon.val] (by omega)
        (by rw [insidePipe_cons .operand sites (by decide)]; exact line)
      rw [insidePipe_cons .operand sites (by decide)] at leaves
      obtain ⟨parts, last, goesOn, shorterLast, leavesLast, finished⟩ :=
        loop precedence sites middle
        ([.node .command trees, .leaf semicolon.val] ++ [tree]) (by omega) leaves
      refine ⟨parts, last, ?_, by rw [List.length_cons]; omega, leavesLast, finished⟩
      exact Runs.follow .again (forecastSemicolon_again precedence low sites semicolon rest)
        ((Runs.wrapCommand _ trees).bind ((Runs.accept semicolon.val rest _).bind
          (reads.bind goesOn)))
  · refine ⟨trees, tokens, ?_, Nat.le_refl _, left, fun low isSemicolon => again ⟨low, isSemicolon⟩⟩
    refine Runs.follow .done (forecastSemicolon_done precedence sites tokens ?_) (Runs.pure _)
    rintro token rest rfl isSemicolon
    exact Int.not_le.mp fun low => again ⟨low, isSemicolon⟩

theorem headKind_ne_bar {tokens : List Token}
    (bars : ∀ bar rest, tokens = bar :: rest → bar.kind ≠ .bar) : headKind tokens ≠ .bar := by
  cases tokens with
  | nil => simp [headKind]
  | cons token rest => exact bars token rest rfl

/-- A command takes nothing, a call or a pipe, whichever the line begins with, and then its
operands. -/
theorem commandAccepts_succ {fuel : Nat} (pipes : PipeAccepts fuel) (loop : OperandsAccept fuel) :
    CommandAccepts (fuel + 1) := by
  intro precedence sites tokens trees enough line
  cases line.beginning with
  | nothing _ behind bars =>
    have noBar : insidePipe sites = false → headKind tokens ≠ .bar := fun outside =>
      headKind_ne_bar fun bar rest equal isBar =>
        (bars outside bar rest).elim (fun other => other equal) (fun other => other isBar)
    obtain ⟨parts, last, goesOn, shorter, leaves⟩ :=
      loop precedence sites tokens [] (by omega) ⟨behind, noBar⟩
    exact ⟨.node .command parts, last, Runs.within trees (Runs.follow .empty
      (forecastCommand_nothing _ tokens behind.boundary) goesOn), shorter, leaves⟩
  | call call tight rest behind bars =>
    have noBar : insidePipe sites = false → headKind rest ≠ .bar := fun outside =>
      headKind_ne_bar fun bar others equal isBar =>
        absurd ((bars bar others equal isBar).1) (by rw [outside]; decide)
    rw [List.length_append] at enough
    obtain ⟨parts, last, goesOn, shorter, leaves⟩ :=
      loop precedence sites rest [call.tree] (by omega) ⟨behind, noBar⟩
    refine ⟨.node .command parts, last, Runs.within trees (Runs.follow .call
      (forecastCommand_call _ call rest behind.boundary fun bar others equal isBar =>
        (bars bar others equal isBar).2.boundary)
      ((Runs.call tight [] (by omega) behind.boundary ?_).bind goesOn)),
      by rw [List.length_append]; omega, leaves⟩
    exact fun first => absurd first (by simp [beforeFirstBar])
  | pipe left leftTight bar right rightTight rest behind =>
    -- Only what is read as a command behind a bar counts as inside of a pipe.
    have same := insidePipe_cons .pipeOfCommand sites (by decide)
    obtain ⟨tree, middle, reads, shorterMiddle, behindMiddle, noBar⟩ :=
      pipes (.pipeOfCommand :: sites) left bar right rest [] (by simp) leftTight rightTight
        (by omega) (by rw [same]; exact behind)
    rw [same] at behindMiddle
    rw [List.length_append, List.length_cons, List.length_append] at enough
    obtain ⟨parts, last, goesOn, shorter, leaves⟩ :=
      loop precedence sites middle [tree] (by omega) ⟨behindMiddle, fun _ => noBar⟩
    refine ⟨.node .command parts, last, Runs.within trees (Runs.follow .pipe
      (forecastCommand_pipe _ left bar right rest behind.boundary) (reads.bind goesOn)),
      ?_, leaves⟩
    rw [List.length_append, List.length_cons, List.length_append]
    omega

/-- A pipe is read as two calls with a bar between them, with what the loop over bars makes of
them. -/
theorem runs_pipe {fuel : Nat} {sites : List Site} {left right : Call} (bar : Bar)
    (leftTight : left.Tight) (rightTight : right.Tight) {tokens rest : List Token}
    {parts : List Tree} (trees : List Tree)
    (enough : left.tokens.length + right.tokens.length < fuel) (boundary : Boundary tokens)
    (goesOn : (stages fuel 0 sites).Runs (tokens, [left.tree, .leaf bar.val, right.tree])
      (rest, parts)) :
    (liftM (pipe (fuel + 1) 0 sites) : Recogniser Unit).Runs
      (left.tokens ++ bar.val :: (right.tokens ++ tokens), trees)
      (rest, trees ++ [.node .pipe parts]) := by
  have barNext : headKind (bar.val :: (right.tokens ++ tokens)) ≠ .semicolon := by
    rw [headKind, bar.property]
    decide
  have barBoundary : Boundary (bar.val :: (right.tokens ++ tokens)) := bar_isSeparator bar
  exact Runs.within trees
    ((Runs.call leftTight [] (by omega) barBoundary fun _ => barNext).bind
      ((Runs.requireOne bar.val _ _ (by rw [bar.property]; rfl)).bind
        ((Runs.call rightTight _ (by omega) boundary
          fun first => absurd first (by simp [beforeFirstBar])).bind goesOn)))

theorem pipeAccepts_succ {fuel : Nat} (loop : StagesAccept fuel) : PipeAccepts (fuel + 1) := by
  intro sites left bar right tokens trees nested leftTight rightTight enough behind
  rw [List.length_append, List.length_cons, List.length_append] at enough
  obtain ⟨parts, last, goesOn, shorter, leaves⟩ := loop sites tokens
    [left.tree, .leaf bar.val, right.tree] nested (by omega) behind
  exact ⟨.node .pipe parts, last, runs_pipe bar leftTight rightTight trees (by omega)
    behind.boundary goesOn, shorter, leaves⟩

/-- A bar is read with what stands after it, and the loop over bars goes on to its end. -/
def BarAccepts (fuel : Nat) (sites : List Site) (bar : Bar) (tokens : List Token)
    (trees : List Tree) : Prop :=
  ∃ (parts : List Tree) (last : List Token),
    (stages fuel 0 sites).Runs (bar.val :: tokens, trees) (last, parts) ∧
    last.length ≤ tokens.length ∧ Behind (insidePipe sites) last ∧ headKind last ≠ .bar

theorem runs_stage {fuel : Nat} {sites : List Site} {bar : Bar} {rest last : List Token}
    {trees parts : List Tree} {choice : PipeChoice}
    (runs : (match choice with
      | .call => liftM (call fuel (.nextCall :: sites)) >>= fun _ => stages fuel 0 sites
      | .command => liftM (command fuel 0 (.nextCommand :: sites)) >>= fun _ =>
          stages fuel 0 sites : Recogniser Unit).Runs
      (rest, [.node .pipe trees, .leaf bar.val]) (last, parts))
    (chosen : (forecastStage 0 sites (kindsOf (bar.val :: rest))).choice = some choice) :
    (stages (fuel + 1) 0 sites).Runs (bar.val :: rest, trees) (last, parts) :=
  Runs.follow .again (forecastBar_again sites bar rest)
    ((Runs.announce .pipe _).bind (Runs.follow choice chosen
      ((Runs.wrapPipe bar.val rest trees).bind runs)))

/-- A command that was chosen after a bar may be followed by more stages. -/
theorem barAccepts_command {fuel : Nat} (commands : CommandAccepts fuel)
    (loop : StagesAccept fuel) {sites : List Site} {bar : Bar} {rest : List Token}
    (trees : List Tree) (nested : sites ≠ []) (enough : 2 * rest.length + 5 ≤ fuel + 1)
    (inside : Inside rest)
    (chosen : (forecastStage 0 sites (kindsOf (bar.val :: rest))).choice = some .command) :
    BarAccepts (fuel + 1) sites bar rest trees := by
  have nowInside : insidePipe (.nextCommand :: sites) = true := rfl
  obtain ⟨tree, middle, reads, shorter, leaves, noSemicolon⟩ := commands 0 (.nextCommand :: sites)
    rest [.node .pipe trees, .leaf bar.val] (by omega) (by rw [nowInside]; exact inside)
  obtain ⟨parts, last, goesOn, shorterLast, behind⟩ := loop sites middle
    ([.node .pipe trees, .leaf bar.val] ++ [tree]) nested (by omega)
    (leaves.behind_of_noSemicolon (noSemicolon (by decide)))
  exact ⟨parts, last, runs_stage (reads.bind goesOn) chosen, by omega, behind⟩

/-- A call that was chosen after a bar is read, and the loop goes on behind it. -/
theorem barAccepts_call {fuel : Nat} (loop : StagesAccept fuel) {sites : List Site} {bar : Bar}
    {call : Call} (tight : call.Tight) {rest : List Token} (trees : List Tree)
    (nested : sites ≠ []) (enough : 2 * (call.tokens ++ rest).length + 5 ≤ fuel + 1)
    (behind : Behind (insidePipe sites) rest)
    (chosen : (forecastStage 0 sites (kindsOf (bar.val :: (call.tokens ++ rest)))).choice =
      some .call) :
    BarAccepts (fuel + 1) sites bar (call.tokens ++ rest) trees := by
  rw [List.length_append] at enough
  obtain ⟨parts, last, goesOn, shorter, behindLast⟩ := loop sites rest
    ([.node .pipe trees, .leaf bar.val] ++ [call.tree]) nested (by omega) behind
  have reads : (liftM (Recogniser.call fuel (.nextCall :: sites)) : Recogniser Unit).Runs _ _ :=
    Runs.call tight [.node .pipe trees, .leaf bar.val] (by omega) behind.boundary
      fun first => absurd first (by simp [beforeFirstBar])
  exact ⟨parts, last, runs_stage (reads.bind goesOn) chosen, by rw [List.length_append]; omega,
    behindLast⟩

/-- The line after a bar begins with a call or with nothing. Where a semicolon follows the call
outside of pipes, the look ahead tells whether a call is enough. -/
theorem barAccepts_succ {fuel : Nat} (commands : CommandAccepts fuel) (loop : StagesAccept fuel)
    {sites : List Site} (bar : Bar) {tokens : List Token} (trees : List Tree)
    (nested : sites ≠ []) (enough : 2 * tokens.length + 5 ≤ fuel + 1) (inside : Inside tokens) :
    BarAccepts (fuel + 1) sites bar tokens trees := by
  rcases inside.cut with behind | ⟨call, rest, tight, rfl, behind⟩
  · exact barAccepts_command commands loop trees nested enough inside
      (forecastStage_nothing sites bar tokens behind.boundary)
  · have byCall (fitting : Behind (insidePipe sites) rest)
        (fits : ∀ semicolon others, rest = semicolon :: others → semicolon.kind = .semicolon →
          insidePipe sites = true ∨ (lookOutside false .start (kindsOf others)).1 = true) :
        BarAccepts (fuel + 1) sites bar (call.tokens ++ rest) trees :=
      barAccepts_call loop tight trees nested enough fitting
        (forecastStage_call sites nested bar call rest behind.boundary fits)
    cases behind with
    | done => exact byCall .done fun _ _ equal => absurd equal (by simp)
    | bar next others further =>
      refine byCall (.bar next others further) fun semicolon _ equal isSemicolon => ?_
      rw [← (List.cons.inj equal).1, next.property] at isSemicolon
      exact absurd isSemicolon (by decide)
    | semicolon semicolon others line =>
      have sameOthers {token : Token} {list : List Token}
          (equal : semicolon.val :: others = token :: list) : list = others :=
        (List.cons.inj equal).2.symm
      -- Only here the choice depends on the whole rest of the line.
      cases mode : insidePipe sites with
      | true =>
        rw [mode] at byCall
        exact byCall (.semicolon semicolon others line) fun _ _ _ _ => Or.inl rfl
      | false =>
        cases fits : (lookOutside false .start (kindsOf others)).1 with
        | true =>
          rw [mode] at byCall
          refine byCall (.semicolon semicolon others (Inside.outside_of_fits line false fits))
            fun _ _ equal _ => Or.inr ?_
          rw [sameOthers equal]
          exact fits
        | false =>
          exact barAccepts_command commands loop trees nested enough inside
            (forecastStage_needed sites nested bar call semicolon others mode fits)

/-- The loop for bars goes on while a bar is ahead. -/
theorem stagesAccept_succ {fuel : Nat} (commands : CommandAccepts fuel)
    (loop : StagesAccept fuel) : StagesAccept (fuel + 1) := by
  intro sites tokens trees nested enough behind
  by_cases isBar : headKind tokens = .bar
  · cases behind with
    | done => exact absurd isBar (by simp [headKind])
    | semicolon semicolon rest line =>
      rw [headKind, semicolon.property] at isBar
      exact absurd isBar (by decide)
    | bar bar rest inside =>
      rw [List.length_cons] at enough
      obtain ⟨parts, last, reads, shorter, leaves⟩ :=
        barAccepts_succ commands loop bar trees nested (by omega) inside
      exact ⟨parts, last, reads, by rw [List.length_cons]; omega, leaves⟩
  · refine ⟨trees, tokens, Runs.follow .done (forecastBar_done 0 sites tokens ?_) (Runs.pure _),
      Nat.le_refl _, behind, isBar⟩
    rintro token rest rfl
    exact isBar

/-- All rounds together, by induction on the fuel. -/
theorem rounds_accept (fuel : Nat) :
    CommandAccepts fuel ∧ OperandsAccept fuel ∧ PipeAccepts fuel ∧ StagesAccept fuel := by
  induction fuel with
  | zero =>
    refine ⟨?_, ?_, ?_, ?_⟩
    · exact fun _ _ tokens _ enough => by omega
    · exact fun _ _ tokens _ enough => by omega
    · exact fun _ left bar right tokens _ _ _ _ enough => by omega
    · exact fun _ tokens _ _ enough => by omega
  | succ fuel inductionHypothesis =>
    obtain ⟨commands, operands, pipes, stages⟩ := inductionHypothesis
    exact ⟨commandAccepts_succ pipes operands, operandsAccept_succ commands operands,
      pipeAccepts_succ stages, stagesAccept_succ commands stages⟩

end Recogniser

/-! ### Reports of a reading -/

/-- A reading is quiet if all its reports are about text that is no token. -/
def Reading.Quiet (reading : Reading) : Prop :=
  ∀ report ∈ reading.reports, report.complaint.isAboutTokens = false

theorem Report.mem_merge (firsts seconds : List (Nat × Report)) (report : Report) :
    report ∈ merge firsts seconds ↔
      report ∈ firsts.map Prod.snd ∨ report ∈ seconds.map Prod.snd := by
  fun_induction merge firsts seconds with
  | case1 others => simp
  | case2 firsts _ => simp
  | case3 number head firsts other second others _ inductionHypothesis =>
    simp only [List.mem_cons, inductionHypothesis, List.map_cons]
    simp only [or_assoc]
  | case4 number head firsts other second others _ inductionHypothesis =>
    simp only [List.mem_cons, inductionHypothesis, List.map_cons]
    exact or_left_comm

theorem Report.ofLexemes_isAboutTokens (count : Nat) (lexemes : List Lexeme) :
    ∀ entry ∈ ofLexemes count lexemes, entry.2.complaint.isAboutTokens = false := by
  induction lexemes generalizing count with
  | nil => exact fun _ member => absurd member List.not_mem_nil
  | cons lexeme rest inductionHypothesis =>
    rw [ofLexemes]
    split
    · exact inductionHypothesis _
    · intro entry member
      rcases List.mem_cons.mp member with rfl | inRest
      · rfl
      · exact inductionHypothesis _ entry inRest

/-- The state in which the reading of a line as a command ends. -/
def lastCursor (line : Text) : Cursor :=
  ((Recogniser.command (4 * (Token.ofLine line).length + 8) 0 []).run
    (Cursor.start (Token.ofLine line) (Mark.start.after line))).2

theorem readLine_tree (line : Text) :
    (readLine line .command 0).tree = (lastCursor line).children.headD (.node .command []) := rfl

theorem readLine_unread (line : Text) :
    (readLine line .command 0).unread = (lastCursor line).rest := rfl

theorem readLine_reports (line : Text) :
    (readLine line .command 0).reports = Report.merge
      ((Report.ofLexemes 0 (Lexeme.ofLine line)).filter
        fun entry => entry.1 ≤ (lastCursor line).looked) (lastCursor line).reports := rfl

/-- Where all text is recognised and no rule made a report, there are no reports. -/
theorem reports_nil {line : Text}
    (recognised : (Report.ofLexemes 0 (Lexeme.ofLine line)).isEmpty = true)
    (silent : (lastCursor line).reports.isEmpty = true) :
    (readLine line .command 0).reports = [] := by
  rw [readLine_reports, List.isEmpty_iff.mp recognised, List.isEmpty_iff.mp silent,
    List.filter_nil, Report.merge, List.map_nil]

theorem quiet_of_silent {line : Text} (silent : (readLine line .command 0).reports = []) :
    (readLine line .command 0).Quiet := by
  rw [Reading.Quiet, silent]
  exact fun _ member => absurd member List.not_mem_nil

/-- A reading is quiet if and only if no rule made a report. -/
theorem quiet_iff (line : Text) :
    (readLine line .command 0).Quiet ↔ (lastCursor line).reports = [] := by
  obtain ⟨added, same, areAbout⟩ := ((Recogniser.command_sound
    (4 * (Token.ofLine line).length + 8) 0 []).passage
    (Cursor.start (Token.ofLine line) (Mark.start.after line))).reports_append
  have all : (lastCursor line).reports = added := same
  unfold Reading.Quiet
  rw [readLine_reports]
  constructor
  · intro quiet
    rw [all]
    refine List.eq_nil_iff_forall_not_mem.mpr fun entry member => ?_
    have notAbout := quiet entry.2 ((Report.mem_merge _ _ _).mpr
      (Or.inr (List.mem_map_of_mem (by rw [all]; exact member))))
    rw [areAbout entry member] at notAbout
    exact absurd notAbout (by decide)
  · intro none report member
    rcases (Report.mem_merge _ _ _).mp member with inFirsts | inSeconds
    · obtain ⟨entry, inFiltered, rfl⟩ := List.mem_map.mp inFirsts
      exact Report.ofLexemes_isAboutTokens 0 _ entry (List.mem_filter.mp inFiltered).1
    · rw [none] at inSeconds
      exact absurd inSeconds List.not_mem_nil

/-! ### Accepted lines -/

/-- The tree of a quiet reading shows a settled derivation of the tokens that were read. -/
theorem derivation_of_quiet {line : Text} (quiet : (readLine line .command 0).Quiet) :
    ∃ command : Derivation.Command,
      Token.ofLine line = command.tokens ++ (readLine line .command 0).unread ∧
      (readLine line .command 0).tree = command.tree ∧
      command.Settled (readLine line .command 0).unread := by
  have silent : (lastCursor line).reports.length = ([] : List (Nat × Report)).length :=
    congrArg List.length ((quiet_iff line).mp quiet)
  obtain ⟨_, taken⟩ := (Recogniser.command_sound (4 * (Token.ofLine line).length + 8) 0 []).quiet
    (Cursor.start (Token.ofLine line) (Mark.start.after line)) rfl silent
  have enough : 2 * (Token.ofLine line).length + 4 ≤ 4 * (Token.ofLine line).length + 8 := by omega
  obtain ⟨command, took, ends⟩ := taken () rfl enough
  refine ⟨command, took.rest, ?_, ends.read.settled⟩
  rw [readLine_tree]
  exact congrArg (fun trees => List.headD trees (.node .command [])) took.children

/-- A line that can be derived is read to its end without a report about its tokens. -/
theorem quiet_of_derivable {line : Text} (derivable : Derivable (Token.ofLine line)) :
    (readLine line .command 0).Quiet ∧ (readLine line .command 0).unread = [] := by
  obtain ⟨tree, rest, runs, _, leaves, noSemicolon⟩ :=
    (Recogniser.rounds_accept (4 * (Token.ofLine line).length + 8)).1 0 [] (Token.ofLine line) []
      (by omega) derivable.outside
  obtain ⟨last, finished, _, reports, unread, _⟩ :=
    runs (Cursor.start (Token.ofLine line) (Mark.start.after line)) rfl rfl rfl
  have isLast : lastCursor line = last := congrArg Prod.snd finished
  have empty : rest = [] := by
    cases leaves.behind with
    | done => rfl
    | semicolon semicolon others line => exact absurd semicolon.property (noSemicolon (by decide))
    | bar bar others inside => exact absurd bar.property (leaves.noBar rfl)
  refine ⟨(quiet_iff line).mpr ?_, ?_⟩
  · rw [isLast, reports]
    rfl
  · rw [readLine_unread, isLast, unread, empty]

/-- A line is read as a command to its end and without a report about its tokens if and only if
the grammar derives it. The tree then shows a settled derivation of exactly the tokens of the
line: semicolons nest to the left, and after a bar a command stands only if it begins with
nothing, or if it begins with a call and a semicolon and the line behind that semicolon is no
command by itself. -/
theorem readLine_accepts_iff (line : Text) :
    ((readLine line .command 0).Quiet ∧ (readLine line .command 0).unread = [] ↔
      Derivable (Token.ofLine line)) ∧
    (Derivable (Token.ofLine line) ↔ ∃ command : Derivation.Command,
      command.tokens = Token.ofLine line ∧ (readLine line .command 0).tree = command.tree ∧
      command.Settled []) := by
  refine ⟨⟨?_, quiet_of_derivable⟩, ⟨?_, fun ⟨command, tokens, _⟩ => ⟨command, tokens⟩⟩⟩
  · rintro ⟨quiet, unread⟩
    obtain ⟨command, tokens, _⟩ := derivation_of_quiet quiet
    rw [unread, List.append_nil] at tokens
    exact ⟨command, tokens.symm⟩
  · intro derivable
    obtain ⟨quiet, unread⟩ := quiet_of_derivable derivable
    obtain ⟨command, tokens, tree, settled⟩ := derivation_of_quiet quiet
    rw [unread] at tokens settled
    exact ⟨command, (tokens.trans (List.append_nil _)).symm, tree, settled⟩

/-- Whether a command begins with nothing. -/
def Tree.beginsEmpty : Tree → Bool
  | .node .command [] => true
  | .node .command (first :: _) => first.beginsEmpty
  | _ => false

/-- Whether after every bar stands a call or a command that begins with nothing. -/
def Tree.stagesAreCalls (tree : Tree) : Bool :=
  tree.subtrees.all fun
    | .node .pipe [_, _, right] => right.isNode .call || right.beginsEmpty
    | _ => true

/-- After the second bar stands a command that begins with a call. The line behind its semicolon
ends in a bar, so it is no command by itself. -/
theorem readLine_stage_needed :
    (readLine "a|b|c;d|".toList .command 0).reports = [] ∧
    (readLine "a|b|c;d|".toList .command 0).unread = [] ∧
    (readLine "a|b|c;d|".toList .command 0).tree.stagesAreCalls = false := by
  refine ⟨reports_nil ?_ ?_, List.isEmpty_iff.mp ?_, ?_⟩ <;> decide +kernel

end MiniShell
