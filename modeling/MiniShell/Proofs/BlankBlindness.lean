/-
This file shows that blank space says nothing but that it is there. Reading
looks at the kinds of tokens only, so two lines whose tokens are of the same
kinds are read in the same way, step by step: what one reading reports, drops
or makes up, the other one does, too. The evaluator looks at the texts of
tokens, but never at that of a blank. So a run of blanks can be written with
any number of spaces and tabs, and the line does the same from every session.

The positions of tokens are not the same in the two lines. Trees, reports and
cursors are therefore compared after positions and the texts of blanks have
been taken out of them.
-/

import MiniShell.Proofs.BlankRuns
import MiniShell.Proofs.Mending

namespace MiniShell

open MiniShell.Derivation

/-! ### What is left without positions and blanks -/

/-- A token without its position, and without its text if it is a blank. -/
def Token.bare (token : Token) : Token where
  kind := token.kind
  text := if token.kind = .blank then [] else token.text
  mark := Mark.start

mutual

/-- A tree whose leaves have no positions and whose blanks have no text. -/
def Tree.bare : Tree → Tree
  | .node rule children => .node rule (bareAll children)
  | .leaf token => .leaf token.bare
  | .error token => .error token.bare
  | .missing kind => .missing kind

/-- Trees whose leaves have no positions and whose blanks have no text. -/
def Tree.bareAll : List Tree → List Tree
  | [] => []
  | tree :: rest => tree.bare :: bareAll rest

end

theorem Tree.bareAll_eq_map (trees : List Tree) : bareAll trees = trees.map bare := by
  induction trees with
  | nil => rfl
  | cons tree rest inductionHypothesis => rw [bareAll, inductionHypothesis, List.map_cons]

theorem Tree.bareAll_append (trees others : List Tree) :
    bareAll (trees ++ others) = bareAll trees ++ bareAll others := by
  rw [bareAll_eq_map, bareAll_eq_map, bareAll_eq_map, List.map_append]

/-! ### Cursors that are alike -/

namespace Cursor

/-- Two readings have come equally far: they differ in positions, in the texts of blanks, and in
the wording of reports. -/
structure Alike (cursor other : Cursor) : Prop where
  rest : cursor.rest.map Token.bare = other.rest.map Token.bare
  passed : cursor.passed = other.passed
  looked : cursor.looked = other.looked
  children : Tree.bareAll cursor.children = Tree.bareAll other.children
  numbers : cursor.reports.map Prod.fst = other.reports.map Prod.fst
  recovering : cursor.recovering = other.recovering
  stumbledAt : cursor.stumbledAt = other.stumbledAt
  stumbles : cursor.stumbles = other.stumbles

namespace Alike

variable {cursor other : Cursor} (alike : cursor.Alike other)
include alike

theorem length : cursor.rest.length = other.rest.length := by
  simpa using congrArg List.length alike.rest

theorem ahead : cursor.ahead = other.ahead := by
  have kinds := congrArg (List.map Token.kind) alike.rest
  rw [List.map_map, List.map_map] at kinds
  exact kinds

theorem rest_cases :
    cursor.rest = [] ∧ other.rest = [] ∨ ∃ token more further others,
      cursor.rest = token :: more ∧ other.rest = further :: others ∧ token.bare = further.bare ∧
        more.map Token.bare = others.map Token.bare := by
  have same := alike.rest
  cases first : cursor.rest with
  | nil =>
    rw [first, List.map_nil, eq_comm, List.map_eq_nil_iff] at same
    exact Or.inl ⟨rfl, same⟩
  | cons token more =>
    rw [first, List.map_cons, eq_comm] at same
    obtain ⟨further, others, second, head, tail⟩ := List.map_eq_cons_iff.mp same
    exact Or.inr ⟨token, more, further, others, rfl, second, head.symm, tail.symm⟩

theorem current : cursor.current.bare = other.current.bare := by
  rcases alike.rest_cases with
    ⟨first, second⟩ | ⟨token, more, further, others, first, second, same, _⟩
  · rw [Cursor.current, Cursor.current, first, second]
    rfl
  · rw [Cursor.current, Cursor.current, first, second]
    exact same

theorem kind : cursor.current.kind = other.current.kind := by
  show cursor.current.bare.kind = other.current.bare.kind
  rw [alike.current]

theorem second : cursor.second = other.second := by
  have fromAhead (cursor : Cursor) : cursor.second = cursor.ahead.tail.headD .lineEnd := by
    rw [Cursor.second, Cursor.ahead]
    split
    · rename_i same
      rw [same]
      rfl
    · rename_i short
      cases rest : cursor.rest with
      | nil => rfl
      | cons token more =>
        cases more with
        | nil => rfl
        | cons next others => exact absurd rest (short token next others)
  rw [fromAhead, fromAhead, alike.ahead]

/-! ### Changes -/

theorem look (count : Nat) : (cursor.look count).Alike (other.look count) :=
  { alike with
    looked := by rw [Cursor.look, Cursor.look, alike.looked, alike.passed, alike.length] }

theorem report (mark otherMark : Mark) (complaint otherComplaint : Complaint) :
    (cursor.report mark complaint).Alike (other.report otherMark otherComplaint) :=
  { alike with
    numbers := by
      rw [Cursor.report, Cursor.report, List.map_append, List.map_append, alike.numbers,
        alike.looked]
      rfl }

theorem settle : cursor.settle.Alike other.settle :=
  { alike with recovering := rfl, stumbledAt := rfl, stumbles := rfl }

theorem addLeaf {token further : Token} (same : token.bare = further.bare) :
    (cursor.addLeaf token).Alike (other.addLeaf further) := by
  rw [Cursor.addLeaf, Cursor.addLeaf, alike.recovering]
  have leaf {tree further : Tree} (same : tree.bare = further.bare) :
      Tree.bareAll (cursor.children ++ [tree]) = Tree.bareAll (other.children ++ [further]) := by
    rw [Tree.bareAll_append, Tree.bareAll_append, alike.children]
    simp only [Tree.bareAll, same]
  split
  · exact { alike with recovering := rfl, children := leaf (by rw [Tree.bare, Tree.bare, same]) }
  · exact { alike with recovering := rfl, children := leaf (by rw [Tree.bare, Tree.bare, same]) }

theorem pass : cursor.pass.Alike other.pass := by
  rcases alike.rest_cases with
    ⟨first, second⟩ | ⟨token, more, further, others, first, second, same, left⟩
  · rw [Cursor.pass, Cursor.pass, first, second]
    exact alike.addLeaf alike.current
  · rw [Cursor.pass, Cursor.pass, first, second]
    refine Alike.addLeaf ?_ same
    exact { alike.look 2 with
      rest := left
      passed := by rw [alike.passed] }

theorem accept : cursor.accept.Alike other.accept := alike.settle.pass

theorem passMany (count : Nat) :
    (Cursor.passMany count cursor).Alike (Cursor.passMany count other) := by
  induction count generalizing cursor other with
  | zero => exact alike
  | succ count inductionHypothesis => exact inductionHypothesis alike.pass

theorem skipUntil (kinds : List Kind) : (cursor.skipUntil kinds).Alike (other.skipUntil kinds) := by
  have fromAhead (cursor : Cursor) :
      (cursor.rest.takeWhile fun token => !kinds.contains token.kind).length =
        (cursor.ahead.takeWhile fun kind => !kinds.contains kind).length := by
    rw [Cursor.ahead, List.takeWhile_map, List.length_map]
    rfl
  rw [Cursor.skipUntil, Cursor.skipUntil, fromAhead, fromAhead, alike.ahead]
  exact alike.passMany _

/-- Outside of recovery a report is made, whatever it says. -/
theorem complain (mark otherMark : Mark) (complaint otherComplaint : Complaint) :
    (if cursor.recovering then cursor
      else { cursor.report mark complaint with recovering := true }).Alike
      (if other.recovering then other
        else { other.report otherMark otherComplaint with recovering := true }) := by
  rw [alike.recovering]
  split
  · exact alike
  · exact { alike.report mark otherMark complaint otherComplaint with recovering := rfl }

theorem unwanted : cursor.unwanted.Alike other.unwanted :=
  alike.complain _ _ _ _

theorem enlist (event further : Tree.Event) : (cursor.enlist event).Alike (other.enlist further) :=
  { alike with }

theorem withChildren {children others : List Tree}
    (same : Tree.bareAll children = Tree.bareAll others) :
    ({ cursor with children } : Cursor).Alike { other with children := others } :=
  { alike with children := same }

theorem wrap (rule : Rule) : (cursor.wrap rule).Alike (other.wrap rule) :=
  (alike.enlist _ _).withChildren (by simp only [Tree.bareAll, Tree.bare, alike.children])

theorem lookOn (looksOn : Bool) :
    (if looksOn then cursor.look (cursor.rest.length + 1) else cursor).Alike
      (if looksOn then other.look (other.rest.length + 1) else other) := by
  rw [alike.length]
  split
  · exact alike.look _
  · exact alike

/-- A second recovery at the same token and place passes the token. -/
theorem passAgain (place : Place) :
    (if cursor.stumbledAt = some cursor.passed ∧ place ∈ cursor.stumbles then cursor.pass
      else cursor).Alike
      (if other.stumbledAt = some other.passed ∧ place ∈ other.stumbles then other.pass
        else other) := by
  rw [alike.stumbledAt, alike.passed, alike.stumbles]
  split
  · exact alike.pass
  · exact alike

theorem stumble (place : Place) :
    ({ cursor with
        stumbledAt := some cursor.passed
        stumbles := place :: cursor.stumbles } : Cursor).Alike
      { other with
        stumbledAt := some other.passed
        stumbles := place :: other.stumbles } :=
  { alike with
    stumbledAt := by rw [alike.passed]
    stumbles := by rw [alike.stumbles] }

theorem recover (sites : List Site) {stumble further : Stumble}
    (place : stumble.place = further.place) (looksOn : stumble.looksOn = further.looksOn) :
    (cursor.recover sites stumble).Alike (other.recover sites further) := by
  have reported : (if cursor.recovering then cursor
      else
        { Cursor.report stumble.mark stumble.complaint
            (if stumble.looksOn then cursor.look (cursor.rest.length + 1) else cursor) with
          recovering := true }).Alike
      (if other.recovering then other
        else
          { Cursor.report further.mark further.complaint
              (if further.looksOn then other.look (other.rest.length + 1) else other) with
            recovering := true }) := by
    rw [alike.recovering, looksOn]
    split
    · exact alike
    · exact { (alike.lookOn further.looksOn).report stumble.mark further.mark stumble.complaint
        further.complaint with recovering := rfl }
  rw [Cursor.recover, Cursor.recover, place]
  exact ((reported.passAgain further.place).stumble further.place).skipUntil _

end Alike

end Cursor

/-! ### Reading alike -/

namespace Recogniser

variable {Result Other : Type}

/-- Two runs end in the same way: with the same result, or broken off at the same place. -/
inductive EndAlike : Except Stumble Result × Cursor → Except Stumble Result × Cursor → Prop
  | ok (result : Result) {cursor other : Cursor} (alike : cursor.Alike other) :
      EndAlike (.ok result, cursor) (.ok result, other)
  | error {stumble further : Stumble} (place : stumble.place = further.place)
      (looksOn : stumble.looksOn = further.looksOn) {cursor other : Cursor}
      (alike : cursor.Alike other) : EndAlike (.error stumble, cursor) (.error further, other)

/-- An action does not see positions and the texts of blanks. -/
def Blind (action : Recogniser Result) : Prop :=
  ∀ cursor other : Cursor, cursor.Alike other → EndAlike (action.start cursor) (action.start other)

/-- An action that cannot break off does not see positions and the texts of blanks. -/
def BlindRule (action : StateM Cursor Unit) : Prop :=
  ∀ cursor other : Cursor, cursor.Alike other → (action.run cursor).2.Alike (action.run other).2

namespace Blind

theorem pure (result : Result) : Blind (Pure.pure result) := fun _ _ alike => .ok result alike

theorem modify {change : Cursor → Cursor}
    (changes : ∀ {cursor other : Cursor}, cursor.Alike other →
      (change cursor).Alike (change other)) :
    Blind (modify change) := fun _ _ alike => .ok _ (changes alike)

theorem rule {action : StateM Cursor Unit} (blind : BlindRule action) :
    Blind (liftM action) := fun cursor other alike => .ok _ (blind cursor other alike)

/-- Two runs that end alike go on alike. -/
theorem bindFrom {cursor other : Cursor} {action : Recogniser Result}
    {next further : Result → Recogniser Other}
    (ends : EndAlike (action.start cursor) (action.start other))
    (goesOn : ∀ result (cursor other : Cursor), cursor.Alike other →
      EndAlike ((next result).start cursor) ((further result).start other)) :
    EndAlike ((action >>= next).start cursor) ((action >>= further).start other) := by
  rw [start_bind, start_bind]
  rcases first : action.start cursor with ⟨stumble | result, after⟩ <;>
    rcases second : action.start other with ⟨otherStumble | otherResult, otherAfter⟩ <;>
    rw [first, second] at ends
  · cases ends with
    | error place looksOn alike => exact .error place looksOn alike
  · cases ends
  · cases ends
  · cases ends with
    | ok result alike => exact goesOn result _ _ alike

theorem bind {action : Recogniser Result} {next : Result → Recogniser Other}
    (blind : Blind action) (blindNext : ∀ result, Blind (next result)) :
    Blind (action >>= next) :=
  fun cursor other alike => bindFrom (blind cursor other alike) blindNext

/-- A look at the cursor. -/
theorem get {next : Cursor → Recogniser Result}
    (ends : ∀ cursor other : Cursor, cursor.Alike other →
      EndAlike ((next cursor).start cursor) ((next other).start other)) :
    Blind (MonadState.get >>= next) := ends

end Blind

/-! ### The single steps of reading -/

theorem mismatch_blind (place : Place) : Blind (mismatch place : Recogniser Result) := by
  refine .get fun cursor other alike => ?_
  rw [start_throw, start_throw]
  exact .error (by rfl) (by rfl) alike

theorem follow_blind {Choice : Type} (place : Place) (forecast : List Kind → Forecast Choice) :
    Blind (follow place forecast) := by
  refine .get fun cursor other alike => ?_
  have looked := alike.look (forecast other.ahead).looked
  simp only [start_bind, start_set, alike.ahead]
  cases (forecast other.ahead).choice with
  | some choice => exact .ok choice looked
  | none =>
    rw [start_throw, start_throw]
    exact .error (by rfl) (by rfl) looked

theorem leaveOut_blind (place : Place) (sites : List Site) : Blind (leaveOut place sites) := by
  refine (Blind.modify fun alike => alike.look 2).bind fun _ => .get fun cursor other alike => ?_
  rw [alike.second]
  split
  · exact (Blind.modify fun alike => alike.unwanted.pass.settle).bind (fun _ => .pure true)
      cursor other alike
  · exact .ok false alike

theorem check_blind (place : Place) (sites : List Site) : Blind (check place sites) := by
  refine .get fun cursor other alike => ?_
  rw [alike.recovering, alike.kind]
  split
  · exact .ok () alike
  · refine (leaveOut_blind place sites).bind (fun left => ?_) cursor other alike
    cases left with
    | true => exact .pure ()
    | false => exact mismatch_blind place

theorem checkAgain_blind (place : Place) (sites : List Site) : Blind (checkAgain place sites) := by
  refine .get fun cursor other alike => ?_
  rw [alike.recovering, alike.kind]
  split
  · exact .ok () alike
  · exact .ok _ (alike.unwanted.skipUntil _)

theorem require_blind (place : Place) (sites : List Site) : Blind (require place sites) := by
  refine .get fun cursor other alike => ?_
  simp only [alike.kind]
  split
  · exact .ok false alike.accept
  · refine Blind.bindFrom (leaveOut_blind place sites cursor other alike) ?_
    intro left after otherAfter alikeAfter
    cases left with
    | true => exact .ok false alikeAfter.pass
    | false =>
      simp only [Bool.false_eq_true, if_false]
      split
      · exact .ok true (alikeAfter.complain _ _ _ _)
      · exact mismatch_blind place after otherAfter alikeAfter

theorem requireOne_blind (kind : Kind) (place : Place) (sites : List Site) :
    Blind (requireOne kind place sites) := by
  refine (require_blind place sites).bind fun madeUp => ?_
  cases madeUp with
  | true =>
    refine .modify fun alike => alike.withChildren ?_
    rw [Tree.bareAll_append, Tree.bareAll_append, alike.children]
  | false => exact .pure ()

/-! ### The frame of a rule -/

/-- A rule is blind if its body is, because entering, leaving and recovering are. -/
theorem within_blind (rule : Rule) (sites : List Site) {body : Recogniser Unit}
    (blind : Blind body) : BlindRule (within rule sites body) := by
  intro cursor other alike
  have entered : ({ cursor.enlist (.enter rule) with children := [] } : Cursor).Alike
      { other.enlist (.enter rule) with children := [] } :=
    (alike.enlist _ _).withChildren rfl
  have built {inner further : Cursor} (inside : inner.Alike further) :
      ({ inner.announceExit rule with
          children := cursor.children ++ [.node rule inner.children] } : Cursor).Alike
        { further.announceExit rule with
          children := other.children ++ [.node rule further.children] } := by
    refine Cursor.Alike.withChildren (inside.enlist _ _) ?_
    rw [Tree.bareAll_append, Tree.bareAll_append, alike.children]
    simp only [Tree.bareAll, Tree.bare, inside.children]
  have ends := blind _ _ entered
  rw [run_within, run_within]
  rcases first : body.start { cursor.enlist (.enter rule) with children := [] } with
      ⟨stumble | result, inner⟩ <;>
    rcases second : body.start { other.enlist (.enter rule) with children := [] } with
      ⟨otherStumble | otherResult, otherInner⟩ <;>
    rw [first, second] at ends
  · cases ends with
    | error place looksOn inside => exact built (inside.recover sites place looksOn)
  · cases ends
  · cases ends
  · cases ends with
    | ok _ inside => exact built inside

/-! ### The rules of the grammar -/

theorem accept_blind : Blind (modify Cursor.accept) := .modify fun alike => alike.accept

theorem quoted_blind (sites : List Site) : BlindRule (quoted sites) :=
  within_blind .quoted sites ((require_blind .quotedStart sites).bind fun _ => .pure ())

theorem piece_blind (sites : List Site) : Blind (piece sites) := by
  refine .get fun cursor other alike => ?_
  simp only [alike.kind]
  split
  · exact Blind.rule (quoted_blind _) cursor other alike
  split
  · exact accept_blind cursor other alike
  · exact mismatch_blind .pieceStart cursor other alike

theorem pieces_blind (sites : List Site) (fuel : Nat) : Blind (pieces sites fuel) := by
  induction fuel with
  | zero => exact .pure ()
  | succ fuel inductionHypothesis =>
    refine (piece_blind sites).bind fun _ => (follow_blind _ _).bind fun choice => ?_
    cases choice with
    | again => exact inductionHypothesis
    | done => exact .pure ()

theorem argument_blind (fuel : Nat) (sites : List Site) : BlindRule (argument fuel sites) :=
  within_blind .argument sites ((check_blind _ _).bind fun _ => pieces_blind sites fuel)

theorem optionalBlank_blind : Blind optionalBlank := by
  refine .get fun cursor other alike => ?_
  rw [alike.kind]
  split
  · exact accept_blind cursor other alike
  · exact .ok () alike

theorem redirection_blind (fuel : Nat) (sites : List Site) :
    BlindRule (redirection fuel sites) := by
  refine within_blind .redirection sites ((check_blind _ _).bind fun _ =>
    .get fun cursor other alike => ?_)
  simp only [alike.kind]
  split
  · exact accept_blind.bind (fun _ => (check_blind _ _).bind fun _ => optionalBlank_blind.bind
      fun _ => .rule (argument_blind fuel _)) cursor other alike
  · exact mismatch_blind .redirectionStart cursor other alike

theorem atom_blind (fuel : Nat) (sites : List Site) : BlindRule (atom fuel sites) := by
  refine within_blind .atom sites ((check_blind _ _).bind fun _ =>
    .get fun cursor other alike => ?_)
  simp only [alike.kind]
  split
  · exact Blind.rule (redirection_blind fuel _) cursor other alike
  split
  · exact Blind.rule (argument_blind fuel _) cursor other alike
  · exact mismatch_blind .atomStart cursor other alike

theorem leading_blind (sites : List Site) (fuel : Nat) : Blind (leading sites fuel) := by
  induction fuel with
  | zero => exact .pure ()
  | succ fuel inductionHypothesis =>
    refine .get fun cursor other alike => ?_
    rw [alike.kind]
    split
    · exact (Blind.rule (redirection_blind fuel _)).bind (fun _ => (requireOne_blind _ _ _).bind
        fun _ => (checkAgain_blind _ _).bind fun _ => inductionHypothesis) cursor other alike
    · exact .ok () alike

theorem atoms_blind (sites : List Site) (fuel : Nat) : Blind (atoms sites fuel) := by
  induction fuel with
  | zero => exact .pure ()
  | succ fuel inductionHypothesis =>
    refine (follow_blind _ _).bind fun choice => ?_
    cases choice with
    | again =>
      exact optionalBlank_blind.bind fun _ => (Blind.rule (atom_blind fuel _)).bind
        fun _ => inductionHypothesis
    | done => exact .pure ()

theorem call_blind (fuel : Nat) (sites : List Site) : BlindRule (call fuel sites) :=
  within_blind .call sites ((check_blind _ _).bind fun _ => optionalBlank_blind.bind fun _ =>
    (check_blind _ _).bind fun _ => (leading_blind sites fuel).bind fun _ =>
      (Blind.rule (argument_blind fuel _)).bind fun _ => (atoms_blind sites fuel).bind
        fun _ => optionalBlank_blind)

/-- Commands and pipes do not see the texts of blanks, by induction on the fuel. -/
theorem rounds_blind (fuel : Nat) (precedence : Int) (sites : List Site) :
    BlindRule (command fuel precedence sites) ∧ Blind (operands fuel precedence sites) ∧
      BlindRule (pipe fuel precedence sites) ∧ Blind (stages fuel precedence sites) := by
  induction fuel generalizing precedence sites with
  | zero => exact ⟨fun _ _ alike => alike, .pure (), fun _ _ alike => alike, .pure ()⟩
  | succ fuel inductionHypothesis =>
    have commands (precedence : Int) (sites : List Site) :=
      Blind.rule (inductionHypothesis precedence sites).1
    have pipes (precedence : Int) (sites : List Site) :=
      Blind.rule (inductionHypothesis precedence sites).2.2.1
    obtain ⟨_, moreOperands, _, moreStages⟩ := inductionHypothesis precedence sites
    refine ⟨within_blind .command sites ?command, ?operands, within_blind .pipe sites ?pipe,
      ?stages⟩
    case command =>
      refine (follow_blind _ _).bind fun choice => ?_
      cases choice with
      | pipe => exact (pipes _ _).bind fun _ => moreOperands
      | call => exact (Blind.rule (call_blind fuel _)).bind fun _ => moreOperands
      | empty => exact moreOperands
    case operands =>
      refine (follow_blind _ _).bind fun choice => ?_
      cases choice with
      | again =>
        exact (Blind.modify fun alike => (alike.enlist _ _).wrap .command).bind fun _ =>
          accept_blind.bind fun _ => (commands _ _).bind fun _ => moreOperands
      | done => exact .pure ()
    case pipe =>
      exact (Blind.rule (call_blind fuel _)).bind fun _ => (requireOne_blind _ _ _).bind fun _ =>
        (Blind.rule (call_blind fuel _)).bind fun _ => moreStages
    case stages =>
      refine (follow_blind _ _).bind fun choice => ?_
      cases choice with
      | done => exact .pure ()
      | again =>
        refine (Blind.modify fun alike => alike.enlist _ _).bind fun _ =>
          (follow_blind _ _).bind fun stage => (Blind.modify fun alike =>
            (alike.wrap .pipe).accept).bind fun _ => ?_
        cases stage with
        | call => exact (Blind.rule (call_blind fuel _)).bind fun _ => moreStages
        | command => exact (commands _ _).bind fun _ => moreStages

end Recogniser

/-! ### Evaluating what is left -/

theorem bare_text {token : Token} (notBlank : token.kind ≠ .blank) :
    token.bare.text = token.text := if_neg notBlank

theorem piece_notBlank {token : Token} (isPiece : token.kind.isPiece = true) :
    token.kind ≠ .blank := by
  rintro isBlank
  rw [isBlank] at isPiece
  exact absurd isPiece (by decide)

theorem pieceTree_bare (token : Token) : (pieceTree token).bare = pieceTree token.bare := by
  rw [pieceTree, pieceTree]
  show (if token.kind.isQuoted then _ else _ : Tree).bare = if token.kind.isQuoted then _ else _
  split <;> rfl

theorem bareAll_pieces (pieces : List Token) :
    Tree.bareAll (pieces.map pieceTree) = (pieces.map Token.bare).map pieceTree := by
  rw [Tree.bareAll_eq_map, List.map_map, List.map_map]
  exact List.map_congr_left fun token _ => pieceTree_bare token

theorem argument_bare_text (argument : Argument) :
    argument.tree.bare.text = argument.tree.text := by
  have pieces (tokens : List Token) (arePieces : ∀ piece ∈ tokens, piece.kind.isPiece = true) :
      Tree.textAll (tokens.map fun token => pieceTree token.bare) =
        Tree.textAll (tokens.map pieceTree) := by
    induction tokens with
    | nil => rfl
    | cons token rest inductionHypothesis =>
      rw [List.map_cons, List.map_cons, Tree.textAll, Tree.textAll, pieceTree_text, pieceTree_text,
        bare_text (piece_notBlank (arePieces token List.mem_cons_self)),
        inductionHypothesis fun piece member => arePieces piece (List.mem_cons_of_mem _ member)]
  rw [Argument.tree, Tree.bare, Tree.text, Tree.text, bareAll_pieces, List.map_map]
  exact pieces argument.pieces argument.arePieces

namespace Evaluator

variable (substitute : Substitute)

theorem addPiece_bareToken {token : Token} (isPiece : token.kind.isPiece = true) (draft : Draft) :
    addPiece substitute draft (pieceTree token.bare) =
      addPiece substitute draft (pieceTree token) := by
  have text := bare_text (piece_notBlank isPiece)
  have kind : token.bare.kind = token.kind := rfl
  have sameNode : (pieceTree token.bare).isNode .quoted = (pieceTree token).isNode .quoted := by
    rw [pieceTree, pieceTree, kind]
    split <;> rfl
  have sameToken (other : Kind) : (pieceTree token.bare).children.any (Tree.isToken other) =
      (pieceTree token).children.any (Tree.isToken other) := by
    rw [pieceTree, pieceTree, kind]
    split <;> rfl
  rw [addPiece, addPiece, quotedWords, quotedWords, sameNode, sameToken, sameToken, pieceTree_text,
    pieceTree_text, text]

theorem argumentWords_bare (argument : Argument) :
    argumentWords substitute (Tree.bareAll (argument.pieces.map pieceTree)) =
      argumentWords substitute (argument.pieces.map pieceTree) := by
  have folded (tokens : List Token) (arePieces : ∀ piece ∈ tokens, piece.kind.isPiece = true)
      (draft : Draft) : ((tokens.map Token.bare).map pieceTree).foldlM (addPiece substitute) draft =
        (tokens.map pieceTree).foldlM (addPiece substitute) draft := by
    induction tokens generalizing draft with
    | nil => rfl
    | cons token rest inductionHypothesis =>
      rw [List.map_cons, List.map_cons, List.map_cons, List.foldlM_cons, List.foldlM_cons,
        addPiece_bareToken substitute (arePieces token List.mem_cons_self)]
      exact congrArg _ (funext fun next =>
        inductionHypothesis (fun piece member => arePieces piece (List.mem_cons_of_mem _ member))
          next)
  rw [argumentWords, argumentWords, bareAll_pieces, folded argument.pieces argument.arePieces]

theorem addRedirection_bare (redirection : Redirection) :
    addRedirection (Tree.bareAll redirection.parts) = addRedirection redirection.parts := by
  have operator : redirection.operator.bare.text = redirection.operator.text := by
    refine bare_text fun isBlank => ?_
    have isOperator := redirection.isOperator
    rw [isBlank] at isOperator
    exact absurd isOperator (by decide)
  have name := argument_bare_text redirection.target
  cases blank : redirection.blank <;>
    simp [addRedirection, Redirection.parts, blank, Tree.bareAll, Tree.bare, Tree.text, operator,
      name]

theorem visitAll_bare {trees : List Tree}
    (each : ∀ tree ∈ trees, visit substitute tree.bare = visit substitute tree) :
    visitAll substitute (Tree.bareAll trees) = visitAll substitute trees := by
  induction trees with
  | nil => rfl
  | cons tree rest inductionHypothesis =>
    rw [Tree.bareAll, visitAll_cons, visitAll_cons, each tree List.mem_cons_self,
      inductionHypothesis fun other member => each other (List.mem_cons_of_mem _ member)]

theorem redirection_bare (redirection : Redirection) :
    visit substitute redirection.tree.bare = visit substitute redirection.tree := by
  rw [visit_redirection, ← addRedirection_bare]
  rfl

theorem argument_bare (argument : Argument) :
    visit substitute argument.tree.bare = visit substitute argument.tree := by
  rw [visit_argument, ← argumentWords_bare]
  rfl

/-- A call does not look at the texts of its blanks. -/
theorem call_bare (call : Call) :
    visitAll substitute (Tree.bareAll call.parts) = visitAll substitute call.parts := by
  refine visitAll_bare substitute (Call.forall_parts (fun _ => rfl) (redirection_bare substitute)
    (argument_bare substitute) (fun atom => ?_) call)
  rw [visit_atom]
  show visitAll substitute [atom.inner.bare] = _
  rw [visitAll_single]
  cases atom with
  | redirection redirection => exact redirection_bare substitute redirection
  | argument argument => exact argument_bare substitute argument

theorem visit_call_bare (call : Call) :
    visit substitute call.tree.bare = visit substitute call.tree := by
  rw [visit_call, ← call_bare]
  rfl

end Evaluator

section

open Evaluator

variable (substitute : Substitute)

mutual

/-- The evaluation of a mended pipe does not depend on the texts of blanks. -/
theorem MendedPipe.visit_bare {parts : List Tree} {pipe : Pipe} (others : List Tree) :
    (mended : MendedPipe parts pipe) →
      Evaluator.visit substitute (.node .pipe (Tree.bareAll (parts ++ others))) =
        Evaluator.visit substitute (.node .pipe (parts ++ others))
  -- The text of a blank is not looked at: only the arguments and redirections of a call are.
  | @MendedPipe.calls left right _ bar _ => by
    show (do
      Evaluator.visit substitute left.tree.bare
      let piped ← popOutput .emptyStack
      beginCall
      Evaluator.visitAll substitute (Tree.bareAll right.parts)
      endCall piped) = (do
      Evaluator.visit substitute left.tree
      pipeInto substitute right)
    rw [visit_call_bare, call_bare]
    rfl
  | @MendedPipe.call inner left right mended bar _ => by
    have before := mended.visit_bare []
    rw [List.append_nil] at before
    show (do
      Evaluator.visit substitute (.node .pipe (Tree.bareAll inner))
      let piped ← popOutput .emptyStack
      beginCall
      Evaluator.visitAll substitute (Tree.bareAll right.parts)
      endCall piped) = (do
      Evaluator.visit substitute (.node .pipe inner)
      pipeInto substitute right)
    rw [before, call_bare]
    rfl
  | @MendedPipe.command inner stages left right mended bar stage => by
    have before := mended.visit_bare []
    rw [List.append_nil] at before
    show (do
      Evaluator.visit substitute (.node .pipe (Tree.bareAll inner))
      let piped ← popOutput .emptyStack
      beginCall
      Evaluator.visitAll substitute (Tree.bareAll stages)
      endCall piped) = (do
      Evaluator.visit substitute (.node .pipe inner)
      let piped ← popOutput .emptyStack
      beginCall
      Evaluator.visitAll substitute stages
      endCall piped)
    rw [before, stage.visitAll_bare]

theorem MendedCommand.visitAll_bare {parts : List Tree} {command : Derivation.Command} :
    (mended : MendedCommand parts command) →
      Evaluator.visitAll substitute (Tree.bareAll parts) = Evaluator.visitAll substitute parts
  | .nothing dropped => by
    refine Evaluator.visitAll_bare substitute fun tree member => ?_
    obtain ⟨token, _, rfl⟩ := List.mem_map.mp member
    rfl
  | @MendedCommand.call call _ => by
    rw [Tree.bareAll, Tree.bareAll, visitAll_single, visitAll_single, visit_call_bare]
  | .pipe mended dropped => by
    rw [Tree.bareAll, Tree.bareAll, visitAll_single, visitAll_single, Tree.bare,
      mended.visit_bare]
  | @MendedCommand.sequence parts others left right first semicolon second => by
    show Evaluator.visitAll substitute [.node .command (Tree.bareAll parts),
      .leaf semicolon.val.bare, .node .command (Tree.bareAll others)] = _
    rw [visitAll_cons, visitAll_cons, visitAll_single, visitAll_cons, visitAll_cons,
      visitAll_single, visit_command, visit_command, visit_command, visit_command,
      first.visitAll_bare, second.visitAll_bare]
    rfl

end

/-! ### Lines -/

theorem visit_tree_bare (line : Text) :
    Evaluator.visit substitute (readLine line .command 0).tree.bare =
      Evaluator.visit substitute (readLine line .command 0).tree := by
  obtain ⟨parts, command, tree, mended, _⟩ := readLine_mended line
  rw [tree, Tree.bare, visit_command, visit_command, mended.visitAll_bare]

end

/-- The token that a stretch of a line is, without its position and the text of blanks. -/
def bareToken? (stretch : Stretch) : Option Token :=
  stretch.1.map fun kind => Token.bare ⟨kind, stretch.2, Mark.start⟩

theorem ofLine_bare (line : Text) :
    (Token.ofLine line).map Token.bare =
      ((Lexeme.ofLine line).map Lexeme.stretch).filterMap bareToken? := by
  rw [Token.ofLine, List.map_filterMap, List.filterMap_map]
  refine congrArg (List.filterMap · (Lexeme.ofLine line)) (funext fun lexeme => ?_)
  cases kind : lexeme.kind <;>
    simp [Lexeme.token?, bareToken?, Lexeme.stretch, kind, Token.bare]

/-- Lines with tokens of the same kinds are read alike. -/
theorem lastCursor_alike {line other : Text}
    (same : (Token.ofLine line).map Token.bare = (Token.ofLine other).map Token.bare) :
    (lastCursor line).Alike (lastCursor other) := by
  have length : (Token.ofLine line).length = (Token.ofLine other).length := by
    simpa using congrArg List.length same
  rw [lastCursor, lastCursor, length]
  exact (Recogniser.rounds_blind _ 0 []).1 _ _ ⟨same, rfl, rfl, rfl, rfl, rfl, rfl, rfl⟩

theorem readLine_tree_bare {line other : Text}
    (alike : (lastCursor line).Alike (lastCursor other)) :
    (readLine line .command 0).tree.bare = (readLine other .command 0).tree.bare := by
  have heads {trees others : List Tree} (same : Tree.bareAll trees = Tree.bareAll others) :
      (trees.headD (.node .command [])).bare = (others.headD (.node .command [])).bare := by
    cases trees <;> cases others <;> simp_all [Tree.bareAll]
  exact heads alike.children

theorem ofLexemes_numbers {lexemes others : List Lexeme}
    (same : lexemes.map Lexeme.kind = others.map Lexeme.kind) (count : Nat) :
    (Report.ofLexemes count lexemes).map Prod.fst =
      (Report.ofLexemes count others).map Prod.fst := by
  induction lexemes generalizing others count with
  | nil =>
    obtain rfl := List.map_eq_nil_iff.mp same.symm
    rfl
  | cons lexeme rest inductionHypothesis =>
    obtain ⟨other, further, rfl, kind, left⟩ := List.map_eq_cons_iff.mp same.symm
    rw [Report.ofLexemes, Report.ofLexemes, kind]
    cases lexeme.kind with
    | none => simp only [List.map_cons, inductionHypothesis left.symm]
    | some _ => exact inductionHypothesis left.symm _

theorem merge_length (firsts others : List (Nat × Report)) :
    (Report.merge firsts others).length = firsts.length + others.length := by
  fun_induction Report.merge firsts others with
  | case1 others => simp
  | case2 firsts _ => simp
  | case3 _ _ _ _ _ _ _ inductionHypothesis => simp [inductionHypothesis]; omega
  | case4 _ _ _ _ _ _ _ inductionHypothesis => simp [inductionHypothesis]; omega

/-- About lines that are cut and read alike there are equally many reports. -/
theorem readLine_reports_length {line other : Text}
    (same : (Lexeme.ofLine line).map Lexeme.kind = (Lexeme.ofLine other).map Lexeme.kind)
    (alike : (lastCursor line).Alike (lastCursor other)) :
    (readLine line .command 0).reports.length = (readLine other .command 0).reports.length := by
  have counted (reports : List (Nat × Report)) (looked : Nat) :
      (reports.filter fun entry => entry.1 ≤ looked).length =
        ((reports.map Prod.fst).filter fun number => number ≤ looked).length := by
    rw [List.filter_map, List.length_map]
    rfl
  have noticed : (lastCursor line).reports.length = (lastCursor other).reports.length := by
    simpa using congrArg List.length alike.numbers
  rw [readLine_reports, readLine_reports, merge_length, merge_length, noticed, counted, counted,
    ofLexemes_numbers same, alike.looked]

/-- A run of blanks can be written with any spaces and tabs. The line is cut in the same places,
there are as many reports about it as before, so that none come up where there were none, and it
does the same from every session. -/
theorem runLine_exchange (line : Text) (front back : List Lexeme) (blank : Lexeme)
    (cut : Lexeme.ofLine line = front ++ blank :: back) (isBlank : blank.kind = some .blank)
    (gap : Gap) :
    (Lexeme.ofLine (front.flatMap Lexeme.text ++ gap.text ++ back.flatMap Lexeme.text)).map
        Lexeme.stretch =
      front.map Lexeme.stretch ++ (some .blank, gap.text) :: back.map Lexeme.stretch ∧
    (readLine (front.flatMap Lexeme.text ++ gap.text ++ back.flatMap Lexeme.text)
        .command 0).reports.length = (readLine line .command 0).reports.length ∧
    runLine (front.flatMap Lexeme.text ++ gap.text ++ back.flatMap Lexeme.text) =
      runLine line := by
  have exchanged := ofLine_exchange cut isBlank gap
  have before : (Lexeme.ofLine line).map Lexeme.stretch =
      front.map Lexeme.stretch ++ (some .blank, blank.text) :: back.map Lexeme.stretch := by
    rw [cut, List.map_append, List.map_cons, ← isBlank]
    rfl
  refine ⟨exchanged, ?_⟩
  generalize front.flatMap Lexeme.text ++ gap.text ++ back.flatMap Lexeme.text = changed at *
  have kinds (line : Text) : (Lexeme.ofLine line).map Lexeme.kind =
      ((Lexeme.ofLine line).map Lexeme.stretch).map Prod.fst := by
    rw [List.map_map]
    rfl
  have sameKinds : (Lexeme.ofLine changed).map Lexeme.kind =
      (Lexeme.ofLine line).map Lexeme.kind := by
    rw [kinds, kinds, exchanged, before, List.map_append, List.map_append]
    rfl
  have alike : (lastCursor changed).Alike (lastCursor line) := by
    refine lastCursor_alike ?_
    rw [ofLine_bare, ofLine_bare, exchanged, before, List.filterMap_append, List.filterMap_append]
    rfl
  refine ⟨readLine_reports_length sameKinds alike, ?_⟩
  have visited : Evaluator.visit (interpret 0) (readLine changed .command 0).tree =
      Evaluator.visit (interpret 0) (readLine line .command 0).tree := by
    rw [← visit_tree_bare, readLine_tree_bare alike, visit_tree_bare]
  show outputOfLine (interpret 0) changed = outputOfLine (interpret 0) line
  unfold outputOfLine evaluateLine
  rw [visited]

/-- A tab for two spaces. The quotes keep the blank between them. -/
theorem runLine_exchange_tab :
    Lexeme.ofLine "echo  'a b'|cat".toList =
      [⟨some .unquoted, "echo".toList, ⟨0, 1, 0⟩⟩] ++ ⟨some .blank, "  ".toList, ⟨4, 1, 4⟩⟩ ::
        [⟨some .singleQuoted, "'a b'".toList, ⟨6, 1, 6⟩⟩, ⟨some .bar, "|".toList, ⟨11, 1, 11⟩⟩,
          ⟨some .unquoted, "cat".toList, ⟨12, 1, 12⟩⟩] ∧
    runLine "echo\t'a b'|cat".toList = runLine "echo  'a b'|cat".toList := by
  have cut : Lexeme.ofLine "echo  'a b'|cat".toList =
      [⟨some .unquoted, "echo".toList, ⟨0, 1, 0⟩⟩] ++ ⟨some .blank, "  ".toList, ⟨4, 1, 4⟩⟩ ::
        [⟨some .singleQuoted, "'a b'".toList, ⟨6, 1, 6⟩⟩, ⟨some .bar, "|".toList, ⟨11, 1, 11⟩⟩,
          ⟨some .unquoted, "cat".toList, ⟨12, 1, 12⟩⟩] := by
    decide
  exact ⟨cut, (runLine_exchange _ _ _ _ cut rfl ⟨['\t'], by simp, by simp⟩).2.2⟩

end MiniShell
