/-
This file shows that reading takes the tokens of a call without a report and
leaves the tree of that call. Such a reading is described by the tokens ahead
and the trees built so far, before and after it, and readings compose by what
lies between them.

A call is read as it was derived only if it is tight, because pieces of text
that stand side by side are read as one argument. In a call before the first
bar of a pipe a word of several pieces must not be followed by a semicolon.
-/

import MiniShell.Proofs.Soundness

namespace MiniShell

open MiniShell.Derivation

variable {rest : List Token} {sites : List Site} {fuel : Nat} {place : Place}

/-- The tokens ahead and the trees built so far. -/
abbrev Stand := List Token × List Tree

namespace Recogniser

/-! ### Readings without a report -/

/-- From one stand to the other an action goes without a report and without breaking off. -/
def Runs (action : Recogniser Unit) (before after : Stand) : Prop :=
  ∀ cursor : Cursor, cursor.recovering = false → cursor.rest = before.1 →
    cursor.children = before.2 → ∃ next : Cursor, action.start cursor = (.ok (), next) ∧
      next.recovering = false ∧ next.reports = cursor.reports ∧
      next.rest = after.1 ∧ next.children = after.2

/-- The kind of the first token, or that of the end of the line. -/
def headKind : List Token → Kind
  | [] => .lineEnd
  | token :: _ => token.kind

theorem current_kind (cursor : Cursor) : cursor.current.kind = headKind cursor.rest := by
  unfold Cursor.current headKind
  cases cursor.rest <;> rfl

namespace Runs

variable {before middle after : Stand}

theorem pure (stand : Stand) : Runs (Pure.pure ()) stand stand :=
  fun cursor calm rest children => ⟨cursor, rfl, calm, rfl, rest, children⟩

theorem bind {action : Recogniser Unit} {next : Unit → Recogniser Unit}
    (runs : action.Runs before middle) (runsNext : (next ()).Runs middle after) :
    (action >>= next).Runs before after := by
  intro cursor calm rest children
  obtain ⟨first, started, firstCalm, firstReports, firstRest, firstChildren⟩ :=
    runs cursor calm rest children
  obtain ⟨last, finished, lastCalm, lastReports, lastRest, lastChildren⟩ :=
    runsNext first firstCalm firstRest firstChildren
  refine ⟨last, ?_, lastCalm, lastReports.trans firstReports, lastRest, lastChildren⟩
  rw [start_bind, started]
  exact finished

/-- An action that first asks for the cursor, of which it needs the kind of the next token. -/
theorem get {next : Cursor → Recogniser Unit}
    (runs : ∀ cursor : Cursor, cursor.current.kind = headKind before.1 →
      (next cursor).Runs before after) :
    (MonadState.get >>= next : Recogniser Unit).Runs before after := by
  intro cursor calm rest children
  rw [start_bind]
  exact runs cursor (by rw [current_kind, rest]) cursor calm rest children

/-- A change of the cursor that makes no report. -/
theorem changing {change : Cursor → Cursor}
    (calm : ∀ cursor, cursor.recovering = false → (change cursor).recovering = false)
    (reports : ∀ cursor, (change cursor).reports = cursor.reports)
    (stand : ∀ cursor, cursor.recovering = false → cursor.rest = before.1 →
      cursor.children = before.2 →
      (change cursor).rest = after.1 ∧ (change cursor).children = after.2) :
    (modify change : Recogniser Unit).Runs before after :=
  fun cursor calmBefore rest children => ⟨change cursor, rfl, calm cursor calmBefore,
    reports cursor, stand cursor calmBefore rest children⟩

/-- An action that follows a forecast. -/
theorem follow {Choice : Type} {forecast : List Kind → Forecast Choice}
    {next : Choice → Recogniser Unit} (choice : Choice)
    (chosen : (forecast (kindsOf before.1)).choice = some choice)
    (runs : (next choice).Runs before after) :
    (Recogniser.follow place forecast >>= next).Runs before after := by
  intro cursor calm rest children
  obtain ⟨stumble, _, started⟩ := start_follow place forecast cursor
  have ahead : (forecast cursor.ahead).choice = some choice := by
    rw [← chosen, ← rest]
    rfl
  rw [start_bind, started, ahead]
  exact runs _ calm rest children

/-- A place is checked where a token stands that it asks for. -/
theorem check {stand : Stand} (fits : place.next.kinds.contains (headKind stand.1) = true) :
    (Recogniser.check place sites).Runs stand stand := by
  refine get fun cursor kind => ?_
  rw [if_pos (by rw [kind, fits, Bool.or_true])]
  exact pure stand

theorem checkAgain {stand : Stand} (fits : place.next.kinds.contains (headKind stand.1) = true) :
    (Recogniser.checkAgain place sites).Runs stand stand := by
  refine get fun cursor kind => ?_
  rw [if_pos (by rw [kind, fits, Bool.or_true])]
  exact pure stand

/-- A token that fits is passed. -/
theorem accept (token : Token) (rest : List Token) (trees : List Tree) :
    (modify Cursor.accept : Recogniser Unit).Runs (token :: rest, trees)
      (rest, trees ++ [.leaf token]) := by
  refine changing (fun cursor _ => pass_recovering cursor.settle)
    (fun cursor => Passage.pass_reports cursor.settle) fun cursor _ ahead children => ?_
  have took := Cursor.accept_of_rest ahead
  have behind : [token] ++ rest = [token] ++ cursor.accept.rest := ahead.symm.trans took.rest
  exact ⟨(List.append_cancel_left behind).symm, by rw [took.children, children]⟩

theorem announce (rule : Rule) (stand : Stand) :
    (modify (Cursor.announceExit rule) : Recogniser Unit).Runs stand stand :=
  changing (fun _ calm => calm) (fun _ => rfl) fun _ _ rest children => ⟨rest, children⟩

/-- The command built so far becomes the first child of a new one. -/
theorem wrapCommand (rest : List Token) (trees : List Tree) :
    (modify fun cursor => (cursor.announceExit .command).wrap .command :
      Recogniser Unit).Runs (rest, trees) (rest, [.node .command trees]) :=
  changing (fun _ calm => calm) (fun _ => rfl) fun _ _ rest children =>
    ⟨rest, congrArg (fun built => [Tree.node .command built]) children⟩

/-- The pipe built so far becomes the first child of a new one, and a bar follows. -/
theorem wrapPipe (bar : Token) (rest : List Token) (trees : List Tree) :
    (modify fun cursor => (cursor.wrap .pipe).accept : Recogniser Unit).Runs
      (bar :: rest, trees) (rest, [.node .pipe trees, .leaf bar]) := by
  intro cursor calm ahead children
  have wrapped : (cursor.wrap .pipe).children = [.node .pipe trees] :=
    congrArg (fun built => [Tree.node .pipe built]) children
  obtain ⟨next, accepted, stand⟩ :=
    accept bar rest [.node .pipe trees] (cursor.wrap .pipe) calm ahead wrapped
  exact ⟨next, accepted, stand⟩

/-- A token that a place asks for is passed and not made up. -/
theorem require {next : Bool → Recogniser Unit} {token : Token} {trees : List Tree}
    (fits : place.next.kinds.contains token.kind = true)
    (runs : (next false).Runs (rest, trees ++ [.leaf token]) after) :
    (Recogniser.require place sites >>= next).Runs (token :: rest, trees) after := by
  intro cursor calm ahead children
  obtain ⟨passed, accepted, passedCalm, passedReports, passedStand⟩ :=
    accept token rest trees cursor calm ahead children
  obtain ⟨last, finished, lastCalm, lastReports, lastStand⟩ :=
    runs passed passedCalm passedStand.1 passedStand.2
  refine ⟨last, ?_, lastCalm, lastReports.trans passedReports, lastStand⟩
  have isCurrent : cursor.current = token := by
    rw [Cursor.current, ahead]
  have isPassed : cursor.accept = passed := congrArg Prod.snd accepted
  unfold Recogniser.require
  simp only [start_bind, start_get, isCurrent, fits, if_true, start_set, start_pure, isPassed]
  exact finished

theorem requireOne {kind : Kind} (token : Token) (rest : List Token) (trees : List Tree)
    (fits : place.next.kinds.contains token.kind = true) :
    (Recogniser.requireOne kind place sites).Runs (token :: rest, trees)
      (rest, trees ++ [.leaf token]) :=
  require fits (pure _)

/-- The node of a rule is built from what its body reads. -/
theorem within {rule : Rule} {body : Recogniser Unit} {tokens : List Token} {parts : List Tree}
    (trees : List Tree) (runs : body.Runs (tokens, []) (rest, parts)) :
    (liftM (MiniShell.within rule sites body) : Recogniser Unit).Runs (tokens, trees)
      (rest, trees ++ [.node rule parts]) := by
  intro cursor calm ahead children
  obtain ⟨inner, started, innerCalm, innerReports, innerRest, innerChildren⟩ :=
    runs { cursor.enlist (.enter rule) with children := [] } calm ahead rfl
  refine ⟨{ inner.announceExit rule with
    children := cursor.children ++ [.node rule inner.children] }, ?_, innerCalm, innerReports,
    innerRest, ?_⟩
  · rw [start_lift, run_within, started]
  · rw [innerChildren, children]

end Runs

/-! ### Words -/

/-- Where a word ends. `first` says whether it belongs to the call before the first bar of a
pipe, where no semicolon may follow. -/
def WordEnd (first : Bool) (tokens : List Token) : Prop :=
  (headKind tokens).isPiece = false ∧ (first = true → headKind tokens ≠ .semicolon)

theorem forecastPiece_done (sites : List Site) {tokens : List Token}
    (noPiece : (headKind tokens).isPiece = false) :
    (forecastPiece sites (kindsOf tokens)).choice = some .done := by
  cases tokens with
  | nil => rfl
  | cons token rest =>
    rw [kindsOf_cons, forecastPiece]
    rw [headKind] at noPiece
    simp [noPiece]

/-- The run of pieces ahead is the rest of the word. -/
theorem takeWhile_pieces {pieces : List Token}
    (arePieces : ∀ piece ∈ pieces, piece.kind.isPiece = true)
    (noPiece : (headKind rest).isPiece = false) :
    (kindsOf (pieces ++ rest)).takeWhile Kind.isPiece = kindsOf pieces := by
  induction pieces with
  | nil =>
    cases rest with
    | nil => rfl
    | cons token others =>
      rw [headKind] at noPiece
      simp [noPiece]
  | cons piece others inductionHypothesis =>
    rw [List.cons_append, kindsOf_cons, List.takeWhile_cons_of_pos (arePieces piece (by simp)),
      inductionHypothesis fun other member => arePieces other (List.mem_cons_of_mem _ member),
      kindsOf_cons]

theorem forecastPiece_again (sites : List Site) {piece : Token} {pieces : List Token}
    (arePieces : ∀ other ∈ piece :: pieces, other.kind.isPiece = true)
    (ends : WordEnd (beforeFirstBar sites) rest) :
    (forecastPiece sites (kindsOf (piece :: pieces ++ rest))).choice = some .again := by
  have run := takeWhile_pieces
    (fun other member => arePieces other (List.mem_cons_of_mem _ member)) ends.1
  have isPiece := arePieces piece (by simp)
  rw [List.cons_append, kindsOf_cons, forecastPiece]
  simp only [isPiece, if_true, run]
  rw [kindsOf_append, List.drop_left]
  cases rest with
  | nil => rfl
  | cons token others =>
    have noSemicolon := ends.2
    rw [headKind] at noSemicolon
    rw [kindsOf_cons]
    split
    · rename_i equal
      by_cases first : beforeFirstBar sites = true
      · exact absurd (List.cons.inj equal).1 (noSemicolon first)
      · simp [first]
    · rfl

theorem pieceKinds_contains (kind : Kind) : pieceKinds.contains kind = kind.isPiece := by
  cases kind <;> rfl

theorem redirectionKinds_contains (kind : Kind) :
    redirectionKinds.contains kind = kind.isRedirection := by
  cases kind <;> rfl

theorem atomKinds_contains (kind : Kind) :
    atomKinds.contains kind = (kind.isRedirection || kind.isPiece) := by
  cases kind <;> rfl

theorem headKind_argument (argument : Argument) (rest : List Token) :
    (headKind (argument.tokens ++ rest)).isPiece = true := by
  obtain ⟨pieces, nonempty, arePieces⟩ := argument
  cases pieces with
  | nil => exact absurd rfl nonempty
  | cons piece others => exact arePieces piece (by simp)

theorem headKind_blank (blank : Option Blank) (rest : List Token) :
    headKind (blankTokens blank ++ rest) = .blank ∨
      headKind (blankTokens blank ++ rest) = headKind rest := by
  cases blank with
  | none => exact Or.inr rfl
  | some blank => exact Or.inl blank.property

namespace Runs

theorem piece (sites : List Site) {token : Token} (isPiece : token.kind.isPiece = true)
    (rest : List Token) (trees : List Tree) :
    (Recogniser.piece sites).Runs (token :: rest, trees) (rest, trees ++ [pieceTree token]) := by
  refine get fun cursor kind => ?_
  simp only [headKind] at kind
  rw [kind, pieceTree]
  by_cases isQuoted : token.kind.isQuoted = true
  · rw [if_pos isQuoted, if_pos isQuoted]
    have fits : Place.quotedStart.next.kinds.contains token.kind = true := by
      revert isQuoted
      cases token.kind <;> decide
    exact within trees (require fits (pure (rest, [.leaf token])))
  · have isUnquoted : token.kind = .unquoted := by
      revert isPiece isQuoted
      cases token.kind <;> decide
    rw [if_neg isQuoted, if_neg isQuoted, if_pos isUnquoted]
    exact accept token rest trees

/-- Pieces side by side are read as one word, up to a token that is no piece. -/
theorem pieces (sites : List Site) {tokens : List Token} (trees : List Tree)
    (nonempty : tokens ≠ []) (arePieces : ∀ token ∈ tokens, token.kind.isPiece = true)
    (enough : tokens.length ≤ fuel) (ends : WordEnd (beforeFirstBar sites) rest) :
    (Recogniser.pieces sites fuel).Runs (tokens ++ rest, trees)
      (rest, trees ++ tokens.map pieceTree) := by
  induction tokens generalizing fuel trees with
  | nil => exact absurd rfl nonempty
  | cons token others inductionHypothesis =>
    cases fuel with
    | zero => exact absurd enough (by simp)
    | succ fuel =>
      refine (piece sites (arePieces token (by simp)) (others ++ rest) trees).bind ?_
      cases others with
      | nil => exact follow .done (forecastPiece_done sites ends.1) (pure _)
      | cons second further =>
        have arePiecesNext : ∀ other ∈ second :: further, other.kind.isPiece = true :=
          fun other member => arePieces other (List.mem_cons_of_mem _ member)
        refine follow .again (forecastPiece_again sites arePiecesNext ends) ?_
        have runs := inductionHypothesis (trees ++ [pieceTree token]) (by simp) arePiecesNext
          (Nat.le_of_succ_le_succ enough)
        rw [List.append_assoc] at runs
        exact runs

theorem argument (argument : Argument) (rest : List Token) (trees : List Tree)
    (enough : argument.tokens.length ≤ fuel) (ends : WordEnd (beforeFirstBar sites) rest) :
    (liftM (Recogniser.argument fuel sites) : Recogniser Unit).Runs
      (argument.tokens ++ rest, trees) (rest, trees ++ [argument.tree]) := by
  refine within trees ((check ?_).bind
    (pieces sites [] argument.nonempty argument.arePieces enough ends))
  exact (pieceKinds_contains _).trans (headKind_argument argument rest)

/-! ### Redirections and atoms -/

theorem optionalBlank (blank : Option Blank) (rest : List Token) (trees : List Tree)
    (single : blank = none → headKind rest ≠ .blank) :
    Recogniser.optionalBlank.Runs (blankTokens blank ++ rest, trees)
      (rest, trees ++ blankLeaves blank) := by
  refine get fun cursor kind => ?_
  cases blank with
  | none =>
    rw [if_neg (by rw [kind]; exact single rfl), blankLeaves_none, List.append_nil]
    exact pure (rest, trees)
  | some blank =>
    rw [if_pos (by rw [kind]; exact blank.property)]
    exact accept blank.val rest trees

/-- A redirection is read with the blank that may follow its operator. -/
theorem redirection (redirection : Redirection) (rest : List Token) (trees : List Tree)
    (enough : redirection.target.tokens.length ≤ fuel)
    (ends : WordEnd (beforeFirstBar (.target :: sites)) rest) :
    (liftM (Recogniser.redirection fuel sites) : Recogniser Unit).Runs
      (redirection.tokens ++ rest, trees) (rest, trees ++ [redirection.tree]) := by
  have isPiece := headKind_argument redirection.target rest
  have goesOn (operator : Kind) : (Place.redirectionBlank operator).next.kinds.contains
      (headKind (blankTokens redirection.blank ++ (redirection.target.tokens ++ rest))) = true := by
    rcases headKind_blank redirection.blank (redirection.target.tokens ++ rest) with same | same
    · rw [same]
      rfl
    · rw [same, Place.next, List.contains_cons, pieceKinds_contains, isPiece, Bool.or_true]
  have notBlank : headKind (redirection.target.tokens ++ rest) ≠ .blank := by
    intro isBlank
    rw [isBlank] at isPiece
    exact absurd isPiece (by decide)
  have tokens : redirection.tokens ++ rest = redirection.operator ::
      (blankTokens redirection.blank ++ (redirection.target.tokens ++ rest)) := by
    rw [Redirection.tokens, List.cons_append, List.append_assoc]
  rw [tokens]
  refine within trees ((check ?_).bind (get fun cursor kind => ?_))
  · exact (redirectionKinds_contains _).trans redirection.isOperator
  · rw [if_pos (by rw [kind]; exact redirection.isOperator)]
    exact (accept redirection.operator _ []).bind ((check (goesOn _)).bind
      ((optionalBlank redirection.blank _ _ fun _ => notBlank).bind
        (argument redirection.target rest _ enough ends)))

theorem atom (atom : Atom) (rest : List Token) (trees : List Tree)
    (enough : atom.tokens.length ≤ fuel)
    (ends : WordEnd (beforeFirstBar (.target :: .redirectionOfAtom :: sites)) rest) :
    (liftM (Recogniser.atom fuel sites) : Recogniser Unit).Runs (atom.tokens ++ rest, trees)
      (rest, trees ++ [atom.tree]) := by
  cases atom with
  | redirection part =>
    have isOperator : (headKind (part.tokens ++ rest)).isRedirection = true := part.isOperator
    have long : part.target.tokens.length ≤ part.tokens.length := by
      rw [Redirection.tokens, List.length_cons, List.length_append]
      omega
    refine within trees ((check ?_).bind (get fun cursor kind => ?_))
    · exact (atomKinds_contains _).trans (by rw [Atom.tokens, isOperator, Bool.true_or])
    · rw [if_pos (by rw [kind]; exact isOperator)]
      exact redirection part rest [] (Nat.le_trans long enough) ends
  | argument part =>
    have isPiece := headKind_argument part rest
    have noOperator : (headKind (part.tokens ++ rest)).isRedirection = false := by
      revert isPiece
      cases headKind (part.tokens ++ rest) <;> decide
    refine within trees ((check ?_).bind (get fun cursor kind => ?_))
    · exact (atomKinds_contains _).trans (by rw [Atom.tokens, isPiece, Bool.or_true])
    · rw [if_neg (by rw [kind, Atom.tokens, noOperator]; decide),
        if_pos (by rw [kind]; exact isPiece)]
      exact argument part rest [] enough
        ⟨ends.1, fun first => absurd first (by simp [beforeFirstBar])⟩

/-! ### Calls -/

theorem blank_wordEnd (first : Bool) (blank : Blank) (rest : List Token) :
    WordEnd first (blank.val :: rest) := by
  rw [WordEnd, headKind, blank.property]
  exact ⟨rfl, fun _ => by decide⟩

theorem leading_opens (redirections : List (Redirection × Blank))
    (word : (headKind rest).isPiece = true) :
    atomKinds.contains (headKind (leadingTokens redirections ++ rest)) = true := by
  rw [atomKinds_contains]
  cases redirections with
  | nil => rw [leadingTokens_nil, List.nil_append, word, Bool.or_true]
  | cons entry others =>
    have isOperator : (headKind (leadingTokens (entry :: others) ++ rest)).isRedirection = true :=
      entry.1.isOperator
    rw [isOperator, Bool.true_or]

/-- The redirections before the first word are read one by one, each with the blank behind it. -/
theorem leading (redirections : List (Redirection × Blank)) (trees : List Tree)
    (enough : (leadingTokens redirections).length ≤ fuel) (word : (headKind rest).isPiece = true) :
    (Recogniser.leading sites fuel).Runs (leadingTokens redirections ++ rest, trees)
      (rest, trees ++ leadingTrees redirections) := by
  induction redirections generalizing fuel trees with
  | nil =>
    rw [leadingTrees_nil, List.append_nil]
    cases fuel with
    | zero => exact pure (rest, trees)
    | succ fuel =>
      refine get fun cursor kind => ?_
      rw [if_neg]
      · exact pure (rest, trees)
      · rw [kind]
        revert word
        show (headKind rest).isPiece = true → ¬ (headKind rest).isRedirection = true
        cases headKind rest <;> decide
  | cons entry others inductionHypothesis =>
    obtain ⟨part, blank⟩ := entry
    rw [leadingTokens_cons] at enough
    simp only [List.length_append, Redirection.tokens, List.length_cons] at enough
    cases fuel with
    | zero => exact absurd enough (by simp)
    | succ fuel =>
      refine get fun cursor kind => ?_
      have grown : trees ++ leadingTrees ((part, blank) :: others) =
          trees ++ [part.tree] ++ [.leaf blank.val] ++ leadingTrees others := by
        rw [leadingTrees_cons]
        simp
      -- Every round spends one unit of fuel and takes at least an operator and a blank.
      have runs := @inductionHypothesis fuel (trees ++ [part.tree] ++ [.leaf blank.val]) (by omega)
      rw [if_pos (by rw [kind]; exact part.isOperator), leadingTokens_cons, grown,
        List.append_assoc, List.append_assoc]
      exact (redirection part (blank.val :: (leadingTokens others ++ rest)) trees (by omega)
        (blank_wordEnd _ blank _)).bind ((requireOne blank.val _ _ (by
          rw [blank.property]; rfl)).bind ((checkAgain (leading_opens others word)).bind runs))

theorem atom_opens (atom : Atom) (rest : List Token) :
    atomKinds.contains (headKind (atom.tokens ++ rest)) = true := by
  rw [atomKinds_contains]
  cases atom with
  | redirection part =>
    have isOperator : (headKind (part.tokens ++ rest)).isRedirection = true := part.isOperator
    rw [Atom.tokens, isOperator, Bool.true_or]
  | argument part => rw [Atom.tokens, headKind_argument, Bool.or_true]

theorem notBlank_of_opens {kind : Kind} (opens : atomKinds.contains kind = true) :
    kind ≠ .blank := by
  rintro rfl
  exact absurd opens (by decide)

/-- The two places at which a word of the call before the first bar of a pipe can end. -/
theorem beforeFirstBar_target (sites : List Site) :
    beforeFirstBar (.firstWord :: sites) =
      beforeFirstBar (.target :: .redirectionOfAtom :: .atomOfCall :: sites) := by
  cases sites with
  | nil => rfl
  | cons site others => cases site <;> rfl

/-- Another atom lies ahead. -/
theorem forecastAtom_again (blank : Option Blank) (atom : Atom) (rest : List Token) :
    (forecastAtom (kindsOf (blankTokens blank ++ atom.tokens ++ rest))).choice = some .again := by
  have opens := atom_opens atom rest
  have nonempty := atom.tokens_nonempty
  rw [List.append_assoc]
  cases tokens : atom.tokens with
  | nil => exact absurd tokens nonempty
  | cons token others =>
    rw [tokens, List.cons_append, headKind] at opens
    cases blank with
    | none =>
      rw [blankTokens_none, List.nil_append, List.cons_append, kindsOf_cons]
      revert opens
      cases token.kind <;> simp [forecastAtom, atomKinds, redirectionKinds, pieceKinds, quotedKinds]
    | some blank =>
      rw [blankTokens_some, List.cons_append, List.cons_append, List.nil_append, kindsOf_cons,
        kindsOf_cons, blank.property]
      simp only [forecastAtom, opens, if_true]

/-- Where an atom of a tight call ends. -/
theorem atoms_wordEnd {first : Bool} {parts : List (Option Blank × Atom)} (tight : TightAtoms parts)
    (ends : WordEnd first rest) : WordEnd first (atomTokens parts ++ rest) := by
  cases parts with
  | nil => exact ends
  | cons entry others =>
    obtain ⟨blank, atom⟩ := entry
    cases blank with
    | some blank => exact blank_wordEnd first blank _
    | none =>
      have isRedirection := tight (none, atom) (by simp) rfl
      cases atom with
      | argument part => exact absurd isRedirection (by simp [Atom.isRedirection])
      | redirection part =>
        have isOperator := part.isOperator
        unfold WordEnd
        show part.operator.kind.isPiece = false ∧ (first = true → part.operator.kind ≠ .semicolon)
        revert isOperator
        cases part.operator.kind <;> simp [Kind.isRedirection, Kind.isPiece, Kind.isQuoted]

/-- The atoms of a call are read one by one, up to a token that cannot continue the call. -/
theorem atoms (parts : List (Option Blank × Atom)) (trees : List Tree) (tight : TightAtoms parts)
    (enough : (atomTokens parts).length < fuel)
    (ends : WordEnd (beforeFirstBar (.firstWord :: sites)) rest)
    (done : (forecastAtom (kindsOf rest)).choice = some .done) :
    (Recogniser.atoms sites fuel).Runs (atomTokens parts ++ rest, trees)
      (rest, trees ++ atomTrees parts) := by
  induction parts generalizing fuel trees with
  | nil =>
    rw [atomTrees_nil, List.append_nil]
    cases fuel with
    | zero => exact absurd enough (Nat.not_lt_zero _)
    | succ fuel => exact follow .done done (pure (rest, trees))
  | cons entry others inductionHypothesis =>
    obtain ⟨blank, part⟩ := entry
    rw [atomTokens_cons] at enough
    simp only [List.length_append] at enough
    have progress := List.length_pos_iff.mpr part.tokens_nonempty
    have tightOthers : TightAtoms others :=
      fun entry member => tight entry (List.mem_cons_of_mem _ member)
    have endsTarget : WordEnd
        (beforeFirstBar (.target :: .redirectionOfAtom :: .atomOfCall :: sites)) rest := by
      rw [← beforeFirstBar_target]
      exact ends
    cases fuel with
    | zero => omega
    | succ fuel =>
      have grown : trees ++ atomTrees ((blank, part) :: others) =
          trees ++ blankLeaves blank ++ [part.tree] ++ atomTrees others := by
        rw [atomTrees_cons]
        simp
      have runs := @inductionHypothesis fuel (trees ++ blankLeaves blank ++ [part.tree])
        tightOthers (by omega)
      rw [atomTokens_cons, grown, List.append_assoc]
      refine follow .again (forecastAtom_again blank part _) ?_
      rw [List.append_assoc]
      exact (optionalBlank blank _ trees fun _ => notBlank_of_opens (atom_opens part _)).bind
        ((atom part _ _ (by omega) (atoms_wordEnd tightOthers endsTarget)).bind runs)

theorem ends_headKind {call : Call} (ends : call.Ends rest) :
    (headKind rest).isPiece = false ∧ atomKinds.contains (headKind rest) = false ∧
      (call.trail = none → headKind rest ≠ .blank) := by
  cases rest with
  | nil => exact ⟨rfl, rfl, fun _ => by decide⟩
  | cons token others =>
    have stuck := ends token others rfl
    unfold Call.lastPart at stuck
    rw [headKind]
    cases trail : call.trail with
    | none =>
      rw [trail] at stuck
      have stuckWords : CallPart.words.step token.kind = none := stuck
      revert stuckWords
      cases token.kind <;> decide
    | some blank =>
      rw [trail] at stuck
      have stuckBlank : CallPart.wordsBlank.step token.kind = none := stuck
      refine ⟨?_, ?_, fun absent => absurd absent (by simp)⟩ <;>
        revert stuckBlank <;> cases token.kind <;> decide

/-- No atom follows where a call ends. -/
theorem forecastAtom_ends {call : Call} (ends : call.Ends rest) :
    (forecastAtom (kindsOf (blankTokens call.trail ++ rest))).choice = some .done := by
  obtain ⟨_, noAtom, notBlank⟩ := ends_headKind ends
  cases rest with
  | nil => cases trail : call.trail with
    | none => rfl
    | some blank =>
      rw [blankTokens_some, List.append_nil, kindsOf_cons, blank.property]
      rfl
  | cons token others =>
    rw [headKind] at noAtom notBlank
    cases trail : call.trail with
    | none =>
      have other := notBlank trail
      rw [blankTokens_none, List.nil_append, kindsOf_cons]
      revert noAtom other
      cases token.kind <;>
        simp [forecastAtom, atomKinds, redirectionKinds, pieceKinds, quotedKinds]
    | some blank =>
      rw [blankTokens_some, List.cons_append, List.nil_append, kindsOf_cons, kindsOf_cons,
        blank.property]
      simp only [forecastAtom, noAtom, Bool.false_eq_true, if_false]

/-- A tight call is read as it was derived, up to a token that does not continue it. -/
theorem endedCall {call : Call} (tight : call.Tight) (trees : List Tree)
    (enough : call.tokens.length < fuel) (stops : call.Ends rest)
    (ends : beforeFirstBar (.firstWord :: sites) = true → headKind rest ≠ .semicolon) :
    (liftM (Recogniser.call fuel sites) : Recogniser Unit).Runs (call.tokens ++ rest, trees)
      (rest, trees ++ [call.tree]) := by
  have word := headKind_argument call.first
    (atomTokens call.atoms ++ (blankTokens call.trail ++ rest))
  have opens := leading_opens call.leading word
  obtain ⟨noPiece, _, notBlank⟩ := ends_headKind stops
  have trailEnds : WordEnd (beforeFirstBar (.firstWord :: sites))
      (blankTokens call.trail ++ rest) := by
    cases call.trail with
    | none => exact ⟨noPiece, ends⟩
    | some blank => exact blank_wordEnd _ blank _
  have done := forecastAtom_ends stops
  have tokens : call.tokens ++ rest = blankTokens call.lead ++ (leadingTokens call.leading ++
      (call.first.tokens ++ (atomTokens call.atoms ++ (blankTokens call.trail ++ rest)))) := by
    simp only [Call.tokens, List.append_assoc]
  have lengths : call.tokens.length = (blankTokens call.lead).length +
      (leadingTokens call.leading).length + call.first.tokens.length +
      (atomTokens call.atoms).length + (blankTokens call.trail).length := by
    simp only [Call.tokens, List.length_append]
  rw [tokens]
  refine within trees ((check ?_).bind ((optionalBlank call.lead _ [] ?_).bind ((check opens).bind
    ((leading call.leading _ (by omega) word).bind ((argument call.first _ _ (by omega)
      (atoms_wordEnd tight trailEnds)).bind ((atoms call.atoms _ tight (by omega) trailEnds
        done).bind (optionalBlank call.trail rest _ notBlank)))))))
  · rw [Place.next, List.contains_cons]
    rcases headKind_blank call.lead (leadingTokens call.leading ++ (call.first.tokens ++
      (atomTokens call.atoms ++ (blankTokens call.trail ++ rest)))) with same | same
    · rw [same]
      rfl
    · rw [same, opens, Bool.or_true]
  · exact fun _ => notBlank_of_opens opens

/-- A tight call is read as it was derived up to the end of the line or a separator. -/
theorem call {call : Call} (tight : call.Tight) (trees : List Tree)
    (enough : call.tokens.length < fuel) (boundary : Boundary rest)
    (ends : beforeFirstBar (.firstWord :: sites) = true → headKind rest ≠ .semicolon) :
    (liftM (Recogniser.call fuel sites) : Recogniser Unit).Runs (call.tokens ++ rest, trees)
      (rest, trees ++ [call.tree]) :=
  endedCall tight trees enough (boundary.ends call) ends

end Runs

end Recogniser

end MiniShell
