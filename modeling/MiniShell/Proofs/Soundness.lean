/-
This file shows that reading without a report derives what it reads: the tree
it leaves is the tree of a derivation of exactly the tokens it took. The rules
are treated one by one, from pieces of text up to commands, and the choices
between a call and a command after a bar come out settled.

Fuel bounds the depth of reading. With too little of it a rule would end early
and leave a node that shows no derivation, so each statement says how much is
enough.
-/

import MiniShell.Proofs.Forecast
import MiniShell.Proofs.Passage

namespace MiniShell

open MiniShell.Derivation

/-! ### Taking tokens -/

/-- Reading took the given tokens and left the given trees. -/
structure Cursor.Took (tokens : List Token) (trees : List Tree) (before after : Cursor) :
    Prop where
  rest : before.rest = tokens ++ after.rest
  children : after.children = before.children ++ trees

namespace Cursor.Took

theorem look (count : Nat) (cursor : Cursor) : Took [] [] cursor (cursor.look count) :=
  ⟨rfl, (List.append_nil _).symm⟩

theorem nothing (cursor : Cursor) : Took [] [] cursor cursor := ⟨rfl, (List.append_nil _).symm⟩

theorem trans {first second : List Token} {firstTrees secondTrees : List Tree}
    {before middle after : Cursor} (took : Took first firstTrees before middle)
    (tookNext : Took second secondTrees middle after) :
    Took (first ++ second) (firstTrees ++ secondTrees) before after where
  rest := by rw [took.rest, tookNext.rest, List.append_assoc]
  children := by rw [tookNext.children, took.children, List.append_assoc]

theorem same {before after : Cursor} (took : Took [] [] before after) :
    after.rest = before.rest ∧ after.children = before.children :=
  ⟨took.rest.symm, by rw [took.children, List.append_nil]⟩

theorem length_le {tokens : List Token} {trees : List Tree} {before after : Cursor}
    (took : Took tokens trees before after) :
    after.rest.length + tokens.length = before.rest.length := by
  rw [took.rest, List.length_append, Nat.add_comm]

end Cursor.Took

open Cursor (Took)

/-- Accepting the token ahead takes it. -/
theorem Cursor.accept_of_rest {cursor : Cursor} {token : Token} {rest : List Token}
    (ahead : cursor.rest = token :: rest) :
    Took [token] [.leaf token] cursor cursor.accept := by
  have settled : cursor.settle.rest = token :: rest := ahead
  have accepted : cursor.accept.rest = rest ∧
      cursor.accept.children = cursor.children ++ [.leaf token] := by
    unfold Cursor.accept Cursor.pass
    rw [settled]
    exact ⟨rfl, rfl⟩
  exact ⟨by rw [accepted.1, ahead]; rfl, accepted.2⟩

theorem Cursor.rest_of_present {cursor : Cursor} (present : cursor.current.kind ≠ .lineEnd) :
    ∃ rest, cursor.rest = cursor.current :: rest := by
  unfold Cursor.current at present ⊢
  cases equal : cursor.rest with
  | nil =>
    rw [equal] at present
    exact absurd rfl present
  | cons token rest => exact ⟨rest, rfl⟩

theorem Cursor.accept_took {cursor : Cursor} (present : cursor.current.kind ≠ .lineEnd) :
    Took [cursor.current] [.leaf cursor.current] cursor cursor.accept := by
  obtain ⟨rest, ahead⟩ := Cursor.rest_of_present present
  exact Cursor.accept_of_rest ahead

namespace Recogniser

theorem accept_sound : (modify Cursor.accept : Recogniser PUnit).Sound fun before _ after =>
    after = before.accept :=
  Sound.changing Passage.accept fun cursor _ _ => pass_recovering cursor.settle

theorem follow_took {Choice : Type} (place : Place) (forecast : List Kind → Forecast Choice) :
    (follow place forecast).Sound fun before choice after =>
      (forecast (kindsOf before.rest)).choice = some choice ∧ Took [] [] before after := by
  refine (follow_sound place forecast).weaken ?_
  rintro before choice after _ ⟨chosen, rfl⟩
  exact ⟨chosen, Took.look _ before⟩

/-- A rule leaves one node, which holds the trees that its body has left. The premise is about
the tokens ahead and the condition about the tokens behind the part that was read. -/
theorem within_built (rule : Rule) (sites : List Site) {body : Recogniser Unit} {Part : Type}
    (tokens : Part → List Token) (parts : Part → List Tree) (premise : List Token → Prop)
    (condition : Part → List Token → Prop)
    (sound : body.Sound fun before _ after => premise before.rest → before.children = [] →
      ∃ part, before.rest = tokens part ++ after.rest ∧ after.children = parts part ∧
        condition part after.rest) :
    (liftM (within rule sites body) : Recogniser Unit).Sound fun before _ after =>
      premise before.rest → ∃ part, Took (tokens part) [.node rule (parts part)] before after ∧
        condition part after.rest := by
  refine (within_sound rule sites sound).weaken ?_
  rintro before _ after _ ⟨inner, related, rest, children⟩ holds
  obtain ⟨part, took, built, behind⟩ := related holds rfl
  refine ⟨part, ⟨?_, ?_⟩, ?_⟩
  · rw [rest]
    exact took
  · rw [children, built]
  · rw [rest]
    exact behind

/-- The same for a body that only adds trees to what it finds. -/
theorem within_took (rule : Rule) (sites : List Site) {body : Recogniser Unit} {Part : Type}
    (tokens : Part → List Token) (parts : Part → List Tree) (premise : Prop)
    (sound : body.Sound fun before _ after => premise →
      ∃ part, Took (tokens part) (parts part) before after) :
    (liftM (within rule sites body) : Recogniser Unit).Sound fun before _ after =>
      premise → ∃ part, Took (tokens part) [.node rule (parts part)] before after := by
  have built := within_built rule sites tokens parts (fun _ => premise) (fun _ _ => True)
    (sound.weaken fun before _ after _ read holds bare => by
      obtain ⟨part, took⟩ := read holds
      exact ⟨part, took.rest, by rw [took.children, bare, List.nil_append], trivial⟩)
  refine built.weaken ?_
  rintro before _ after _ read holds
  obtain ⟨part, took, _⟩ := read holds
  exact ⟨part, took⟩

/-! ### Words -/

theorem isQuoted_of_contains {kind : Kind}
    (contains : Place.quotedStart.next.kinds.contains kind = true) : kind.isQuoted = true := by
  revert contains
  cases kind <;> decide

theorem isQuoted_present {kind : Kind} (isQuoted : kind.isQuoted = true) : kind ≠ .lineEnd := by
  rintro rfl
  exact absurd isQuoted (by decide)

theorem quoted_sound (sites : List Site) :
    (liftM (quoted sites) : Recogniser Unit).Sound fun before _ after =>
      Took [before.current] [.node .quoted [.leaf before.current]] before after := by
  refine (within_sound .quoted sites ((require_sound .quotedStart sites).bind
    fun _ => Sound.pure ())).weaken ?_
  rintro before _ after _ ⟨inner, ⟨_, middle, ⟨_, contains, rfl⟩, _, rfl⟩, rest, children⟩
  have took := Cursor.accept_took (isQuoted_present (isQuoted_of_contains contains))
  exact ⟨by rw [rest]; exact took.rest, by rw [children, took.children]; rfl⟩

theorem piece_sound (sites : List Site) :
    (piece sites).Sound fun before _ after => before.current.kind.isPiece = true ∧
      Took [before.current] [pieceTree before.current] before after := by
  refine (Sound.get.bind fun cursor => Sound.branch (cursor.current.kind.isQuoted = true)
    (quoted_sound (.quotedPiece :: sites))
    (Sound.branch (cursor.current.kind = .unquoted) accept_sound
      (mismatch_sound .pieceStart))).weaken ?_
  rintro before _ after _ ⟨cursor, middle, ⟨rfl, rfl⟩, related⟩
  rcases related with ⟨isQuoted, took⟩ | ⟨notQuoted, ⟨isUnquoted, rfl⟩ | ⟨_, impossible⟩⟩
  · refine ⟨by simp [Kind.isPiece, isQuoted], ?_⟩
    rw [pieceTree, if_pos isQuoted]
    exact took
  · refine ⟨by simp [Kind.isPiece, isUnquoted], ?_⟩
    rw [pieceTree, if_neg notQuoted]
    exact Cursor.accept_took (by rw [isUnquoted]; decide)
  · exact impossible.elim

/-- The two ways a loop can go. -/
theorem loop_sound {Result : Type} {again done : Recogniser Result}
    {first second : Cursor → Result → Cursor → Prop} (soundAgain : again.Sound first)
    (soundDone : done.Sound second) (choice : LoopChoice) :
    (match choice with | .again => again | .done => done : Recogniser Result).Sound
      fun before result after => (choice = .again ∧ first before result after) ∨
        (choice = .done ∧ second before result after) := by
  cases choice with
  | again => exact soundAgain.weaken fun _ _ _ _ related => Or.inl ⟨rfl, related⟩
  | done => exact soundDone.weaken fun _ _ _ _ related => Or.inr ⟨rfl, related⟩

/-- What is read as a word without a report are pieces. -/
theorem pieces_sound (sites : List Site) (fuel : Nat) :
    (pieces sites fuel).Sound fun before _ after =>
      ∃ tokens : List Token, (0 < fuel → tokens ≠ []) ∧
        (∀ piece ∈ tokens, piece.kind.isPiece = true) ∧
        Took tokens (tokens.map pieceTree) before after := by
  induction fuel with
  | zero =>
    refine (Sound.pure ()).weaken ?_
    rintro before _ after _ ⟨_, rfl⟩
    exact ⟨[], fun positive => absurd positive (by decide),
      fun piece member => absurd member List.not_mem_nil, Took.nothing after⟩
  | succ fuel inductionHypothesis =>
    refine ((piece_sound sites).bind fun _ => (follow_took .pieceNext (forecastPiece sites)).bind
      fun choice => loop_sound inductionHypothesis (Sound.pure ()) choice).weaken ?_
    rintro before _ after _ ⟨_, middle, ⟨isPiece, took⟩, choice, looked, ⟨_, look⟩, related⟩
    rcases related with ⟨_, tokens, _, arePieces, tookMore⟩ | ⟨_, _, rfl⟩
    · refine ⟨before.current :: tokens, fun _ => by simp, ?_, (took.trans look).trans tookMore⟩
      intro piece member
      rcases List.mem_cons.mp member with rfl | inTokens
      · exact isPiece
      · exact arePieces piece inTokens
    · refine ⟨[before.current], fun _ => by simp, ?_, took.trans look⟩
      intro piece member
      rw [List.mem_singleton.mp member]
      exact isPiece

theorem argument_sound (fuel : Nat) (sites : List Site) :
    (liftM (argument fuel sites) : Recogniser Unit).Sound fun before _ after => 0 < fuel →
      ∃ argument : Argument, Took argument.tokens [argument.tree] before after := by
  refine within_took .argument sites Argument.tokens _ (0 < fuel) ?_
  refine ((check_sound .pieceStart sites).bind fun _ => pieces_sound sites fuel).weaken ?_
  rintro before _ after _ ⟨_, middle, ⟨_, rfl⟩, tokens, nonempty, arePieces, took⟩ positive
  exact ⟨⟨tokens, nonempty positive, arePieces⟩, took⟩

/-! ### Redirections and atoms -/

theorem optionalBlank_sound : optionalBlank.Sound fun before _ after =>
    ∃ blank : Option Blank, Took (blankTokens blank) (blankLeaves blank) before after ∧
      (blank = none → before.current.kind ≠ .blank) := by
  refine (Sound.get.bind fun cursor => Sound.branch (cursor.current.kind = .blank) accept_sound
    (Sound.pure ())).weaken ?_
  rintro before _ after _ ⟨cursor, middle, ⟨rfl, rfl⟩, ⟨isBlank, rfl⟩ | ⟨notBlank, _, rfl⟩⟩
  · exact ⟨some ⟨_, isBlank⟩, Cursor.accept_took (by rw [isBlank]; decide),
      fun absent => absurd absent (by simp)⟩
  · exact ⟨none, Took.nothing _, fun _ => notBlank⟩

theorem isRedirection_present {kind : Kind} (isRedirection : kind.isRedirection = true) :
    kind ≠ .lineEnd := by
  rintro rfl
  exact absurd isRedirection (by decide)

theorem redirection_sound (fuel : Nat) (sites : List Site) :
    (liftM (redirection fuel sites) : Recogniser Unit).Sound fun before _ after => 0 < fuel →
      ∃ redirection : Redirection,
        Took redirection.tokens [redirection.tree] before after := by
  refine within_took .redirection sites Redirection.tokens Redirection.parts (0 < fuel) ?_
  have operand (operator : Kind) := (accept_sound.bind fun _ =>
    (check_sound (.redirectionBlank operator) sites).bind fun _ => optionalBlank_sound.bind fun _ =>
      argument_sound fuel (.target :: sites))
  refine ((check_sound .redirectionStart sites).bind fun _ => Sound.get.bind fun cursor =>
    Sound.branch (cursor.current.kind.isRedirection = true) (operand cursor.current.kind)
      (mismatch_sound .redirectionStart)).weaken ?_
  rintro before _ after _ ⟨_, _, ⟨_, rfl⟩, cursor, _, ⟨rfl, rfl⟩, related⟩ positive
  rcases related with ⟨isOperator, _, _, rfl, _, _, ⟨_, rfl⟩, _, middle, ⟨blank, tookBlank, _⟩,
    read⟩ | ⟨_, impossible⟩
  · have tookOperator := Cursor.accept_took (isRedirection_present isOperator)
    obtain ⟨target, tookTarget⟩ := read positive
    exact ⟨⟨_, isOperator, blank, target⟩, tookOperator.trans (tookBlank.trans tookTarget)⟩
  · exact impossible.elim

theorem atom_sound (fuel : Nat) (sites : List Site) :
    (liftM (atom fuel sites) : Recogniser Unit).Sound fun before _ after => 0 < fuel →
      ∃ atom : Atom, Took atom.tokens [atom.tree] before after := by
  refine within_took .atom sites Atom.tokens (fun atom => [atom.inner]) (0 < fuel) ?_
  refine ((check_sound .atomStart sites).bind fun _ => Sound.get.bind fun cursor =>
    Sound.branch (cursor.current.kind.isRedirection = true)
      (redirection_sound fuel (.redirectionOfAtom :: sites))
      (Sound.branch (cursor.current.kind.isPiece = true)
        (argument_sound fuel (.argumentOfAtom :: sites)) (mismatch_sound .atomStart))).weaken ?_
  rintro before _ after _ ⟨_, _, ⟨_, rfl⟩, cursor, _, ⟨rfl, rfl⟩, related⟩ positive
  rcases related with ⟨_, read⟩ | ⟨_, ⟨_, read⟩ | ⟨_, impossible⟩⟩
  · obtain ⟨redirection, took⟩ := read positive
    exact ⟨.redirection redirection, took⟩
  · obtain ⟨argument, took⟩ := read positive
    exact ⟨.argument argument, took⟩
  · exact impossible.elim

/-! ### Calls -/

theorem isBlank_of_contains {kind : Kind}
    (contains : Place.leadingBlank.next.kinds.contains kind = true) : kind = .blank := by
  revert contains
  cases kind <;> decide

/-- What is read before the first word without a report are redirections with blanks behind them. -/
theorem leading_sound (sites : List Site) (fuel : Nat) :
    (leading sites fuel).Sound fun before _ after => before.rest.length < fuel →
      ∃ redirections : List (Redirection × Blank),
        Took (leadingTokens redirections) (leadingTrees redirections) before after := by
  induction fuel with
  | zero =>
    exact (Sound.pure ()).weaken fun _ _ _ _ _ short => absurd short (Nat.not_lt_zero _)
  | succ fuel inductionHypothesis =>
    have round := (redirection_sound fuel (.leadingRedirection :: sites)).bind fun _ =>
      (requireOne_sound .blank .leadingBlank sites).bind fun _ =>
        (checkAgain_sound .leadingAgain sites).bind fun _ => inductionHypothesis
    refine (Sound.get.bind fun cursor =>
      Sound.branch (cursor.current.kind.isRedirection = true) round (Sound.pure ())).weaken ?_
    rintro before _ after _ ⟨cursor, _, ⟨rfl, rfl⟩, related⟩ enough
    rcases related with ⟨isOperator, _, middle, read, _, _, ⟨contains, rfl⟩, _, _, rfl,
      more⟩ | ⟨_, _, rfl⟩
    · obtain ⟨tail, present⟩ := Cursor.rest_of_present (isRedirection_present isOperator)
      have positive : 0 < fuel := by
        rw [present, List.length_cons] at enough
        omega
      obtain ⟨redirection, took⟩ := read positive
      have isBlank := isBlank_of_contains contains
      have tookBlank := Cursor.accept_took (by rw [isBlank]; decide)
      have length := (took.trans tookBlank).length_le
      rw [List.length_append, List.length_singleton] at length
      obtain ⟨redirections, tookMore⟩ := more (by omega)
      exact ⟨(redirection, ⟨_, isBlank⟩) :: redirections, (took.trans tookBlank).trans tookMore⟩
    · exact ⟨[], Took.nothing after⟩

theorem forecastAtom_done {tokens : List Token}
    (done : (forecastAtom (kindsOf tokens)).choice = some .done) :
    (∀ token rest, tokens = token :: rest → token.kind ≠ .blank →
      atomKinds.contains token.kind = false) ∧
    ∀ blank token rest, tokens = blank :: token :: rest → blank.kind = .blank →
      atomKinds.contains token.kind = false := by
  constructor
  · rintro token rest rfl notBlank
    rw [kindsOf_cons] at done
    unfold forecastAtom at done
    split at done
    · rename_i next others equal
      exact absurd (List.cons.inj equal).1 notBlank
    · rename_i equal
      exact absurd (List.cons.inj equal).1 notBlank
    · rename_i kind others _ _ equal
      rw [← (List.cons.inj equal).1] at done
      simpa using done
    · rename_i equal
      exact absurd equal (by simp)
  · rintro blank token rest rfl isBlank
    rw [kindsOf_cons, kindsOf_cons, isBlank] at done
    simpa [forecastAtom] using done

/-- What is read behind the first word without a report are atoms, up to where no atom can follow.
-/
theorem atoms_sound (sites : List Site) (fuel : Nat) :
    (atoms sites fuel).Sound fun before _ after => before.rest.length < fuel →
      ∃ parts : List (Option Blank × Atom),
        Took (atomTokens parts) (atomTrees parts) before after ∧
        (forecastAtom (kindsOf after.rest)).choice = some .done := by
  induction fuel with
  | zero =>
    exact (Sound.pure ()).weaken fun _ _ _ _ _ short => absurd short (Nat.not_lt_zero _)
  | succ fuel inductionHypothesis =>
    have round := optionalBlank_sound.bind fun _ =>
      (atom_sound fuel (.atomOfCall :: sites)).bind fun _ => inductionHypothesis
    refine ((follow_took .atomStart forecastAtom).bind fun choice =>
      loop_sound round (Sound.pure ()) choice).weaken ?_
    rintro before _ after _ ⟨choice, looked, ⟨chosen, look⟩, related⟩ enough
    rcases related with ⟨rfl, _, middle, ⟨blank, tookBlank, _⟩, _, next, read, more⟩ | ⟨rfl, _, rfl⟩
    · have nonempty : 0 < before.rest.length := by
        refine List.length_pos_iff.mpr fun empty => ?_
        rw [empty] at chosen
        exact absurd chosen (by simp [forecastAtom])
      obtain ⟨atom, took⟩ := read (by omega)
      have tookAtom := (look.trans tookBlank).trans took
      have length := tookAtom.length_le
      have progress := List.length_pos_iff.mpr atom.tokens_nonempty
      rw [List.length_append] at length
      obtain ⟨parts, tookMore, done⟩ := more (by omega)
      exact ⟨(blank, atom) :: parts, tookAtom.trans tookMore, done⟩
    · refine ⟨[], look, ?_⟩
      rw [← chosen, look.rest]
      rfl

/-- A call is read up to a token that cannot continue it. -/
theorem call_sound (fuel : Nat) (sites : List Site) :
    (liftM (call fuel sites) : Recogniser Unit).Sound fun before _ after =>
      before.rest.length < fuel → ∃ call : Call, Took call.tokens [call.tree] before after ∧
        (CallPart.start.run (kindsOf (call.tokens ++ after.rest))).2.2 = kindsOf after.rest := by
  refine within_built .call sites Call.tokens Call.parts (fun rest => rest.length < fuel)
    (fun call after => (CallPart.start.run (kindsOf (call.tokens ++ after))).2.2 = kindsOf after) ?_
  refine ((check_sound .callStart sites).bind fun _ => optionalBlank_sound.bind fun _ =>
    (check_sound .leading sites).bind fun _ => (leading_sound sites fuel).bind fun _ =>
      (argument_sound fuel (.firstWord :: sites)).bind fun _ => (atoms_sound sites fuel).bind
        fun _ => optionalBlank_sound).weaken ?_
  rintro before _ after _ ⟨_, _, ⟨_, rfl⟩, _, led, ⟨lead, tookLead, _⟩, _, _, ⟨_, rfl⟩, _, opened,
    openings, _, named, name, _, ended, more, trail, tookTrail, unspaced⟩ enough bare
  obtain ⟨redirections, tookLeading⟩ := openings (by have := tookLead.length_le; omega)
  obtain ⟨first, tookFirst⟩ := name (by omega)
  have tookName := (tookLead.trans tookLeading).trans tookFirst
  obtain ⟨parts, tookAtoms, done⟩ := more (by have := tookName.length_le; omega)
  have took := (tookName.trans tookAtoms).trans tookTrail
  refine ⟨⟨lead, redirections, first, parts, trail⟩, took.rest, ?_, ?_⟩
  · rw [took.children, bare, List.nil_append]
    rfl
  · -- Where the call ends without a blank, what follows is none either.
    refine run_stops _ after.rest fun token others behind => ?_
    obtain ⟨noAtom, noAtomBehind⟩ := forecastAtom_done done
    have ahead := tookTrail.rest
    rw [behind] at ahead
    cases trail with
    | none =>
      have isCurrent : ended.current = token := by
        rw [Cursor.current, ahead]
        rfl
      have notBlank : token.kind ≠ .blank := isCurrent ▸ unspaced rfl
      exact ⟨noAtom token others ahead notBlank, fun _ => notBlank⟩
    | some blank =>
      exact ⟨noAtomBehind blank.val token others ahead blank.property,
        fun absent => absurd absent (by simp)⟩

end Recogniser

end MiniShell
