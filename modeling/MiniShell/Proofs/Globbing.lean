/-
This file is about the words of an argument that hold a bare star. Such a word
is replaced by the names of the files that it matches. The words are replaced
one after the other, each at the position that it had before any of them was
replaced. This is the right position as long as the words before it stand for
one name each. So a word must not match more than one file if a word behind it
is replaced after it.

If one does, the positions behind it are off: a name that has just been found
is looked for again, and a word with a star is left as it is.

The words are replaced in the order in which their positions come out of a
table of slots. All that is used of this order is that each position comes out
once.
-/

import MiniShell.Proofs.Composition
import MiniShell.Proofs.Splicing

namespace MiniShell

open MiniShell.Derivation

/-! ### Replacing one word -/

namespace Evaluator

variable {session : Session}

/-- Looking for the names of files changes nothing. -/
theorem expand_looks (word : Text) (session : Session) :
    ((Action.expand word).start session).2 = session :=
  (Stepwise.expand word : Stepwise ⟨false, false, false⟩ _).looks session

/-- The word at a position is replaced by the names of the files that it matches. -/
theorem start_expandAt (before : List Text) (word : Text) (behind : List Text)
    (session : Session) :
    (expandAt (before ++ word :: behind) before.length).start session =
      (match ((Action.expand word).start session).1 with
        | .error fault => .error fault
        | .ok [] => .error (.noMatches word)
        | .ok names => .ok (before ++ names ++ behind), session) := by
  have here : (before ++ word :: behind).getD before.length [] = word := by simp
  have looks := expand_looks word session
  rw [expandAt, here, Action.start_bind]
  rcases expanded : (Action.expand word).start session with ⟨fault | names, after⟩
  all_goals
    rw [expanded] at looks
    obtain rfl : after = session := looks
  · rfl
  · cases names with
    | nil => rfl
    | cons name others => simp

/-- Replacing a word takes no place away, and leaves what is behind it. -/
theorem expandAt_keeps {words behind found : List Text} {position : Nat} {after : Session}
    (inside : position < words.length)
    (ran : (expandAt (words ++ behind) position).start session = (.ok found, after)) :
    after = session ∧ ∃ more, found = more ++ behind ∧ words.length ≤ more.length := by
  obtain ⟨before, word, between, rfl, rfl⟩ :
      ∃ before word between, words = before ++ word :: between ∧ position = before.length :=
    ⟨words.take position, words[position], words.drop (position + 1), by simp, by simp; omega⟩
  rw [List.append_assoc, List.cons_append, start_expandAt] at ran
  obtain ⟨replaced, rfl⟩ := Prod.mk.inj ran
  refine ⟨rfl, ?_⟩
  split at replaced
  · cases replaced
  · cases replaced
  · next names some _ =>
    refine ⟨before ++ names ++ between, ?_, ?_⟩
    · simpa using (Except.ok.inj replaced).symm
    · have : 0 < names.length := List.length_pos_iff.mpr (by rintro rfl; exact some rfl)
      simp only [List.length_append, List.length_cons]
      omega

/-- Words behind all positions are left as they are, and do not come nearer to the beginning. -/
theorem foldlM_expandAt_keeps {positions : List Nat} {words behind found : List Text}
    {after : Session} (inside : ∀ position ∈ positions, position < words.length)
    (ran : (positions.foldlM expandAt (words ++ behind)).start session = (.ok found, after)) :
    after = session ∧ ∃ more, found = more ++ behind ∧ words.length ≤ more.length := by
  induction positions generalizing words with
  | nil =>
    obtain ⟨same, rfl⟩ := Prod.mk.inj ran
    exact ⟨rfl, words, (Except.ok.inj same).symm, Nat.le_refl _⟩
  | cons position rest inductionHypothesis =>
    rw [List.foldlM_cons, Action.start_bind] at ran
    rcases first : (expandAt (words ++ behind) position).start session with
      ⟨fault | replaced, between⟩
    · rw [first] at ran
      exact absurd (congrArg Prod.fst ran) (by simp)
    · rw [first] at ran
      obtain ⟨rfl, longer, rfl, atLeast⟩ :=
        expandAt_keeps (inside position List.mem_cons_self) first
      have further : ∀ other ∈ rest, other < longer.length := fun other member =>
        Nat.lt_of_lt_of_le (inside other (List.mem_cons_of_mem _ member)) atLeast
      obtain ⟨same, more, found, grown⟩ := inductionHypothesis further ran
      exact ⟨same, more, found, Nat.le_trans atLeast grown⟩

end Evaluator

/-! ### Words of which some have been replaced -/

section Shown

variable (text : Nat → Text) (names : Nat → List Text)

/-- What stands for the word of a position, which is replaced if it is one of the given ones. -/
def cell (done : List Nat) (position : Nat) : List Text :=
  if position ∈ done then names position else [text position]

/-- What stands for so many words. -/
def shown (done : List Nat) (count : Nat) : List Text :=
  (List.range count).flatMap (cell text names done)

variable {text names} {done : List Nat} {position count : Nat}

theorem cell_fresh (fresh : position ∉ done) : cell text names done position = [text position] :=
  if_neg fresh

theorem cell_done (isDone : position ∈ done) : cell text names done position = names position :=
  if_pos isDone

/-- What stands for the words before and behind a position, and for its own word. -/
theorem shown_split (inside : position < count) :
    shown text names done count = shown text names done position ++
      (cell text names done position ++
        (List.range' (position + 1) (count - (position + 1))).flatMap
          (cell text names done)) := by
  have split : List.range count =
      List.range position ++ position :: List.range' (position + 1) (count - (position + 1)) := by
    have joined : List.range position ++ List.range' (0 + position) (count - (position + 1) + 1) =
        List.range' 0 (position + (count - (position + 1) + 1)) := by
      rw [List.range_eq_range']
      exact List.range'_append_1
    rw [Nat.zero_add, List.range'_succ] at joined
    rw [joined, List.range_eq_range']
    congr 1
    omega
  rw [shown, split, List.flatMap_append, List.flatMap_cons]
  rfl

theorem shown_succ : shown text names done (count + 1) =
    shown text names done count ++ cell text names done count := by
  rw [shown, List.range_succ, List.flatMap_append, List.flatMap_singleton]
  rfl

theorem length_shown (singles : ∀ other < count, (cell text names done other).length = 1) :
    (shown text names done count).length = count := by
  induction count with
  | zero => rfl
  | succ count inductionHypothesis =>
    have front := inductionHypothesis fun other below => singles other (by omega)
    rw [shown_succ, List.length_append, front, singles count (Nat.lt_succ_self _)]

theorem le_length_shown (some : ∀ other < count, cell text names done other ≠ []) :
    count ≤ (shown text names done count).length := by
  induction count with
  | zero => exact Nat.zero_le _
  | succ count inductionHypothesis =>
    have front := inductionHypothesis fun other below => some other (by omega)
    have one := List.length_pos_iff.mpr (some count (Nat.lt_succ_self _))
    rw [shown_succ, List.length_append]
    omega

/-- If one of the words is replaced by more than one name, they take more room. -/
theorem lt_length_shown (some : ∀ other < count, cell text names done other ≠ [])
    (inside : position < count) (several : 1 < (cell text names done position).length) :
    count < (shown text names done count).length := by
  induction count with
  | zero => omega
  | succ count inductionHypothesis =>
    have least : ∀ other < count, cell text names done other ≠ [] := fun other _ =>
      some other (by omega)
    rw [shown_succ, List.length_append]
    by_cases last : position = count
    · subst last
      have front := le_length_shown least
      omega
    · have front := inductionHypothesis least (by omega)
      have one := List.length_pos_iff.mpr (some count (Nat.lt_succ_self _))
      omega

/-- What stands behind a position does not depend on what has been replaced before it. -/
theorem flatMap_cell_congr {others : List Nat} {positions : List Nat}
    (same : ∀ position ∈ positions, position ∈ done ↔ position ∈ others) :
    positions.flatMap (cell text names done) = positions.flatMap (cell text names others) := by
  refine List.flatMap_congr fun position member => ?_
  simp only [cell, same position member]

end Shown

/-! ### Replacing all words -/

/-- A word that is replaced before a word behind it has at most one name. -/
def FewNames (names : Nat → List Text) (order : List Nat) : Prop :=
  order.Pairwise fun first later => first < later → (names first).length ≤ 1

namespace Evaluator

variable {text : Nat → Text} {names : Nat → List Text} {session : Session} {count : Nat}

/-- The words before a position have been replaced by one name each, so that the position is
right. -/
theorem start_expandAt_shown {done : List Nat} {position : Nat} (inside : position < count)
    (fresh : position ∉ done)
    (singles : ∀ other ∈ done, other < position → (names other).length = 1)
    (finds : ((Action.expand (text position)).start session).1 = .ok (names position)) :
    (expandAt (shown text names done count) position).start session =
      (if names position = [] then .error (.noMatches (text position))
        else .ok (shown text names (position :: done) count), session) := by
  have front : (shown text names done position).length = position := by
    refine length_shown fun other below => ?_
    by_cases isDone : other ∈ done
    · rw [cell_done isDone]
      exact singles other isDone below
    · rw [cell_fresh isDone]
      rfl
  have before : shown text names (position :: done) position = shown text names done position :=
    flatMap_cell_congr fun other member => by
      have below := List.mem_range.mp member
      simp [Nat.ne_of_lt below]
  have behind : (List.range' (position + 1) (count - (position + 1))).flatMap
      (cell text names (position :: done)) =
      (List.range' (position + 1) (count - (position + 1))).flatMap (cell text names done) :=
    flatMap_cell_congr fun other member => by
      have above := (List.mem_range'_1.mp member).1
      simp [Nat.ne_of_gt above]
  have started := start_expandAt (shown text names done position) (text position)
    ((List.range' (position + 1) (count - (position + 1))).flatMap (cell text names done)) session
  rw [front, finds] at started
  rw [shown_split inside, cell_fresh fresh, List.singleton_append, started, shown_split inside,
    cell_done List.mem_cons_self, before, behind]
  cases names position with
  | nil => rfl
  | cons name others => simp

/-- The positions in the order in which they have their turn. Those that are done have all been
replaced by names. Where a position is still to come behind one of them, it was by one name. -/
structure Turns (text : Nat → Text) (names : Nat → List Text) (session : Session) (count : Nat)
    (done order : List Nat) : Prop where
  inside : ∀ position ∈ order, position < count
  distinct : order.Nodup
  fresh : ∀ position ∈ order, position ∉ done
  finds : ∀ position ∈ order,
    ((Action.expand (text position)).start session).1 = .ok (names position)
  found : ∀ position ∈ done, names position ≠ []
  singles : ∀ position ∈ done, ∀ later ∈ order, position < later → (names position).length = 1

namespace Turns

variable {done others : List Nat} {position : Nat}

theorem start (turns : Turns text names session count done (position :: others)) :
    (expandAt (shown text names done count) position).start session =
      (if names position = [] then .error (.noMatches (text position))
        else .ok (shown text names (position :: done) count), session) :=
  start_expandAt_shown (turns.inside position List.mem_cons_self)
    (turns.fresh position List.mem_cons_self)
    (fun other isDone below => turns.singles other isDone position List.mem_cons_self below)
    (turns.finds position List.mem_cons_self)

/-- One turn. -/
theorem next (turns : Turns text names session count done (position :: others))
    (some : names position ≠ [])
    (few : ∀ later ∈ others, position < later → (names position).length ≤ 1) :
    Turns text names session count (position :: done) others where
  inside other member := turns.inside other (List.mem_cons_of_mem _ member)
  distinct := (List.nodup_cons.mp turns.distinct).2
  fresh other member := by
    refine List.not_mem_cons_of_ne_of_not_mem ?_ (turns.fresh other (List.mem_cons_of_mem _ member))
    rintro rfl
    exact (List.nodup_cons.mp turns.distinct).1 member
  finds other member := turns.finds other (List.mem_cons_of_mem _ member)
  found := List.forall_mem_cons.mpr ⟨some, turns.found⟩
  singles := by
    refine List.forall_mem_cons.mpr ⟨fun later member below => ?_, fun other isDone later member =>
      turns.singles other isDone later (List.mem_cons_of_mem _ member)⟩
    exact Nat.le_antisymm (few later member below) (List.length_pos_iff.mpr some)

/-- If every position is right, every word is replaced by its names, or there is a fault for the
first one without names. -/
theorem foldlM (turns : Turns text names session count done others)
    (few : FewNames names others) :
    (others.foldlM expandAt (shown text names done count)).start session =
      ((others.find? fun position => (names position).isEmpty).elim
        (.ok (shown text names (others.reverse ++ done) count))
        fun position => .error (.noMatches (text position)), session) := by
  induction others generalizing done with
  | nil => rfl
  | cons position others inductionHypothesis =>
    obtain ⟨fewHere, fewBehind⟩ := List.pairwise_cons.mp few
    rw [List.foldlM_cons, Action.start_bind, turns.start]
    by_cases none : names position = []
    · simp [none]
    · have further := inductionHypothesis (turns.next none fewHere) fewBehind
      rw [if_neg none]
      simpa [none] using further

/-- Once the positions are off, the last one that is to come is not reached any more. -/
theorem foldlM_off (turns : Turns text names session count done (position :: others))
    (several : 1 < (names position).length) {last : Nat} (isLast : last ∈ others)
    (greatest : ∀ other ∈ others, other ≤ last) (above : position < last) {found : List Text}
    {after : Session}
    (ran : (others.foldlM expandAt (shown text names (position :: done) count)).start session =
      (.ok found, after)) :
    after = session ∧ ∃ front, last < front.length ∧
      found = front ++ text last :: (List.range' (last + 1) (count - (last + 1))).flatMap
        (cell text names (others.reverse ++ position :: done)) := by
  have member : last ∈ position :: others := List.mem_cons_of_mem _ isLast
  have fresh : last ∉ position :: done :=
    List.not_mem_cons_of_ne_of_not_mem (Nat.ne_of_gt above) (turns.fresh last member)
  have some : ∀ other < last, cell text names (position :: done) other ≠ [] := by
    intro other _
    by_cases isDone : other ∈ position :: done
    · rw [cell_done isDone]
      rcases List.mem_cons.mp isDone with rfl | before
      · exact List.length_pos_iff.mp (Nat.zero_lt_of_lt several)
      · exact turns.found other before
    · rw [cell_fresh isDone]
      exact List.cons_ne_nil _ _
  have far : last < (shown text names (position :: done) last).length :=
    lt_length_shown some above (by rw [cell_done List.mem_cons_self]; exact several)
  rw [shown_split (turns.inside last member), cell_fresh fresh, List.singleton_append] at ran
  obtain ⟨same, front, split, grown⟩ := foldlM_expandAt_keeps
    (fun other isOther => Nat.lt_of_le_of_lt (greatest other isOther) far) ran
  refine ⟨same, front, Nat.lt_of_lt_of_le far grown, split.trans ?_⟩
  rw [flatMap_cell_congr fun other isBehind => ?_]
  have notOther : other ∉ others := fun isOther =>
    absurd (greatest other isOther) (Nat.not_le.mpr (List.mem_range'_1.mp isBehind).1)
  simp [notOther]

/-- If a word has more than one name and a word behind it is still to come, such a word is missed:
it is left as it is, farther behind than its position, while all words behind it stand as they
should. -/
theorem foldlM_missed (turns : Turns text names session count done others)
    (many : ¬ FewNames names others) {found : List Text} {after : Session}
    (ran : (others.foldlM expandAt (shown text names done count)).start session =
      (.ok found, after)) :
    after = session ∧ ∃ last ∈ others, ∃ front, last < front.length ∧
      found = front ++ text last :: (List.range' (last + 1) (count - (last + 1))).flatMap
        (cell text names (others.reverse ++ done)) := by
  induction others generalizing done with
  | nil => exact absurd .nil many
  | cons position others inductionHypothesis =>
    rw [List.foldlM_cons, Action.start_bind, turns.start] at ran
    rw [List.reverse_cons, List.append_assoc, List.singleton_append]
    by_cases none : names position = []
    · rw [if_pos none] at ran
      exact absurd (congrArg Prod.fst ran) (by simp)
    rw [if_neg none] at ran
    by_cases few : ∀ later ∈ others, position < later → (names position).length ≤ 1
    · have manyBehind : ¬ FewNames names others := fun fewBehind =>
        many (List.pairwise_cons.mpr ⟨few, fewBehind⟩)
      obtain ⟨same, last, member, missed⟩ :=
        inductionHypothesis (turns.next none few) manyBehind ran
      exact ⟨same, last, List.mem_cons_of_mem _ member, missed⟩
    · simp only [Classical.not_forall, Nat.not_le] at few
      obtain ⟨later, isLater, above, several⟩ := few
      obtain ⟨last, isMax⟩ := Option.isSome_iff_exists.mp (List.isSome_max?_of_mem isLater)
      obtain ⟨isLast, greatest⟩ := List.max?_eq_some_iff.mp isMax
      obtain ⟨same, missed⟩ := turns.foldlM_off several isLast greatest
        (Nat.lt_of_lt_of_le above (greatest later isLater)) ran
      exact ⟨same, last, List.mem_cons_of_mem _ isLast, missed⟩

end Turns

end Evaluator

/-! ### The words with a star -/

namespace Glyph

variable (glob : Text → List Text)

/-- What a word is replaced by: the names of the files that it matches if it holds a bare star, and
the word itself if it does not. -/
def expansion (word : List Glyph) : List Text :=
  if isWild word then glob (textOf word) else [textOf word]

/-- The text of the word at a position. -/
def textAt (words : List (List Glyph)) (position : Nat) : Text := textOf (words.getD position [])

/-- The first word that matches no file, in the order in which the words with a bare star are
replaced. -/
def unmatched? (words : List (List Glyph)) : Option Text :=
  ((starOrder words).map (textAt words)).find? fun text => (glob text).isEmpty

/-- A word that is replaced before a word behind it matches at most one file. -/
def FewMatches (words : List (List Glyph)) : Prop :=
  FewNames (fun position => glob (textAt words position)) (starOrder words)

/-- A word with a bare star is left as it is, farther behind than its position, while all words
behind it stand as they should. -/
def Missed (words : List (List Glyph)) (found : List Text) : Prop :=
  ∃ before word behind front, words = before ++ word :: behind ∧ isWild word = true ∧
    before.length < front.length ∧ found = front ++ textOf word :: behind.flatMap (expansion glob)

variable {glob} {words : List (List Glyph)}

theorem getD_inside {position : Nat} (inside : position < words.length) :
    words.getD position [] = words[position] := by
  simp [inside]

theorem mem_starOrder {position : Nat} :
    position ∈ starOrder words ↔
      position < words.length ∧ isWild (words.getD position []) = true := by
  rw [starOrder, (Slots.order_perm _).mem_iff, List.mem_findIdxs_iff_exists_getElem_pos]
  constructor
  · rintro ⟨inside, wild⟩
    exact ⟨inside, by rwa [getD_inside inside]⟩
  · rintro ⟨inside, wild⟩
    exact ⟨inside, by rwa [getD_inside inside] at wild⟩

theorem starOrder_nodup : (starOrder words).Nodup :=
  (Slots.order_perm _).nodup_iff.mpr List.nodup_findIdxs

theorem map_getD_range' {start count : Nat} (whole : start + count = words.length) :
    (List.range' start count).map (words.getD · []) = words.drop start := by
  refine List.ext_getElem (by simp; omega) fun position inRange inDrop => ?_
  simp only [List.length_drop] at inDrop
  simp [getElem?_pos words (start + position) (by omega)]

theorem flatMap_cell {done : List Nat} (same : ∀ position, position ∈ done ↔
      position ∈ starOrder words) {start count : Nat} (whole : start + count = words.length) :
    (List.range' start count).flatMap
        (cell (textAt words) (fun position => glob (textAt words position)) done) =
      (words.drop start).flatMap (expansion glob) := by
  rw [← map_getD_range' whole, List.flatMap_map]
  refine List.flatMap_congr fun position member => ?_
  have inside : position < words.length := by
    have := (List.mem_range'_1.mp member).2
    omega
  simp only [cell, same, mem_starOrder, inside, true_and, expansion, textAt]

/-- Every word with a bare star has its turn. -/
theorem turns_starOrder {session : Session}
    (globs : ∀ word ∈ words, isWild word = true →
      ((Action.expand (textOf word)).start session).1 = .ok (glob (textOf word))) :
    Evaluator.Turns (textAt words) (fun position => glob (textAt words position)) session
      words.length [] (starOrder words) where
  inside _ member := (mem_starOrder.mp member).1
  distinct := starOrder_nodup
  fresh _ _ := List.not_mem_nil
  finds position member := by
    obtain ⟨inside, wild⟩ := mem_starOrder.mp member
    refine globs (words.getD position []) ?_ wild
    rw [getD_inside inside]
    exact List.getElem_mem inside
  found _ member := absurd member List.not_mem_nil
  singles _ member := absurd member List.not_mem_nil

/-- Before the first turn the words stand as they are. -/
theorem shown_nil : shown (textAt words) (fun position => glob (textAt words position)) []
    words.length = words.map textOf := by
  have whole : (List.range' 0 words.length).map (words.getD · []) = words :=
    map_getD_range' (Nat.zero_add _)
  have single : cell (textAt words) (fun position => glob (textAt words position)) [] =
      fun position => [textOf (words.getD position [])] :=
    funext fun position => cell_fresh List.not_mem_nil
  rw [shown, single, List.range_eq_range', ← List.map_eq_flatMap]
  conv_rhs => rw [← whole, List.map_map]
  rfl

/-- After the last turn exactly the words with a bare star have been replaced. -/
theorem shown_starOrder {done : List Nat} (same : ∀ position, position ∈ done ↔
      position ∈ starOrder words) :
    shown (textAt words) (fun position => glob (textAt words position)) done words.length =
      words.flatMap (expansion glob) := by
  rw [shown, List.range_eq_range', flatMap_cell same (Nat.zero_add _), List.drop_zero]

theorem unmatched?_isSome_iff :
    (unmatched? glob words).isSome = true ↔
      ∃ word ∈ words, isWild word = true ∧ glob (textOf word) = [] := by
  rw [unmatched?, List.find?_isSome]
  constructor
  · rintro ⟨text, isText, empty⟩
    obtain ⟨position, member, rfl⟩ := List.mem_map.mp isText
    obtain ⟨inside, wild⟩ := mem_starOrder.mp member
    refine ⟨words.getD position [], ?_, wild, List.isEmpty_iff.mp empty⟩
    rw [getD_inside inside]
    exact List.getElem_mem inside
  · rintro ⟨word, isWord, wild, empty⟩
    obtain ⟨position, inside, rfl⟩ := List.mem_iff_getElem.mp isWord
    rw [← getD_inside inside] at wild empty
    exact ⟨_, List.mem_map_of_mem (mem_starOrder.mpr ⟨inside, wild⟩), List.isEmpty_iff.mpr empty⟩

/-- The words with a bare star are replaced, or there is a fault for the first one that matches
nothing. -/
theorem foldlM_starOrder {session : Session}
    (globs : ∀ word ∈ words, isWild word = true →
      ((Action.expand (textOf word)).start session).1 = .ok (glob (textOf word)))
    (few : FewMatches glob words) :
    ((starOrder words).foldlM Evaluator.expandAt (words.map textOf)).start session =
      ((unmatched? glob words).elim (.ok (words.flatMap (expansion glob)))
        fun text => .error (.noMatches text), session) := by
  have ran := (turns_starOrder globs).foldlM few
  rw [shown_nil, shown_starOrder fun position => by simp] at ran
  rw [ran, unmatched?, List.find?_map, Option.elim_map]
  rfl

/-- If a word that is replaced before a word behind it matches more than one file, a word is
missed. -/
theorem foldlM_starOrder_missed {session : Session}
    (globs : ∀ word ∈ words, isWild word = true →
      ((Action.expand (textOf word)).start session).1 = .ok (glob (textOf word)))
    (many : ¬ FewMatches glob words) {found : List Text} {after : Session}
    (ran : ((starOrder words).foldlM Evaluator.expandAt (words.map textOf)).start session =
      (.ok found, after)) :
    after = session ∧ Missed glob words found := by
  rw [← shown_nil] at ran
  obtain ⟨same, last, member, front, far, split⟩ := (turns_starOrder globs).foldlM_missed many ran
  obtain ⟨inside, wild⟩ := mem_starOrder.mp member
  rw [flatMap_cell (fun position => by simp) (by omega)] at split
  refine ⟨same, words.take last, words.getD last [], words.drop (last + 1), front, ?_, wild, ?_,
    split⟩
  · rw [getD_inside inside]
    simp
  · rw [List.length_take_of_le (Nat.le_of_lt inside)]
    exact far

end Glyph

namespace Evaluator

open Glyph (isWild expansion unmatched? FewMatches Missed)

variable {glob : Text → List Text}

/-! ### Arguments -/

/-- The words of an argument that hold a bare star are replaced by the names of the files that they
match, and no other word is. It is a fault exactly if one of them matches nothing, and the fault
names the first such word in the order in which they are replaced. All this holds if no word that
is replaced before a word behind it matches more than one file. If one does, a word with a star is
never replaced. -/
theorem visit_globbed (substitute : Substitute) (argument : Argument) {evaluation : Evaluation}
    {outputs : List (List Text)} {after : Session}
    (ran : (argument.commands.mapM substitute).start evaluation.session = (.ok outputs, after))
    (globs : ∀ word ∈ argument.words outputs, isWild word = true →
      ((Action.expand (Glyph.textOf word)).start after).1 = .ok (glob (Glyph.textOf word))) :
    let words := argument.words outputs
    let begun := { evaluation with session := after }
    let visited := (visit substitute argument.tree).start evaluation
    (FewMatches glob words →
      visited = (unmatched? glob words).elim
        ((addWords (words.flatMap (expansion glob))).start begun)
        (fun text => (.error (.noMatches text), begun)) ∧
      ((∃ text, visited.1 = .error (.noMatches text)) ↔
        ∃ word ∈ words, isWild word = true ∧ glob (Glyph.textOf word) = [])) ∧
    (¬ FewMatches glob words → visited.1 = .ok () →
      ∃ found, Missed glob words found ∧ visited = (addWords found).start begun) := by
  intro words begun visited
  have expands : visited =
      (act ((Glyph.starOrder words).foldlM expandAt (words.map Glyph.textOf)) >>= addWords).start
        begun := by
    simp only [visited, visit_argument, argumentWords_eq, start_bind, start_act,
      Action.start_bind_ok ran]
    rfl
  rw [expands, start_bind, start_act]
  refine ⟨fun few => ?_, fun many succeeds => ?_⟩
  · rw [Glyph.foldlM_starOrder globs few, ← Glyph.unmatched?_isSome_iff]
    cases unmatched? glob words with
    | none => exact ⟨rfl, by simp [addWords]⟩
    | some text => exact ⟨rfl, by simp⟩
  · rcases expanded : ((Glyph.starOrder words).foldlM expandAt
      (words.map Glyph.textOf)).start after with ⟨fault | found, last⟩
    · rw [expanded] at succeeds
      exact absurd succeeds (by simp)
    · obtain ⟨rfl, missed⟩ := Glyph.foldlM_starOrder_missed globs many expanded
      exact ⟨found, missed, rfl⟩

end Evaluator

/-- The argument `a*`b`b*`. -/
def starredArgument : Argument where
  pieces :=
    [⟨.unquoted, "a*".toList, ⟨0, 1, 0⟩⟩, ⟨.backQuoted, "`b`".toList, ⟨2, 1, 2⟩⟩,
      ⟨.unquoted, "b*".toList, ⟨5, 1, 5⟩⟩]
  nonempty := List.cons_ne_nil _ _
  arePieces := by decide

/-- A session with empty files of the given names. -/
def emptyFiles (names : List Text) : Session where
  files := .directory (names.map fun name => (name, .file []))
  home := ['/']
  inputs := []

/-- The output of the command joins the two words, of which only the second one matches more than
one file. -/
theorem Evaluator.visit_globbed_twice :
    let session := emptyFiles ["a1x".toList, "yb1".toList, "yb2".toList]
    let substitute : Substitute := fun _ => pure ["x y\n".toList]
    let glob (word : Text) : List Text :=
      if word = "a*x".toList then ["a1x".toList] else ["yb1".toList, "yb2".toList]
    let words := starredArgument.words [["x y\n".toList]]
    words.map Glyph.textOf = ["a*x".toList, "yb*".toList] ∧
    (∀ word ∈ words, Glyph.isWild word = true →
      ((Action.expand (Glyph.textOf word)).start session).1 = .ok (glob (Glyph.textOf word))) ∧
    Glyph.FewMatches glob words ∧
    (visit substitute starredArgument.tree).start { session } =
      (addWords ["a1x".toList, "yb1".toList, "yb2".toList]).start { session } := by
  intro session substitute glob words
  have globs : ∀ word ∈ words, Glyph.isWild word = true →
      ((Action.expand (Glyph.textOf word)).start session).1 = .ok (glob (Glyph.textOf word)) := by
    decide +kernel
  have few : Glyph.FewMatches glob words := by
    unfold Glyph.FewMatches FewNames
    decide +kernel
  have ran : (starredArgument.commands.mapM substitute).start ({ session } : Evaluation).session =
      (.ok [["x y\n".toList]], session) := rfl
  refine ⟨by decide +kernel, globs, few, ?_⟩
  rw [((visit_globbed substitute starredArgument ran globs).1 few).1]
  rfl

-- The last word has position 8 and is replaced before the word of position 1, which may therefore
-- match two files.
example :
    ((runLine "echo x`echo a b`*`echo c d e f g h i j`*".toList).start
      (emptyFiles ["b1c".toList, "b2c".toList, "j1".toList])).1 =
      .ok ["xa b1c b2c d e f g h i j1\n".toList] := by
  decide +kernel

/-- If a word before the last one matches two files, the last one is left as it is, although it
matches a file. -/
theorem runLine_wildcard_missed :
    let session := emptyFiles ["a1x".toList, "a2x".toList, "yb1".toList]
    let line := "echo a*`echo x y`b*".toList
    ((Action.expand "a*x".toList).start session).1 = .ok ["a1x".toList, "a2x".toList] ∧
    ((Action.expand "yb*".toList).start session).1 = .ok ["yb1".toList] ∧
    ((runLine line).start session).1 = .ok ["a1x a2x yb*\n".toList] := by
  decide +kernel

end MiniShell
