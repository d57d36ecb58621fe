/-
This file says which faults the built-in commands can end in. For each command
its perils are listed, and the list is exact: every fault of the command that a
session does not survive is of a listed kind, and each listed kind does occur.

Of two commands more has to be said than what they are made of: they close
their output, which needs an index, but on output without empty lines the index
is there.
-/

import MiniShell.Proofs.Composition
import MiniShell.Proofs.NamedInput

namespace MiniShell

/-! ### Output that can be closed -/

/-- None of the lines is empty. -/
def Filled (lines : List Text) : Prop := ∀ line ∈ lines, line ≠ []

/-- Where an action succeeds, it leaves the output as it is and gives a result as described. -/
def Gives {Result : Type} (post : Result → Prop) (action : Action Result) : Prop :=
  ∀ session result after, action.start session = (.ok result, after) →
    after.out = session.out ∧ post result

namespace Gives

variable {Result Other : Type} {post : Result → Prop}

theorem pure {result : Result} (holds : post result) :
    Gives post (Pure.pure result : Action Result) := by
  intro session other after ran
  obtain ⟨equal, rfl⟩ := Prod.mk.inj ran
  exact ⟨rfl, Except.ok.inj equal ▸ holds⟩

theorem throw (fault : Fault) : Gives post (throw fault : Action Result) :=
  fun _ _ _ ran => absurd (congrArg Prod.fst ran) (by simp)

theorem bind {between : Other → Prop} {action : Action Other} {next : Other → Action Result}
    (first : Gives between action) (onward : ∀ result, between result → Gives post (next result)) :
    Gives post (action >>= next) := by
  intro session result last ran
  obtain ⟨other, between, ended, followed⟩ := Action.start_bind_inv ran
  obtain ⟨same, holds⟩ := first session other between ended
  obtain ⟨further, reached⟩ := onward other holds between result last followed
  exact ⟨further.trans same, reached⟩

theorem get : Gives (fun _ => True) (MonadState.get : Action Session) := by
  intro session result after ran
  obtain ⟨_, rfl⟩ := Prod.mk.inj ran
  exact ⟨rfl, trivial⟩

theorem modify {change : Session → Session}
    (same : ∀ session, (change session).out = session.out) :
    Gives (fun _ => True) (modify change : Action PUnit) := by
  intro session result after ran
  obtain ⟨_, rfl⟩ := Prod.mk.inj ran
  exact ⟨same session, trivial⟩

theorem ite {condition : Prop} [Decidable condition] {action other : Action Result}
    (first : Gives post action) (second : Gives post other) :
    Gives post (if condition then action else other) := by
  split
  · exact first
  · exact second

theorem rephrase {action : Action Result} (gives : Gives post action) (rename : Fault → Fault) :
    Gives post (Action.rephrase rename action) := by
  intro session result after ran
  rw [Action.start_rephrase] at ran
  rcases ended : action.start session with ⟨fault | other, last⟩
  · rw [ended] at ran
    exact absurd (congrArg Prod.fst ran) (by simp)
  · rw [ended] at ran
    exact gives session result after (ended.trans ran)

theorem orFlaw (outcome : Except Pattern.Flaw Result) :
    Gives (fun result => outcome = .ok result) (Command.orFlaw outcome) := by
  cases outcome with
  | ok result => exact pure rfl
  | error flaw => exact throw _

theorem readLines (path : Text) : Gives Filled (Action.readLines path) := by
  have opened : Gives (fun _ => True) (Action.openFile path) := by
    intro session result after ran
    rw [start_openFile] at ran
    have same : after = session := by
      split at ran
      · exact (congrArg Prod.snd ran).symm
      · split at ran <;> exact (congrArg Prod.snd ran).symm
    exact ⟨by rw [same], trivial⟩
  refine opened.bind fun (trail, content) _ => ?_
  dsimp only
  split
  · exact throw _
  · exact pure fun line => Text.ne_nil_of_mem_lines

theorem someInputLines : Gives Filled Action.someInputLines := by
  have filled : Gives (fun _ => True) Action.fillInput := by
    refine (get.bind fun _ _ => pure trivial : Gives (fun _ => True) Action.currentInput).bind
      fun stream _ => get.bind fun _ _ => ?_
    refine bind (modify fun _ => rfl) fun _ _ => ?_
    split
    · exact pure trivial
    · exact throw _
  have read : Gives Filled Action.inputLines := by
    refine filled.bind fun stream _ => bind (modify fun _ => rfl) fun _ _ => ?_
    split
    · exact throw _
    · exact ite (throw _) (pure fun line => Text.ne_nil_of_mem_lines)
  exact read.bind fun lines filled => ite (throw _) (pure filled)

end Gives

/-- Where an action succeeds on output without empty lines, it leaves none. -/
def KeepsFilled (action : Action Unit) : Prop :=
  ∀ session after, Filled session.out → action.start session = (.ok ⟨⟩, after) → Filled after.out

namespace KeepsFilled

theorem emit {lines : List Text} (filled : Filled lines) : KeepsFilled (Action.emit lines) := by
  intro session after written ran
  obtain ⟨_, rfl⟩ := Prod.mk.inj ran
  exact List.forall_mem_append.mpr ⟨written, filled⟩

theorem after {Result : Type} {post : Result → Prop} {action : Action Result}
    {next : Result → Action Unit} (gives : Gives post action)
    (onward : ∀ result, post result → KeepsFilled (next result)) :
    KeepsFilled (action >>= next) := by
  intro session last written ran
  obtain ⟨result, between, ended, followed⟩ := Action.start_bind_inv ran
  obtain ⟨same, holds⟩ := gives session result between ended
  exact onward result holds between last (same ▸ written) followed

theorem ite {condition : Prop} [Decidable condition] {action other : Action Unit}
    (first : KeepsFilled action) (second : KeepsFilled other) :
    KeepsFilled (if condition then action else other) := by
  split
  · exact first
  · exact second

theorem rephrase {action : Action Unit} (keeps : KeepsFilled action) (rename : Fault → Fault) :
    KeepsFilled (Action.rephrase rename action) := by
  intro session last written ran
  rw [Action.start_rephrase] at ran
  rcases ended : action.start session with ⟨fault | _, between⟩
  · rw [ended] at ran
    exact absurd (congrArg Prod.fst ran) (by simp)
  · rw [ended] at ran
    exact keeps session last written (ended.trans ran)

theorem forM {items : List Text} {action : Text → Action Unit}
    (each : ∀ item, KeepsFilled (action item)) : KeepsFilled (items.forM action) := by
  induction items with
  | nil =>
    intro session after written ran
    obtain ⟨_, rfl⟩ := Prod.mk.inj ran
    exact written
  | cons item rest inductionHypothesis =>
    intro session after written ran
    obtain ⟨_, between, ended, others⟩ := Action.start_bind_inv ran
    exact inductionHypothesis between after (each item session between written ended) others

/-- Closing output without empty lines adds no peril. -/
theorem closing {perils : List Peril} {action : Action Unit} (keeps : KeepsFilled action)
    (made : Composed ⟨true, true, true⟩ perils action) {session after : Session} {fault : Fault}
    (written : Filled session.out)
    (ended : Action.start (do action; Command.endSomeOutput) session = (.error fault, after)) :
    fault.isWithin perils = true := by
  rcases Action.start_bind_fault_inv ended with failed | ⟨_, between, ran, failed⟩
  · exact made.within session fault after failed
  · have closed := Command.start_endSomeOutput (keeps session between written ran)
    exact absurd (congrArg Prod.fst (closed.symm.trans failed)) (by simp)

end KeepsFilled

/-- From no output at all, passing on all lines has no index out of range. -/
theorem cat_within {perils : List Peril} (refuses : .refusal ∈ perils) (arguments : List Text)
    {session after : Session} {fault : Fault} (written : Filled session.out)
    (ended : (Command.cat arguments).start session = (.error fault, after)) :
    fault.isWithin perils = true := by
  unfold Command.cat at ended
  split at ended
  · -- Reading and writing are taken together, as what comes before the output is closed.
    have read : KeepsFilled (Action.someInputLines >>= Action.emit) :=
      .after .someInputLines fun lines => .emit
    have closed : Action.start (do
        Action.someInputLines >>= Action.emit
        Command.endSomeOutput) session = (.error fault, after) := by
      rw [bind_assoc]
      exact ended
    exact read.closing (Composed.someInputLines.bind fun _ => .emit _) written closed
  · refine KeepsFilled.closing (.forM fun name => ?_) (.forM fun name => ?_) written ended
    · exact .after ((Gives.readLines _).rephrase _) fun lines => .emit
    · exact ((Composed.readLines refuses _).rephrase (.missingFile _)).bind fun _ => .emit _

/-- Neither has a search. -/
theorem grep_within {perils : List Peril} (refuses : .refusal ∈ perils)
    (patterns : .pattern ∈ perils) (arguments : List Text) {session after : Session}
    {fault : Fault} (written : Filled session.out)
    (ended : (Command.grep arguments).start session = (.error fault, after)) :
    fault.isWithin perils = true := by
  unfold Command.grep at ended
  split at ended
  · exact EndsWithin.throw rfl session fault after ended
  · refine Composed.within (?_ : Composed ⟨true, true, true⟩ perils _) session fault after ended
    exact .bind .someInputLines fun lines => (Composed.orFlaw patterns _).bind fun _ => .emit _
  · refine KeepsFilled.closing (.forM fun name => .rephrase ?_ _)
      (.forM fun name => .searchFile refuses patterns _ name _) written ended
    refine .after (.readLines name) fun lines filled => .after (.orFlaw _) fun found searched => ?_
    have foundFilled : Filled found := Command.matchingLines_solid filled searched
    refine .ite (.emit fun line member => ?_) (.emit foundFilled)
    obtain ⟨_, _, rfl⟩ := List.mem_map.mp member
    simp

/-- On an output of its own, a command ends within its perils. -/
theorem Program.isWithin_perils (program : Program) (arguments : List Text)
    {session after : Session} {fault : Fault} (blank : session.out = [])
    (ended : (program.run arguments).start session = (.error fault, after)) :
    fault.isWithin program.perils = true := by
  have filled : Filled session.out := by
    rw [blank]
    exact fun _ member => absurd member (by simp)
  by_cases isCat : program = .cat
  · subst isCat
    exact cat_within (by decide) arguments filled ended
  · by_cases isGrep : program = .grep
    · subst isGrep
      exact grep_within (by decide) (by decide) arguments filled ended
    · have closes : program = .cat ∨ program = .grep → .index ∈ program.perils :=
        fun either => absurd either (by simp [isCat, isGrep])
      exact (Composed.program program (fun _ => rfl) (fun _ => id) closes arguments).within session
        fault after ended

/-! ### Every peril occurs -/

/-- The peril that an outcome is, if it is one. -/
def perilOf {Result : Type} : Except Fault Result → Option Peril
  | .ok _ => none
  | .error fault => fault.peril?

/-- A session with a directory `d`, an empty file `e` and a file `f`, and with a line to read. -/
def mishapSession (location : Location) : Session where
  files := .directory
    [("d".toList, .empty), ("e".toList, .file []), ("f".toList, .file (Text.encode ['a']))]
  home := "/".toList
  location
  inputs := [{ ready := ['a'] }]

/-- A working directory and arguments that bring a command into a peril. -/
def Program.mishap (program : Program) : Peril → Location × List String
  | .refusal =>
    match program with
    | cat | head | tail | sort | uniq | wc => (.root, ["d"])
    | cd | ls | rmdir => (.root, ["f"])
    | mkdir | remove | touch => (.root, ["f/x"])
    | cp | mv => (.root, ["d", "d/x"])
    | cut => (.root, ["-b", "1", "d"])
    | grep => (.root, ["a", "d"])
    | sed => (.root, ["s/a/b/", "d"])
    | find => (⟨[], 1⟩, ["-name", "a"])
    | _ => (⟨[], 1⟩, [])
  | .index =>
    match program with
    | cp => (.root, ["-f", "f"])
    | cut => (.root, ["-b"])
    | mv => (.root, ["f", "x", "y"])
    | sed => (.root, ["s/a//", "f"])
    | _ => (.root, ["e"])
  | .pattern =>
    match program with
    | sed => (.root, ["s/(/b/", "f"])
    | _ => (.root, ["("])

theorem perilOf_mishap (program : Program) {peril : Peril} (member : peril ∈ program.perils) :
    perilOf ((program.run ((program.mishap peril).2.map String.toList)).start
      (mishapSession (program.mishap peril).1)).1 = some peril := by
  revert member
  cases program <;> cases peril <;> decide +kernel

theorem Fault.mem_of_isWithin {perils : List Peril} {fault : Fault} {peril : Peril}
    (within : fault.isWithin perils = true) (isPeril : fault.peril? = some peril) :
    peril ∈ perils := by
  obtain ⟨unlabelled, noStop⟩ := unlabelled_of_peril isPeril
  simpa [isWithin, unlabelled, noStop, isPeril] using within

/-- The perils of a command are exactly the faults it can end in that a session does not
survive. -/
theorem Program.mem_perils_iff (program : Program) (peril : Peril) :
    peril ∈ program.perils ↔ ∃ session arguments, session.out = [] ∧
      perilOf ((program.run arguments).start session).1 = some peril := by
  constructor
  · exact fun member => ⟨_, _, rfl, perilOf_mishap program member⟩
  · rintro ⟨session, arguments, blank, occurs⟩
    rcases ended : (program.run arguments).start session with ⟨fault | _, after⟩
    · rw [ended] at occurs
      have isPeril : fault.peril? = some peril := occurs
      exact Fault.mem_of_isWithin (program.isWithin_perils arguments blank ended) isPeril
    · rw [ended] at occurs
      exact absurd occurs (by simp [perilOf])

end MiniShell