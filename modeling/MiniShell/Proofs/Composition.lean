/-
This file shows what the built-in commands are made of and which faults they
end in. A command writes, looks at the files and the working directory, changes
them, and reads standard input to its end; so it is stepwise, and what holds of
every step holds of every command. A session reports the faults that have a
label, and a request to stop is no failure; what is left are three perils: an
index that is out of range, a flaw in a pattern, and a refusal of the file
system.

The commands are gone through once. What they are made of ends within perils
that are passed on to the places that need them, so each operation says once
what it adds.
-/

import MiniShell.Catalog.Entry
import MiniShell.Proofs.Stepwise
import MiniShell.Wildcard.Expansion

namespace MiniShell

/-! ### Perils -/

/-- The kinds of faults that end a session. -/
inductive Peril
  /-- A list, a text or a stack has no such item. -/
  | index
  /-- A text is no pattern, or no replacement. -/
  | pattern
  /-- The file system refused an operation. -/
  | refusal
  deriving DecidableEq, Repr

def Peril.all : List Peril := [.index, .pattern, .refusal]

theorem Peril.mem_all (peril : Peril) : peril ∈ all := by
  cases peril <;> decide

namespace Fault

/-- The peril that a fault is, if it is one. -/
def peril? : Fault → Option Peril
  | listIndex | textIndex | emptyStack | stackIndex => some .index
  | pattern (.malformed _ _ _) | pattern .repetition | pattern (.unknownGroup _) => some .pattern
  | system _ _ => some .refusal
  | _ => none

/-- Whether a session survives a fault, or the fault is a request to stop or one of some
perils. -/
def isWithin (perils : List Peril) (fault : Fault) : Bool :=
  fault.label?.isSome || fault.isStop || fault.peril?.any fun peril => perils.contains peril

theorem isWithin_of_peril {perils : List Peril} {fault : Fault} {peril : Peril}
    (isPeril : fault.peril? = some peril) (member : peril ∈ perils) :
    fault.isWithin perils = true := by
  simp [isWithin, isPeril, member]

/-- A flaw of a pattern has a label, or it is a peril. -/
theorem isWithin_pattern {perils : List Peril} (patterns : .pattern ∈ perils)
    (flaw : Pattern.Flaw) : (Fault.pattern flaw).isWithin perils = true := by
  cases flaw with
  | count digits => rfl
  | scripts => rfl
  | malformed reason position text => exact isWithin_of_peril rfl patterns
  | repetition => exact isWithin_of_peril rfl patterns
  | unknownGroup name => exact isWithin_of_peril rfl patterns

/-- A peril is not reported, and no request to stop. -/
theorem unlabelled_of_peril {fault : Fault} {peril : Peril} (isPeril : fault.peril? = some peril) :
    fault.label? = none ∧ fault.isStop = false := by
  unfold peril? at isPeril
  split at isPeril
  case h_9 => exact absurd isPeril (by simp)
  all_goals exact ⟨rfl, rfl⟩

/-- The only refusals are those of the file system. -/
theorem isWithin_of_refusal {perils : List Peril} {fault : Fault}
    (within : fault.isWithin [.refusal] = true)
    (notSystem : ∀ error paths, fault ≠ system error paths) :
    fault.isWithin perils = true := by
  have noRefusal : fault.peril? ≠ some .refusal := by
    intro isRefusal
    unfold peril? at isRefusal
    split at isRefusal
    case h_8 => exact notSystem _ _ rfl
    all_goals exact absurd isRefusal (by simp)
  simp only [isWithin, Bool.or_eq_true, Option.any_eq_true] at within ⊢
  rcases within with survived | ⟨peril, isPeril, member⟩
  · exact Or.inl survived
  · obtain rfl : peril = .refusal := by simpa using member
    exact absurd isPeril noRefusal

/-- A request to stop is not reported. -/
theorem unlabelled_of_isStop {fault : Fault} (stops : fault.isStop = true) :
    fault.label? = none := by
  unfold isStop at stops
  split at stops
  · rfl
  · rfl
  · exact absurd stops (by simp)

end Fault

/-! ### Ending within perils -/

section EndsWithin

variable {Result Other : Type} {perils : List Peril}

/-- Every fault that an action ends in is reported, asks to stop, or is one of some perils. -/
def EndsWithin (perils : List Peril) (action : Action Result) : Prop :=
  ∀ session fault after, action.start session = (.error fault, after) →
    fault.isWithin perils = true

namespace EndsWithin

theorem pure (result : Result) : EndsWithin perils (Pure.pure result : Action Result) :=
  fun _ _ _ ended => absurd (congrArg Prod.fst ended) (by simp)

theorem throw {fault : Fault} (within : fault.isWithin perils = true) :
    EndsWithin perils (throw fault : Action Result) := by
  intro session other after ended
  obtain rfl := Except.error.inj (congrArg Prod.fst ended)
  exact within

theorem bind {action : Action Result} {next : Result → Action Other}
    (first : EndsWithin perils action) (onward : ∀ result, EndsWithin perils (next result)) :
    EndsWithin perils (action >>= next) := by
  intro session fault last ended
  rcases Action.start_bind_fault_inv ended with failed | ⟨result, between, _, failed⟩
  · exact first session fault last failed
  · exact onward result between fault last failed

theorem sequential : Sequential fun Result (action : Action Result) =>
    EndsWithin perils action := ⟨pure, bind⟩

/-- Of the faults that an action ends in, those are left that its handler ends in. -/
theorem tryCatch {caught : List Peril} {action : Action Result} {handle : Fault → Action Result}
    (first : EndsWithin caught action)
    (onward : ∀ fault, fault.isWithin caught = true → EndsWithin perils (handle fault)) :
    EndsWithin perils (MonadExcept.tryCatch action handle) := by
  intro session fault last ended
  rw [Action.start_tryCatch] at ended
  rcases ran : action.start session with ⟨other | result, between⟩
  · rw [ran] at ended
    exact onward other (first session other between ran) between fault last ended
  · rw [ran] at ended
    exact absurd (congrArg Prod.fst ended) (by simp)

theorem rephrase {rename : Fault → Fault} {action : Action Result}
    (keeps : ∀ fault, fault.isWithin perils = true → (rename fault).isWithin perils = true)
    (first : EndsWithin perils action) : EndsWithin perils (Action.rephrase rename action) :=
  first.tryCatch fun fault within => throw (keeps fault within)

theorem get {next : Session → Action Result}
    (onward : ∀ session, EndsWithin perils (next session)) :
    EndsWithin perils (MonadState.get >>= next) :=
  fun session => onward session session

theorem modify (change : Session → Session) :
    EndsWithin perils (modify change : Action PUnit) :=
  fun _ _ _ ended => absurd (congrArg Prod.fst ended) (by simp)

theorem ite {condition : Prop} [Decidable condition] {action other : Action Result}
    (first : EndsWithin perils action) (second : EndsWithin perils other) :
    EndsWithin perils (if condition then action else other) := by
  split
  · exact first
  · exact second

theorem mono {others : List Peril} {action : Action Result} (within : EndsWithin perils action)
    (subset : ∀ peril ∈ perils, peril ∈ others) : EndsWithin others action := by
  intro session fault after ended
  have first := within session fault after ended
  simp only [Fault.isWithin, Bool.or_eq_true, Option.any_eq_true, List.contains_iff_mem]
    at first ⊢
  rcases first with reported | ⟨peril, isPeril, member⟩
  · exact Or.inl reported
  · exact Or.inr ⟨peril, isPeril, subset peril member⟩

/-! ### Standard input -/

theorem currentInput : EndsWithin perils Action.currentInput := get fun _ => pure _

theorem fillInput : EndsWithin perils Action.fillInput := by
  refine currentInput.bind fun stream => get fun session => ?_
  refine bind (modify _) fun _ => ?_
  split
  · exact pure _
  · exact throw rfl

theorem inputLines : EndsWithin perils Action.inputLines := by
  refine fillInput.bind fun stream => bind (modify _) fun _ => ?_
  split
  · exact throw rfl
  · exact ite (throw rfl) (pure _)

end EndsWithin

end EndsWithin

/-! ### Composed actions -/

/-- A fault that is no request to stop, and is reported or one of some perils. -/
structure Fault.Permitted (perils : List Peril) (fault : Fault) : Prop where
  calm : fault.isStop = false
  within : fault.isWithin perils = true

theorem Fault.Permitted.peril {perils : List Peril} {fault : Fault} {peril : Peril}
    (isPeril : fault.peril? = some peril) (member : peril ∈ perils) : fault.Permitted perils :=
  ⟨(unlabelled_of_peril isPeril).2, isWithin_of_peril isPeril member⟩

/-- A change of faults that makes permitted faults, and leaves requests to stop as they are. -/
def Rewords (perils : List Peril) (rename : Fault → Fault) : Prop :=
  ∀ fault, rename fault = fault ∨ fault.isStop = false ∧ (rename fault).Permitted perils

namespace Rewords

variable {perils : List Peril}

theorem missingFile (name : Text) : Rewords perils (Command.missingFile name) := by
  intro fault
  unfold Command.missingFile
  split
  · exact Or.inr ⟨rfl, rfl, rfl⟩
  · exact Or.inl rfl

theorem missingDirectory (name : Text) : Rewords perils (Command.missingDirectory name) := by
  intro fault
  unfold Command.missingDirectory
  split
  · exact Or.inr ⟨rfl, rfl, rfl⟩
  · exact Or.inl rfl

theorem searchFault (pattern name : Text) :
    Rewords perils (Command.searchFault pattern name) := by
  intro fault
  unfold Command.searchFault
  split
  · exact Or.inr ⟨rfl, rfl, rfl⟩
  · exact Or.inr ⟨rfl, rfl, rfl⟩
  · exact Or.inl rfl

end Rewords

/-- An action that is put together from the steps of commands and ends within some perils. -/
structure Composed (powers : Powers) (perils : List Peril) {Result : Type}
    (action : Action Result) : Prop where
  stepwise : Stepwise powers action
  within : EndsWithin perils action

/-- A handler passes a fault on, or answers it if it is no request to stop. -/
def Answers (powers : Powers) (perils : List Peril) (fault : Fault) {Result : Type}
    (reply : Action Result) : Prop :=
  reply = MonadExcept.throw fault ∨ fault.isStop = false ∧ Composed powers perils reply

namespace Composed

variable {Result Other : Type} {powers : Powers} {reads changes leaves : Bool}
  {perils : List Peril}

theorem pure (result : Result) : Composed powers perils (Pure.pure result) :=
  ⟨.pure result, .pure result⟩

theorem throw {fault : Fault} (permitted : fault.Permitted perils) :
    Composed powers perils (MonadExcept.throw fault : Action Result) :=
  ⟨.throw permitted.calm, .throw permitted.within⟩

theorem bind {action : Action Result} {next : Result → Action Other}
    (first : Composed powers perils action)
    (onward : ∀ result, Composed powers perils (next result)) :
    Composed powers perils (action >>= next) :=
  ⟨first.stepwise.bind fun result => (onward result).stepwise,
    first.within.bind fun result => (onward result).within⟩

theorem sequential : Sequential fun Result (action : Action Result) =>
    Composed powers perils action := ⟨pure, bind⟩

theorem handle {action : Action Result} {handle : Fault → Action Result}
    (first : Composed powers perils action)
    (answers : ∀ fault, Answers powers perils fault (handle fault)) :
    Composed powers perils (MonadExcept.tryCatch action handle) := by
  refine ⟨first.stepwise.tryCatch (fun fault calm => ?_) (fun fault stops => ?_),
    first.within.tryCatch fun fault within => ?_⟩ <;>
    rcases answers fault with passed | ⟨answered, made⟩
  · rw [passed]
    exact .throw calm
  · exact made.stepwise
  · exact passed
  · exact absurd (answered.symm.trans stops) Bool.false_ne_true
  · rw [passed]
    exact .throw within
  · exact made.within

theorem rephrase {rename : Fault → Fault} (rewords : Rewords perils rename)
    {action : Action Result} (first : Composed powers perils action) :
    Composed powers perils (Action.rephrase rename action) := by
  refine first.handle fun fault => ?_
  rcases rewords fault with same | ⟨calm, permitted⟩
  · exact Or.inl (congrArg MonadExcept.throw same)
  · exact Or.inr ⟨calm, throw permitted⟩

theorem get {next : Session → Action Result}
    (blind : ∀ session inputs, next { session with inputs } = next session)
    (onward : ∀ session, Composed powers perils (next session)) :
    Composed powers perils (MonadState.get >>= next) :=
  ⟨.get blind fun session => (onward session).stepwise,
    .get fun session => (onward session).within⟩

theorem modify {change : Session → Session}
    (blind : ∀ session inputs,
      change { session with inputs } = { change session with inputs }) :
    Composed ⟨reads, true, leaves⟩ perils (modify change : Action PUnit) :=
  ⟨.modify rfl blind, .modify change⟩

theorem map (change : Result → Other) {action : Action Result}
    (first : Composed powers perils action) : Composed powers perils (change <$> action) := by
  rw [map_eq_pure_bind]
  exact first.bind fun _ => pure _

theorem forM {items : List Other} {action : Other → Action PUnit}
    (each : ∀ item, Composed powers perils (action item)) :
    Composed powers perils (items.forM action) :=
  sequential.forM fun item _ => each item

theorem ite {condition : Prop} [Decidable condition] {action other : Action Result}
    (first : Composed powers perils action) (second : Composed powers perils other) :
    Composed powers perils (if condition then action else other) := by
  split
  · exact first
  · exact second

theorem orThrow {outcome : Except Fault Result} (fails : FailsAmong (·.Permitted perils) outcome) :
    Composed powers perils (Command.orThrow outcome) := by
  cases outcome with
  | ok result => exact pure result
  | error fault => exact throw (fails fault rfl)

/-! ### Output and standard input -/

theorem emit (lines : List Text) : Composed ⟨reads, true, leaves⟩ perils (Action.emit lines) :=
  modify fun _ _ => rfl

theorem someInputLines : Composed ⟨true, changes, leaves⟩ perils Action.someInputLines :=
  bind ⟨.inputLines rfl, .inputLines⟩ fun _ => ite (throw ⟨rfl, rfl⟩) (pure _)

theorem number (text : Text) : Composed powers perils (Action.number text) := by
  unfold Action.number
  split
  · exact pure _
  · exact throw ⟨rfl, rfl⟩

theorem endOutput (indexes : .index ∈ perils) :
    Composed ⟨reads, true, leaves⟩ perils Command.endOutput := by
  refine get (fun _ _ => rfl) fun session => ?_
  have fails : FailsAmong (·.Permitted perils) (Command.endLast session.out) :=
    .endLast (.peril rfl indexes) (.peril rfl indexes) _
  cases ended : Command.endLast session.out with
  | ok lines => exact modify fun _ _ => rfl
  | error fault => exact throw (fails fault ended)

theorem endSomeOutput (indexes : .index ∈ perils) :
    Composed ⟨reads, true, leaves⟩ perils Command.endSomeOutput :=
  get (fun _ _ => rfl) fun _ => ite (pure _) (endOutput indexes)

theorem orFlaw (patterns : .pattern ∈ perils) (outcome : Except Pattern.Flaw Result) :
    Composed powers perils (Command.orFlaw outcome) := by
  cases outcome with
  | ok result => exact pure result
  | error flaw => exact throw ⟨rfl, Fault.isWithin_pattern patterns flaw⟩

theorem substitution (expression : Text) :
    Composed powers perils (Command.substitution expression) := by
  unfold Command.substitution
  split
  · exact pure _
  · exact throw ⟨rfl, rfl⟩

/-! ### Questions about files -/

theorem pathExists (path : Text) : Composed powers perils (Action.pathExists path) :=
  get (fun _ _ => rfl) fun _ => pure _

theorem isDirectory (path : Text) : Composed powers perils (Action.isDirectory path) :=
  get (fun _ _ => rfl) fun _ => pure _

theorem isFile (path : Text) : Composed powers perils (Action.isFile path) :=
  get (fun _ _ => rfl) fun _ => pure _

theorem checkPath (path : Text) : Composed powers perils (Action.checkPath path) :=
  ite (throw ⟨rfl, rfl⟩) (pure _)

theorem requireDirectory (path : Text) :
    Composed powers perils (Command.requireDirectory path) :=
  (pathExists path).bind fun _ => ite (pure _) (throw ⟨rfl, rfl⟩)

/-! ### Files and directories -/

theorem putTree (trail : Trail) (tree : FileTree) :
    Composed ⟨reads, true, leaves⟩ perils (Action.putTree trail tree) :=
  modify fun _ _ => rfl

theorem removeTree (trail : Trail) :
    Composed ⟨reads, true, leaves⟩ perils (Action.removeTree trail) :=
  ⟨.removeTree rfl trail, .modify _⟩

section Files

variable (refuses : .refusal ∈ perils)
include refuses

theorem refuse (error : SystemError) (paths : List Text) :
    Composed powers perils (Action.refuse error paths : Action Result) :=
  throw (.peril rfl refuses)

theorem workingDirectory : Composed powers perils Action.workingDirectory := by
  refine get (fun _ _ => rfl) fun session => ?_
  split
  · exact pure _
  · exact refuse refuses _ _

theorem orRefuse (paths : List Text) (outcome : Except SystemError Result) :
    Composed powers perils (Action.orRefuse paths outcome) := by
  cases outcome with
  | ok result => exact pure result
  | error error => exact refuse refuses error paths

theorem goal (path : Text) : Composed powers perils (Action.goal path) :=
  (checkPath path).bind fun _ => get (fun _ _ => rfl) fun _ => orRefuse refuses _ _

theorem entryAt (paths : List Text) (location : Location) (name : Text) :
    Composed powers perils (Action.entryAt paths location name) :=
  get (fun _ _ => rfl) fun _ => orRefuse refuses _ _

theorem find (path : Text) : Composed powers perils (Action.find path) :=
  (checkPath path).bind fun _ => get (fun _ _ => rfl) fun _ => orRefuse refuses _ _

theorem listDirectory (path : Text) : Composed powers perils (Action.listDirectory path) :=
  (checkPath path).bind fun _ => get (fun _ _ => rfl) fun _ => orRefuse refuses _ _

theorem openFile (path : Text) : Composed powers perils (Action.openFile path) := by
  refine (find refuses path).bind fun found => ?_
  cases found with
  | directory location => exact refuse refuses _ _
  | file trail content => exact pure _

theorem readLines (path : Text) : Composed powers perils (Action.readLines path) := by
  refine (openFile refuses path).bind fun opened => ?_
  dsimp only
  cases Text.decode opened.2 with
  | error fault => exact throw ⟨rfl, rfl⟩
  | ok text => exact pure _

theorem createFile (path : Text) :
    Composed ⟨reads, true, leaves⟩ perils (Action.createFile path) := by
  refine (goal refuses path).bind fun goal => ?_
  split
  · refine (entryAt refuses _ _ _).bind fun entry => ?_
    split
    · exact refuse refuses _ _
    · exact pure _
    · exact ite (refuse refuses _ _) ((putTree _ _).bind fun _ => pure _)
  · exact refuse refuses _ _

theorem writeFile (path text : Text) :
    Composed ⟨reads, true, leaves⟩ perils (Action.writeFile path text) :=
  (createFile refuses path).bind fun _ => putTree _ _

theorem appendFile (path text : Text) :
    Composed ⟨reads, true, leaves⟩ perils (Action.appendFile path text) :=
  (createFile refuses path).bind fun _ => putTree _ _

theorem changeDirectory (path : Text) :
    Composed ⟨reads, true, leaves⟩ perils (Action.changeDirectory path) := by
  refine (find refuses path).bind fun found => ?_
  cases found with
  | directory location => exact modify fun _ _ => rfl
  | file trail content => exact refuse refuses _ _

theorem makeDirectory (path : Text) :
    Composed ⟨reads, true, leaves⟩ perils (Action.makeDirectory path) := by
  refine (goal refuses path).bind fun goal => ?_
  split
  · refine (entryAt refuses _ _ _).bind fun entry => ?_
    split
    · exact refuse refuses _ _
    · exact ite (refuse refuses _ _) (putTree _ _)
  · exact refuse refuses _ _

theorem makeDirectories (steps : Nat) (path : Text) :
    Composed ⟨reads, true, leaves⟩ perils (Action.makeDirectories steps path) := by
  induction steps generalizing path with
  | zero => exact pure _
  | succ steps inductionHypothesis =>
    unfold Action.makeDirectories
    refine (pathExists _).bind fun _ =>
      ite (bind ?parent fun _ => ite (pure _) ?within) ?here
    case parent =>
      refine (inductionHypothesis _).handle fun fault => ?_
      split
      · exact Or.inr ⟨rfl, pure _⟩
      · exact Or.inl rfl
    all_goals
      refine (makeDirectory refuses path).handle fun fault => ?_
      split
      · exact Or.inr ⟨rfl, (isDirectory path).bind fun _ =>
          ite (pure _) (throw (.peril rfl refuses))⟩
      · exact Or.inl rfl

theorem removeDirectory (path : Text) :
    Composed ⟨reads, true, leaves⟩ perils (Action.removeDirectory path) := by
  refine (goal refuses path).bind fun goal => ?_
  cases goal with
  | top | stay slash | rise slash => exact refuse refuses _ _
  | entry location name slash =>
    refine (entryAt refuses _ _ _).bind fun entry => ?_
    split
    · exact refuse refuses _ _
    · exact refuse refuses _ _
    · exact removeTree _
    · exact refuse refuses _ _

theorem removeFile (path : Text) :
    Composed ⟨reads, true, leaves⟩ perils (Action.removeFile path) := by
  refine (goal refuses path).bind fun goal => ?_
  split
  · refine (entryAt refuses _ _ _).bind fun entry => ?_
    split
    · exact refuse refuses _ _
    · exact refuse refuses _ _
    · exact ite (refuse refuses _ _) (removeTree _)
  · exact refuse refuses _ _

theorem rename (old new : Text) :
    Composed ⟨reads, true, leaves⟩ perils (Action.rename old new) := by
  have refused : ∀ error, Composed ⟨reads, true, leaves⟩ perils
      (Action.refuse error [old, new] : Action Unit) := fun error => refuse refuses error _
  unfold Action.rename
  refine (checkPath old).bind fun _ => (checkPath new).bind fun _ => ?_
  refine get (fun _ _ => rfl) fun session => (orRefuse refuses _ _).bind fun source => ?_
  refine get (fun _ _ => rfl) fun session => (orRefuse refuses _ _).bind fun target => ?_
  split
  · refine (entryAt refuses _ _ _).bind fun entry => ?_
    cases entry with
    | none => exact refused _
    | some tree =>
      refine (entryAt refuses _ _ _).bind fun replaced => ite (refused _) (ite (refused _)
        (ite (refused _) (ite (refused _) (ite (pure _) ?_))))
      split
      · exact refused _
      · exact ⟨.moveTree rfl _ _ _, .bind (.modify _) fun _ => .modify _⟩
  · exact refused _

end Files

/-! ### Walks and wildcards -/

/-- A walk passes over what it cannot list. -/
theorem listForWalk (path : Text) : Composed powers perils (Action.listForWalk path) := by
  have listed : Composed powers [.refusal] (some <$> Action.listDirectory path) :=
    (listDirectory (List.mem_singleton.mpr rfl) path).map some
  refine ⟨listed.stepwise.tryCatch (fun fault calm => ?_) (Fault.forall_isStop rfl rfl),
    listed.within.tryCatch fun fault within => ?_⟩
  · split
    · exact .pure _
    · exact .throw calm
  · split
    · exact .pure _
    · next notSystem => exact .throw (Fault.isWithin_of_refusal within notSystem)

theorem walkDown {visit : Action.Visit}
    (each : ∀ path directories files, Composed powers perils (visit path directories files))
    (steps : Nat) (path : Text) : Composed powers perils (Action.walkDown visit steps path) := by
  induction steps generalizing path with
  | zero => exact pure _
  | succ steps inductionHypothesis =>
    refine (listForWalk path).bind fun listed => ?_
    cases listed with
    | none => exact pure _
    | some entries => exact (each _ _ _).bind fun _ => forM fun _ => inductionHypothesis _

theorem walkUp {visit : Action.Visit}
    (each : ∀ path directories files, Composed powers perils (visit path directories files))
    (steps : Nat) (path : Text) : Composed powers perils (Action.walkUp visit steps path) := by
  induction steps generalizing path with
  | zero => exact pure _
  | succ steps inductionHypothesis =>
    refine (listForWalk path).bind fun listed => ?_
    cases listed with
    | none => exact pure _
    | some entries => exact (forM fun _ => inductionHypothesis _).bind fun _ => each _ _ _

theorem matchingNames (directory part : Text) (directoriesOnly : Bool) :
    Composed powers perils (Action.matchingNames directory part directoriesOnly) := by
  refine bind ((listForWalk _).bind fun listed => ?_) fun _ => pure _
  cases listed with
  | none => exact pure _
  | some entries => exact ite (pure _) (pure _)

theorem existingName (directory part : Text) :
    Composed powers perils (Action.existingName directory part) :=
  ite ((isDirectory _).bind fun _ => pure _) ((pathExists _).bind fun _ => pure _)

theorem expandPath (steps : Nat) (path : Text) (directoriesOnly : Bool) :
    Composed powers perils (Action.expandPath steps path directoriesOnly) := by
  induction steps generalizing path directoriesOnly with
  | zero => exact pure _
  | succ steps inductionHypothesis =>
    unfold Action.expandPath
    refine ite (ite ((isDirectory _).bind fun _ => pure _) ((pathExists _).bind fun _ => pure _))
      (ite (matchingNames _ _ _) (ite ((inductionHypothesis _ _).bind fun parents => ?_)
        ((pure _).bind fun parents => ?_)))
    all_goals
      refine bind (sequential.mapM fun directory _ => ?_) fun _ => pure _
      exact ite ((matchingNames _ _ _).bind fun _ => pure _)
        ((existingName _ _).bind fun _ => pure _)

/-- Looking for the names of files is never in peril. -/
theorem expand (word : Text) : Composed powers perils (Action.expand word) := expandPath _ _ _

/-! ### Commands that pass lines on -/

section Reading

variable (refuses : .refusal ∈ perils)
include refuses

theorem fileLines (name : Text) : Composed powers perils (Command.fileLines name) :=
  (readLines refuses name).rephrase (.missingFile name)

theorem linesOf (name : Text) : Composed ⟨true, changes, leaves⟩ perils (Command.linesOf name) :=
  ite someInputLines (fileLines refuses name)

theorem cat (indexes : .index ∈ perils) (arguments : List Text) :
    Composed ⟨true, true, leaves⟩ perils (Command.cat arguments) := by
  unfold Command.cat
  refine ite (someInputLines.bind fun _ => (emit _).bind fun _ => endSomeOutput indexes)
    (bind (forM fun _ => ?_) fun _ => endSomeOutput indexes)
  exact ((readLines refuses _).rephrase (.missingFile _)).bind fun _ => emit _

theorem someLines (name : Text) (pick : Int → List Text → List Text) (arguments : List Text) :
    Composed ⟨true, true, leaves⟩ perils (Command.someLines name pick arguments) := by
  have picked : ∀ file count, Composed ⟨true, true, leaves⟩ perils
      (Command.linesOf file >>= fun lines => Action.emit (pick count lines)) :=
    fun file _ => (linesOf refuses file).bind fun _ => emit _
  unfold Command.someLines
  split
  · exact picked _ _
  · exact picked _ _
  · exact ite (throw ⟨rfl, rfl⟩) ((number _).bind fun _ => picked _ _)
  · exact ite (throw ⟨rfl, rfl⟩) ((number _).bind fun _ => picked _ _)
  · exact throw ⟨rfl, rfl⟩

theorem endedLines (name : Text) : Composed powers perils (Command.endedLines name) := by
  refine (fileLines refuses name).bind fun lines => ?_
  split
  · exact pure _
  · exact pure _

theorem sort (arguments : List Text) :
    Composed ⟨true, true, leaves⟩ perils (Command.sort arguments) := by
  have lines : ∀ name : Text, Composed ⟨true, true, leaves⟩ perils
      (if name = [] then Action.someInputLines else Command.endedLines name) :=
    fun name => ite someInputLines (endedLines refuses name)
  unfold Command.sort
  split
  · exact (lines _).bind fun _ => emit _
  · exact ite ((lines _).bind fun _ => emit _) ((lines _).bind fun _ => emit _)
  · exact ite ((lines _).bind fun _ => emit _) (throw ⟨rfl, rfl⟩)
  · exact throw ⟨rfl, rfl⟩

theorem uniq (indexes : .index ∈ perils) (arguments : List Text) :
    Composed ⟨true, true, leaves⟩ perils (Command.uniq arguments) := by
  have fails (ignoreCase : Bool) (lines : List Text) :
      FailsAmong (·.Permitted perils) (Command.uniqueLines ignoreCase lines) :=
    .uniqueLines (.peril rfl indexes) _ _
  unfold Command.uniq
  split
  case h_4 => exact throw ⟨rfl, rfl⟩
  case' h_1 => refine someInputLines.bind fun lines => ?_
  case' h_2 =>
    refine ite (someInputLines.bind fun lines => ?_) ((fileLines refuses _).bind fun lines => ?_)
  case' h_3 => refine ite ((fileLines refuses _).bind fun lines => ?_) (throw ⟨rfl, rfl⟩)
  all_goals
    dsimp only
    split
    · exact emit _
    · next fault failed => exact throw (fails _ _ fault failed)

theorem fileTally (name : Text) : Composed powers perils (Command.fileTally name) :=
  (pathExists name).bind fun _ =>
    ite ((readLines refuses name).bind fun _ => pure _) (throw ⟨rfl, rfl⟩)

omit refuses in
theorem showTally (flags : List Text) (tally : Tally) :
    Composed ⟨reads, true, leaves⟩ perils (Command.showTally flags tally) := by
  have counters : Composed ⟨reads, true, leaves⟩ perils (Command.showCounters tally flags) := by
    induction flags with
    | nil => exact pure _
    | cons flag rest inductionHypothesis =>
      unfold Command.showCounters
      split
      · exact throw ⟨rfl, rfl⟩
      · exact (emit _).bind fun _ => inductionHypothesis
  exact ite (emit _) counters

theorem wc (arguments : List Text) :
    Composed ⟨true, true, leaves⟩ perils (Command.wc arguments) := by
  unfold Command.wc
  exact ite (someInputLines.bind fun _ => showTally _ _)
    ((sequential.mapM fun name _ => fileTally refuses name).bind fun _ => showTally _ _)

theorem cut (indexes : .index ∈ perils) (arguments : List Text) :
    Composed ⟨true, true, leaves⟩ perils (Command.cut arguments) := by
  have cuts (list : Text) (lines : List Text) : Composed ⟨true, true, leaves⟩ perils (do
      let ranges ← Command.orThrow (Command.ranges list)
      lines.forM fun line => do
        Action.emit [← Command.orThrow (Command.cutLine ranges line)]) :=
    (orThrow (.ranges (fun _ => ⟨rfl, rfl⟩) ⟨rfl, rfl⟩ (.peril rfl indexes) list)).bind fun _ =>
      forM fun _ => (orThrow (.cutLine (fun _ => ⟨rfl, rfl⟩) _ _)).bind fun _ => emit _
  unfold Command.cut
  refine ite (throw ⟨rfl, rfl⟩) (ite (throw ⟨rfl, rfl⟩) ?_)
  split
  · exact throw (.peril rfl indexes)
  · dsimp only
    split
    · exact someInputLines.bind (cuts _)
    · exact (fileLines refuses _).bind (cuts _)

section Patterns

variable (patterns : .pattern ∈ perils)
include patterns

/-- The search through one file. -/
theorem searchFile (pattern name : Text) (several : Prop) [Decidable several] :
    Composed ⟨reads, true, leaves⟩ perils (Action.rephrase (Command.searchFault pattern name) do
      let lines ← Action.readLines name
      let found ← Command.orFlaw (Command.matchingLines pattern lines)
      if several then Action.emit (found.map fun line => name ++ ':' :: line)
      else Action.emit found) := by
  refine rephrase (.searchFault pattern name) ?_
  exact (readLines refuses name).bind fun _ => (orFlaw patterns _).bind fun _ =>
    ite (emit _) (emit _)

theorem grep (indexes : .index ∈ perils) (arguments : List Text) :
    Composed ⟨true, true, leaves⟩ perils (Command.grep arguments) := by
  unfold Command.grep
  split
  · exact throw ⟨rfl, rfl⟩
  · exact someInputLines.bind fun _ => (orFlaw patterns _).bind fun _ => emit _
  · exact bind (forM fun name => searchFile refuses patterns _ name _)
      fun _ => endSomeOutput indexes

theorem substituteInFile (indexes : .index ∈ perils) (substitution : Command.Substitution)
    (name : Text) : Composed ⟨reads, true, leaves⟩ perils
      (Command.substituteInFile substitution name) := by
  have replaces : Composed ⟨reads, true, leaves⟩ perils (do
      let lines ← Action.readLines name
      Action.writeFile name []
      lines.forM fun line => do
        let changed ← Command.orFlaw (Command.substitute substitution line)
        Action.appendFile name changed
        Action.emit [changed]
      Command.endOutput) :=
    (readLines refuses name).bind fun _ => (writeFile refuses name _).bind fun _ =>
      (forM fun _ => (orFlaw patterns _).bind fun _ =>
        (appendFile refuses name _).bind fun _ => emit _).bind fun _ => endOutput indexes
  exact (pathExists name).bind fun _ => ite (bind (throw ⟨rfl, rfl⟩) fun _ => replaces) replaces

theorem sed (indexes : .index ∈ perils) (arguments : List Text) :
    Composed ⟨true, true, leaves⟩ perils (Command.sed arguments) := by
  unfold Command.sed
  split
  · exact (substitution _).bind fun _ => someInputLines.bind fun _ =>
      (forM fun _ => (orFlaw patterns _).bind fun _ => emit _).bind fun _ => endOutput indexes
  · exact (substitution _).bind fun _ => substituteInFile refuses patterns indexes _ _
  · exact throw ⟨rfl, rfl⟩

end Patterns

end Reading

/-! ### Commands that work on files -/

theorem copyTarget (source target : Text) :
    Composed powers perils (Command.copyTarget source target) := by
  have place : Composed powers perils (do
      if ← Action.isDirectory target then return Text.joinPath target (Text.baseName source)
      return target) :=
    (isDirectory target).bind fun _ => ite (pure _) (pure _)
  exact (isFile source).bind fun _ => ite (pure _) ((isDirectory source).bind fun _ =>
    ite ((isFile target).bind fun _ => ite (bind (throw ⟨rfl, rfl⟩) fun _ => place) place)
      (throw ⟨rfl, rfl⟩))

section Working

variable (refuses : .refusal ∈ perils)
include refuses

theorem touch (arguments : List Text) :
    Composed ⟨reads, true, leaves⟩ perils (Command.touch arguments) := by
  unfold Command.touch
  split
  · exact (pathExists _).bind fun _ => ite (throw ⟨rfl, rfl⟩) (writeFile refuses _ _)
  · exact throw ⟨rfl, rfl⟩

theorem remove (arguments : List Text) :
    Composed ⟨reads, true, leaves⟩ perils (Command.remove arguments) := by
  unfold Command.remove
  split
  · refine (isDirectory _).bind fun _ => ite (throw ⟨rfl, rfl⟩)
      ((removeFile refuses _).rephrase fun fault => ?_)
    split
    · exact Or.inr ⟨rfl, rfl, rfl⟩
    · exact Or.inl rfl
  · exact throw ⟨rfl, rfl⟩

theorem copyText (source target : Text) :
    Composed ⟨reads, true, leaves⟩ perils (Command.copyText source target) :=
  (readLines refuses source).bind fun _ => writeFile refuses _ _

theorem absoluteParts (path : Text) : Composed powers perils (Command.absoluteParts path) :=
  ite (pure _) ((workingDirectory refuses).bind fun _ => pure _)

theorem copyDirectory (source target : Text) :
    Composed ⟨reads, true, leaves⟩ perils (Command.copyDirectory source target) :=
  walkDown (fun _ _ _ => (absoluteParts refuses _).bind fun _ =>
    (absoluteParts refuses _).bind fun _ => (makeDirectories refuses _ _).bind fun _ =>
      forM fun _ => copyText refuses _ _) _ _

theorem copy (source target : Text) (force recursive : Bool) :
    Composed ⟨reads, true, leaves⟩ perils (Command.copy source target force recursive) := by
  have copies : ∀ place, Composed ⟨reads, true, leaves⟩ perils (if recursive then do
      if ← Action.isDirectory source then Command.copyDirectory source target
      else MonadExcept.throw .copiesFileRecursively
    else Command.copyText source place) := fun place =>
    ite ((isDirectory source).bind fun _ =>
      ite (copyDirectory refuses source target) (throw ⟨rfl, rfl⟩)) (copyText refuses source place)
  exact (copyTarget source target).bind fun place => (pathExists place).bind fun _ =>
    ite (bind (throw ⟨rfl, rfl⟩) fun _ => copies place) (copies place)

theorem cp (indexes : .index ∈ perils) (arguments : List Text) :
    Composed ⟨reads, true, leaves⟩ perils (Command.cp arguments) := by
  have fails : FailsAmong (·.Permitted perils) (Command.copyOptions false false arguments) :=
    .copyOptions (.peril rfl indexes) (fun _ => ⟨rfl, rfl⟩) _ _ _
  unfold Command.cp
  refine ite (throw ⟨rfl, rfl⟩) ?_
  split
  · next fault failed => exact throw (fails fault failed)
  · exact copy refuses _ _ _ _
  · exact throw (.peril rfl indexes)

theorem move (source target : Text) (force : Bool) :
    Composed ⟨reads, true, leaves⟩ perils (Command.move source target force) := by
  have moves : Composed ⟨reads, true, leaves⟩ perils (do
      if ← Action.isDirectory target then
        Action.rename source (Text.joinPath target (Text.baseName source))
      else if (← Action.pathExists target) && !force then MonadExcept.throw .moveTargetExists
      else Action.rename source target) :=
    (isDirectory target).bind fun _ => ite (rename refuses _ _)
      ((pathExists target).bind fun _ => ite (throw ⟨rfl, rfl⟩) (rename refuses _ _))
  exact (pathExists source).bind fun _ => ite (bind (throw ⟨rfl, rfl⟩) fun _ => moves) moves

theorem mv (indexes : .index ∈ perils) (arguments : List Text) :
    Composed ⟨reads, true, leaves⟩ perils (Command.mv arguments) := by
  have pairs : ∀ force arguments, Composed ⟨reads, true, leaves⟩ perils
      (Command.movePairs force arguments) := by
    intro force arguments
    fun_induction Command.movePairs force arguments with
    | case1 => exact pure _
    | case2 => exact throw (.peril rfl indexes)
    | case3 source target rest inductionHypothesis =>
      exact (move refuses _ _ _).bind fun _ => inductionHypothesis
  unfold Command.mv
  refine ite (throw ⟨rfl, rfl⟩) ?_
  split
  · exact ite (pairs _ _) (pairs _ _)
  · exact pure _

theorem cd (arguments : List Text) :
    Composed ⟨reads, true, leaves⟩ perils (Command.cd arguments) := by
  unfold Command.cd
  split
  · exact (changeDirectory refuses _).rephrase (.missingDirectory _)
  · exact throw ⟨rfl, rfl⟩

theorem ls (arguments : List Text) :
    Composed ⟨reads, true, leaves⟩ perils (Command.ls arguments) := by
  have lists : ∀ path, Composed ⟨reads, true, leaves⟩ perils (do
      let entries ← Action.rephrase (Command.missingDirectory path) (Action.listDirectory path)
      let names := (entries.map Prod.fst).filter fun name => !Text.isHidden name
      Action.emit (names.map fun name => name ++ ['\n'])) := fun path =>
    ((listDirectory refuses path).rephrase (.missingDirectory path)).bind fun _ => emit _
  unfold Command.ls
  dsimp only
  split
  · exact (workingDirectory refuses).bind lists
  · exact (pure _).bind lists
  · exact bind (throw ⟨rfl, rfl⟩) lists

theorem mkdir (arguments : List Text) :
    Composed ⟨reads, true, leaves⟩ perils (Command.mkdir arguments) := by
  unfold Command.mkdir
  split
  · refine (makeDirectory refuses _).rephrase fun fault => ?_
    split
    · exact Or.inr ⟨rfl, rfl, rfl⟩
    · exact Or.inl rfl
  · exact throw ⟨rfl, rfl⟩

theorem removeContents (path : Text) :
    Composed ⟨reads, true, leaves⟩ perils (Command.removeContents path) :=
  walkUp (fun _ _ _ => (forM fun _ => removeFile refuses _).bind fun _ =>
    forM fun _ => removeDirectory refuses _) _ _

theorem rmdir (arguments : List Text) :
    Composed ⟨reads, true, leaves⟩ perils (Command.rmdir arguments) := by
  unfold Command.rmdir
  split
  · exact (requireDirectory _).bind fun _ =>
      ((listDirectory refuses _).bind fun _ => pure _).bind fun _ =>
        ite (removeDirectory refuses _) (throw ⟨rfl, rfl⟩)
  · exact ite ((requireDirectory _).bind fun _ => (removeContents refuses _).bind fun _ =>
      removeDirectory refuses _) (throw ⟨rfl, rfl⟩)
  · exact throw ⟨rfl, rfl⟩

theorem findByName (arguments : List Text) :
    Composed ⟨reads, true, leaves⟩ perils (Command.find arguments) := by
  have below : ∀ directory shown pattern, Composed ⟨reads, true, leaves⟩ perils
      (Command.findBelow directory shown pattern) := fun _ _ _ =>
    (isDirectory _).bind fun _ => ite ((listDirectory refuses _).bind fun _ => emit _) (pure _)
  unfold Command.find
  split
  · exact ite ((workingDirectory refuses).bind fun _ => below _ _ _) (throw ⟨rfl, rfl⟩)
  · exact ite ((workingDirectory refuses).bind fun _ => (isDirectory _).bind fun _ =>
      ite (below _ _ _) (throw ⟨rfl, rfl⟩)) (throw ⟨rfl, rfl⟩)
  · exact throw ⟨rfl, rfl⟩
  · exact throw ⟨rfl, rfl⟩

end Working

theorem color (arguments : List Text) :
    Composed ⟨reads, true, leaves⟩ perils (Command.color arguments) := by
  unfold Command.color
  refine ite (throw ⟨rfl, rfl⟩) ?_
  split
  · exact emit _
  · exact throw ⟨rfl, rfl⟩

theorem font (arguments : List Text) :
    Composed ⟨reads, true, leaves⟩ perils (Command.font arguments) := by
  unfold Command.font
  split
  · split
    · exact emit _
    · exact throw ⟨rfl, rfl⟩
  · exact throw ⟨rfl, rfl⟩

end Composed

/-! ### All commands -/

/-- The perils of a command. -/
def Program.perils : Program → List Peril
  | color | echo | exit | font => []
  | cat | cd | find | head | ls | mkdir | pwd | remove | rmdir | sort | tail | touch | wc =>
    [.refusal]
  | cp | cut | mv | uniq => [.refusal, .index]
  | grep => [.refusal, .pattern]
  | sed => [.refusal, .pattern, .index]

/-- Every command is composed, `exit` alone ends the conversation, and a command ends within its
perils. Where output has been written before, two more commands may fail to close it. -/
theorem Composed.program (program : Program) {leaves : Bool}
    (stays : program = .exit → leaves = true) {perils : List Peril}
    (includes : ∀ peril ∈ program.perils, peril ∈ perils)
    (closes : program = .cat ∨ program = .grep → .index ∈ perils) (arguments : List Text) :
    Composed ⟨true, true, leaves⟩ perils (program.run arguments) := by
  cases program with
  | cat => exact .cat (includes _ (by decide)) (closes (by simp)) arguments
  | cd => exact .cd (includes _ (by decide)) arguments
  | color => exact .color arguments
  | cp => exact .cp (includes _ (by decide)) (includes _ (by decide)) arguments
  | cut => exact .cut (includes _ (by decide)) (includes _ (by decide)) arguments
  | echo => exact .emit _
  | exit => exact .bind (.modify fun _ _ => rfl) fun _ => ⟨.leave (stays rfl), .throw rfl⟩
  | find => exact .findByName (includes _ (by decide)) arguments
  | font => exact .font arguments
  | grep =>
    exact .grep (includes _ (by decide)) (includes _ (by decide)) (closes (by simp)) arguments
  | head => exact .someLines (includes _ (by decide)) _ _ arguments
  | ls => exact .ls (includes _ (by decide)) arguments
  | mkdir => exact .mkdir (includes _ (by decide)) arguments
  | mv => exact .mv (includes _ (by decide)) (includes _ (by decide)) arguments
  | pwd => exact (workingDirectory (includes _ (by decide))).bind fun _ => .emit _
  | remove => exact .remove (includes _ (by decide)) arguments
  | rmdir => exact .rmdir (includes _ (by decide)) arguments
  | sed =>
    exact .sed (includes _ (by decide)) (includes _ (by decide)) (includes _ (by decide)) arguments
  | sort => exact .sort (includes _ (by decide)) arguments
  | tail => exact .someLines (includes _ (by decide)) _ _ arguments
  | touch => exact .touch (includes _ (by decide)) arguments
  | uniq => exact .uniq (includes _ (by decide)) (includes _ (by decide)) arguments
  | wc => exact .wc (includes _ (by decide)) arguments

/-- Whatever has been written before it, an entry ends within all perils. -/
theorem Composed.entry {entry : Entry} {leaves : Bool}
    (stays : entry.program? = some .exit → leaves = true) (arguments : List Text) :
    Composed ⟨true, true, leaves⟩ Peril.all (entry.run arguments) := by
  have runs (program : Program) (stays : some program = some .exit → leaves = true) :
      Composed ⟨true, true, leaves⟩ Peril.all (program.run arguments) :=
    .program program (fun same => stays (congrArg some same)) (fun peril _ => peril.mem_all)
      (fun _ => Peril.mem_all _) arguments
  induction entry with
  | bare program => exact runs program stays
  | helpful program => exact ite (emit _) (runs program stays)
  | overview => exact ite (emit _) (throw ⟨rfl, rfl⟩)
  | guarded entry inductionHypothesis =>
    refine (inductionHypothesis stays).handle fun fault => ?_
    cases stops : fault.isStop with
    | true => exact Or.inl (if_pos rfl)
    | false => exact Or.inr ⟨stops, emit _⟩

theorem Composed.catalog (name : Text) (arguments : List Text) :
    Composed ⟨true, true, true⟩ Peril.all (Catalog.run name arguments) := by
  unfold Catalog.run
  split
  · exact entry (fun _ => rfl) arguments
  · exact throw ⟨rfl, rfl⟩

namespace Stepwise

variable {Result : Type} {powers : Powers} {reads leaves : Bool}

theorem pathExists (path : Text) : Stepwise powers (Action.pathExists path) :=
  (Composed.pathExists path : Composed powers [] _).stepwise

theorem isDirectory (path : Text) : Stepwise powers (Action.isDirectory path) :=
  (Composed.isDirectory path : Composed powers [] _).stepwise

theorem checkPath (path : Text) : Stepwise powers (Action.checkPath path) :=
  (Composed.checkPath path : Composed powers [] _).stepwise

theorem listForWalk (path : Text) : Stepwise powers (Action.listForWalk path) :=
  (Composed.listForWalk path : Composed powers [] _).stepwise

theorem expand (word : Text) : Stepwise powers (Action.expand word) :=
  (Composed.expand word : Composed powers [] _).stepwise

theorem copyTarget (source target : Text) : Stepwise powers (Command.copyTarget source target) :=
  (Composed.copyTarget source target : Composed powers [] _).stepwise

theorem refuse (error : SystemError) (paths : List Text) :
    Stepwise powers (Action.refuse error paths : Action Result) := throw rfl

theorem orRefuse (paths : List Text) (outcome : Except SystemError Result) :
    Stepwise powers (Action.orRefuse paths outcome) :=
  (Composed.orRefuse (Peril.mem_all _) paths outcome).stepwise

theorem entryAt (paths : List Text) (location : Location) (name : Text) :
    Stepwise powers (Action.entryAt paths location name) :=
  (Composed.entryAt (Peril.mem_all _) paths location name).stepwise

theorem openFile (path : Text) : Stepwise powers (Action.openFile path) :=
  (Composed.openFile (Peril.mem_all _) path).stepwise

theorem writeFile (path text : Text) :
    Stepwise ⟨reads, true, leaves⟩ (Action.writeFile path text) :=
  (Composed.writeFile (Peril.mem_all _) path text).stepwise

theorem appendFile (path text : Text) :
    Stepwise ⟨reads, true, leaves⟩ (Action.appendFile path text) :=
  (Composed.appendFile (Peril.mem_all _) path text).stepwise

theorem entry {entry : Entry} (stays : entry.program? = some .exit → leaves = true)
    (arguments : List Text) : Stepwise ⟨true, true, leaves⟩ (entry.run arguments) :=
  (Composed.entry stays arguments).stepwise

theorem catalog (name : Text) (arguments : List Text) :
    Stepwise ⟨true, true, true⟩ (Catalog.run name arguments) :=
  (Composed.catalog name arguments).stepwise

end Stepwise

namespace EndsWithin

variable {perils : List Peril}

theorem expand (word : Text) : EndsWithin perils (Action.expand word) :=
  (Composed.expand word : Composed ⟨true, true, true⟩ perils _).within

theorem catalog (name : Text) (arguments : List Text) :
    EndsWithin Peril.all (Catalog.run name arguments) :=
  (Composed.catalog name arguments).within

variable (refuses : .refusal ∈ perils)
include refuses

theorem openFile (path : Text) : EndsWithin perils (Action.openFile path) :=
  (Composed.openFile refuses path : Composed ⟨true, true, true⟩ perils _).within

theorem writeFile (path text : Text) : EndsWithin perils (Action.writeFile path text) :=
  (Composed.writeFile refuses path text : Composed ⟨true, true, true⟩ perils _).within

theorem appendFile (path text : Text) : EndsWithin perils (Action.appendFile path text) :=
  (Composed.appendFile refuses path text : Composed ⟨true, true, true⟩ perils _).within

end EndsWithin

end MiniShell
