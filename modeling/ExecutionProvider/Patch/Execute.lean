import ExecutionProvider.Filesystem.Mutations
import ExecutionProvider.Patch.Diff
import ExecutionProvider.Patch.Reader
import ExecutionProvider.Patch.Replacements
import ExecutionProvider.Patch.Target
import ExecutionProvider.Protocol.FileResults
import ExecutionProvider.Protocol.JsonSize

/-!
# Applying a patch

The sections of a patch are planned one after another, each on what the sections before it leave of
the files. When all of them are planned, the files that were read are read again. Then the steps are
made one by one, each after another look at its files. The receipt says what was done.

## Main definitions

* `patchSections`: the sections of a patch in either format.
* `planSection`: the step that a section makes, given what was planned before.
* `commitStep`: one step.
* `execute`: the receipt of a patch.
-/

namespace ExecutionProvider.Patch

open Filesystem

/-! ### Limits -/

def maxPatchFiles : ℕ := 32

def maxPatchEdits : ℕ := 256

def maxPatchAggregateBytes : ℕ := 20 * 1024 * 1024

def maxPatchResultBytes : ℕ := 1700000

/-! ### Receipts -/

namespace PatchReceipt

/-- The receipt of a patch of which nothing was done yet. -/
def new (id : String) : PatchReceipt := ⟨id, .applied, true, [], "", false, none⟩

/-- The receipt of a patch that ends with an error. It is uncertain what became of the section that
failed if so said. -/
def fail (receipt : PatchReceipt) (error : Error) (sectionIndex edit : Option ℕ)
    (uncertain : Bool) : PatchReceipt :=
  { receipt with
    status := if uncertain || receipt.changes ≠ [] then .partly else .rejected
    changesExact := !uncertain
    error := some ⟨error.code, error.message, sectionIndex, edit⟩ }

end PatchReceipt

/-! ### Sections -/

/-- The parser always has a result. -/
theorem parseCodex_isSome (text : String) : (parseCodex text).isSome := by
  rw [parseCodex_eq_read]
  rfl

/-- The sections of a patch. -/
def patchSections : PatchInput → Result (List Section)
  | .codex text =>
    if maxPatchBytes < text.utf8ByteSize then .error ⟨.resourceLimit, "patch text exceeds 2 MiB"⟩
    else (parseCodex text).get (parseCodex_isSome text)
  | .textReplacements files =>
    if files = [] ∨ maxPatchFiles < files.length ∨ files.any fun file => file.edits.isEmpty then
      .error (.invalid "replacement files and edits must be nonempty and within limits")
    else .ok (files.map .replace)

/-- The number of edits of a section. -/
def Section.edits : Section → ℕ
  | replace file => file.edits.length
  | update _ _ chunks => chunks.length
  | _ => 1

/-- Whether a section removes the file that it names. -/
def Section.removes : Section → Bool
  | delete _ => true
  | update _ moveTo _ => moveTo.isSome
  | _ => false

/-- Whether a section replaces texts. -/
def Section.replaces : Section → Bool
  | replace _ => true
  | _ => false

/-! ### Reading -/

/-- The content of a file, when there is one. -/
def readOptional (path : String) (limit : ℕ) : FileM (Option (List UInt8)) :=
  tryCatch (do return some (← readFileAt path limit)) fun e =>
    if e.code = .notFound then return none else throw e

/-- A file is still as it was. -/
def verify (path : String) (expected : Option (List UInt8)) (limit : ℕ) : FileM Unit := do
  let current ← readOptional path limit
  if current ≠ expected then
    throw ⟨.preconditionFailed, "file changed before commit: " ++ path⟩

/-! ### The plan -/

/-- The content of a file before the patch, and after the sections that were planned. -/
structure View where
  original : Option (List UInt8)
  current : Option (List UInt8)

/-- What a section does: the files, and their contents before and after it. -/
structure Step where
  kind : PatchChangeKind
  path : String
  destination : Option String
  before : Option (List UInt8)
  after : Option (List UInt8)
  destinationBefore : Option (List UInt8)
  sectionIndex : ℕ

/-- What was planned so far: the files that were read, the paths that name them, the bytes read and
planned, and the work of matching. -/
structure PlanState where
  view : Table (List Path.Component) (String × View)
  aliases : Aliases
  aggregate : ℕ
  work : ℕ

/-- The plan before the first section. -/
def PlanState.init : PlanState := ⟨∅, ∅, 0, 0⟩

/-- A plan after a file was named. -/
def PlanState.target (plan : PlanState) (cwd input : String) : FileM (String × PlanState) := do
  let (path, aliases) ← Patch.target cwd input plan.aliases
  return (path, { plan with aliases := aliases })

/-- What is planned of a file. It is read when it is named first. -/
def PlanState.state (plan : PlanState) (path : String) (limit : ℕ) :
    FileM (View × PlanState) := do
  match plan.view.lookup (Path.components path) with
  | some (_, view) => return (view, plan)
  | none =>
    let original ← readOptional path limit
    let aggregate := plan.aggregate + original.elim 0 List.length
    if maxPatchAggregateBytes < aggregate then
      throw ⟨.resourceLimit, "aggregate original bytes exceed 20 MiB"⟩
    let view := ⟨original, original⟩
    return (view, { plan with
      view := plan.view.insert (Path.components path) (path, view)
      aggregate := aggregate })

/-- What is planned of a file is replaced. -/
def PlanState.setCurrent (plan : PlanState) (path : String) (content : Option (List UInt8)) :
    PlanState :=
  { plan with view := plan.view.modify (Path.components path) fun row =>
      (row.1, { row.2 with current := content }) }

/-- Planning, whose errors may name an edit. -/
abbrev PlanM := ExceptT (Error × Option ℕ) (Program SysCall SysCall.Answer)

/-- Work on files whose errors name no edit. -/
def withoutEdit {α : Type} (p : FileM α) : PlanM α := ExceptT.adapt (fun e => (e, none)) p

/-- The text of a file that is to be changed. -/
def sourceText (before : Option (List UInt8)) (missing encoding : String) : PlanM String := do
  match before with
  | none => throw (⟨.notFound, missing⟩, none)
  | some data =>
    match String.ofUtf8? data with
    | none => throw (.invalid encoding, none)
    | some text => return text

/-- The file that a section moves to, if it does, with its content, and the plan after it was
named. -/
def planMove (cwd path : String) (moveTo : Option String) (limit : ℕ) (plan : PlanState) :
    PlanM (Option (String × Option (List UInt8)) × PlanState) := do
  match moveTo with
  | none => return (none, plan)
  | some moveTo =>
    let (destination, plan) ← withoutEdit (plan.target cwd moveTo)
    if Path.components destination = Path.components path then
      throw (.invalid "move destination is the source", none)
    let (view, plan) ← withoutEdit (plan.state destination limit)
    return (some (destination, view.current), plan)

/-- What a section does with the file that it names: the kind of the change, the file that it moves
to with its content, and the content after it. -/
def planChange (s : Section) (cwd path : String) (before : Option (List UInt8)) (limit : ℕ)
    (plan : PlanState) : PlanM (PatchChangeKind × Option (String × Option (List UInt8)) ×
      Option (List UInt8) × PlanState) := do
  match s with
  | .add _ content => return (.add, none, some content.utf8, plan)
  | .delete _ =>
    if before = none then throw (⟨.notFound, "file to delete does not exist"⟩, none)
    return (.delete, none, none, plan)
  | .update _ moveTo chunks =>
    let text ← sourceText before "file to update does not exist" "patch source is not UTF-8"
    match applyCodex text chunks plan.work with
    | .error e => throw (e, none)
    | .ok (modified, work) =>
      let (destination, plan) ← planMove cwd path moveTo limit { plan with work := work }
      return (if destination.isSome then .move else .update, destination, some modified.utf8, plan)
  | .replace file =>
    let text ← sourceText before "replacement target does not exist"
      "replacement source is not UTF-8"
    match applyReplacements text file.edits plan.work with
    | (.error (e, edit), _) => throw (e, some edit)
    | (.ok modified, work) =>
      return (.update, none, some modified.utf8, { plan with work := work })

/-- The source of a section that removes it is no symbolic link. -/
def checkSource (cwd : String) (s : Section) : PlanM Unit := do
  if s.removes then
    let lexical := if Path.isAbsolute s.path then s.path else Path.join cwd s.path
    let metadata ← withoutEdit (attempt (sys (.symlinkMetadata lexical)))
    if metadata.toOption.any Metadata.isSymlink then
      throw (.invalid "delete and move source must not be a symlink", none)

/-- The step that a section makes, and the plan after it. -/
def planSection (s : Section) (index : ℕ) (cwd : String) (limit : ℕ) (plan : PlanState) :
    PlanM (Step × PlanState) := do
  let (path, plan) ← withoutEdit (plan.target cwd s.path)
  if s.replaces && (plan.view.lookup (Path.components path)).isSome then
    throw (.invalid "replacement file appears more than once", none)
  checkSource cwd s
  let (view, plan) ← withoutEdit (plan.state path limit)
  let (kind, destination, after, plan) ← planChange s cwd path view.current limit plan
  if after.any fun bytes => limit < bytes.length then
    throw (⟨.resourceLimit, "resulting file exceeds the configured limit (at most 5 MiB)"⟩, none)
  let aggregate := plan.aggregate + after.elim 0 List.length
  if maxPatchAggregateBytes < aggregate then
    throw (⟨.resourceLimit, "aggregate planned bytes exceed 20 MiB"⟩, none)
  let (_, plan) ← withoutEdit ({ plan with aggregate := aggregate }.state path limit)
  let plan := plan.setCurrent path (if destination.isSome then none else after)
  match destination with
  | none =>
    return (⟨kind, path, none, view.current, after, none, index⟩, plan)
  | some (destination, destinationBefore) =>
    let (_, plan) ← withoutEdit (plan.state destination limit)
    return (⟨kind, path, some destination, view.current, after, destinationBefore, index⟩,
      plan.setCurrent destination after)

/-- The steps of sections from an index on, and the plan after them. An error names a section. -/
def planSections (cwd : String) (limit : ℕ) : ℕ → List Section → PlanState →
    ExceptT (Error × ℕ × Option ℕ) (Program SysCall SysCall.Answer) (List Step × PlanState)
  | _, [], plan => pure ([], plan)
  | index, s :: rest, plan => do
    let (step, plan) ← ExceptT.adapt (fun e => (e.1, index, e.2))
      (planSection s index cwd limit plan)
    let (steps, plan) ← planSections cwd limit (index + 1) rest plan
    return (step :: steps, plan)

/-! ### The commit -/

section Commit

variable (sha256 : List UInt8 → String)

/-- The content of a file that is expected when it is written. -/
def plannedPrecondition : Option (List UInt8) → FilePrecondition
  | some bytes => .sha256 (sha256 bytes)
  | none => .missing

/-- A file is written whose content was planned. -/
def commitPlannedWrite (path : String) (after : List UInt8) (before : Option (List UInt8))
    (createParentDirectories : Bool) (limit : ℕ) : FileM Unit := do
  let _ ← writeFileAt sha256 "" path after createParentDirectories
    (.conditional (plannedPrecondition sha256 before)) limit

/-- The record of a change. -/
def change (kind : PatchChangeKind) (path : String) (destination : Option String)
    (before after destinationBefore : Option (List UInt8)) : PatchChange where
  kind := kind
  path := path
  destinationPath := destination
  beforeSha256 := before.map sha256
  afterSha256 := after.map sha256
  destinationBeforeSha256 := destinationBefore.map sha256
  bytesBefore := before.map List.length
  bytesAfter := after.map List.length
  destinationBytesBefore := destinationBefore.map List.length
  firstChangedLine :=
    match before, after with
    | some a, some b => some (1 + (b.take (commonPrefix a b)).count 10)
    | _, _ => some 1

/-- One step, and whether it had written the destination of a move before it ended. -/
def commitStep (limit : ℕ) (step : Step) : FileWork (Bool × Result Unit) :=
  match step.kind with
  | .delete => do
    let result ← (io (sys (.removeFile step.path))).run
    return (false, result)
  | .move => do
    let written ← (commitPlannedWrite sha256 (step.destination.getD "") (step.after.getD [])
      step.destinationBefore true limit).run
    match written with
    | .error e => return (false, .error e)
    | .ok () =>
      -- A deletion that fails leaves a destination that was written.
      let removed ← (do
        verify step.path step.before limit
        io (sys (.removeFile step.path)) : FileM Unit).run
      return (true, removed)
  | kind => do
    let result ← (commitPlannedWrite sha256 step.path (step.after.getD []) step.before
      (kind = .add) limit).run
    return (false, result)

/-- How a step appears in the diff. -/
def Step.shown (step : Step) : DiffStep :=
  ⟨step.path, step.destination, step.before.map List.toByteArray,
    step.after.map List.toByteArray⟩

/-- The record of a step. -/
def Step.record (step : Step) : PatchChange :=
  change sha256 step.kind step.path step.destination step.before step.after step.destinationBefore

/-- The record of the destination of a move whose source was not removed. -/
def Step.splitRecord (step : Step) : PatchChange :=
  change sha256 (if step.destinationBefore.isSome then .update else .add)
    (step.destination.getD "") none step.destinationBefore step.after none

/-- The files of a step are still as it was planned. -/
def verifyStep (limit : ℕ) (step : Step) : FileM Unit := do
  verify step.path step.before limit
  match step.destination with
  | none => return
  | some destination => verify destination step.destinationBefore limit

/-- The receipt after a step that has failed. -/
def PatchReceipt.failStep (receipt : PatchReceipt) (step : Step) (destinationWritten : Bool)
    (e : Error) : PatchReceipt :=
  let receipt := if destinationWritten then
      { receipt with changes := receipt.changes ++ [step.splitRecord sha256] }
    else receipt
  receipt.fail e (some step.sectionIndex) none
    (destinationWritten || e.code ≠ .preconditionFailed)

/-- The receipt after a step that was made. -/
def PatchReceipt.record (receipt : PatchReceipt) (step : Step) : PatchReceipt :=
  let receipt := appendDiff receipt step.shown
  { receipt with changes := receipt.changes ++ [step.record sha256] }

/-- The steps one by one, until one of them fails. -/
def commitSteps (limit : ℕ) : List Step → PatchReceipt → FileWork PatchReceipt
  | [], receipt => return receipt
  | step :: steps, receipt => do
    match ← (verifyStep limit step).run with
    | .error e => return receipt.fail e (some step.sectionIndex) none false
    | .ok () =>
      match ← commitStep sha256 limit step with
      | (destinationWritten, .error e) => return receipt.failStep sha256 step destinationWritten e
      | (_, .ok ()) => commitSteps limit steps (receipt.record sha256 step)

/-- The files that were read are still as they were. -/
def verifyAll (limit : ℕ) : List (String × View) → FileM Unit
  | [] => return
  | (path, view) :: rest => do
    verify path view.original limit
    verifyAll limit rest

/-- The files that were read, in the order of their paths. -/
def PlanState.files (plan : PlanState) : List (String × View) :=
  (plan.view.entries.insertionSort fun a b => Path.le a.1 b.1).map Sigma.snd

/-- A receipt without its diff, if it would be too large with it. -/
def PatchReceipt.bounded (receipt : PatchReceipt) : PatchReceipt :=
  if maxPatchResultBytes < receipt.value.size then
    { receipt with diff := "", diffTruncated := true }
  else receipt

/-- The receipt of a patch. -/
def execute (request : ApplyPatchRequest) (cwd : String) (limit : ℕ) : FileWork PatchReceipt :=
  let receipt := PatchReceipt.new request.mutationId
  match patchSections request.patch with
  | .error e => return receipt.fail e none none false
  | .ok sections =>
    if sections = [] ∨ maxPatchFiles < sections.length ∨
        maxPatchEdits < (sections.map Section.edits).sum then
      return receipt.fail ⟨.resourceLimit, "patch section/edit limit exceeded"⟩ none none false
    else do
      match ← (planSections cwd limit 0 sections .init).run with
      | .error (e, index, edit) => return receipt.fail e (some index) edit false
      | .ok (steps, plan) =>
        match ← (verifyAll limit plan.files).run with
        | .error e => return receipt.fail e none none false
        | .ok () =>
          let receipt ← commitSteps sha256 limit steps receipt
          return receipt.bounded

end Commit

end ExecutionProvider.Patch
