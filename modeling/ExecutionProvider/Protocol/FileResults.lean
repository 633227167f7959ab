import ExecutionProvider.Filesystem.Files
import ExecutionProvider.Patch.Receipt
import ExecutionProvider.Protocol.Results
import ExecutionProvider.Session.Data

/-!
# What the operations of a host answer

The results of all operations, those among them that no executions appear in, and how they are
written.

## Main definitions

* `FileMetadata.value`, `Patch.PatchReceipt.value`, ...: how the results about files are written.
* `DispatchResult`: the results of all operations.
* `DispatchResult.value`: how they are written.

## Main results

* `DispatchResult.get_succeeded`, `DispatchResult.get_status`: what the results have in common with
  those of batches and patches.
-/

namespace ExecutionProvider

open Codec

/-- How a natural number is written. -/
def natValue (n : ℕ) : Json := .num (toString n)

/-- How a natural number is written that may be missing. -/
def optionalNat (n : Option ℕ) : Json := .ofOption (n.map natValue)

/-! ### Input -/

/-- How the confirmation of some input is written. -/
def Session.InputReceipt.value (r : Session.InputReceipt) : Json :=
  .mkObj [("input_id", .str r.inputId), ("accepted_bytes", natValue r.acceptedBytes)]

/-- How the state of an input is written. -/
def Session.StdinState.text : Session.StdinState → String
  | opened => "open"
  | closing => "closing"
  | closed => "closed"

/-! ### Files -/

/-- What is reported of a file. -/
structure FileMetadata where
  isFile : Bool
  isDirectory : Bool
  isSymlink : Bool
  size : ℕ
  modifiedAtMs : Option ℤ

/-- How the metadata of a file are written. -/
def FileMetadata.value (m : FileMetadata) : Json :=
  .mkObj [("is_file", .bool m.isFile), ("is_directory", .bool m.isDirectory),
    ("is_symlink", .bool m.isSymlink), ("size", natValue m.size),
    ("modified_at_ms", .ofOption (m.modifiedAtMs.map fun t => .num (toString t)))]

/-- A file that was read. -/
structure ReadFileResult where
  path : String
  metadata : FileMetadata
  data : List UInt8
  sha256 : String

/-- How a file that was read is written. -/
def ReadFileResult.value (base64 : List UInt8 → String) (r : ReadFileResult) : Json :=
  .mkObj [("path", .str r.path), ("metadata", r.metadata.value),
    ("data_base64", .str (base64 r.data)), ("sha256", .str r.sha256)]

namespace Filesystem

/-- How it is written whether a mutation changed its file. -/
def MutationDisposition.text : MutationDisposition → String
  | applied => "applied"
  | alreadyApplied => "already_applied"

/-- How the receipt of a file that is written is written. -/
def WriteFileReceipt.value (r : WriteFileReceipt) : Json :=
  .mkObj [("mutation_id", .str r.mutationId), ("path", .str r.path), ("sha256", .str r.sha256),
    ("bytes_written", natValue r.bytesWritten), ("disposition", .str r.disposition.text)]

/-- How the receipt of a file that is removed is written. -/
def RemoveFileReceipt.value (r : RemoveFileReceipt) : Json :=
  .mkObj [("mutation_id", .str r.mutationId), ("path", .str r.path),
    ("disposition", .str r.disposition.text)]

end Filesystem

/-! ### Patches -/

namespace Patch

/-- How it is written what became of a patch. -/
def PatchStatus.text : PatchStatus → String
  | applied => "applied"
  | rejected => "rejected"
  | partly => "partial"

/-- How it is written what a section does. -/
def PatchChangeKind.text : PatchChangeKind → String
  | add => "add"
  | update => "update"
  | delete => "delete"
  | move => "move"

/-- The members of a change. -/
def PatchChange.members (c : PatchChange) : List Member :=
  [("kind", some (.str c.kind.text)), ("path", some (.str c.path)),
    .skippable "destination_path" text c.destinationPath,
    .optional "before_sha256" text c.beforeSha256, .optional "after_sha256" text c.afterSha256,
    .skippable "destination_before_sha256" text c.destinationBeforeSha256,
    ("bytes_before", some (optionalNat c.bytesBefore)),
    ("bytes_after", some (optionalNat c.bytesAfter)),
    ("destination_bytes_before", c.destinationBytesBefore.map natValue),
    ("first_changed_line", some (optionalNat c.firstChangedLine))]

/-- How a change is written. -/
def PatchChange.value (c : PatchChange) : Json := .record c.members

/-- How it is written why a patch was not applied. -/
def PatchFailure.value (f : PatchFailure) : Json :=
  .mkObj [("code", .str f.code.text), ("message", .str f.message),
    ("section", optionalNat f.sectionIndex), ("edit", optionalNat f.edit)]

/-- How the receipt of a patch is written. -/
def PatchReceipt.value (r : PatchReceipt) : Json :=
  .mkObj [("mutation_id", .str r.mutationId), ("status", .str r.status.text),
    ("changes_exact", .bool r.changesExact), ("changes", .arr (r.changes.map PatchChange.value)),
    ("diff", .str r.diff), ("diff_truncated", .bool r.diffTruncated),
    ("error", .ofOption (r.error.map PatchFailure.value))]

end Patch

/-! ### Results -/

namespace Protocol

/-- The results of all operations. -/
inductive DispatchResult
  | info (runtime binary : Json)
  | shutdown
  | observation (result : Observation)
  | run (result : RunResult)
  | terminateRun (receipt : TerminateRunReceipt)
  | execution (snapshot : ExecutionSnapshot)
  | writeInput (receipt : Session.InputReceipt)
  | closeInput (state : Session.StdinState)
  | list (page : ExecutionPage)
  | metadata (result : FileMetadata)
  | readFile (result : ReadFileResult)
  | writeFile (receipt : Filesystem.WriteFileReceipt)
  | removeFile (receipt : Filesystem.RemoveFileReceipt)
  | applyPatch (receipt : Patch.PatchReceipt)

/-- The result as it is put into a response. -/
def DispatchResult.toOperationResult (c : TextEncoding) : DispatchResult → OperationResult
  | info runtime binary => .other (.mkObj [("runtime", runtime), ("binary", binary)])
  | shutdown => .other (.mkObj [("shutdown", .bool true)])
  | observation result => .observation result
  | run result => .run result
  | terminateRun receipt => .terminateRun receipt
  | execution snapshot => .execution snapshot
  | writeInput receipt => .other receipt.value
  | closeInput state => .other (.mkObj [("stdin_state", .str state.text)])
  | list page => .list page
  | metadata result => .other result.value
  | readFile result => .other (result.value c.base64)
  | writeFile receipt => .other receipt.value
  | removeFile receipt => .other receipt.value
  | applyPatch receipt => .other receipt.value

/-- How a result is written. -/
def DispatchResult.value (c : TextEncoding) (r : DispatchResult) : Json :=
  (r.toOperationResult c).value c

variable (c : TextEncoding)

/-- No result says that a batch succeeded. -/
theorem DispatchResult.get_succeeded (r : DispatchResult) : (r.value c).get "succeeded" = none := by
  cases r with
  | execution snapshot =>
    refine Json.get_mkObj_of_notMem ?_
    simp [ExecutionSnapshot.otherFields]
  | _ =>
    refine Json.get_mkObj_of_notMem ?_
    simp

/-- Only the receipt of a patch has a status. -/
theorem DispatchResult.get_status (r : DispatchResult) : (r.value c).get "status" =
    match r with
    | applyPatch receipt => some (.str receipt.status.text)
    | _ => none := by
  cases r with
  | applyPatch receipt =>
    refine Json.get_mkObj_eq_lookup ?_ _
    simp
  | execution snapshot =>
    refine Json.get_mkObj_of_notMem ?_
    simp [ExecutionSnapshot.otherFields]
  | _ =>
    refine Json.get_mkObj_of_notMem ?_
    simp

end Protocol

end ExecutionProvider
