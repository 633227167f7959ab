import ExecutionProvider.Core.Types
import ExecutionProvider.Core.Error

/-!
# Receipts of patches

## Main definitions

* `PatchReceipt`: what is reported of a patch.
-/

namespace ExecutionProvider.Patch

/-- What became of a patch. -/
inductive PatchStatus
  | applied
  | rejected
  | partly
deriving DecidableEq

/-- What a section of a patch does. -/
inductive PatchChangeKind
  | add
  | update
  | delete
  | move
deriving DecidableEq

/-- A change that was made, with the hashes and the sizes of the contents. -/
structure PatchChange where
  kind : PatchChangeKind
  path : String
  destinationPath : Option String
  beforeSha256 : Option String
  afterSha256 : Option String
  destinationBeforeSha256 : Option String
  bytesBefore : Option ℕ
  bytesAfter : Option ℕ
  destinationBytesBefore : Option ℕ
  firstChangedLine : Option ℕ
deriving DecidableEq

/-- Why a patch was not applied, or only in part. -/
structure PatchFailure where
  code : ErrorCode
  message : String
  sectionIndex : Option ℕ
  edit : Option ℕ
deriving DecidableEq

/-- What is reported of a patch. -/
structure PatchReceipt where
  mutationId : String
  status : PatchStatus
  changesExact : Bool
  changes : List PatchChange
  diff : String
  diffTruncated : Bool
  error : Option PatchFailure
deriving DecidableEq

end ExecutionProvider.Patch
