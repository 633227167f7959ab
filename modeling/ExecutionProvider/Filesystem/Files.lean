import ExecutionProvider.Filesystem.Calls
import ExecutionProvider.Filesystem.Path
import ExecutionProvider.Protocol.Operations

/-!
# Reading, writing and removing one file

A file is written beside its target and then renamed, so that the target has its old content or its
new one. A conditional write looks at the target itself, twice; an overwrite follows the symbolic
links at its end.

## Main definitions

* `readFileAt`, `existingHash`: the content of a file, and its hash.
* `followFinalSymlinks`: the target of an overwrite.
* `writeFileAt`, `removeFileAt`: the changes of a file.
-/

namespace ExecutionProvider.Filesystem

open Protocol

/-- Whether a mutation changed its file. -/
inductive MutationDisposition
  | applied
  | alreadyApplied
deriving DecidableEq

/-- The receipt of a file that is written. -/
structure WriteFileReceipt where
  mutationId : String
  path : String
  sha256 : String
  bytesWritten : ℕ
  disposition : MutationDisposition
deriving DecidableEq

/-- The receipt of a file that is removed. -/
structure RemoveFileReceipt where
  mutationId : String
  path : String
  disposition : MutationDisposition
deriving DecidableEq

/-! ### Reading -/

/-- What is known of a file, the links at its end followed. -/
def metadata (path : String) : FileM Metadata := do
  let link ← io (sys (.symlinkMetadata path))
  let followed ← io (sys (.metadata path))
  return { followed with isSymlink := link.isSymlink }

/-- The content of a regular file of bounded size. -/
def readFileAt (path : String) (limit : ℕ) : FileM (List UInt8) := do
  let metadata ← metadata path
  if !metadata.isFile then throw (.invalid "path is not a regular file")
  if metadata.size > limit then
    throw ⟨.resourceLimit, "file exceeds the requested byte limit"⟩
  let file ← io (sys (.openFile path))
  let data ← io (sys (.readUpTo file (limit + 1)))
  if data.length > limit then
    throw ⟨.resourceLimit, "file grew beyond the requested byte limit while being read"⟩
  return data

section Hashes

variable (sha256 : List UInt8 → String)

/-- The hash of a file, when there is one. -/
def existingHash (path : String) (limit : ℕ) : FileM (Option String) :=
  tryCatch (do return some (sha256 (← readFileAt path limit))) fun e =>
    if e.code = .notFound then return none else throw e

/-- The hash of a file that is overwritten. It is not known when the file is too large. -/
def readableExistingHash (path : String) (limit : ℕ) : FileM (Option String) := do
  match ← attempt (sys (.metadata path)) with
  | .ok metadata =>
    if !metadata.isFile then throw (.invalid "path is not a regular file")
    else if metadata.size > limit then return none
    else
      tryCatch (do return some (sha256 (← readFileAt path limit))) fun e =>
        if e.code = .resourceLimit then return none else throw e
  | .error e => if e.notFound then return none else throw (mapIo e)

end Hashes

/-- Hashes are compared without regard to the case of their letters. -/
def eqIgnoreAsciiCase (s t : String) : Bool :=
  s.toList.map Char.toLower = t.toList.map Char.toLower

/-- Whether a file is as a mutation expects it. -/
def checkPrecondition (existing : Option String) (precondition : FilePrecondition) :
    Result Unit :=
  let holds := match precondition with
    | .missing => existing.isNone
    | .sha256 hash => existing.any fun existing => eqIgnoreAsciiCase existing hash
  if holds then .ok () else .error ⟨.preconditionFailed, "file changed after it was read"⟩

/-! ### Writing and removing -/

/-- The path that is left when the links at the end of a path are followed, at most as many as
given. -/
def followFinalSymlinks : ℕ → String → FileM String
  | 0, _ => throw (.invalid "too many symbolic links")
  | n + 1, target => do
    match ← attempt (sys (.symlinkMetadata target)) with
    | .error e => if e.notFound then return target else throw (mapIo e)
    | .ok metadata =>
      if !metadata.isSymlink then
        if metadata.isFile then return target else throw (.invalid "path is not a regular file")
      let link ← io (sys (.readLink target))
      if Path.isAbsolute link then followFinalSymlinks n link
      else
        match Path.parent target with
        | none => throw (.invalid "file path has no parent directory")
        | some parent => followFinalSymlinks n (Path.join parent link)

/-- The links that are followed at the end of a path. -/
def maxLinks : ℕ := 40

/-- A path beside a target, for the new content until it is complete. -/
def temporaryPath (parent target unique : String) : String :=
  Path.join parent ("." ++ (Path.fileName target).getD "file" ++ ".process-execution-" ++ unique ++
    ".tmp")

section Changes

variable (sha256 : List UInt8 → String)

/-- The new content is written beside the target and takes its place. -/
def replaceContent (temporary target : String) (data : List UInt8) (permissions : Option ℕ)
    (mode : WriteFileMode) (readLimit : ℕ) : FileM Unit := do
  let file ← io (sys (.createNew temporary))
  io (sys (.writeAll file data))
  io (sys (.syncAll file))
  if let some permissions := permissions then io (sys (.setPermissions temporary permissions))
  -- This narrows the race with writers outside of the runtime.
  if let .conditional precondition := mode then
    checkPrecondition (← existingHash sha256 target readLimit) precondition
  io (sys (.rename temporary target))

/-- Writes a file. -/
def writeFileAt (mutationId path : String) (data : List UInt8) (createParentDirectories : Bool)
    (mode : WriteFileMode) (readLimit : ℕ) : FileM WriteFileReceipt := do
  let desired := sha256 data
  let target ← match mode with
    | .conditional _ => pure path
    | .overwrite => followFinalSymlinks maxLinks path
  let existing ← match mode with
    | .conditional _ => existingHash sha256 target readLimit
    | .overwrite => readableExistingHash sha256 target readLimit
  if existing = some desired then
    return ⟨mutationId, path, desired, data.length, .alreadyApplied⟩
  if let .conditional precondition := mode then checkPrecondition existing precondition
  match (Path.parent target).filter (· ≠ "") with
  | none => throw (.invalid "file path has no parent directory")
  | some parent =>
    if createParentDirectories then io (sys (.createDirAll parent))
    let permissions := ((← attempt (sys (.metadata target))).toOption).map Metadata.permissions
    let unique ← ExceptT.lift (sys .newUuid)
    let temporary := temporaryPath parent target unique
    match ← ExceptT.lift
        (replaceContent sha256 temporary target data permissions mode readLimit) with
    | .ok () => return ⟨mutationId, path, desired, data.length, .applied⟩
    | .error e =>
      let _ ← attempt (sys (.removeFile temporary))
      throw e

/-- Removes a file. -/
def removeFileAt (mutationId path : String) (precondition : FilePrecondition) (readLimit : ℕ) :
    FileM RemoveFileReceipt := do
  match ← existingHash sha256 path readLimit with
  | none => return ⟨mutationId, path, .alreadyApplied⟩
  | some existing =>
    checkPrecondition (some existing) precondition
    io (sys (.removeFile path))
    return ⟨mutationId, path, .applied⟩

end Changes

end ExecutionProvider.Filesystem
