import ExecutionProvider.Filesystem.Files
import ExecutionProvider.Foundation.Runs
import ExecutionProvider.Foundation.Table
import ExecutionProvider.Patch.Receipt
import ExecutionProvider.Protocol.Codec
import ExecutionProvider.Protocol.JsonText

/-!
# Mutations of files

A call that changes files checks its arguments and locks the registry of receipts. When its
identifier has a receipt, the call returns what the receipt says, or a conflict. Otherwise the work
is handed to a thread of its own, and the call waits for it with the registry locked. The receipt
is recorded when the work is done.

The lock belongs to the future of the call and the work to its thread. Whoever has made a call may
drop its future at any time. Then the lock is released, and the work goes on.

## Main definitions

* `MutationRequest`, `MutationFingerprint`, `MutationOutcome`: requests and what receipts hold.
* `MutationEnv.writeFile`, `removeFile`, `applyPatch`: the calls up to the lock.
* `Prepared.enter`: what a call does when it has locked the registry.
* `mutationSystem`: the runs of all calls and their works.
-/

namespace ExecutionProvider.Filesystem

open Patch Protocol

/-! ### Requests and receipts -/

/-- A file that is written. -/
structure WriteFileRequest where
  mutationId : String
  cwd : Option String
  path : String
  data : List UInt8
  createParentDirectories : Bool
  mode : WriteFileMode
deriving DecidableEq

/-- A file that is removed. -/
structure RemoveFileRequest where
  mutationId : String
  cwd : Option String
  path : String
  precondition : FilePrecondition
deriving DecidableEq

/-- A mutation that is asked for. -/
inductive MutationRequest
  | write (request : WriteFileRequest)
  | remove (request : RemoveFileRequest)
  | patch (request : ApplyPatchRequest)
deriving DecidableEq

/-- The identifier of a mutation. -/
def MutationRequest.mutationId : MutationRequest → String
  | write request => request.mutationId
  | remove request => request.mutationId
  | patch request => request.mutationId

/-- What tells mutations of one identifier apart. -/
inductive MutationFingerprint
  | write (path : List Path.Component) (dataSha256 : String) (createParentDirectories : Bool)
      (mode : WriteFileMode)
  | remove (path : List Path.Component) (precondition : FilePrecondition)
  | patch (digest : String)
deriving DecidableEq

/-- What a mutation has come to. -/
inductive MutationOutcome
  | write (result : Result WriteFileReceipt)
  | remove (result : Result RemoveFileReceipt)
  | patch (receipt : PatchReceipt)

/-- What a call returns. -/
inductive MutationReply
  | write (result : Result WriteFileReceipt)
  | remove (result : Result RemoveFileReceipt)
  | patch (result : Result PatchReceipt)

/-- What the call returns whose work has come to an outcome. -/
def MutationOutcome.reply : MutationOutcome → MutationReply
  | write result => .write result
  | remove result => .remove result
  | patch receipt => .patch (.ok receipt)

/-- An error of a call. -/
def MutationRequest.fail (e : Error) : MutationRequest → MutationReply
  | write _ => .write (.error e)
  | remove _ => .remove (.error e)
  | patch _ => .patch (.error e)

/-- Whether an outcome is one of a request like this. -/
def MutationOutcome.matches : MutationOutcome → MutationRequest → Bool
  | write _, .write _ | remove _, .remove _ | patch _, .patch _ => true
  | _, _ => false

def idempotencyConflict : Error :=
  ⟨.idempotencyConflict, "mutation_id was used for different arguments"⟩

def receiptLimitReached : Error := ⟨.resourceLimit, "file mutation receipt limit reached"⟩

/-! ### The calls up to the lock -/

def validateMutationId (id : String) : Result Unit :=
  if id.utf8ByteSize = 0 ∨ id.utf8ByteSize > 256 then
    .error (.invalid "mutation_id must contain 1 to 256 bytes")
  else .ok ()

/-- Whether a character is a hexadecimal digit that is no capital letter. -/
def isLowerHexDigit (c : Char) : Bool := c.isDigit || ('a' ≤ c && c ≤ 'f')

def validatePrecondition : FilePrecondition → Result Unit
  | .missing => .ok ()
  | .sha256 hash =>
    if hash.utf8ByteSize = 64 ∧ hash.toList.all isLowerHexDigit then .ok ()
    else .error (.invalid "sha256 precondition must contain 64 lowercase hexadecimal characters")

/-- The precondition of a conditional write is checked. -/
def validateMode : WriteFileMode → Result Unit
  | .conditional precondition => validatePrecondition precondition
  | .overwrite => .ok ()

/-- What is decided of a call before it locks the registry: what tells it apart, a check that is
made behind the lookup of its receipt, and its work. -/
structure Prepared where
  fingerprint : MutationFingerprint
  late : Result Unit
  work : FileWork MutationOutcome

/-- What the calls of a runtime depend on: its configuration, the hash function, and the work of a
patch in a directory, with a limit for the size of files. -/
structure MutationEnv where
  cwd : String
  maxFileReadBytes : ℕ
  maxFileWriteBytes : ℕ
  maxFileMutationReceipts : ℕ
  sha256 : List UInt8 → String
  execute : ApplyPatchRequest → String → ℕ → FileWork PatchReceipt

def maxPatchBytes : ℕ := 2 * 1024 * 1024

def maxFileBytes : ℕ := 5 * 1024 * 1024

/-- The bytes of the texts of a patch. -/
def rawBytes : PatchInput → ℕ
  | .codex text => text.utf8ByteSize
  | .textReplacements files => files.foldl (fun total file =>
      file.edits.foldl (fun n edit => n + edit.oldText.utf8ByteSize + edit.newText.utf8ByteSize)
        (total + file.path.utf8ByteSize)) 0

/-- How a patch is written. -/
def encodedPatch (request : ApplyPatchRequest) : String :=
  (ApplyPatchRequest.codec.write request).text

/-- The bytes of a text. -/
def textBytes (s : String) : List UInt8 := s.toByteArray.data.toList

namespace MutationEnv

variable (env : MutationEnv)

/-- A path, relative to a directory that is itself relative to the one of the runtime. -/
def resolveFilePath (cwd : Option String) (path : String) : Result String :=
  if path = "" then .error (.invalid "file path is empty")
  else
    let cwd := match cwd with
      | some cwd => if Path.isAbsolute cwd then cwd else Path.join env.cwd cwd
      | none => env.cwd
    .ok (if Path.isAbsolute path then path else Path.join cwd path)

/-- `write_file` up to the lock. -/
def writeFile (request : WriteFileRequest) : Result Prepared := do
  validateMutationId request.mutationId
  if request.data.length > env.maxFileWriteBytes then
    throw ⟨.resourceLimit, "file contents exceed the configured write limit"⟩
  validateMode request.mode
  let path ← env.resolveFilePath request.cwd request.path
  return {
    fingerprint := .write (Path.components path) (env.sha256 request.data)
      request.createParentDirectories request.mode
    late := .ok ()
    work := (writeFileAt env.sha256 request.mutationId path request.data
      request.createParentDirectories request.mode env.maxFileReadBytes).run.bind
        fun result => .done (.write result) }

/-- `remove_file` up to the lock. -/
def removeFile (request : RemoveFileRequest) : Result Prepared := do
  validateMutationId request.mutationId
  validatePrecondition request.precondition
  let path ← env.resolveFilePath request.cwd request.path
  return {
    fingerprint := .remove (Path.components path) request.precondition
    late := .ok ()
    work := (removeFileAt env.sha256 request.mutationId path request.precondition
      env.maxFileReadBytes).run.bind fun result => .done (.remove result) }

/-- `apply_patch` up to the lock. -/
def applyPatch (request : ApplyPatchRequest) : Result Prepared := do
  validateMutationId request.mutationId
  if rawBytes request.patch > maxPatchBytes * 2 then
    throw ⟨.resourceLimit, "raw patch request exceeds 4 MiB"⟩
  let cwd ← env.resolveFilePath request.cwd "."
  let encoded := encodedPatch request
  return {
    fingerprint := .patch (env.sha256 (textBytes encoded))
    late := if encoded.utf8ByteSize > maxPatchBytes * 2 then
        .error ⟨.resourceLimit, "serialized patch request exceeds 4 MiB"⟩
      else .ok ()
    work := (env.execute request cwd (min (min env.maxFileReadBytes env.maxFileWriteBytes)
      maxFileBytes)).bind fun receipt => .done (.patch receipt) }

/-- A call up to the lock. -/
def prepare : MutationRequest → Result Prepared
  | .write request => env.writeFile request
  | .remove request => env.removeFile request
  | .patch request => env.applyPatch request

end MutationEnv

/-! ### The calls behind the lock -/

/-- The receipts of a runtime, with what tells their mutations apart. -/
abbrev Receipts := Table String (MutationFingerprint × MutationOutcome)

def ensureReceiptCapacity (entries : Receipts) (maximum : ℕ) : Result Unit :=
  if maximum ≤ entries.entries.length then .error receiptLimitReached else .ok ()

/-- What a call returns whose identifier has a receipt. -/
def MutationRequest.replay (request : MutationRequest) (fingerprint : MutationFingerprint)
    (stored : MutationFingerprint × MutationOutcome) : MutationReply :=
  if stored.1 ≠ fingerprint then request.fail idempotencyConflict
  else if stored.2.matches request then stored.2.reply
  else request.fail idempotencyConflict

/-- What a call does when it has locked the registry: it returns, or it has its work done. -/
def Prepared.enter (p : Prepared) (request : MutationRequest) (entries : Receipts)
    (maximum : ℕ) : Except MutationReply (FileWork MutationOutcome) :=
  match entries.lookup request.mutationId with
  | some stored => .error (request.replay p.fingerprint stored)
  | none =>
    match p.late, ensureReceiptCapacity entries maximum with
    | .error e, _ => .error (request.fail e)
    | .ok (), .error e => .error (request.fail e)
    | .ok (), .ok () => .ok p.work

/-- How far a call has come: it waits for the lock, it waits for its work with the registry
locked, or it has come to an end. -/
inductive MutationPhase
  | waiting (prepared : Prepared)
  | working (fingerprint : MutationFingerprint)
  | ended

/-- A call. -/
structure MutationCall where
  request : MutationRequest
  phase : MutationPhase

/-- The work of a call, as far as it is left. -/
structure MutationWork where
  request : MutationRequest
  rest : FileWork MutationOutcome

/-- A runtime with its receipts, the call that holds their lock, and all calls and works. -/
structure Mutations where
  available : Bool
  entries : Receipts
  holder : Option ℕ
  calls : Table ℕ MutationCall
  works : Table ℕ MutationWork

/-- What happens: a work makes a call of the operating system, a receipt is recorded, a call
returns behind the lock or before it, or its future is dropped while its work is under way. -/
inductive MutationEvent
  | performed (call : ℕ) (request : MutationRequest) (c : SysCall)
  | recorded (call : ℕ) (request : MutationRequest) (outcome : MutationOutcome)
  | returned (call : ℕ) (request : MutationRequest) (reply : MutationReply)
  | refused (call : ℕ) (request : MutationRequest) (e : Error)
  | abandoned (call : ℕ)
  | shutdown

/-- The steps. What the operating system answers a work is part of the step. -/
inductive MutationAction
  | call (call : ℕ) (request : MutationRequest)
  | lock (call : ℕ)
  | work (call : ℕ) (answers : (c : SysCall) → c.Answer)
  | resume (call : ℕ)
  | drop (call : ℕ)
  | shutdown

namespace Mutations

variable (env : MutationEnv) (m : Mutations)

/-- A new runtime. -/
def init : Mutations := ⟨true, ∅, none, ∅, ∅⟩

/-- A call is made. It goes up to the lock. -/
def call (k : ℕ) (request : MutationRequest) : Option (Mutations × List MutationEvent) :=
  if k ∈ m.calls then none
  else if m.available = false then
    some ({ m with calls := m.calls.insert k ⟨request, .ended⟩ },
      [.refused k request ⟨.unavailable, "runtime is shutting down"⟩])
  else
    match env.prepare request with
    | .error e =>
      some ({ m with calls := m.calls.insert k ⟨request, .ended⟩ }, [.refused k request e])
    | .ok prepared => some ({ m with calls := m.calls.insert k ⟨request, .waiting prepared⟩ }, [])

/-- A call locks the registry. It goes up to its end, or up to the end of its work. -/
def lock (k : ℕ) : Option (Mutations × List MutationEvent) :=
  match m.calls.lookup k, m.holder with
  | some ⟨request, .waiting prepared⟩, none =>
    match prepared.enter request m.entries env.maxFileMutationReceipts with
    | .error reply =>
      some ({ m with calls := m.calls.insert k ⟨request, .ended⟩ }, [.returned k request reply])
    | .ok work =>
      some ({ m with
        holder := some k
        calls := m.calls.insert k ⟨request, .working prepared.fingerprint⟩
        works := m.works.insert k ⟨request, work⟩ }, [])
  | _, _ => none

/-- The next call of a work. -/
def work (k : ℕ) (answers : (c : SysCall) → c.Answer) : Option (Mutations × List MutationEvent) :=
  match m.works.lookup k with
  | none => none
  | some w =>
    match w.rest.pending with
    | none => none
    | some c =>
      some ({ m with works := m.works.insert k { w with rest := w.rest.answer answers } },
        [.performed k w.request c])

/-- A call goes on whose work is done: it records the receipt and returns. -/
def resume (k : ℕ) : Option (Mutations × List MutationEvent) :=
  match m.calls.lookup k, (m.works.lookup k).bind fun w => w.rest.result with
  | some ⟨request, .working fingerprint⟩, some outcome =>
    some ({ m with
      entries := m.entries.insert request.mutationId (fingerprint, outcome)
      holder := none
      calls := m.calls.insert k ⟨request, .ended⟩ },
      [.recorded k request outcome, .returned k request outcome.reply])
  | _, _ => none

/-- The future of a call is dropped. -/
def drop (k : ℕ) : Option (Mutations × List MutationEvent) :=
  match m.calls.lookup k with
  | some ⟨request, .waiting _⟩ =>
    some ({ m with calls := m.calls.insert k ⟨request, .ended⟩ }, [])
  | some ⟨request, .working _⟩ =>
    some ({ m with holder := none, calls := m.calls.insert k ⟨request, .ended⟩ }, [.abandoned k])
  | _ => none

/-- A step. -/
def step : MutationAction → Option (Mutations × List MutationEvent)
  | .call k request => m.call env k request
  | .lock k => m.lock env k
  | .work k answers => m.work k answers
  | .resume k => m.resume k
  | .drop k => m.drop k
  | .shutdown => some ({ m with available := false }, [.shutdown])

end Mutations

/-- The runs of a runtime. -/
def mutationSystem (env : MutationEnv) : System Mutations MutationAction MutationEvent where
  start m := m = .init
  step m a := m.step env a

end ExecutionProvider.Filesystem
