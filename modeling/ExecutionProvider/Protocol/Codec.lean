import ExecutionProvider.Protocol.Operations
import ExecutionProvider.Protocol.Serde

/-!
# How requests are written and read

Every type of a request with its members, as they are declared: which of them may be missing or
are skipped, and their defaults.

## Main definitions

* `Command.codec`, `StartParams.codec`, ...: the parameters.
* `Operation.members`, `Operation.read`: an operation, with its name and its parameters.
* `Payload.members`, `Payload.read`: an operation or a batch, told apart by their members.
* `Request.codec`: a request.

## Main results

* `Payload.read_record`: a payload that was written is read.
-/

namespace ExecutionProvider

open Codec

/-! ### The data of the core -/

/-- An identifier, in any of its spellings. -/
def Uuid.codec : Codec Uuid where
  write u := .str u.text
  read value := value.asStr.bind Uuid.parse
  read_write u := Uuid.parse_text u
  write_ne_null _ := nofun

/-- Texts by name: an object whose members are texts. -/
def StringMap.codec : Codec StringMap where
  write m := .obj (m.entries.map fun e => (e.1, .str e.2))
  read
    | .obj fields =>
      match readAll text (fields.map Prod.snd) with
      | some values =>
        if h : ((fields.map Prod.fst).zip values).Pairwise fun a b => a.1 < b.1 then
          some ⟨(fields.map Prod.fst).zip values, h⟩
        else none
      | none => none
    | _ => none
  read_write m := by
    have hvalues : readAll text ((m.entries.map fun e => (e.1, Json.str e.2)).map Prod.snd) =
        some (m.entries.map Prod.snd) := by
      rw [List.map_map, ← readAll_map_write text (m.entries.map Prod.snd), List.map_map]
      rfl
    have hentries : ((m.entries.map fun e => (e.1, Json.str e.2)).map Prod.fst).zip
        (m.entries.map Prod.snd) = m.entries := by
      rw [List.map_map, List.zip_map', List.map_id'']
      exact fun _ => rfl
    dsimp only
    rw [hvalues]
    dsimp only
    rw [dif_pos (hentries.symm ▸ m.sorted)]
    congr
  write_ne_null _ := nofun

/-- An execution of a runtime. -/
def ExecutionHandle.codec : Codec ExecutionHandle :=
  .record ["id", "generation_id"]
    (fun h => [.required "id" Uuid.codec h.id, .required "generation_id" Uuid.codec h.generationId])
    (fun m => do
      let id ← m.required "id" Uuid.codec
      let generationId ← m.required "generation_id" Uuid.codec
      return { id, generationId })
    (by decide) (fun _ => rfl) fun h => by simp [Json.lookup_cons_eq_ite]

def ShellSnapshotRequest.codec : Codec ShellSnapshotRequest :=
  .record ["scope_id"] (fun r => [.required "scope_id" text r.scopeId])
    (fun m => do
      let scopeId ← m.required "scope_id" text
      return { scopeId })
    (by decide) (fun _ => rfl) fun r => by simp [Json.lookup_cons_eq_ite]

/-- How the kind of a shell is written. -/
def ShellKind.text : ShellKind → String
  | sh => "sh"
  | bash => "bash"
  | zsh => "zsh"
  | powerShell => "power_shell"
  | cmd => "cmd"

def ShellKind.all : List ShellKind := [sh, bash, zsh, powerShell, cmd]

/-- The kind of a shell. Commands are read by their tags, and the kinds in them so. -/
def ShellKind.codec : Codec ShellKind :=
  .enumeration Json.taggedVariant ShellKind.text ShellKind.all (fun _ => rfl) fun k => by
    cases k <;> decide

def Shell.codec : Codec Shell :=
  .record ["executable", "kind"]
    (fun s => [.required "executable" text s.executable, .required "kind" ShellKind.codec s.kind])
    (fun m => do
      let executable ← m.required "executable" text
      let kind ← m.required "kind" ShellKind.codec
      return { executable, kind })
    (by decide) (fun _ => rfl) fun s => by simp [Json.lookup_cons_eq_ite]

/-- A command, by its type. -/
def Command.codec : Codec Command :=
  .tagged "type"
    (fun
      | .program executable args => ("program",
        [.required "executable" text executable, .required "args" (list text) args])
      | .shell script shell' login => ("shell", [.required "script" text script,
        .optional "shell" Shell.codec shell', .required "login" bool login]))
    (fun tag content =>
      if tag = "program" then do
        let m ← content.members ["executable", "args"]
        let executable ← m.required "executable" text
        let args ← m.withDefault "args" (list text) []
        return .program executable args
      else if tag = "shell" then do
        let m ← content.members ["script", "shell", "login"]
        let script ← m.required "script" text
        let shell' ← m.optional "shell" Shell.codec
        let login ← m.withDefault "login" bool false
        return .shell script shell' login
      else none)
    (fun command => by cases command <;> simp)
    fun command content hmembers _ => by
      cases command <;> simp [hmembers, Json.lookup_cons_eq_ite]

/-- What an execution reads from and writes to, by its type. -/
def IoMode.codec : Codec IoMode :=
  .tagged "type"
    (fun
      | .pipes stdin => ("pipes", [.required "stdin" bool stdin])
      | .pty rows cols => ("pty", [.required "rows" uint16 rows, .required "cols" uint16 cols]))
    (fun tag content =>
      if tag = "pipes" then do
        let m ← content.members ["stdin"]
        let stdin ← m.required "stdin" bool
        return .pipes stdin
      else if tag = "pty" then do
        let m ← content.members ["rows", "cols"]
        let rows ← m.required "rows" uint16
        let cols ← m.required "cols" uint16
        return .pty rows cols
      else none)
    (fun io => by cases io <;> simp)
    fun io content hmembers _ => by cases io <;> simp [hmembers, Json.lookup_cons_eq_ite]

/-- A precondition, by its type. -/
def FilePrecondition.codec : Codec FilePrecondition :=
  .tagged "type"
    (fun
      | .missing => ("missing", [])
      | .sha256 digest => ("sha256", [.required "sha256" text digest]))
    (fun tag content =>
      if tag = "missing" then some .missing
      else if tag = "sha256" then do
        let m ← content.members ["sha256"]
        let digest ← m.required "sha256" text
        return .sha256 digest
      else none)
    (fun precondition => by cases precondition <;> simp)
    fun precondition content hmembers _ => by
      cases precondition <;> simp [hmembers, Json.lookup_cons_eq_ite]

def TextEdit.codec : Codec TextEdit :=
  .strictRecord ["oldText", "newText"]
    (fun e => [.required "oldText" text e.oldText, .required "newText" text e.newText])
    (fun m => do
      let oldText ← m.required "oldText" text
      let newText ← m.required "newText" text
      return { oldText, newText })
    (by decide) (fun _ => rfl) fun e => by simp [Json.lookup_cons_eq_ite]

def ReplacementFile.codec : Codec ReplacementFile :=
  .strictRecord ["path", "edits"]
    (fun f => [.required "path" text f.path, .required "edits" (list TextEdit.codec) f.edits])
    (fun m => do
      let path ← m.required "path" text
      let edits ← m.required "edits" (list TextEdit.codec)
      return { path, edits })
    (by decide) (fun _ => rfl) fun f => by simp [Json.lookup_cons_eq_ite]

/-- A patch, by its format. It has no other members. -/
def PatchInput.codec : Codec PatchInput :=
  .tagged "format"
    (fun
      | .codex patch => ("codex", [.required "text" text patch])
      | .textReplacements files =>
        ("text_replacements", [.required "files" (list ReplacementFile.codec) files]))
    (fun tag content =>
      if tag = "codex" then do
        let m ← content.strictMembers ["text"]
        let patch ← m.required "text" text
        return .codex patch
      else if tag = "text_replacements" then do
        let m ← content.strictMembers ["files"]
        let files ← m.required "files" (list ReplacementFile.codec)
        return .textReplacements files
      else none)
    (fun patch => by cases patch <;> simp)
    fun patch content _ hstrict => by
      cases patch <;> simp_all [Json.lookup_cons_eq_ite]

def ApplyPatchRequest.codec : Codec ApplyPatchRequest :=
  .strictRecord ["mutation_id", "cwd", "patch"]
    (fun r => [.required "mutation_id" text r.mutationId, .optional "cwd" text r.cwd,
      .required "patch" PatchInput.codec r.patch])
    (fun m => do
      let mutationId ← m.required "mutation_id" text
      let cwd ← m.optional "cwd" text
      let patch ← m.required "patch" PatchInput.codec
      return { mutationId, cwd, patch })
    (by decide) (fun _ => rfl) fun r => by simp [Json.lookup_cons_eq_ite]

def ErrorCode.all : List ErrorCode :=
  [.notFound, .invalidArgument, .invalidState, .generationMismatch, .idempotencyConflict,
    .preconditionFailed, .stdinClosed, .unsupportedOperation, .resourceLimit, .unavailable, .io]

def ErrorCode.codec : Codec ErrorCode :=
  .enumeration Json.variant ErrorCode.text ErrorCode.all (fun _ => rfl) fun c => by
    cases c <;> decide

/-- An error of the core. -/
def Error.codec : Codec Error :=
  .record ["code", "message"]
    (fun e => [.required "code" ErrorCode.codec e.code, .required "message" text e.message])
    (fun m => do
      let code ← m.required "code" ErrorCode.codec
      let message ← m.required "message" text
      return { code, message })
    (by decide) (fun _ => rfl) fun e => by simp [Json.lookup_cons_eq_ite]

def StateFilter.text : StateFilter → String
  | active => "active"
  | finished => "finished"
  | all => "all"

def StateFilter.codec : Codec StateFilter :=
  .enumeration Json.variant StateFilter.text [.active, .finished, .all] (fun _ => rfl)
    fun f => by cases f <;> decide

/-! ### Parameters -/

namespace Protocol

def FilePathParams.codec : Codec FilePathParams :=
  .record ["cwd", "path"]
    (fun p => [.optional "cwd" text p.cwd, .required "path" text p.path])
    (fun m => do
      let cwd ← m.optional "cwd" text
      let path ← m.required "path" text
      return { cwd, path })
    (by decide) (fun _ => rfl) fun p => by simp [Json.lookup_cons_eq_ite]

def ReadFileParams.codec : Codec ReadFileParams :=
  .record ["cwd", "path", "max_bytes"]
    (fun p => [.optional "cwd" text p.cwd, .required "path" text p.path,
      .optional "max_bytes" uint64 p.maxBytes])
    (fun m => do
      let cwd ← m.optional "cwd" text
      let path ← m.required "path" text
      let maxBytes ← m.optional "max_bytes" uint64
      return { cwd, path, maxBytes })
    (by decide) (fun _ => rfl) fun p => by simp [Json.lookup_cons_eq_ite]

def WriteMode.text : WriteMode → String
  | conditional => "conditional"
  | overwrite => "overwrite"

def WriteMode.codec : Codec WriteMode :=
  .enumeration Json.variant WriteMode.text [.conditional, .overwrite] (fun _ => rfl) fun m => by
    cases m <;> decide

def WriteFileParams.codec : Codec WriteFileParams :=
  .record ["mutation_id", "cwd", "path", "data_base64", "create_parent_directories", "mode",
      "precondition"]
    (fun p => [.required "mutation_id" Codec.text p.mutationId, .optional "cwd" Codec.text p.cwd,
      .required "path" Codec.text p.path, .required "data_base64" Codec.text p.dataBase64,
      .required "create_parent_directories" bool p.createParentDirectories,
      .unlessDefault "mode" WriteMode.codec .conditional p.mode,
      .skippable "precondition" FilePrecondition.codec p.precondition])
    (fun m => do
      let mutationId ← m.required "mutation_id" Codec.text
      let cwd ← m.optional "cwd" Codec.text
      let path ← m.required "path" Codec.text
      let dataBase64 ← m.required "data_base64" Codec.text
      let createParentDirectories ← m.withDefault "create_parent_directories" bool false
      let mode ← m.withDefault "mode" WriteMode.codec .conditional
      let precondition ← m.skippable "precondition" FilePrecondition.codec
      return { mutationId, cwd, path, dataBase64, createParentDirectories, mode, precondition })
    (by decide) (fun _ => rfl) fun p => by simp [Json.lookup_cons_eq_ite]

def RemoveFileParams.codec : Codec RemoveFileParams :=
  .record ["mutation_id", "cwd", "path", "precondition"]
    (fun p => [.required "mutation_id" text p.mutationId, .optional "cwd" text p.cwd,
      .required "path" text p.path,
      .required "precondition" FilePrecondition.codec p.precondition])
    (fun m => do
      let mutationId ← m.required "mutation_id" text
      let cwd ← m.optional "cwd" text
      let path ← m.required "path" text
      let precondition ← m.required "precondition" FilePrecondition.codec
      return { mutationId, cwd, path, precondition })
    (by decide) (fun _ => rfl) fun p => by simp [Json.lookup_cons_eq_ite]

def StartParams.codec : Codec StartParams :=
  .record ["start_id", "command", "cwd", "env", "shell_snapshot", "io", "wait_ms",
      "max_output_bytes", "labels"]
    (fun p => [.required "start_id" text p.startId, .required "command" Command.codec p.command,
      .optional "cwd" text p.cwd, .required "env" StringMap.codec p.env,
      .skippable "shell_snapshot" ShellSnapshotRequest.codec p.shellSnapshot,
      .required "io" IoMode.codec p.io, .required "wait_ms" uint64 p.waitMs,
      .optional "max_output_bytes" uint64 p.maxOutputBytes,
      .required "labels" StringMap.codec p.labels])
    (fun m => do
      let startId ← m.required "start_id" text
      let command ← m.required "command" Command.codec
      let cwd ← m.optional "cwd" text
      let env ← m.withDefault "env" StringMap.codec .empty
      let shellSnapshot ← m.skippable "shell_snapshot" ShellSnapshotRequest.codec
      let io ← m.withDefault "io" IoMode.codec .default
      let waitMs ← m.withDefault "wait_ms" uint64 0
      let maxOutputBytes ← m.optional "max_output_bytes" uint64
      let labels ← m.withDefault "labels" StringMap.codec .empty
      return { startId, command, cwd, env, shellSnapshot, io, waitMs, maxOutputBytes, labels })
    (by decide) (fun _ => rfl) fun p => by simp [Json.lookup_cons_eq_ite]

def RunParams.codec : Codec RunParams :=
  .record ["run_id", "command", "cwd", "env", "shell_snapshot", "timeout_ms", "max_output_bytes",
      "labels"]
    (fun p => [.required "run_id" text p.runId, .required "command" Command.codec p.command,
      .optional "cwd" text p.cwd, .required "env" StringMap.codec p.env,
      .skippable "shell_snapshot" ShellSnapshotRequest.codec p.shellSnapshot,
      .optional "timeout_ms" uint64 p.timeoutMs,
      .optional "max_output_bytes" uint64 p.maxOutputBytes,
      .required "labels" StringMap.codec p.labels])
    (fun m => do
      let runId ← m.required "run_id" text
      let command ← m.required "command" Command.codec
      let cwd ← m.optional "cwd" text
      let env ← m.withDefault "env" StringMap.codec .empty
      let shellSnapshot ← m.skippable "shell_snapshot" ShellSnapshotRequest.codec
      let timeoutMs ← m.optional "timeout_ms" uint64
      let maxOutputBytes ← m.optional "max_output_bytes" uint64
      let labels ← m.withDefault "labels" StringMap.codec .empty
      return { runId, command, cwd, env, shellSnapshot, timeoutMs, maxOutputBytes, labels })
    (by decide) (fun _ => rfl) fun p => by simp [Json.lookup_cons_eq_ite]

def WaitMode.text : WaitMode → String
  | activity => "activity"
  | finishedOrTimeout => "finished_or_timeout"

def WaitMode.codec : Codec WaitMode :=
  .enumeration Json.variant WaitMode.text [.activity, .finishedOrTimeout] (fun _ => rfl)
    fun m => by cases m <;> decide

def ObserveParams.codec : Codec ObserveParams :=
  .record ["handle", "after_cursor", "wait_ms", "return_when", "max_output_bytes"]
    (fun p => [.required "handle" ExecutionHandle.codec p.handle,
      .optional "after_cursor" text p.afterCursor, .required "wait_ms" uint64 p.waitMs,
      .required "return_when" WaitMode.codec p.returnWhen,
      .optional "max_output_bytes" uint64 p.maxOutputBytes])
    (fun m => do
      let handle ← m.required "handle" ExecutionHandle.codec
      let afterCursor ← m.optional "after_cursor" text
      let waitMs ← m.withDefault "wait_ms" uint64 0
      let returnWhen ← m.withDefault "return_when" WaitMode.codec .activity
      let maxOutputBytes ← m.optional "max_output_bytes" uint64
      return { handle, afterCursor, waitMs, returnWhen, maxOutputBytes })
    (by decide) (fun _ => rfl) fun p => by simp [Json.lookup_cons_eq_ite]

def ListParams.codec : Codec ListParams :=
  .record ["state", "labels", "limit", "page_cursor"]
    (fun p => [.required "state" StateFilter.codec p.state,
      .required "labels" StringMap.codec p.labels, .required "limit" uint64 p.limit,
      .optional "page_cursor" text p.pageCursor])
    (fun m => do
      let state ← m.withDefault "state" StateFilter.codec .active
      let labels ← m.withDefault "labels" StringMap.codec .empty
      let limit ← m.withDefault "limit" uint64 pageSize
      let pageCursor ← m.optional "page_cursor" text
      return { state, labels, limit, pageCursor })
    (by decide) (fun _ => rfl) fun p => by simp [Json.lookup_cons_eq_ite]

/-! ### Operations -/

def OperationName.all : List OperationName :=
  [info, shutdown, start, run, terminateRun, get, observe, writeInput, closeInput, interrupt,
    terminate, resize, list, getFileMetadata, readFile, writeFile, removeFile, applyPatch]

def OperationName.codec : Codec OperationName :=
  .enumeration Json.variant OperationName.text OperationName.all (fun _ => rfl) fun n => by
    cases n <;> decide

/-- The parameters of an operation, if it has any. -/
def Operation.params : Operation → Option Json
  | info | shutdown => none
  | start params => some (StartParams.codec.write params)
  | run params => some (RunParams.codec.write params)
  | terminateRun runId gracePeriodMs => some <| .record [.required "run_id" text runId,
      .optional "grace_period_ms" uint64 gracePeriodMs]
  | get handle => some <| .record [.required "handle" ExecutionHandle.codec handle]
  | observe params => some (ObserveParams.codec.write params)
  | writeInput handle inputId dataBase64 => some <| .record [
      .required "handle" ExecutionHandle.codec handle, .required "input_id" text inputId,
      .required "data_base64" text dataBase64]
  | closeInput handle => some <| .record [.required "handle" ExecutionHandle.codec handle]
  | interrupt handle operationId => some <| .record [
      .required "handle" ExecutionHandle.codec handle,
      .required "operation_id" text operationId]
  | terminate handle gracePeriodMs => some <| .record [
      .required "handle" ExecutionHandle.codec handle,
      .optional "grace_period_ms" uint64 gracePeriodMs]
  | resize handle rows cols => some <| .record [.required "handle" ExecutionHandle.codec handle,
      .required "rows" uint16 rows, .required "cols" uint16 cols]
  | list params => some (ListParams.codec.write params)
  | getFileMetadata params => some (FilePathParams.codec.write params)
  | readFile params => some (ReadFileParams.codec.write params)
  | writeFile params => some (WriteFileParams.codec.write params)
  | removeFile params => some (RemoveFileParams.codec.write params)
  | applyPatch params => some (ApplyPatchRequest.codec.write params)

/-- An operation without parameters: there are none, or `null`. -/
def readUnit (operation : Operation) : Option Json → Option Operation
  | none | some .null => some operation
  | some _ => none

/-- The operation with a name and parameters. Parameters that are declared with the operation are
an object; those with a type of their own are read as that type is. -/
def OperationName.read (params : Option Json) : OperationName → Option Operation
  | info => readUnit .info params
  | shutdown => readUnit .shutdown params
  | start => (params.bind StartParams.codec.read).map .start
  | run => (params.bind RunParams.codec.read).map .run
  | terminateRun => do
    let m ← params.bind Json.namedMembers
    let runId ← m.required "run_id" Codec.text
    let gracePeriodMs ← m.optional "grace_period_ms" uint64
    return .terminateRun runId gracePeriodMs
  | get => do
    let m ← params.bind Json.namedMembers
    let handle ← m.required "handle" ExecutionHandle.codec
    return .get handle
  | observe => (params.bind ObserveParams.codec.read).map .observe
  | writeInput => do
    let m ← params.bind Json.namedMembers
    let handle ← m.required "handle" ExecutionHandle.codec
    let inputId ← m.required "input_id" Codec.text
    let dataBase64 ← m.required "data_base64" Codec.text
    return .writeInput handle inputId dataBase64
  | closeInput => do
    let m ← params.bind Json.namedMembers
    let handle ← m.required "handle" ExecutionHandle.codec
    return .closeInput handle
  | interrupt => do
    let m ← params.bind Json.namedMembers
    let handle ← m.required "handle" ExecutionHandle.codec
    let operationId ← m.required "operation_id" Codec.text
    return .interrupt handle operationId
  | terminate => do
    let m ← params.bind Json.namedMembers
    let handle ← m.required "handle" ExecutionHandle.codec
    let gracePeriodMs ← m.optional "grace_period_ms" uint64
    return .terminate handle gracePeriodMs
  | resize => do
    let m ← params.bind Json.namedMembers
    let handle ← m.required "handle" ExecutionHandle.codec
    let rows ← m.required "rows" uint16
    let cols ← m.required "cols" uint16
    return .resize handle rows cols
  | list => (params.bind ListParams.codec.read).map .list
  | getFileMetadata => (params.bind FilePathParams.codec.read).map .getFileMetadata
  | readFile => (params.bind ReadFileParams.codec.read).map .readFile
  | writeFile => (params.bind WriteFileParams.codec.read).map .writeFile
  | removeFile => (params.bind RemoveFileParams.codec.read).map .removeFile
  | applyPatch => (params.bind ApplyPatchRequest.codec.read).map .applyPatch

/-- The parameters of an operation that were written are read. -/
theorem OperationName.read_params (operation : Operation) :
    operation.name.read operation.params = some operation := by
  cases operation with
  | info | shutdown => rfl
  | start params | run params | observe params | list params | getFileMetadata params
  | readFile params | writeFile params | removeFile params | applyPatch params =>
    simp [Operation.params, Operation.name, read, Codec.read_write]
  | terminateRun | get | writeInput | closeInput | interrupt | terminate | resize =>
    simp [Operation.params, Operation.name, read, Json.namedMembers_record, Json.lookup_cons_eq_ite]

/-- The members of an operation: its name, and its parameters if it has any. -/
def Operation.members (operation : Operation) : List Member :=
  [.required "operation" OperationName.codec operation.name, ("params", operation.params)]

/-- An operation, from its members. -/
def Operation.ofMembers (m : Members) : Option Operation := do
  let name ← m.required "operation" OperationName.codec
  name.read (m.get "params")

/-! ### Batches -/

def BatchMode.text : BatchMode → String
  | sequential => "sequential"
  | parallel => "parallel"

def BatchMode.codec : Codec BatchMode :=
  .enumeration Json.variant BatchMode.text [.sequential, .parallel] (fun _ => rfl) fun m => by
    cases m <;> decide

/-- The members that an operation may have. -/
def singleFields : List String := ["operation", "params"]

/-- The members of an operation of a batch: its identity, and those of the operation. -/
def BatchOperation.members (item : BatchOperation) : List Member :=
  .required "request_id" text item.requestId :: item.operation.members

/-- An operation of a batch. It is an object with no other members. -/
def BatchOperation.read : Json → Option BatchOperation
  | .obj fields => do
    let requestId ← text.readRequired (fields.lookup "request_id")
    let rest := Json.without ["request_id"] fields
    if rest.any fun f => !singleFields.contains f.1 then none
    else
      let operation ← Operation.ofMembers ⟨fun name => rest.lookup name, false⟩
      return { requestId, operation }
  | _ => none

/-- An operation that was written is read. -/
theorem Operation.ofMembers_members (operation : Operation) :
    ofMembers (.of operation.members) = some operation := by
  simp [ofMembers, members, Json.lookup_cons_eq_ite, OperationName.read_params]

def BatchOperation.codec : Codec BatchOperation where
  write item := .record item.members
  read := BatchOperation.read
  read_write item := by
    obtain ⟨fields, hfields, hfirst, hlookup, hmem⟩ := @Json.exists_record_append
      item.operation.members [.required "request_id" text item.requestId] (by
        simp [Operation.members])
    have hid : fields.lookup "request_id" = some (text.write item.requestId) := by
      rw [hfirst "request_id" (by simp)]
      simp
    have hnames : ((Json.without ["request_id"] fields).any fun f =>
        !singleFields.contains f.1) = false :=
      List.any_eq_false.mpr fun f hf => by
        have hname : f.1 ∈ singleFields := hmem f hf
        rw [List.contains_iff_mem.mpr hname]
        exact Bool.false_ne_true
    have hmembers : (⟨fun name => (Json.without ["request_id"] fields).lookup name, false⟩ :
        Members) = .of item.operation.members :=
      congrArg (Members.mk · false) (funext hlookup)
    rw [BatchOperation.members, ← List.singleton_append, hfields, BatchOperation.read, hid]
    dsimp only
    rw [readRequired_write, hnames, hmembers, Operation.ofMembers_members]
    rfl
  write_ne_null _ := Json.record_ne_null

/-! ### Payloads and requests -/

def Batch.members (b : Batch) : List Member :=
  [.required "mode" BatchMode.codec b.mode,
    .unlessDefault "accepted_error_codes" (list ErrorCode.codec) [] b.acceptedErrorCodes,
    .required "operations" (list BatchOperation.codec) b.operations]

def Batch.ofMembers (m : Members) : Option Batch := do
  let mode ← m.withDefault "mode" BatchMode.codec .sequential
  let acceptedErrorCodes ← m.withDefault "accepted_error_codes" (list ErrorCode.codec) []
  let operations ← m.required "operations" (list BatchOperation.codec)
  return { mode, acceptedErrorCodes, operations }

theorem Batch.ofMembers_members (b : Batch) : ofMembers (.of b.members) = some b := by
  simp [ofMembers, members, Json.lookup_cons_eq_ite]

/-- The members of a payload: those of an operation, or of a batch. -/
def Payload.members : Payload → List Member
  | single operation => operation.members
  | batch b => b.members

/-- The members that a batch may have. -/
def batchFields : List String := ["mode", "accepted_error_codes", "operations"]

/-- A payload, from the members of an object: a batch if it has operations. It has no members of
the other form, and no others. -/
def Payload.ofFields (fields : List (String × Json)) : Option Payload :=
  let isBatch := (fields.lookup "operations").isSome
  let allowed := if isBatch then batchFields else singleFields
  if fields.any fun f => !allowed.contains f.1 then none
  else
    let m : Members := ⟨fun name => fields.lookup name, false⟩
    if isBatch then (Batch.ofMembers m).map .batch else (Operation.ofMembers m).map .single

/-- A payload that was written is read. -/
theorem Payload.ofFields_members {payload : Payload} {fields : List (String × Json)}
    (hlookup : ∀ name, fields.lookup name = (payload.members.lookup name).join)
    (hmem : ∀ f ∈ fields, f.1 ∈ payload.members.map Prod.fst) :
    ofFields fields = some payload := by
  have hallowed (allowed : List String) (h : payload.members.map Prod.fst = allowed) :
      (fields.any fun f => !allowed.contains f.1) = false :=
    List.any_eq_false.mpr fun f hf => by
      rw [List.contains_iff_mem.mpr (h ▸ hmem f hf)]
      exact Bool.false_ne_true
  have hmembers : (⟨fun name => fields.lookup name, false⟩ : Members) = .of payload.members :=
    congrArg (Members.mk · false) (funext hlookup)
  have hoperations := hlookup "operations"
  unfold ofFields
  dsimp only
  rw [hmembers]
  cases payload with
  | single operation =>
    have hnone : fields.lookup "operations" = none := by
      simpa [members, Operation.members, Json.lookup_cons_eq_ite] using hoperations
    rw [hnone, Option.isSome_none, if_neg Bool.false_ne_true, if_neg Bool.false_ne_true,
      hallowed singleFields rfl, if_neg Bool.false_ne_true, members, Operation.ofMembers_members,
      Option.map_some]
  | batch b =>
    have hsome : (fields.lookup "operations").isSome = true := by
      simp [hoperations, members, Batch.members, Json.lookup_cons_eq_ite]
    rw [hsome, if_pos rfl, if_pos rfl, hallowed batchFields rfl, if_neg Bool.false_ne_true, members,
      Batch.ofMembers_members, Option.map_some]

/-- The members of a request that do not belong to its payload. -/
def Request.envelope (r : Request Payload) : List Member :=
  [.required "protocol_version" uint32 r.protocolVersion, .required "request_id" text r.requestId,
    .skippable "expected_generation_id" Uuid.codec r.expectedGenerationId]

/-- The names of the members of a request that do not belong to its payload. -/
def envelopeFields : List String := ["protocol_version", "request_id", "expected_generation_id"]

/-- A request: all members but those of the envelope are its payload. -/
def Request.read : Json → Option (Request Payload)
  | .obj fields => do
    let m : Members := ⟨fun name => fields.lookup name, false⟩
    let protocolVersion ← m.required "protocol_version" uint32
    let requestId ← m.required "request_id" text
    let expectedGenerationId ← m.skippable "expected_generation_id" Uuid.codec
    let payload ← Payload.ofFields (Json.without envelopeFields fields)
    return { protocolVersion, requestId, expectedGenerationId, payload }
  | _ => none

def Request.write (r : Request Payload) : Json := .record (r.envelope ++ r.payload.members)

theorem Request.nodup_members (r : Request Payload) :
    ((r.envelope ++ r.payload.members).map Prod.fst).Nodup := by
  cases h : r.payload with
  | single operation => simp [envelope, Payload.members, Operation.members]
  | batch b => simp [envelope, Payload.members, Batch.members]

/-- A request that was written is read. -/
theorem Request.read_write (r : Request Payload) : read r.write = some r := by
  obtain ⟨fields, hfields, hfirst, hlookup, hmem⟩ := Json.exists_record_append r.nodup_members
  have hversion := hfirst "protocol_version" (by simp [envelope])
  have hid := hfirst "request_id" (by simp [envelope])
  have hgeneration := hfirst "expected_generation_id" (by simp [envelope])
  have hpayload : Payload.ofFields (Json.without envelopeFields fields) = some r.payload :=
    Payload.ofFields_members hlookup hmem
  rw [write, hfields, read]
  simp [hversion, hid, hgeneration, hpayload, envelope, Json.lookup_cons_eq_ite]

end Protocol

end ExecutionProvider
