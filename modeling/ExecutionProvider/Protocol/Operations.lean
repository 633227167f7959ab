import ExecutionProvider.Core.Error
import ExecutionProvider.Core.Types
import ExecutionProvider.Protocol.Messages

/-!
# Operations

What a request asks for: one operation with its parameters, or a batch of operations.

## Main definitions

* `Operation`, `OperationName`: the operations, and the names under which they are requested.
* `Batch`, `Payload`: what a request asks for.
* `Payload.kind`: what is known of a payload outside the core.
-/

namespace ExecutionProvider.Protocol

/-! ### Parameters -/

/-- A file. -/
structure FilePathParams where
  cwd : Option String
  path : String
deriving DecidableEq

/-- A file that is read. -/
structure ReadFileParams where
  cwd : Option String
  path : String
  maxBytes : Option UInt64
deriving DecidableEq

/-- How a file is written. -/
inductive WriteMode
  | conditional
  | overwrite
deriving DecidableEq

/-- A file that is written. -/
structure WriteFileParams where
  mutationId : String
  cwd : Option String
  path : String
  dataBase64 : String
  createParentDirectories : Bool
  mode : WriteMode
  precondition : Option FilePrecondition
deriving DecidableEq

/-- How the core writes a file. -/
inductive WriteFileMode
  | conditional (precondition : FilePrecondition)
  | overwrite
deriving DecidableEq

/-- The mode for the core: a conditional write has a precondition, an overwrite has none. -/
def WriteFileParams.coreMode (params : WriteFileParams) : Result WriteFileMode :=
  match params.mode, params.precondition with
  | .conditional, some precondition => .ok (.conditional precondition)
  | .conditional, none => .error (.invalid "conditional file write requires a precondition")
  | .overwrite, none => .ok .overwrite
  | .overwrite, some _ =>
    .error (.invalid "overwrite file write must not include a precondition")

/-- A file that is removed. -/
structure RemoveFileParams where
  mutationId : String
  cwd : Option String
  path : String
  precondition : FilePrecondition
deriving DecidableEq

/-- An execution that is started. -/
structure StartParams where
  startId : String
  command : Command
  cwd : Option String
  env : StringMap
  shellSnapshot : Option ShellSnapshotRequest
  io : IoMode
  waitMs : UInt64
  maxOutputBytes : Option UInt64
  labels : StringMap
deriving DecidableEq

/-- An execution that is run to its end. -/
structure RunParams where
  runId : String
  command : Command
  cwd : Option String
  env : StringMap
  shellSnapshot : Option ShellSnapshotRequest
  timeoutMs : Option UInt64
  maxOutputBytes : Option UInt64
  labels : StringMap
deriving DecidableEq

/-- What an observation waits for. -/
inductive WaitMode
  | activity
  | finishedOrTimeout
deriving DecidableEq

/-- An execution that is observed. -/
structure ObserveParams where
  handle : ExecutionHandle
  afterCursor : Option String
  waitMs : UInt64
  returnWhen : WaitMode
  maxOutputBytes : Option UInt64
deriving DecidableEq

/-- The executions that are listed, page by page. -/
structure ListParams where
  state : StateFilter
  labels : StringMap
  limit : UInt64
  pageCursor : Option String
deriving DecidableEq

/-- The size of a page when none is given. -/
def pageSize : UInt64 := 50

/-! ### Operations -/

/-- The names of the operations. -/
inductive OperationName
  | info
  | shutdown
  | start
  | run
  | terminateRun
  | get
  | observe
  | writeInput
  | closeInput
  | interrupt
  | terminate
  | resize
  | list
  | getFileMetadata
  | readFile
  | writeFile
  | removeFile
  | applyPatch
deriving DecidableEq

/-- How a name is written. -/
def OperationName.text : OperationName → String
  | info => "runtime.info"
  | shutdown => "runtime.shutdown"
  | start => "execution.start"
  | run => "execution.run"
  | terminateRun => "execution.terminate_run"
  | get => "execution.get"
  | observe => "execution.observe"
  | writeInput => "execution.write_input"
  | closeInput => "execution.close_input"
  | interrupt => "execution.interrupt"
  | terminate => "execution.terminate"
  | resize => "execution.resize_terminal"
  | list => "execution.list"
  | getFileMetadata => "filesystem.get_metadata"
  | readFile => "filesystem.read_file"
  | writeFile => "filesystem.write_file"
  | removeFile => "filesystem.remove_file"
  | applyPatch => "filesystem.apply_patch"

/-- An operation with its parameters. -/
inductive Operation
  | info
  | shutdown
  | start (params : StartParams)
  | run (params : RunParams)
  | terminateRun (runId : String) (gracePeriodMs : Option UInt64)
  | get (handle : ExecutionHandle)
  | observe (params : ObserveParams)
  | writeInput (handle : ExecutionHandle) (inputId dataBase64 : String)
  | closeInput (handle : ExecutionHandle)
  | interrupt (handle : ExecutionHandle) (operationId : String)
  | terminate (handle : ExecutionHandle) (gracePeriodMs : Option UInt64)
  | resize (handle : ExecutionHandle) (rows cols : UInt16)
  | list (params : ListParams)
  | getFileMetadata (params : FilePathParams)
  | readFile (params : ReadFileParams)
  | writeFile (params : WriteFileParams)
  | removeFile (params : RemoveFileParams)
  | applyPatch (params : ApplyPatchRequest)
deriving DecidableEq

/-- The name of an operation. -/
def Operation.name : Operation → OperationName
  | info => .info
  | shutdown => .shutdown
  | start _ => .start
  | run _ => .run
  | terminateRun .. => .terminateRun
  | get _ => .get
  | observe _ => .observe
  | writeInput .. => .writeInput
  | closeInput _ => .closeInput
  | interrupt .. => .interrupt
  | terminate .. => .terminate
  | resize .. => .resize
  | list _ => .list
  | getFileMetadata _ => .getFileMetadata
  | readFile _ => .readFile
  | writeFile _ => .writeFile
  | removeFile _ => .removeFile
  | applyPatch _ => .applyPatch

/-! ### Payloads -/

/-- Whether the operations of a batch wait for each other. -/
inductive BatchMode
  | sequential
  | parallel
deriving DecidableEq

/-- An operation of a batch. -/
structure BatchOperation where
  requestId : String
  operation : Operation
deriving DecidableEq

/-- A batch of operations, with the codes of the errors that do not fail it. -/
structure Batch where
  mode : BatchMode
  acceptedErrorCodes : List ErrorCode
  operations : List BatchOperation
deriving DecidableEq

/-- What a request asks for. -/
inductive Payload
  | single (operation : Operation)
  | batch (operations : Batch)
deriving DecidableEq

/-- What is known of an operation outside the core. -/
def Operation.kind : Operation → OperationKind
  | shutdown => .shutdown
  | terminateRun .. => .terminateRun
  | writeFile params => .writeFile (match params.coreMode with | .ok _ => true | .error _ => false)
  | _ => .other

/-- What is known of a payload outside the core. -/
def Payload.kind : Payload → PayloadKind
  | single operation => .single operation.kind
  | batch b => .batch (b.operations.map fun item => (item.requestId, item.operation.kind))

end ExecutionProvider.Protocol
