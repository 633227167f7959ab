import ExecutionProvider.Protocol.Codec

/-!
# What hosts answer

The results of operations as they are put into responses. Executions appear in them as members, by
themselves, or in a list.

## Main definitions

* `ExecutionSnapshot.value`: how an execution is written.
* `OperationResult`, `OperationResult.value`: the results of operations, and how they are written.
* `HostResponse`, `HostResponse.toResponse`: a response, to an operation or a batch.
-/

namespace ExecutionProvider

/-! ### Executions -/

/-- How a moment is written. -/
def SystemTime.value (t : SystemTime) : Json :=
  .mkObj [("secs_since_epoch", .num (toString t.secs)),
    ("nanos_since_epoch", .num (toString t.nanos))]

/-- How a state is written. -/
def ExecutionState.text : ExecutionState → String
  | starting => "starting"
  | running => "running"
  | stopping => "stopping"
  | finished => "finished"

/-- How the end of a process is written. -/
def ExecutionResult.ended (reason : String) (exitCode : Option UInt32) (signal : Option String) :
    Json :=
  .mkObj [("reason", .str reason), ("exit_code", Codec.uint32.nullable exitCode),
    ("signal", Codec.text.nullable signal)]

/-- How the result of an execution is written. -/
def ExecutionResult.value : ExecutionResult → Json
  | exited exitCode signal => ended "exited" exitCode signal
  | terminated exitCode signal => ended "terminated" exitCode signal
  | timedOut exitCode signal => ended "timed_out" exitCode signal
  | startFailed message => .mkObj [("reason", .str "start_failed"), ("message", .str message)]
  | lost message => .mkObj [("reason", .str "lost"), ("message", .str message)]

/-- The members of an execution but for its command. -/
def ExecutionSnapshot.otherFields (e : ExecutionSnapshot) : List (String × Json) :=
  [("handle", ExecutionHandle.codec.write e.handle),
    ("resolved_shell", Shell.codec.nullable e.resolvedShell), ("cwd", .str e.cwd),
    ("io", IoMode.codec.write e.io), ("labels", StringMap.codec.write e.labels),
    ("state", .str e.state.text), ("result", .ofOption (e.result.map ExecutionResult.value)),
    ("created_at", e.createdAt.value),
    ("started_at", .ofOption (e.startedAt.map SystemTime.value)),
    ("finished_at", .ofOption (e.finishedAt.map SystemTime.value)),
    ("output_incomplete", .bool e.outputIncomplete),
    ("input_error", Codec.text.nullable e.inputError)]

/-- How an execution is written. -/
def ExecutionSnapshot.value (e : ExecutionSnapshot) : Json :=
  .mkObj (("command", Command.codec.write e.command) :: e.otherFields)

/-- How a stream is written. -/
def OutputStream.text : OutputStream → String
  | stdout => "stdout"
  | stderr => "stderr"
  | terminal => "terminal"

/-- How a reason is written. -/
def ReturnReason.text : ReturnReason → String
  | activity => "activity"
  | finished => "finished"
  | waitElapsed => "wait_elapsed"
  | outputLimit => "output_limit"

/-- How the file with the output of a run is written. -/
def RunOutputFile.value (f : RunOutputFile) : Json :=
  .mkObj [("artifact_id", .str f.artifactId.text), ("path", .str f.path),
    ("size_bytes", Codec.uint64.write f.sizeBytes), ("sha256", .str f.sha256),
    ("complete", .bool f.complete), ("expires_at", f.expiresAt.value)]

/-- How the state of a run that is terminated is written. -/
def TerminateRunState.text : TerminateRunState → String
  | pending => "pending"
  | terminating => "terminating"
  | finished => "finished"

/-- How the receipt of a run that is terminated is written. -/
def TerminateRunReceipt.value (r : TerminateRunReceipt) : Json :=
  .mkObj [("run_id", .str r.runId), ("state", .str r.state.text),
    ("execution", .ofOption (r.execution.map ExecutionSnapshot.value))]

namespace Protocol

/-- How bytes and cursors are turned into texts. -/
structure TextEncoding where
  base64 : List UInt8 → String
  cursor : Cursor → String
  pageCursor : PageCursor → String

/-! ### Results -/

/-- The results of operations: observations of executions that are started or observed, runs, runs
that are terminated, executions that are asked for, interrupted, terminated or resized, pages of
executions, and the results that no executions appear in. -/
inductive OperationResult
  | observation (result : Observation)
  | run (result : RunResult)
  | terminateRun (receipt : TerminateRunReceipt)
  | execution (snapshot : ExecutionSnapshot)
  | list (page : ExecutionPage)
  | other (result : Json)

variable (c : TextEncoding)

/-- How pieces of output are written. -/
def outputValue (output : List OutputChunk) : Json :=
  .arr (output.map fun chunk =>
    .mkObj [("stream", .str chunk.stream.text), ("data_base64", .str (c.base64 chunk.data))])

/-- How an observation is written. -/
def observation (result : Observation) : Json :=
  .mkObj [("execution", result.execution.value), ("output", outputValue c result.output),
    ("next_cursor", .str (c.cursor result.nextCursor)), ("has_more", .bool result.hasMore),
    ("output_gap", .bool result.outputGap), ("return_reason", .str result.returnReason.text)]

/-- How what came of a run is written. -/
def runResult (result : RunResult) : Json :=
  .mkObj [("run_id", .str result.runId), ("execution", result.execution.value),
    ("output_file", result.outputFile.value), ("output", outputValue c result.output),
    ("output_truncated", .bool result.outputTruncated)]

/-- How a page is written. -/
def pageValue (page : ExecutionPage) : Json :=
  .mkObj [("executions", .arr (page.executions.map ExecutionSnapshot.value)),
    ("next_page_cursor", .ofOption (page.nextPageCursor.map fun p => .str (c.pageCursor p)))]

/-- How a result is written. -/
def OperationResult.value : OperationResult → Json
  | observation result => Protocol.observation c result
  | run result => runResult c result
  | terminateRun receipt => receipt.value
  | execution snapshot => snapshot.value
  | list page => pageValue c page
  | other result => result

/-! ### Responses -/

/-- What came of an operation of a batch. -/
inductive OperationOutcome
  | ok (result : OperationResult)
  | error (error : Error)
  | skipped (reason : String)

/-- What came of an operation of a batch, with its identity. -/
structure OperationResponse where
  requestId : String
  outcome : OperationOutcome

/-- How what came of an operation is written. -/
def OperationResponse.value (r : OperationResponse) : Json :=
  match r.outcome with
  | .ok result => .mkObj [("request_id", .str r.requestId), ("status", .str "ok"),
      ("result", result.value c)]
  | .error error => .mkObj [("request_id", .str r.requestId), ("status", .str "error"),
      ("error", errorValue error.code.text error.message)]
  | .skipped reason => .mkObj [("request_id", .str r.requestId), ("status", .str "skipped"),
      ("reason", .str reason)]

/-- What came of the payload of a request. -/
inductive PayloadResult
  | single (result : OperationResult)
  | batch (succeeded : Bool) (results : List OperationResponse)

/-- How what came of a payload is written. -/
def PayloadResult.value : PayloadResult → Json
  | single result => result.value c
  | batch succeeded results => .mkObj [("succeeded", .bool succeeded),
      ("results", .arr (results.map (OperationResponse.value c)))]

/-- The response of a host to a request. -/
structure HostResponse where
  protocolVersion : UInt32
  requestId : Option String
  generationId : Uuid
  outcome : Result PayloadResult

/-- The response as it travels. -/
def HostResponse.toResponse (r : HostResponse) : Response where
  protocolVersion := r.protocolVersion
  requestId := r.requestId
  generationId := r.generationId
  outcome :=
    match r.outcome with
    | .ok result => .ok (result.value c)
    | .error error => .error error

end Protocol

end ExecutionProvider
