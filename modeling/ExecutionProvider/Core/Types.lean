import ExecutionProvider.Protocol.Uuid
import Mathlib.Data.String.Basic

/-!
# The data of the execution core

What the core is asked about and what it answers: commands, executions as they are seen at some
moment, and pieces of their output; preconditions and patches of files. Times, offsets and
revisions are natural numbers; other numbers have the width that they have in the source.

## Main definitions

* `StringMap`: texts by name.
* `Command`, `IoMode`, `ExecutionResult`: what is run, how, and what came of it.
* `ExecutionSnapshot`: an execution at some moment (`Execution` in the source).
* `OutputChunk`, `Cursor`, `Observation`: the output of an execution.
* `RunResult`, `TerminateRunReceipt`, `ExecutionPage`: what is said of runs, and of many executions.
* `FilePrecondition`, `ApplyPatchRequest`: changes of files.
-/

namespace ExecutionProvider

/-- Texts by name, in the order of their names. -/
structure StringMap where
  entries : List (String × String)
  sorted : entries.Pairwise fun a b => a.1 < b.1
deriving DecidableEq

/-- The map without entries. -/
def StringMap.empty : StringMap := ⟨[], .nil⟩

/-- A moment of the system clock, counted from its epoch. -/
structure SystemTime where
  secs : ℕ
  nanos : ℕ
deriving DecidableEq, Repr

/-- An execution of a runtime. -/
structure ExecutionHandle where
  id : Uuid
  generationId : Uuid
deriving DecidableEq

/-- The kinds of shells. -/
inductive ShellKind
  | sh
  | bash
  | zsh
  | powerShell
  | cmd
deriving DecidableEq, Repr

/-- A shell. -/
structure Shell where
  executable : String
  kind : ShellKind
deriving DecidableEq

/-- The scope for which the profile of a shell is kept. -/
structure ShellSnapshotRequest where
  scopeId : String
deriving DecidableEq

/-- What is run: a program with its arguments, or a script in a shell. -/
inductive Command
  | program (executable : String) (args : List String)
  | shell (script : String) (shell : Option Shell) (login : Bool)
deriving DecidableEq

/-- What an execution reads from and writes to. -/
inductive IoMode
  | pipes (stdin : Bool)
  | pty (rows cols : UInt16)
deriving DecidableEq

/-- Whether a mode is that of a terminal. -/
def IoMode.isPty : IoMode → Bool
  | pty _ _ => true
  | pipes _ => false

/-- The mode when none is given. -/
def IoMode.default : IoMode := .pipes false

/-- The state of an execution. -/
inductive ExecutionState
  | starting
  | running
  | stopping
  | finished
deriving DecidableEq, Repr

/-- What came of an execution. -/
inductive ExecutionResult
  | exited (exitCode : Option UInt32) (signal : Option String)
  | terminated (exitCode : Option UInt32) (signal : Option String)
  | timedOut (exitCode : Option UInt32) (signal : Option String)
  | startFailed (message : String)
  | lost (message : String)
deriving DecidableEq

/-- An execution at some moment. -/
structure ExecutionSnapshot where
  handle : ExecutionHandle
  command : Command
  resolvedShell : Option Shell
  cwd : String
  io : IoMode
  labels : StringMap
  state : ExecutionState
  result : Option ExecutionResult
  createdAt : SystemTime
  startedAt : Option SystemTime
  finishedAt : Option SystemTime
  outputIncomplete : Bool
  inputError : Option String
deriving DecidableEq

/-- The streams that an execution writes to. -/
inductive OutputStream
  | stdout
  | stderr
  | terminal
deriving DecidableEq, Repr

/-- Bytes written to one stream. -/
structure OutputChunk where
  stream : OutputStream
  data : List UInt8
deriving DecidableEq

/-- The bytes of a chunk, each with its stream. -/
def OutputChunk.bytes (chunk : OutputChunk) : List (OutputStream × UInt8) :=
  chunk.data.map fun b => (chunk.stream, b)

@[simp] theorem OutputChunk.length_bytes (chunk : OutputChunk) :
    chunk.bytes.length = chunk.data.length := List.length_map _

/-- A position in the output and in the life of an execution. -/
structure Cursor where
  handle : ExecutionHandle
  offset : ℕ
  revision : ℕ
deriving DecidableEq

/-- Why an observation came back. -/
inductive ReturnReason
  | activity
  | finished
  | waitElapsed
  | outputLimit
deriving DecidableEq, Repr

/-- What was seen of an execution and its output. -/
structure Observation where
  execution : ExecutionSnapshot
  output : List OutputChunk
  nextCursor : Cursor
  hasMore : Bool
  outputGap : Bool
  returnReason : ReturnReason
deriving DecidableEq

/-! ### Runs and pages -/

/-- The file in which the output of a run is kept. -/
structure RunOutputFile where
  artifactId : Uuid
  path : String
  sizeBytes : UInt64
  sha256 : String
  complete : Bool
  expiresAt : SystemTime
deriving DecidableEq

/-- What came of a run, with the end of its output. -/
structure RunResult where
  runId : String
  execution : ExecutionSnapshot
  outputFile : RunOutputFile
  output : List OutputChunk
  outputTruncated : Bool
deriving DecidableEq

/-- The state of a run that is terminated. -/
inductive TerminateRunState
  | pending
  | terminating
  | finished
deriving DecidableEq

/-- What is known of a run that is terminated. -/
structure TerminateRunReceipt where
  runId : String
  state : TerminateRunState
  execution : Option ExecutionSnapshot
deriving DecidableEq

/-- Which executions are listed. -/
inductive StateFilter
  | active
  | finished
  | all
deriving DecidableEq

/-- A position in a list of executions. -/
structure PageCursor where
  generationId : Uuid
  after : UInt64
  through : UInt64
  state : StateFilter
  labels : StringMap
deriving DecidableEq

/-- A page of a list of executions. -/
structure ExecutionPage where
  executions : List ExecutionSnapshot
  nextPageCursor : Option PageCursor
deriving DecidableEq

/-! ### Files -/

/-- What must hold of a file that is changed. -/
inductive FilePrecondition
  | missing
  | sha256 (sha256 : String)
deriving DecidableEq

/-- A replacement of one text by another. -/
structure TextEdit where
  oldText : String
  newText : String
deriving DecidableEq

/-- The replacements in one file. -/
structure ReplacementFile where
  path : String
  edits : List TextEdit
deriving DecidableEq

/-- A patch in one of its two formats. -/
inductive PatchInput
  | codex (text : String)
  | textReplacements (files : List ReplacementFile)
deriving DecidableEq

/-- The application of a patch. -/
structure ApplyPatchRequest where
  mutationId : String
  cwd : Option String
  patch : PatchInput
deriving DecidableEq

end ExecutionProvider
