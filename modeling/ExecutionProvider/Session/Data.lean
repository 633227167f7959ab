import ExecutionProvider.Foundation.Table
import ExecutionProvider.Runtime.OutputSpool
import ExecutionProvider.Runtime.Registry

/-!
# The data of a session

A session keeps what is known of an execution behind a lock. The task that drives the process, the
readers of its output, the task that writes its input and the callers of the session change it in
short sections. Each of these sections is a function here.

What the operating system answers within a section, the hash functions and the clocks come from
outside.

## Main definitions

* `Data`: what is behind the lock.
* `Queue`: the input on its way to the process, and what may be added to it.
* `Data.terminate`, `Data.launch`, `Data.rootExit`, `Data.finish`: the sections that change the
  state of the execution.
* `Data.append`, `Data.leaveInput`: the sections of the readers and of the input task.
* `write`, `closeInput`, `interrupt`, `resize`: the sections of the callers.

## Main results

* `enqueue_error`, `write_error`: what is refused changes nothing.
-/

namespace ExecutionProvider.Session

open ExecutionProvider.Runtime (Journal OutputSpool StopReason WriteOutcome)

/-! ### The data behind the lock -/

/-- Whether the standard input of a process takes more bytes. -/
inductive StdinState
  | opened
  | closing
  | closed
deriving DecidableEq, Repr

/-- What is confirmed to the caller that wrote some input. -/
structure InputReceipt where
  inputId : String
  acceptedBytes : ℕ
deriving DecidableEq

/-- The limits of a runtime that its sessions heed. -/
structure Limits where
  maxRetainedOutputBytes : ℕ
  maxQueuedInputBytes : ℕ
  maxInputReceipts : ℕ
  maxInterruptReceipts : ℕ
  terminationGrace : ℕ
  outputDrainTimeout : ℕ

/-- What a session keeps behind its lock. Of the control handle and of the sending end of the
input channel it is only kept whether they are there. Input receipts come with the hash of the
bytes. -/
structure Data where
  execution : ExecutionSnapshot
  journal : Journal
  launched : Bool
  rootExited : Bool
  finishedAt : Option ℕ
  stopDeadline : Option ℕ
  stopReason : Option StopReason
  control : Bool
  stdin : StdinState
  inputTx : Bool
  inputReceipts : Table String (List UInt8 × InputReceipt)
  interruptReceipts : Table String (Result ExecutionSnapshot)
  outputSpool : Option OutputSpool

/-- The data of a session that was just admitted. -/
def Data.new (execution : ExecutionSnapshot) (limits : Limits) (spool : Option OutputSpool) :
    Data where
  execution := execution
  journal := .new limits.maxRetainedOutputBytes
  launched := false
  rootExited := false
  finishedAt := none
  stopDeadline := none
  stopReason := none
  control := false
  stdin := if execution.io = .pipes false then .closed else .opened
  inputTx := false
  inputReceipts := ∅
  interruptReceipts := ∅
  outputSpool := spool

/-! ### The input queue -/

/-- What is sent to the input task. -/
inductive Input
  | bytes (data : List UInt8)
  | close
deriving DecidableEq

/-- The bytes of an item, each of which holds a permit. -/
def Input.data : Input → List UInt8
  | bytes data => data
  | close => []

/-- The channel to the input task with its unread items, and the free permits of the semaphore.
The channel is connected while its receiving end exists. -/
structure Queue where
  items : List Input
  available : ℕ
  connected : Bool
deriving DecidableEq

namespace Queue

/-- Permits are taken, if there are as many. -/
def acquire (q : Queue) (count : ℕ) : Option Queue :=
  if q.available < count then none else some { q with available := q.available - count }

/-- Permits are given back. -/
def release (q : Queue) (count : ℕ) : Queue := { q with available := q.available + count }

/-- An item is sent, if there is somebody to receive it. -/
def send (q : Queue) (input : Input) : Option Queue :=
  if q.connected then some { q with items := q.items ++ [input] } else none

/-- The bytes that have been sent and not been received. -/
def bytes (q : Queue) : List UInt8 := q.items.flatMap Input.data

/-- The receiving end of the channel goes, and with it the items in the channel. -/
def disconnect (q : Queue) : Queue :=
  { items := [], available := q.available + q.bytes.length, connected := false }

end Queue

/-- Bytes are sent to the input task, with a permit for each of them. A permit that does not reach
the channel is given back. -/
def enqueue (d : Data) (q : Queue) (bytes : List UInt8) : Result Unit × Queue :=
  if 2 ^ 32 ≤ bytes.length then (.error ⟨.resourceLimit, "input exceeds queue capacity"⟩, q)
  else
    match q.acquire bytes.length with
    | none => (.error ⟨.resourceLimit, "input queue is full"⟩, q)
    | some q' =>
      if d.inputTx then
        match q'.send (.bytes bytes) with
        | none => (.error ⟨.stdinClosed, "stdin is closed"⟩, q'.release bytes.length)
        | some q'' => (.ok (), q'')
      else (.error ⟨.stdinClosed, "stdin is closed"⟩, q'.release bytes.length)

/-! ### The state of the execution -/

namespace Data

variable (d : Data)

/-- A revision of something other than the output. -/
def revise : Data := { d with journal := { d.journal with revision := d.journal.revision + 1 } }

/-- The session is asked to stop. The first request counts. -/
def terminate (now grace : ℕ) (reason : StopReason) : Data :=
  if d.execution.state ≠ .finished ∧ d.rootExited = false ∧ d.stopDeadline = none then
    revise { d with
      stopDeadline := some (now + grace)
      stopReason := some reason
      execution := { d.execution with state := .stopping } }
  else d

/-- The process was spawned, with or without somewhere to write its input. -/
def launch (writer : Bool) (startedAt : SystemTime) : Data :=
  revise { d with
    control := true
    inputTx := writer
    launched := true
    execution := { d.execution with
      state := if d.stopDeadline = none then .running else d.execution.state
      startedAt := some startedAt } }

/-- The process exited. No more input is taken, also while output is drained. -/
def rootExit : Data :=
  revise { d with
    rootExited := true
    execution := { d.execution with state := .stopping }
    stdin := .closed
    inputTx := false }

/-- The control handle is given up. -/
def dropControl : Data := { d with control := false }

/-- Some output may be missing. -/
def loseOutput : Data := { d with execution := { d.execution with outputIncomplete := true } }

/-- Some output may be missing because its file failed. -/
def noteSpool : Data :=
  if d.outputSpool.any fun s => s.error.isSome then d.loseOutput else d

/-- The execution is finished. The output file is closed, which may fail. -/
def finish (sha256 : List UInt8 → String) (closeError : Option String) (result : ExecutionResult)
    (finishedAt : SystemTime) (now : ℕ) : Data :=
  let d := noteSpool { d with outputSpool := d.outputSpool.map (.finalize sha256 closeError) }
  revise { d with
    execution := { d.execution with
      state := .finished
      result := some result
      finishedAt := some finishedAt }
    finishedAt := some now
    launched := true
    stdin := .closed
    inputTx := false
    control := false }

/-! ### Output and input -/

/-- The spool with some more output. -/
def spool (outcomes : List WriteOutcome) (stream : OutputStream) (data : List UInt8) :
    Option OutputSpool → Option (Option OutputSpool)
  | none => some none
  | some s => (s.append outcomes stream data).map some

/-- Output arrives. There is no result when the journal or the tail of the spool runs out of
chunks. -/
def append (outcomes : List WriteOutcome) (stream : OutputStream) (data : List UInt8) :
    Option Data :=
  match d.journal.append stream data, spool outcomes stream data d.outputSpool with
  | some journal, some outputSpool =>
    some (noteSpool { d with journal := journal, outputSpool := outputSpool })
  | _, _ => none

/-- The input task ends, possibly with an error. -/
def leaveInput (error : Option String) : Data :=
  let d := { d with stdin := .closed, inputTx := false }
  match error with
  | none => d
  | some message => revise { d with execution := { d.execution with inputError := some message } }

end Data

/-! ### Callers -/

/-- A section that sends bytes to the process. Writing under the same identity again is confirmed
without sending anything. -/
def write (digest : List UInt8 → List UInt8) (limits : Limits) (d : Data) (q : Queue)
    (inputId : String) (bytes : List UInt8) : Result InputReceipt × Data × Queue :=
  if inputId = "" then (.error (.invalid "input_id is empty"), d, q)
  else
    let hash := digest bytes
    let receipt : InputReceipt := ⟨inputId, bytes.length⟩
    let accepted : Data :=
      { d with inputReceipts := d.inputReceipts.insert inputId (hash, receipt) }
    match d.inputReceipts.lookup inputId with
    | some (previousHash, receipt) =>
      if previousHash ≠ hash then
        (.error ⟨.idempotencyConflict, "input_id was used for different bytes"⟩, d, q)
      else (.ok receipt, d, q)
    | none =>
      if bytes = [] then
        if limits.maxInputReceipts ≤ d.inputReceipts.entries.length then
          (.error ⟨.resourceLimit, "input receipt limit reached"⟩, d, q)
        else (.ok receipt, accepted, q)
      else if d.execution.state ≠ .running then
        (.error ⟨.invalidState, "execution is not running"⟩, d, q)
      else if d.stdin ≠ .opened then
        (.error ⟨.stdinClosed, "stdin is closing or closed"⟩, d, q)
      else if limits.maxInputReceipts ≤ d.inputReceipts.entries.length then
        (.error ⟨.resourceLimit, "input receipt limit reached"⟩, d, q)
      else
        match enqueue d q bytes with
        | (.error e, q') => (.error e, d, q')
        | (.ok (), q') => (.ok receipt, accepted, q')

/-- The section that closes the input of the process. -/
def closeInput (d : Data) (q : Queue) : Result StdinState × Data × Queue :=
  if d.execution.io.isPty then
    (.error ⟨.unsupportedOperation, "a terminal does not support pipe-style EOF"⟩, d, q)
  else if d.stdin = .opened then
    if d.inputTx then
      match q.send .close with
      | none => (.error ⟨.stdinClosed, "stdin is closed"⟩, d, q)
      | some q' => (.ok .closing, { d with stdin := .closing }, q')
    else (.error ⟨.stdinClosed, "stdin is unavailable"⟩, d, q)
  else (.ok d.stdin, d, q)

/-- The section that interrupts the process, given what its control handle answers. On Windows the
interrupt of a terminal is a byte of its input. There is no result when the handle is not there. -/
def interrupt (windows : Bool) (limits : Limits) (d : Data) (q : Queue) (operationId : String)
    (answer : Result Unit) : Option (Result ExecutionSnapshot × Data × Queue) :=
  if operationId = "" then some (.error (.invalid "operation_id is empty"), d, q)
  else
    match d.interruptReceipts.lookup operationId with
    | some result => some (result, d, q)
    | none =>
      if d.execution.state = .finished then some (.ok d.execution, d, q)
      else if d.execution.state ≠ .running then
        some (.error ⟨.invalidState, "execution is not running"⟩, d, q)
      else if limits.maxInterruptReceipts ≤ d.interruptReceipts.entries.length then
        some (.error ⟨.resourceLimit, "interrupt receipt limit reached"⟩, d, q)
      else
        let recorded (r : Result Unit) : Result ExecutionSnapshot × Data :=
          let result := r.map fun _ => d.execution
          (result, { d with interruptReceipts := d.interruptReceipts.insert operationId result })
        if windows && d.execution.io.isPty then
          let (r, q') := enqueue d q [3]
          some ((recorded r).1, (recorded r).2, q')
        else if d.control then some ((recorded answer).1, (recorded answer).2, q)
        else none

/-- The size that a terminal may have. -/
def validateSize (rows cols : UInt16) : Result Unit :=
  if rows = 0 ∨ cols = 0 ∨ 32767 < rows ∨ 32767 < cols then
    .error (.invalid "terminal dimensions must be between 1 and 32767")
  else .ok ()

/-- The section that changes the size of a terminal, given what its control handle answers. There
is no result when the handle is not there. -/
def resize (d : Data) (rows cols : UInt16) (answer : Result Unit) :
    Option (Result ExecutionSnapshot × Data) :=
  match validateSize rows cols with
  | .error e => some (.error e, d)
  | .ok () =>
    if d.execution.state ≠ .running then
      some (.error ⟨.invalidState, "execution is not running"⟩, d)
    else if d.control then
      match answer with
      | .error e => some (.error e, d)
      | .ok () =>
        let d' := Data.revise { d with execution := { d.execution with io := .pty rows cols } }
        some (.ok d'.execution, d')
    else none

/-! ### What the sections change -/

variable {d d' : Data} {q q' : Queue} {bytes : List UInt8}

/-- Bytes were sent to the input task, and hold a permit each. -/
structure Enqueued (d : Data) (q : Queue) (bytes : List UInt8) (q' : Queue) : Prop where
  room : bytes.length ≤ q.available
  inputTx : d.inputTx = true
  connected : q.connected = true
  queue : q' = { q with
    items := q.items ++ [.bytes bytes]
    available := q.available - bytes.length }

theorem Enqueued.available (h : Enqueued d q bytes q') :
    q'.available + bytes.length = q.available := by
  rw [h.queue]
  exact Nat.sub_add_cancel h.room

/-- Bytes are refused without a trace, or sent. -/
theorem enqueue_cases (d : Data) (q : Queue) (bytes : List UInt8) :
    (∃ e, enqueue d q bytes = (.error e, q)) ∨
      ∃ q', Enqueued d q bytes q' ∧ enqueue d q bytes = (.ok (), q') := by
  rw [enqueue]
  by_cases hlong : 2 ^ 32 ≤ bytes.length
  · rw [if_pos hlong]
    exact .inl ⟨_, rfl⟩
  · rw [if_neg hlong]
    by_cases hroom : q.available < bytes.length
    · rw [Queue.acquire, if_pos hroom]
      exact .inl ⟨_, rfl⟩
    · -- The permits are given back unless the bytes reach the channel.
      have hback : ({ q with available := q.available - bytes.length } : Queue).release
          bytes.length = q := by
        rw [Queue.release, Nat.sub_add_cancel (Nat.le_of_not_lt hroom)]
      rw [Queue.acquire, if_neg hroom]
      dsimp only
      by_cases htx : d.inputTx = true
      · rw [if_pos htx, Queue.send]
        dsimp only
        by_cases hconn : q.connected = true
        · rw [if_pos hconn]
          exact .inr ⟨_, ⟨Nat.le_of_not_lt hroom, htx, hconn, rfl⟩, rfl⟩
        · rw [if_neg hconn, hback]
          exact .inl ⟨_, rfl⟩
      · rw [if_neg htx, hback]
        exact .inl ⟨_, rfl⟩

/-- **A section that writes.** It changes nothing, or the identity is new and gets a receipt; the
bytes, if there are any, are then sent. -/
theorem write_cases (digest : List UInt8 → List UInt8) (limits : Limits) (d : Data) (q : Queue)
    (inputId : String) (bytes : List UInt8) :
    (∃ r, write digest limits d q inputId bytes = (r, d, q)) ∨
      ∃ q', inputId ∉ d.inputReceipts ∧
        (bytes = [] ∧ q' = q ∨ d.stdin = .opened ∧ Enqueued d q bytes q') ∧
        write digest limits d q inputId bytes = (.ok ⟨inputId, bytes.length⟩,
          { d with inputReceipts :=
              d.inputReceipts.insert inputId (digest bytes, ⟨inputId, bytes.length⟩) }, q') := by
  rw [write]
  by_cases hid : inputId = ""
  · rw [if_pos hid]
    exact .inl ⟨_, rfl⟩
  · rw [if_neg hid]
    dsimp only
    cases hlook : d.inputReceipts.lookup inputId with
    | some known =>
      dsimp only
      split_ifs
      · exact .inl ⟨_, rfl⟩
      · exact .inl ⟨_, rfl⟩
    | none =>
      have hnew : inputId ∉ d.inputReceipts := AList.lookup_eq_none.mp hlook
      dsimp only
      split_ifs with hempty hfull hstate hstdin hfull'
      · exact .inl ⟨_, rfl⟩
      · exact .inr ⟨q, hnew, .inl ⟨hempty, rfl⟩, rfl⟩
      · exact .inl ⟨_, rfl⟩
      · exact .inl ⟨_, rfl⟩
      · exact .inl ⟨_, rfl⟩
      · obtain ⟨e, he⟩ | ⟨q', hq', he⟩ := enqueue_cases d q bytes
        · rw [he]
          exact .inl ⟨_, rfl⟩
        · rw [he]
          exact .inr ⟨q', hnew, .inr ⟨not_not.mp hstdin, hq'⟩, rfl⟩

/-- A write that fails changes nothing. -/
theorem write_error {digest : List UInt8 → List UInt8} {limits : Limits} {inputId : String}
    {e : Error} (h : (write digest limits d q inputId bytes).1 = .error e) :
    (write digest limits d q inputId bytes).2 = (d, q) := by
  obtain ⟨r, hr⟩ | ⟨q', -, -, hr⟩ := write_cases digest limits d q inputId bytes
  · rw [hr]
  · rw [hr] at h
    cases h

/-- Closing the input changes nothing, or sends the request to do so. -/
theorem closeInput_cases (d : Data) (q : Queue) :
    (∃ r, closeInput d q = (r, d, q)) ∨
      d.stdin = .opened ∧ d.inputTx = true ∧ q.connected = true ∧
        closeInput d q = (.ok .closing, { d with stdin := .closing },
          { q with items := q.items ++ [.close] }) := by
  rw [closeInput, Queue.send]
  split_ifs with hpty hopen htx hconn
  · exact .inl ⟨_, rfl⟩
  · exact .inr ⟨hopen, htx, hconn, rfl⟩
  · exact .inl ⟨_, rfl⟩
  · exact .inl ⟨_, rfl⟩
  · exact .inl ⟨_, rfl⟩

/-- An interrupt changes nothing but what is known of interrupts, and perhaps sends a byte. It
needs the control handle only while the execution is running. -/
theorem interrupt_cases (windows : Bool) (limits : Limits) (d : Data) (q : Queue)
    (operationId : String) (answer : Result Unit) :
    (d.execution.state = .running ∧ d.control = false ∧
        interrupt windows limits d q operationId answer = none) ∨
      ∃ r receipts q', (q' = q ∨ Enqueued d q [3] q') ∧
        interrupt windows limits d q operationId answer =
          some (r, { d with interruptReceipts := receipts }, q') := by
  rw [interrupt]
  by_cases hid : operationId = ""
  · rw [if_pos hid]
    exact .inr ⟨_, d.interruptReceipts, q, .inl rfl, rfl⟩
  · rw [if_neg hid]
    cases d.interruptReceipts.lookup operationId with
    | some result => exact .inr ⟨_, d.interruptReceipts, q, .inl rfl, rfl⟩
    | none =>
      dsimp only
      split_ifs with hfinished hstate hfull hterminal hcontrol
      · exact .inr ⟨_, d.interruptReceipts, q, .inl rfl, rfl⟩
      · exact .inr ⟨_, d.interruptReceipts, q, .inl rfl, rfl⟩
      · exact .inr ⟨_, d.interruptReceipts, q, .inl rfl, rfl⟩
      · obtain ⟨e, he⟩ | ⟨q', hq', he⟩ := enqueue_cases d q [3]
        · exact .inr ⟨_, _, q, .inl rfl, by rw [he]⟩
        · exact .inr ⟨_, _, q', .inr hq', by rw [he]⟩
      · exact .inr ⟨_, _, q, .inl rfl, rfl⟩
      · exact .inl ⟨not_not.mp hstate, Bool.eq_false_of_not_eq_true hcontrol, rfl⟩

/-- A terminal gets another size, which is a revision, or nothing is changed. It needs the control
handle only while the execution is running. -/
theorem resize_cases (d : Data) (rows cols : UInt16) (answer : Result Unit) :
    (d.execution.state = .running ∧ d.control = false ∧ resize d rows cols answer = none) ∨
      (∃ e, resize d rows cols answer = some (.error e, d)) ∨
      ∃ x, d.execution.state = .running ∧ resize d rows cols answer = some (.ok x,
        Data.revise { d with execution := { d.execution with io := .pty rows cols } }) := by
  unfold resize
  cases validateSize rows cols with
  | error e => exact .inr (.inl ⟨_, rfl⟩)
  | ok =>
    dsimp only
    split_ifs with hstate hcontrol
    · exact .inr (.inl ⟨_, rfl⟩)
    · cases answer with
      | error e => exact .inr (.inl ⟨_, rfl⟩)
      | ok => exact .inr (.inr ⟨_, not_not.mp hstate, rfl⟩)
    · exact .inl ⟨not_not.mp hstate, Bool.eq_false_of_not_eq_true hcontrol, rfl⟩

end ExecutionProvider.Session
