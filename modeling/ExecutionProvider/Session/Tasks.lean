import ExecutionProvider.Foundation.Notify
import ExecutionProvider.Foundation.Runs
import ExecutionProvider.Session.Data

/-!
# The tasks of a session

One task drives the process of a session: it launches it, waits in a loop until it exits or is to
be stopped, and then drains its output and finishes the session. Beside it there are a reader for
every stream of output and a task that writes the input. Callers of the session come at any time,
and any number of them wait for something to change.

A step of the system is what one task does up to the next point at which others can see it or
interfere: one section under the lock, one notification, one call of the operating system. What
the calls answer is part of the action. Of the two notifications that the tasks use, the one for
stopping keeps one permit, which the loop consumes, and the one for changes reaches those who are
registered for it.

## Main definitions

* `RunTask`, `Reader`, `InputTask`: how far the tasks have come.
* `World`, `World.init`: a session with its tasks, callers and waiters.
* `World.run`, `World.input`: the steps of the task that drives the process and of the one that
  writes its input.
* `sessionSystem`: the runs of a session.
-/

namespace ExecutionProvider.Session

open ExecutionProvider.Runtime (OutputSpool StopReason WriteOutcome)

/-! ### The tasks -/

/-- How a process exited. -/
structure Exit where
  code : Option UInt32
  signal : Option String
deriving DecidableEq

/-- A process that was spawned: the streams it writes to, and whether it reads from one. -/
structure Process where
  readers : List OutputStream
  writer : Bool

/-- What the loop of the run task keeps to itself: whether it has noticed that it is to stop the
process, has killed it, or has seen the runtime shut down, and what has failed. -/
structure Loop where
  stopping : Bool
  killed : Bool
  shutdownSeen : Bool
  failure : Option Error

namespace Loop

/-- The loop at its first turn. -/
def init : Loop := ⟨false, false, false, none⟩

/-- The process was asked to stop. If it cannot be asked, it was killed. -/
def settle (l : Loop) (graceful : Result Bool) (kill : Result Unit) : Loop :=
  match graceful with
  | .ok true => l
  | .ok false =>
    let failure := match kill with
      | .error e => some e
      | .ok () => none
    { l with failure := failure, killed := true }
  | .error e => { l with failure := some e, killed := true }

/-- Something was done that may have failed. -/
def note (l : Loop) (answer : Result Unit) : Loop :=
  match answer with
  | .error e => { l with failure := some e }
  | .ok () => l

/-- What came of the execution. -/
def classify (l : Loop) (exit : Except String Exit) (reason : Option StopReason) :
    ExecutionResult :=
  match exit, l.failure with
  | _, some e => .lost e.message
  | .error message, none => .lost message
  | .ok status, none =>
    if l.stopping && reason = some .timeout then .timedOut status.code status.signal
    else if l.stopping then .terminated status.code status.signal
    else .exited status.code status.signal

end Loop

/-- How far the task has come that drives a process. In order: the run was cancelled before its
launch; the process is to be spawned; it was spawned; the launch is recorded; the loop looks for a
deadline, asks the process to stop (through its input, where this is how it is asked), checks the
deadline, and waits; the loop has seen the runtime shut down and asks the session to stop, in
three steps; the process has exited; the exit is recorded; the input task is joined; the rest of
the grace period is due, and is slept through; what is left of the process is killed; the control
handle is dropped; the readers are joined; their time is up, and they are aborted; the control
handle is released; the result is decided; it is recorded; it was recorded; nothing is left. -/
inductive RunTask
  | cancelled
  | spawning
  | spawned (p : Process)
  | launched (p : Process)
  | top (l : Loop)
  | noticing (l : Loop) (deadline : ℕ)
  | interrupting (l : Loop) (deadline : ℕ)
  | checking (l : Loop) (deadline : ℕ)
  | selecting (l : Loop) (deadline : Option ℕ)
  | shuttingDown (l : Loop)
  | stopNotice (l : Loop)
  | changeNotice (l : Loop)
  | exiting (l : Loop) (exit : Except String Exit)
  | exited (l : Loop) (exit : Except String Exit)
  | joining (l : Loop) (exit : Except String Exit)
  | grace (l : Loop) (exit : Except String Exit)
  | sleeping (l : Loop) (exit : Except String Exit) (deadline : ℕ)
  | killing (l : Loop) (exit : Except String Exit)
  | dropping (l : Loop) (exit : Except String Exit)
  | draining (l : Loop) (exit : Except String Exit) (deadline : ℕ)
  | expiring (l : Loop) (exit : Except String Exit)
  | aborting (l : Loop) (exit : Except String Exit)
  | releasing (l : Loop) (exit : Except String Exit)
  | classifying (l : Loop) (exit : Except String Exit)
  | finishing (result : ExecutionResult)
  | finished
  | done

/-- The loop of the task, from its first turn until the result is decided. -/
def RunTask.loop : RunTask → Option Loop
  | top l => some l
  | noticing l _ => some l
  | interrupting l _ => some l
  | checking l _ => some l
  | selecting l _ => some l
  | shuttingDown l => some l
  | stopNotice l => some l
  | changeNotice l => some l
  | exiting l _ => some l
  | exited l _ => some l
  | joining l _ => some l
  | grace l _ => some l
  | sleeping l _ _ => some l
  | killing l _ => some l
  | dropping l _ => some l
  | draining l _ _ => some l
  | expiring l _ => some l
  | aborting l _ => some l
  | releasing l _ => some l
  | classifying l _ => some l
  | _ => none

/-- How far a reader has come: it reads, it has appended something and is to tell, it has ended
at the end of its stream or before, or it was joined after that. -/
inductive Reader
  | reading (stream : OutputStream)
  | appended (stream : OutputStream)
  | ended (ok : Bool)
  | joined (ok : Bool)
deriving DecidableEq

/-- Whether a reader was joined. -/
def Reader.isJoined : Reader → Bool
  | joined _ => true
  | _ => false

/-- How far the task has come that writes the input, if there is one. It is to be spawned; it
waits for an item; it writes what is left of one, or flushes, while it holds the permits of the
item; it shuts the input down; it is to record that it ends, and to tell; the channel is to go;
it is done. -/
inductive InputTask
  | absent
  | unspawned
  | receiving
  | writing (left : List UInt8) (permits : ℕ)
  | flushing (permits : ℕ)
  | shutting
  | leaving (error : Option String)
  | notifying
  | closing
  | done
deriving DecidableEq

namespace InputTask

/-- The permits that the task holds. -/
def permits : InputTask → ℕ
  | writing _ permits => permits
  | flushing permits => permits
  | _ => 0

/-- What is left to write of the item that the task has taken. -/
def left : InputTask → List UInt8
  | writing left _ => left
  | _ => []

/-- Whether there is no such task, or no longer. -/
def isDone (i : InputTask) : Bool := i = .absent || i = .done

/-- Whether the task waits for the operating system or for an item. An aborted task ends there. -/
def awaits : InputTask → Bool
  | receiving => true
  | writing .. => true
  | flushing _ => true
  | shutting => true
  | _ => false

end InputTask

/-! ### Waiting for a session -/

/-- When an observation returns. -/
inductive WaitMode
  | activity
  | finishedOrTimeout
deriving DecidableEq

/-- What callers wait for: that the session was launched, that it is finished, or that there is
something to observe behind a cursor. -/
inductive Condition
  | launched
  | finished
  | observes (cursor : Option Cursor) (limit : ℕ) (returnWhen : WaitMode) (deadline : ℕ)

namespace Condition

/-- Whether a caller that looks at a session now returns at once. -/
def holds (d : Data) : Condition → Bool
  | launched => d.launched
  | finished => d.execution.state = .finished
  | observes cursor limit returnWhen _ =>
    match d.journal.read d.execution cursor limit with
    | .error _ => true
    | .ok o => o.returnReason = .finished || o.returnReason = .outputLimit ||
        (returnWhen = .activity && o.returnReason = .activity)

/-- Whether a caller waits no longer. -/
def timer (now : ℕ) : Condition → Bool
  | observes _ _ _ deadline => deadline ≤ now
  | _ => false

end Condition

/-! ### The session with its tasks -/

/-- A session, its tasks, and what they share: the permit of the notification for stopping, the
callers that have asked it to stop and are to notify the loop, those that are to notify the
waiters, the waiters, the token that is cancelled when the runtime shuts down, and the time. -/
structure World where
  data : Data
  queue : Queue
  stop : Bool
  task : RunTask
  readers : List Reader
  inputTask : InputTask
  stopCallers : ℕ
  changeCallers : ℕ
  waiters : List (Waiter Condition)
  shutdown : Bool
  now : ℕ

/-- What is fixed for all sessions of a runtime. -/
structure Setup where
  windows : Bool
  limits : Limits
  digest : List UInt8 → List UInt8
  sha256 : List UInt8 → String

/-- A session that was just admitted, whose run may have been cancelled before. -/
def World.init (limits : Limits) (execution : ExecutionSnapshot) (spool : Option OutputSpool)
    (cancelled shutdown : Bool) (now : ℕ) : World where
  data := .new execution limits spool
  queue := ⟨[], limits.maxQueuedInputBytes, false⟩
  stop := false
  task := if cancelled then .cancelled else .spawning
  readers := []
  inputTask := .absent
  stopCallers := 0
  changeCallers := 0
  waiters := []
  shutdown := shutdown
  now := now

/-- Which branch of the loop's selection is taken. -/
inductive Branch
  | exit (status : Except String Exit)
  | shutdown
  | stop
  | timer

/-- What the calls in a step of the run task answer, each step making few of them. -/
structure Answers where
  spawned : Except Error Process := .ok ⟨[], false⟩
  graceful : Result Bool := .ok true
  kill : Result Unit := .ok ()
  branch : Branch := .stop
  reader : Option ℕ := none
  released : Except String Unit := .ok ()
  closeError : Option String := none
  clock : SystemTime := ⟨0, 0⟩

/-- What happens: a cancelled run is finished, the loop leaves with or without having noticed that
it is to stop, a reader captures some output, an item is sent to the input task, bytes are written,
or a task panics. -/
inductive Event
  | cancelled
  | left (noticed : Bool)
  | captured (chunk : OutputChunk)
  | sent (inputId : Option String) (input : Input)
  | wrote (bytes : List UInt8)
  | panicked
deriving DecidableEq

/-- The items that were added to a queue. -/
def sent (inputId : Option String) (q q' : Queue) : List Event :=
  (q'.items.drop q.items.length).map (.sent inputId)

namespace World

variable (S : Setup) (w : World)

/-- Everybody who is registered for changes is notified. -/
def notifyWaiters : World := { w with waiters := w.waiters.map Waiter.notify }

/-- Whether all readers were joined. -/
def drained : Bool := w.readers.all Reader.isJoined

/-- A reader that has ended is joined. -/
def joinReader (reader : ℕ) (ok : Bool) : World :=
  { w with readers := w.readers.set reader (.joined ok) }

/-- A step of the task that drives the process. -/
def run (a : Answers) : Option (World × List Event) :=
  match w.task with
  | .cancelled => some ({ w with task := .finishing (.terminated none none) }, [.cancelled])
  | .spawning =>
    match a.spawned with
    | .error e => some ({ w with task := .finishing (.startFailed e.message) }, [])
    | .ok p => some ({ w with task := .spawned p }, [])
  | .spawned p =>
    some ({ w with
      data := w.data.launch p.writer a.clock
      queue := { w.queue with connected := p.writer }
      inputTask := if p.writer then .unspawned else .absent
      task := .launched p }, [])
  | .launched p =>
    some ({ w.notifyWaiters with
      readers := p.readers.map .reading
      inputTask := if p.writer then .receiving else .absent
      task := .top .init }, [])
  | .top l =>
    match w.data.stopDeadline with
    | none => some ({ w with task := .selecting l none }, [])
    | some deadline =>
      if l.stopping then some ({ w with task := .checking l deadline }, [])
      else some ({ w with task := .noticing { l with stopping := true } deadline }, [])
  | .noticing l deadline =>
    if S.windows && w.data.execution.io.isPty then
      some ({ w with task := .interrupting l deadline }, [])
    else some ({ w with task := .checking (l.settle a.graceful a.kill) deadline }, [])
  | .interrupting l deadline =>
    let r := enqueue w.data w.queue [3]
    some ({ w with
      queue := r.2
      task := .checking (l.settle (r.1.map fun _ => true) a.kill) deadline }, sent none w.queue r.2)
  | .checking l deadline =>
    if l.killed = false ∧ deadline ≤ w.now then
      some ({ w with task := .selecting { l.note a.kill with killed := true } (some deadline) }, [])
    else some ({ w with task := .selecting l (some deadline) }, [])
  | .selecting l deadline =>
    match a.branch with
    | .exit status => some ({ w with task := .exiting l status }, [.left l.stopping])
    | .shutdown =>
      if w.shutdown && !l.shutdownSeen then
        some ({ w with task := .shuttingDown { l with shutdownSeen := true } }, [])
      else none
    | .stop => if w.stop then some ({ w with stop := false, task := .top l }, []) else none
    | .timer =>
      if deadline.any (· ≤ w.now) && !l.killed then some ({ w with task := .top l }, []) else none
  | .shuttingDown l =>
    some ({ w with
      data := w.data.terminate w.now S.limits.terminationGrace .runtimeShutdown
      task := .stopNotice l }, [])
  | .stopNotice l => some ({ w with stop := true, task := .changeNotice l }, [])
  | .changeNotice l => some ({ w.notifyWaiters with task := .top l }, [])
  | .exiting l exit => some ({ w with data := w.data.rootExit, task := .exited l exit }, [])
  | .exited l exit => some ({ w.notifyWaiters with task := .joining l exit }, [])
  | .joining l exit =>
    if w.inputTask.isDone then some ({ w with task := .grace l exit }, []) else none
  | .grace l exit =>
    if l.stopping && !l.killed then
      match w.data.stopDeadline with
      | none => some (w, [.panicked])
      | some deadline => some ({ w with task := .sleeping l exit deadline }, [])
    else some ({ w with task := .killing l exit }, [])
  | .sleeping l exit deadline =>
    if deadline ≤ w.now then some ({ w with task := .killing l exit }, []) else none
  | .killing l exit => some ({ w with task := .dropping (l.note a.kill) exit }, [])
  | .dropping l exit =>
    some ({ w with
      data := w.data.dropControl
      task := .draining l exit (w.now + S.limits.outputDrainTimeout) }, [])
  | .draining l exit deadline =>
    if w.drained then some ({ w with task := .releasing l exit }, [])
    else
      match a.reader with
      | none => if deadline ≤ w.now then some ({ w with task := .expiring l exit }, []) else none
      | some reader =>
        match w.readers[reader]? with
        | some (.ended ok) =>
          some ({ w.joinReader reader ok with
            data := if ok then w.data else w.data.loseOutput }, [])
        | _ => none
  | .expiring l exit => some ({ w with data := w.data.loseOutput, task := .aborting l exit }, [])
  | .aborting l exit =>
    if w.drained then some ({ w with task := .releasing l exit }, [])
    else
      match a.reader with
      | none => none
      | some reader =>
        match w.readers[reader]? with
        | some (.ended ok) => some (w.joinReader reader ok, [])
        | _ => none
  | .releasing l exit =>
    let l' := match a.released with
      | .error message => { l with failure := some ⟨.io, message⟩ }
      | .ok () => l
    some ({ w with task := .classifying l' exit }, [])
  | .classifying l exit =>
    some ({ w with task := .finishing (l.classify exit w.data.stopReason) }, [])
  | .finishing result =>
    some ({ w with
      data := w.data.finish S.sha256 a.closeError result a.clock w.now
      task := .finished }, [])
  | .finished => some ({ w.notifyWaiters with task := .done }, [])
  | .done => none

/-- A step of the task that writes the input, given how many bytes were written or what failed. -/
def input (answer : Except String ℕ) : Option (World × List Event) :=
  match w.inputTask with
  | .receiving =>
    match w.queue.items with
    | [] => if w.data.inputTx then none else some ({ w with inputTask := .leaving none }, [])
    | .bytes data :: items =>
      some ({ w with
        queue := { w.queue with items := items }
        inputTask := .writing data data.length }, [])
    | .close :: items =>
      some ({ w with queue := { w.queue with items := items }, inputTask := .shutting }, [])
  | .writing left permits =>
    if left = [] then some ({ w with inputTask := .flushing permits }, [])
    else
      match answer with
      | .error message =>
        some ({ w with
          queue := w.queue.release permits
          inputTask := .leaving (some message) }, [])
      | .ok 0 =>
        some ({ w with
          queue := w.queue.release permits
          inputTask := .leaving (some "failed to write whole buffer") }, [])
      | .ok count =>
        some ({ w with inputTask := .writing (left.drop count) permits },
          [.wrote (left.take count)])
  | .flushing permits =>
    let inputTask := match answer with
      | .error message => .leaving (some message)
      | .ok _ => .receiving
    some ({ w with queue := w.queue.release permits, inputTask := inputTask }, [])
  | .shutting =>
    let error := match answer with
      | .error message => some message
      | .ok _ => none
    some ({ w with inputTask := .leaving error }, [])
  | .leaving error =>
    some ({ w with data := w.data.leaveInput error, inputTask := .notifying }, [])
  | .notifying => some ({ w.notifyWaiters with inputTask := .closing }, [])
  | .closing => some ({ w with queue := w.queue.disconnect, inputTask := .done }, [])
  | .absent | .unspawned | .done => none

/-- The input task was aborted and ends where it waits. -/
def abortInput : Option (World × List Event) :=
  match w.task with
  | .joining .. =>
    if w.inputTask.awaits then
      some ({ w with
        queue := (w.queue.release w.inputTask.permits).disconnect
        inputTask := .done }, [])
    else none
  | _ => none

/-- A reader gets some output and appends it. -/
def read (reader : ℕ) (data : List UInt8) (outcomes : List WriteOutcome) :
    Option (World × List Event) :=
  match w.readers[reader]? with
  | some (.reading stream) =>
    if data = [] then none
    else
      match w.data.append outcomes stream data with
      | none => some (w, [.panicked])
      | some d =>
        some ({ w with data := d, readers := w.readers.set reader (.appended stream) },
          [.captured ⟨stream, data⟩])
  | _ => none

/-- A reader tells that it has appended something. -/
def tell (reader : ℕ) : Option (World × List Event) :=
  match w.readers[reader]? with
  | some (.appended stream) =>
    some ({ w.notifyWaiters with readers := w.readers.set reader (.reading stream) }, [])
  | _ => none

/-- A reader comes to the end of its stream, or to an error. -/
def endRead (reader : ℕ) (ok : Bool) : Option (World × List Event) :=
  match w.readers[reader]? with
  | some (.reading _) => some ({ w with readers := w.readers.set reader (.ended ok) }, [])
  | _ => none

/-- A reader was aborted and ends where it waits. -/
def abortRead (reader : ℕ) : Option (World × List Event) :=
  match w.task, w.readers[reader]? with
  | .aborting .., some (.reading _) =>
    some ({ w with readers := w.readers.set reader (.ended false) }, [])
  | _, _ => none

/-- A caller writes to the process. -/
def write (inputId : String) (bytes : List UInt8) : World × List Event :=
  let r := Session.write S.digest S.limits w.data w.queue inputId bytes
  ({ w with data := r.2.1, queue := r.2.2 }, sent (some inputId) w.queue r.2.2)

/-- A caller closes the input of the process. -/
def closeInput : World × List Event :=
  let r := Session.closeInput w.data w.queue
  ({ w with data := r.2.1, queue := r.2.2 }, sent none w.queue r.2.2)

/-- A caller interrupts the process. -/
def interrupt (operationId : String) (answer : Result Unit) : World × List Event :=
  match Session.interrupt S.windows S.limits w.data w.queue operationId answer with
  | none => (w, [.panicked])
  | some (_, d, q) => ({ w with data := d, queue := q }, sent none w.queue q)

/-- A caller changes the size of the terminal, and is to notify the waiters if it did. -/
def resize (rows cols : UInt16) (answer : Result Unit) : World × List Event :=
  match Session.resize w.data rows cols answer with
  | none => (w, [.panicked])
  | some (.error _, d) => ({ w with data := d }, [])
  | some (.ok _, d) => ({ w with data := d, changeCallers := w.changeCallers + 1 }, [])

/-- A waiter takes a step. -/
def wake (waiter : ℕ) : Option (World × List Event) :=
  match w.waiters[waiter]? with
  | none => none
  | some v =>
    (v.step (Condition.holds w.data) (Condition.timer w.now)).map fun v' =>
      ({ w with waiters := w.waiters.set waiter v' }, [])

end World

/-- A step of a task, a section of a caller, one of its notifications, or a waiter that comes,
takes a step or goes. Time passes, and the runtime may shut down. -/
inductive Action
  | tick (duration : ℕ)
  | shutdown
  | run (a : Answers)
  | read (reader : ℕ) (data : List UInt8) (outcomes : List WriteOutcome)
  | tell (reader : ℕ)
  | endRead (reader : ℕ) (ok : Bool)
  | abortRead (reader : ℕ)
  | input (answer : Except String ℕ)
  | abortInput
  | terminate (grace : ℕ) (reason : StopReason)
  | notifyStop
  | notifyChange
  | write (inputId : String) (bytes : List UInt8)
  | closeInput
  | interrupt (operationId : String) (answer : Result Unit)
  | resize (rows cols : UInt16) (answer : Result Unit)
  | wait (condition : Condition)
  | wake (waiter : ℕ)
  | drop (waiter : ℕ)

/-- A step. -/
def World.step (S : Setup) (w : World) : Action → Option (World × List Event)
  | .tick duration => some ({ w with now := w.now + duration }, [])
  | .shutdown => some ({ w with shutdown := true }, [])
  | .run a => w.run S a
  | .read reader data outcomes => w.read reader data outcomes
  | .tell reader => w.tell reader
  | .endRead reader ok => w.endRead reader ok
  | .abortRead reader => w.abortRead reader
  | .input answer => w.input answer
  | .abortInput => w.abortInput
  | .terminate grace reason =>
    some ({ w with
      data := w.data.terminate w.now grace reason
      stopCallers := w.stopCallers + 1 }, [])
  | .notifyStop =>
    if w.stopCallers = 0 then none
    else some ({ w with
      stop := true
      stopCallers := w.stopCallers - 1
      changeCallers := w.changeCallers + 1 }, [])
  | .notifyChange =>
    if w.changeCallers = 0 then none
    else some ({ w.notifyWaiters with changeCallers := w.changeCallers - 1 }, [])
  | .write inputId bytes => some (w.write S inputId bytes)
  | .closeInput => some w.closeInput
  | .interrupt operationId answer => some (w.interrupt S operationId answer)
  | .resize rows cols answer => some (w.resize rows cols answer)
  | .wait condition => some ({ w with waiters := w.waiters ++ [⟨condition, .idle⟩] }, [])
  | .wake waiter => w.wake waiter
  | .drop waiter => some ({ w with waiters := w.waiters.eraseIdx waiter }, [])

/-- The runs of a session. -/
def sessionSystem (S : Setup) : System World Action Event where
  start w := ∃ execution spool cancelled shutdown now,
    w = .init S.limits execution spool cancelled shutdown now ∧ execution.state = .starting ∧
      execution.result = none ∧ execution.finishedAt = none ∧
      ∀ s ∈ spool, ∃ artifactId path tailCapacity, s = .create artifactId path tailCapacity
  step w a := w.step S a

/-! ### A session -/

/-- A runtime with small limits. -/
def someSetup : Setup where
  windows := false
  limits := ⟨16, 4, 8, 8, 2, 1⟩
  digest bytes := bytes
  sha256 bytes := toString bytes

/-- An execution that reads from a pipe. -/
def someExecution : ExecutionSnapshot where
  handle := ⟨.numbered 1, .numbered 0⟩
  command := .program "cat" []
  resolvedShell := none
  cwd := "/"
  io := .pipes true
  labels := .empty
  state := .starting
  result := none
  createdAt := ⟨0, 0⟩
  startedAt := none
  finishedAt := none
  outputIncomplete := false
  inputError := none

/-- A session of this execution. -/
def someSession : World := .init someSetup.limits someExecution none false false 0

theorem someSession_start : (sessionSystem someSetup).start someSession :=
  ⟨someExecution, none, false, false, 0, rfl, rfl, rfl, rfl, nofun⟩

end ExecutionProvider.Session
