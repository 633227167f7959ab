import ExecutionProvider.Session.Tasks

/-!
# What the tasks of a session do in a step

Most steps of the task that drives the process are its own: they only change how far it has come.
The others run a section under the lock, or notify somebody. The same is said of the input task,
of the readers and of the callers, of whom those that are refused leave no trace.

## Main definitions

* `Silent`, `RunStep`: the steps of the task that drives the process.
* `InputStep`, `ReaderStep`, `CallerStep`: the steps of the other tasks and of the callers.
* `Step`: all steps.

## Main results

* `step_cases`: every step is one of these.
-/

namespace ExecutionProvider.Session

open ExecutionProvider.Runtime (StopReason WriteOutcome)

/-! ### The task that drives the process -/

/-- The steps of the run task that nobody else sees, by the place that they lead to. -/
inductive Silent (S : Setup) (w : World) : RunTask → List Event → Prop
  | cancelled (h : w.task = .cancelled) :
      Silent S w (.finishing (.terminated none none)) [.cancelled]
  | failed (message : String) (h : w.task = .spawning) :
      Silent S w (.finishing (.startFailed message)) []
  | spawned (p : Process) (h : w.task = .spawning) : Silent S w (.spawned p) []
  | idle {l : Loop} (h : w.task = .top l) (hnone : w.data.stopDeadline = none) :
      Silent S w (.selecting l none) []
  | recheck {l : Loop} {deadline : ℕ} (h : w.task = .top l)
      (hsome : w.data.stopDeadline = some deadline) (hstopping : l.stopping = true) :
      Silent S w (.checking l deadline) []
  | notice {l : Loop} {deadline : ℕ} (h : w.task = .top l)
      (hsome : w.data.stopDeadline = some deadline) (hstopping : l.stopping = false) :
      Silent S w (.noticing { l with stopping := true } deadline) []
  | interrupt {l : Loop} {deadline : ℕ} (h : w.task = .noticing l deadline) :
      Silent S w (.interrupting l deadline) []
  | settle {l : Loop} {deadline : ℕ} (graceful : Result Bool) (kill : Result Unit)
      (h : w.task = .noticing l deadline) :
      Silent S w (.checking (l.settle graceful kill) deadline) []
  | kill {l : Loop} {deadline : ℕ} (answer : Result Unit) (h : w.task = .checking l deadline) :
      Silent S w (.selecting { l.note answer with killed := true } (some deadline)) []
  | select {l : Loop} {deadline : ℕ} (h : w.task = .checking l deadline) :
      Silent S w (.selecting l (some deadline)) []
  | exit {l : Loop} {deadline : Option ℕ} (status : Except String Exit)
      (h : w.task = .selecting l deadline) : Silent S w (.exiting l status) [.left l.stopping]
  | seen {l : Loop} {deadline : Option ℕ} (h : w.task = .selecting l deadline) :
      Silent S w (.shuttingDown { l with shutdownSeen := true }) []
  | elapsed {l : Loop} {deadline : Option ℕ} (h : w.task = .selecting l deadline) :
      Silent S w (.top l) []
  | joined {l : Loop} {exit : Except String Exit} (h : w.task = .joining l exit)
      (hdone : w.inputTask.isDone = true) : Silent S w (.grace l exit) []
  | sleep {l : Loop} {exit : Except String Exit} {deadline : ℕ} (h : w.task = .grace l exit) :
      Silent S w (.sleeping l exit deadline) []
  | hurry {l : Loop} {exit : Except String Exit} (h : w.task = .grace l exit) :
      Silent S w (.killing l exit) []
  | awake {l : Loop} {exit : Except String Exit} {deadline : ℕ}
      (h : w.task = .sleeping l exit deadline) : Silent S w (.killing l exit) []
  | killed {l : Loop} {exit : Except String Exit} (answer : Result Unit)
      (h : w.task = .killing l exit) : Silent S w (.dropping (l.note answer) exit) []
  | drained {l : Loop} {exit : Except String Exit} {deadline : ℕ}
      (h : w.task = .draining l exit deadline) (hdrained : w.drained = true) :
      Silent S w (.releasing l exit) []
  | expired {l : Loop} {exit : Except String Exit} {deadline : ℕ}
      (h : w.task = .draining l exit deadline) : Silent S w (.expiring l exit) []
  | aborted {l : Loop} {exit : Except String Exit} (h : w.task = .aborting l exit)
      (hdrained : w.drained = true) : Silent S w (.releasing l exit) []
  | released {l l' : Loop} {exit : Except String Exit} (h : w.task = .releasing l exit)
      (hl : l' = l ∨ ∃ message, l' = { l with failure := some ⟨.io, message⟩ }) :
      Silent S w (.classifying l' exit) []
  | classified {l : Loop} {exit : Except String Exit} (h : w.task = .classifying l exit) :
      Silent S w (.finishing (l.classify exit w.data.stopReason)) []

/-- The steps of the run task that end with a notification of the waiters. -/
inductive Tells : RunTask → RunTask → Prop
  | stopped (l : Loop) : Tells (.changeNotice l) (.top l)
  | exited (l : Loop) (exit : Except String Exit) : Tells (.exited l exit) (.joining l exit)
  | finished : Tells .finished .done

/-- The steps of the run task. -/
inductive RunStep (S : Setup) (w : World) : World → List Event → Prop
  | silent {task : RunTask} {es : List Event} (h : Silent S w task es) :
      RunStep S w { w with task := task } es
  | launch {p : Process} (startedAt : SystemTime) (h : w.task = .spawned p) :
      RunStep S w { w with
        data := w.data.launch p.writer startedAt
        queue := { w.queue with connected := p.writer }
        inputTask := if p.writer then .unspawned else .absent
        task := .launched p } []
  | spawn {p : Process} (h : w.task = .launched p) :
      RunStep S w { w.notifyWaiters with
        readers := p.readers.map .reading
        inputTask := if p.writer then .receiving else .absent
        task := .top .init } []
  | enqueue {l : Loop} {deadline : ℕ} (kill : Result Unit) (h : w.task = .interrupting l deadline) :
      RunStep S w { w with
        queue := (Session.enqueue w.data w.queue [3]).2
        task := .checking (l.settle ((Session.enqueue w.data w.queue [3]).1.map fun _ => true) kill)
          deadline } (sent none w.queue (Session.enqueue w.data w.queue [3]).2)
  | stop {l : Loop} {deadline : Option ℕ} (h : w.task = .selecting l deadline)
      (hstop : w.stop = true) : RunStep S w { w with stop := false, task := .top l } []
  | terminate {l : Loop} (h : w.task = .shuttingDown l) :
      RunStep S w { w with
        data := w.data.terminate w.now S.limits.terminationGrace .runtimeShutdown
        task := .stopNotice l } []
  | permit {l : Loop} (h : w.task = .stopNotice l) :
      RunStep S w { w with stop := true, task := .changeNotice l } []
  | tell {task task' : RunTask} (h : w.task = task) (htells : Tells task task') :
      RunStep S w { w.notifyWaiters with task := task' } []
  | rootExit {l : Loop} {exit : Except String Exit} (h : w.task = .exiting l exit) :
      RunStep S w { w with data := w.data.rootExit, task := .exited l exit } []
  | panic {l : Loop} {exit : Except String Exit} (h : w.task = .grace l exit)
      (hstopping : l.stopping = true) (hnone : w.data.stopDeadline = none) :
      RunStep S w w [.panicked]
  | dropControl {l : Loop} {exit : Except String Exit} (h : w.task = .dropping l exit) :
      RunStep S w { w with
        data := w.data.dropControl
        task := .draining l exit (w.now + S.limits.outputDrainTimeout) } []
  | drain {l : Loop} {exit : Except String Exit} {deadline reader : ℕ} {ok : Bool}
      (h : w.task = .draining l exit deadline) (hreader : w.readers[reader]? = some (.ended ok)) :
      RunStep S w { w.joinReader reader ok with
        data := if ok then w.data else w.data.loseOutput } []
  | loseOutput {l : Loop} {exit : Except String Exit} (h : w.task = .expiring l exit) :
      RunStep S w { w with data := w.data.loseOutput, task := .aborting l exit } []
  | join {l : Loop} {exit : Except String Exit} {reader : ℕ} {ok : Bool}
      (h : w.task = .aborting l exit) (hreader : w.readers[reader]? = some (.ended ok)) :
      RunStep S w (w.joinReader reader ok) []
  | finish {result : ExecutionResult} (closeError : Option String) (finishedAt : SystemTime)
      (h : w.task = .finishing result) :
      RunStep S w { w with
        data := w.data.finish S.sha256 closeError result finishedAt w.now
        task := .finished } []

/-! ### The other tasks -/

/-- The steps of the input task, and its end when it is aborted. -/
inductive InputStep (w : World) : World → List Event → Prop
  | take {data : List UInt8} {items : List Input} (h : w.inputTask = .receiving)
      (hitems : w.queue.items = .bytes data :: items) :
      InputStep w { w with
        queue := { w.queue with items := items }
        inputTask := .writing data data.length } []
  | takeClose {items : List Input} (h : w.inputTask = .receiving)
      (hitems : w.queue.items = .close :: items) :
      InputStep w { w with queue := { w.queue with items := items }, inputTask := .shutting } []
  | hangUp (h : w.inputTask = .receiving) (hitems : w.queue.items = [])
      (htx : w.data.inputTx = false) : InputStep w { w with inputTask := .leaving none } []
  | write {left : List UInt8} {permits : ℕ} (count : ℕ) (h : w.inputTask = .writing left permits) :
      InputStep w { w with inputTask := .writing (left.drop count) permits }
        [.wrote (left.take count)]
  | written {permits : ℕ} (h : w.inputTask = .writing [] permits) :
      InputStep w { w with inputTask := .flushing permits } []
  | fail (message : String) (h : w.inputTask.awaits = true) (hne : w.inputTask ≠ .receiving) :
      InputStep w { w with
        queue := w.queue.release w.inputTask.permits
        inputTask := .leaving (some message) } []
  | flushed {permits : ℕ} (h : w.inputTask = .flushing permits) :
      InputStep w { w with queue := w.queue.release permits, inputTask := .receiving } []
  | shut (h : w.inputTask = .shutting) : InputStep w { w with inputTask := .leaving none } []
  | leave {error : Option String} (h : w.inputTask = .leaving error) :
      InputStep w { w with data := w.data.leaveInput error, inputTask := .notifying } []
  | tell (h : w.inputTask = .notifying) :
      InputStep w { w.notifyWaiters with inputTask := .closing } []
  | close (h : w.inputTask = .closing) :
      InputStep w { w with queue := w.queue.disconnect, inputTask := .done } []
  | abort {l : Loop} {exit : Except String Exit} (htask : w.task = .joining l exit)
      (h : w.inputTask.awaits = true) :
      InputStep w { w with
        queue := (w.queue.release w.inputTask.permits).disconnect
        inputTask := .done } []

/-- The steps of a reader. -/
inductive ReaderStep (w : World) : World → List Event → Prop
  | read {reader : ℕ} {stream : OutputStream} {data : List UInt8} {outcomes : List WriteOutcome}
      {d : Data} (h : w.readers[reader]? = some (.reading stream)) (hdata : data ≠ [])
      (hd : w.data.append outcomes stream data = some d) :
      ReaderStep w { w with data := d, readers := w.readers.set reader (.appended stream) }
        [.captured ⟨stream, data⟩]
  | panic {reader : ℕ} {stream : OutputStream} {data : List UInt8} {outcomes : List WriteOutcome}
      (h : w.readers[reader]? = some (.reading stream))
      (hd : w.data.append outcomes stream data = none) : ReaderStep w w [.panicked]
  | tell {reader : ℕ} {stream : OutputStream} (h : w.readers[reader]? = some (.appended stream)) :
      ReaderStep w { w.notifyWaiters with readers := w.readers.set reader (.reading stream) } []
  | ended {reader : ℕ} {stream : OutputStream} (ok : Bool)
      (h : w.readers[reader]? = some (.reading stream)) :
      ReaderStep w { w with readers := w.readers.set reader (.ended ok) } []

/-- The steps of callers and waiters, and of the rest of the world. -/
inductive CallerStep (S : Setup) (w : World) : World → List Event → Prop
  | tick (duration : ℕ) : CallerStep S w { w with now := w.now + duration } []
  | shutdown : CallerStep S w { w with shutdown := true } []
  | terminate (grace : ℕ) (reason : StopReason) :
      CallerStep S w { w with
        data := w.data.terminate w.now grace reason
        stopCallers := w.stopCallers + 1 } []
  | permit (h : 0 < w.stopCallers) :
      CallerStep S w { w with
        stop := true
        stopCallers := w.stopCallers - 1
        changeCallers := w.changeCallers + 1 } []
  | tell (h : 0 < w.changeCallers) :
      CallerStep S w { w.notifyWaiters with changeCallers := w.changeCallers - 1 } []
  | refuse : CallerStep S w w []
  | receipt {inputId : String} (receipt : List UInt8 × InputReceipt)
      (hnew : inputId ∉ w.data.inputReceipts) :
      CallerStep S w { w with data :=
        { w.data with inputReceipts := w.data.inputReceipts.insert inputId receipt } } []
  | write {inputId : String} {bytes : List UInt8} {q : Queue}
      (receipt : List UInt8 × InputReceipt) (hnew : inputId ∉ w.data.inputReceipts)
      (hopen : w.data.stdin = .opened) (hq : Enqueued w.data w.queue bytes q) :
      CallerStep S w { w with
        data := { w.data with inputReceipts := w.data.inputReceipts.insert inputId receipt }
        queue := q } [.sent (some inputId) (.bytes bytes)]
  | close (hopen : w.data.stdin = .opened) (htx : w.data.inputTx = true)
      (hconnected : w.queue.connected = true) :
      CallerStep S w { w with
        data := { w.data with stdin := .closing }
        queue := { w.queue with items := w.queue.items ++ [.close] } } [.sent none .close]
  | interrupt (receipts : Table String (Result ExecutionSnapshot)) :
      CallerStep S w { w with data := { w.data with interruptReceipts := receipts } } []
  | signal {q : Queue} (receipts : Table String (Result ExecutionSnapshot))
      (hq : Enqueued w.data w.queue [3] q) :
      CallerStep S w { w with
        data := { w.data with interruptReceipts := receipts }
        queue := q } [.sent none (.bytes [3])]
  | resize (rows cols : UInt16) (hstate : w.data.execution.state = .running) :
      CallerStep S w { w with
        data := .revise
          { w.data with execution := { w.data.execution with io := .pty rows cols } }
        changeCallers := w.changeCallers + 1 } []
  | panic (hstate : w.data.execution.state = .running) (hcontrol : w.data.control = false) :
      CallerStep S w w [.panicked]
  | wait (condition : Condition) :
      CallerStep S w { w with waiters := w.waiters ++ [⟨condition, .idle⟩] } []
  | wake {waiter : ℕ} {v v' : Waiter Condition} (h : w.waiters[waiter]? = some v)
      (hv : v.step (Condition.holds w.data) (Condition.timer w.now) = some v') :
      CallerStep S w { w with waiters := w.waiters.set waiter v' } []
  | drop (waiter : ℕ) : CallerStep S w { w with waiters := w.waiters.eraseIdx waiter } []

/-- A step. -/
inductive Step (S : Setup) (w u : World) (es : List Event) : Prop
  | run (h : RunStep S w u es)
  | input (h : InputStep w u es)
  | reader (h : ReaderStep w u es)
  | caller (h : CallerStep S w u es)

/-! ### Every step is one of these -/

variable {S : Setup} {w u : World} {b : Answers} {es : List Event}

/-- **The steps of the run task.** -/
theorem run_cases (h : w.run S b = some (u, es)) : RunStep S w u es := by
  unfold World.run at h
  split at h
  · next htask =>
    cases h
    exact .silent (.cancelled htask)
  · next htask =>
    split at h
    · cases h
      exact .silent (.failed _ htask)
    · cases h
      exact .silent (.spawned _ htask)
  · next htask =>
    cases h
    exact .launch b.clock htask
  · next htask =>
    cases h
    exact .spawn htask
  · next l htask =>
    split at h
    · next hnone =>
      cases h
      exact .silent (.idle htask hnone)
    · next hsome =>
      split_ifs at h with hstopping
      · cases h
        exact .silent (.recheck htask hsome hstopping)
      · cases h
        exact .silent (.notice htask hsome (Bool.eq_false_of_not_eq_true hstopping))
  · next htask =>
    split_ifs at h
    · cases h
      exact .silent (.interrupt htask)
    · cases h
      exact .silent (.settle _ _ htask)
  · next htask =>
    cases h
    exact .enqueue b.kill htask
  · next htask =>
    split_ifs at h
    · cases h
      exact .silent (.kill _ htask)
    · cases h
      exact .silent (.select htask)
  · next htask =>
    split at h
    · cases h
      exact .silent (.exit _ htask)
    · split_ifs at h
      cases h
      exact .silent (.seen htask)
    · split_ifs at h with hstop
      cases h
      exact .stop htask hstop
    · split_ifs at h
      cases h
      exact .silent (.elapsed htask)
  · next htask =>
    cases h
    exact .terminate htask
  · next htask =>
    cases h
    exact .permit htask
  · next htask =>
    cases h
    exact .tell htask (.stopped _)
  · next htask =>
    cases h
    exact .rootExit htask
  · next htask =>
    cases h
    exact .tell htask (.exited _ _)
  · next htask =>
    split_ifs at h with hdone
    cases h
    exact .silent (.joined htask hdone)
  · next l exit htask =>
    by_cases hwait : (l.stopping && !l.killed) = true
    · rw [if_pos hwait] at h
      split at h
      · next hnone =>
        cases h
        exact .panic htask (Bool.and_eq_true_iff.mp hwait).1 hnone
      · cases h
        exact .silent (.sleep htask)
    · rw [if_neg hwait] at h
      cases h
      exact .silent (.hurry htask)
  · next htask =>
    split_ifs at h
    cases h
    exact .silent (.awake htask)
  · next htask =>
    cases h
    exact .silent (.killed _ htask)
  · next htask =>
    cases h
    exact .dropControl htask
  · next htask =>
    by_cases hdrained : w.drained = true
    · rw [if_pos hdrained] at h
      cases h
      exact .silent (.drained htask hdrained)
    · rw [if_neg hdrained] at h
      split at h
      · split_ifs at h
        cases h
        exact .silent (.expired htask)
      · split at h
        · next hreader =>
          cases h
          exact .drain htask hreader
        · cases h
  · next htask =>
    cases h
    exact .loseOutput htask
  · next htask =>
    by_cases hdrained : w.drained = true
    · rw [if_pos hdrained] at h
      cases h
      exact .silent (.aborted htask hdrained)
    · rw [if_neg hdrained] at h
      split at h
      · cases h
      · split at h
        · next hreader =>
          cases h
          exact .join htask hreader
        · cases h
  · next l exit htask =>
    cases h
    refine .silent (.released htask ?_)
    cases b.released with
    | error message => exact .inr ⟨message, rfl⟩
    | ok => exact .inl rfl
  · next htask =>
    cases h
    exact .silent (.classified htask)
  · next htask =>
    cases h
    exact .finish _ _ htask
  · next htask =>
    cases h
    exact .tell htask .finished
  · cases h

@[simp] theorem sent_self (inputId : Option String) (q : Queue) : sent inputId q q = [] := by
  rw [sent, List.drop_length, List.map_nil]

theorem sent_append (inputId : Option String) {q q' : Queue} {input : Input}
    (h : q'.items = q.items ++ [input]) : sent inputId q q' = [.sent inputId input] := by
  rw [sent, h, List.drop_left, List.map_cons, List.map_nil]

theorem eq_of_mem_sent {inputId : Option String} {q q' : Queue} {e : Event}
    (h : e ∈ sent inputId q q') : ∃ input, e = .sent inputId input := by
  obtain ⟨input, -, rfl⟩ := List.mem_map.mp h
  exact ⟨input, rfl⟩

/-- **The steps of the input task.** -/
theorem input_cases {answer : Except String ℕ} (h : w.input answer = some (u, es)) :
    InputStep w u es := by
  unfold World.input at h
  split at h
  · next htask =>
    split at h
    · next hitems =>
      split_ifs at h with htx
      cases h
      exact .hangUp htask hitems (Bool.eq_false_of_not_eq_true htx)
    · next hitems =>
      cases h
      exact .take htask hitems
    · next hitems =>
      cases h
      exact .takeClose htask hitems
  · next left permits htask =>
    have hfail (message : String) : InputStep w { w with
        queue := w.queue.release permits
        inputTask := .leaving (some message) } [] := by
      have hstep : InputStep w _ [] := .fail message (by rw [htask]; rfl) (by rw [htask]; nofun)
      rwa [htask] at hstep
    by_cases hleft : left = []
    · rw [if_pos hleft] at h
      cases h
      exact .written (hleft ▸ htask)
    · rw [if_neg hleft] at h
      split at h
      · cases h
        exact hfail _
      · cases h
        exact hfail _
      · cases h
        exact .write _ htask
  · next permits htask =>
    cases answer with
    | error message =>
      cases h
      have hstep : InputStep w _ [] := .fail message (by rw [htask]; rfl) (by rw [htask]; nofun)
      rwa [htask] at hstep
    | ok count =>
      cases h
      exact .flushed htask
  · next htask =>
    cases answer with
    | error message =>
      cases h
      have hstep : InputStep w _ [] := .fail message (by rw [htask]; rfl) (by rw [htask]; nofun)
      rwa [htask] at hstep
    | ok count =>
      cases h
      exact .shut htask
  · next htask =>
    cases h
    exact .leave htask
  · next htask =>
    cases h
    exact .tell htask
  · next htask =>
    cases h
    exact .close htask
  · cases h
  · cases h
  · cases h

theorem abortInput_cases (h : w.abortInput = some (u, es)) : InputStep w u es := by
  unfold World.abortInput at h
  split at h
  · next htask =>
    split_ifs at h with hawaits
    cases h
    exact .abort htask hawaits
  · cases h

theorem read_cases {reader : ℕ} {data : List UInt8} {outcomes : List WriteOutcome}
    (h : w.read reader data outcomes = some (u, es)) : ReaderStep w u es := by
  unfold World.read at h
  split at h
  · next hreader =>
    split_ifs at h with hdata
    split at h
    · next hd =>
      cases h
      exact .panic hreader hd
    · next hd =>
      cases h
      exact .read hreader hdata hd
  · cases h

theorem tell_cases {reader : ℕ} (h : w.tell reader = some (u, es)) : ReaderStep w u es := by
  unfold World.tell at h
  split at h
  · next hreader =>
    cases h
    exact .tell hreader
  · cases h

theorem endRead_cases {reader : ℕ} {ok : Bool} (h : w.endRead reader ok = some (u, es)) :
    ReaderStep w u es := by
  unfold World.endRead at h
  split at h
  · next hreader =>
    cases h
    exact .ended ok hreader
  · cases h

theorem abortRead_cases {reader : ℕ} (h : w.abortRead reader = some (u, es)) :
    ReaderStep w u es := by
  unfold World.abortRead at h
  split at h
  · next hreader =>
    cases h
    exact .ended false hreader
  · cases h

theorem callerStep_write (inputId : String) (bytes : List UInt8) :
    CallerStep S w (w.write S inputId bytes).1 (w.write S inputId bytes).2 := by
  rw [World.write]
  obtain ⟨r, hr⟩ | ⟨q, hnew, hq, hr⟩ :=
    write_cases S.digest S.limits w.data w.queue inputId bytes
  · rw [hr]
    dsimp only
    rw [sent_self]
    exact .refuse
  · rw [hr]
    obtain ⟨-, rfl⟩ | ⟨hopen, hq⟩ := hq
    · dsimp only
      rw [sent_self]
      exact .receipt _ hnew
    · dsimp only
      rw [sent_append _ (congrArg Queue.items hq.queue)]
      exact .write _ hnew hopen hq

theorem callerStep_closeInput : CallerStep S w w.closeInput.1 w.closeInput.2 := by
  rw [World.closeInput]
  obtain ⟨r, hr⟩ | ⟨hopen, htx, hconnected, hr⟩ := closeInput_cases w.data w.queue
  · rw [hr]
    dsimp only
    rw [sent_self]
    exact .refuse
  · rw [hr]
    dsimp only
    rw [sent_append none rfl]
    exact .close hopen htx hconnected

theorem callerStep_interrupt (operationId : String) (answer : Result Unit) :
    CallerStep S w (w.interrupt S operationId answer).1 (w.interrupt S operationId answer).2 := by
  unfold World.interrupt
  obtain ⟨hstate, hcontrol, hr⟩ | ⟨r, receipts, q, hq, hr⟩ :=
    interrupt_cases S.windows S.limits w.data w.queue operationId answer
  · rw [hr]
    exact .panic hstate hcontrol
  · rw [hr]
    obtain rfl | hq := hq
    · dsimp only
      rw [sent_self]
      exact .interrupt receipts
    · dsimp only
      rw [sent_append _ (congrArg Queue.items hq.queue)]
      exact .signal receipts hq

theorem callerStep_resize (rows cols : UInt16) (answer : Result Unit) :
    CallerStep S w (w.resize rows cols answer).1 (w.resize rows cols answer).2 := by
  unfold World.resize
  obtain ⟨hstate, hcontrol, hr⟩ | ⟨e, hr⟩ | ⟨x, hstate, hr⟩ := resize_cases w.data rows cols answer
  · rw [hr]
    exact .panic hstate hcontrol
  · rw [hr]
    exact .refuse
  · rw [hr]
    exact .resize rows cols hstate

/-- A step is one of the run task, or another. -/
theorem run_or_other {a : Action} (h : w.step S a = some (u, es)) :
    (∃ b, a = .run b) ∨ InputStep w u es ∨ ReaderStep w u es ∨ CallerStep S w u es := by
  cases a with
  | tick duration =>
    cases h
    exact .inr (.inr (.inr (.tick duration)))
  | shutdown =>
    cases h
    exact .inr (.inr (.inr .shutdown))
  | run b => exact .inl ⟨b, rfl⟩
  | read reader data outcomes => exact .inr (.inr (.inl (read_cases h)))
  | tell reader => exact .inr (.inr (.inl (tell_cases h)))
  | endRead reader ok => exact .inr (.inr (.inl (endRead_cases h)))
  | abortRead reader => exact .inr (.inr (.inl (abortRead_cases h)))
  | input answer => exact .inr (.inl (input_cases h))
  | abortInput => exact .inr (.inl (abortInput_cases h))
  | terminate grace reason =>
    cases h
    exact .inr (.inr (.inr (.terminate grace reason)))
  | notifyStop =>
    rw [World.step] at h
    split_ifs at h with hpos
    cases h
    exact .inr (.inr (.inr (.permit (Nat.pos_of_ne_zero hpos))))
  | notifyChange =>
    rw [World.step] at h
    split_ifs at h with hpos
    cases h
    exact .inr (.inr (.inr (.tell (Nat.pos_of_ne_zero hpos))))
  | write inputId bytes =>
    cases h
    exact .inr (.inr (.inr (callerStep_write inputId bytes)))
  | closeInput =>
    cases h
    exact .inr (.inr (.inr callerStep_closeInput))
  | interrupt operationId answer =>
    have hstep := @callerStep_interrupt S w operationId answer
    rw [Option.some.inj h] at hstep
    exact .inr (.inr (.inr hstep))
  | resize rows cols answer =>
    have hstep := @callerStep_resize S w rows cols answer
    rw [Option.some.inj h] at hstep
    exact .inr (.inr (.inr hstep))
  | wait condition =>
    cases h
    exact .inr (.inr (.inr (.wait condition)))
  | wake waiter =>
    rw [World.step, World.wake] at h
    split at h
    · cases h
    · next v hv =>
      obtain ⟨v', hv', heq⟩ := Option.map_eq_some_iff.mp h
      cases heq
      exact .inr (.inr (.inr (.wake hv hv')))
  | drop waiter =>
    cases h
    exact .inr (.inr (.inr (.drop waiter)))

/-- **Every step is one of these.** -/
theorem step_cases {a : Action} (h : w.step S a = some (u, es)) : Step S w u es := by
  obtain ⟨b, rfl⟩ | hs | hs | hs := run_or_other h
  · exact .run (run_cases h)
  · exact .input hs
  · exact .reader hs
  · exact .caller hs

end ExecutionProvider.Session
