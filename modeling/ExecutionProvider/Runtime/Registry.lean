import ExecutionProvider.Core.Error
import ExecutionProvider.Core.Types
import ExecutionProvider.Foundation.Runs
import ExecutionProvider.Foundation.Table
import ExecutionProvider.Protocol.Uuid

/-!
# The execution registry

The runtime keeps its executions in a registry behind a lock. Starting or running a command
records a session there, unless the identity of the request is known; terminating a run looks
its session up, and records a cancellation for later when there is none. What follows the locked
section of a call (launching the process, stopping the session) happens later, and other calls
may come in between.

A session and the task that drives it are kept apart from the registry, as they outlive their
entry there.

## Main definitions

* `Session`, `Execution`: a session, and how far the task that drives it has come.
* `Registry`, `Registry.cleanup`: the registry and the expiry of its entries.
* `Core`: the runtime, with the calls that are between two of their locked sections.
* `Core.step`: a locked section, or a step of a session.

## Main results

* `Core.startExecution_cases`, `Core.runExecution_cases`, `Core.terminateRun_cases`, ...: all that a
  locked section may do.
-/

namespace ExecutionProvider.Runtime

/-! ### Sessions -/

/-- Why a session was asked to stop. -/
inductive StopReason
  | explicitTermination
  | timeout
  | runtimeShutdown
deriving DecidableEq, Repr

/-- The part of a session that decides whether it runs. -/
structure Session where
  state : ExecutionState
  launched : Bool
  rootExited : Bool
  finishedAt : Option ℕ
  stopDeadline : Option ℕ
  stopReason : Option StopReason
deriving DecidableEq

namespace Session

/-- A session that was just admitted. -/
def new : Session := ⟨.starting, false, false, none, none, none⟩

/-- A session is asked to stop. The first request counts. -/
def terminate (s : Session) (now grace : ℕ) (reason : StopReason) : Session :=
  if s.state ≠ .finished ∧ s.rootExited = false ∧ s.stopDeadline = none then
    { s with stopDeadline := some (now + grace), stopReason := some reason, state := .stopping }
  else s

/-- The process of a session was launched. -/
def launch (s : Session) : Session :=
  { s with launched := true, state := if s.stopDeadline = none then .running else s.state }

/-- The process of a session exited. -/
def rootExit (s : Session) : Session := { s with rootExited := true, state := .stopping }

/-- A session is finished. -/
def finish (s : Session) (now : ℕ) : Session :=
  { s with state := .finished, finishedAt := some now, launched := true }

/-- A session was asked to stop, or its process is gone, or it is finished. -/
def stopped (s : Session) : Bool :=
  s.stopDeadline.isSome || s.rootExited || s.state = .finished

end Session

/-- How far the task of a session has come: a cancelled session is only to be finished; for any
other, a process is to be spawned, was spawned, is waited for, is drained, or is done. -/
inductive Phase
  | cancelled
  | spawning
  | spawned
  | waiting
  | draining
  | done
deriving DecidableEq, Repr

/-- A session and its task. -/
structure Execution where
  session : Session
  phase : Phase
deriving DecidableEq

namespace Execution

/-- An execution of which no process is left running without a request to stop: its session is
stopped, or no process was or will be launched for it. -/
def halted (x : Execution) : Bool := x.session.stopped || x.phase = .cancelled

/-- The next step of the task of a session. Spawning a process may fail. -/
def advance (x : Execution) (now : ℕ) (spawnFails : Bool) : Option Execution :=
  match x.phase with
  | .cancelled => some ⟨x.session.finish now, .done⟩
  | .spawning => if spawnFails then some ⟨x.session.finish now, .done⟩ else
      some ⟨x.session, .spawned⟩
  | .spawned => some ⟨x.session.launch, .waiting⟩
  | .waiting => some ⟨x.session.rootExit, .draining⟩
  | .draining => some ⟨x.session.finish now, .done⟩
  | .done => none

end Execution

/-! ### The registry -/

/-- A request to start a command, with everything about the command as its arguments. -/
structure StartRequest (ρ : Type) where
  startId : String
  arguments : ρ
deriving DecidableEq

/-- A request to run a command to its end. -/
structure RunRequest (ρ : Type) where
  runId : String
  arguments : ρ
deriving DecidableEq

/-- An entry of the registry. Its session is the one with the number of the entry. -/
structure Entry (ρ : Type) where
  handle : Uuid
  startRequest : Option (StartRequest ρ)
  runRequest : Option (RunRequest ρ)

/-- The identity under which an entry was started. -/
def Entry.startId {ρ : Type} (e : Entry ρ) : Option String := e.startRequest.map (·.startId)

/-- The identity under which an entry was run. -/
def Entry.runId {ρ : Type} (e : Entry ρ) : Option String := e.runRequest.map (·.runId)

/-- The limits of a runtime that its registry heeds. -/
structure Limits where
  finishedRetention : ℕ
  runOutputRetention : ℕ
  maxActiveExecutions : ℕ
  maxRetainedExecutions : ℕ
  terminationGrace : ℕ
  maxTerminationGrace : ℕ

/-- The registry: its entries by number, their numbers by handle and identity, and the times at
which runs that were not there yet were cancelled. -/
structure Registry (ρ : Type) where
  entries : Table ℕ (Entry ρ)
  handles : Table Uuid ℕ
  starts : Table String ℕ
  runs : Table String ℕ
  pendingRunTerminations : Table String ℕ
  nextSequence : ℕ
  shuttingDown : Bool

namespace Registry

variable {ρ : Type}

/-- The registry of a new runtime. -/
def empty : Registry ρ := ⟨∅, ∅, ∅, ∅, ∅, 1, false⟩

/-- Whether the session of an entry has been finished for as long as it is retained. -/
def isExpired (limits : Limits) (sessions : Table ℕ Execution) (now sequence : ℕ)
    (entry : Entry ρ) : Bool :=
  let retention :=
    if entry.runRequest.isSome then limits.runOutputRetention else limits.finishedRetention
  match (sessions.lookup sequence).bind fun x => x.session.finishedAt with
  | some finishedAt => retention ≤ now - finishedAt
  | none => false

/-- Old cancellations and expired entries are removed. -/
def cleanup (r : Registry ρ) (limits : Limits) (sessions : Table ℕ Execution) (now : ℕ) :
    Registry ρ :=
  let expired := r.entries.select (isExpired limits sessions now)
  { r with
    pendingRunTerminations :=
      r.pendingRunTerminations.retain fun _ createdAt => now - createdAt < limits.runOutputRetention
    entries := r.entries.eraseAll (expired.map Prod.fst)
    handles := r.handles.eraseAll (expired.map fun e => e.2.handle)
    starts := r.starts.eraseAll (expired.filterMap fun e => e.2.startRequest.map (·.startId))
    runs := r.runs.eraseAll (expired.filterMap fun e => e.2.runRequest.map (·.runId)) }

/-- The number of entries whose session is not finished. -/
def active (r : Registry ρ) (sessions : Table ℕ Execution) : ℕ :=
  (r.entries.select fun sequence _ =>
    (sessions.lookup sequence).any fun x => x.session.state ≠ .finished).length

/-- Whether there is room for another execution. -/
def hasRoom (r : Registry ρ) (limits : Limits) (sessions : Table ℕ Execution) : Bool :=
  r.active sessions < limits.maxActiveExecutions &&
    r.entries.entries.length < limits.maxRetainedExecutions

end Registry

/-! ### The runtime -/

/-- A call of `terminate_run` between two of its locked sections: it has looked the session of the
run up, or has also seen that the session was not finished. -/
inductive TerminateCall
  | lookedUp (runId : String) (grace : ℕ) (session : Option ℕ)
  | inspected (runId : String) (grace : ℕ) (session : ℕ)
deriving DecidableEq

/-- The return of a call of `terminate_run`. It is raced when, before the last locked section of
the call, the registry held a session of that run, other than the one that the call had
looked up, that nothing had stopped. -/
inductive Event
  | returned (runId : String) (state : TerminateRunState) (raced : Bool)
  | failed (error : Error)

/-- The session that a call goes on with, and whether the call has joined it. -/
structure Admission where
  sequence : ℕ
  retry : Bool
deriving DecidableEq

/-- The event of an answer: only failures are events. -/
def failures {α : Type} : Result α → List Event
  | .ok _ => []
  | .error e => [.failed e]

/-- A runtime. Only specifications look at `promised`: the runs whose termination was confirmed,
and when. -/
structure Core (ρ : Type) where
  registry : Registry ρ
  sessions : Table ℕ Execution
  terminateCalls : Table ℕ TerminateCall
  now : ℕ
  promised : List (String × ℕ)

/-- A locked section of a call, a step of a session, or the passing of time. The handles of new
executions, the numbers of calls, and the failures of spawning a process or of creating an
output file come from outside. -/
inductive Action (ρ : Type)
  | startExecution (request : StartRequest ρ) (handle : Uuid)
  | runExecution (request : RunRequest ρ) (handle : Uuid)
      (spoolError : Option String)
  | terminateRun (call : ℕ) (runId : String) (grace : Option ℕ)
  | recordPending (call : ℕ)
  | inspect (call : ℕ)
  | stop (call : ℕ)
  | terminate (sequence grace : ℕ) (reason : StopReason)
  | advance (sequence : ℕ) (spawnFails : Bool)
  | cleanup
  | shutdown
  | wait (time : ℕ)

namespace Core

variable {ρ : Type} (limits : Limits)

/-- A new runtime. -/
def init : Core ρ := ⟨.empty, ∅, ∅, 0, []⟩

/-- Old cancellations and expired entries are removed. -/
def cleanup (c : Core ρ) : Core ρ :=
  { c with registry := c.registry.cleanup limits c.sessions c.now }

/-- A new session is recorded under the next number. -/
def record (c : Core ρ) (entry : Entry ρ) (phase : Phase) : Core ρ :=
  let sequence := c.registry.nextSequence
  { c with
    registry := { c.registry with
      entries := c.registry.entries.insert sequence entry
      handles := c.registry.handles.insert entry.handle sequence
      nextSequence := sequence + 1 }
    sessions := c.sessions.insert sequence ⟨.new, phase⟩ }

/-- An execution that is started is recorded. -/
def admitStart (c : Core ρ) (request : StartRequest ρ) (handle : Uuid) : Core ρ :=
  let sequence := c.registry.nextSequence
  let c := c.record ⟨handle, some request, none⟩ .spawning
  { c with registry :=
    { c.registry with starts := c.registry.starts.insert request.startId sequence } }

/-- A run is recorded. A cancellation that was recorded for it is consumed: no process will be
launched. -/
def admitRun (c : Core ρ) (request : RunRequest ρ) (handle : Uuid) : Core ρ :=
  let sequence := c.registry.nextSequence
  let cancelled := (c.registry.pendingRunTerminations.lookup request.runId).isSome
  let c := c.record ⟨handle, none, some request⟩ (if cancelled then .cancelled else .spawning)
  { c with registry := { c.registry with
      runs := c.registry.runs.insert request.runId sequence
      pendingRunTerminations := c.registry.pendingRunTerminations.erase request.runId } }

/-- What becomes of the runtime in a section, and the event of its answer. A section without an
answer only removes what is old. -/
def answered (c : Core ρ) (accepted : Option (Core ρ × Result Admission)) : Core ρ × List Event :=
  match accepted with
  | some (c', answer) => (c', failures answer)
  | none => (c.cleanup limits, [])

section Accept

variable [DecidableEq ρ] (c : Core ρ)

/-- The locked section of `start_execution`. There is no answer when the entry of an execution that
was found is not there. -/
def acceptStart (request : StartRequest ρ) (handle : Uuid) : Option (Core ρ × Result Admission) :=
  let c := c.cleanup limits
  match c.registry.starts.lookup request.startId with
  | some sequence =>
    match c.registry.entries.lookup sequence with
    | none => none
    | some entry =>
      if entry.startRequest = some request then some (c, .ok ⟨sequence, true⟩)
      else some (c, .error
        ⟨.idempotencyConflict, "start_id was used for different arguments"⟩)
  | none =>
    if c.registry.shuttingDown then
      some (c, .error ⟨.unavailable, "runtime is shutting down"⟩)
    else if c.registry.hasRoom limits c.sessions then
      some (c.admitStart request handle, .ok ⟨c.registry.nextSequence, false⟩)
    else some (c, .error ⟨.resourceLimit, "execution capacity reached"⟩)

/-- The locked section of `run_execution`. A run that the registry knows is joined. -/
def acceptRun (request : RunRequest ρ) (handle : Uuid) (spoolError : Option String) :
    Option (Core ρ × Result Admission) :=
  let c := c.cleanup limits
  match c.registry.runs.lookup request.runId with
  | some sequence =>
    match c.registry.entries.lookup sequence with
    | none => none
    | some entry =>
      if entry.runRequest = some request then some (c, .ok ⟨sequence, true⟩)
      else some (c, .error
        ⟨.idempotencyConflict, "run_id was used for different arguments"⟩)
  | none =>
    if c.registry.shuttingDown then
      some (c, .error ⟨.unavailable, "runtime is shutting down"⟩)
    else if c.registry.hasRoom limits c.sessions then
      match spoolError with
      | some message => some (c, .error ⟨.io, message⟩)
      | none => some (c.admitRun request handle, .ok ⟨c.registry.nextSequence, false⟩)
    else some (c, .error ⟨.resourceLimit, "execution capacity reached"⟩)

/-- An execution is started. -/
def startExecution (request : StartRequest ρ) (handle : Uuid) : Core ρ × List Event :=
  c.answered limits (c.acceptStart limits request handle)

/-- A command is run. -/
def runExecution (request : RunRequest ρ) (handle : Uuid) (spoolError : Option String) :
    Core ρ × List Event :=
  c.answered limits (c.acceptRun limits request handle spoolError)

end Accept

/-- The first locked section of `terminate_run`: the session of the run is looked up. -/
def terminateRun (c : Core ρ) (call : ℕ) (runId : String) (grace : Option ℕ) :
    Core ρ × List Event :=
  let grace := grace.getD limits.terminationGrace
  if runId = "" ∨ 256 < runId.utf8ByteSize then
    (c, [.failed (.invalid "run_id must contain 1 to 256 bytes")])
  else if limits.maxTerminationGrace < grace then
    (c, [.failed (.invalid "termination grace exceeds maximum")])
  else
    let c := c.cleanup limits
    ({ c with terminateCalls :=
        c.terminateCalls.insert call (.lookedUp runId grace (c.registry.runs.lookup runId)) }, [])

/-- Whether the registry holds a session of a run, other than the given one, that nothing has
stopped. -/
def raced (c : Core ρ) (runId : String) (own : Option ℕ) : Bool :=
  match c.registry.runs.lookup runId with
  | none => false
  | some sequence =>
    some sequence ≠ own && !(c.sessions.lookup sequence).any Execution.halted

/-- A call of `terminate_run` returns. -/
def confirm (c : Core ρ) (call : ℕ) (runId : String) : Core ρ :=
  { c with
    terminateCalls := c.terminateCalls.erase call
    promised := (runId, c.now) :: c.promised }

/-- The second locked section of `terminate_run`, when no session was found: the cancellation is
recorded unless it is already. -/
def recordPending (c : Core ρ) (call : ℕ) : Option (Core ρ × List Event) :=
  match c.terminateCalls.lookup call with
  | some (.lookedUp runId _ none) =>
    if limits.maxRetainedExecutions ≤ c.registry.pendingRunTerminations.entries.length then
      some ({ c with terminateCalls := c.terminateCalls.erase call },
        [.failed ⟨.resourceLimit, "pending run termination capacity reached"⟩])
    else
      let pending := c.registry.pendingRunTerminations
      let pending := if (pending.lookup runId).isSome then pending else pending.insert runId c.now
      some ({ c with registry := { c.registry with pendingRunTerminations := pending } }.confirm
        call runId, [.returned runId .pending (c.raced runId none)])
  | _ => none

/-- The session that `terminate_run` found is looked at. -/
def inspect (c : Core ρ) (call : ℕ) : Option (Core ρ × List Event) :=
  match c.terminateCalls.lookup call with
  | some (.lookedUp runId grace (some sequence)) =>
    match c.sessions.lookup sequence with
    | none => none
    | some x =>
      if x.session.state = .finished then
        some (c.confirm call runId,
          [.returned runId .finished (c.raced runId (some sequence))])
      else
        some ({ c with terminateCalls :=
          c.terminateCalls.insert call (.inspected runId grace sequence) }, [])
  | _ => none

/-- The session that `terminate_run` found is asked to stop. -/
def stop (c : Core ρ) (call : ℕ) : Option (Core ρ × List Event) :=
  match c.terminateCalls.lookup call with
  | some (.inspected runId grace sequence) =>
    some ({ c with sessions := c.sessions.modify sequence fun x =>
        { x with session := x.session.terminate c.now grace .explicitTermination } }.confirm
      call runId, [.returned runId .terminating (c.raced runId (some sequence))])
  | _ => none

/-- A step of the task of a session. -/
def advance (c : Core ρ) (sequence : ℕ) (spawnFails : Bool) : Option (Core ρ × List Event) :=
  match (c.sessions.lookup sequence).bind fun x => x.advance c.now spawnFails with
  | none => none
  | some x => some ({ c with sessions := c.sessions.modify sequence fun _ => x }, [])

/-- A locked section, or a step of a session. -/
def step [DecidableEq ρ] (c : Core ρ) : Action ρ → Option (Core ρ × List Event)
  | .startExecution request handle => some (c.startExecution limits request handle)
  | .runExecution request handle spoolError =>
    some (c.runExecution limits request handle spoolError)
  | .terminateRun call runId grace =>
    if (c.terminateCalls.lookup call).isNone then some (c.terminateRun limits call runId grace)
    else none
  | .recordPending call => c.recordPending limits call
  | .inspect call => c.inspect call
  | .stop call => c.stop call
  | .terminate sequence grace reason =>
    some ({ c with sessions := c.sessions.modify sequence fun x =>
      { x with session := x.session.terminate c.now grace reason } }, [])
  | .advance sequence spawnFails => c.advance sequence spawnFails
  | .cleanup => some (c.cleanup limits, [])
  | .shutdown => some ({ c with registry := { c.registry with shuttingDown := true } }, [])
  | .wait time => some ({ c with now := c.now + time }, [])

end Core

/-- The runs of a runtime. -/
def system {ρ : Type} [DecidableEq ρ] (limits : Limits) : System (Core ρ) (Action ρ) Event where
  start c := c = Core.init
  step := Core.step limits

/-! ### What a locked section does -/

section Cases

variable {ρ : Type} {limits : Limits} {c c' : Core ρ} {call : ℕ} {es : List Event}

section Accept

variable [DecidableEq ρ]

variable (limits) in
/-- What starting an execution does: nothing but expiry, or it is recorded. -/
theorem Core.startExecution_cases (c : Core ρ) (request : StartRequest ρ) (handle : Uuid) :
    (∃ es, (∀ e ∈ es, ∃ error, e = .failed error) ∧
      c.startExecution limits request handle = (c.cleanup limits, es)) ∨
    (c.cleanup limits).registry.starts.lookup request.startId = none ∧
      (c.cleanup limits).registry.shuttingDown = false ∧
      c.startExecution limits request handle =
        ((c.cleanup limits).admitStart request handle, []) := by
  unfold Core.startExecution Core.acceptStart
  dsimp only
  cases hs : (c.cleanup limits).registry.starts.lookup request.startId with
  | some sequence =>
    refine Or.inl ?_
    dsimp only
    cases (c.cleanup limits).registry.entries.lookup sequence with
    | none => exact ⟨[], by simp, rfl⟩
    | some entry =>
      dsimp only
      split_ifs
      · exact ⟨[], by simp, rfl⟩
      · exact ⟨[.failed _], by simp, rfl⟩
  | none =>
    dsimp only
    split_ifs with hdown hroom
    · exact Or.inl ⟨[.failed _], by simp, rfl⟩
    · exact Or.inr ⟨rfl, Bool.not_eq_true _ ▸ hdown, rfl⟩
    · exact Or.inl ⟨[.failed _], by simp, rfl⟩

/-- Whether a run is admitted. -/
def Core.AdmitsRun (limits : Limits) (c : Core ρ) (request : RunRequest ρ)
    (spoolError : Option String) : Prop :=
  (c.cleanup limits).registry.runs.lookup request.runId = none ∧
    (c.cleanup limits).registry.shuttingDown = false ∧
    (c.cleanup limits).registry.hasRoom limits c.sessions = true ∧ spoolError = none

variable (limits) in
/-- What running a command does: nothing but expiry, or it is admitted. -/
theorem Core.runExecution_cases (c : Core ρ) (request : RunRequest ρ) (handle : Uuid)
    (spoolError : Option String) :
    ¬c.AdmitsRun limits request spoolError ∧ (∃ es, (∀ e ∈ es, ∃ error, e = .failed error) ∧
      c.runExecution limits request handle spoolError = (c.cleanup limits, es)) ∨
    c.AdmitsRun limits request spoolError ∧
      c.runExecution limits request handle spoolError =
        ((c.cleanup limits).admitRun request handle, []) := by
  unfold Core.runExecution Core.acceptRun Core.AdmitsRun
  dsimp only
  cases hs : (c.cleanup limits).registry.runs.lookup request.runId with
  | some sequence =>
    refine Or.inl ⟨by simp, ?_⟩
    dsimp only
    cases (c.cleanup limits).registry.entries.lookup sequence with
    | none => exact ⟨[], by simp, rfl⟩
    | some entry =>
      dsimp only
      split_ifs
      · exact ⟨[], by simp, rfl⟩
      · exact ⟨[.failed _], by simp, rfl⟩
  | none =>
    dsimp only
    split_ifs with hdown hroom
    · exact Or.inl ⟨by simp [hdown], [.failed _], by simp, rfl⟩
    · cases spoolError with
      | some message => exact Or.inl ⟨by simp, [.failed _], by simp, rfl⟩
      | none => exact Or.inr ⟨⟨rfl, Bool.not_eq_true _ ▸ hdown, hroom, rfl⟩, rfl⟩
    · exact Or.inl ⟨fun h => hroom h.2.2.1, [.failed _], by simp, rfl⟩

end Accept

variable (limits) in
/-- The first section of `terminate_run`: the call is refused, or the run is looked up. -/
theorem Core.terminateRun_cases (c : Core ρ) (call : ℕ) (runId : String) (grace : Option ℕ) :
    (∃ error, c.terminateRun limits call runId grace = (c, [.failed error])) ∨
      ¬(runId = "" ∨ 256 < runId.utf8ByteSize) ∧ c.terminateRun limits call runId grace =
        ({ c.cleanup limits with
            terminateCalls := (c.cleanup limits).terminateCalls.insert call
              (.lookedUp runId (grace.getD limits.terminationGrace)
                ((c.cleanup limits).registry.runs.lookup runId)) }, []) := by
  rw [Core.terminateRun]
  dsimp only
  split_ifs with hid
  · exact Or.inl ⟨_, rfl⟩
  · exact Or.inl ⟨_, rfl⟩
  · exact Or.inr ⟨hid, rfl⟩

/-- The cancellations after one was recorded. -/
def Core.recorded (c : Core ρ) (runId : String) : Table String ℕ :=
  if (c.registry.pendingRunTerminations.lookup runId).isSome then
    c.registry.pendingRunTerminations
  else c.registry.pendingRunTerminations.insert runId c.now

/-- The second section of a call that has found no session fails for want of room, or returns. -/
theorem Core.recordPending_cases (hs : c.recordPending limits call = some (c', es)) :
    ∃ runId grace, c.terminateCalls.lookup call = some (.lookedUp runId grace none) ∧
      (limits.maxRetainedExecutions ≤ c.registry.pendingRunTerminations.entries.length ∧
          c' = { c with terminateCalls := c.terminateCalls.erase call } ∧
          (∃ error, es = [.failed error]) ∨
        ¬limits.maxRetainedExecutions ≤ c.registry.pendingRunTerminations.entries.length ∧
          c' = Core.confirm { c with
            registry := { c.registry with pendingRunTerminations := c.recorded runId } }
            call runId ∧
          es = [.returned runId .pending (c.raced runId none)]) := by
  rw [Core.recordPending] at hs
  split at hs
  · next runId grace hcall =>
    refine ⟨runId, grace, hcall, ?_⟩
    split_ifs at hs with hfull
    · obtain ⟨rfl, rfl⟩ := Prod.mk.inj (Option.some.inj hs)
      exact Or.inl ⟨hfull, rfl, _, rfl⟩
    all_goals
      obtain ⟨rfl, rfl⟩ := Prod.mk.inj (Option.some.inj hs)
      exact Or.inr ⟨hfull, rfl, rfl⟩
  · cases hs

/-- A call looks at the session that it has found: it returns when the session is finished. -/
theorem Core.inspect_cases (hs : c.inspect call = some (c', es)) :
    ∃ runId grace own x, c.terminateCalls.lookup call = some (.lookedUp runId grace (some own)) ∧
      c.sessions.lookup own = some x ∧
      (x.session.state = .finished ∧ c' = c.confirm call runId ∧
          es = [.returned runId .finished (c.raced runId (some own))] ∨
        x.session.state ≠ .finished ∧
          c' = { c with
            terminateCalls := c.terminateCalls.insert call (.inspected runId grace own) } ∧
          es = []) := by
  rw [Core.inspect] at hs
  split at hs
  · next runId grace own hcall =>
    split at hs
    · cases hs
    · next x hx =>
      refine ⟨runId, grace, own, x, hcall, hx, ?_⟩
      split_ifs at hs with hfinished
      · obtain ⟨rfl, rfl⟩ := Prod.mk.inj (Option.some.inj hs)
        exact Or.inl ⟨hfinished, rfl, rfl⟩
      · obtain ⟨rfl, rfl⟩ := Prod.mk.inj (Option.some.inj hs)
        exact Or.inr ⟨hfinished, rfl, rfl⟩
  · cases hs

/-- A call asks the session that it has found to stop, and returns. -/
theorem Core.stop_cases (hs : c.stop call = some (c', es)) :
    ∃ runId grace own, c.terminateCalls.lookup call = some (.inspected runId grace own) ∧
      c' = Core.confirm { c with
        sessions := c.sessions.modify own fun x =>
          { x with session := x.session.terminate c.now grace .explicitTermination } } call runId ∧
      es = [.returned runId .terminating (c.raced runId (some own))] := by
  rw [Core.stop] at hs
  split at hs
  · next runId grace own hcall =>
    obtain ⟨rfl, rfl⟩ := Prod.mk.inj (Option.some.inj hs)
    exact ⟨runId, grace, own, hcall, rfl, rfl⟩
  · cases hs

/-- The task of a session takes a step. -/
theorem Core.advance_cases {sequence : ℕ} {spawnFails : Bool}
    (hs : c.advance sequence spawnFails = some (c', es)) :
    ∃ x x', c.sessions.lookup sequence = some x ∧ x.advance c.now spawnFails = some x' ∧
      c' = { c with sessions := c.sessions.modify sequence fun _ => x' } ∧ es = [] := by
  rw [Core.advance] at hs
  split at hs
  · cases hs
  · next x' hx' =>
    obtain ⟨x, hx, hadvance⟩ := Option.bind_eq_some_iff.mp hx'
    obtain ⟨rfl, rfl⟩ := Prod.mk.inj (Option.some.inj hs)
    exact ⟨x, x', hx, hadvance, rfl, rfl⟩

end Cases

end ExecutionProvider.Runtime
