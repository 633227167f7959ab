import ExecutionProvider.Foundation.Runs
import ExecutionProvider.Gateway.Jobs
import ExecutionProvider.Gateway.Machines

/-!
# The gateway process

A gateway process serves one database. For every connected machine it runs a session, which
occupies the slot of the machine from the first message of the host until what it leaves behind
is in the database. A session is a sequence of transactions and frames; the state of its task says
which comes next. Other tasks answer the users and maintain the jobs. A process may end at any
moment, and with it everything but the database.

## Main definitions

* `Phase`, `Session`: the task of a session.
* `AppState`: a gateway process with its database.
* `Action`, `AppState.step`: everything that happens to it.
* `gatewaySystem`: the runs of a gateway, with what is settled and sent.
-/

namespace ExecutionProvider.Gateway

open Protocol

/-- The number of requests that a session may have under way. -/
def maxPendingRequests : ℕ := 32

/-- The number of further requests when they terminate a run. -/
def reservedControlRequests : ℕ := 4

/-- Where the task of a session stands: before its check of the credential, before and in the
middle of its survey of the jobs under way, in its loop, there between the transaction and the
frame of a dispatch, of a response or of a missing receipt, and in its teardown. -/
inductive Phase (π : Type)
  | opening
  | checked
  | reconnecting (rows : List InflightRow) (kept : List Uuid)
  | serving (recovering : List Uuid)
  | dispatched (job : Uuid) (request : Request π)
  | responded (recovering : List Uuid) (job : Uuid)
  | missed (recovering : List Uuid) (job : Uuid)
  | closing
  | losing (jobs : List Uuid)
  | closed

/-- The session of a machine. -/
structure Session (π : Type) where
  id : Uuid
  version : ℕ
  recovery : Bool
  generation : Uuid
  revoked : Bool
  ready : Bool
  pending : List Uuid
  phase : Phase π

/-- A connection whose credential was accepted, before the first message of the host. -/
structure Handshake where
  machine : Uuid
  installation : Uuid
  version : ℕ

/-- The first message of a host. -/
structure Hello where
  protocolVersion : UInt32
  installationId : Uuid
  hostId : Uuid
  generation : Uuid
  requestRecovery : Bool

/-- The life of a process: it does not run, it has started, it settles the jobs that were lost
with the last process, it serves. -/
inductive Process
  | down
  | starting
  | settling (jobs : List Uuid)
  | up

/-- The maintenance task: it waits, it goes through the jobs that were not dispatched in time, it
goes through those that can no longer be recovered. -/
inductive Maintenance
  | idle
  | timeouts (jobs : List Uuid)
  | expiries (jobs : List Uuid)

/-- A gateway process with its database, and the machines whose sessions are about to be
revoked. -/
structure AppState (π : Type) where
  clock : ℕ
  database : Database
  process : Process
  handshakes : Table Uuid Handshake
  live : Table Uuid (Session π)
  maintenance : Maintenance
  revocations : List Uuid

/-- What happens at a gateway: a job is settled, a frame is put on the socket of a connection. -/
inductive Event (π : Type)
  | settled (σ : Settlement)
  | sent (connection : Uuid) (frame : GatewayMessage π)

/-- What a session does in a step: the database, the session and the events after it. -/
structure Turn (π : Type) where
  database : Database
  session : Session π
  events : List (Event π)

/-- The settlements of a transaction, as events. -/
def settledEvents {π : Type} (σs : List Settlement) : List (Event π) := σs.map .settled

section

variable {π : Type} (p : Platform π) (now : ℕ) (event : Uuid) (full : Bool) (db : Database)
  (machine : Uuid)

namespace Session

/-- The session of a host that has said hello. -/
def init (id : Uuid) (version : ℕ) (hello : Hello) : Session π :=
  ⟨id, version, hello.requestRecovery, hello.generation, false, false, [], .opening⟩

/-- A session in another phase. -/
def go (s : Session π) (phase : Phase π) : Session π := { s with phase := phase }

/-- A session that goes on without touching the database. -/
def turn (s : Session π) (events : List (Event π)) : Turn π := ⟨db, s, events⟩

/-- A session that sends a frame, or ends when the frame is too large or its queue is full. -/
def send (s : Session π) (frame : GatewayMessage π) (next : Phase π) : Turn π :=
  if full then ⟨db, s.go .closing, []⟩ else ⟨db, s.go next, [.sent s.id frame]⟩

/-- A session goes on after a transaction, or ends when it fails. -/
def commit {α : Type} (s : Session π) (t : Transaction α) (next : α → Session π) : Turn π :=
  match t with
  | .error _ => ⟨db, s.go .closing, []⟩
  | .ok c => ⟨c.database, next c.value, settledEvents c.settled⟩

/-- The next step of a session outside its loop. A session that is closed gives up its slot. -/
def proceed (s : Session π) : Option (Turn π) :=
  match s.phase with
  | .opening =>
    some (s.go (if touch db machine s.version then .checked else .closing) |>.turn db [])
  | .checked =>
    let rows := reconnectRows now db machine
    -- A job under way has a runtime; without one its row could not be read.
    some (s.go (if rows.any fun row => row.previous.isNone then .closing
      else .reconnecting rows []) |>.turn db [])
  | .reconnecting (row :: rows) kept =>
    some <| s.commit db (reconnectRow p now event db s.generation s.recovery row) fun _ =>
      s.go (.reconnecting rows
        (if row.recoverable s.generation s.recovery then kept ++ [row.id] else kept))
  | .reconnecting [] kept =>
    some <| { s with pending := kept, ready := !full }.send full db (.welcome s.recovery)
      (.serving kept)
  | .dispatched job request =>
    some <| { s with pending := s.pending.insert job }.send full db (.request request) (.serving [])
  | .responded recovering job =>
    let s := { s with pending := s.pending.erase job }
    some <| if s.recovery then
      s.send full db (.acknowledge job.text s.generation) (.serving recovering)
    else s.go (.serving recovering) |>.turn db []
  | .missed recovering job =>
    some <| s.commit db (finishMissing p now event db job) fun _ => s.go (.serving recovering)
  | .closing =>
    let s := { s with ready := false }
    some <| if s.recovery ∧ !s.revoked then
      s.go .closed |>.turn (disconnected now db machine s.generation) []
    else s.go (.losing s.pending) |>.turn db []
  | .losing (job :: jobs) =>
    match finishLost p now event db job with
    | .error _ => some (s.go (.losing jobs) |>.turn db [])
    | .ok c => some ⟨c.database, s.go (.losing jobs), settledEvents c.settled⟩
  | .losing [] => some (s.go .closed |>.turn db [])
  | .serving _ | .closed => none

/-- The dispatch timer of a session: it asks for the next receipt, or dispatches the next job. -/
def dispatch (locked : List Uuid) (s : Session π) : Option (Turn π) :=
  match s.phase with
  | .serving (job :: recovering) =>
    some <| if job ∈ s.pending then
      s.send full db (.recover job.text s.generation) (.serving recovering)
    else s.go (.serving recovering) |>.turn db []
  | .serving [] =>
    if s.pending.length < maxPendingRequests + reservedControlRequests then
      some <| s.commit db (dispatchNext p now event db machine s.generation s.version s.recovery
        (maxPendingRequests ≤ s.pending.length) locked) fun
          | none => s
          | some (job, request) => s.go (.dispatched job request)
    else some (s.turn db [])
  | _ => none

/-- Whether a session takes a response: it is of its runtime, and one it has asked for when there
is no recovery. -/
def takes (s : Session π) (r : Response) (job : Uuid) : Bool :=
  r.protocolVersion == Protocol.version && r.generationId == s.generation &&
    (s.recovery || s.pending.contains job)

/-- A session reads a frame. -/
def read (s : Session π) (frame : HostMessage) : Option (Turn π) :=
  match s.phase with
  | .serving recovering =>
    some <| match frame with
    | .response r =>
      match r.requestId.bind Uuid.parse with
      | none => s.go .closing |>.turn db []
      | some job =>
        if s.takes r job then
          s.commit db (response p now event db machine s.generation job r) fun _ =>
            s.go (.responded recovering job)
        else s.go .closing |>.turn db []
    | .accepted id generation =>
      if s.recovery ∧ generation = s.generation then
        match Uuid.parse id with
        | none => s.go .closing |>.turn db []
        | some job =>
          if job ∈ s.pending then s.turn (accepted now db machine generation job) []
          else s.turn db []
      else s.go .closing |>.turn db []
    | .missing id generation =>
      if s.recovery ∧ generation = s.generation then
        match Uuid.parse id with
        | none => s.go .closing |>.turn db []
        | some job =>
          if job ∈ s.pending then
            { s with pending := s.pending.erase job }.go (.missed recovering job) |>.turn db []
          else s.turn db []
      else s.go .closing |>.turn db []
  | _ => none

/-- The heartbeat of a session notices that its credential is not the current one. -/
def heartbeat (s : Session π) : Option (Turn π) :=
  match s.phase with
  | .serving _ =>
    some ({ s with revoked := s.revoked || !touch db machine s.version }.turn db [])
  | _ => none

/-- A session that was revoked says so and ends. -/
def leave (s : Session π) : Option (Turn π) :=
  match s.phase with
  | .serving _ =>
    if s.revoked then
      some <| { s with ready := false }.send full db (.disconnect .revoked) .closing
    else none
  | _ => none

/-- A session ends: its connection is lost, a frame cannot be read, the process shuts down. -/
def fail (s : Session π) : Option (Turn π) :=
  match s.phase with
  | .closing | .losing _ | .closed => none
  | _ => some (s.go .closing |>.turn db [])

/-- A transaction of the teardown fails. -/
def skip (s : Session π) : Option (Turn π) :=
  match s.phase with
  | .closing => if s.recovery ∧ !s.revoked then some (s.go .closed |>.turn db []) else none
  | .losing (_ :: jobs) => some (s.go (.losing jobs) |>.turn db [])
  | _ => none

end Session

end

/-! ### Actions -/

/-- A step of the session of a machine. -/
inductive SessionAction
  | proceed (event : Uuid) (full : Bool)
  | dispatch (event : Uuid) (full : Bool) (locked : List Uuid)
  | read (event : Uuid) (frame : HostMessage)
  | heartbeat
  | leave (full : Bool)
  | fail
  | skip

/-- A request of a user or of a host that registers. -/
inductive ApiAction
  | createUser (id : Uuid) (callbackUrl : String) (payloadVersion : Option ℕ)
  | updateUser (id : Uuid) (callbackUrl : Option String) (enabled : Option Bool)
      (payloadVersion : Option ℕ)
  | createMachine (user id tokenId : Uuid) (token : String)
  | updateMachine (user id : Uuid) (enabled : Option Bool)
  | issueRegistration (user id tokenId : Uuid) (token : String)
  | submit (id user : Uuid) (input : Submission)

/-- What happens to a gateway. Identifiers that are drawn, and whether a frame can be sent, are
part of the action. -/
inductive Action
  | tick (microseconds : ℕ)
  | start
  | crash
  | boot (event : Uuid)
  | maintain (event : Uuid)
  | maintenanceFails
  | api (a : ApiAction)
  | register (machine : Uuid) (token : String) (installation : Uuid) (credential : String)
  | remove (user machine : Uuid)
  | revoke (machine : Uuid)
  | upgrade (connection machine : Uuid) (credential : String)
  | hello (connection : Uuid) (hello : Hello)
  | session (machine : Uuid) (a : SessionAction)

/-- The identifier of a webhook delivery that is drawn in a step. -/
def SessionAction.event : SessionAction → Option Uuid
  | proceed event _ | dispatch event .. | read event _ => some event
  | _ => none

/-- The identifier of a webhook delivery that is drawn in a step. -/
def Action.event : Action → Option Uuid
  | boot event | maintain event => some event
  | session _ a => a.event
  | _ => none

section

variable {π : Type} (p : Platform π)

/-- A step of a session. -/
def Session.step (now : ℕ) (db : Database) (machine : Uuid) (s : Session π) :
    SessionAction → Option (Turn π)
  | .proceed event full => s.proceed p now event full db machine
  | .dispatch event full locked => s.dispatch p now event full db machine locked
  | .read event frame => s.read p now event db machine frame
  | .heartbeat => s.heartbeat db machine
  | .leave full => s.leave full db
  | .fail => s.fail db
  | .skip => s.skip db

namespace AppState

/-- A new installation. -/
def init : AppState π := ⟨0, .empty, .down, ∅, ∅, .idle, []⟩

/-- The runtime of the host that is connected as a machine. -/
def generation (g : AppState π) (machine : Uuid) : Option Uuid :=
  ((g.live.lookup machine).filter fun s => s.ready && !s.revoked).map Session.generation

/-- The gateway after a transaction. One that fails changes nothing. -/
def commit {α : Type} (g : AppState π) (t : Transaction α) : AppState π × List (Event π) :=
  match t with
  | .error _ => (g, [])
  | .ok c => ({ g with database := c.database }, settledEvents c.settled)

/-- A request of a user. -/
def api (g : AppState π) : ApiAction → AppState π × List (Event π)
  | .createUser id callbackUrl payloadVersion =>
    g.commit (createUser g.database id callbackUrl payloadVersion)
  | .updateUser id callbackUrl enabled payloadVersion =>
    g.commit (updateUser g.database id callbackUrl enabled payloadVersion)
  | .createMachine user id tokenId token =>
    g.commit (createMachine p g.clock g.database user id tokenId token)
  | .updateMachine user id enabled => g.commit (updateMachine g.database user id enabled)
  | .issueRegistration user id tokenId token =>
    g.commit (issueRegistration p g.clock g.database user id tokenId token)
  | .submit id user input =>
    g.commit (submit p g.clock g.database (g.generation input.machineId) id user input)

/-- A transaction that makes the session of a machine one to be revoked. -/
def commitRevoking (g : AppState π) (machine : Uuid) (t : Transaction Unit) :
    AppState π × List (Event π) :=
  match t with
  | .error _ => (g, [])
  | .ok c => ({ g with database := c.database, revocations := machine :: g.revocations },
      settledEvents c.settled)

/-- The next step of a process that has started. -/
def boot (g : AppState π) (event : Uuid) : Option (AppState π × List (Event π)) :=
  match g.process with
  | .starting =>
    some ({ g with database := markInflight g.clock g.database, process := .settling [] }, [])
  | .settling [] =>
    let jobs := lostInflight g.database
    some ({ g with process := if jobs.isEmpty then .up else .settling jobs }, [])
  | .settling (job :: jobs) =>
    match finishRestarted p g.clock event g.database job with
    | .error _ => some ({ g with process := .down }, [])
    | .ok c => some ({ g with database := c.database, process := .settling jobs },
        settledEvents c.settled)
  | .down | .up => none

/-- The next step of the maintenance. A transaction that fails ends the round. -/
def maintain (g : AppState π) (event : Uuid) : AppState π × List (Event π) :=
  match g.maintenance with
  | .idle => ({ g with maintenance := .timeouts (overdueJobs g.clock g.database) }, [])
  | .timeouts [] => ({ g with maintenance := .expiries (expiredJobs g.clock g.database) }, [])
  | .timeouts (job :: jobs) =>
    match timeoutRow p g.clock event g.database job with
    | .error _ => ({ g with maintenance := .idle }, [])
    | .ok c => ({ g with database := c.database, maintenance := .timeouts jobs },
        settledEvents c.settled)
  | .expiries [] =>
    ({ g with database := deleteRequests g.clock g.database, maintenance := .idle }, [])
  | .expiries (job :: jobs) =>
    match expireRow p g.clock event g.database job with
    | .error _ => ({ g with maintenance := .idle }, [])
    | .ok c => ({ g with database := c.database, maintenance := .expiries jobs },
        settledEvents c.settled)

/-- A credential is presented. -/
def upgrade (g : AppState π) (connection machine : Uuid) (credential : String) :
    Option (AppState π × List (Event π)) :=
  if connection ∈ g.handshakes then none
  else
    match authenticate p g.database machine credential with
    | .error _ => none
    | .ok (installation, version) =>
      some ({ g with
        handshakes := g.handshakes.insert connection ⟨machine, installation, version⟩ }, [])

/-- The first message of a host: it takes the slot of its machine. -/
def hello (g : AppState π) (connection : Uuid) (hello : Hello) :
    Option (AppState π × List (Event π)) :=
  match g.handshakes.lookup connection with
  | none => none
  | some h =>
    let g := { g with handshakes := g.handshakes.erase connection }
    if hello.protocolVersion ≠ Protocol.version then
      some (g, [.sent connection (.disconnect .incompatibleProtocol)])
    else if hello.installationId ≠ h.installation ∨ hello.hostId ≠ h.machine then some (g, [])
    else if h.machine ∈ g.live then some (g, [])
    else some ({ g with live := g.live.insert h.machine (.init connection h.version hello) }, [])

/-- A step of the session of a machine. -/
def sessionStep (g : AppState π) (machine : Uuid) (a : SessionAction) :
    Option (AppState π × List (Event π)) :=
  match g.live.lookup machine with
  | none => none
  | some s =>
    match s.phase, a with
    | .closed, .proceed .. => some ({ g with live := g.live.erase machine }, [])
    | _, _ =>
      (s.step p g.clock g.database machine a).map fun t =>
        ({ g with database := t.database, live := g.live.insert machine t.session }, t.events)

/-- What a process that serves does. -/
def serve (g : AppState π) : Action → Option (AppState π × List (Event π))
  | .maintain event => some (g.maintain p event)
  | .maintenanceFails => some ({ g with maintenance := .idle }, [])
  | .api a => some (g.api p a)
  | .register machine token installation credential =>
    some (g.commitRevoking machine
      (register p g.clock g.database machine token installation credential))
  | .remove user machine => some (g.commitRevoking machine (remove g.clock g.database user machine))
  | .revoke machine =>
    if machine ∈ g.revocations then
      some ({ g with
        revocations := g.revocations.erase machine
        live := g.live.modify machine fun s => { s with revoked := true } }, [])
    else none
  | .upgrade connection machine credential => g.upgrade p connection machine credential
  | .hello connection hello => g.hello connection hello
  | .session machine a => g.sessionStep p machine a
  | _ => none

/-- A step of a gateway. Identifiers that are drawn are new. -/
def step (g : AppState π) (a : Action) : Option (AppState π × List (Event π)) :=
  if a.event.any fun event => event ∈ g.database.webhookDeliveries then none
  else
    match a, g.process with
    | .tick n, _ => some ({ g with clock := g.clock + n }, [])
    | .start, .down => some ({ g with process := .starting }, [])
    | .crash, _ => some ({ g with
        process := .down, handshakes := ∅, live := ∅, maintenance := .idle, revocations := [] }, [])
    | .boot event, _ => g.boot p event
    | a, .up => g.serve p a
    | _, _ => none

end AppState

/-- The runs of a gateway, from a new installation on. -/
def gatewaySystem : System (AppState π) Action (Event π) where
  start g := g = .init
  step g a := g.step p a

end

/-! ### An installation with one machine -/

/-- Requests without content. -/
def plainPlatform : Platform Unit where
  kind _ := .single .other
  decodePayload _ := some ()
  encodePayload _ := []
  jsonText _ := ""
  sha256 text := text
  timestamp _ := ""
  retentionDays := 30

/-- User 1 creates machine 2, and a host of runtime 3 connects as this machine, by connection 4. -/
def connectActions : List Action :=
  [.start, .boot (.numbered 0), .boot (.numbered 0),
    .api (.createUser (.numbered 1) "https://example.com" (some 1)),
    .api (.createMachine (.numbered 1) (.numbered 2) (.numbered 0) "token"),
    .register (.numbered 2) "token" (.numbered 0) "credential", .revoke (.numbered 2),
    .upgrade (.numbered 4) (.numbered 2) "credential",
    .hello (.numbered 4) ⟨5, .numbered 0, .numbered 2, .numbered 3, true⟩,
    .session (.numbered 2) (.proceed (.numbered 0) false),
    .session (.numbered 2) (.proceed (.numbered 0) false),
    .session (.numbered 2) (.proceed (.numbered 0) false)]

/-- The user submits job 5. -/
def submitAction : Action :=
  .api (.submit (.numbered 5) (.numbered 1) ⟨.numbered 2, "key", none, .obj []⟩)

end ExecutionProvider.Gateway
