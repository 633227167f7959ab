import Mathlib.Algebra.Group.Int.Defs
import Mathlib.Algebra.Group.Nat.Defs
import ExecutionProvider.Foundation.Table
import ExecutionProvider.Protocol.Messages

/-!
# The database of the gateway

The gateway keeps its users, their machines and the jobs of both in a database. All of its code
works on it in transactions: a transaction reads the rows as they are, at one reading of the
clock, and its changes become visible together or, when it fails, not at all.

A job is queued until its request is dispatched; then it is under way until it is settled, that
is, until its status is final. Settling a job is the only change that has an outcome: the
response or the error that the job ends with, and a webhook delivery for its owner.

## Main definitions

* `Platform`: what the gateway takes from its libraries and its configuration.
* `GatewayError`: the errors of the gateway.
* `Job`, `JobStatus`, `FinalStatus`: the jobs.
* `Database`: all tables.
* `Settlement`: the outcome with which a job is settled.
* `Transaction`: the result of a transaction.
-/

namespace ExecutionProvider.Gateway

open Protocol

/-- Microseconds, the precision of the clock of the database. -/
def seconds (n : ℕ) : ℕ := n * 1000000

/-- What the gateway takes from its libraries: the kinds of operations that a payload consists
of, reading and writing payloads and JSON, the digest of a text and the text of a time; and the
number of days for which requests are kept. -/
structure Platform (π : Type) where
  kind : π → PayloadKind
  decodePayload : Json → Option π
  encodePayload : π → List (String × Json)
  jsonText : Json → String
  sha256 : String → String
  timestamp : ℕ → String
  retentionDays : ℕ

/-! ### Errors -/

/-- An error of the gateway, with its HTTP status. -/
structure GatewayError where
  status : ℕ
  code : String
  message : String
deriving DecidableEq

namespace GatewayError

def invalid (message : String) : GatewayError := ⟨400, "invalid_argument", message⟩

def unauthorized : GatewayError := ⟨401, "unauthorized", "invalid or inactive credential"⟩

def missing : GatewayError := ⟨404, "not_found", "resource not found"⟩

def conflict (code message : String) : GatewayError := ⟨409, code, message⟩

def internal : GatewayError := ⟨500, "internal_error", "request could not be completed"⟩

/-- An error of reading JSON. -/
def invalidJson : GatewayError := .invalid "invalid request JSON"

def value (e : GatewayError) : Json := Protocol.errorValue e.code e.message

end GatewayError

/-! ### Rows -/

/-- The owner of machines and jobs. -/
structure User where
  enabled : Bool
  callbackUrl : String
  webhookPayloadVersion : ℕ
deriving DecidableEq

/-- A machine. Every registration and its removal raise the version of its credential. -/
structure Machine where
  userId : Uuid
  enabled : Bool
  installationId : Option Uuid
  credentialHash : Option String
  credentialVersion : ℕ
  deletedAt : Option ℕ
deriving DecidableEq

/-- A token with which a machine can be registered once. -/
structure RegistrationToken where
  machineId : Uuid
  tokenHash : String
  expiresAt : ℕ
  consumedAt : Option ℕ
  revokedAt : Option ℕ
deriving DecidableEq

/-- The statuses with which a job ends. -/
inductive FinalStatus
  | succeeded
  | failed
  | unknown
deriving DecidableEq

/-- How a final status is written. -/
def FinalStatus.text : FinalStatus → String
  | succeeded => "succeeded"
  | failed => "failed"
  | unknown => "unknown"

/-- The status of a job. -/
inductive JobStatus
  | queued
  | dispatching
  | waitingResponse
  | final (status : FinalStatus)
deriving DecidableEq

namespace JobStatus

/-- Whether a job has ended. -/
def isFinal : JobStatus → Bool
  | final _ => true
  | _ => false

/-- Whether the request of a job was dispatched and the job has not ended. -/
def isInflight : JobStatus → Bool
  | dispatching | waitingResponse => true
  | _ => false

theorem isFinal_eq_false_iff {s : JobStatus} :
    s.isFinal = false ↔ s = queued ∨ s.isInflight = true := by
  cases s <;> simp [isFinal, isInflight]

theorem isFinal_of_isInflight {s : JobStatus} (h : s.isInflight = true) : s.isFinal = false :=
  isFinal_eq_false_iff.mpr (Or.inr h)

theorem ne_queued_of_isInflight {s : JobStatus} (h : s.isInflight = true) : s ≠ queued := by
  rintro rfl
  cases h

end JobStatus

/-- A job. -/
structure Job where
  userId : Uuid
  machineId : Uuid
  idempotencyKey : String
  requestHash : String
  clientContext : Option Json
  status : JobStatus
  runtimeGenerationId : Option Uuid
  responseRecovery : Bool
  recoveryExpiresAt : Option ℕ
  response : Option Json
  error : Option Json
  createdAt : ℕ
  dispatchedAt : Option ℕ
  finishedAt : Option ℕ
  updatedAt : ℕ

/-- The request of a job, which is kept for some time after the job has ended. -/
structure JobRequest where
  request : Json
  expiresAt : Option ℕ

/-- A webhook delivery, as it is put into the outbox. -/
structure WebhookDelivery where
  jobId : Uuid
  userId : Uuid
  eventType : String
  callbackUrl : String
  payload : Json

/-- All tables. -/
structure Database where
  users : Table Uuid User
  machines : Table Uuid Machine
  registrationTokens : Table Uuid RegistrationToken
  jobs : Table Uuid Job
  jobRequests : Table Uuid JobRequest
  webhookDeliveries : Table Uuid WebhookDelivery

/-- The database of a new installation. -/
def Database.empty : Database := ⟨∅, ∅, ∅, ∅, ∅, ∅⟩

/-- The largest number of jobs of one user that have not ended. -/
def maxPendingJobs : ℕ := 256

/-- The jobs of a user that have not ended. -/
def pendingJobs (db : Database) (user : Uuid) : List (Uuid × Job) :=
  db.jobs.select fun _ job => job.userId = user && !job.status.isFinal

/-! ### Transactions -/

/-- The outcome with which a job is settled, and what its owner had asked for at that moment. -/
structure Settlement where
  job : Uuid
  status : FinalStatus
  response : Option Json
  error : Option Json
  finishedAt : ℕ
  callbackUrl : String
  payloadVersion : ℕ

/-- What a transaction that committed leaves. -/
structure Committed (α : Type) where
  value : α
  database : Database
  settled : List Settlement

/-- The result of a transaction. One that fails leaves the database as it was. -/
abbrev Transaction (α : Type) := Except GatewayError (Committed α)

/-- A transaction that settles nothing. -/
def Transaction.commit {α : Type} (value : α) (db : Database) : Transaction α :=
  .ok ⟨value, db, []⟩

/-! ### Users and machines -/

/-- Every user has asked for a version of the payload that there is. -/
def Database.VersionsValid (db : Database) : Prop :=
  ∀ id user, db.users.lookup id = some user →
    1 ≤ user.webhookPayloadVersion ∧ user.webhookPayloadVersion ≤ 3

/-- Every machine has an owner. -/
def Database.MachinesOwned (db : Database) : Prop :=
  ∀ id machine, db.machines.lookup id = some machine → machine.userId ∈ db.users

/-- What every transaction does with users and machines: it removes no user, keeps their settings
and the owners of machines in order, and never takes the version of a credential back. -/
structure Tended (db db' : Database) : Prop where
  users : ∀ id, id ∈ db.users → id ∈ db'.users
  versions : db.VersionsValid → db'.VersionsValid
  machines : db.MachinesOwned → db'.MachinesOwned
  credentials : ∀ id machine, db.machines.lookup id = some machine →
    ∃ machine', db'.machines.lookup id = some machine' ∧
      machine.credentialVersion ≤ machine'.credentialVersion

theorem Tended.of_same {db db' : Database} (hu : db'.users = db.users)
    (hm : db'.machines = db.machines) : Tended db db' := by
  refine ⟨fun id h => hu ▸ h, fun h id user huser => h id user (hu ▸ huser),
    fun h id machine hmachine => ?_,
    fun id machine hmachine => ⟨machine, hm ▸ hmachine, le_rfl⟩⟩
  rw [hu]
  exact h id machine (hm ▸ hmachine)

theorem Tended.refl (db : Database) : Tended db db := .of_same rfl rfl

/-! ### One row of the jobs -/

/-- Whether a recovery window has closed. -/
def Job.recoveryExpired (job : Job) (now : ℕ) : Bool := job.recoveryExpiresAt.any (· ≤ now)

/-- A job is settled. -/
def Job.settle (job : Job) (now : ℕ) (status : FinalStatus) (response error : Option Json) : Job :=
  { job with
    status := .final status
    response := response
    error := error
    finishedAt := some now
    recoveryExpiresAt := none
    updatedAt := now }

/-- The request of a job is dispatched. -/
def Job.dispatch (job : Job) (now : ℕ) (generation : Uuid) (recovery : Bool) : Job :=
  { job with
    status := .dispatching
    runtimeGenerationId := some generation
    responseRecovery := recovery
    dispatchedAt := some now
    updatedAt := now }

/-- The recovery window of a job opens, unless it is open. -/
def Job.mark (job : Job) (now : ℕ) : Job :=
  { job with recoveryExpiresAt := some (job.recoveryExpiresAt.getD (now + seconds 86400)) }

/-- The host has the request of a job. -/
def Job.accept (job : Job) (now : ℕ) : Job :=
  { job with status := .waitingResponse, recoveryExpiresAt := none, updatedAt := now }

end ExecutionProvider.Gateway
