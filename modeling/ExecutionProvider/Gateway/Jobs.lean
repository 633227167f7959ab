import Mathlib.Data.List.Sort
import ExecutionProvider.Core.Text
import ExecutionProvider.Gateway.Requests
import ExecutionProvider.Gateway.Settlement

/-!
# The transactions on jobs

Everything that happens to a job happens in one of these transactions. Those that work through
many jobs read the identities first, and then take a transaction for each of them; other
transactions may come between.

## Main definitions

* `submit`: admitting a job.
* `dispatchNext`, `accepted`, `response`: dispatching a job, and what the host answers.
* `disconnected`, `reconnectRows`, `reconnectRow`: the jobs of a host whose connection is lost, and
  what becomes of them when the machine connects again.
* `markInflight`, `lostInflight`: the jobs that a restarted gateway finds.
* `timeoutRow`, `expireRow`, `deleteRequests`: maintenance.

## Main results

* `change_submit`, `change_dispatchNext`, `change_response`, ...: what each transaction does to
  the jobs.
* `before_of_nextJob`: the job that is dispatched comes before every other candidate.
* `dispatchNext_cases`, `response_cases`: what the dispatcher of a session relies on.
-/

namespace ExecutionProvider.Gateway

open Protocol

variable {π : Type} (p : Platform π) (now : ℕ) (event : Uuid) (db : Database)

/-- Rows in the order of their creation. Rows of one moment stand as they come. -/
def oldestFirst (rows : List (Uuid × Job)) : List (Uuid × Job) :=
  rows.insertionSort fun a b => a.2.createdAt ≤ b.2.createdAt

/-! ### Admission -/

/-- What a user submits. -/
structure Submission where
  machineId : Uuid
  idempotencyKey : String
  clientContext : Option (List (String × Json))
  request : Json

/-- The digest by which a submission is recognised. -/
def fingerprint (machine : Uuid) (request : Json) (clientContext : Option Json) : String :=
  p.sha256 <| p.jsonText <| .mkObj <|
    [("machineId", .str machine.text), ("request", request)] ++
      clientContext.toList.map fun context => ("clientContext", context)

/-- A job as it is submitted. -/
def newJob (user : Uuid) (input : Submission) (requestHash : String) : Job where
  userId := user
  machineId := input.machineId
  idempotencyKey := input.idempotencyKey
  requestHash := requestHash
  clientContext := input.clientContext.map .obj
  status := .queued
  runtimeGenerationId := none
  responseRecovery := false
  recoveryExpiresAt := none
  response := none
  error := none
  createdAt := now
  dispatchedAt := none
  finishedAt := none
  updatedAt := now

/-- The admission of a job that is not known, for a machine whose host is connected or not. -/
def insertJob (generation : Option Uuid) (id user : Uuid) (input : Submission) (request : Json)
    (requestHash : String) : Transaction (Uuid × JobStatus) :=
  match (db.machines.lookup input.machineId).filter fun m => m.userId = user && m.deletedAt.isNone,
      db.users.lookup user with
  | none, _ => .error .missing
  | some _, none => .error .internal
  | some machine, some owner =>
    if !owner.enabled then .error .unauthorized
    else if !machine.enabled then .error (.conflict "machine_disabled" "machine is disabled")
    else
      match generation with
      | none => .error (.conflict "machine_offline" "machine is offline")
      | some generation =>
        match wireRequest p request id generation with
        | .error e => .error e
        | .ok _ =>
          if maxPendingJobs ≤ (pendingJobs db user).length then
            .error ⟨429, "resource_limit", "user has too many outstanding jobs"⟩
          else if id ∈ db.jobs then .error .internal
          else .commit (id, .queued) { db with
            jobs := db.jobs.insert id (newJob now user input requestHash)
            jobRequests := db.jobRequests.insert id ⟨request, none⟩ }

/-- A user submits a job: the job that it has submitted under this key before, or a new one. -/
def submit (generation : Option Uuid) (id user : Uuid) (input : Submission) :
    Transaction (Uuid × JobStatus) :=
  let key := input.idempotencyKey
  if key = "" ∨ 200 < key.utf8ByteSize ∨ key.toList.any fun c => isWhitespace c || c.toNat == 0 then
    .error (.invalid "idempotencyKey must contain 1 to 200 bytes without whitespace")
  else
    match normalize p input.request with
    | .error e => .error e
    | .ok request =>
      let requestHash := fingerprint p input.machineId request (input.clientContext.map .obj)
      match (db.jobs.select fun _ job => job.userId = user && job.idempotencyKey = key).head? with
      | some (known, job) =>
        if job.requestHash = requestHash then .commit (known, job.status) db
        else .error (.conflict "idempotency_conflict"
          "idempotency key was used with different input")
      | none => insertJob p now db generation id user input request requestHash

/-! ### Dispatch -/

/-- A queued job with its request. -/
structure Candidate where
  id : Uuid
  createdAt : ℕ
  request : Json

/-- Whether the operation of a candidate terminates a run. A batch names no operation. -/
def Candidate.terminates (c : Candidate) : Option Bool :=
  match c.request.get "operation" with
  | none | some .null => none
  | some operation => some (operation.asStr == some "execution.terminate_run")

/-- Whether a candidate is dispatched when only those are that terminate a run. -/
def Candidate.control (c : Candidate) : Bool := c.terminates == some true

/-- The place of a candidate among those of other kinds. In descending order, what is not known
comes first. -/
def Candidate.rank (c : Candidate) : ℕ :=
  match c.terminates with
  | none => 0
  | some true => 1
  | some false => 2

/-- The order in which jobs are dispatched: batches first, then operations that terminate a run,
then all others; and the oldest first among those of one kind. -/
def Candidate.before (c d : Candidate) : Bool :=
  if c.rank = d.rank then
    c.createdAt < d.createdAt || (c.createdAt == d.createdAt && decide (c.id ≤ d.id))
  else c.rank < d.rank

/-- The queued jobs of a machine whose rows no other transaction has locked. -/
def candidates (machine : Uuid) (controlOnly : Bool) (locked : List Uuid) : List Candidate :=
  (db.jobs.select fun id job =>
      job.machineId = machine && job.status = .queued && !locked.contains id).filterMap
    fun row =>
      match db.jobRequests.lookup row.1 with
      | some r =>
        let c : Candidate := ⟨row.1, row.2.createdAt, r.request⟩
        if controlOnly && !c.control then none else some c
      | none => none

/-- The job that is dispatched next. -/
def nextJob (machine : Uuid) (controlOnly : Bool) (locked : List Uuid) : Option Candidate :=
  ((candidates db machine controlOnly locked).insertionSort fun c d => c.before d).head?

/-- Whether a machine and its owner are enabled, and the credential is the current one. -/
def usable (machine : Machine) (owner : User) (version : ℕ) : Bool :=
  machine.enabled && owner.enabled && machine.deletedAt.isNone &&
    machine.credentialVersion == version

/-- The next job of a machine is dispatched. A job that cannot be dispatched fails. -/
def dispatchNext (machine generation : Uuid) (version : ℕ) (recovery controlOnly : Bool)
    (locked : List Uuid) : Transaction (Option (Uuid × Request π)) :=
  match db.machines.lookup machine with
  | none => .error .internal
  | some m =>
    match db.users.lookup m.userId with
    | none => .error .internal
    | some owner =>
      match nextJob db machine controlOnly locked with
      | none => .commit none db
      | some job =>
        let request :=
          if usable m owner version then wireRequest p job.request job.id generation
          else .error (.conflict "machine_disabled" "machine or user is unavailable for dispatch")
        match request with
        | .error e =>
          match finishTx p now event db job.id .failed none (some e.value) with
          | .error e => .error e
          | .ok c => .ok ⟨none, c.database, c.settled⟩
        | .ok request =>
          .commit (some (job.id, request)) { db with
            jobs := db.jobs.modify job.id fun job => job.dispatch now generation recovery }

/-- The host has the request of a job. The message may come twice, or late. -/
def accepted (machine generation id : Uuid) : Database :=
  { db with jobs := db.jobs.modify id fun job =>
      if job.machineId = machine ∧ job.runtimeGenerationId = some generation ∧
          job.responseRecovery ∧ !job.recoveryExpired now ∧ job.status.isInflight then
        job.accept now
      else job }

/-- The status that a response gives its job. -/
def responseStatus (r : Response) : FinalStatus := if r.succeeded then .succeeded else .failed

/-- The response of a host to the request of a job. -/
def response (machine generation id : Uuid) (r : Response) : Transaction Unit :=
  match (db.jobs.lookup id).filter fun job => job.machineId = machine &&
      job.runtimeGenerationId = some generation && job.status != .queued with
  | none => .error (.invalid "response does not match a dispatched job")
  | some job =>
    if job.recoveryExpired now then
      finishTx p now event db id .unknown none (some (errorValue "recovery_unavailable"
        "response recovery window expired; work was not replayed"))
    else finishTx p now event db id (responseStatus r) (some (storedResponse r)) none

/-! ### Lost connections -/

/-- The connection of a host is lost: its jobs can be recovered for a day. -/
def disconnected (machine generation : Uuid) : Database :=
  { db with jobs := db.jobs.mapRows fun _ job =>
      if job.machineId = machine ∧ job.runtimeGenerationId = some generation ∧
          job.responseRecovery ∧ job.status.isInflight then
        { job.mark now with updatedAt := now }
      else job }

/-- A job that is under way when its machine connects. -/
structure InflightRow where
  id : Uuid
  previous : Option Uuid
  supported : Bool
  expired : Bool

/-- The jobs that are under way when their machine connects. -/
def reconnectRows (machine : Uuid) : List InflightRow :=
  ((db.jobs.select fun _ job => job.machineId = machine && job.status.isInflight).insertionSort
      fun a b => a.2.createdAt < b.2.createdAt ∨ a.2.createdAt = b.2.createdAt ∧ a.1 ≤ b.1).map
    fun row => ⟨row.1, row.2.runtimeGenerationId, row.2.responseRecovery,
      row.2.recoveryExpired now⟩

/-- Whether the host that has connected may still have the receipt for a job. -/
def InflightRow.recoverable (row : InflightRow) (generation : Uuid) (recovery : Bool) : Bool :=
  !row.expired && recovery && row.supported && row.previous == some generation

/-- A job that is under way when its machine connects is kept, or lost. -/
def reconnectRow (generation : Uuid) (recovery : Bool) (row : InflightRow) : Transaction Unit :=
  if row.recoverable generation recovery then .commit () db
  else if row.expired then
    finish p now event db row.id .unknown (errorValue "recovery_unavailable"
      "response recovery window expired; work was not replayed")
  else
    finish p now event db row.id .unknown (errorValue "runtime_replaced"
      "original runtime receipts are unavailable; work was not replayed")

/-- A job whose receipt the host no longer has. -/
def finishMissing (id : Uuid) : Transaction Unit :=
  finish p now event db id .unknown (errorValue "receipt_missing"
    "daemon no longer has the request receipt; work was not replayed")

/-- A job of a connection without recovery that is lost. -/
def finishLost (id : Uuid) : Transaction Unit :=
  finish p now event db id .unknown (errorValue "connection_lost"
    "operation response was lost; work was not replayed")

/-! ### Restart -/

/-- A starting gateway: the recovery windows of all jobs that can be recovered open. -/
def markInflight : Database :=
  { db with jobs := db.jobs.mapRows fun _ job =>
      if job.responseRecovery ∧ job.status.isInflight then job.mark now else job }

/-- The jobs under way that cannot be recovered, a hundred at a time. -/
def lostInflight : List Uuid :=
  ((oldestFirst (db.jobs.select fun _ job =>
    !job.responseRecovery && job.status.isInflight)).take 100).map Prod.fst

/-- A job that was lost with the gateway. -/
def finishRestarted (id : Uuid) : Transaction Unit :=
  finish p now event db id .unknown (errorValue "gateway_restarted"
    "gateway lost the operation response; work was not replayed")

/-! ### Maintenance -/

/-- The jobs that were not dispatched within 30 seconds, a hundred at a time. -/
def overdueJobs : List Uuid :=
  ((oldestFirst (db.jobs.select fun _ job =>
    job.status = .queued && job.createdAt + seconds 30 < now)).take 100).map Prod.fst

/-- A job that was not dispatched in time fails, if it is still queued. -/
def timeoutRow (id : Uuid) : Transaction Unit :=
  match db.jobs.lookup id with
  | none => .error .internal
  | some job =>
    if job.status = .queued then
      finishTx p now event db id .failed none (some (errorValue "dispatch_timeout"
        "job was not dispatched within 30 seconds"))
    else .commit () db

/-- Whether a job is under way whose recovery window has closed or whose machine was removed. -/
def unrecoverable (job : Job) : Bool :=
  job.status.isInflight && (job.recoveryExpired now ||
    (db.machines.lookup job.machineId).any fun m => m.deletedAt.isSome)

/-- The jobs that can no longer be recovered, a hundred at a time. -/
def expiredJobs : List Uuid :=
  ((oldestFirst (db.jobs.select fun _ job =>
    (db.machines.lookup job.machineId).isSome && unrecoverable now db job)).take 100).map Prod.fst

/-- A job that can no longer be recovered is lost. -/
def expireRow (id : Uuid) : Transaction Unit :=
  match db.jobs.lookup id with
  | none => .error .internal
  | some job =>
    if (db.machines.lookup job.machineId).isNone then .error .internal
    else if unrecoverable now db job then
      finishTx p now event db id .unknown none (some (errorValue "recovery_unavailable"
        ("machine was removed or its 24-hour response recovery window expired; " ++
          "work was not replayed")))
    else .commit () db

/-- The requests of jobs that have ended are deleted when their time has come, a hundred at a
time. -/
def deleteRequests : Database :=
  let expired := db.jobRequests.select fun id r =>
    r.expiresAt.any (· ≤ now) && (db.jobs.lookup id).any fun job => job.status.isFinal
  { db with jobRequests := db.jobRequests.eraseAll ((expired.take 100).map Prod.fst) }

/-! ### What the transactions do -/

section

variable {p now event db}

theorem settled_of_finishTx {id : Uuid} {status : FinalStatus} {resp error : Option Json}
    {c : Committed Unit} {σ : Settlement}
    (h : finishTx p now event db id status resp error = .ok c) (hσ : σ ∈ c.settled) :
    σ.job = id ∧ σ.status = status ∧ σ.response = resp ∧ σ.error = error := by
  rcases finishTx_cases h with ⟨-, hs, -⟩ | ⟨job, user, -, -, -, hs, -⟩
  · rw [hs] at hσ
    cases hσ
  · rw [hs, List.mem_singleton] at hσ
    subst hσ
    exact ⟨rfl, rfl, rfl, rfl⟩

theorem unclaimed_of_head? {user : Uuid} {key : String}
    (h : (db.jobs.select fun _ job => job.userId = user && job.idempotencyKey = key).head? =
      none) : db.Unclaimed user key := by
  intro id job hjob huser hkey
  have hmem : (id, job) ∈ db.jobs.select fun _ job =>
      job.userId = user && job.idempotencyKey = key :=
    Table.mem_select_iff.mpr ⟨hjob, by simp [huser, hkey]⟩
  rw [List.head?_eq_none_iff.mp h] at hmem
  cases hmem

theorem change_insertJob {generation : Option Uuid} {id user : Uuid} {input : Submission}
    {request : Json} {requestHash : String} {c : Committed (Uuid × JobStatus)}
    (hkey : db.Unclaimed user input.idempotencyKey)
    (h : insertJob p now db generation id user input request requestHash = .ok c) :
    c.settled = [] ∧ Change p db c.database [] ∧ Tended db c.database := by
  unfold insertJob at h
  split at h
  · cases h
  · cases h
  · next machine owner hmachine howner =>
    split at h
    · cases h
    split at h
    · cases h
    split at h
    · cases h
    split at h
    · cases h
    split at h
    · cases h
    next hcapacity =>
    split at h
    · cases h
    · next hid =>
      obtain rfl := Except.ok.inj h
      exact ⟨rfl, .submit hid rfl rfl rfl rfl (Table.mem_of_lookup howner) rfl rfl
        ⟨hkey, Nat.lt_of_not_le hcapacity⟩, .of_same rfl rfl⟩

theorem change_submit {generation : Option Uuid} {id user : Uuid} {input : Submission}
    {c : Committed (Uuid × JobStatus)} (h : submit p now db generation id user input = .ok c) :
    c.settled = [] ∧ Change p db c.database [] ∧ Tended db c.database := by
  unfold submit at h
  dsimp only at h
  split at h
  · cases h
  · split at h
    · cases h
    · split at h
      · split at h
        · obtain rfl := Except.ok.inj h
          exact ⟨rfl, .keep rfl rfl, .refl db⟩
        · cases h
      · next hnone => exact change_insertJob (unclaimed_of_head? hnone) h

/-- A job that is dispatched next is queued, and belongs to the machine. -/
theorem lookup_of_nextJob {machine : Uuid} {controlOnly : Bool} {locked : List Uuid}
    {c : Candidate} (h : nextJob db machine controlOnly locked = some c) :
    ∃ job, db.jobs.lookup c.id = some job ∧ job.status = .queued ∧ job.machineId = machine := by
  have hmem : c ∈ candidates db machine controlOnly locked :=
    (List.mem_insertionSort _).mp (List.mem_of_head? h)
  obtain ⟨⟨id, job⟩, hrow, hc⟩ := List.mem_filterMap.mp hmem
  obtain ⟨hjob, hcond⟩ := Table.mem_select_iff.mp hrow
  simp only [Bool.and_eq_true, decide_eq_true_eq] at hcond
  have hid : c.id = id := by
    dsimp only at hc
    split at hc
    · split at hc
      · cases hc
      · rw [← Option.some.inj hc]
    · cases hc
  exact ⟨job, hid ▸ hjob, hcond.1.2, hcond.1.1⟩

/-- The order of candidates is that of their kinds, ages and identifiers. -/
theorem Candidate.before_iff {c d : Candidate} : c.before d = true ↔
    c.rank < d.rank ∨ c.rank = d.rank ∧
      (c.createdAt < d.createdAt ∨ c.createdAt = d.createdAt ∧ c.id.text ≤ d.id.text) := by
  rw [Candidate.before]
  split_ifs with hrank
  · rw [Bool.or_eq_true, Bool.and_eq_true, decide_eq_true_eq, beq_iff_eq, decide_eq_true_eq]
    refine ⟨fun h => .inr ⟨hrank, h⟩, fun h => ?_⟩
    rcases h with h | ⟨_, h⟩
    · omega
    · exact h
  · rw [decide_eq_true_eq]
    refine ⟨.inl, fun h => ?_⟩
    rcases h with h | ⟨h, _⟩
    · exact h
    · exact absurd h hrank

instance : Std.Total fun c d : Candidate => c.before d = true where
  total c d := by
    rw [Candidate.before_iff, Candidate.before_iff]
    rcases le_total c.id.text d.id.text with h | h
    · grind
    · grind

instance : IsTrans Candidate fun c d => c.before d = true where
  trans c d e hcd hde := by
    rw [Candidate.before_iff] at hcd hde ⊢
    rcases hcd with hcd | ⟨hcd, hcd' | ⟨hcd', hcd''⟩⟩ <;>
      rcases hde with hde | ⟨hde, hde' | ⟨hde', hde''⟩⟩
    · omega
    · omega
    · omega
    · omega
    · omega
    · omega
    · omega
    · omega
    · exact .inr ⟨hcd.trans hde, .inr ⟨hcd'.trans hde', hcd''.trans hde''⟩⟩

/-- The job that is dispatched next comes before all others. -/
theorem before_of_nextJob {machine : Uuid} {controlOnly : Bool} {locked : List Uuid}
    {c d : Candidate} (h : nextJob db machine controlOnly locked = some c)
    (hd : d ∈ candidates db machine controlOnly locked) : d = c ∨ c.before d = true := by
  have hsorted := List.pairwise_insertionSort (fun c d : Candidate => c.before d = true)
    (candidates db machine controlOnly locked)
  have hmem := (List.mem_insertionSort fun c d : Candidate => c.before d = true).mpr hd
  obtain ⟨rest, hrest⟩ := List.head?_eq_some_iff.mp h
  rw [hrest] at hsorted hmem
  rcases List.mem_cons.mp hmem with heq | hmem
  · exact .inl heq
  · exact .inr (List.rel_of_pairwise_cons hsorted hmem)

/-- Dispatching finds nothing, fails a job that is queued, or dispatches one. -/
theorem dispatchNext_cases {machine generation : Uuid} {version : ℕ} {recovery controlOnly : Bool}
    {locked : List Uuid} {c : Committed (Option (Uuid × Request π))}
    (h : dispatchNext p now event db machine generation version recovery controlOnly locked =
      .ok c) :
    c = ⟨none, db, []⟩ ∨
    (∃ (id : Uuid) (job : Job) (e : GatewayError) (c' : Committed Unit),
      db.jobs.lookup id = some job ∧ job.status = .queued ∧ e.code ≠ "receipt_missing" ∧
      finishTx p now event db id .failed none (some e.value) = .ok c' ∧
      c = ⟨none, c'.database, c'.settled⟩) ∨
    ∃ id job request, db.jobs.lookup id = some job ∧ job.status = .queued ∧
      job.machineId = machine ∧ request.requestId = id.text ∧ c = ⟨some (id, request), { db with
        jobs := db.jobs.modify id fun job => job.dispatch now generation recovery }, []⟩ := by
  unfold dispatchNext at h
  split at h
  · cases h
  · split at h
    · cases h
    · split at h
      · obtain rfl := Except.ok.inj h
        exact Or.inl rfl
      · next next hnext =>
        obtain ⟨job, hjob, hqueued, hmachine⟩ := lookup_of_nextJob hnext
        dsimp only at h
        split at h
        · next e he =>
          split at h
          · cases h
          · next c' hfinish =>
            obtain rfl := Except.ok.inj h
            refine Or.inr (Or.inl ⟨next.id, job, e, c', hjob, hqueued, ?_, hfinish, rfl⟩)
            split_ifs at he
            · rintro hcode
              have hmem := code_of_wireRequest he
              rw [hcode] at hmem
              simp at hmem
            · rw [← Except.error.inj he]
              simp [GatewayError.conflict]
        · next request hrequest =>
          obtain rfl := Except.ok.inj h
          refine Or.inr (Or.inr ⟨next.id, job, request, hjob, hqueued, hmachine, ?_, rfl⟩)
          split_ifs at hrequest
          exact requestId_wireRequest hrequest

theorem change_dispatchNext {machine generation : Uuid} {version : ℕ}
    {recovery controlOnly : Bool} {locked : List Uuid}
    {c : Committed (Option (Uuid × Request π))}
    (h : dispatchNext p now event db machine generation version recovery controlOnly locked =
      .ok c) : Change p db c.database c.settled := by
  rcases dispatchNext_cases h with rfl | ⟨id, job, e, c', -, -, -, hfinish, rfl⟩ |
    ⟨id, job, request, hjob, hqueued, -, -, rfl⟩
  · exact .keep rfl rfl
  · exact change_finishTx hfinish
  · exact .dispatch hjob hqueued rfl rfl

private theorem change_mapRows {f : Uuid → Job → Job}
    (hf : ∀ id (job : Job), job.Progress (f id job)) :
    Change p db { db with jobs := db.jobs.mapRows f } [] :=
  .progress hf rfl rfl

theorem change_accepted (machine generation id : Uuid) :
    Change p db (accepted now db machine generation id) [] := by
  unfold accepted Table.modify
  refine change_mapRows fun k job => ?_
  dsimp only
  split_ifs with _ hcond
  · exact ⟨rfl, rfl, rfl, rfl, rfl, rfl, rfl, rfl, rfl, Or.inr ⟨hcond.2.2.2.2, rfl⟩⟩
  · exact .refl job
  · exact .refl job

/-- A response leaves its job with an outcome: it has ended before, it is lost because the
recovery window has closed, or it ends with this response. -/
theorem response_cases {machine generation id : Uuid} {r : Response} {c : Committed Unit}
    (h : response p now event db machine generation id r = .ok c) :
    ∃ job, db.jobs.lookup id = some job ∧ job.machineId = machine ∧
      job.runtimeGenerationId = some generation ∧ job.status ≠ .queued ∧
      (job.recoveryExpired now = true ∧ finishTx p now event db id .unknown none
          (some (errorValue "recovery_unavailable"
            "response recovery window expired; work was not replayed")) = .ok c ∨
        job.recoveryExpired now = false ∧ finishTx p now event db id (responseStatus r)
          (some (storedResponse r)) none = .ok c) := by
  unfold response at h
  split at h
  · cases h
  · next job hjob =>
    obtain ⟨hjob, hcond⟩ := Option.filter_eq_some_iff.mp hjob
    simp only [Bool.and_eq_true, decide_eq_true_eq, bne_iff_ne, ne_eq] at hcond
    obtain ⟨⟨hmachine, hgeneration⟩, hstatus⟩ := hcond
    refine ⟨job, hjob, hmachine, hgeneration, hstatus, ?_⟩
    split_ifs at h with hexpired
    · exact Or.inl ⟨hexpired, h⟩
    · exact Or.inr ⟨by simpa using hexpired, h⟩

theorem change_response {machine generation id : Uuid} {r : Response} {c : Committed Unit}
    (h : response p now event db machine generation id r = .ok c) :
    Change p db c.database c.settled := by
  obtain ⟨job, -, -, -, -, ⟨-, h⟩ | ⟨-, h⟩⟩ := response_cases h
  · exact change_finishTx h
  · exact change_finishTx h

theorem change_disconnected (machine generation : Uuid) :
    Change p db (disconnected now db machine generation) [] := by
  unfold disconnected
  refine change_mapRows fun k job => ?_
  split_ifs
  · exact ⟨rfl, rfl, rfl, rfl, rfl, rfl, rfl, rfl, rfl, Or.inl rfl⟩
  · exact .refl job

theorem change_markInflight : Change p db (markInflight now db) [] := by
  unfold markInflight
  refine change_mapRows fun k job => ?_
  split_ifs
  · exact ⟨rfl, rfl, rfl, rfl, rfl, rfl, rfl, rfl, rfl, Or.inl rfl⟩
  · exact .refl job

/-- The jobs that are found when a machine connects are under way. -/
theorem lookup_of_reconnectRows {machine : Uuid} {row : InflightRow}
    (h : row ∈ reconnectRows now db machine) :
    ∃ job, db.jobs.lookup row.id = some job ∧ job.status.isInflight = true ∧
      job.machineId = machine ∧ job.runtimeGenerationId = row.previous := by
  obtain ⟨⟨id, job⟩, hrow, rfl⟩ := List.mem_map.mp h
  obtain ⟨hjob, hcond⟩ := Table.mem_select_iff.mp ((List.mem_insertionSort _).mp hrow)
  simp only [Bool.and_eq_true, decide_eq_true_eq] at hcond
  exact ⟨job, hjob, hcond.2, hcond.1, rfl⟩

/-- A job that is under way when its machine connects is kept, or ends because it cannot be
recovered. That its receipt is missing is found out later. -/
theorem reconnectRow_cases {generation : Uuid} {recovery : Bool} {row : InflightRow}
    {c : Committed Unit} (h : reconnectRow p now event db generation recovery row = .ok c) :
    c = ⟨(), db, []⟩ ∨ ∃ code message, code ≠ "receipt_missing" ∧
      finish p now event db row.id .unknown (errorValue code message) = .ok c := by
  unfold reconnectRow at h
  split_ifs at h
  · exact Or.inl (Except.ok.inj h).symm
  · exact Or.inr ⟨_, _, by decide, h⟩
  · exact Or.inr ⟨_, _, by decide, h⟩

/-- A job fails for a timeout only while it is queued. -/
theorem timeoutRow_cases {id : Uuid} {c : Committed Unit}
    (h : timeoutRow p now event db id = .ok c) :
    c = ⟨(), db, []⟩ ∨ ∃ job, db.jobs.lookup id = some job ∧ job.status = .queued ∧
      finishTx p now event db id .failed none (some (errorValue "dispatch_timeout"
        "job was not dispatched within 30 seconds")) = .ok c := by
  unfold timeoutRow at h
  split at h
  · cases h
  · next job hjob =>
    split_ifs at h with hqueued
    · exact Or.inr ⟨job, hjob, hqueued, h⟩
    · exact Or.inl (Except.ok.inj h).symm

theorem expireRow_cases {id : Uuid} {c : Committed Unit}
    (h : expireRow p now event db id = .ok c) :
    c = ⟨(), db, []⟩ ∨ ∃ message,
      finish p now event db id .unknown (errorValue "recovery_unavailable" message) = .ok c := by
  unfold expireRow at h
  split at h
  · cases h
  · split_ifs at h
    · exact Or.inr ⟨_, h⟩
    · exact Or.inl (Except.ok.inj h).symm

end

end ExecutionProvider.Gateway
