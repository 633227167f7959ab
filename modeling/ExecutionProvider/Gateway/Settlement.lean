import ExecutionProvider.Gateway.Database

/-!
# Settling a job

Every transaction that settles a job ends through one function. It changes the status only when
the job has not ended, and puts the webhook delivery for its owner into the outbox in the same
transaction.

The schema also demands that there is at most one delivery for a job. That constraint is not part
of the model: it follows from what the transactions do.

## Main definitions

* `terminalEvent`: the payload of the delivery, in the version its owner has asked for.
* `finishTx`: settling a job inside a transaction.
* `Change`: what a transaction may do to the jobs and the outbox.

## Main results

* `finishTx_cases`: what settling a job does.
* `finishTx_eq_ok`: settling a job succeeds.
* `terminalEvent_get`: what the payload of a delivery holds.
-/

namespace ExecutionProvider.Gateway

variable {π : Type} (p : Platform π)

/-! ### The payload of a delivery -/

section TerminalEvent

variable (version : ℕ) (event : Uuid) (eventType : String) (job machine : Uuid)
  (idempotencyKey : String) (runtimeGenerationId : Option Uuid) (completed : ℕ)
  (response error clientContext : Option Json)

/-- The members that the payload of every version has. -/
def commonFields : List (String × Json) :=
  [("eventId", .str event.text), ("type", .str eventType), ("jobId", .str job.text),
    ("machineId", .str machine.text), ("completedAt", .str (p.timestamp completed))]

/-- The members of the payload in one of the versions. -/
def terminalFields : Option (List (String × Json)) :=
  let common := commonFields p event eventType job machine completed
  match version with
  | 1 => some (common ++ [("response", .ofOption response), ("error", .ofOption error)])
  | 2 => some (common ++ [("schemaVersion", .num "2")])
  | 3 => some (common ++ [("schemaVersion", .num "3"), ("idempotencyKey", .str idempotencyKey),
      ("runtimeGenerationId", .ofOption (runtimeGenerationId.map fun g => .str g.text)),
      ("response", .ofOption response), ("error", .ofOption error)])
  | _ => none

/-- The context that the client has submitted with its job, for the payload. -/
def contextFields : List (String × Json) :=
  clientContext.toList.map fun context => ("clientContext", context)

/-- The payload of the delivery for a job that has ended. -/
def terminalEvent : Except GatewayError Json :=
  match terminalFields p version event eventType job machine idempotencyKey runtimeGenerationId
    completed response error with
  | some fields => .ok (.mkObj (fields ++ contextFields clientContext))
  | none => .error .internal

end TerminalEvent

/-! ### Settling a job -/

variable (now : ℕ) (event : Uuid) (db : Database) (id : Uuid) (status : FinalStatus)
  (response error : Option Json)

/-- A job is settled, unless it has ended. -/
def finishTx : Transaction Unit :=
  match db.jobs.lookup id with
  | none => .commit () db
  | some job =>
    if job.status.isFinal then .commit () db
    else
      match db.users.lookup job.userId with
      | none => .error .internal
      | some user =>
        let db' := { db with
          jobs := db.jobs.modify id fun job => job.settle now status response error
          jobRequests := db.jobRequests.modify id fun r =>
            { r with expiresAt := some (now + seconds (86400 * p.retentionDays)) } }
        let settlement : Settlement :=
          ⟨id, status, response, error, now, user.callbackUrl, user.webhookPayloadVersion⟩
        if user.callbackUrl = "" then .ok ⟨(), db', [settlement]⟩
        else
          let eventType := "job." ++ status.text
          match terminalEvent p user.webhookPayloadVersion event eventType id job.machineId
            job.idempotencyKey job.runtimeGenerationId now response error job.clientContext with
          | .error e => .error e
          | .ok payload =>
            if event ∈ db.webhookDeliveries then .error .internal
            else .ok ⟨(), { db' with
              webhookDeliveries := db.webhookDeliveries.insert event
                ⟨id, job.userId, eventType, user.callbackUrl, payload⟩ }, [settlement]⟩

/-- A transaction of its own that settles a job. -/
def finish (error : Json) : Transaction Unit := finishTx p now event db id status none (some error)

/-! ### What a transaction does to the jobs -/

/-- Two rows of a job that has not ended, or has not changed: it may have gone from dispatching to
waiting for the response, and its recovery window may have opened or closed. -/
structure Job.Progress (job job' : Job) : Prop where
  userId : job'.userId = job.userId
  machineId : job'.machineId = job.machineId
  idempotencyKey : job'.idempotencyKey = job.idempotencyKey
  requestHash : job'.requestHash = job.requestHash
  clientContext : job'.clientContext = job.clientContext
  runtimeGenerationId : job'.runtimeGenerationId = job.runtimeGenerationId
  response : job'.response = job.response
  error : job'.error = job.error
  finishedAt : job'.finishedAt = job.finishedAt
  status : job'.status = job.status ∨ job.status.isInflight = true ∧ job'.status.isInflight = true

/-- What the webhook deliveries are after a job was settled. -/
def Delivered (p : Platform π) (db db' : Database) (event : Uuid) (job : Job) (σ : Settlement) :
    Prop :=
  if σ.callbackUrl = "" then db'.webhookDeliveries = db.webhookDeliveries
  else ∃ payload, terminalEvent p σ.payloadVersion event ("job." ++ σ.status.text) σ.job
      job.machineId job.idempotencyKey job.runtimeGenerationId σ.finishedAt σ.response σ.error
      job.clientContext = .ok payload ∧
    event ∉ db.webhookDeliveries ∧
    db'.webhookDeliveries = db.webhookDeliveries.insert event
      ⟨σ.job, job.userId, "job." ++ σ.status.text, σ.callbackUrl, payload⟩

/-- A user has no job with an idempotency key. -/
def Database.Unclaimed (db : Database) (user : Uuid) (key : String) : Prop :=
  ∀ id job, db.jobs.lookup id = some job → job.userId = user → job.idempotencyKey ≠ key

/-- A job may be submitted: its owner has none with its key, and not too many that have not
ended. -/
structure Admissible (db : Database) (job : Job) : Prop where
  unclaimed : db.Unclaimed job.userId job.idempotencyKey
  capacity : (pendingJobs db job.userId).length < maxPendingJobs

/-- What a transaction may do to the jobs and the outbox: nothing, submit a job, dispatch one,
let jobs make progress, or settle one. -/
inductive Change (p : Platform π) (db db' : Database) : List Settlement → Prop
  | keep (hj : db'.jobs = db.jobs) (hd : db'.webhookDeliveries = db.webhookDeliveries) :
      Change p db db' []
  | submit {id : Uuid} {job : Job} (hid : id ∉ db.jobs) (hstatus : job.status = .queued)
      (hfinished : job.finishedAt = none) (hresponse : job.response = none)
      (herror : job.error = none) (huser : job.userId ∈ db.users)
      (hj : db'.jobs = db.jobs.insert id job)
      (hd : db'.webhookDeliveries = db.webhookDeliveries) (hadmissible : Admissible db job) :
      Change p db db' []
  | dispatch {id : Uuid} {job : Job} {now : ℕ} {generation : Uuid} {recovery : Bool}
      (hjob : db.jobs.lookup id = some job) (hstatus : job.status = .queued)
      (hj : db'.jobs = db.jobs.modify id fun job => job.dispatch now generation recovery)
      (hd : db'.webhookDeliveries = db.webhookDeliveries) : Change p db db' []
  | progress {f : Uuid → Job → Job} (hf : ∀ id (job : Job), job.Progress (f id job))
      (hj : db'.jobs = db.jobs.mapRows f)
      (hd : db'.webhookDeliveries = db.webhookDeliveries) : Change p db db' []
  | settle {event : Uuid} {job : Job} {user : User} {σ : Settlement}
      (hjob : db.jobs.lookup σ.job = some job) (hopen : job.status.isFinal = false)
      (huser : db.users.lookup job.userId = some user)
      (hcallback : σ.callbackUrl = user.callbackUrl)
      (hversion : σ.payloadVersion = user.webhookPayloadVersion)
      (hj : db'.jobs = db.jobs.modify σ.job fun job =>
        job.settle σ.finishedAt σ.status σ.response σ.error)
      (hd : Delivered p db db' event job σ) : Change p db db' [σ]

theorem Job.Progress.refl (job : Job) : job.Progress job :=
  ⟨rfl, rfl, rfl, rfl, rfl, rfl, rfl, rfl, rfl, Or.inl rfl⟩

section

variable {p now event db id status response error}

theorem terminalFields_names {version : ℕ} {eventType : String} {job machine : Uuid}
    {idempotencyKey : String} {generation : Option Uuid} {completed : ℕ}
    {fields : List (String × Json)}
    (h : terminalFields p version event eventType job machine idempotencyKey generation completed
      response error = some fields) :
    (fields.map Prod.fst).Nodup ∧ "clientContext" ∉ fields.map Prod.fst := by
  unfold terminalFields at h
  dsimp only at h
  split at h
  · obtain rfl := Option.some.inj h
    exact ⟨by simp [commonFields], by simp [commonFields]⟩
  · obtain rfl := Option.some.inj h
    exact ⟨by simp [commonFields], by simp [commonFields]⟩
  · obtain rfl := Option.some.inj h
    exact ⟨by simp [commonFields], by simp [commonFields]⟩
  · cases h

/-- The payload of a delivery says when the job ended, and its versions 1 and 3 hold the response
and the error. -/
theorem terminalEvent_get {version : ℕ} {eventType : String} {job machine : Uuid}
    {idempotencyKey : String} {generation : Option Uuid} {completed : ℕ}
    {clientContext : Option Json} {payload : Json}
    (h : terminalEvent p version event eventType job machine idempotencyKey generation completed
      response error clientContext = .ok payload) :
    payload.get "completedAt" = some (.str (p.timestamp completed)) ∧
      (version ≠ 2 → payload.get "response" = some (.ofOption response) ∧
        payload.get "error" = some (.ofOption error)) := by
  unfold terminalEvent at h
  split at h
  · next fields hf =>
    obtain rfl := Except.ok.inj h
    obtain ⟨hnodup, hnot⟩ := terminalFields_names hf
    have hnames : ((fields ++ contextFields clientContext).map Prod.fst).Nodup := by
      rw [List.map_append]
      refine hnodup.append ?_ ?_
      · cases clientContext <;> simp [contextFields]
      · cases clientContext
        · simp [contextFields]
        · simpa [contextFields] using hnot
    have hget {name : String} {value : Json} (hmem : (name, value) ∈ fields) :
        (Json.mkObj (fields ++ contextFields clientContext)).get name = some value :=
      Json.get_mkObj hnames (List.mem_append_left _ hmem)
    unfold terminalFields at hf
    dsimp only at hf
    split at hf
    · obtain rfl := Option.some.inj hf
      exact ⟨hget (by simp [commonFields]), fun _ => ⟨hget (by simp), hget (by simp)⟩⟩
    · obtain rfl := Option.some.inj hf
      exact ⟨hget (by simp [commonFields]), fun hne => absurd rfl hne⟩
    · obtain rfl := Option.some.inj hf
      exact ⟨hget (by simp [commonFields]), fun _ => ⟨hget (by simp), hget (by simp)⟩⟩
    · cases hf
  · cases h

/-- Settling a job leaves one that has ended alone, and settles one that has not. -/
theorem finishTx_cases {c : Committed Unit}
    (h : finishTx p now event db id status response error = .ok c) :
    (c.database = db ∧ c.settled = [] ∧
      ∀ job, db.jobs.lookup id = some job → job.status.isFinal = true) ∨
    ∃ job user, db.jobs.lookup id = some job ∧ job.status.isFinal = false ∧
      db.users.lookup job.userId = some user ∧
      c.settled =
        [⟨id, status, response, error, now, user.callbackUrl, user.webhookPayloadVersion⟩] ∧
      c.database.jobs = db.jobs.modify id (fun job => job.settle now status response error) ∧
      c.database.users = db.users ∧ c.database.machines = db.machines ∧
      Delivered p db c.database event job
        ⟨id, status, response, error, now, user.callbackUrl, user.webhookPayloadVersion⟩ := by
  unfold finishTx at h
  split at h
  · next hnone =>
    obtain rfl := Except.ok.inj h
    exact Or.inl ⟨rfl, rfl, fun job hjob => by rw [hnone] at hjob; cases hjob⟩
  · next job hjob =>
    split at h
    · next hfinal =>
      obtain rfl := Except.ok.inj h
      refine Or.inl ⟨rfl, rfl, fun job' hjob' => ?_⟩
      rw [hjob] at hjob'
      rwa [← Option.some.inj hjob']
    · next hfinal =>
      have hopen : job.status.isFinal = false := by simpa using hfinal
      split at h
      · cases h
      · next user huser =>
        dsimp only at h
        refine Or.inr ⟨job, user, hjob, hopen, huser, ?_⟩
        split at h
        · next hcallback =>
          obtain rfl := Except.ok.inj h
          exact ⟨rfl, rfl, rfl, rfl, by rw [Delivered, if_pos hcallback]⟩
        · next hcallback =>
          split at h
          · cases h
          · next payload hpayload =>
            split at h
            · cases h
            · next hevent =>
              obtain rfl := Except.ok.inj h
              refine ⟨rfl, rfl, rfl, rfl, ?_⟩
              rw [Delivered, if_neg hcallback]
              exact ⟨payload, hpayload, hevent, rfl⟩

theorem change_finishTx {c : Committed Unit}
    (h : finishTx p now event db id status response error = .ok c) :
    Change p db c.database c.settled := by
  rcases finishTx_cases h with ⟨hdb, hσ, -⟩ | ⟨job, user, hjob, hopen, huser, hσ, hj, -, -, hd⟩
  · rw [hdb, hσ]
    exact .keep rfl rfl
  · rw [hσ]
    exact .settle hjob hopen huser rfl rfl hj hd

theorem tended_finishTx {c : Committed Unit}
    (h : finishTx p now event db id status response error = .ok c) : Tended db c.database := by
  rcases finishTx_cases h with ⟨hdb, -⟩ | ⟨job, user, -, -, -, -, -, hu, hm, -⟩
  · exact .of_same (by rw [hdb]) (by rw [hdb])
  · exact .of_same hu hm

/-- Settling a job succeeds when its owner exists and has asked for a version that there is. -/
theorem finishTx_eq_ok {job : Job} {user : User} (hjob : db.jobs.lookup id = some job)
    (huser : db.users.lookup job.userId = some user)
    (hversion : 1 ≤ user.webhookPayloadVersion ∧ user.webhookPayloadVersion ≤ 3)
    (hevent : event ∉ db.webhookDeliveries) :
    ∃ c, finishTx p now event db id status response error = .ok c := by
  have hpayload {eventType : String} : ∃ payload, terminalEvent p user.webhookPayloadVersion event
      eventType id job.machineId job.idempotencyKey job.runtimeGenerationId now response error
      job.clientContext = .ok payload := by
    obtain ⟨hlow, hhigh⟩ := hversion
    generalize user.webhookPayloadVersion = version at hlow hhigh
    obtain rfl | rfl | rfl : version = 1 ∨ version = 2 ∨ version = 3 := by omega
    · exact ⟨_, rfl⟩
    · exact ⟨_, rfl⟩
    · exact ⟨_, rfl⟩
  obtain ⟨payload, hpayload⟩ := hpayload
  unfold finishTx
  rw [hjob]
  dsimp only
  split
  · exact ⟨_, rfl⟩
  · rw [huser]
    dsimp only
    split
    · exact ⟨_, rfl⟩
    · rw [hpayload]
      dsimp only
      exact ⟨_, rfl⟩

end

end ExecutionProvider.Gateway
