import ExecutionProvider.Gateway.Validity

/-!
# The requests of jobs

The request of a job is stored with it when it is submitted, and the digest of the submission in its
row. The request is there until the job has ended and the time of retention has passed, and all that
is ever sent to a host for this job was made of it.

## Main definitions

* `Job.Asks`: whether a request is the one with which a job was submitted.
* `Holding`, `Keeping`: what a transaction does to a job and its request.
* `Retained`: what is stored of the request of a job.
* `Issued`: requests that were made of what was submitted.

## Main results

* `keeping_of_turn`, `keeping_of_step`: what every step does to jobs and their requests.
* `request_retained`: how long requests are stored.
* `sent_as_submitted`: what is sent to hosts.
-/

namespace ExecutionProvider.Gateway

open Protocol

variable {π : Type} {p : Platform π} {now now' : ℕ} {event id : Uuid} {db db' : Database}

/-! ### A job and its request -/

/-- How long the request of a job is stored after the job has ended. -/
def Platform.retention (p : Platform π) : ℕ := seconds (86400 * p.retentionDays)

/-- A request whose job has ended is deleted some time later. -/
def JobRequest.expire (t : ℕ) (r : JobRequest) : JobRequest := { r with expiresAt := some t }

/-- The request with which a job was submitted, by its digest. -/
def Job.Asks (p : Platform π) (job : Job) (request : Json) : Prop :=
  job.requestHash = fingerprint p job.machineId request job.clientContext

/-- Two rows of a job that was not settled in between. -/
structure Job.Same (job job' : Job) : Prop where
  machineId : job'.machineId = job.machineId
  requestHash : job'.requestHash = job.requestHash
  clientContext : job'.clientContext = job.clientContext
  finishedAt : job'.finishedAt = job.finishedAt
  isFinal : job'.status.isFinal = job.status.isFinal

theorem Job.Same.refl (job : Job) : job.Same job := ⟨rfl, rfl, rfl, rfl, rfl⟩

/-- What becomes of a job and its request: both stay, the job goes on, it is settled, it is
submitted, or its request is deleted in time. -/
inductive Holding (p : Platform π) (now : ℕ) :
    Option Job → Option JobRequest → Option Job → Option JobRequest → Prop
  | keep (job : Option Job) (r : Option JobRequest) : Holding p now job r job r
  | change {job job' : Job} (r : Option JobRequest) (h : job.Same job') :
      Holding p now (some job) r (some job') r
  | settle {job : Job} {status : FinalStatus} {response error : Option Json}
      (r : Option JobRequest) (h : job.status.isFinal = false) :
      Holding p now (some job) r (some (job.settle now status response error))
        (r.map (JobRequest.expire (now + p.retention)))
  | submit {job : Job} {request : Json} (r : Option JobRequest) (h : job.status.isFinal = false)
      (hasks : job.Asks p request) : Holding p now none r (some job) (some ⟨request, none⟩)
  | delete {job : Job} {r : JobRequest} {t : ℕ} (h : job.status.isFinal = true)
      (ht : r.expiresAt = some t) (hnow : t ≤ now) :
      Holding p now (some job) (some r) (some job) none

/-- What a transaction does to the jobs and their requests. -/
def Keeping (p : Platform π) (now : ℕ) (db db' : Database) : Prop :=
  ∀ id, Holding p now (db.jobs.lookup id) (db.jobRequests.lookup id) (db'.jobs.lookup id)
    (db'.jobRequests.lookup id)

/-- What is stored of the request of a job: all of it while the job has not ended, and until some
time after. -/
def Retained (p : Platform π) (now : ℕ) : Option Job → Option JobRequest → Prop
  | none, r => r = none
  | some job, r =>
    if job.status.isFinal then ∃ t, job.finishedAt = some t ∧
      ((∃ request, r = some ⟨request, some (t + p.retention)⟩ ∧ job.Asks p request) ∨
        r = none ∧ t + p.retention ≤ now)
    else ∃ request, r = some ⟨request, none⟩ ∧ job.Asks p request

/-- A request that was made of the one with which a job was submitted. -/
def Issued (p : Platform π) (db : Database) (generation id : Uuid) (request : Request π) : Prop :=
  ∃ job stored, db.jobs.lookup id = some job ∧ job.Asks p stored ∧
    wireRequest p stored id generation = .ok request

section

variable {job job' : Option Job} {r r' : Option JobRequest}

theorem Job.Same.asks {job job' : Job} {request : Json} (h : job.Same job')
    (hasks : job.Asks p request) : job'.Asks p request := by
  rw [Job.Asks, h.machineId, h.requestHash, h.clientContext]
  exact hasks

theorem Retained.tick (h : Retained p now job r) (hle : now ≤ now') : Retained p now' job r := by
  cases job with
  | none => exact h
  | some job =>
    rw [Retained] at h ⊢
    split_ifs at h ⊢
    · obtain ⟨t, ht, hkept | ⟨hgone, htime⟩⟩ := h
      · exact ⟨t, ht, Or.inl hkept⟩
      · exact ⟨t, ht, Or.inr ⟨hgone, htime.trans hle⟩⟩
    · exact h

/-- What a transaction leaves of the request of a job. -/
theorem Retained.holding (h : Retained p now job r) (hstep : Holding p now job r job' r') :
    Retained p now job' r' := by
  cases hstep with
  | keep => exact h
  | @change job job' r hsame =>
    rw [Retained] at h ⊢
    rw [hsame.isFinal, hsame.finishedAt]
    split_ifs at h ⊢
    · obtain ⟨t, ht, ⟨request, hr, hasks⟩ | hgone⟩ := h
      · exact ⟨t, ht, Or.inl ⟨request, hr, hsame.asks hasks⟩⟩
      · exact ⟨t, ht, Or.inr hgone⟩
    · obtain ⟨request, hr, hasks⟩ := h
      exact ⟨request, hr, hsame.asks hasks⟩
  | settle r hopen =>
    rw [Retained, hopen, if_neg Bool.false_ne_true] at h
    obtain ⟨request, rfl, hasks⟩ := h
    exact ⟨now, rfl, Or.inl ⟨request, rfl, hasks⟩⟩
  | @submit job request r hopen hasks =>
    rw [Retained, hopen, if_neg Bool.false_ne_true]
    exact ⟨request, rfl, hasks⟩
  | @delete job r t hfinal ht hnow =>
    rw [Retained, hfinal, if_pos rfl] at h ⊢
    obtain ⟨t', ht', ⟨request, hr, -⟩ | ⟨hgone, -⟩⟩ := h
    · obtain rfl := Option.some.inj hr
      obtain rfl := Option.some.inj ht
      exact ⟨t', ht', Or.inr ⟨rfl, hnow⟩⟩
    · cases hgone

/-- A job asks for what it was submitted with. -/
theorem Holding.asks {job : Job} (h : Holding p now (some job) r job' r') :
    ∃ job'', job' = some job'' ∧ ∀ request, job.Asks p request → job''.Asks p request := by
  cases h with
  | keep => exact ⟨job, rfl, fun _ hasks => hasks⟩
  | change r hsame => exact ⟨_, rfl, fun _ hasks => hsame.asks hasks⟩
  | settle r hopen => exact ⟨_, rfl, fun _ hasks => hasks⟩
  | delete => exact ⟨job, rfl, fun _ hasks => hasks⟩

theorem Issued.keeping {generation : Uuid} {request : Request π}
    (h : Issued p db generation id request) (hkeeping : Keeping p now db db') :
    Issued p db' generation id request := by
  obtain ⟨job, stored, hjob, hasks, hwire⟩ := h
  have hstep := hkeeping id
  rw [hjob] at hstep
  obtain ⟨job', hjob', hkept⟩ := hstep.asks
  exact ⟨job', stored, hjob', hkept stored hasks, hwire⟩

end

/-! ### Transactions -/

namespace Keeping

theorem refl (db : Database) : Keeping p now db db := fun _ => .keep _ _

/-- A transaction that has nothing to do with jobs or their requests. -/
theorem of_same (hj : db'.jobs = db.jobs) (hr : db'.jobRequests = db.jobRequests) :
    Keeping p now db db' := by
  intro id
  rw [hj, hr]
  exact .keep _ _

/-- Rows of jobs that change one by one. -/
theorem of_mapRows {f : Uuid → Job → Job}
    (hf : ∀ id job, db.jobs.lookup id = some job → job.Same (f id job)) :
    Keeping p now db { db with jobs := db.jobs.mapRows f } := by
  intro id
  rw [Table.lookup_mapRows]
  cases hjob : db.jobs.lookup id with
  | none => exact .keep _ _
  | some job => exact .change _ (hf id job hjob)

theorem of_modify {f : Job → Job} (hf : ∀ job, db.jobs.lookup id = some job → job.Same (f job)) :
    Keeping p now db { db with jobs := db.jobs.modify id f } := by
  refine of_mapRows (f := fun k job => if k = id then f job else job) fun k job hjob => ?_
  split_ifs with hk
  · exact hf job (hk ▸ hjob)
  · exact .refl job

theorem finishTx {status : FinalStatus} {response error : Option Json} {c : Committed Unit}
    (h : finishTx p now event db id status response error = .ok c) :
    Keeping p now db c.database := by
  have hsettle {job : Job} (hjob : db.jobs.lookup id = some job)
      (hopen : job.status.isFinal = false) {db' : Database}
      (hj : db'.jobs = db.jobs.modify id fun job => job.settle now status response error)
      (hr : db'.jobRequests =
        db.jobRequests.modify id (JobRequest.expire (now + p.retention))) :
      Keeping p now db db' := by
    intro k
    rw [hj, hr]
    rcases eq_or_ne k id with rfl | hne
    · rw [Table.lookup_modify, Table.lookup_modify, hjob]
      exact .settle _ hopen
    · rw [Table.lookup_modify_of_ne hne, Table.lookup_modify_of_ne hne]
      exact .keep _ _
  unfold Gateway.finishTx at h
  split at h
  · obtain rfl := Except.ok.inj h
    exact refl db
  · next job hjob =>
    split at h
    · obtain rfl := Except.ok.inj h
      exact refl db
    · next hfinal =>
      have hopen : job.status.isFinal = false := by simpa using hfinal
      split at h
      · cases h
      · dsimp only at h
        split at h
        · obtain rfl := Except.ok.inj h
          exact hsettle hjob hopen rfl rfl
        · split at h
          · cases h
          · split at h
            · cases h
            · obtain rfl := Except.ok.inj h
              exact hsettle hjob hopen rfl rfl

theorem insertJob {generation : Option Uuid} {user : Uuid} {input : Submission} {request : Json}
    {c : Committed (Uuid × JobStatus)}
    (h : insertJob p now db generation id user input request
      (fingerprint p input.machineId request (input.clientContext.map .obj)) = .ok c) :
    Keeping p now db c.database := by
  unfold Gateway.insertJob at h
  split at h
  · cases h
  · cases h
  · split at h
    · cases h
    split at h
    · cases h
    split at h
    · cases h
    split at h
    · cases h
    split at h
    · cases h
    split at h
    · cases h
    next hid =>
    obtain rfl := Except.ok.inj h
    intro k
    rcases eq_or_ne k id with rfl | hne
    · rw [AList.lookup_insert, AList.lookup_insert, AList.lookup_eq_none.mpr hid]
      exact .submit _ rfl rfl
    · rw [AList.lookup_insert_ne hne, AList.lookup_insert_ne hne]
      exact .keep _ _

theorem submit {generation : Option Uuid} {user : Uuid} {input : Submission}
    {c : Committed (Uuid × JobStatus)} (h : submit p now db generation id user input = .ok c) :
    Keeping p now db c.database := by
  unfold Gateway.submit at h
  dsimp only at h
  split_ifs at h
  split at h
  · cases h
  · split at h
    · split_ifs at h
      obtain rfl := Except.ok.inj h
      exact refl db
    · exact insertJob h

theorem dispatchNext {machine generation : Uuid} {version : ℕ} {recovery controlOnly : Bool}
    {locked : List Uuid} {c : Committed (Option (Uuid × Request π))}
    (h : dispatchNext p now event db machine generation version recovery controlOnly locked =
      .ok c) : Keeping p now db c.database := by
  rcases dispatchNext_cases h with rfl | ⟨k, job, e, c', -, -, -, hfinish, rfl⟩ |
    ⟨k, job, request, hjob, hqueued, -, -, rfl⟩
  · exact refl db
  · exact finishTx hfinish
  · refine of_modify fun job' hjob' => ?_
    obtain rfl : job = job' := Option.some.inj (hjob.symm.trans hjob')
    exact ⟨rfl, rfl, rfl, rfl, by rw [hqueued]; rfl⟩

theorem accepted (machine generation : Uuid) :
    Keeping p now db (accepted now db machine generation id) := by
  unfold Gateway.accepted
  refine of_modify fun job _ => ?_
  split_ifs with hcond
  · exact ⟨rfl, rfl, rfl, rfl, (JobStatus.isFinal_of_isInflight hcond.2.2.2.2).symm⟩
  · exact .refl job

theorem response {machine generation : Uuid} {r : Response} {c : Committed Unit}
    (h : response p now event db machine generation id r = .ok c) :
    Keeping p now db c.database := by
  obtain ⟨job, -, -, -, -, ⟨-, h⟩ | ⟨-, h⟩⟩ := response_cases h
  · exact finishTx h
  · exact finishTx h

theorem disconnected (machine generation : Uuid) :
    Keeping p now db (disconnected now db machine generation) := by
  refine of_mapRows fun k job _ => ?_
  split_ifs
  · exact ⟨rfl, rfl, rfl, rfl, rfl⟩
  · exact .refl job

theorem reconnectRow {generation : Uuid} {recovery : Bool} {row : InflightRow}
    {c : Committed Unit} (h : reconnectRow p now event db generation recovery row = .ok c) :
    Keeping p now db c.database := by
  rcases reconnectRow_cases h with rfl | ⟨code, message, -, hfinish⟩
  · exact refl db
  · exact finishTx hfinish

theorem markInflight : Keeping p now db (markInflight now db) := by
  refine of_mapRows fun k job _ => ?_
  split_ifs
  · exact ⟨rfl, rfl, rfl, rfl, rfl⟩
  · exact .refl job

theorem timeoutRow {c : Committed Unit} (h : timeoutRow p now event db id = .ok c) :
    Keeping p now db c.database := by
  rcases timeoutRow_cases h with rfl | ⟨job, -, -, hfinish⟩
  · exact refl db
  · exact finishTx hfinish

theorem expireRow {c : Committed Unit} (h : expireRow p now event db id = .ok c) :
    Keeping p now db c.database := by
  rcases expireRow_cases h with rfl | ⟨message, hfinish⟩
  · exact refl db
  · exact finishTx hfinish

/-- Only requests are deleted whose jobs have ended and whose time has come. -/
theorem deleteRequests : Keeping p now db (deleteRequests now db) := by
  intro id
  rw [Gateway.deleteRequests]
  dsimp only
  rw [Table.lookup_eraseAll]
  split_ifs with hmem
  · obtain ⟨⟨k, r⟩, hr, rfl⟩ := List.mem_map.mp (List.mem_of_mem_take (List.map_take ▸ hmem))
    obtain ⟨hrow, hcond⟩ := Table.mem_select_iff.mp hr
    obtain ⟨htime, hfinal⟩ := Bool.and_eq_true_iff.mp hcond
    obtain ⟨t, ht, hnow⟩ := (Option.any_eq_true _ _).mp htime
    obtain ⟨job, hjob, hfinal⟩ := (Option.any_eq_true _ _).mp hfinal
    rw [hrow, hjob]
    exact .delete hfinal ht (of_decide_eq_true hnow)
  · exact .keep _ _

end Keeping

/-! ### Steps of a session -/

/-- A job is dispatched with the request that is stored. -/
theorem request_of_nextJob {machine : Uuid} {controlOnly : Bool} {locked : List Uuid}
    {c : Candidate} (h : nextJob db machine controlOnly locked = some c) :
    ∃ r, db.jobRequests.lookup c.id = some r ∧ c.request = r.request := by
  have hmem : c ∈ candidates db machine controlOnly locked :=
    (List.mem_insertionSort _).mp (List.mem_of_head? h)
  obtain ⟨⟨id, job⟩, -, hc⟩ := List.mem_filterMap.mp hmem
  dsimp only at hc
  split at hc
  · next r hr =>
    split at hc
    · cases hc
    · obtain rfl := Option.some.inj hc
      exact ⟨r, hr, rfl⟩
  · cases hc

/-- The next job is dispatched with a request that was made of what is stored. -/
theorem issued_of_dispatchNext {machine generation : Uuid} {version : ℕ}
    {recovery controlOnly : Bool} {locked : List Uuid} {c : Committed (Option (Uuid × Request π))}
    {request : Request π}
    (hrows : ∀ id, Retained p now (db.jobs.lookup id) (db.jobRequests.lookup id))
    (h : dispatchNext p now event db machine generation version recovery controlOnly locked =
      .ok c) (hc : c.value = some (id, request)) : Issued p c.database generation id request := by
  have hkeeping := Keeping.dispatchNext h
  refine Issued.keeping ?_ hkeeping
  unfold dispatchNext at h
  split at h
  · cases h
  · split at h
    · cases h
    · split at h
      · obtain rfl := Except.ok.inj h
        cases hc
      · next next hnext =>
        obtain ⟨job, hjob, hqueued, -⟩ := lookup_of_nextJob hnext
        dsimp only at h
        split at h
        · split at h
          · cases h
          · obtain rfl := Except.ok.inj h
            cases hc
        · next request' hrequest =>
          obtain rfl := Except.ok.inj h
          obtain ⟨rfl, rfl⟩ := Prod.mk.inj (Option.some.inj hc)
          split_ifs at hrequest
          have hrow := hrows next.id
          rw [hjob, Retained, hqueued] at hrow
          obtain ⟨stored, hstored, hasks⟩ := hrow
          obtain ⟨r, hr, hsame⟩ := request_of_nextJob hnext
          obtain rfl := Option.some.inj (hr.symm.trans hstored)
          rw [hsame] at hrequest
          exact ⟨job, stored, hjob, hasks, hrequest⟩

/-- What a step of a session does to the jobs, their requests, and the request that is about to be
sent. -/
structure Turned (p : Platform π) (now : ℕ) (db : Database) (s : Session π) (t : Turn π) :
    Prop where
  keeping : Keeping p now db t.database
  generation : t.session.generation = s.generation
  sending : ∀ id request, t.session.sending = some (id, request) →
    s.sending = some (id, request) ∨ Issued p t.database s.generation id request

namespace Turned

variable {s : Session π} {machine : Uuid}

/-- A step after which nothing is about to be sent. -/
theorem done {t : Turn π} (hk : Keeping p now db t.database)
    (hg : t.session.generation = s.generation) (hs : t.session.sending = none) :
    Turned p now db s t :=
  ⟨hk, hg, fun id request h => by cases hs.symm.trans h⟩

/-- A session that goes on after a transaction. -/
theorem commit {α : Type} {s' : Session π} {t : Transaction α} {next : α → Session π}
    (hg : s'.generation = s.generation)
    (h : ∀ c, t = .ok c → Turned p now db s ⟨c.database, next c.value, settledEvents c.settled⟩) :
    Turned p now db s (s'.commit db t next) := by
  unfold Session.commit
  split
  · exact done (.refl db) hg rfl
  · next c => exact h c rfl

theorem send {full : Bool} {s' : Session π} {frame : GatewayMessage π} {next : Phase π}
    (hg : s'.generation = s.generation) (hnext : (s'.go next).sending = none) :
    Turned p now db s (s'.send full db frame next) := by
  unfold Session.send
  split_ifs
  · exact done (.refl db) hg rfl
  · exact done (.refl db) hg hnext

theorem of_proceed {full : Bool} {t : Turn π}
    (h : s.proceed p now event full db machine = some t) : Turned p now db s t := by
  unfold Session.proceed at h
  split at h
  · obtain rfl := Option.some.inj h
    split_ifs <;> exact done (.refl db) rfl rfl
  · obtain rfl := Option.some.inj h
    split_ifs <;> exact done (.refl db) rfl rfl
  · obtain rfl := Option.some.inj h
    exact commit rfl fun c hc => done (.reconnectRow hc) rfl rfl
  · obtain rfl := Option.some.inj h
    exact send rfl rfl
  · obtain rfl := Option.some.inj h
    exact send rfl rfl
  · obtain rfl := Option.some.inj h
    dsimp only
    split_ifs
    · exact send rfl rfl
    · exact done (.refl db) rfl rfl
  · obtain rfl := Option.some.inj h
    exact commit rfl fun c hc => done (.finishTx hc) rfl rfl
  · obtain rfl := Option.some.inj h
    dsimp only
    split_ifs
    · exact done (.disconnected machine _) rfl rfl
    · exact done (.refl db) rfl rfl
  · split at h
    · obtain rfl := Option.some.inj h
      exact done (.refl db) rfl rfl
    · next c hc =>
      obtain rfl := Option.some.inj h
      exact done (.finishTx hc) rfl rfl
  · obtain rfl := Option.some.inj h
    exact done (.refl db) rfl rfl
  · cases h
  · cases h

theorem of_dispatch {full : Bool} {locked : List Uuid} {t : Turn π}
    (hrows : ∀ id, Retained p now (db.jobs.lookup id) (db.jobRequests.lookup id))
    (h : s.dispatch p now event full db machine locked = some t) : Turned p now db s t := by
  unfold Session.dispatch at h
  split at h
  · obtain rfl := Option.some.inj h
    split_ifs
    · exact send rfl rfl
    · exact done (.refl db) rfl rfl
  · next hphase =>
    have hidle : s.sending = none := by rw [Session.sending, hphase]
    split_ifs at h
    · obtain rfl := Option.some.inj h
      refine commit rfl fun c hc => ⟨.dispatchNext hc, ?_, fun id request hs => Or.inr ?_⟩
      · dsimp only
        split <;> rfl
      · dsimp only at hs
        split at hs
        · cases hidle.symm.trans hs
        · next job request' hvalue =>
          obtain ⟨rfl, rfl⟩ := Prod.mk.inj (Option.some.inj hs)
          exact issued_of_dispatchNext hrows hc hvalue
    · obtain rfl := Option.some.inj h
      exact done (.refl db) rfl hidle
  · cases h

theorem of_read {frame : HostMessage} {t : Turn π}
    (h : s.read p now event db machine frame = some t) : Turned p now db s t := by
  unfold Session.read at h
  split at h
  · next hphase =>
    have hidle : s.sending = none := by rw [Session.sending, hphase]
    obtain rfl := Option.some.inj h
    cases frame with
    | response r =>
      dsimp only
      split
      · exact done (.refl db) rfl rfl
      · split_ifs
        · exact commit rfl fun c hc => done (.response hc) rfl rfl
        · exact done (.refl db) rfl rfl
    | accepted id generation =>
      dsimp only
      split_ifs
      · split
        · exact done (.refl db) rfl rfl
        · split_ifs
          · exact done (.accepted machine generation) rfl hidle
          · exact done (.refl db) rfl hidle
      · exact done (.refl db) rfl rfl
    | missing id generation =>
      dsimp only
      split_ifs
      · split
        · exact done (.refl db) rfl rfl
        · split_ifs
          · exact done (.refl db) rfl rfl
          · exact done (.refl db) rfl hidle
      · exact done (.refl db) rfl rfl
  · cases h

/-- What a step of a session does to the jobs, their requests, and the request that is about to be
sent. -/
theorem of_step {a : SessionAction} {t : Turn π}
    (hrows : ∀ id, Retained p now (db.jobs.lookup id) (db.jobRequests.lookup id))
    (h : s.step p now db machine a = some t) : Turned p now db s t := by
  cases a with
  | proceed event full => exact of_proceed h
  | dispatch event full locked => exact of_dispatch hrows h
  | read event frame => exact of_read h
  | heartbeat =>
    simp only [Session.step, Session.heartbeat] at h
    split at h
    · next hphase =>
      obtain rfl := Option.some.inj h
      exact done (.refl db) rfl (by simp [Session.turn, Session.sending, hphase])
    · cases h
  | leave full =>
    simp only [Session.step, Session.leave] at h
    split at h
    · split_ifs at h
      obtain rfl := Option.some.inj h
      exact send rfl rfl
    · cases h
  | fail =>
    simp only [Session.step, Session.fail] at h
    split at h
    · cases h
    · cases h
    · cases h
    · obtain rfl := Option.some.inj h
      exact done (.refl db) rfl rfl
  | skip =>
    simp only [Session.step, Session.skip] at h
    split at h
    · split_ifs at h
      obtain rfl := Option.some.inj h
      exact done (.refl db) rfl rfl
    · obtain rfl := Option.some.inj h
      exact done (.refl db) rfl rfl
    · cases h

end Turned

/-! ### Steps -/

variable {g g' : AppState π} {es log : List (Event π)}

/-- The transactions on users and machines. -/
inductive Administers (p : Platform π) (now : ℕ) (db : Database) : Transaction Unit → Prop
  | createUser (id : Uuid) (url : String) (version : Option ℕ) :
      Administers p now db (createUser db id url version)
  | updateUser (id : Uuid) (url : Option String) (enabled : Option Bool) (version : Option ℕ) :
      Administers p now db (updateUser db id url enabled version)
  | createMachine (user id tokenId : Uuid) (token : String) :
      Administers p now db (createMachine p now db user id tokenId token)
  | updateMachine (user id : Uuid) (enabled : Option Bool) :
      Administers p now db (updateMachine db user id enabled)
  | issueRegistration (user id tokenId : Uuid) (token : String) :
      Administers p now db (issueRegistration p now db user id tokenId token)
  | register (id : Uuid) (token : String) (installation : Uuid) (credential : String) :
      Administers p now db (register p now db id token installation credential)
  | remove (user id : Uuid) : Administers p now db (remove now db user id)

/-- The transactions on users and machines have nothing to do with jobs. -/
theorem Administers.keeping {t : Transaction Unit} {c : Committed Unit}
    (ht : Administers p now db t) (h : t = .ok c) : Keeping p now db c.database := by
  have hsame : c.database.jobs = db.jobs ∧ c.database.jobRequests = db.jobRequests := by
    cases ht
    all_goals
      first
      | unfold Gateway.createUser at h
      | unfold Gateway.updateUser at h
      | unfold Gateway.createMachine at h
      | unfold Gateway.updateMachine at h
      | unfold Gateway.issueRegistration at h
      | unfold Gateway.register at h
      | unfold Gateway.remove at h
      repeat' split at h
      all_goals cases h <;> exact ⟨rfl, rfl⟩
  exact .of_same hsame.1 hsame.2

/-- A step at which the clock stands still, and what it does to the jobs and their requests. -/
structure Stays (p : Platform π) (g g' : AppState π) : Prop where
  clock : g'.clock = g.clock
  keeping : Keeping p g.clock g.database g'.database

theorem Stays.refl (g : AppState π) : Stays p g g := ⟨rfl, .refl _⟩

/-- What a request of a user does to the jobs and their requests. -/
theorem stays_api (a : ApiAction) : Stays p g (g.api p a).1 := by
  have hcommit {α : Type} {t : Transaction α}
      (h : ∀ c, t = .ok c → Keeping p g.clock g.database c.database) :
      Stays p g (g.commit t).1 := by
    unfold AppState.commit
    split
    · exact .refl g
    · next c => exact ⟨rfl, h c rfl⟩
  cases a with
  | createUser => exact hcommit fun c hc => (Administers.createUser _ _ _).keeping hc
  | updateUser => exact hcommit fun c hc => (Administers.updateUser _ _ _ _).keeping hc
  | createMachine => exact hcommit fun c hc => (Administers.createMachine _ _ _ _).keeping hc
  | updateMachine => exact hcommit fun c hc => (Administers.updateMachine _ _ _).keeping hc
  | issueRegistration =>
    exact hcommit fun c hc => (Administers.issueRegistration _ _ _ _).keeping hc
  | submit => exact hcommit fun c hc => .submit hc

theorem stays_commitRevoking {machine : Uuid} {t : Transaction Unit}
    (ht : Administers p g.clock g.database t) : Stays p g (g.commitRevoking machine t).1 := by
  unfold AppState.commitRevoking
  split
  · exact .refl g
  · exact ⟨rfl, ht.keeping rfl⟩

theorem stays_boot {event : Uuid} (h : g.boot p event = some (g', es)) : Stays p g g' := by
  unfold AppState.boot at h
  split at h
  · obtain ⟨rfl, -⟩ := Prod.mk.inj (Option.some.inj h)
    exact ⟨rfl, .markInflight⟩
  · obtain ⟨rfl, -⟩ := Prod.mk.inj (Option.some.inj h)
    exact ⟨rfl, .refl _⟩
  · split at h
    · obtain ⟨rfl, -⟩ := Prod.mk.inj (Option.some.inj h)
      exact ⟨rfl, .refl _⟩
    · next c hc =>
      obtain ⟨rfl, -⟩ := Prod.mk.inj (Option.some.inj h)
      exact ⟨rfl, .finishTx hc⟩
  · cases h
  · cases h

/-- What a step of the maintenance does to the jobs and their requests. -/
theorem stays_maintain : Stays p g (g.maintain p event).1 := by
  unfold AppState.maintain
  split
  · exact ⟨rfl, .refl _⟩
  · exact ⟨rfl, .refl _⟩
  · split
    · exact ⟨rfl, .refl _⟩
    · next c hc => exact ⟨rfl, .timeoutRow hc⟩
  · exact ⟨rfl, .deleteRequests⟩
  · split
    · exact ⟨rfl, .refl _⟩
    · next c hc => exact ⟨rfl, .expireRow hc⟩

theorem stays_serve {a : Action}
    (hrows : ∀ id, Retained p g.clock (g.database.jobs.lookup id)
      (g.database.jobRequests.lookup id))
    (h : g.serve p a = some (g', es)) : Stays p g g' := by
  cases a with
  | maintain event =>
    obtain ⟨rfl, -⟩ := Prod.mk.inj (Option.some.inj h)
    exact stays_maintain
  | maintenanceFails =>
    obtain ⟨rfl, -⟩ := Prod.mk.inj (Option.some.inj h)
    exact ⟨rfl, .refl _⟩
  | api b =>
    obtain ⟨rfl, -⟩ := Prod.mk.inj (Option.some.inj h)
    exact stays_api b
  | register machine token installation credential =>
    obtain ⟨rfl, -⟩ := Prod.mk.inj (Option.some.inj h)
    exact stays_commitRevoking (.register _ _ _ _)
  | remove user machine =>
    obtain ⟨rfl, -⟩ := Prod.mk.inj (Option.some.inj h)
    exact stays_commitRevoking (.remove _ _)
  | revoke machine =>
    simp only [AppState.serve] at h
    split_ifs at h
    obtain ⟨rfl, -⟩ := Prod.mk.inj (Option.some.inj h)
    exact ⟨rfl, .refl _⟩
  | upgrade connection machine credential =>
    simp only [AppState.serve, AppState.upgrade] at h
    split_ifs at h
    split at h
    · cases h
    · obtain ⟨rfl, -⟩ := Prod.mk.inj (Option.some.inj h)
      exact ⟨rfl, .refl _⟩
  | hello connection hello =>
    simp only [AppState.serve, AppState.hello] at h
    split at h
    · cases h
    · split_ifs at h
      all_goals
        obtain ⟨rfl, -⟩ := Prod.mk.inj (Option.some.inj h)
        exact ⟨rfl, .refl _⟩
  | session machine a =>
    simp only [AppState.serve, AppState.sessionStep] at h
    split at h
    · cases h
    · split at h
      · obtain ⟨rfl, -⟩ := Prod.mk.inj (Option.some.inj h)
        exact ⟨rfl, .refl _⟩
      · obtain ⟨t, ht, heq⟩ := Option.map_eq_some_iff.mp h
        obtain ⟨rfl, -⟩ := Prod.mk.inj heq
        exact ⟨rfl, (Turned.of_step hrows ht).keeping⟩
  | tick n => cases h
  | start => cases h
  | crash => cases h
  | boot event => cases h

/-- What a step of the gateway does to the jobs and their requests: time passes, or the clock stands
still. -/
theorem keeping_of_step {a : Action}
    (hrows : ∀ id, Retained p g.clock (g.database.jobs.lookup id)
      (g.database.jobRequests.lookup id))
    (h : g.step p a = some (g', es)) :
    Stays p g g' ∨ ∃ n, g' = { g with clock := g.clock + n } ∧ es = [] := by
  unfold AppState.step at h
  split_ifs at h
  split at h
  · obtain ⟨rfl, rfl⟩ := Prod.mk.inj (Option.some.inj h)
    exact Or.inr ⟨_, rfl, rfl⟩
  · obtain ⟨rfl, -⟩ := Prod.mk.inj (Option.some.inj h)
    exact Or.inl ⟨rfl, .refl _⟩
  · obtain ⟨rfl, -⟩ := Prod.mk.inj (Option.some.inj h)
    exact Or.inl ⟨rfl, .refl _⟩
  · exact Or.inl (stays_boot h)
  · exact Or.inl (stays_serve hrows h)
  · cases h

/-- What a gateway owes to its jobs: their requests are stored, what its sessions are about to send
was made of them, and so was what they have sent. -/
structure Keeps (p : Platform π) (log : List (Event π)) (g : AppState π) : Prop where
  rows : ∀ id, Retained p g.clock (g.database.jobs.lookup id) (g.database.jobRequests.lookup id)
  sending : ∀ machine s, g.live.lookup machine = some s → ∀ id request,
    s.sending = some (id, request) → Issued p g.database s.generation id request
  sent : ∀ connection request, .sent connection (.request request) ∈ log →
    ∃ generation id, Issued p g.database generation id request

namespace Keeps

/-- A step at which the clock stands still. -/
theorem advance (h : Keeps p log g) (hstays : Stays p g g')
    (hlive : ∀ machine s', g'.live.lookup machine = some s' → ∀ id request,
      s'.sending = some (id, request) → Issued p g'.database s'.generation id request ∨
        ∃ s, g.live.lookup machine = some s ∧ s'.generation = s.generation ∧
          s.sending = some (id, request))
    (hsent : ∀ connection request, .sent connection (.request request) ∈ es →
      ∃ generation id, Issued p g.database generation id request) : Keeps p (log ++ es) g' where
  rows id := by
    rw [hstays.clock]
    exact (h.rows id).holding (hstays.keeping id)
  sending machine s' hs' id request hsending := by
    rcases hlive machine s' hs' id request hsending with hnew | ⟨s, hs, hgeneration, hold⟩
    · exact hnew
    · rw [hgeneration]
      exact (h.sending machine s hs id request hold).keeping hstays.keeping
  sent connection request hmem := by
    have hissued : ∃ generation id, Issued p g.database generation id request := by
      rcases List.mem_append.mp hmem with hold | hnew
      · exact h.sent connection request hold
      · exact hsent connection request hnew
    obtain ⟨generation, id, hissued⟩ := hissued
    exact ⟨generation, id, hissued.keeping hstays.keeping⟩

theorem init : Keeps p [] (.init : AppState π) where
  rows _ := rfl
  sending _ _ h := by simp [AppState.init] at h
  sent _ _ h := by cases h

/-- The request that a session is about to send after one of its steps. -/
theorem sending_of_session {machine : Uuid} {a : SessionAction} (h : Keeps p log g)
    (hstep : g.step p (.session machine a) = some (g', es)) :
    ∀ m s', g'.live.lookup m = some s' → ∀ id request, s'.sending = some (id, request) →
      Issued p g'.database s'.generation id request ∨
        ∃ s, g.live.lookup m = some s ∧ s'.generation = s.generation ∧
          s.sending = some (id, request) := by
  have hsession : g.sessionStep p machine a = some (g', es) := by
    unfold AppState.step at hstep
    split_ifs at hstep
    cases hp : g.process <;> simp only [hp] at hstep <;> first | exact hstep | cases hstep
  intro m s' hs' id request hsending
  unfold AppState.sessionStep at hsession
  split at hsession
  · cases hsession
  · next s hs =>
    split at hsession
    · obtain ⟨rfl, -⟩ := Prod.mk.inj (Option.some.inj hsession)
      rcases eq_or_ne m machine with rfl | hne
      · simp at hs'
      · exact Or.inr ⟨s', (AList.lookup_erase_ne hne).symm.trans hs', rfl, hsending⟩
    · obtain ⟨t, ht, heq⟩ := Option.map_eq_some_iff.mp hsession
      obtain ⟨rfl, -⟩ := Prod.mk.inj heq
      have hturned := Turned.of_step h.rows ht
      rcases Table.lookup_insert_eq_some.mp hs' with ⟨rfl, rfl⟩ | ⟨-, hold⟩
      · rcases hturned.sending id request hsending with hbefore | hnew
        · exact Or.inr ⟨s, hs, hturned.generation, hbefore⟩
        · rw [hturned.generation]
          exact Or.inl hnew
      · exact Or.inr ⟨s', hold, rfl, hsending⟩

/-- What a session sends in one of its steps. -/
theorem sent_of_turn {machine : Uuid} {a : SessionAction} {s : Session π} {t : Turn π}
    (h : Keeps p log g) (hs : g.live.lookup machine = some s)
    (ht : TurnEffect p g.clock g.database machine s t a) {connection : Uuid} {request : Request π}
    (hmem : .sent connection (.request request) ∈ t.events) :
    ∃ generation id, Issued p g.database generation id request := by
  cases ht with
  | request _ hsending _ _ _ he =>
    rw [he] at hmem
    cases List.mem_singleton.mp hmem
    exact ⟨s.generation, _, h.sending machine s hs _ _ hsending⟩
  | plain _ _ _ _ he | answer _ _ _ _ _ _ he | lose _ _ _ _ he =>
    rw [he, settledEvents] at hmem
    simp at hmem
  | greet _ _ _ _ hf he =>
    rw [he] at hmem
    have hframe := (Event.sent.inj (List.mem_singleton.mp hmem)).2
    rcases hf with rfl | ⟨code, rfl⟩ <;> cases hframe
  | survey _ _ _ _ he | dispatch _ _ _ _ _ _ _ he | miss _ _ _ _ _ he =>
    rw [he] at hmem
    cases hmem
  | recover _ _ _ _ _ he | acknowledge _ _ _ _ _ he =>
    rw [he] at hmem
    cases List.mem_singleton.mp hmem

/-- What a gateway owes to its jobs, after every step. -/
theorem step {a : Action} (h : Keeps p log g) (hstep : g.step p a = some (g', es)) :
    Keeps p (log ++ es) g' := by
  rcases keeping_of_step h.rows hstep with hstays | ⟨n, rfl, rfl⟩
  · refine h.advance hstays ?_ ?_
    · cases effect_of_step hstep with
      | plain _ _ _ hl _ =>
        intro machine s' hs' id request hsending
        obtain ⟨s, hs, hwithin⟩ := hl machine s' hs'
        rcases hwithin.sending with hnone | hsame
        · cases hnone.symm.trans hsending
        · exact Or.inr ⟨s, hs, hwithin.generation, hsame ▸ hsending⟩
      | upgrade _ _ _ hl _ | refuse _ _ hl _ =>
        intro machine s' hs' id request hsending
        exact Or.inr ⟨s', hl ▸ hs', rfl, hsending⟩
      | «open» _ _ _ hl _ =>
        intro machine s' hs' id request hsending
        rw [hl] at hs'
        rcases Table.lookup_insert_eq_some.mp hs' with ⟨-, rfl⟩ | ⟨-, hold⟩
        · cases hsending
        · exact Or.inr ⟨s', hold, rfl, hsending⟩
      | turn => exact h.sending_of_session hstep
    · intro connection request hmem
      cases effect_of_step hstep with
      | plain =>
        rw [settledEvents] at hmem
        simp at hmem
      | upgrade | «open» => cases hmem
      | refuse => cases List.mem_singleton.mp hmem
      | turn hs ht => exact h.sent_of_turn hs ht hmem
  · rw [List.append_nil]
    exact ⟨fun id => (h.rows id).tick (Nat.le_add_right _ _), h.sending, h.sent⟩

theorem of_run (hrun : (gatewaySystem p).Run log g) : Keeps p log g := by
  refine hrun.invariant (I := fun log g => Keeps p log g) ?_ fun _ ih hstep => ih.step hstep
  rintro _ rfl
  exact .init

end Keeps

/-- **How long requests are stored.** In every run of the gateway, the request of a job is stored,
as it was submitted, until the job has ended and the time of retention has passed; it is deleted
neither before, nor for a job that has not ended, and nothing is stored without a job. -/
theorem request_retained (hrun : (gatewaySystem p).Run log g) (id : Uuid) :
    Retained p g.clock (g.database.jobs.lookup id) (g.database.jobRequests.lookup id) :=
  (Keeps.of_run hrun).rows id

/-- The request of a job that is not dispatched within 30 seconds is still there. -/
theorem request_retained_overdue :
    ∃ (g : AppState Unit) (job : Job) (r : JobRequest),
      (gatewaySystem plainPlatform).Reachable g ∧
        g.database.jobs.lookup (.numbered 5) = some job ∧ job.status = .final .failed ∧
        g.database.jobRequests.lookup (.numbered 5) = some r ∧
        job.Asks plainPlatform r.request := by
  obtain ⟨r, hr⟩ : ∃ r, (gatewaySystem plainPlatform).exec .init (connectActions ++ [submitAction,
      .tick (seconds 31), .maintain (.numbered 6), .maintain (.numbered 6)]) = some r :=
    ⟨_, rfl⟩
  have hkept : ((gatewaySystem plainPlatform).exec .init (connectActions ++ [submitAction,
      .tick (seconds 31), .maintain (.numbered 6), .maintain (.numbered 6)])).any (fun r =>
        (r.1.database.jobs.lookup (.numbered 5)).any (fun job => job.status = .final .failed) &&
          (r.1.database.jobRequests.lookup (.numbered 5)).isSome) = true := by
    decide
  rw [hr, Option.any_some, Bool.and_eq_true] at hkept
  obtain ⟨job, hjob, hstatus⟩ := (Option.any_eq_true _ _).mp hkept.1
  have hstatus : job.status = .final .failed := of_decide_eq_true hstatus
  obtain ⟨stored, hstored⟩ := Option.isSome_iff_exists.mp hkept.2
  have hrun : (gatewaySystem plainPlatform).Run r.2 r.1 := ⟨_, rfl, .of_exec hr⟩
  have hretained := request_retained hrun (.numbered 5)
  rw [hjob, hstored, Retained, if_pos (by rw [hstatus]; rfl)] at hretained
  obtain ⟨t, -, ⟨request, hrequest, hasks⟩ | ⟨hgone, -⟩⟩ := hretained
  · obtain rfl := Option.some.inj hrequest
    exact ⟨r.1, job, _, ⟨_, hrun⟩, hjob, hstatus, hstored, hasks⟩
  · cases hgone

/-- **What is sent to hosts.** In every run of the gateway, whatever request is sent to a host was
made of the request with which a job was submitted, as the digest in the row of this job says, and
carries the identity of this job. -/
theorem sent_as_submitted (hrun : (gatewaySystem p).Run log g) {connection : Uuid}
    {request : Request π} (hsent : .sent connection (.request request) ∈ log) :
    ∃ id generation job stored, g.database.jobs.lookup id = some job ∧ request.requestId = id.text ∧
      job.requestHash = fingerprint p job.machineId stored job.clientContext ∧
      wireRequest p stored id generation = .ok request := by
  obtain ⟨generation, id, job, stored, hjob, hasks, hwire⟩ :=
    (Keeps.of_run hrun).sent connection request hsent
  exact ⟨id, generation, job, stored, hjob, requestId_wireRequest hwire, hasks, hwire⟩

/-- The request of job 5 is sent to the host of machine 2. -/
theorem sent_as_submitted_dispatched :
    ∃ (log : List (Event Unit)) (g : AppState Unit) (request : Request Unit),
      (gatewaySystem plainPlatform).Run log g ∧
        .sent (.numbered 4) (.request request) ∈ log ∧
        ∃ id generation job stored, g.database.jobs.lookup id = some job ∧
          request.requestId = id.text ∧
          job.requestHash = fingerprint plainPlatform job.machineId stored job.clientContext ∧
          wireRequest plainPlatform stored id generation = .ok request := by
  obtain ⟨g, log, g', request, hexec, hstep⟩ :
      ∃ g log g' request, (gatewaySystem plainPlatform).exec .init (connectActions ++
          [submitAction, .session (.numbered 2) (.dispatch (.numbered 0) false [])]) =
            some (g, log) ∧
        (gatewaySystem plainPlatform).step g
            (.session (.numbered 2) (.proceed (.numbered 0) false)) =
          some (g', [.sent (.numbered 4) (.request request)]) :=
    ⟨_, _, _, _, rfl, rfl⟩
  have hrun : (gatewaySystem plainPlatform).Run log g := ⟨_, rfl, .of_exec hexec⟩
  have hsent : .sent (.numbered 4) (.request request) ∈
      log ++ [.sent (.numbered 4) (.request request)] :=
    List.mem_append_right _ (List.mem_singleton_self _)
  exact ⟨_, g', request, hrun.tail hstep, hsent, sent_as_submitted (hrun.tail hstep) hsent⟩

end ExecutionProvider.Gateway
