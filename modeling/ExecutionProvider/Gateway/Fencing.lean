import ExecutionProvider.Gateway.Validity

/-!
# Credentials that were replaced

A machine that registers again, or is removed, gets a new version of its credential. The session
of an older version goes on until it notices. Its dispatches look at the version, but what they do
then is to settle the job; its other transactions do not look at it at all.

## Main definitions

* `Fenced`: a transaction that lets no credential act on the jobs of a machine.
* `FencedStep`: a step that is fenced if it is one of an older credential.
* `Session.breaches`: the steps of a session that act on the jobs of its machine.

## Main results

* `fenced_iff_not_breaches`: what a step of an older credential does.
* `fenced_iff_clean`: the runs in which older credentials are fenced.
-/

namespace ExecutionProvider.Gateway

open Protocol

variable {π : Type}

/-! ### What a replaced credential must not do -/

/-- No job of a machine is dispatched or taken to be accepted, none gets another response, and none
that is queued is settled. -/
def Fenced (machine : Uuid) (db db' : Database) : Prop :=
  ∀ id job job', db.jobs.lookup id = some job → db'.jobs.lookup id = some job' →
    job.machineId = machine →
    (job'.status.isInflight = true → job'.status = job.status) ∧ job'.response = job.response ∧
      (job.status = .queued → job'.status.isFinal = false)

/-- The session of a machine takes a step with a credential of an older version. -/
def StaleStep (g : AppState π) (a : Action) (machine : Uuid) (s : Session π) (b : SessionAction) :
    Prop :=
  a = .session machine b ∧ g.live.lookup machine = some s ∧
    ∃ m, g.database.machines.lookup machine = some m ∧ s.version < m.credentialVersion

/-- A step that is fenced if it is one of an older credential. -/
def FencedStep (g : AppState π) (a : Action) (g' : AppState π) : Prop :=
  ∀ machine s b, StaleStep g a machine s b → Fenced machine g.database g'.database

/-! ### What a session does -/

section

variable (now : ℕ) (db : Database) (machine : Uuid)

/-- Whether a job is under way at the host of a session, and can still be recovered. -/
def Session.holds (s : Session π) (id : Uuid) (q : Job → Bool) : Bool :=
  (db.jobs.lookup id).any fun job =>
    job.machineId = machine && job.runtimeGenerationId = some s.generation &&
      !job.recoveryExpired now && q job

/-- Whether a step of a session acts on a job of its machine: it reads the response to a job under
way, or the acceptance of one that was dispatched, or there are jobs to dispatch and it has room
for one of them. -/
def Session.breaches (s : Session π) : SessionAction → Bool
  | .read _ (.response r) =>
    match s.phase, r.requestId.bind Uuid.parse with
    | .serving _, some id =>
      s.takes r id && s.holds now db machine id fun job => job.status.isInflight
    | _, _ => false
  | .read _ (.accepted text generation) =>
    match s.phase, Uuid.parse text with
    | .serving _, some id => s.recovery && generation == s.generation && s.pending.contains id &&
        s.holds now db machine id fun job => job.responseRecovery && job.status = .dispatching
    | _, _ => false
  | .dispatch _ _ locked =>
    match s.phase with
    | .serving [] => s.pending.length < maxPendingRequests + reservedControlRequests &&
        !(candidates db machine (maxPendingRequests ≤ s.pending.length) locked).isEmpty
    | _ => false
  | _ => false

end

/-- A step of a session whose credential is the current one, or that does not act on jobs of its
machine. -/
def CleanStep (g : AppState π) (a : Action) (_ : AppState π) : Prop :=
  ∀ machine s b, StaleStep g a machine s b → s.breaches g.clock g.database machine b = false

/-! ### Fenced transactions -/

section

variable {p : Platform π} {now : ℕ} {event : Uuid} {db : Database} {machine id : Uuid}
  {s : Session π}

theorem Fenced.of_jobs {db' : Database} (h : db'.jobs = db.jobs) : Fenced machine db db' := by
  intro id job job' hjob hjob' _
  rw [h, hjob] at hjob'
  obtain rfl := Option.some.inj hjob'
  exact ⟨fun _ => rfl, rfl, fun hq => by rw [hq]; rfl⟩

theorem Fenced.refl (db : Database) : Fenced machine db db := .of_jobs rfl

/-- Rows may change as long as status and response stay. -/
theorem Fenced.of_mapRows {f : Uuid → Job → Job}
    (hstatus : ∀ id job, (f id job).status = job.status)
    (hresponse : ∀ id job, (f id job).response = job.response) :
    Fenced machine db { db with jobs := db.jobs.mapRows f } := by
  intro id job job' hjob hjob' _
  rw [Table.lookup_mapRows, hjob] at hjob'
  obtain rfl := Option.some.inj hjob'
  exact ⟨fun _ => hstatus id job, hresponse id job, fun hq => by rw [hstatus, hq]; rfl⟩

/-- A job that was dispatched may be lost. -/
theorem Fenced.of_finish {status : FinalStatus} {error : Json} {c : Committed Unit}
    (hv : db.JobsValid) (hid : db.Dispatched id)
    (h : finish p now event db id status error = .ok c) : Fenced machine db c.database := by
  rcases finishTx_cases h with ⟨hdb, -⟩ | ⟨job₁, user, hjob₁, hopen, -, -, hj, -⟩
  · exact .of_jobs (by rw [hdb])
  · intro k job job' hjob hjob' _
    rcases eq_or_ne k id with rfl | hne
    · rw [hj, Table.lookup_modify, hjob] at hjob'
      obtain rfl := Option.some.inj hjob'
      rw [hjob] at hjob₁
      obtain rfl := Option.some.inj hjob₁
      obtain ⟨job₂, hjob₂, hdispatched⟩ := hid
      rw [hjob] at hjob₂
      obtain rfl := Option.some.inj hjob₂
      exact ⟨nofun, (hv.responses k job hjob hopen).symm, fun hq => absurd hq hdispatched⟩
    · rw [hj, Table.lookup_modify_of_ne hne, hjob] at hjob'
      obtain rfl := Option.some.inj hjob'
      exact ⟨fun _ => rfl, rfl, fun hq => by rw [hq]; rfl⟩

theorem Fenced.commit {α : Type} {t : Transaction α} {next : α → Session π}
    (h : ∀ c, t = .ok c → Fenced machine db c.database) :
    Fenced machine db (s.commit db t next).database := by
  unfold Session.commit
  split
  · exact .refl db
  · next c => exact h c rfl

theorem fenced_disconnected {generation : Uuid} :
    Fenced machine db (disconnected now db machine generation) := by
  unfold disconnected
  refine .of_mapRows (fun _ job => ?_) fun _ job => ?_
  · split_ifs <;> rfl
  · split_ifs <;> rfl

theorem fenced_proceed {full : Bool} {t : Turn π} (hv : db.JobsValid)
    (hjobs : ∀ id ∈ s.jobs, db.Dispatched id)
    (h : s.proceed p now event full db machine = some t) : Fenced machine db t.database := by
  unfold Session.proceed at h
  split at h
  · obtain rfl := Option.some.inj h
    exact .refl db
  · obtain rfl := Option.some.inj h
    exact .refl db
  · next row rows kept hphase =>
    obtain rfl := Option.some.inj h
    have hrow : db.Dispatched row.id := hjobs _ (by simp [Session.jobs, hphase, Phase.jobs])
    refine .commit fun c hc => ?_
    rcases reconnectRow_cases hc with rfl | ⟨code, message, -, hfinish⟩
    · exact .refl db
    · exact .of_finish hv hrow hfinish
  · obtain rfl := Option.some.inj h
    exact .of_jobs (by rw [Session.database_send])
  · obtain rfl := Option.some.inj h
    exact .of_jobs (by rw [Session.database_send])
  · obtain rfl := Option.some.inj h
    dsimp only
    split_ifs
    · exact .of_jobs (by rw [Session.database_send])
    · exact .refl db
  · next recovering job hphase =>
    obtain rfl := Option.some.inj h
    have hjob : db.Dispatched job := hjobs _ (by simp [Session.jobs, hphase, Phase.jobs])
    exact .commit fun c hc => .of_finish hv hjob hc
  · obtain rfl := Option.some.inj h
    dsimp only
    split_ifs
    · exact fenced_disconnected
    · exact .refl db
  · next job jobs hphase =>
    have hjob : db.Dispatched job := hjobs _ (by simp [Session.jobs, hphase, Phase.jobs])
    split at h
    · obtain rfl := Option.some.inj h
      exact .refl db
    · next c hc =>
      obtain rfl := Option.some.inj h
      exact .of_finish hv hjob hc
  · obtain rfl := Option.some.inj h
    exact .refl db
  · cases h
  · cases h

/-! ### Transactions that act on jobs -/

theorem nextJob_eq_none_iff {controlOnly : Bool} {locked : List Uuid} :
    nextJob db machine controlOnly locked = none ↔
      (candidates db machine controlOnly locked).isEmpty = true := by
  rw [nextJob, List.head?_eq_none_iff, ← List.length_eq_zero_iff, List.length_insertionSort,
    List.length_eq_zero_iff, List.isEmpty_iff]

/-- The dispatch of an older credential fails a job that is queued, if there is one. -/
theorem fenced_dispatchNext_iff {generation : Uuid} {version : ℕ} {recovery controlOnly : Bool}
    {locked : List Uuid} {next : Option (Uuid × Request π) → Session π} {m : Machine}
    (hversions : db.VersionsValid) (hmachines : db.MachinesOwned) (hv : db.JobsValid)
    (hevent : event ∉ db.webhookDeliveries) (hm : db.machines.lookup machine = some m)
    (hstale : version < m.credentialVersion) :
    Fenced machine db (s.commit db (dispatchNext p now event db machine generation version recovery
      controlOnly locked) next).database ↔
      (candidates db machine controlOnly locked).isEmpty = true := by
  obtain ⟨owner, howner⟩ := Option.isSome_iff_exists.mp
    (AList.lookup_isSome.mpr (hmachines machine m hm))
  have husable : usable m owner version = false := by
    have hne : m.credentialVersion ≠ version := by omega
    simp [usable, hne]
  rw [← nextJob_eq_none_iff]
  cases hnext : nextJob db machine controlOnly locked with
  | none =>
    refine iff_of_true (.commit fun c hc => ?_) rfl
    simp only [dispatchNext, hm, howner, hnext] at hc
    obtain rfl := Except.ok.inj hc
    exact .refl db
  | some c =>
    obtain ⟨job, hjob, hqueued, hmachine⟩ := lookup_of_nextJob hnext
    obtain ⟨user, huser⟩ := Option.isSome_iff_exists.mp
      (AList.lookup_isSome.mpr (hv.owners c.id job hjob))
    obtain ⟨c', hc'⟩ : ∃ c', finishTx p now event db c.id .failed none
        (some (GatewayError.conflict "machine_disabled"
          "machine or user is unavailable for dispatch").value) = .ok c' :=
      finishTx_eq_ok hjob huser (hversions _ user huser) hevent
    refine iff_of_false (fun hfenced => ?_) nofun
    simp only [Session.commit, dispatchNext, hm, howner, hnext, husable, Bool.false_eq_true,
      if_false, hc'] at hfenced
    rcases finishTx_cases hc' with ⟨-, -, hfinal⟩ | ⟨job₁, user₁, -, -, -, -, hj, -⟩
    · have hended := hfinal job hjob
      rw [hqueued] at hended
      cases hended
    · obtain ⟨-, -, hopen⟩ := hfenced c.id job _ hjob
        (by rw [hj, Table.lookup_modify, hjob]; rfl) hmachine
      cases hopen hqueued

/-- A response is stored for a job under way. -/
theorem fenced_response_iff {r : Response} {next : Unit → Session π} {generation : Uuid}
    (hversions : db.VersionsValid) (hv : db.JobsValid) (hevent : event ∉ db.webhookDeliveries)
    (hgeneration : generation = s.generation) :
    Fenced machine db
        (s.commit db (response p now event db machine generation id r) next).database ↔
      s.holds now db machine id (fun job => job.status.isInflight) = false := by
  subst hgeneration
  by_cases hholds : s.holds now db machine id (fun job => job.status.isInflight) = true
  · refine iff_of_false (fun hfenced => ?_) (by simp [hholds])
    obtain ⟨job, hjob, hcond⟩ := (Option.any_eq_true _ _).mp hholds
    simp only [Bool.and_eq_true, decide_eq_true_eq, Bool.not_eq_true'] at hcond
    obtain ⟨⟨⟨hmachine, hgen⟩, hexpired⟩, hin⟩ := hcond
    have hopen : job.status.isFinal = false := JobStatus.isFinal_of_isInflight hin
    obtain ⟨user, huser⟩ := Option.isSome_iff_exists.mp
      (AList.lookup_isSome.mpr (hv.owners id job hjob))
    obtain ⟨c, hc⟩ : ∃ c, finishTx p now event db id (responseStatus r)
        (some (storedResponse r)) none = .ok c :=
      finishTx_eq_ok hjob huser (hversions _ user huser) hevent
    have hrow : (db.jobs.lookup id).filter (fun job => job.machineId = machine &&
        job.runtimeGenerationId = some s.generation && job.status != .queued) = some job := by
      rw [hjob]
      simp [Option.filter, hmachine, hgen, JobStatus.ne_queued_of_isInflight hin]
    simp only [Session.commit, response, hrow, hexpired, Bool.false_eq_true, if_false, hc]
      at hfenced
    rcases finishTx_cases hc with ⟨-, -, hfinal⟩ | ⟨job₁, user₁, -, -, -, -, hj, -⟩
    · have hended := hfinal job hjob
      rw [hopen] at hended
      cases hended
    · obtain ⟨-, hresponse, -⟩ := hfenced id job _ hjob
        (by rw [hj, Table.lookup_modify, hjob]; rfl) hmachine
      rw [hv.responses id job hjob hopen] at hresponse
      cases hresponse
  · refine iff_of_true (.commit fun c hc => ?_) (by simpa using hholds)
    obtain ⟨job, hjob, hmachine, hgen, hdispatched, ⟨-, hfinish⟩ | ⟨hexpired, hfinish⟩⟩ :=
      response_cases hc
    · exact .of_finish hv ⟨job, hjob, hdispatched⟩ hfinish
    · rcases finishTx_cases hfinish with ⟨hdb, -⟩ | ⟨job₁, user, hjob₁, hopen, -⟩
      · exact .of_jobs (by rw [hdb])
      · rw [hjob] at hjob₁
        obtain rfl := Option.some.inj hjob₁
        have hin := (JobStatus.isFinal_eq_false_iff.mp hopen).resolve_left hdispatched
        exact absurd ((Option.any_eq_true _ _).mpr
          ⟨job, hjob, by simp [hmachine, hgen, hexpired, hin]⟩) hholds

/-- A job that was dispatched is taken to be accepted. -/
theorem fenced_accepted_iff {generation : Uuid} (hgeneration : generation = s.generation) :
    Fenced machine db (accepted now db machine generation id) ↔
      s.holds now db machine id (fun job => job.responseRecovery && job.status = .dispatching) =
        false := by
  subst hgeneration
  constructor
  · intro hfenced
    by_contra hholds
    rw [Bool.not_eq_false] at hholds
    obtain ⟨job, hjob, hcond⟩ := (Option.any_eq_true _ _).mp hholds
    simp only [Bool.and_eq_true, decide_eq_true_eq, Bool.not_eq_true'] at hcond
    obtain ⟨⟨⟨hmachine, hgen⟩, hexpired⟩, hrecovery, hstatus⟩ := hcond
    obtain ⟨hkeep, -, -⟩ := hfenced id job (job.accept now) hjob (by
      rw [accepted, Table.lookup_modify, hjob, Option.map_some, if_pos]
      exact ⟨hmachine, hgen, hrecovery, by simp [hexpired], by rw [hstatus]; rfl⟩) hmachine
    have hwaiting := hkeep rfl
    rw [hstatus] at hwaiting
    cases hwaiting
  · intro hholds k job job' hjob hjob' hmachine
    rcases eq_or_ne k id with rfl | hne
    · rw [accepted, Table.lookup_modify, hjob] at hjob'
      replace hjob' := Option.some.inj hjob'
      dsimp only at hjob'
      split_ifs at hjob' with hcond
      · subst hjob'
        obtain ⟨-, hgen, hrecovery, hexpired, hin⟩ := hcond
        have hne : job.status ≠ .dispatching := by
          intro hstatus
          have htrue : s.holds now db machine k (fun job =>
              job.responseRecovery && job.status = .dispatching) = true :=
            (Option.any_eq_true _ _).mpr
              ⟨job, hjob, by simpa [hmachine, hgen, hrecovery, hstatus] using hexpired⟩
          rw [htrue] at hholds
          cases hholds
        have hwaiting : job.status = .waitingResponse := by
          cases hs : job.status with
          | waitingResponse => rfl
          | dispatching => exact absurd hs hne
          | queued | final => rw [hs] at hin; cases hin
        exact ⟨fun _ => hwaiting.symm, rfl, fun _ => rfl⟩
      · subst hjob'
        exact ⟨fun _ => rfl, rfl, fun hq => by rw [hq]; rfl⟩
    · rw [accepted, Table.lookup_modify_of_ne hne, hjob] at hjob'
      obtain rfl := Option.some.inj hjob'
      exact ⟨fun _ => rfl, rfl, fun hq => by rw [hq]; rfl⟩

end

/-! ### Steps of an older credential -/

section

variable {p : Platform π} {now : ℕ} {db : Database} {machine : Uuid} {s : Session π} {m : Machine}

theorem fenced_dispatch_iff {event : Uuid} {full : Bool} {locked : List Uuid} {t : Turn π}
    (hversions : db.VersionsValid) (hmachines : db.MachinesOwned) (hv : db.JobsValid)
    (hevent : event ∉ db.webhookDeliveries) (hm : db.machines.lookup machine = some m)
    (hstale : s.version < m.credentialVersion)
    (h : s.dispatch p now event full db machine locked = some t) :
    Fenced machine db t.database ↔
      s.breaches now db machine (.dispatch event full locked) = false := by
  unfold Session.dispatch at h
  split at h
  · next job recovering hphase =>
    obtain rfl := Option.some.inj h
    refine iff_of_true (.of_jobs ?_) (by simp [Session.breaches, hphase])
    split_ifs
    · rw [Session.database_send]
    · rfl
  · next hphase =>
    split_ifs at h with hroom
    · obtain rfl := Option.some.inj h
      rw [fenced_dispatchNext_iff hversions hmachines hv hevent hm hstale]
      simp [Session.breaches, hphase, hroom]
    · obtain rfl := Option.some.inj h
      exact iff_of_true (.refl db) (by simp [Session.breaches, hphase, hroom])
  · cases h

theorem fenced_read_iff {event : Uuid} {frame : HostMessage} {t : Turn π}
    (hversions : db.VersionsValid) (hv : db.JobsValid) (hevent : event ∉ db.webhookDeliveries)
    (h : s.read p now event db machine frame = some t) :
    Fenced machine db t.database ↔ s.breaches now db machine (.read event frame) = false := by
  unfold Session.read at h
  split at h
  · next recovering hphase =>
    obtain rfl := Option.some.inj h
    cases frame with
    | response r =>
      dsimp only
      split
      · next hnone => exact iff_of_true (.refl db) (by simp [Session.breaches, hphase, hnone])
      · next id hid =>
        split_ifs with htakes
        · rw [fenced_response_iff hversions hv hevent rfl]
          simp [Session.breaches, hphase, hid, htakes]
        · exact iff_of_true (.refl db) (by simp [Session.breaches, hphase, hid, htakes])
    | accepted text generation =>
      dsimp only
      split_ifs with hcond
      · obtain ⟨hrecovery, rfl⟩ := hcond
        split
        · next hnone => exact iff_of_true (.refl db) (by simp [Session.breaches, hphase, hnone])
        · next id hid =>
          split_ifs with hpending
          · rw [Session.turn, fenced_accepted_iff rfl]
            simp [Session.breaches, hphase, hid, hrecovery, hpending]
          · exact iff_of_true (.refl db) (by simp [Session.breaches, hphase, hid, hpending])
      · refine iff_of_true (.refl db) ?_
        simp only [Session.breaches, hphase]
        split
        · have hfalse : (s.recovery && generation == s.generation) = false := by
            simpa using hcond
          simp [hfalse]
        · rfl
    | missing text generation =>
      refine iff_of_true (.of_jobs ?_) rfl
      dsimp only
      split_ifs
      · split
        · rfl
        · split_ifs <;> rfl
      · rfl
  · cases h

/-- A step of an older credential is fenced if it does not act on jobs of its machine. -/
theorem fenced_iff_not_breaches {b : SessionAction} {t : Turn π} (hversions : db.VersionsValid)
    (hmachines : db.MachinesOwned) (hv : db.JobsValid) (hjobs : ∀ id ∈ s.jobs, db.Dispatched id)
    (hevent : ∀ event, b.event = some event → event ∉ db.webhookDeliveries)
    (hm : db.machines.lookup machine = some m) (hstale : s.version < m.credentialVersion)
    (h : s.step p now db machine b = some t) :
    Fenced machine db t.database ↔ s.breaches now db machine b = false := by
  cases b with
  | proceed event full => exact iff_of_true (fenced_proceed hv hjobs h) rfl
  | dispatch event full locked =>
    exact fenced_dispatch_iff hversions hmachines hv (hevent event rfl) hm hstale h
  | read event frame => exact fenced_read_iff hversions hv (hevent event rfl) h
  | heartbeat =>
    refine iff_of_true (.of_jobs ?_) rfl
    simp only [Session.step, Session.heartbeat] at h
    split at h
    · obtain rfl := Option.some.inj h
      rfl
    · cases h
  | leave full =>
    refine iff_of_true (.of_jobs ?_) rfl
    simp only [Session.step, Session.leave] at h
    split at h
    · split_ifs at h
      obtain rfl := Option.some.inj h
      rw [Session.database_send]
    · cases h
  | fail =>
    refine iff_of_true (.of_jobs ?_) rfl
    simp only [Session.step, Session.fail] at h
    split at h
    · cases h
    · cases h
    · cases h
    · obtain rfl := Option.some.inj h
      rfl
  | skip =>
    refine iff_of_true (.of_jobs ?_) rfl
    simp only [Session.step, Session.skip] at h
    split at h
    · split_ifs at h
      obtain rfl := Option.some.inj h
      rfl
    · obtain rfl := Option.some.inj h
      rfl
    · cases h

end

/-! ### Runs -/

section

variable {p : Platform π} {g g' : AppState π} {es : List (Event π)} {a : Action}

/-- A session takes its steps in a process that serves. -/
theorem sessionStep_of_step {machine : Uuid} {b : SessionAction}
    (h : g.step p (.session machine b) = some (g', es)) :
    (∀ event, b.event = some event → event ∉ g.database.webhookDeliveries) ∧
      g.sessionStep p machine b = some (g', es) := by
  unfold AppState.step at h
  split_ifs at h with hevent
  refine ⟨fun event he hmem => hevent (by simp [Action.event, he, hmem]), ?_⟩
  cases hprocess : g.process with
  | up => simpa only [hprocess, AppState.serve] using h
  | down | starting | settling => simp [hprocess] at h

theorem fencedStep_iff_cleanStep (hv : g.Valid) (hstep : g.step p a = some (g', es)) :
    FencedStep g a g' ↔ CleanStep g a g' := by
  have hone (machine : Uuid) (s : Session π) (b : SessionAction)
      (hstale : StaleStep g a machine s b) : Fenced machine g.database g'.database ↔
        s.breaches g.clock g.database machine b = false := by
    obtain ⟨rfl, hs, m, hm, hversion⟩ := hstale
    obtain ⟨hnew, hstep⟩ := sessionStep_of_step hstep
    simp only [AppState.sessionStep, hs] at hstep
    split at hstep
    · obtain ⟨rfl, rfl⟩ := Prod.mk.inj (Option.some.inj hstep)
      exact iff_of_true (.refl _) rfl
    · obtain ⟨t, ht, heq⟩ := Option.map_eq_some_iff.mp hstep
      obtain ⟨rfl, rfl⟩ := Prod.mk.inj heq
      exact fenced_iff_not_breaches hv.versions hv.machines hv.jobs (hv.sessions machine s hs)
        hnew hm hversion ht
  constructor
  · intro h machine s b hstale
    exact (hone machine s b hstale).mp (h machine s b hstale)
  · intro h machine s b hstale
    exact (hone machine s b hstale).mpr (h machine s b hstale)

/-- **When replaced credentials are fenced.** In a run, the steps of sessions with credentials of
older versions let none of them dispatch jobs of its machine, store responses for them or settle
those that are queued, exactly when no such session reads a response or an acceptance for a job
that is under way, or is ready to dispatch while there are jobs to dispatch. -/
theorem fenced_iff_clean (p : Platform π) (as : List Action) :
    (gatewaySystem p).Steps FencedStep .init as ↔ (gatewaySystem p).Steps CleanStep .init as :=
  System.steps_congr (I := AppState.Valid) (fun hv hstep => hv.step hstep)
    (fun hv hstep => fencedStep_iff_cleanStep hv hstep) .init

end

/-! ### A response to a replaced credential -/

/-- The host of machine 2 registers again while job 5 is under way. -/
def replaceActions : List Action :=
  connectActions ++ [submitAction, .session (.numbered 2) (.dispatch (.numbered 0) false []),
    .session (.numbered 2) (.proceed (.numbered 0) false),
    .api (.issueRegistration (.numbered 1) (.numbered 2) (.numbered 1) "again"),
    .register (.numbered 2) "again" (.numbered 0) "other"]

/-- The session of machine 2 reads the response to job 5. -/
def lateResponse : SessionAction :=
  .read (.numbered 6) (.response ⟨5, some (Uuid.numbered 5).text, .numbered 3, .ok .null⟩)

/-- A session stores a response after its credential was replaced. -/
theorem not_forall_fenced : ¬∀ as : List Action,
    (gatewaySystem plainPlatform).Steps (fun _ _ _ => True) .init as →
      (gatewaySystem plainPlatform).Steps FencedStep .init as := by
  intro h
  have hsteps := h (replaceActions ++ [.session (.numbered 2) lateResponse])
    (.of_exec (by decide))
  obtain ⟨g, es, g', es', hexec, hstep, hfenced⟩ := hsteps.last
  have hstale : ((gatewaySystem plainPlatform).exec .init replaceActions).any (fun r =>
      (r.1.live.lookup (.numbered 2)).any fun s =>
        (r.1.database.machines.lookup (.numbered 2)).any fun m =>
          s.version < m.credentialVersion) = true := by
    decide
  have hstored : ((gatewaySystem plainPlatform).exec .init replaceActions).any (fun r =>
      (r.1.database.jobs.lookup (.numbered 5)).any fun job =>
        job.machineId = .numbered 2 && job.response.isNone &&
        ((gatewaySystem plainPlatform).step r.1 (.session (.numbered 2) lateResponse)).any fun r' =>
          (r'.1.database.jobs.lookup (.numbered 5)).any fun job' => job'.response.isSome) =
      true := by
    decide
  rw [hexec, Option.any_some] at hstale hstored
  obtain ⟨s, hs, hstale⟩ := (Option.any_eq_true _ _).mp hstale
  obtain ⟨m, hm, hversion⟩ := (Option.any_eq_true _ _).mp hstale
  obtain ⟨job, hjob, hcond⟩ := (Option.any_eq_true _ _).mp hstored
  rw [Bool.and_eq_true, Bool.and_eq_true, hstep, Option.any_some] at hcond
  obtain ⟨⟨hmachine, hnone⟩, hsome⟩ := hcond
  obtain ⟨job', hjob', hsome⟩ := (Option.any_eq_true _ _).mp hsome
  obtain ⟨-, hresponse, -⟩ := hfenced (.numbered 2) s lateResponse
    ⟨rfl, hs, m, hm, of_decide_eq_true hversion⟩ (.numbered 5) job job' hjob hjob'
    (of_decide_eq_true hmachine)
  rw [hresponse, Option.isNone_iff_eq_none.mp hnone] at hsome
  cases hsome

end ExecutionProvider.Gateway
