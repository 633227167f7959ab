import ExecutionProvider.Gateway.Effect

/-!
# A job ends once, and its owner is told once

Many transactions may settle a job: the response of a host, a timeout, the loss of a connection,
a missing receipt, a restart. Whichever comes first decides, and the others find the job ended.

## Main definitions

* `settlementsOf`: the outcomes that a job was given in a run.
* `deliveriesOf`: the webhook deliveries for a job.
* `SettledBy`: the transaction of a run that settled a job, and the owner of the job in it.

## Main results

* `ended_of_path`: a job that has ended stays as it is.
* `settled_once`: a job that has ended was settled once, and there is a delivery for it exactly
  when its owner had a callback URL then.
-/

namespace ExecutionProvider.Gateway

variable {π : Type} {p : Platform π} {g g' : AppState π} {log es : List (Event π)} {id : Uuid}
  {job : Job}

/-! ### Outcomes -/

/-- The outcome that an event gives a job. -/
def Event.settlementOf (id : Uuid) : Event π → Option Settlement
  | .settled σ => if σ.job = id then some σ else none
  | .sent .. => none

/-- The outcomes that a job was given in a run. -/
def settlementsOf (id : Uuid) (log : List (Event π)) : List Settlement :=
  log.filterMap (Event.settlementOf id)

/-- The webhook deliveries for a job. -/
def deliveriesOf (db : Database) (id : Uuid) : List (Uuid × WebhookDelivery) :=
  db.webhookDeliveries.select fun _ d => d.jobId = id

/-- A job has ended with an outcome. -/
structure Job.Ended (job : Job) (σ : Settlement) : Prop where
  status : job.status = .final σ.status
  response : job.response = σ.response
  error : job.error = σ.error
  finishedAt : job.finishedAt = some σ.finishedAt

/-- A delivery says with what a job has ended: its type is the final status, and its payload has
the moment, and in versions 1 and 3 the response and the error. -/
structure WebhookDelivery.Tells (d : WebhookDelivery) (p : Platform π) (σ : Settlement) :
    Prop where
  eventType : d.eventType = "job." ++ σ.status.text
  callbackUrl : d.callbackUrl = σ.callbackUrl
  completedAt : d.payload.get "completedAt" = some (.str (p.timestamp σ.finishedAt))
  outcome : σ.payloadVersion ≠ 2 → d.payload.get "response" = some (.ofOption σ.response) ∧
    d.payload.get "error" = some (.ofOption σ.error)

/-- There is a delivery for an outcome when the owner of the job had a callback URL. -/
def Announced (p : Platform π) (db : Database) (σ : Settlement) : Prop :=
  if σ.callbackUrl = "" then deliveriesOf db σ.job = []
  else ∃ event d, deliveriesOf db σ.job = [(event, d)] ∧ d.Tells p σ

/-- The transaction of a run that settled a job, and the owner of the job in it. -/
def SettledBy (p : Platform π) (log : List (Event π)) (g : AppState π) (σ : Settlement)
    (owner : User) : Prop :=
  ∃ pre post g₁ a es g₂ job, log = pre ++ es ++ post ∧ (gatewaySystem p).Run pre g₁ ∧
    (gatewaySystem p).step g₁ a = some (g₂, es) ∧ .settled σ ∈ es ∧
    (gatewaySystem p).Path g₂ post g ∧ g₁.database.jobs.lookup σ.job = some job ∧
    g₁.database.users.lookup job.userId = some owner

theorem settlementsOf_append (log es : List (Event π)) :
    settlementsOf id (log ++ es) = settlementsOf id log ++ settlementsOf id es :=
  List.filterMap_append

theorem settlementsOf_settledEvents (σs : List Settlement) :
    settlementsOf id (settledEvents σs : List (Event π)) = σs.filter fun σ => σ.job = id := by
  induction σs with
  | nil => rfl
  | cons σ σs ih =>
    rw [List.filter_cons, ← ih]
    by_cases h : σ.job = id <;> simp [settlementsOf, settledEvents, Event.settlementOf, h]

theorem mem_settlementsOf {σ : Settlement} (h : σ ∈ settlementsOf id log) :
    .settled σ ∈ log ∧ σ.job = id := by
  obtain ⟨e, he, hσ⟩ := List.mem_filterMap.mp h
  cases e with
  | settled σ' =>
    rw [Event.settlementOf] at hσ
    split_ifs at hσ with hid
    obtain rfl := Option.some.inj hσ
    exact ⟨he, hid⟩
  | sent connection frame => cases hσ

/-! ### One step -/

/-- What a step of the gateway does to the jobs. -/
theorem Effect.change {a : Action} (h : Effect p g g' a es) :
    ∃ σs, Change p g.database g'.database σs ∧
      ∀ id, settlementsOf id es = σs.filter fun σ => σ.job = id := by
  cases h with
  | plain hc => exact ⟨_, hc, fun _ => settlementsOf_settledEvents _⟩
  | upgrade _ _ hdb => exact ⟨[], hdb ▸ .keep rfl rfl, fun _ => rfl⟩
  | refuse _ hdb => exact ⟨[], hdb ▸ .keep rfl rfl, fun _ => rfl⟩
  | «open» _ _ hdb => exact ⟨[], hdb ▸ .keep rfl rfl, fun _ => rfl⟩
  | turn _ ht hdb =>
    rw [hdb]
    cases ht with
    | plain hc _ _ _ he => exact ⟨_, hc, fun _ => he ▸ settlementsOf_settledEvents _⟩
    | greet hdb _ _ _ _ he => exact ⟨[], hdb ▸ .keep rfl rfl, fun _ => he ▸ rfl⟩
    | survey hdb _ _ _ he => exact ⟨[], hdb ▸ .keep rfl rfl, fun _ => he ▸ rfl⟩
    | dispatch _ hjob hstatus _ _ hdb _ he =>
      exact ⟨[], hdb ▸ .dispatch hjob hstatus rfl rfl, fun _ => he ▸ rfl⟩
    | request hdb _ _ _ _ he => exact ⟨[], hdb ▸ .keep rfl rfl, fun _ => he ▸ rfl⟩
    | recover hdb _ _ _ _ he => exact ⟨[], hdb ▸ .keep rfl rfl, fun _ => he ▸ rfl⟩
    | answer _ _ _ hc hdb _ he =>
      exact ⟨_, hdb ▸ change_response hc, fun _ => he ▸ settlementsOf_settledEvents _⟩
    | acknowledge hdb _ _ _ _ he => exact ⟨[], hdb ▸ .keep rfl rfl, fun _ => he ▸ rfl⟩
    | miss _ _ _ hdb _ he => exact ⟨[], hdb ▸ .keep rfl rfl, fun _ => he ▸ rfl⟩
    | lose _ hc hdb _ he =>
      exact ⟨_, hdb ▸ change_finishTx hc, fun _ => he ▸ settlementsOf_settledEvents _⟩

/-- A change leaves a job that has ended as it is. -/
theorem Change.ended {db db' : Database} {σs : List Settlement} (h : Change p db db' σs)
    (hjob : db.jobs.lookup id = some job) (hfinal : job.status.isFinal = true) :
    ∃ job', db'.jobs.lookup id = some job' ∧ job'.status = job.status ∧
      job'.response = job.response ∧ job'.error = job.error ∧ job'.finishedAt = job.finishedAt := by
  have hkeep (hj : db'.jobs.lookup id = db.jobs.lookup id) : ∃ job',
      db'.jobs.lookup id = some job' ∧ job'.status = job.status ∧ job'.response = job.response ∧
        job'.error = job.error ∧ job'.finishedAt = job.finishedAt :=
    ⟨job, hj.trans hjob, rfl, rfl, rfl, rfl⟩
  cases h with
  | keep hj => exact hkeep (by rw [hj])
  | @submit k _ hk _ _ _ _ _ hj =>
    have hne : id ≠ k := fun heq => hk (heq ▸ Table.mem_of_lookup hjob)
    exact hkeep (by rw [hj, AList.lookup_insert_ne hne])
  | @dispatch k job₁ _ _ _ hjob₁ hstatus hj =>
    have hne : id ≠ k := by
      rintro rfl
      rw [hjob] at hjob₁
      obtain rfl := Option.some.inj hjob₁
      rw [hstatus] at hfinal
      cases hfinal
    exact hkeep (by rw [hj, Table.lookup_modify_of_ne hne])
  | progress hf hj =>
    rw [hj, Table.lookup_mapRows, hjob]
    obtain ⟨-, -, -, -, -, -, hr, he, hfin, hs⟩ := hf id job
    refine ⟨_, rfl, ?_, hr, he, hfin⟩
    refine hs.resolve_right ?_
    rintro ⟨hin, -⟩
    rw [JobStatus.isFinal_of_isInflight hin] at hfinal
    cases hfinal
  | @settle event job₁ _ σ hjob₁ hopen _ _ _ hj =>
    have hne : id ≠ σ.job := by
      rintro rfl
      rw [hjob] at hjob₁
      obtain rfl := Option.some.inj hjob₁
      rw [hopen] at hfinal
      cases hfinal
    exact hkeep (by rw [hj, Table.lookup_modify_of_ne hne])

/-- A job that has ended stays as it is. -/
theorem ended_of_path (h : (gatewaySystem p).Path g log g')
    (hjob : g.database.jobs.lookup id = some job) (hfinal : job.status.isFinal = true) :
    ∃ job', g'.database.jobs.lookup id = some job' ∧ job'.status = job.status ∧
      job'.response = job.response ∧ job'.error = job.error ∧ job'.finishedAt = job.finishedAt := by
  refine h.preserves (I := fun g' => ∃ job', g'.database.jobs.lookup id = some job' ∧
    job'.status = job.status ∧ job'.response = job.response ∧ job'.error = job.error ∧
      job'.finishedAt = job.finishedAt) ?_ ⟨job, hjob, rfl, rfl, rfl, rfl⟩
  rintro t a u es ⟨job₁, hjob₁, hs, hr, he, hf⟩ hstep
  obtain ⟨σs, hc, -⟩ := (effect_of_step hstep).change
  obtain ⟨job₂, hjob₂, hs', hr', he', hf'⟩ := hc.ended hjob₁ (hs ▸ hfinal)
  exact ⟨job₂, hjob₂, hs'.trans hs, hr'.trans hr, he'.trans he, hf'.trans hf⟩

/-! ### Runs -/

/-- A job has no outcome: nothing has settled it, and there is no delivery for it. -/
def Silent (log : List (Event π)) (db : Database) (id : Uuid) : Prop :=
  settlementsOf id log = [] ∧ deliveriesOf db id = []

/-- A job has the outcome it was given, and its owner was told. -/
def Told (p : Platform π) (log : List (Event π)) (db : Database) (id : Uuid) (job : Job) : Prop :=
  ∃ σ, settlementsOf id log = [σ] ∧ job.Ended σ ∧ Announced p db σ

/-- What the log and the outbox say about a job. -/
structure Accounted (p : Platform π) (log : List (Event π)) (db : Database) (id : Uuid) :
    Prop where
  absent : db.jobs.lookup id = none → Silent log db id
  unsettled : ∀ job, db.jobs.lookup id = some job → job.status.isFinal = false → Silent log db id
  settled : ∀ job, db.jobs.lookup id = some job → job.status.isFinal = true → Told p log db id job

theorem Announced.congr {db db' : Database} {σ : Settlement} (h : Announced p db σ)
    (hd : deliveriesOf db' σ.job = deliveriesOf db σ.job) : Announced p db' σ := by
  rwa [Announced, hd]

/-- Nothing is said about a job that a change leaves alone. -/
theorem Accounted.congr {db db' : Database} (h : Accounted p log db id)
    (hσ : settlementsOf id es = []) (hd : deliveriesOf db' id = deliveriesOf db id)
    (hnone : db'.jobs.lookup id = none → db.jobs.lookup id = none)
    (hsome : ∀ job', db'.jobs.lookup id = some job' →
      job'.status.isFinal = false ∧ db.jobs.lookup id = none ∨
      ∃ job, db.jobs.lookup id = some job ∧ job'.status.isFinal = job.status.isFinal ∧
        ∀ σ, job.Ended σ → job'.Ended σ) : Accounted p (log ++ es) db' id := by
  have hlog : settlementsOf id (log ++ es) = settlementsOf id log := by
    rw [settlementsOf_append, hσ, List.append_nil]
  have hsilent (hs : Silent log db id) : Silent (log ++ es) db' id :=
    ⟨hlog.trans hs.1, hd.trans hs.2⟩
  refine ⟨fun hl => hsilent (h.absent (hnone hl)), fun job' hjob' hopen => ?_,
    fun job' hjob' hfinal => ?_⟩
  · rcases hsome job' hjob' with ⟨-, hl⟩ | ⟨job, hjob, hs, -⟩
    · exact hsilent (h.absent hl)
    · exact hsilent (h.unsettled job hjob (hs ▸ hopen))
  · rcases hsome job' hjob' with ⟨hopen, -⟩ | ⟨job, hjob, hs, hended⟩
    · rw [hopen] at hfinal
      cases hfinal
    · obtain ⟨σ, hσs, he, ha⟩ := h.settled job hjob (hs ▸ hfinal)
      have hid : σ.job = id := (mem_settlementsOf (hσs ▸ List.mem_singleton_self σ)).2
      exact ⟨σ, hlog.trans hσs, hended σ he, ha.congr (hid ▸ hd)⟩

/-- A delivery that was put into the outbox is the only one for its job. -/
theorem announced_of_delivered {db db' : Database} {event : Uuid} {σ : Settlement}
    (hd : Delivered p db db' event job σ) (hnone : deliveriesOf db σ.job = []) :
    Announced p db' σ := by
  rw [Delivered] at hd
  rw [Announced]
  split_ifs at hd ⊢
  · rwa [deliveriesOf, hd]
  · obtain ⟨payload, hpayload, hevent, hinsert⟩ := hd
    obtain ⟨hcompleted, houtcome⟩ := terminalEvent_get hpayload
    refine ⟨event, ⟨σ.job, job.userId, "job." ++ σ.status.text, σ.callbackUrl, payload⟩, ?_,
      ⟨rfl, rfl, hcompleted, houtcome⟩⟩
    rw [deliveriesOf, hinsert, Table.select_insert hevent, if_pos (by simp), ← deliveriesOf, hnone]

theorem deliveriesOf_of_delivered {db db' : Database} {event : Uuid} {σ : Settlement}
    (hd : Delivered p db db' event job σ) (hne : id ≠ σ.job) :
    deliveriesOf db' id = deliveriesOf db id := by
  rw [Delivered] at hd
  split_ifs at hd
  · rw [deliveriesOf, hd, ← deliveriesOf]
  · obtain ⟨payload, -, hevent, hinsert⟩ := hd
    rw [deliveriesOf, hinsert, Table.select_insert hevent, if_neg (by simpa using Ne.symm hne),
      ← deliveriesOf]

/-- A change keeps the account of a job. -/
theorem Accounted.change {db db' : Database} {σs : List Settlement} (h : Accounted p log db id)
    (hc : Change p db db' σs) (hes : settlementsOf id es = σs.filter fun σ => σ.job = id) :
    Accounted p (log ++ es) db' id := by
  have hsame (hj : db'.jobs.lookup id = db.jobs.lookup id) (job' : Job)
      (hjob' : db'.jobs.lookup id = some job') :
      job'.status.isFinal = false ∧ db.jobs.lookup id = none ∨
      ∃ job, db.jobs.lookup id = some job ∧ job'.status.isFinal = job.status.isFinal ∧
        ∀ σ, job.Ended σ → job'.Ended σ :=
    Or.inr ⟨job', hj ▸ hjob', rfl, fun _ he => he⟩
  cases hc with
  | keep hj hd =>
    exact h.congr hes (by rw [deliveriesOf, hd, deliveriesOf]) (fun hl => by rwa [← hj])
      (hsame (by rw [hj]))
  | @submit k job₁ hk hstatus _ _ _ _ hj hd =>
    refine h.congr hes (by rw [deliveriesOf, hd, deliveriesOf]) (fun hl => ?_) fun job' hjob' => ?_
    · rcases eq_or_ne id k with rfl | hne
      · rw [hj, AList.lookup_insert] at hl
        cases hl
      · rwa [hj, AList.lookup_insert_ne hne] at hl
    · rcases eq_or_ne id k with rfl | hne
      · rw [hj, AList.lookup_insert] at hjob'
        obtain rfl := Option.some.inj hjob'
        exact Or.inl ⟨by rw [hstatus]; rfl, AList.lookup_eq_none.mpr hk⟩
      · exact hsame (by rw [hj, AList.lookup_insert_ne hne]) job' hjob'
  | @dispatch k job₁ now generation recovery hjob₁ hstatus hj hd =>
    refine h.congr hes (by rw [deliveriesOf, hd, deliveriesOf]) (fun hl => ?_) fun job' hjob' => ?_
    · rcases eq_or_ne id k with rfl | hne
      · rw [hj, Table.lookup_modify, hjob₁] at hl
        cases hl
      · rwa [hj, Table.lookup_modify_of_ne hne] at hl
    · rcases eq_or_ne id k with rfl | hne
      · rw [hj, Table.lookup_modify, hjob₁] at hjob'
        obtain rfl := Option.some.inj hjob'
        refine Or.inr ⟨job₁, hjob₁, by rw [hstatus]; rfl, fun σ he => ?_⟩
        have hfinal := he.status
        rw [hstatus] at hfinal
        cases hfinal
      · exact hsame (by rw [hj, Table.lookup_modify_of_ne hne]) job' hjob'
  | progress hf hj hd =>
    refine h.congr hes (by rw [deliveriesOf, hd, deliveriesOf]) (fun hl => ?_) fun job' hjob' => ?_
    · rw [hj, Table.lookup_mapRows] at hl
      exact Option.map_eq_none_iff.mp hl
    · rw [hj, Table.lookup_mapRows] at hjob'
      obtain ⟨job₁, hjob₁, rfl⟩ := Option.map_eq_some_iff.mp hjob'
      obtain ⟨-, -, -, -, -, -, hr, he, hfin, hs⟩ := hf id job₁
      refine Or.inr ⟨job₁, hjob₁, ?_, fun σ hended => ?_⟩
      · rcases hs with hs | ⟨hin, hin'⟩
        · rw [hs]
        · rw [JobStatus.isFinal_of_isInflight hin, JobStatus.isFinal_of_isInflight hin']
      · have hs := hs.resolve_right fun hin => by
          rw [hended.status] at hin
          cases hin.1
        exact ⟨hs.trans hended.status, hr.trans hended.response, he.trans hended.error,
          hfin.trans hended.finishedAt⟩
  | @settle event job₁ owner σ hjob₁ hopen howner hcallback hversion hj hd =>
    rcases eq_or_ne id σ.job with rfl | hne
    · obtain ⟨hlog, hnone⟩ := h.unsettled job₁ hjob₁ hopen
      have hlookup : db'.jobs.lookup σ.job =
          some (job₁.settle σ.finishedAt σ.status σ.response σ.error) := by
        rw [hj, Table.lookup_modify, hjob₁]
        rfl
      have htold : settlementsOf σ.job (log ++ es) = [σ] := by
        rw [settlementsOf_append, hlog, hes]
        simp
      refine ⟨fun hl => ?_, fun job' hjob' hopen' => ?_, fun job' hjob' _ => ?_⟩
      · rw [hlookup] at hl
        cases hl
      · rw [hlookup] at hjob'
        obtain rfl := Option.some.inj hjob'
        cases hopen'
      · rw [hlookup] at hjob'
        obtain rfl := Option.some.inj hjob'
        exact ⟨σ, htold, ⟨rfl, rfl, rfl, rfl⟩, announced_of_delivered hd hnone⟩
    · have hes' : settlementsOf id es = [] := by
        rw [hes]
        simp [Ne.symm hne]
      have hlookup : db'.jobs.lookup id = db.jobs.lookup id := by
        rw [hj, Table.lookup_modify_of_ne hne]
      exact h.congr hes' (deliveriesOf_of_delivered hd hne) (fun hl => hlookup ▸ hl)
        (hsame hlookup)

theorem accounted_of_run (h : (gatewaySystem p).Run log g) : Accounted p log g.database id := by
  refine h.invariant (I := fun log g => Accounted p log g.database id) ?_ ?_
  · rintro _ rfl
    refine ⟨fun _ => ⟨rfl, rfl⟩, fun job hjob => ?_, fun job hjob => ?_⟩
    · cases hjob
    · cases hjob
  · intro log g a g' es _ ih hstep
    obtain ⟨σs, hc, hes⟩ := (effect_of_step hstep).change
    exact ih.change hc (hes id)

/-- The owner of a job in the transaction that settled it. -/
theorem exists_settledBy {σ : Settlement} (h : (gatewaySystem p).Run log g)
    (hσ : .settled σ ∈ log) : ∃ owner, SettledBy p log g σ owner ∧
      σ.callbackUrl = owner.callbackUrl ∧ σ.payloadVersion = owner.webhookPayloadVersion := by
  obtain ⟨pre, post, g₁, a, es, g₂, rfl, hrun, hstep, hmem, hpath⟩ := h.exists_step hσ
  obtain ⟨σs, hc, hes⟩ := (effect_of_step hstep).change
  have hσs : σ ∈ σs := by
    have hfilter : σ ∈ settlementsOf σ.job es :=
      List.mem_filterMap.mpr ⟨_, hmem, by simp [Event.settlementOf]⟩
    rw [hes, List.mem_filter] at hfilter
    exact hfilter.1
  cases hc with
  | @settle event job owner σ' hjob hopen howner hcallback hversion hj hd =>
    obtain rfl := List.mem_singleton.mp hσs
    exact ⟨owner, ⟨pre, post, g₁, a, es, g₂, job, rfl, hrun, hstep, hmem, hpath, hjob, howner⟩,
      hcallback, hversion⟩
  | keep | submit | dispatch | progress => cases hσs

/-- **Terminal immutability and one terminal event.** A job that has ended stays as it is in
whatever follows. It was settled exactly once; there is one delivery for it if its owner had a
callback URL in the transaction that settled it, and none otherwise. The type of that delivery is
the final status, and its payload holds when the job ended and, in the versions that carry them,
its response and error. There is none for a job that has not ended. -/
theorem settled_once (hrun : (gatewaySystem p).Run log g)
    (hjob : g.database.jobs.lookup id = some job) :
    (job.status.isFinal = true → ∀ log' g', (gatewaySystem p).Path g log' g' →
      ∃ job', g'.database.jobs.lookup id = some job' ∧ job'.status = job.status ∧
        job'.response = job.response ∧ job'.error = job.error ∧
        job'.finishedAt = job.finishedAt) ∧
    (job.status.isFinal = false → deliveriesOf g.database id = []) ∧
    ∀ status, job.status = .final status → ∃ σ owner, settlementsOf id log = [σ] ∧
      SettledBy p log g σ owner ∧ σ.status = status ∧ job.Ended σ ∧
      if owner.callbackUrl = "" then deliveriesOf g.database id = []
      else ∃ event d finishedAt, deliveriesOf g.database id = [(event, d)] ∧
        d.eventType = "job." ++ status.text ∧ job.finishedAt = some finishedAt ∧
        d.payload.get "completedAt" = some (.str (p.timestamp finishedAt)) ∧
        (owner.webhookPayloadVersion ≠ 2 →
          d.payload.get "response" = some (.ofOption job.response) ∧
          d.payload.get "error" = some (.ofOption job.error)) := by
  refine ⟨fun hfinal log' g' hpath => ended_of_path hpath hjob hfinal,
    fun hopen => ((accounted_of_run hrun).unsettled job hjob hopen).2, fun status hstatus => ?_⟩
  have hfinal : job.status.isFinal = true := by rw [hstatus]; rfl
  obtain ⟨σ, hσs, hended, hannounced⟩ := (accounted_of_run hrun).settled job hjob hfinal
  obtain ⟨hmem, rfl⟩ := mem_settlementsOf (hσs ▸ List.mem_singleton_self σ)
  obtain ⟨owner, hby, hcallback, hversion⟩ := exists_settledBy hrun hmem
  have hs : σ.status = status := JobStatus.final.inj (hended.status.symm.trans hstatus)
  refine ⟨σ, owner, hσs, hby, hs, hended, ?_⟩
  rw [Announced, hcallback] at hannounced
  split_ifs at hannounced ⊢
  · exact hannounced
  · obtain ⟨event, d, hd, htells⟩ := hannounced
    refine ⟨event, d, σ.finishedAt, hd, hs ▸ htells.eventType, hended.finishedAt,
      htells.completedAt, fun hne => ?_⟩
    rw [hended.response, hended.error]
    exact htells.outcome (hversion ▸ hne)

/-- A job that is not dispatched within 30 seconds ends once. -/
theorem settled_once_overdue :
    ∃ (g : AppState Unit) (log : List (Event Unit)) (job : Job),
      (gatewaySystem plainPlatform).Run log g ∧
        g.database.jobs.lookup (.numbered 5) = some job ∧ job.status = .final .failed ∧
        ∃ σ owner, settlementsOf (.numbered 5) log = [σ] ∧
          SettledBy plainPlatform log g σ owner ∧ σ.status = .failed := by
  obtain ⟨r, hr⟩ : ∃ r, (gatewaySystem plainPlatform).exec .init (connectActions ++ [submitAction,
      .tick (seconds 31), .maintain (.numbered 6), .maintain (.numbered 6)]) = some r :=
    ⟨_, rfl⟩
  have hfailed : ((gatewaySystem plainPlatform).exec .init (connectActions ++ [submitAction,
      .tick (seconds 31), .maintain (.numbered 6), .maintain (.numbered 6)])).any (fun r =>
        (r.1.database.jobs.lookup (.numbered 5)).any fun job => job.status = .final .failed) =
      true := by
    decide
  rw [hr, Option.any_some] at hfailed
  obtain ⟨job, hjob, hstatus⟩ := (Option.any_eq_true _ _).mp hfailed
  have hstatus : job.status = .final .failed := of_decide_eq_true hstatus
  have hrun : (gatewaySystem plainPlatform).Run r.2 r.1 := ⟨_, rfl, .of_exec hr⟩
  obtain ⟨-, -, hsettled⟩ := settled_once hrun hjob
  obtain ⟨σ, owner, hσs, hby, hs, -⟩ := hsettled .failed hstatus
  exact ⟨r.1, r.2, job, hrun, hjob, hstatus, σ, owner, hσs, hby, hs⟩

end ExecutionProvider.Gateway
