import ExecutionProvider.Protocol.JsonText
import ExecutionProvider.Gateway.Effect

/-!
# Admission of jobs

A user names each submission with an idempotency key. The first submission under a key makes a
job, if the user has not too many that have not ended; later ones return that job, whatever has
become of it and of its machine, when they are the same submission, and are refused otherwise.

## Main definitions

* `Job.Continues`: what no transaction changes about a job.
* `Database.Admitted`: the keys of a user are unique, and its jobs are not too many.
* `KeyValid`: the keys that are taken.

## Main results

* `Change.rows`: a transaction continues all jobs, or submits one that may be submitted.
* `submit_replay`: a submission under a key that has been used.
* `fingerprint_inj`: what a fingerprint tells apart.
* `admission`: admission in every run of the gateway.
-/

namespace ExecutionProvider.Gateway

variable {π : Type} {p : Platform π} {db db' : Database} {g g' : AppState π}
  {log es : List (Event π)} {id : Uuid} {job job' : Job}

/-! ### Jobs go on -/

/-- What no transaction changes about a job: who submitted it, and what. -/
structure Job.Continues (job job' : Job) : Prop where
  userId : job'.userId = job.userId
  machineId : job'.machineId = job.machineId
  idempotencyKey : job'.idempotencyKey = job.idempotencyKey
  requestHash : job'.requestHash = job.requestHash
  isFinal : job'.status.isFinal = false → job.status.isFinal = false

theorem Job.Continues.refl (job : Job) : job.Continues job := ⟨rfl, rfl, rfl, rfl, fun h => h⟩

theorem Job.Continues.trans {job'' : Job} (h : job.Continues job') (h' : job'.Continues job'') :
    job.Continues job'' :=
  ⟨h'.userId.trans h.userId, h'.machineId.trans h.machineId,
    h'.idempotencyKey.trans h.idempotencyKey, h'.requestHash.trans h.requestHash,
    fun hopen => h.isFinal (h'.isFinal hopen)⟩

theorem Job.Progress.continues (h : job.Progress job') : job.Continues job' := by
  refine ⟨h.userId, h.machineId, h.idempotencyKey, h.requestHash, fun hopen => ?_⟩
  rcases h.status with hs | ⟨hin, -⟩
  · rwa [hs] at hopen
  · exact JobStatus.isFinal_of_isInflight hin

/-- A transaction continues all jobs, or submits one that may be submitted. -/
theorem Change.rows {σs : List Settlement} (h : Change p db db' σs) :
    (∃ f : Uuid → Job → Job, db'.jobs = db.jobs.mapRows f ∧
      ∀ id job, db.jobs.lookup id = some job → job.Continues (f id job)) ∨
    ∃ id job, id ∉ db.jobs ∧ Admissible db job ∧ db'.jobs = db.jobs.insert id job := by
  cases h with
  | keep hj =>
    refine Or.inl ⟨fun _ job => job, ?_, fun _ job _ => .refl job⟩
    rw [hj, Table.mapRows_id]
  | @submit k job hk _ _ _ _ _ hj _ hadmissible => exact Or.inr ⟨k, job, hk, hadmissible, hj⟩
  | @dispatch k job₁ _ _ _ hjob₁ hstatus hj =>
    refine Or.inl ⟨_, hj, fun id job hjob => ?_⟩
    dsimp only
    split_ifs with hk
    · subst hk
      obtain rfl := Option.some.inj (hjob.symm.trans hjob₁)
      exact ⟨rfl, rfl, rfl, rfl, fun _ => by rw [hstatus]; rfl⟩
    · exact .refl job
  | progress hf hj => exact Or.inl ⟨_, hj, fun id job _ => (hf id job).continues⟩
  | @settle _ job₁ _ σ hjob₁ _ _ _ _ hj =>
    refine Or.inl ⟨_, hj, fun id job hjob => ?_⟩
    dsimp only
    split_ifs
    · exact ⟨rfl, rfl, rfl, rfl, nofun⟩
    · exact .refl job

/-- What a step of the gateway does to the jobs is one change. -/
theorem change_of_step {a : Action} (h : g.step p a = some (g', es)) :
    ∃ σs, Change p g.database g'.database σs := by
  cases effect_of_step h with
  | plain hc => exact ⟨_, hc⟩
  | upgrade _ _ hdb => exact ⟨[], hdb ▸ .keep rfl rfl⟩
  | refuse _ hdb => exact ⟨[], hdb ▸ .keep rfl rfl⟩
  | «open» _ _ hdb => exact ⟨[], hdb ▸ .keep rfl rfl⟩
  | turn _ ht hdb =>
    rw [hdb]
    cases ht with
    | plain hc => exact ⟨_, hc⟩
    | greet hdb => exact ⟨[], hdb ▸ .keep rfl rfl⟩
    | survey hdb => exact ⟨[], hdb ▸ .keep rfl rfl⟩
    | dispatch _ hjob hstatus _ _ hdb => exact ⟨[], hdb ▸ .dispatch hjob hstatus rfl rfl⟩
    | request hdb => exact ⟨[], hdb ▸ .keep rfl rfl⟩
    | recover hdb => exact ⟨[], hdb ▸ .keep rfl rfl⟩
    | answer _ _ _ hc hdb => exact ⟨_, hdb ▸ change_response hc⟩
    | acknowledge hdb => exact ⟨[], hdb ▸ .keep rfl rfl⟩
    | miss _ _ _ hdb => exact ⟨[], hdb ▸ .keep rfl rfl⟩
    | lose _ hc hdb => exact ⟨_, hdb ▸ change_finishTx hc⟩

theorem Change.continues {σs : List Settlement} (h : Change p db db' σs)
    (hjob : db.jobs.lookup id = some job) :
    ∃ job', db'.jobs.lookup id = some job' ∧ job.Continues job' := by
  rcases h.rows with ⟨f, hj, hf⟩ | ⟨k, job₁, hk, -, hj⟩
  · exact ⟨f id job, by rw [hj, Table.lookup_mapRows, hjob]; rfl, hf id job hjob⟩
  · have hne : id ≠ k := fun heq => hk (heq ▸ Table.mem_of_lookup hjob)
    exact ⟨job, by rw [hj, AList.lookup_insert_ne hne, hjob], .refl job⟩

/-- A job goes on along every path. -/
theorem continues_of_path (h : (gatewaySystem p).Path g log g')
    (hjob : g.database.jobs.lookup id = some job) :
    ∃ job', g'.database.jobs.lookup id = some job' ∧ job.Continues job' := by
  induction h with
  | refl => exact ⟨job, hjob, .refl job⟩
  | tail _ hstep ih =>
    obtain ⟨job₁, hjob₁, hcont⟩ := ih
    obtain ⟨σs, hc⟩ := change_of_step hstep
    obtain ⟨job₂, hjob₂, hcont'⟩ := hc.continues hjob₁
    exact ⟨job₂, hjob₂, hcont.trans hcont'⟩

/-! ### Keys and capacity -/

/-- The keys of a user are unique, and its jobs that have not ended are not too many. -/
structure Database.Admitted (db : Database) : Prop where
  unique : ∀ id job id' job', db.jobs.lookup id = some job → db.jobs.lookup id' = some job' →
    job.userId = job'.userId → job.idempotencyKey = job'.idempotencyKey → id = id'
  capacity : ∀ user, (pendingJobs db user).length ≤ maxPendingJobs

theorem Database.admitted_empty : Database.empty.Admitted := by
  refine ⟨fun id job _ _ hjob => ?_, fun user => Nat.zero_le _⟩
  rw [Database.empty, AList.lookup_empty] at hjob
  cases hjob

theorem Database.Admitted.mapRows {f : Uuid → Job → Job} (h : db.Admitted)
    (hf : ∀ id job, db.jobs.lookup id = some job → job.Continues (f id job))
    (hj : db'.jobs = db.jobs.mapRows f) : db'.Admitted := by
  refine ⟨fun id job id' job' hjob hjob' huser hkey => ?_, fun user => ?_⟩
  · rw [hj, Table.lookup_mapRows] at hjob hjob'
    obtain ⟨job₁, hjob₁, rfl⟩ := Option.map_eq_some_iff.mp hjob
    obtain ⟨job₂, hjob₂, rfl⟩ := Option.map_eq_some_iff.mp hjob'
    have h₁ := hf id job₁ hjob₁
    have h₂ := hf id' job₂ hjob₂
    rw [h₁.userId, h₂.userId] at huser
    rw [h₁.idempotencyKey, h₂.idempotencyKey] at hkey
    exact h.unique id job₁ id' job₂ hjob₁ hjob₂ huser hkey
  · refine le_trans ?_ (h.capacity user)
    rw [pendingJobs, pendingJobs, hj]
    refine Table.length_select_mapRows_le fun e he hpending => ?_
    have hcont := hf e.1 e.2 (AList.mem_lookup_iff.mpr he)
    simp only [Bool.and_eq_true, decide_eq_true_eq, Bool.not_eq_true'] at hpending ⊢
    exact ⟨hcont.userId ▸ hpending.1, hcont.isFinal hpending.2⟩

theorem Database.Admitted.insert (h : db.Admitted) (hid : id ∉ db.jobs)
    (hadmissible : Admissible db job) (hj : db'.jobs = db.jobs.insert id job) :
    db'.Admitted := by
  have hother {k : Uuid} {job₁ : Job} (hne : k ≠ id) (hk : db'.jobs.lookup k = some job₁) :
      db.jobs.lookup k = some job₁ := by
    rwa [hj, AList.lookup_insert_ne hne] at hk
  have hself {job₁ : Job} (hk : db'.jobs.lookup id = some job₁) : job₁ = job := by
    rw [hj, AList.lookup_insert] at hk
    exact (Option.some.inj hk).symm
  refine ⟨fun k job₁ k' job₂ hjob₁ hjob₂ huser hkey => ?_, fun user => ?_⟩
  · rcases eq_or_ne k id with rfl | hne
    · rcases eq_or_ne k' k with rfl | hne'
      · rfl
      · obtain rfl := hself hjob₁
        exact absurd hkey.symm (hadmissible.unclaimed k' job₂ (hother hne' hjob₂) huser.symm)
    · rcases eq_or_ne k' id with rfl | hne'
      · obtain rfl := hself hjob₂
        exact absurd hkey (hadmissible.unclaimed k job₁ (hother hne hjob₁) huser)
      · exact h.unique k job₁ k' job₂ (hother hne hjob₁) (hother hne' hjob₂) huser hkey
  · rw [pendingJobs, hj, Table.select_insert hid]
    split_ifs with hpending
    · simp only [Bool.and_eq_true, decide_eq_true_eq] at hpending
      have hcapacity := hadmissible.capacity
      rw [hpending.1, pendingJobs] at hcapacity
      exact hcapacity
    · exact h.capacity user

theorem Change.admitted {σs : List Settlement} (hc : Change p db db' σs) (h : db.Admitted) :
    db'.Admitted := by
  rcases hc.rows with ⟨f, hj, hf⟩ | ⟨k, job, hk, hadmissible, hj⟩
  · exact h.mapRows hf hj
  · exact h.insert hk hadmissible hj

/-- In every run the keys of a user are unique, and its jobs are not too many. -/
theorem admitted_of_run (hrun : (gatewaySystem p).Run log g) : g.database.Admitted := by
  refine hrun.invariant (I := fun _ g => g.database.Admitted) ?_ ?_
  · rintro s rfl
    exact Database.admitted_empty
  · intro log s a t es _ hs hstep
    obtain ⟨σs, hc⟩ := change_of_step hstep
    exact hc.admitted hs

/-! ### Submissions -/

/-- The keys under which jobs are submitted. -/
def KeyValid (key : String) : Prop :=
  ¬(key = "" ∨ 200 < key.utf8ByteSize ∨ key.toList.any fun c => isWhitespace c || c.toNat == 0)

/-- The fingerprint of a submission, given the normal form of its request. -/
def Submission.fingerprint (p : Platform π) (input : Submission) (request : Json) : String :=
  Gateway.fingerprint p input.machineId request (input.clientContext.map .obj)

variable {now : ℕ} {generation : Option Uuid} {user : Uuid} {input : Submission} {request : Json}

theorem lookup_of_insertJob {requestHash : String} {c : Committed (Uuid × JobStatus)}
    (h : insertJob p now db generation id user input request requestHash = .ok c) :
    c.value = (id, .queued) ∧
      c.database.jobs.lookup id = some (newJob now user input requestHash) := by
  unfold insertJob at h
  split at h
  · cases h
  · cases h
  · split at h
    · cases h
    split at h
    · cases h
    split at h
    · cases h
    split at h
    · cases h
    split at h
    · cases h
    split at h
    · cases h
    · obtain rfl := Except.ok.inj h
      exact ⟨rfl, AList.lookup_insert _⟩

/-- A submission that is accepted has a valid key and a request in normal form, and is answered
with a job of the user under this key that has the fingerprint of the submission. -/
theorem submit_cases {c : Committed (Uuid × JobStatus)}
    (h : submit p now db generation id user input = .ok c) :
    KeyValid input.idempotencyKey ∧ ∃ request job, normalize p input.request = .ok request ∧
      c.database.jobs.lookup c.value.1 = some job ∧ job.userId = user ∧
      job.idempotencyKey = input.idempotencyKey ∧
      job.requestHash = input.fingerprint p request ∧ c.value.2 = job.status := by
  unfold submit at h
  dsimp only at h
  split at h
  · cases h
  next hkey =>
  split at h
  · cases h
  next request hrequest =>
  refine ⟨hkey, request, ?_⟩
  split at h
  · next known job hhead =>
    have hrow := Table.mem_select_iff.mp (List.mem_of_head? hhead)
    simp only [Bool.and_eq_true, decide_eq_true_eq] at hrow
    split at h
    · next hhash =>
      obtain rfl := Except.ok.inj h
      exact ⟨job, hrequest, hrow.1, hrow.2.1, hrow.2.2, hhash, rfl⟩
    · cases h
  · obtain ⟨hvalue, hjob⟩ := lookup_of_insertJob h
    refine ⟨newJob now user input (input.fingerprint p request), hrequest, ?_, rfl, rfl, rfl, ?_⟩
    · rw [hvalue]
      exact hjob
    · rw [hvalue]
      rfl

/-- A submission under a key that has been used is answered with the job of that key, or refused.
The machine, its host and the number of jobs do not matter. -/
theorem submit_replay (hdb : db.Admitted) (hkey : KeyValid input.idempotencyKey)
    (hrequest : normalize p input.request = .ok request) (hjob : db.jobs.lookup id = some job)
    (huser : job.userId = user) (hjobKey : job.idempotencyKey = input.idempotencyKey)
    (fresh : Uuid) :
    submit p now db generation fresh user input =
      if job.requestHash = input.fingerprint p request then .commit (id, job.status) db
      else .error (.conflict "idempotency_conflict"
        "idempotency key was used with different input") := by
  have hmem : (id, job) ∈ db.jobs.select fun _ job =>
      job.userId = user && job.idempotencyKey = input.idempotencyKey :=
    Table.mem_select_iff.mpr ⟨hjob, by simp [huser, hjobKey]⟩
  have hhead : (db.jobs.select fun _ job =>
      job.userId = user && job.idempotencyKey = input.idempotencyKey).head? = some (id, job) := by
    obtain ⟨row, rows, hrows⟩ := List.exists_cons_of_ne_nil (List.ne_nil_of_mem hmem)
    obtain ⟨known, job'⟩ := row
    have hknown := Table.mem_select_iff.mp (hrows ▸ List.mem_cons_self)
    simp only [Bool.and_eq_true, decide_eq_true_eq] at hknown
    obtain rfl : known = id := hdb.unique known job' id job hknown.1 hjob
      (hknown.2.1.trans huser.symm) (hknown.2.2.trans hjobKey.symm)
    obtain rfl := Option.some.inj (hknown.1.symm.trans hjob)
    rw [hrows, List.head?_cons]
  unfold submit
  dsimp only
  rw [if_neg hkey, hrequest]
  dsimp only
  rw [hhead]
  rfl

/-! ### Fingerprints -/

/-- The object of which the digest is taken. -/
def fingerprintObject (machine : Uuid) (request : Json) (context : Option Json) : Json :=
  .mkObj <| [("machineId", .str machine.text), ("request", request)] ++
    context.toList.map fun context => ("clientContext", context)

theorem get_fingerprintObject (machine : Uuid) (request : Json) (context : Option Json) :
    (fingerprintObject machine request context).get "machineId" = some (.str machine.text) ∧
      (fingerprintObject machine request context).get "request" = some request ∧
      (fingerprintObject machine request context).get "clientContext" = context := by
  cases context with
  | none =>
    exact ⟨Json.get_mkObj (by simp) (by simp), Json.get_mkObj (by simp) (by simp),
      Json.get_mkObj_of_notMem (by simp)⟩
  | some context =>
    exact ⟨Json.get_mkObj (by simp) (by simp), Json.get_mkObj (by simp) (by simp),
      Json.get_mkObj (by simp) (by simp)⟩

/-- Fingerprints are equal exactly when the machine, the request and the context are, when
neither the digest nor the writing of JSON confuses two inputs. -/
theorem fingerprint_inj (hsha : Function.Injective p.sha256)
    (htext : Function.Injective p.jsonText) {machine machine' : Uuid} {request request' : Json}
    {context context' : Option Json} :
    fingerprint p machine request context = fingerprint p machine' request' context' ↔
      machine = machine' ∧ request = request' ∧ context = context' := by
  constructor
  · intro h
    have hobject : fingerprintObject machine request context =
        fingerprintObject machine' request' context' := htext (hsha h)
    obtain ⟨hmachine, hrequest, hcontext⟩ := get_fingerprintObject machine request context
    obtain ⟨hmachine', hrequest', hcontext'⟩ := get_fingerprintObject machine' request' context'
    rw [hobject] at hmachine hrequest hcontext
    refine ⟨?_, Option.some.inj (hrequest.symm.trans hrequest'), hcontext.symm.trans hcontext'⟩
    exact Uuid.text_injective (Json.str.inj (Option.some.inj (hmachine.symm.trans hmachine')))
  · rintro ⟨rfl, rfl, rfl⟩
    rfl

/-! ### Admission in a run -/

theorem eq_of_step_api {a : ApiAction} (h : g.step p (.api a) = some (g', es)) :
    g.api p a = (g', es) := by
  unfold AppState.step at h
  split at h
  · cases h
  · split at h
    · next heq => cases heq
    · next heq _ => cases heq
    · next heq => cases heq
    · next heq => cases heq
    · exact Option.some.inj h
    · cases h

/-- A submission that is accepted leaves a job that goes on for ever. -/
theorem lookup_of_submitted {c : Committed (Uuid × JobStatus)} {log' : List (Event π)}
    {g₁ : AppState π}
    (hstep : (gatewaySystem p).step g (.api (.submit id user input)) = some (g₁, es))
    (hc : submit p g.clock g.database (g.generation input.machineId) id user input = .ok c)
    (hpath : (gatewaySystem p).Path g₁ log' g') :
    KeyValid input.idempotencyKey ∧ ∃ request job, normalize p input.request = .ok request ∧
      g'.database.jobs.lookup c.value.1 = some job ∧ job.userId = user ∧
      job.idempotencyKey = input.idempotencyKey ∧
      job.requestHash = input.fingerprint p request := by
  obtain ⟨hkey, request, job, hrequest, hjob, huser, hjobKey, hhash, -⟩ := submit_cases hc
  have hdb : c.database = g₁.database := by
    have happly := eq_of_step_api hstep
    rw [AppState.api, hc] at happly
    rw [← (Prod.mk.inj happly).1]
  obtain ⟨job', hjob', hcont⟩ := continues_of_path hpath (hdb ▸ hjob)
  exact ⟨hkey, request, job', hrequest, hjob', hcont.userId.trans huser,
    hcont.idempotencyKey.trans hjobKey, hcont.requestHash.trans hhash⟩

/-- **Admission.** In every state of a run there is at most one job for a user and an idempotency
key, and no user has more jobs that have not ended than are allowed. A submission that was
accepted has a job, and from then on, whatever happens, a submission of the same user under the
same key changes nothing: when it has the same fingerprint it is answered with that job, and
otherwise refused. When neither the digest nor the writing of JSON confuses two inputs,
fingerprints are the same exactly for the same machine, request in normal form and context. -/
theorem admission (hrun : (gatewaySystem p).Run log g) :
    (∀ id job id' job', g.database.jobs.lookup id = some job →
      g.database.jobs.lookup id' = some job' → job.userId = job'.userId →
      job.idempotencyKey = job'.idempotencyKey → id = id') ∧
    (∀ user, (pendingJobs g.database user).length ≤ maxPendingJobs) ∧
    (∀ id user input c g₁ es log' g',
      (gatewaySystem p).step g (.api (.submit id user input)) = some (g₁, es) →
      submit p g.clock g.database (g.generation input.machineId) id user input = .ok c →
      (gatewaySystem p).Path g₁ log' g' →
      ∃ request job, normalize p input.request = .ok request ∧
        g'.database.jobs.lookup c.value.1 = some job ∧
        ∀ generation fresh input' request', input'.idempotencyKey = input.idempotencyKey →
          normalize p input'.request = .ok request' →
          submit p g'.clock g'.database generation fresh user input' =
            (if input.fingerprint p request = input'.fingerprint p request' then
              .commit (c.value.1, job.status) g'.database
            else .error (.conflict "idempotency_conflict"
              "idempotency key was used with different input")) ∧
          g'.api p (.submit fresh user input') = (g', [])) ∧
    (Function.Injective p.sha256 → Function.Injective p.jsonText →
      ∀ (input input' : Submission) (request request' : Json),
        input.fingerprint p request = input'.fingerprint p request' ↔
          input.machineId = input'.machineId ∧ request = request' ∧
            input.clientContext = input'.clientContext) := by
  have hadmitted := admitted_of_run hrun
  refine ⟨hadmitted.unique, hadmitted.capacity, ?_,
    fun hsha htext input input' request request' => ?_⟩
  · intro id user input c g₁ es log' g' hstep hc hpath
    obtain ⟨hkey, request, job, hrequest, hjob, huser, hjobKey, hhash⟩ :=
      lookup_of_submitted hstep hc hpath
    have hadmitted' := admitted_of_run ((hrun.tail hstep).path hpath)
    refine ⟨request, job, hrequest, hjob,
      fun generation fresh input' request' hsame hrequest' => ?_⟩
    have hreplay (generation : Option Uuid) :
        submit p g'.clock g'.database generation fresh user input' =
          if input.fingerprint p request = input'.fingerprint p request' then
            .commit (c.value.1, job.status) g'.database
          else .error (.conflict "idempotency_conflict"
            "idempotency key was used with different input") := by
      rw [submit_replay hadmitted' (hsame ▸ hkey) hrequest' hjob huser
        (hjobKey.trans hsame.symm) fresh, hhash]
    refine ⟨hreplay generation, ?_⟩
    rw [AppState.api, hreplay]
    split_ifs <;> rfl
  · have hobj : Function.Injective (Option.map Json.obj) :=
      Option.map_injective fun _ _ h => Json.obj.inj h
    rw [Submission.fingerprint, Submission.fingerprint, fingerprint_inj hsha htext, hobj.eq_iff]

/-- Requests without content, and JSON as it is written. -/
def textPlatform : Platform Unit := { plainPlatform with jsonText := Json.text }

/-- A submission without a context. -/
def plainSubmission : Submission := ⟨.numbered 2, "key", none, .obj []⟩

/-- A job has failed because it was not dispatched, and its machine is gone. The same submission
still gets this job, and one with a context is refused. -/
theorem admission_failed :
    ∃ (g : AppState Unit) (job : Job), (gatewaySystem textPlatform).Reachable g ∧
      g.database.jobs.lookup (.numbered 5) = some job ∧ job.status = .final .failed ∧
      submit textPlatform g.clock g.database none (.numbered 6) (.numbered 1) plainSubmission =
        .commit (.numbered 5, job.status) g.database ∧
      submit textPlatform g.clock g.database none (.numbered 6) (.numbered 1)
          { plainSubmission with clientContext := some [] } =
        .error (.conflict "idempotency_conflict"
          "idempotency key was used with different input") := by
  obtain ⟨g, log, c, g₁, es, g', log', hg, hc, hstep, hpath, hvalue, hfailed⟩ :
      ∃ g log c g₁ es g' log', (gatewaySystem textPlatform).exec .init connectActions =
          some (g, log) ∧
        submit textPlatform g.clock g.database (g.generation (.numbered 2)) (.numbered 5)
          (.numbered 1) plainSubmission = .ok c ∧
        (gatewaySystem textPlatform).step g submitAction = some (g₁, es) ∧
        (gatewaySystem textPlatform).exec g₁ [.tick (seconds 31), .maintain (.numbered 6),
          .maintain (.numbered 6)] = some (g', log') ∧ c.value.1 = .numbered 5 ∧
        (g'.database.jobs.lookup (.numbered 5)).any (fun job => job.status = .final .failed) =
          true :=
    ⟨_, _, _, _, _, _, _, rfl, rfl, rfl, rfl, rfl, by decide⟩
  have hrun : (gatewaySystem textPlatform).Run log g := ⟨_, rfl, .of_exec hg⟩
  have hpath := System.Path.of_exec hpath
  obtain ⟨-, -, hreplay, hinj⟩ := admission hrun
  obtain ⟨request, job, hrequest, hjob, hsame⟩ :=
    hreplay (.numbered 5) (.numbered 1) plainSubmission c g₁ es log' g' hstep hc hpath
  rw [hvalue] at hjob hsame
  rw [hjob, Option.any_some] at hfailed
  refine ⟨g', job, ⟨_, (hrun.tail hstep).path hpath⟩, hjob, of_decide_eq_true hfailed, ?_, ?_⟩
  · rw [(hsame none (.numbered 6) plainSubmission request rfl hrequest).1, if_pos rfl]
  · rw [(hsame none (.numbered 6) { plainSubmission with clientContext := some [] } request rfl
      hrequest).1, if_neg]
    rw [hinj (fun _ _ h => h) Json.text_injective]
    exact fun h => Option.some_ne_none _ h.2.2.symm

end ExecutionProvider.Gateway
