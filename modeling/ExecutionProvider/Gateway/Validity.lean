import ExecutionProvider.Gateway.TerminalEvents

/-!
# What holds in every state of the gateway

The transactions of the gateway rely on some order in the database and in the sessions: there is
an owner for every machine and every job, a job that has not ended has no response, and a session
only holds jobs that were dispatched.

## Main definitions

* `AppState.Valid`: the order that the transactions rely on.

## Main results

* `Valid.step`: every step keeps it.
* `credentialVersion_le_of_path`: the version of a credential never falls.
-/

namespace ExecutionProvider.Gateway

variable {π : Type} {p : Platform π} {g g' : AppState π} {log es : List (Event π)} {id : Uuid}

/-- A job that was submitted and dispatched. -/
def Database.Dispatched (db : Database) (id : Uuid) : Prop :=
  ∃ job, db.jobs.lookup id = some job ∧ job.status ≠ .queued

/-- The jobs have owners, and no response before they end. -/
structure Database.JobsValid (db : Database) : Prop where
  owners : ∀ id job, db.jobs.lookup id = some job → job.userId ∈ db.users
  responses : ∀ id job, db.jobs.lookup id = some job → job.status.isFinal = false →
    job.response = none

/-- The order that the transactions rely on. -/
structure AppState.Valid (g : AppState π) : Prop where
  versions : g.database.VersionsValid
  machines : g.database.MachinesOwned
  jobs : g.database.JobsValid
  sessions : ∀ m s, g.live.lookup m = some s → ∀ id ∈ s.jobs, g.database.Dispatched id

/-! ### Changes of the jobs -/

section

variable {db db' : Database} {σs : List Settlement}

/-- A job that was dispatched stays so. -/
theorem Change.dispatched (h : Change p db db' σs) (hid : db.Dispatched id) :
    db'.Dispatched id := by
  obtain ⟨job, hjob, hne⟩ := hid
  cases h with
  | keep hj => exact ⟨job, by rw [hj, hjob], hne⟩
  | @submit k _ hk _ _ _ _ _ hj =>
    have hdiff : id ≠ k := fun heq => hk (heq ▸ Table.mem_of_lookup hjob)
    exact ⟨job, by rw [hj, AList.lookup_insert_ne hdiff, hjob], hne⟩
  | @dispatch k job₁ now generation recovery _ _ hj =>
    rcases eq_or_ne id k with rfl | hdiff
    · exact ⟨job.dispatch now generation recovery, by rw [hj, Table.lookup_modify, hjob]; rfl,
        nofun⟩
    · exact ⟨job, by rw [hj, Table.lookup_modify_of_ne hdiff, hjob], hne⟩
  | progress hf hj =>
    refine ⟨_, by rw [hj, Table.lookup_mapRows, hjob]; rfl, ?_⟩
    rcases (hf id job).status with hs | ⟨-, hin⟩
    · rwa [hs]
    · exact JobStatus.ne_queued_of_isInflight hin
  | @settle event job₁ user σ _ _ _ _ _ hj =>
    rcases eq_or_ne id σ.job with rfl | hdiff
    · exact ⟨job.settle σ.finishedAt σ.status σ.response σ.error,
        by rw [hj, Table.lookup_modify, hjob]; rfl, nofun⟩
    · exact ⟨job, by rw [hj, Table.lookup_modify_of_ne hdiff, hjob], hne⟩

/-- A job after a change is one that was submitted in it, or it has kept its owner, and a response
unless it was settled. -/
theorem Change.lookup (h : Change p db db' σs) {job' : Job}
    (hjob' : db'.jobs.lookup id = some job') :
    (job'.userId ∈ db.users ∧ job'.response = none) ∨
    ∃ job, db.jobs.lookup id = some job ∧ job'.userId = job.userId ∧
      (job'.status.isFinal = false →
        job.status.isFinal = false ∧ job'.response = job.response) := by
  cases h with
  | keep hj => exact Or.inr ⟨job', hj ▸ hjob', rfl, fun hopen => ⟨hopen, rfl⟩⟩
  | @submit k job _ _ _ hresponse _ huser hj =>
    rcases eq_or_ne id k with rfl | hdiff
    · rw [hj, AList.lookup_insert] at hjob'
      obtain rfl := Option.some.inj hjob'
      exact Or.inl ⟨huser, hresponse⟩
    · rw [hj, AList.lookup_insert_ne hdiff] at hjob'
      exact Or.inr ⟨job', hjob', rfl, fun hopen => ⟨hopen, rfl⟩⟩
  | @dispatch k job₁ now generation recovery hjob₁ hstatus hj =>
    rcases eq_or_ne id k with rfl | hdiff
    · rw [hj, Table.lookup_modify, hjob₁] at hjob'
      obtain rfl := Option.some.inj hjob'
      exact Or.inr ⟨job₁, hjob₁, rfl, fun _ => ⟨by rw [hstatus]; rfl, rfl⟩⟩
    · rw [hj, Table.lookup_modify_of_ne hdiff] at hjob'
      exact Or.inr ⟨job', hjob', rfl, fun hopen => ⟨hopen, rfl⟩⟩
  | progress hf hj =>
    rw [hj, Table.lookup_mapRows] at hjob'
    obtain ⟨job, hjob, rfl⟩ := Option.map_eq_some_iff.mp hjob'
    have hp := hf id job
    refine Or.inr ⟨job, hjob, hp.userId, fun hopen => ⟨?_, hp.response⟩⟩
    rcases hp.status with hs | ⟨hin, -⟩
    · rwa [← hs]
    · exact JobStatus.isFinal_of_isInflight hin
  | @settle event job₁ user σ hjob₁ hopen _ _ _ hj =>
    rcases eq_or_ne id σ.job with rfl | hdiff
    · rw [hj, Table.lookup_modify, hjob₁] at hjob'
      obtain rfl := Option.some.inj hjob'
      exact Or.inr ⟨job₁, hjob₁, rfl, nofun⟩
    · rw [hj, Table.lookup_modify_of_ne hdiff] at hjob'
      exact Or.inr ⟨job', hjob', rfl, fun hopen => ⟨hopen, rfl⟩⟩

theorem Database.JobsValid.change (h : db.JobsValid) (hc : Change p db db' σs)
    (ht : Tended db db') : db'.JobsValid := by
  constructor
  · intro id job' hjob'
    rcases hc.lookup hjob' with ⟨huser, -⟩ | ⟨job, hjob, huser, -⟩
    · exact ht.users _ huser
    · rw [huser]
      exact ht.users _ (h.owners id job hjob)
  · intro id job' hjob' hopen
    rcases hc.lookup hjob' with ⟨-, hresponse⟩ | ⟨job, hjob, -, hkeep⟩
    · exact hresponse
    · obtain ⟨hopen, hresponse⟩ := hkeep hopen
      rw [hresponse, h.responses id job hjob hopen]

end

/-! ### Steps -/

theorem Effect.tended {a : Action} (h : Effect p g g' a es) : Tended g.database g'.database := by
  cases h with
  | plain _ ht => exact ht
  | upgrade _ _ hdb => exact hdb ▸ .refl _
  | refuse _ hdb => exact hdb ▸ .refl _
  | «open» _ _ hdb => exact hdb ▸ .refl _
  | turn _ ht hdb =>
    rw [hdb]
    cases ht with
    | plain _ ht => exact ht
    | greet hdb => exact hdb ▸ .refl _
    | survey hdb => exact hdb ▸ .refl _
    | dispatch _ _ _ _ _ hdb => exact hdb ▸ .of_same rfl rfl
    | request hdb => exact hdb ▸ .refl _
    | recover hdb => exact hdb ▸ .refl _
    | answer _ _ _ hc hdb =>
      rw [hdb]
      obtain ⟨job, -, -, -, -, ⟨-, h⟩ | ⟨-, h⟩⟩ := response_cases hc
      · exact tended_finishTx h
      · exact tended_finishTx h
    | acknowledge hdb => exact hdb ▸ .refl _
    | miss _ _ _ hdb => exact hdb ▸ .refl _
    | lose _ hc hdb => exact hdb ▸ tended_finishTx hc

/-- The jobs of a session after its step are those before, or were dispatched. -/
theorem TurnEffect.jobs_subset {now : ℕ} {db : Database} {machine : Uuid} {s : Session π}
    {t : Turn π} {a : SessionAction} (h : TurnEffect p now db machine s t a)
    (hid : id ∈ t.session.jobs) : id ∈ s.jobs ∨ t.database.Dispatched id := by
  cases h with
  | plain _ _ _ hs => exact Or.inl (hs.jobs hid)
  | greet _ hs => exact Or.inl (hs.jobs hid)
  | request _ _ hs => exact Or.inl (hs.jobs hid)
  | recover _ _ hs => exact Or.inl (hs.jobs hid)
  | acknowledge _ _ hs => exact Or.inl (hs.jobs hid)
  | lose _ _ _ hs => exact Or.inl (hs.jobs hid)
  | survey hdb _ _ hs =>
    rw [hs] at hid
    rcases List.mem_append.mp hid with hid | hid
    · exact Or.inl (s.pending_subset_jobs hid)
    · obtain ⟨row, hrow, rfl⟩ := List.mem_map.mp hid
      obtain ⟨job, hjob, hin, -⟩ := lookup_of_reconnectRows hrow
      exact Or.inr ⟨job, hdb ▸ hjob, JobStatus.ne_queued_of_isInflight hin⟩
  | @dispatch a id' job request _ hjob _ _ _ hdb hs =>
    rw [hs] at hid
    rcases List.mem_append.mp hid with hid | hid
    · exact Or.inl (s.pending_subset_jobs hid)
    · obtain rfl := List.mem_singleton.mp hid
      exact Or.inr ⟨job.dispatch now s.generation s.recovery,
        by rw [hdb, Table.lookup_modify, hjob]; rfl, nofun⟩
  | answer _ _ _ _ _ hs =>
    rw [hs] at hid
    rcases List.mem_append.mp hid with hid | hid
    · exact Or.inl (s.pending_subset_jobs hid)
    · cases hid
  | miss _ _ hpending _ hs =>
    rw [hs] at hid
    refine Or.inl (s.pending_subset_jobs ?_)
    rcases List.mem_append.mp hid with hid | hid
    · exact List.erase_subset hid
    · rwa [List.mem_singleton.mp hid]

/-- Every step keeps the order that the transactions rely on. -/
theorem AppState.Valid.step {a : Action} (h : g.Valid) (hstep : g.step p a = some (g', es)) :
    g'.Valid := by
  have he := effect_of_step hstep
  have ht := he.tended
  obtain ⟨σs, hc, -⟩ := he.change
  refine ⟨ht.versions h.versions, ht.machines h.machines, h.jobs.change hc ht, ?_⟩
  intro m s' hs' id hid
  cases he with
  | plain _ _ _ hl =>
    obtain ⟨s, hs, hwithin⟩ := hl m s' hs'
    exact hc.dispatched (h.sessions m s hs id (hwithin.jobs hid))
  | upgrade _ _ _ hl => exact hc.dispatched (h.sessions m s' (hl ▸ hs') id hid)
  | refuse _ _ hl => exact hc.dispatched (h.sessions m s' (hl ▸ hs') id hid)
  | @«open» connection hello k _ _ _ hl =>
    rw [hl] at hs'
    rcases eq_or_ne m k.machine with rfl | hne
    · rw [AList.lookup_insert] at hs'
      obtain rfl := Option.some.inj hs'
      cases hid
    · rw [AList.lookup_insert_ne hne] at hs'
      exact hc.dispatched (h.sessions m s' hs' id hid)
  | @turn machine b s t hs ht hdb hl =>
    rw [hl] at hs'
    rcases eq_or_ne m machine with rfl | hne
    · rw [AList.lookup_insert] at hs'
      obtain rfl := Option.some.inj hs'
      rcases ht.jobs_subset hid with hold | hnew
      · exact hc.dispatched (h.sessions m s hs id hold)
      · exact hdb ▸ hnew
    · rw [AList.lookup_insert_ne hne] at hs'
      exact hc.dispatched (h.sessions m s' hs' id hid)

theorem AppState.Valid.init : (AppState.init : AppState π).Valid := by
  refine ⟨fun _ _ h => ?_, fun _ _ h => ?_, ⟨fun _ _ h => ?_, fun _ _ h => ?_⟩, fun _ _ h => ?_⟩
  · cases h
  · cases h
  · cases h
  · cases h
  · cases h

/-- The version of the credential of a machine never falls. -/
theorem credentialVersion_le_of_path {machine : Uuid} {m : Machine}
    (h : (gatewaySystem p).Path g log g') (hm : g.database.machines.lookup machine = some m) :
    ∃ m', g'.database.machines.lookup machine = some m' ∧
      m.credentialVersion ≤ m'.credentialVersion := by
  refine h.preserves (I := fun g' => ∃ m', g'.database.machines.lookup machine = some m' ∧
    m.credentialVersion ≤ m'.credentialVersion) ?_ ⟨m, hm, le_rfl⟩
  rintro t a u es ⟨m₁, hm₁, hle₁⟩ hstep
  obtain ⟨m₂, hm₂, hle₂⟩ := (effect_of_step hstep).tended.credentials machine m₁ hm₁
  exact ⟨m₂, hm₂, hle₁.trans hle₂⟩

end ExecutionProvider.Gateway
