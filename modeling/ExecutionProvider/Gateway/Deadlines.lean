import ExecutionProvider.Gateway.Handover

/-!
# The recovery windows of live sessions

A job that a session may ask the host about was dispatched to the runtime of the session, or has
ended. So when the host says in time that it has the request of the job, its recovery window
closes. The window of a job opens in the teardown of a session of its machine, or when a process
starts, but not while another session of the machine is live.

## Main definitions

* `Database.Held`, `Database.Clear`, `Database.Shut`: what the rows of jobs say about their hosts
  and recovery windows.
* `Session.asks`: the jobs that a session may ask the host about.
* `Slots.Windowed`: the jobs of the live sessions.
* `SlotEvent.Ordered`: the sessions of a machine follow each other.

## Main results

* `Windowed.of_run`: the jobs of the live sessions, along every run.
* `one_session`: one session for each machine, one after the other, with no recovery window for
  the jobs of the live one.
-/

namespace ExecutionProvider.Gateway

open Protocol

variable {π : Type} {p : Platform π}

/-! ### Rows -/

/-- A job that was dispatched to a runtime which keeps receipts, unless it has ended. -/
def Database.Held (db : Database) (machine generation id : Uuid) : Prop :=
  ∃ job, db.jobs.lookup id = some job ∧ job.status ≠ .queued ∧ job.machineId = machine ∧
    (job.status.isFinal = true ∨
      job.runtimeGenerationId = some generation ∧ job.responseRecovery = true)

/-- A job that was dispatched to a machine and has no recovery window. -/
def Database.Clear (db : Database) (machine id : Uuid) : Prop :=
  ∃ job, db.jobs.lookup id = some job ∧ job.status ≠ .queued ∧ job.machineId = machine ∧
    job.recoveryExpiresAt = none

/-- Only jobs that are under way have recovery windows. -/
def Database.Shut (db : Database) : Prop :=
  ∀ id job, db.jobs.lookup id = some job → job.status.isInflight = false →
    job.recoveryExpiresAt = none

section

variable {db db' : Database} {now : ℕ} {machine machine' generation id : Uuid} {job job' : Job}

theorem Job.Calm.machineId (h : job.Calm job') : job'.machineId = job.machineId := by
  cases h <;> rfl

theorem Job.Calm.dispatched (h : job.Calm job') (hne : job.status ≠ .queued) :
    job'.status ≠ .queued := by
  cases h with
  | keep => exact hne
  | dispatch hqueued => exact absurd hqueued hne
  | accept => simp [Job.accept]
  | settle => simp [Job.settle]

theorem Database.Shut.calm (h : db.Shut) (hcalm : Calm db db') : db'.Shut := by
  intro id job' hjob' hnot
  cases hjob : db.jobs.lookup id with
  | none => exact (hcalm.new id job' hjob' hjob).2
  | some job =>
    obtain ⟨job'', hjob'', hc⟩ := hcalm.old id job hjob
    obtain rfl := Option.some.inj (hjob''.symm.trans hjob')
    cases hc with
    | keep => exact h id _ hjob hnot
    | dispatch => cases hnot
    | accept => rfl
    | settle => rfl

/-- A window opens for jobs that are under way. -/
theorem Database.Shut.mapRows {f : Uuid → Job → Job} (h : db.Shut)
    (hdb : db'.jobs = db.jobs.mapRows f)
    (hf : ∀ id job, f id job = job ∨ (f id job).status.isInflight = true) : db'.Shut := by
  intro id job' hjob' hnot
  rw [hdb, Table.lookup_mapRows] at hjob'
  obtain ⟨job, hjob, rfl⟩ := Option.map_eq_some_iff.mp hjob'
  rcases hf id job with hsame | hin
  · rw [hsame] at hnot ⊢
    exact h id job hjob hnot
  · cases hnot.symm.trans hin

theorem shut_disconnected (h : db.Shut) : (disconnected now db machine generation).Shut := by
  refine h.mapRows (f := fun _ job =>
    if job.machineId = machine ∧ job.runtimeGenerationId = some generation ∧
        job.responseRecovery ∧ job.status.isInflight then
      { job.mark now with updatedAt := now }
    else job) rfl fun id job => ?_
  split_ifs with hcond
  · exact Or.inr hcond.2.2.2
  · exact Or.inl rfl

theorem shut_markInflight (h : db.Shut) : (markInflight now db).Shut := by
  refine h.mapRows (f := fun _ job =>
    if job.responseRecovery ∧ job.status.isInflight then job.mark now else job) rfl
    fun id job => ?_
  split_ifs with hcond
  · exact Or.inr hcond.2
  · exact Or.inl rfl

theorem Database.Held.calm (h : db.Held machine generation id) (hcalm : Calm db db') :
    db'.Held machine generation id := by
  obtain ⟨job, hjob, hne, hmachine, hheld⟩ := h
  obtain ⟨job', hjob', hc⟩ := hcalm.old id job hjob
  refine ⟨job', hjob', hc.dispatched hne, hc.machineId.trans hmachine, ?_⟩
  cases hc with
  | keep => exact hheld
  | dispatch hqueued => exact absurd hqueued hne
  | accept hin =>
    refine Or.inr (hheld.resolve_left ?_)
    rw [JobStatus.isFinal_of_isInflight hin]
    exact Bool.false_ne_true
  | settle => exact Or.inl rfl

theorem Database.Clear.calm (h : db.Clear machine id) (hcalm : Calm db db') :
    db'.Clear machine id := by
  obtain ⟨job, hjob, hne, hmachine, hnone⟩ := h
  obtain ⟨job', hjob', hc⟩ := hcalm.old id job hjob
  refine ⟨job', hjob', hc.dispatched hne, hc.machineId.trans hmachine, ?_⟩
  cases hc with
  | keep => exact hnone
  | dispatch hqueued => exact absurd hqueued hne
  | accept => rfl
  | settle => rfl

/-- A lost connection does not touch the jobs of other machines. -/
theorem lookup_disconnected (hjob : db.jobs.lookup id = some job) (hne : job.machineId ≠ machine) :
    (disconnected now db machine generation).jobs.lookup id = some job := by
  rw [disconnected, Table.lookup_mapRows, hjob]
  simp [hne]

theorem Database.Held.disconnected {generation' : Uuid} (h : db.Held machine generation id)
    (hne : machine ≠ machine') :
    (disconnected now db machine' generation').Held machine generation id := by
  obtain ⟨job, hjob, hrest⟩ := h
  exact ⟨job, lookup_disconnected hjob (hrest.2.1 ▸ hne), hrest⟩

theorem Database.Clear.disconnected (h : db.Clear machine id) (hne : machine ≠ machine') :
    (disconnected now db machine' generation).Clear machine id := by
  obtain ⟨job, hjob, hrest⟩ := h
  exact ⟨job, lookup_disconnected hjob (hrest.2.1 ▸ hne), hrest⟩

/-- The host has the request of a job in time: the job has no recovery window, or it has ended. -/
theorem clear_accepted (h : db.Held machine generation id) (hshut : db.Shut)
    (hintime : (db.jobs.lookup id).any (fun row => !row.recoveryExpired now) = true) :
    (accepted now db machine generation id).Clear machine id := by
  obtain ⟨job, hjob, hne, hmachine, hheld⟩ := h
  rw [hjob, Option.any_some] at hintime
  refine ⟨_, by rw [accepted, Table.lookup_modify, hjob]; rfl, ?_⟩
  dsimp only
  split_ifs with hcond
  · exact ⟨by simp [Job.accept], hmachine, rfl⟩
  · refine ⟨hne, hmachine, hshut id job hjob ?_⟩
    by_contra hin
    rw [Bool.not_eq_false] at hin
    rcases hheld with hfinal | ⟨hgeneration, hrecovery⟩
    · rw [JobStatus.isFinal_of_isInflight hin] at hfinal
      cases hfinal
    · exact hcond ⟨hmachine, hgeneration, hrecovery, hintime, hin⟩

/-- A job without a recovery window is not settled by its expiry. -/
theorem settled_expireRow {event : Uuid} {c : Committed Unit} (h : db.Clear machine id)
    (hc : expireRow p now event db id = .ok c) (hsettled : c.settled ≠ []) :
    ∃ m, db.machines.lookup machine = some m ∧ m.deletedAt.isSome = true := by
  obtain ⟨job, hjob, -, rfl, hnone⟩ := h
  unfold expireRow at hc
  rw [hjob] at hc
  dsimp only at hc
  split_ifs at hc with hmachine hcond
  · rw [unrecoverable, Job.recoveryExpired, hnone, Option.any_none, Bool.false_or,
      Bool.and_eq_true, Option.any_eq_true] at hcond
    obtain ⟨-, m, hm, hdeleted⟩ := hcond
    exact ⟨m, hm, hdeleted⟩
  · obtain rfl := Except.ok.inj hc
    exact absurd rfl hsettled

end

/-! ### What a session asks about -/

/-- The jobs that a phase of a session has not yet added to those that are pending. -/
def Phase.asks (generation : Uuid) (recovery : Bool) : Phase π → List Uuid
  | .reconnecting rows kept =>
    kept ++ (rows.filter fun row => row.recoverable generation recovery).map InflightRow.id
  | .dispatched job _ => [job]
  | _ => []

/-- The jobs that a session may ask the host about, now or later. -/
def Session.asks (s : Session π) : List Uuid := s.pending ++ s.phase.asks s.generation s.recovery

section

variable {now : ℕ} {db : Database} {machine connection id : Uuid} {s : Session π}
  {a : SessionAction} {t : Turn π}

theorem pending_subset_asks (s : Session π) : s.pending ⊆ s.asks := List.subset_append_left _ _

/-- A session whose phase adds nothing asks about its pending jobs. -/
theorem mem_pending_of_asks {jobs : List Uuid} (hid : id ∈ s.asks)
    (hnone : s.phase.asks s.generation s.recovery = []) (hpending : s.pending = jobs) :
    id ∈ jobs := by
  rwa [Session.asks, hnone, List.append_nil, hpending] at hid

theorem mem_pending_of_send {full : Bool} {frame : GatewayMessage π} {next : Phase π}
    {jobs : List Uuid} (hid : id ∈ (s.send full db frame next).session.asks)
    (hnone : next.asks s.generation s.recovery = []) (hpending : s.pending = jobs) :
    id ∈ jobs := by
  unfold Session.send at hid
  split_ifs at hid
  · exact mem_pending_of_asks hid rfl hpending
  · exact mem_pending_of_asks hid hnone hpending

theorem asks_of_commit {α : Type} {T : Transaction α} {next : α → Session π} {P : Prop}
    (hpending : id ∈ s.pending → P) (hok : ∀ c, T = .ok c → id ∈ (next c.value).asks → P)
    (hid : id ∈ (s.commit db T next).session.asks) : P := by
  unfold Session.commit at hid
  split at hid
  · exact hpending (mem_pending_of_asks hid rfl rfl)
  · next c => exact hok c rfl hid

/-- The jobs that can be recovered when a machine connects are those of its runtime. -/
theorem held_of_reconnectRows {row : InflightRow} {generation : Uuid} {recovery : Bool}
    (hrow : row ∈ reconnectRows now db machine)
    (hkeep : row.recoverable generation recovery = true) : db.Held machine generation row.id := by
  obtain ⟨⟨k, job⟩, hmem, rfl⟩ := List.mem_map.mp hrow
  obtain ⟨hjob, hcond⟩ := Table.mem_select_iff.mp ((List.mem_insertionSort _).mp hmem)
  simp only [Bool.and_eq_true, decide_eq_true_eq] at hcond
  simp only [InflightRow.recoverable, Bool.and_eq_true, beq_iff_eq] at hkeep
  refine ⟨job, hjob, fun hqueued => ?_, hcond.1, Or.inr ⟨hkeep.2, hkeep.1.2⟩⟩
  rw [hqueued] at hcond
  cases hcond.2

/-- What a session asks about after its next step outside its loop. -/
theorem asks_of_proceed {event : Uuid} {full : Bool}
    (h : s.proceed p now event full db machine = some t) (hid : id ∈ t.session.asks) :
    id ∈ s.asks ∨ t.database.Held machine s.generation id := by
  have hold {db' : Database} (hpending : id ∈ s.pending) :
      id ∈ s.asks ∨ db'.Held machine s.generation id :=
    Or.inl (pending_subset_asks s hpending)
  unfold Session.proceed at h
  split at h
  · obtain rfl := Option.some.inj h
    refine hold (mem_pending_of_asks hid ?_ rfl)
    dsimp only [Session.turn, Session.go]
    split_ifs <;> rfl
  · obtain rfl := Option.some.inj h
    dsimp only [Session.turn] at hid ⊢
    split_ifs at hid
    · exact hold (mem_pending_of_asks hid rfl rfl)
    · rcases List.mem_append.mp hid with hid | hid
      · exact hold hid
      · rw [Session.go, Phase.asks, List.nil_append] at hid
        obtain ⟨row, hmem, rfl⟩ := List.mem_map.mp hid
        obtain ⟨hrow, hkeep⟩ := List.mem_filter.mp hmem
        exact Or.inr (held_of_reconnectRows hrow hkeep)
  · next row rows kept hphase =>
    obtain rfl := Option.some.inj h
    refine asks_of_commit hold (fun c hc hid => Or.inl ?_) hid
    rw [Session.asks, Session.go, Phase.asks] at hid
    rw [Session.asks, hphase, Phase.asks, List.filter_cons]
    split_ifs at hid ⊢ <;> simpa using hid
  · next kept hphase =>
    obtain rfl := Option.some.inj h
    refine Or.inl (List.mem_append_right _ ?_)
    rw [hphase, Phase.asks]
    exact List.mem_append_left _ (mem_pending_of_send hid rfl rfl)
  · next job request hphase =>
    obtain rfl := Option.some.inj h
    rcases List.mem_insert_iff.mp (mem_pending_of_send hid rfl rfl) with rfl | hpending
    · refine Or.inl (List.mem_append_right _ ?_)
      rw [hphase]
      exact List.mem_singleton_self _
    · exact hold hpending
  · next recovering job hphase =>
    obtain rfl := Option.some.inj h
    refine hold (List.mem_of_mem_erase (b := job) ?_)
    dsimp only at hid
    split_ifs at hid
    · exact mem_pending_of_send hid rfl rfl
    · exact mem_pending_of_asks hid rfl rfl
  · obtain rfl := Option.some.inj h
    exact asks_of_commit hold (fun c _ hid => hold (mem_pending_of_asks hid rfl rfl)) hid
  · obtain rfl := Option.some.inj h
    refine hold ?_
    dsimp only at hid
    split_ifs at hid
    · exact mem_pending_of_asks hid rfl rfl
    · exact mem_pending_of_asks hid rfl rfl
  · split at h
    · obtain rfl := Option.some.inj h
      exact hold (mem_pending_of_asks hid rfl rfl)
    · obtain rfl := Option.some.inj h
      exact hold (mem_pending_of_asks hid rfl rfl)
  · obtain rfl := Option.some.inj h
    exact hold (mem_pending_of_asks hid rfl rfl)
  · cases h
  · cases h

/-- A job that is dispatched is held by the runtime of the session, and has no window. -/
theorem held_of_dispatch {k generation : Uuid} {recovery : Bool} {job : Job}
    (hjob : db.jobs.lookup k = some job) (hmachine : job.machineId = machine)
    (hrecovery : recovery = true) :
    ({ db with jobs := db.jobs.modify k fun job => job.dispatch now generation recovery } :
      Database).Held machine generation k :=
  ⟨job.dispatch now generation recovery, by rw [Table.lookup_modify, hjob]; rfl,
    by simp [Job.dispatch], hmachine, Or.inr ⟨rfl, hrecovery⟩⟩

/-- What a session asks about after a step. -/
theorem asks_of_step (h : s.step p now db machine a = some t) (hrecovery : s.recovery = true)
    (hid : id ∈ t.session.asks) : id ∈ s.asks ∨ t.database.Held machine s.generation id := by
  have hold {db' : Database} (hpending : id ∈ s.pending) :
      id ∈ s.asks ∨ db'.Held machine s.generation id :=
    Or.inl (pending_subset_asks s hpending)
  cases a with
  | proceed event full => exact asks_of_proceed h hid
  | dispatch event full locked =>
    simp only [Session.step, Session.dispatch] at h
    split at h
    · obtain rfl := Option.some.inj h
      refine hold ?_
      split_ifs at hid
      · exact mem_pending_of_send hid rfl rfl
      · exact mem_pending_of_asks hid rfl rfl
    · next hphase =>
      split_ifs at h
      · obtain rfl := Option.some.inj h
        unfold Session.commit at hid ⊢
        split at hid
        · exact hold (mem_pending_of_asks hid rfl rfl)
        · next c hc =>
          rcases dispatchNext_cases hc with rfl | ⟨k, job, e, c', -, -, -, -, rfl⟩ |
            ⟨k, job, request, hjob, -, hmachine, -, rfl⟩
          · exact Or.inl hid
          · exact Or.inl hid
          · rcases List.mem_append.mp hid with hid | hid
            · exact hold hid
            · obtain rfl := List.mem_singleton.mp hid
              exact Or.inr (held_of_dispatch hjob hmachine hrecovery)
      · obtain rfl := Option.some.inj h
        exact Or.inl hid
    · cases h
  | read event frame =>
    simp only [Session.step, Session.read] at h
    split at h
    · obtain rfl := Option.some.inj h
      cases frame with
      | response r =>
        dsimp only at hid
        split at hid
        · exact hold (mem_pending_of_asks hid rfl rfl)
        · split_ifs at hid
          · exact asks_of_commit hold (fun c _ hid => hold (mem_pending_of_asks hid rfl rfl)) hid
          · exact hold (mem_pending_of_asks hid rfl rfl)
      | accepted text generation =>
        dsimp only at hid
        split_ifs at hid
        · split at hid
          · exact hold (mem_pending_of_asks hid rfl rfl)
          · split_ifs at hid
            · exact Or.inl hid
            · exact Or.inl hid
        · exact hold (mem_pending_of_asks hid rfl rfl)
      | missing text generation =>
        dsimp only at hid
        split_ifs at hid
        · split at hid
          · exact hold (mem_pending_of_asks hid rfl rfl)
          · split_ifs at hid
            · exact hold (List.mem_of_mem_erase (mem_pending_of_asks hid rfl rfl))
            · exact Or.inl hid
        · exact hold (mem_pending_of_asks hid rfl rfl)
    · cases h
  | heartbeat =>
    simp only [Session.step, Session.heartbeat] at h
    split at h
    · obtain rfl := Option.some.inj h
      exact Or.inl hid
    · cases h
  | leave full =>
    simp only [Session.step, Session.leave] at h
    split at h
    · split_ifs at h
      obtain rfl := Option.some.inj h
      exact hold (mem_pending_of_send hid rfl rfl)
    · cases h
  | fail =>
    simp only [Session.step, Session.fail] at h
    split at h
    · cases h
    · cases h
    · cases h
    · obtain rfl := Option.some.inj h
      exact hold (mem_pending_of_asks hid rfl rfl)
  | skip =>
    simp only [Session.step, Session.skip] at h
    split at h
    · split_ifs at h
      obtain rfl := Option.some.inj h
      exact hold (mem_pending_of_asks hid rfl rfl)
    · obtain rfl := Option.some.inj h
      exact hold (mem_pending_of_asks hid rfl rfl)
    · cases h

/-- A session stays with its runtime. -/
theorem runtime_of_step (h : s.step p now db machine a = some t) :
    t.session.generation = s.generation ∧ t.session.recovery = s.recovery := by
  have heff := turnEffect_of_step h
  cases heff with
  | plain _ _ _ hs => exact ⟨hs.generation, hs.recovery⟩
  | greet _ hs => exact ⟨hs.generation, hs.recovery⟩
  | survey _ _ _ hs =>
    rw [hs]
    exact ⟨rfl, rfl⟩
  | dispatch _ _ _ _ _ _ hs =>
    rw [hs]
    exact ⟨rfl, rfl⟩
  | request _ _ hs => exact ⟨hs.generation, hs.recovery⟩
  | recover _ _ hs => exact ⟨hs.generation, hs.recovery⟩
  | answer _ _ _ _ _ hs =>
    rw [hs]
    exact ⟨rfl, rfl⟩
  | acknowledge _ _ hs => exact ⟨hs.generation, hs.recovery⟩
  | miss _ _ _ _ hs =>
    rw [hs]
    exact ⟨rfl, rfl⟩
  | lose _ _ _ hs => exact ⟨hs.generation, hs.recovery⟩

/-- A session that is about to send the request of a job has just dispatched it. -/
theorem clear_of_dispatch {event : Uuid} {full : Bool} {locked : List Uuid} {request : Request π}
    (h : s.step p now db machine (.dispatch event full locked) = some t) (hshut : db.Shut)
    (hphase : t.session.phase = .dispatched id request) : t.database.Clear machine id := by
  simp only [Session.step, Session.dispatch] at h
  split at h
  · obtain rfl := Option.some.inj h
    split_ifs at hphase
    · exact absurd hphase (phase_send (P := fun phase => phase ≠ .dispatched id request) (by simp)
        (by simp))
    · cases hphase
  · next hserving =>
    split_ifs at h
    · obtain rfl := Option.some.inj h
      unfold Session.commit at hphase ⊢
      split at hphase
      · cases hphase
      · next c hc =>
        rcases dispatchNext_cases hc with rfl | ⟨k, job, e, c', -, -, -, -, rfl⟩ |
          ⟨k, job, request', hjob, hqueued, hmachine, -, rfl⟩
        · cases hserving.symm.trans hphase
        · cases hserving.symm.trans hphase
        · obtain ⟨rfl, -⟩ := Phase.dispatched.inj hphase
          refine ⟨job.dispatch now s.generation s.recovery, ?_, by simp [Job.dispatch],
            hmachine, hshut _ job hjob (by rw [hqueued]; rfl)⟩
          rw [Table.lookup_modify, hjob]
          rfl
    · obtain rfl := Option.some.inj h
      cases hserving.symm.trans hphase
  · cases h

/-- A job that a session dispatches, or of which it hears in time that the host has its request,
has no recovery window then. -/
theorem clear_of_marks {c : Uuid} (h : s.step p now db machine a = some t) (hshut : db.Shut)
    (hheld : s.recovery = true → ∀ id ∈ s.asks, db.Held machine s.generation id)
    (he : .dispatched c id ∈ s.marks now db connection machine t.session a ∨
      .accepted c id ∈ s.marks now db connection machine t.session a) :
    t.database.Clear machine id := by
  rcases he with he | he
  · rcases marks_cases he with ⟨-, heq | heq⟩ | ⟨⟨event, full, locked, rfl⟩, job, request, hphase,
      heq⟩ | ⟨_, _, _, _, job, -, -, -, heq⟩
    · cases heq
    · cases heq
    · obtain rfl := (SlotEvent.dispatched.inj heq).2
      exact clear_of_dispatch h hshut hphase
    · cases heq
  · rcases marks_cases he with ⟨-, heq | heq⟩ | ⟨-, job, request, -, heq⟩ |
      ⟨event, text, generation, recovering, job, rfl, hphase, hjob, heq⟩
    · cases heq
    · cases heq
    · cases heq
    · obtain rfl := (SlotEvent.accepted.inj heq).2
      unfold Session.acceptsInTime at hjob
      split_ifs at hjob with hcond
      obtain ⟨hrecovery, rfl⟩ := hcond
      obtain ⟨hparse, hin⟩ := Option.filter_eq_some_iff.mp hjob
      rw [Bool.and_eq_true, List.contains_iff_mem] at hin
      obtain ⟨hpending, hintime⟩ := hin
      simp only [Session.step, Session.read, hphase] at h
      obtain rfl := Option.some.inj h
      rw [if_pos ⟨hrecovery, trivial⟩, hparse]
      dsimp only
      rw [if_pos hpending]
      exact clear_accepted (hheld hrecovery id (pending_subset_asks s hpending)) hshut hintime

/-- After its teardown a session is closed. -/
theorem closed_of_tearsDown (h : s.step p now db machine a = some t)
    (htears : s.tearsDown a = true) : t.session.phase = .closed := by
  unfold Session.tearsDown at htears
  split at htears
  · split at htears
    · next hphase =>
      rw [Bool.and_eq_true] at htears
      simp only [Session.step, Session.proceed, hphase] at h
      obtain rfl := Option.some.inj h
      rw [if_pos htears]
      rfl
    · cases htears
  · cases htears

end

/-! ### Runs -/

/-- The jobs of the live sessions. Those that a session may ask about are held by its runtime;
those that it has dispatched or accepted in time have no recovery window. -/
structure Slots.Windowed (log : List (SlotEvent π)) (S : Slots π) : Prop where
  shut : S.database.Shut
  held : ∀ c m s, S.tasks.lookup c = some ⟨m, .running s⟩ → s.phase.torn = false →
    s.recovery = true → ∀ id ∈ s.asks, S.database.Held m s.generation id
  clear : ∀ c m s, S.tasks.lookup c = some ⟨m, .running s⟩ → s.phase.torn = false →
    ∀ id, .dispatched c id ∈ log ∨ .accepted c id ∈ log → S.database.Clear m id

namespace Slots.Windowed

variable {S S' : Slots π} {log es : List (SlotEvent π)} {connection machine : Uuid}
  {s : Session π} {a : SessionAction} {t : Turn π}

theorem init : (Slots.init : Slots π).Windowed [] := by
  refine ⟨fun id job hjob => ?_, fun c m s hc => ?_, fun c m s hc => ?_⟩
  · cases hjob
  · cases hc
  · cases hc

/-- A step that leaves the rows calm and is remembered by nothing, with sessions that there were
before, or that have just begun. -/
theorem of_calm (h : S.Windowed log) (hcalm : Calm S.database S'.database)
    (hes : ∀ e ∈ es, ∀ c id, e ≠ .dispatched c id ∧ e ≠ .accepted c id)
    (hold : ∀ c m s', S'.tasks.lookup c = some ⟨m, .running s'⟩ →
      (∃ s, S.tasks.lookup c = some ⟨m, .running s⟩ ∧ s'.phase = s.phase ∧
        s'.recovery = s.recovery ∧ s'.generation = s.generation ∧ s'.asks = s.asks) ∨
      s'.asks = [] ∧ ∀ e ∈ log, e.connection ≠ some c) : S'.Windowed (log ++ es) := by
  have hlog {c id : Uuid} (hm : .dispatched c id ∈ log ++ es ∨ .accepted c id ∈ log ++ es) :
      .dispatched c id ∈ log ∨ .accepted c id ∈ log := by
    rcases hm with hm | hm
    · exact Or.inl ((List.mem_append.mp hm).resolve_right fun he => (hes _ he c id).1 rfl)
    · exact Or.inr ((List.mem_append.mp hm).resolve_right fun he => (hes _ he c id).2 rfl)
  refine ⟨h.shut.calm hcalm, fun c m s' hc hnot hrecovery id hid => ?_,
    fun c m s' hc hnot id hm => ?_⟩
  · rcases hold c m s' hc with ⟨s, hs, hphase, hsame, hgeneration, hasks⟩ | ⟨hasks, -⟩
    · rw [hgeneration]
      exact (h.held c m s hs (hphase ▸ hnot) (hsame ▸ hrecovery) id (hasks ▸ hid)).calm hcalm
    · rw [hasks] at hid
      cases hid
  · rcases hold c m s' hc with ⟨s, hs, hphase, -⟩ | ⟨-, hsilent⟩
    · exact (h.clear c m s hs (hphase ▸ hnot) id (hlog hm)).calm hcalm
    · rcases hlog hm with hm | hm
      · exact absurd rfl (hsilent _ hm)
      · exact absurd rfl (hsilent _ hm)

/-- A step of the session of a task. -/
theorem turn (h : S.Windowed log) (howned : S.Owned log)
    (hc : S.tasks.lookup connection = some ⟨machine, .running s⟩)
    (hstep : s.step p S.clock S.database machine a = some t)
    (ht : S'.tasks = S.tasks.insert connection ⟨machine, .running t.session⟩)
    (hdb : S'.database = t.database) :
    S'.Windowed (log ++ (t.events.map .gateway ++
      s.marks S.clock S.database connection machine t.session a)) := by
  have hrows := rows_of_turn hstep
  have hcalm (hnot : t.session.phase.torn = false) : Calm S.database S'.database := by
    rw [if_neg] at hrows
    · exact hdb ▸ hrows
    · intro htears
      rw [closed_of_tearsDown hstep htears] at hnot
      cases hnot
  have hother {c m : Uuid} {s' : Session π} (hcc : c ≠ connection)
      (hs : S.tasks.lookup c = some ⟨m, .running s'⟩) : m ≠ machine := by
    rintro rfl
    exact hcc (Option.some.inj ((howned.owner c m s' hs).symm.trans (howned.owner _ _ s hc)))
  have hlog {e : SlotEvent π} {c : Uuid} (he : e ∈ log ++ (t.events.map .gateway ++
      s.marks S.clock S.database connection machine t.session a)) (hconn : e.connection = some c) :
      e ∈ log ∨ c = connection ∧
        e ∈ s.marks S.clock S.database connection machine t.session a := by
    rcases List.mem_append.mp he with he | he
    · exact Or.inl he
    · rcases List.mem_append.mp he with he | he
      · cases (connection_of_mem_map he).symm.trans hconn
      · exact Or.inr ⟨Option.some.inj (hconn.symm.trans (connection_of_mem_marks he).1), he⟩
  have hback {c m : Uuid} {s' : Session π} (hk : S'.tasks.lookup c = some ⟨m, .running s'⟩) :
      (c = connection ∧ m = machine ∧ s' = t.session) ∨
        c ≠ connection ∧ S.tasks.lookup c = some ⟨m, .running s'⟩ := by
    rw [ht] at hk
    by_cases hcc : c = connection
    · subst hcc
      rw [AList.lookup_insert] at hk
      obtain ⟨rfl, hst⟩ := Task.mk.inj (Option.some.inj hk)
      exact Or.inl ⟨rfl, rfl, (Stage.running.inj hst).symm⟩
    · rw [AList.lookup_insert_ne hcc] at hk
      exact Or.inr ⟨hcc, hk⟩
  refine ⟨?_, fun c m s' hk hnot hrecovery id hid => ?_, fun c m s' hk hnot id hm => ?_⟩
  · rw [hdb]
    split_ifs at hrows
    · rw [hrows]
      exact shut_disconnected h.shut
    · exact h.shut.calm hrows
  · rcases hback hk with ⟨rfl, rfl, rfl⟩ | ⟨hcc, hk⟩
    · obtain ⟨hgeneration, hsame⟩ := runtime_of_step hstep
      rw [hsame] at hrecovery
      rw [hgeneration]
      rcases asks_of_step hstep hrecovery hid with hasked | hheld
      · exact (h.held c m s hc (torn_of_step hstep hnot) hrecovery id hasked).calm (hcalm hnot)
      · exact hdb ▸ hheld
    · have hheld := h.held c m s' hk hnot hrecovery id hid
      rw [hdb]
      split_ifs at hrows
      · rw [hrows]
        exact hheld.disconnected (hother hcc hk)
      · exact hheld.calm hrows
  · rcases hback hk with ⟨rfl, rfl, rfl⟩ | ⟨hcc, hk⟩
    · have htorn := torn_of_step hstep hnot
      have hold (hm : .dispatched c id ∈ log ∨ .accepted c id ∈ log) : S'.database.Clear m id :=
        (h.clear c m s hc htorn id hm).calm (hcalm hnot)
      have hnew (he : .dispatched c id ∈ s.marks S.clock S.database c m t.session a ∨
          .accepted c id ∈ s.marks S.clock S.database c m t.session a) :
          S'.database.Clear m id :=
        hdb ▸ clear_of_marks hstep h.shut (h.held c m s hc htorn) he
      rcases hm with hm | hm
      · exact (hlog hm rfl).elim (fun he => hold (Or.inl he)) fun he => hnew (Or.inl he.2)
      · exact (hlog hm rfl).elim (fun he => hold (Or.inr he)) fun he => hnew (Or.inr he.2)
    · have hclear : S.database.Clear m id := by
        refine h.clear c m s' hk hnot id ?_
        exact hm.imp (fun he => (hlog he rfl).resolve_right fun hnew => hcc hnew.1)
          fun he => (hlog he rfl).resolve_right fun hnew => hcc hnew.1
      rw [hdb]
      split_ifs at hrows
      · rw [hrows]
        exact hclear.disconnected (hother hcc hk)
      · exact hclear.calm hrows

/-- Every step keeps the windows of the live sessions closed. -/
theorem step {b : SlotAction} (h : S.Windowed log) (howned : S.Owned log)
    (hstep : S.step p b = some (S', es)) : S'.Windowed (log ++ es) := by
  have heff := slotEffect_of_step hstep
  have hgateway {es : List (Event π)} {e : SlotEvent π} (he : e ∈ es.map SlotEvent.gateway)
      (c id : Uuid) : e ≠ .dispatched c id ∧ e ≠ .accepted c id := by
    obtain ⟨_, -, rfl⟩ := List.mem_map.mp he
    exact ⟨by simp, by simp⟩
  cases heff with
  | @gateway es hs ht hd hh hp hdb =>
    rcases hdb with hcalm | ⟨hdown, now, hmark⟩
    · exact h.of_calm hcalm (fun e he => hgateway he)
        fun c m s' hc => Or.inl ⟨s', ht ▸ hc, rfl, rfl, rfl, rfl⟩
    · have hempty := ht.trans (howned.down hdown)
      refine ⟨hmark ▸ shut_markInflight h.shut, fun c m s' hc => ?_, fun c m s' hc => ?_⟩
      · rw [hempty] at hc
        cases hc
      · rw [hempty] at hc
        cases hc
  | crash hs ht hd hh hdb =>
    refine ⟨hdb ▸ h.shut, fun c m s' hc => ?_, fun c m s' hc => ?_⟩
    · rw [ht] at hc
      cases hc
    · rw [ht] at hc
      cases hc
  | @revoke connection hp hs ht hd hh hp' hdb =>
    refine h.of_calm (hdb ▸ .refl _) (by simp) fun c m s' hc => Or.inl ?_
    rcases ht with ht | ht
    · exact ⟨s', ht ▸ hc, rfl, rfl, rfl, rfl⟩
    · rw [ht] at hc
      by_cases hcc : c = connection
      · subst hcc
        rw [Table.lookup_modify] at hc
        obtain ⟨⟨m', stage⟩, hk, heq⟩ := Option.map_eq_some_iff.mp hc
        cases stage with
        | running s =>
          obtain ⟨rfl, hst⟩ := Task.mk.inj heq
          obtain rfl := Stage.running.inj hst
          exact ⟨s, hk, rfl, rfl, rfl, rfl⟩
        | contending => cases heq
      · rw [Table.lookup_modify_of_ne hcc] at hc
        exact ⟨s', hc, rfl, rfl, rfl, rfl⟩
  | @hello connection es k hp hc hs ht hd hh hp' hdb =>
    refine h.of_calm (hdb ▸ .refl _) (fun e he => hgateway he) fun c m s' hk => Or.inl ?_
    rcases ht with ht | ⟨ht, hnone⟩
    · exact ⟨s', ht ▸ hk, rfl, rfl, rfl, rfl⟩
    · rw [ht] at hk
      by_cases hcc : c = connection
      · subst hcc
        rw [AList.lookup_insert] at hk
        rw [Option.some.inj hk] at hnone
        cases hnone
      · rw [AList.lookup_insert_ne hcc] at hk
        exact ⟨s', hk, rfl, rfl, rfl, rfl⟩
  | @refuse connection k hp hc hnone hs ht hd hh hp' hdb =>
    refine h.of_calm (hdb ▸ .refl _) (by simp) fun c m s' hk => Or.inl ⟨s', ?_, rfl, rfl, rfl, rfl⟩
    rw [ht] at hk
    by_cases hcc : c = connection
    · subst hcc
      rw [AList.lookup_erase] at hk
      cases hk
    · rwa [AList.lookup_erase_ne hcc] at hk
  | @take connection machine version hello hp hc hfree hs ht hd hh hp' hdb =>
    refine h.of_calm (hdb ▸ .refl _) (by simp) fun c m s' hk => ?_
    rw [ht] at hk
    by_cases hcc : c = connection
    · subst hcc
      rw [AList.lookup_insert] at hk
      obtain ⟨-, hst⟩ := Task.mk.inj (Option.some.inj hk)
      obtain rfl := Stage.running.inj hst
      exact Or.inr ⟨rfl, howned.silent c _ hc rfl⟩
    · rw [AList.lookup_insert_ne hcc] at hk
      exact Or.inl ⟨s', hk, rfl, rfl, rfl, rfl⟩
  | turn hp hc hfails hturn hs ht hd hh hp' hdb => exact h.turn howned hc hturn ht hdb
  | @release connection machine s hp hc hphase hs ht hd hh hp' hdb =>
    refine h.of_calm (hdb ▸ .refl _) (by simp) fun c m s' hk => Or.inl ⟨s', ?_, rfl, rfl, rfl, rfl⟩
    rw [ht] at hk
    by_cases hcc : c = connection
    · subst hcc
      rw [AList.lookup_erase] at hk
      cases hk
    · rwa [AList.lookup_erase_ne hcc] at hk

/-- The jobs of the live sessions, along every run. -/
theorem of_run (h : (slotSystem p).Run log S) : S.Windowed log := by
  refine h.invariant (I := fun log S => S.Windowed log) (fun S hS => ?_)
    fun hrun hwindowed hstep => hwindowed.step (Owned.of_run hrun) hstep
  obtain rfl : S = .init := hS
  exact init

end Slots.Windowed

/-- The sessions of a machine follow each other: when one reads or settles the jobs under way, the
sessions that took the slot before it have been torn down, or have died with their process. -/
def SlotEvent.Ordered (log : List (SlotEvent π)) : Prop :=
  ∀ pre post c m, log = pre ++ .reconnected c m :: post → ∀ c₀, c₀ ≠ c → .took c₀ m ∈ pre →
    .tornDown c₀ ∈ pre ∨ .lost c₀ ∈ pre

namespace SlotEvent.Ordered

variable {S S' : Slots π} {log es : List (SlotEvent π)}

/-- It is a session that reads or settles the jobs under way, and it takes no slot in that step. -/
theorem running_of_reconnected {b : SlotAction} {c m : Uuid}
    (hstep : S.step p b = some (S', es)) (he : .reconnected c m ∈ es) :
    (∃ s, S.tasks.lookup c = some ⟨m, .running s⟩) ∧ ∀ c₀ m₀, .took c₀ m₀ ∉ es := by
  have heff := slotEffect_of_step hstep
  have hnot {es : List (Event π)} {e : SlotEvent π} (he : e ∈ es.map SlotEvent.gateway)
      (hconn : e.connection ≠ none) : False :=
    hconn (connection_of_mem_map he)
  cases heff with
  | gateway => exact (hnot he (by simp [SlotEvent.connection])).elim
  | crash =>
    obtain ⟨_, -, heq⟩ := List.mem_map.mp he
    cases heq
  | revoke => cases he
  | hello => exact (hnot he (by simp [SlotEvent.connection])).elim
  | refuse => cases he
  | take => cases List.mem_singleton.mp he
  | @turn connection machine s a t _ hc =>
    have hmark := (List.mem_append.mp he).resolve_left fun hmem =>
      hnot hmem (by simp [SlotEvent.connection])
    obtain ⟨rfl, rfl⟩ := reconnected_of_marks hmark
    refine ⟨⟨s, hc⟩, fun c₀ m₀ htook => ?_⟩
    rcases List.mem_append.mp htook with hmem | hmem
    · exact hnot hmem (by simp [SlotEvent.connection])
    · exact (connection_of_mem_marks hmem).2 c₀ m₀ rfl
  | release => cases he

/-- The order of the sessions, along every run. -/
theorem of_run (h : (slotSystem p).Run log S) : SlotEvent.Ordered log := by
  intro pre post c m hlog
  refine h.each (L := fun pre e => e = .reconnected c m → ∀ c₀, c₀ ≠ c → .took c₀ m ∈ pre →
    .tornDown c₀ ∈ pre ∨ .lost c₀ ∈ pre) ?_ hlog rfl
  rintro log S b S' es before e post hrun hstep rfl rfl c₀ hne htook
  have howned := Slots.Owned.of_run hrun
  obtain ⟨⟨s, hc⟩, hnone⟩ := running_of_reconnected hstep
    (List.mem_append_right before List.mem_cons_self)
  have hold : .took c₀ m ∈ log := by
    refine (List.mem_append.mp htook).resolve_right fun hmem => ?_
    exact hnone c₀ m (List.mem_append_left _ hmem)
  rcases howned.took c₀ m hold with ⟨s₀, hc₀⟩ | htorn | hlost
  · have hsame := (howned.owner c₀ m s₀ hc₀).symm.trans (howned.owner c m s hc)
    exact absurd (Option.some.inj hsame) hne
  · exact Or.inl (List.mem_append_left _ htorn)
  · exact Or.inr (List.mem_append_left _ hlost)

end SlotEvent.Ordered

/-- **One session per machine.** A machine has at most one session, which owns its slot. The
sessions of a machine follow each other, each after the teardown of those before. A job that the
live session of a machine has dispatched, or of which it has heard in time that the host has its
request, has no recovery window; the maintenance settles it only when the machine is removed. -/
theorem one_session {S : Slots π} {log : List (SlotEvent π)} (h : (slotSystem p).Run log S) :
    (∀ c c' m s s', S.tasks.lookup c = some ⟨m, .running s⟩ →
      S.tasks.lookup c' = some ⟨m, .running s'⟩ → c = c' ∧ S.slots.lookup m = some c) ∧
    SlotEvent.Ordered log ∧
    ∀ c m s id, S.tasks.lookup c = some ⟨m, .running s⟩ → s.phase.torn = false →
      .dispatched c id ∈ log ∨ .accepted c id ∈ log →
      ∃ job, S.database.jobs.lookup id = some job ∧ job.machineId = m ∧
        job.recoveryExpiresAt = none ∧
        ∀ now event c', expireRow p now event S.database id = .ok c' → c'.settled ≠ [] →
          ∃ row, S.database.machines.lookup m = some row ∧ row.deletedAt.isSome = true := by
  have howned := Slots.Owned.of_run h
  refine ⟨fun c c' m s s' hc hc' => ?_, .of_run h, fun c m s id hc hnot hm => ?_⟩
  · have hown := howned.owner c m s hc
    exact ⟨Option.some.inj (hown.symm.trans (howned.owner c' m s' hc')), hown⟩
  · have hclear := (Slots.Windowed.of_run h).clear c m s hc hnot id hm
    obtain ⟨job, hjob, -, hmachine, hnone⟩ := hclear
    exact ⟨job, hjob, hmachine, hnone, fun now event c' hc' hsettled =>
      settled_expireRow ((Slots.Windowed.of_run h).clear c m s hc hnot id hm) hc' hsettled⟩

/-! ### A handover -/

/-- A host dispatches job 5 to runtime 3 by connection 4, which is lost. The runtime connects again
by connection 8, and has the request of the job. -/
def handoverActions : List SlotAction :=
  (connectActions.take 6).map .gateway ++
    [.revoke (.numbered 2), .gateway (.upgrade (.numbered 4) (.numbered 2) "credential"),
      .hello (.numbered 4) ⟨5, .numbered 0, .numbered 2, .numbered 3, true⟩, .take (.numbered 4),
      .session (.numbered 4) (.proceed (.numbered 0) false),
      .session (.numbered 4) (.proceed (.numbered 0) false),
      .session (.numbered 4) (.proceed (.numbered 0) false), .gateway submitAction,
      .session (.numbered 4) (.dispatch (.numbered 0) false []),
      .session (.numbered 4) (.proceed (.numbered 0) false),
      .gateway (.upgrade (.numbered 8) (.numbered 2) "credential"),
      .hello (.numbered 8) ⟨5, .numbered 0, .numbered 2, .numbered 3, true⟩,
      .session (.numbered 4) .fail, .session (.numbered 4) (.proceed (.numbered 0) false),
      .session (.numbered 4) (.proceed (.numbered 0) false), .take (.numbered 8),
      .session (.numbered 8) (.proceed (.numbered 0) false),
      .session (.numbered 8) (.proceed (.numbered 0) false),
      .session (.numbered 8) (.proceed (.numbered 0) false),
      .session (.numbered 8) (.proceed (.numbered 0) false),
      .session (.numbered 8) (.read (.numbered 0)
        (.accepted (Uuid.numbered 5).text (.numbered 3)))]

/-- While the second connection is live, job 5 has no recovery window. -/
theorem one_session_handover :
    ∃ (S : Slots Unit) (log : List (SlotEvent Unit)) (job : Job),
      (slotSystem plainPlatform).Run log S ∧
      S.slots.lookup (.numbered 2) = some (.numbered 8) ∧
      .accepted (.numbered 8) (.numbered 5) ∈ log ∧
      S.database.jobs.lookup (.numbered 5) = some job ∧ job.recoveryExpiresAt = none := by
  have hend : ((slotSystem plainPlatform).exec .init handoverActions).any (fun r =>
      ((r.1.tasks.lookup (.numbered 8)).any fun k => k.machine = .numbered 2 &&
        (match k.stage with | .running s => !s.phase.torn | .contending .. => false)) &&
      r.2.any fun
        | .accepted c id => c = .numbered 8 && id = .numbered 5
        | _ => false) = true := by
    decide +kernel
  obtain ⟨r, hr, hboth⟩ := (Option.any_eq_true _ _).mp hend
  obtain ⟨hstate, hlog⟩ := (Bool.and_eq_true _ _).mp hboth
  have hrun : (slotSystem plainPlatform).Run r.2 r.1 := ⟨_, rfl, .of_exec hr⟩
  obtain ⟨⟨machine, stage⟩, hk, hcond⟩ := (Option.any_eq_true _ _).mp hstate
  obtain ⟨hmachine, hstage⟩ : machine = .numbered 2 ∧ _ = true := by
    simpa only [Bool.and_eq_true, decide_eq_true_eq] using hcond
  obtain ⟨e, he, haccepted⟩ := List.any_eq_true.mp hlog
  split at hstage
  · next s =>
    split at haccepted
    · next c id =>
      obtain ⟨rfl, rfl⟩ : c = .numbered 8 ∧ id = .numbered 5 := by
        simpa only [Bool.and_eq_true, decide_eq_true_eq] using haccepted
      subst hmachine
      obtain ⟨honce, -, hwindow⟩ := one_session hrun
      obtain ⟨job, hjob, -, hnone, -⟩ :=
        hwindow _ _ s _ hk (by simpa using hstage) (Or.inr he)
      exact ⟨r.1, r.2, job, hrun, (honce _ _ _ s s hk hk).2, he, hjob, hnone⟩
    · cases haccepted
  · cases hstage

end ExecutionProvider.Gateway
