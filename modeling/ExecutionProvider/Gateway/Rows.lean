import ExecutionProvider.Gateway.TerminalEvents

/-!
# The row of one job

A job that has ended keeps its row as it is. While a job is under way, its recovery window opens
in two places only: when a process starts, for the jobs that the last process has left behind, and
in the teardown of a session that supports recovery, for the jobs of its runtime. Every other
transaction leaves an open window alone, or closes it.

## Main definitions

* `Job.Calm`, `Calm`: what a transaction does that opens no recovery window.

## Main results

* `rows_of_turn`, `rows_of_step`: what a step does to the rows of the jobs.
* `lookup_of_ended`: a job that has ended keeps its row.
-/

namespace ExecutionProvider.Gateway

open Protocol

variable {π : Type} {p : Platform π} {now : ℕ} {event id : Uuid} {db db' : Database}

/-- What becomes of a row in a transaction that opens no recovery window. -/
inductive Job.Calm (job : Job) : Job → Prop
  | keep : Calm job job
  | dispatch {now : ℕ} {generation : Uuid} {recovery : Bool} (h : job.status = .queued) :
      Calm job (job.dispatch now generation recovery)
  | accept {now : ℕ} (h : job.status.isInflight = true) : Calm job (job.accept now)
  | settle {now : ℕ} {status : FinalStatus} {response error : Option Json}
      (h : job.status.isFinal = false) : Calm job (job.settle now status response error)

/-- A transaction that opens no recovery window. -/
structure Calm (db db' : Database) : Prop where
  old : ∀ id job, db.jobs.lookup id = some job →
    ∃ job', db'.jobs.lookup id = some job' ∧ job.Calm job'
  new : ∀ id job', db'.jobs.lookup id = some job' → db.jobs.lookup id = none →
    job'.status = .queued ∧ job'.recoveryExpiresAt = none

namespace Calm

theorem of_jobs (h : db'.jobs = db.jobs) : Calm db db' := by
  constructor
  · intro id job hjob
    exact ⟨job, h ▸ hjob, .keep⟩
  · intro id job' hjob' hnone
    rw [h, hnone] at hjob'
    cases hjob'

theorem refl (db : Database) : Calm db db := of_jobs rfl

/-- Only the jobs of the database matter. -/
theorem congr {db'' : Database} (h : db''.jobs = db'.jobs) (hcalm : Calm db db') :
    Calm db db'' := by
  constructor
  · rw [h]
    exact hcalm.old
  · rw [h]
    exact hcalm.new

/-- Rows that are changed one by one. -/
theorem of_mapRows {f : Uuid → Job → Job}
    (hf : ∀ id job, db.jobs.lookup id = some job → job.Calm (f id job))
    (h : db'.jobs = db.jobs.mapRows f) : Calm db db' := by
  constructor
  · intro id job hjob
    exact ⟨f id job, by rw [h, Table.lookup_mapRows, hjob]; rfl, hf id job hjob⟩
  · intro id job' hjob' hnone
    rw [h, Table.lookup_mapRows, hnone] at hjob'
    cases hjob'

theorem of_modify {f : Job → Job} (hf : ∀ job, db.jobs.lookup id = some job → job.Calm (f job)) :
    Calm db { db with jobs := db.jobs.modify id f } := by
  refine of_mapRows (f := fun k job => if k = id then f job else job) (fun k job hjob => ?_) rfl
  split_ifs with hk
  · exact hf job (hk ▸ hjob)
  · exact .keep

theorem insert {job : Job} (hid : id ∉ db.jobs)
    (hnew : job.status = .queued ∧ job.recoveryExpiresAt = none)
    (h : db'.jobs = db.jobs.insert id job) : Calm db db' := by
  constructor
  · intro k job₀ hjob₀
    have hne : k ≠ id := fun heq => hid (heq ▸ Table.mem_of_lookup hjob₀)
    exact ⟨job₀, by rw [h, AList.lookup_insert_ne hne, hjob₀], .keep⟩
  · intro k job' hjob' hk
    rcases eq_or_ne k id with rfl | hne
    · rw [h, AList.lookup_insert] at hjob'
      exact Option.some.inj hjob' ▸ hnew
    · rw [h, AList.lookup_insert_ne hne, hk] at hjob'
      cases hjob'

theorem finishTx {status : FinalStatus} {response error : Option Json} {c : Committed Unit}
    (h : finishTx p now event db id status response error = .ok c) : Calm db c.database := by
  rcases finishTx_cases h with ⟨hdb, -, -⟩ | ⟨job, user, hjob, hopen, -, -, hj, -⟩
  · exact hdb ▸ refl db
  · refine congr hj (of_modify (f := fun job => job.settle now status response error)
      fun job' hjob' => ?_)
    obtain rfl : job = job' := Option.some.inj (hjob.symm.trans hjob')
    exact .settle hopen

theorem insertJob {generation : Option Uuid} {user : Uuid} {input : Submission} {request : Json}
    {requestHash : String} {c : Committed (Uuid × JobStatus)}
    (h : insertJob p now db generation id user input request requestHash = .ok c) :
    Calm db c.database := by
  unfold Gateway.insertJob at h
  split at h
  · cases h
  · cases h
  · split at h
    · cases h
    split at h
    · cases h
    split at h
    · cases h
    split at h
    · cases h
    split at h
    · cases h
    split at h
    · cases h
    next hid =>
    obtain rfl := Except.ok.inj h
    exact insert hid ⟨rfl, rfl⟩ rfl

theorem submit {generation : Option Uuid} {user : Uuid} {input : Submission}
    {c : Committed (Uuid × JobStatus)} (h : submit p now db generation id user input = .ok c) :
    Calm db c.database := by
  unfold Gateway.submit at h
  dsimp only at h
  split_ifs at h
  split at h
  · cases h
  · split at h
    · split_ifs at h
      obtain rfl := Except.ok.inj h
      exact refl db
    · exact insertJob h

theorem dispatchNext {machine generation : Uuid} {version : ℕ} {recovery controlOnly : Bool}
    {locked : List Uuid} {c : Committed (Option (Uuid × Request π))}
    (h : dispatchNext p now event db machine generation version recovery controlOnly locked =
      .ok c) : Calm db c.database := by
  rcases dispatchNext_cases h with rfl | ⟨k, job, e, c', -, -, -, hfinish, rfl⟩ |
    ⟨k, job, request, hjob, hqueued, -, -, rfl⟩
  · exact refl db
  · exact finishTx hfinish
  · refine of_modify fun job' hjob' => ?_
    obtain rfl : job = job' := Option.some.inj (hjob.symm.trans hjob')
    exact .dispatch hqueued

theorem accepted (machine generation : Uuid) : Calm db (accepted now db machine generation id) := by
  unfold Gateway.accepted
  refine of_modify fun job _ => ?_
  split_ifs with hcond
  · exact .accept hcond.2.2.2.2
  · exact .keep

theorem response {machine generation : Uuid} {r : Response} {c : Committed Unit}
    (h : response p now event db machine generation id r = .ok c) : Calm db c.database := by
  obtain ⟨job, -, -, -, -, ⟨-, h⟩ | ⟨-, h⟩⟩ := response_cases h
  · exact finishTx h
  · exact finishTx h

theorem reconnectRow {generation : Uuid} {recovery : Bool} {row : InflightRow}
    {c : Committed Unit} (h : reconnectRow p now event db generation recovery row = .ok c) :
    Calm db c.database := by
  rcases reconnectRow_cases h with rfl | ⟨code, message, -, hfinish⟩
  · exact refl db
  · exact finishTx hfinish

theorem timeoutRow {c : Committed Unit} (h : timeoutRow p now event db id = .ok c) :
    Calm db c.database := by
  rcases timeoutRow_cases h with rfl | ⟨job, -, -, hfinish⟩
  · exact refl db
  · exact finishTx hfinish

theorem expireRow {c : Committed Unit} (h : expireRow p now event db id = .ok c) :
    Calm db c.database := by
  rcases expireRow_cases h with rfl | ⟨message, hfinish⟩
  · exact refl db
  · exact finishTx hfinish

/-- A session that goes on after a transaction. -/
theorem commit {α : Type} {s : Session π} {t : Transaction α} {next : α → Session π}
    (h : ∀ c, t = .ok c → Calm db c.database) : Calm db (s.commit db t next).database := by
  unfold Session.commit
  split
  · exact refl db
  · next c => exact h c rfl

theorem send {full : Bool} {s : Session π} {frame : GatewayMessage π} {next : Phase π} :
    Calm db (s.send full db frame next).database := by
  rw [Session.database_send]
  exact refl db

end Calm

/-! ### Steps -/

/-- Whether a process serves users and hosts. -/
def Process.serves : Process → Bool
  | .up => true
  | _ => false

/-- The teardown of a session that supports recovery and was not revoked. -/
def Session.tearsDown (s : Session π) : SessionAction → Bool
  | .proceed .. =>
    match s.phase with
    | .closing => s.recovery && !s.revoked
    | _ => false
  | _ => false

/-- What the next step of a session outside its loop does to the rows of the jobs. -/
theorem rows_of_proceed {machine : Uuid} {s : Session π} {full : Bool} {t : Turn π}
    (h : s.proceed p now event full db machine = some t) :
    if s.tearsDown (.proceed event full) then
      t.database = disconnected now db machine s.generation
    else Calm db t.database := by
  have hcalm {s' : Session π} (hs : ∀ e f, s'.tearsDown (.proceed e f) = false) {t : Turn π}
      (ht : Calm db t.database) :
      if s'.tearsDown (.proceed event full) then
        t.database = disconnected now db machine s'.generation
      else Calm db t.database := by
    rwa [hs, if_neg Bool.false_ne_true]
  unfold Session.proceed at h
  split at h
  · next hphase =>
    obtain rfl := Option.some.inj h
    exact hcalm (fun _ _ => by rw [Session.tearsDown, hphase]) (.refl db)
  · next hphase =>
    obtain rfl := Option.some.inj h
    exact hcalm (fun _ _ => by rw [Session.tearsDown, hphase]) (.refl db)
  · next hphase =>
    obtain rfl := Option.some.inj h
    exact hcalm (fun _ _ => by rw [Session.tearsDown, hphase])
      (.commit fun c hc => .reconnectRow hc)
  · next hphase =>
    obtain rfl := Option.some.inj h
    exact hcalm (fun _ _ => by rw [Session.tearsDown, hphase]) .send
  · next hphase =>
    obtain rfl := Option.some.inj h
    exact hcalm (fun _ _ => by rw [Session.tearsDown, hphase]) .send
  · next hphase =>
    obtain rfl := Option.some.inj h
    refine hcalm (fun _ _ => by rw [Session.tearsDown, hphase]) ?_
    dsimp only
    split_ifs
    · exact .send
    · exact .refl db
  · next hphase =>
    obtain rfl := Option.some.inj h
    exact hcalm (fun _ _ => by rw [Session.tearsDown, hphase])
      (.commit fun c hc => .finishTx hc)
  · next hphase =>
    obtain rfl := Option.some.inj h
    rw [Session.tearsDown, hphase]
    cases hrecovery : s.recovery <;> cases hrevoked : s.revoked
    · exact .refl db
    · exact .refl db
    · rfl
    · exact .refl db
  · next hphase =>
    refine hcalm (fun _ _ => by rw [Session.tearsDown, hphase]) ?_
    split at h
    · obtain rfl := Option.some.inj h
      exact .refl db
    · next c hc =>
      obtain rfl := Option.some.inj h
      exact .finishTx hc
  · next hphase =>
    obtain rfl := Option.some.inj h
    exact hcalm (fun _ _ => by rw [Session.tearsDown, hphase]) (.refl db)
  · cases h
  · cases h

/-- What a step of a session does to the rows of the jobs. -/
theorem rows_of_turn {machine : Uuid} {s : Session π} {a : SessionAction} {t : Turn π}
    (h : s.step p now db machine a = some t) :
    if s.tearsDown a then t.database = disconnected now db machine s.generation
    else Calm db t.database := by
  cases a with
  | proceed event full => exact rows_of_proceed h
  | dispatch event full locked =>
    show Calm db t.database
    simp only [Session.step, Session.dispatch] at h
    split at h
    · obtain rfl := Option.some.inj h
      split_ifs
      · exact .send
      · exact .refl db
    · split_ifs at h
      · obtain rfl := Option.some.inj h
        exact .commit fun c hc => .dispatchNext hc
      · obtain rfl := Option.some.inj h
        exact .refl db
    · cases h
  | read event frame =>
    show Calm db t.database
    simp only [Session.step, Session.read] at h
    split at h
    · obtain rfl := Option.some.inj h
      cases frame with
      | response r =>
        dsimp only
        split
        · exact .refl db
        · split_ifs
          · exact .commit fun c hc => .response hc
          · exact .refl db
      | accepted id generation =>
        dsimp only
        split_ifs
        · split
          · exact .refl db
          · split_ifs
            · exact .accepted machine generation
            · exact .refl db
        · exact .refl db
      | missing id generation =>
        dsimp only
        split_ifs
        · split
          · exact .refl db
          · split_ifs
            · exact .refl db
            · exact .refl db
        · exact .refl db
    · cases h
  | heartbeat =>
    show Calm db t.database
    simp only [Session.step, Session.heartbeat] at h
    split at h
    · obtain rfl := Option.some.inj h
      exact .refl db
    · cases h
  | leave full =>
    show Calm db t.database
    simp only [Session.step, Session.leave] at h
    split at h
    · split_ifs at h
      obtain rfl := Option.some.inj h
      exact .send
    · cases h
  | fail =>
    show Calm db t.database
    simp only [Session.step, Session.fail] at h
    split at h
    · cases h
    · cases h
    · cases h
    · obtain rfl := Option.some.inj h
      exact .refl db
  | skip =>
    show Calm db t.database
    simp only [Session.step, Session.skip] at h
    split at h
    · split_ifs at h
      obtain rfl := Option.some.inj h
      exact .refl db
    · obtain rfl := Option.some.inj h
      exact .refl db
    · cases h

/-- What a request of a user does to the rows of the jobs. -/
theorem calm_api (g : AppState π) (a : ApiAction) : Calm g.database (g.api p a).1.database := by
  have haside {α : Type} {t : Transaction α} (h : ∀ c, t = .ok c → Calm g.database c.database) :
      Calm g.database (g.commit t).1.database := by
    unfold AppState.commit
    split
    · exact .refl _
    · next c => exact h c rfl
  cases a with
  | createUser => exact haside fun c hc => .of_jobs (aside_createUser hc).jobs
  | updateUser => exact haside fun c hc => .of_jobs (aside_updateUser hc).jobs
  | createMachine => exact haside fun c hc => .of_jobs (aside_createMachine hc).jobs
  | updateMachine => exact haside fun c hc => .of_jobs (aside_updateMachine hc).jobs
  | issueRegistration => exact haside fun c hc => .of_jobs (aside_issueRegistration hc).jobs
  | submit => exact haside fun c hc => .submit hc

theorem calm_commitRevoking {g : AppState π} {machine : Uuid} {t : Transaction Unit}
    (h : ∀ c, t = .ok c → Aside g.database c) :
    Calm g.database (g.commitRevoking machine t).1.database := by
  unfold AppState.commitRevoking
  split
  · exact .refl _
  · next c => exact .of_jobs (h c rfl).jobs

/-- What a step of the maintenance does to the rows of the jobs. -/
theorem calm_maintain (g : AppState π) : Calm g.database (g.maintain p event).1.database := by
  unfold AppState.maintain
  split
  · exact .refl _
  · exact .refl _
  · split
    · exact .refl _
    · next c hc => exact .timeoutRow hc
  · exact .of_jobs rfl
  · split
    · exact .refl _
    · next c hc => exact .expireRow hc

/-- Where a recovery window may open: when a process starts, and in the teardown of a session. -/
inductive Opens (g g' : AppState π) : Action → Prop
  | boot {event : Uuid} (hp : g.process = .starting)
      (hdb : g'.database = markInflight g.clock g.database) : Opens g g' (.boot event)
  | teardown {machine : Uuid} {a : SessionAction} {s : Session π}
      (hs : g.live.lookup machine = some s) (ha : s.tearsDown a = true)
      (hdb : g'.database = disconnected g.clock g.database machine s.generation) :
      Opens g g' (.session machine a)

theorem rows_of_boot {g g' : AppState π} {es : List (Event π)}
    (h : g.boot p event = some (g', es)) :
    Calm g.database g'.database ∨ Opens g g' (.boot event) := by
  unfold AppState.boot at h
  split at h
  · next hp =>
    obtain ⟨rfl, -⟩ := Prod.mk.inj (Option.some.inj h)
    exact Or.inr (.boot hp rfl)
  · obtain ⟨rfl, -⟩ := Prod.mk.inj (Option.some.inj h)
    exact Or.inl (.refl _)
  · split at h
    · obtain ⟨rfl, -⟩ := Prod.mk.inj (Option.some.inj h)
      exact Or.inl (.refl _)
    · next c hc =>
      obtain ⟨rfl, -⟩ := Prod.mk.inj (Option.some.inj h)
      exact Or.inl (.finishTx hc)
  · cases h
  · cases h

theorem rows_of_sessionStep {g g' : AppState π} {machine : Uuid} {a : SessionAction}
    {es : List (Event π)} (h : g.sessionStep p machine a = some (g', es)) :
    Calm g.database g'.database ∨ Opens g g' (.session machine a) := by
  unfold AppState.sessionStep at h
  split at h
  · cases h
  · next s hs =>
    split at h
    · obtain ⟨rfl, -⟩ := Prod.mk.inj (Option.some.inj h)
      exact Or.inl (.refl _)
    · obtain ⟨t, ht, heq⟩ := Option.map_eq_some_iff.mp h
      obtain ⟨rfl, -⟩ := Prod.mk.inj heq
      have hrows := rows_of_turn ht
      split_ifs at hrows with htears
      · exact Or.inr (.teardown hs htears hrows)
      · exact Or.inl hrows

theorem rows_of_serve {g g' : AppState π} {a : Action} {es : List (Event π)}
    (h : g.serve p a = some (g', es)) : Calm g.database g'.database ∨ Opens g g' a := by
  cases a with
  | maintain event =>
    obtain ⟨rfl, -⟩ := Prod.mk.inj (Option.some.inj h)
    exact Or.inl (calm_maintain g)
  | maintenanceFails =>
    obtain ⟨rfl, -⟩ := Prod.mk.inj (Option.some.inj h)
    exact Or.inl (.refl _)
  | api b =>
    obtain ⟨rfl, -⟩ := Prod.mk.inj (Option.some.inj h)
    exact Or.inl (calm_api g b)
  | register machine token installation credential =>
    obtain ⟨rfl, -⟩ := Prod.mk.inj (Option.some.inj h)
    exact Or.inl (calm_commitRevoking fun c hc => (register_cases hc).1)
  | remove user machine =>
    obtain ⟨rfl, -⟩ := Prod.mk.inj (Option.some.inj h)
    exact Or.inl (calm_commitRevoking fun c hc => (remove_cases hc).1)
  | revoke machine =>
    simp only [AppState.serve] at h
    split_ifs at h
    obtain ⟨rfl, -⟩ := Prod.mk.inj (Option.some.inj h)
    exact Or.inl (.refl _)
  | upgrade connection machine credential =>
    simp only [AppState.serve, AppState.upgrade] at h
    split_ifs at h
    split at h
    · cases h
    · obtain ⟨rfl, -⟩ := Prod.mk.inj (Option.some.inj h)
      exact Or.inl (.refl _)
  | hello connection hello =>
    simp only [AppState.serve, AppState.hello] at h
    split at h
    · cases h
    · split_ifs at h
      all_goals
        obtain ⟨rfl, -⟩ := Prod.mk.inj (Option.some.inj h)
        exact Or.inl (.refl _)
  | session machine a => exact rows_of_sessionStep h
  | tick n => cases h
  | start => cases h
  | crash => cases h
  | boot event => cases h

/-- What a step of the gateway does to the rows of the jobs. -/
theorem rows_of_step {g g' : AppState π} {a : Action} {es : List (Event π)}
    (h : g.step p a = some (g', es)) : Calm g.database g'.database ∨ Opens g g' a := by
  unfold AppState.step at h
  split_ifs at h
  split at h
  · obtain ⟨rfl, -⟩ := Prod.mk.inj (Option.some.inj h)
    exact Or.inl (.refl _)
  · obtain ⟨rfl, -⟩ := Prod.mk.inj (Option.some.inj h)
    exact Or.inl (.refl _)
  · obtain ⟨rfl, -⟩ := Prod.mk.inj (Option.some.inj h)
    exact Or.inl (.refl _)
  · exact rows_of_boot h
  · exact rows_of_serve h
  · cases h

/-- **Ended jobs.** A job that has ended keeps its row. -/
theorem lookup_of_ended {g g' : AppState π} {a : Action} {es : List (Event π)} {job : Job}
    (h : g.step p a = some (g', es)) (hjob : g.database.jobs.lookup id = some job)
    (hfinal : job.status.isFinal = true) : g'.database.jobs.lookup id = some job := by
  have hnot : job.status.isInflight = false := by
    by_contra hin
    rw [JobStatus.isFinal_of_isInflight (by simpa using hin)] at hfinal
    cases hfinal
  rcases rows_of_step h with hcalm | hopens
  · obtain ⟨job', hjob', hc⟩ := hcalm.old id job hjob
    cases hc with
    | keep => exact hjob'
    | dispatch hqueued =>
      rw [hqueued] at hfinal
      cases hfinal
    | accept hin => cases hnot.symm.trans hin
    | settle hopen => cases hopen.symm.trans hfinal
  · cases hopens with
    | boot _ hdb =>
      rw [hdb, markInflight, Table.lookup_mapRows, hjob]
      simp [hnot]
    | teardown _ _ hdb =>
      rw [hdb, disconnected, Table.lookup_mapRows, hjob]
      simp [hnot]

end ExecutionProvider.Gateway
