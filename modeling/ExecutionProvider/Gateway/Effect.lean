import ExecutionProvider.Gateway.Session

/-!
# The effects of a step of the gateway

A step of the gateway does one of a few things to what matters across processes: the jobs, the
frames on the sockets, and the promises that a session has made and not yet kept, namely the
request it is about to send, the receipts it will ask for, the receipt it is about to release,
and the receipt it has learned is missing.

## Main definitions

* `Session.sending`, `Session.asking`, `Session.releasing`, `Session.missing`: the promises of a
  session.
* `Settlement.Plain`: an outcome that owes nothing to an answer of a host.
* `TurnEffect`, `Effect`: what a step of a session, or of the gateway, does.

## Main results

* `turnEffect_of_step`, `effect_of_step`: every step has one of these effects.
-/

namespace ExecutionProvider.Gateway

open Protocol

variable {π : Type}

/-! ### The promises of a session -/

/-- The jobs that a session is about to settle, to keep or to take on. -/
def Phase.jobs : Phase π → List Uuid
  | reconnecting rows kept => kept ++ rows.map InflightRow.id
  | dispatched job _ | missed _ job => [job]
  | losing jobs => jobs
  | _ => []

namespace Session

/-- The job whose request is about to be sent. -/
def sending (s : Session π) : Option (Uuid × Request π) :=
  match s.phase with
  | .dispatched job request => some (job, request)
  | _ => none

/-- The jobs for whose receipts the session will ask. -/
def asking (s : Session π) : List Uuid :=
  match s.phase with
  | .reconnecting rows kept =>
    kept ++ (rows.filter fun row => row.recoverable s.generation s.recovery).map InflightRow.id
  | .serving recovering | .responded recovering _ | .missed recovering _ => recovering
  | _ => []

/-- The job whose receipt is about to be released. -/
def releasing (s : Session π) : Option Uuid :=
  match s.phase with
  | .responded _ job => some job
  | _ => none

/-- The job that is about to be settled for its missing receipt. -/
def missing (s : Session π) : Option Uuid :=
  match s.phase with
  | .missed _ job => some job
  | _ => none

/-- The jobs that a session may settle: those that are pending, and those of its phase. -/
def jobs (s : Session π) : List Uuid := s.pending ++ s.phase.jobs

/-- Whether the session has not sent anything yet. -/
def fresh (s : Session π) : Bool :=
  match s.phase with
  | .opening | .checked | .reconnecting .. => true
  | _ => false

/-- The same session, with no promise that it did not make before. -/
structure Within (s' s : Session π) : Prop where
  id : s'.id = s.id
  version : s'.version = s.version
  recovery : s'.recovery = s.recovery
  generation : s'.generation = s.generation
  sending : s'.sending = none ∨ s'.sending = s.sending
  asking : s'.asking ⊆ s.asking
  releasing : s'.releasing = none ∨ s'.releasing = s.releasing
  missing : s'.missing = none ∨ s'.missing = s.missing
  fresh : s'.fresh = true → s.fresh = true
  jobs : s'.jobs ⊆ s.jobs

end Session

/-! ### Outcomes -/

/-- Whether an outcome is an error with a given code. -/
def Settlement.reports (σ : Settlement) (code : String) : Prop :=
  ∃ error, σ.error = some error ∧ error.get "code" = some (.str code)

/-- An outcome that owes nothing to an answer of a host. A job fails so only while it is
queued. -/
structure Settlement.Plain (db : Database) (σ : Settlement) : Prop where
  response : σ.response = none
  notMissing : ¬σ.reports "receipt_missing"
  queued : σ.status = .failed → ∃ job, db.jobs.lookup σ.job = some job ∧ job.status = .queued

theorem get_errorValue (code message : String) :
    (errorValue code message).get "code" = some (.str code) :=
  Json.get_mkObj (by simp) (by simp)

theorem GatewayError.get_value (e : GatewayError) : e.value.get "code" = some (.str e.code) :=
  get_errorValue e.code e.message

/-! ### Effects -/

section

variable (p : Platform π)

/-- What a step of a session does. -/
inductive TurnEffect (now : ℕ) (db : Database) (machine : Uuid) (s : Session π) (t : Turn π) :
    SessionAction → Prop
  | plain {a : SessionAction} {σs : List Settlement} (hc : Change p db t.database σs)
      (ht : Tended db t.database) (hσ : ∀ σ ∈ σs, σ.Plain db) (hs : t.session.Within s)
      (he : t.events = settledEvents σs) : TurnEffect now db machine s t a
  | greet {a : SessionAction} {frame : GatewayMessage π} (hdb : t.database = db)
      (hs : t.session.Within s) (hdone : t.session.sending = none)
      (hfresh : t.session.fresh = false)
      (hf : frame = .welcome s.recovery ∨ ∃ code, frame = .disconnect code)
      (he : t.events = [.sent s.id frame]) : TurnEffect now db machine s t a
  | survey {a : SessionAction} (hdb : t.database = db) (hphase : s.phase = .checked)
      (hrows : ∀ row ∈ reconnectRows now db machine, row.previous.isSome)
      (hs : t.session = s.go (.reconnecting (reconnectRows now db machine) []))
      (he : t.events = []) : TurnEffect now db machine s t a
  | dispatch {a : SessionAction} {id : Uuid} {job : Job} {request : Request π}
      (hphase : s.phase = .serving []) (hjob : db.jobs.lookup id = some job)
      (hstatus : job.status = .queued) (hmachine : job.machineId = machine)
      (hrequest : request.requestId = id.text)
      (hdb : t.database = { db with
        jobs := db.jobs.modify id fun job => job.dispatch now s.generation s.recovery })
      (hs : t.session = s.go (.dispatched id request)) (he : t.events = []) :
      TurnEffect now db machine s t a
  | request {a : SessionAction} {id : Uuid} {request : Request π} (hdb : t.database = db)
      (hsending : s.sending = some (id, request)) (hs : t.session.Within s)
      (hdone : t.session.sending = none) (hfresh : t.session.fresh = false)
      (he : t.events = [.sent s.id (.request request)]) : TurnEffect now db machine s t a
  | recover {a : SessionAction} {id : Uuid} (hdb : t.database = db) (hid : id ∈ s.asking)
      (hs : t.session.Within s) (hdone : t.session.sending = none)
      (hfresh : t.session.fresh = false)
      (he : t.events = [.sent s.id (.recover id.text s.generation)]) :
      TurnEffect now db machine s t a
  | answer {event id : Uuid} {recovering : List Uuid} {r : Response} {c : Committed Unit}
      (hphase : s.phase = .serving recovering) (hid : r.requestId.bind Uuid.parse = some id)
      (htakes : s.takes r id) (hc : response p now event db machine s.generation id r = .ok c)
      (hdb : t.database = c.database) (hs : t.session = s.go (.responded recovering id))
      (he : t.events = settledEvents c.settled) :
      TurnEffect now db machine s t (.read event (.response r))
  | acknowledge {a : SessionAction} {id : Uuid} (hdb : t.database = db)
      (hid : s.releasing = some id) (hs : t.session.Within s) (hdone : t.session.sending = none)
      (hfresh : t.session.fresh = false)
      (he : t.events = [.sent s.id (.acknowledge id.text s.generation)]) :
      TurnEffect now db machine s t a
  | miss {event id : Uuid} {text : String} {recovering : List Uuid}
      (hphase : s.phase = .serving recovering) (hid : Uuid.parse text = some id)
      (hpending : id ∈ s.pending) (hdb : t.database = db)
      (hs : t.session = { s with pending := s.pending.erase id }.go (.missed recovering id))
      (he : t.events = []) :
      TurnEffect now db machine s t (.read event (.missing text s.generation))
  | lose {a : SessionAction} {event id : Uuid} {c : Committed Unit} (hid : s.missing = some id)
      (hc : finishMissing p now event db id = .ok c) (hdb : t.database = c.database)
      (hs : t.session.Within s) (he : t.events = settledEvents c.settled) :
      TurnEffect now db machine s t a

/-- What a step of the gateway does. -/
inductive Effect (g g' : AppState π) : Action → List (Event π) → Prop
  | plain {a : Action} {σs : List Settlement} (hc : Change p g.database g'.database σs)
      (ht : Tended g.database g'.database) (hσ : ∀ σ ∈ σs, σ.Plain g.database)
      (hl : ∀ m s', g'.live.lookup m = some s' → ∃ s, g.live.lookup m = some s ∧ s'.Within s)
      (hh : ∀ k h, g'.handshakes.lookup k = some h → g.handshakes.lookup k = some h) :
      Effect g g' a (settledEvents σs)
  | upgrade {connection machine : Uuid} {credential : String} {h : Handshake}
      (hc : connection ∉ g.handshakes) (hm : h.machine = machine) (hdb : g'.database = g.database)
      (hl : g'.live = g.live) (hh : g'.handshakes = g.handshakes.insert connection h) :
      Effect g g' (.upgrade connection machine credential) []
  | refuse {connection : Uuid} {hello : Hello} (hc : connection ∈ g.handshakes)
      (hdb : g'.database = g.database) (hl : g'.live = g.live)
      (hh : g'.handshakes = g.handshakes.erase connection) :
      Effect g g' (.hello connection hello) [.sent connection (.disconnect .incompatibleProtocol)]
  | open {connection : Uuid} {hello : Hello} {h : Handshake}
      (hc : g.handshakes.lookup connection = some h) (hslot : h.machine ∉ g.live)
      (hdb : g'.database = g.database)
      (hl : g'.live = g.live.insert h.machine (.init connection h.version hello))
      (hh : g'.handshakes = g.handshakes.erase connection) :
      Effect g g' (.hello connection hello) []
  | turn {machine : Uuid} {a : SessionAction} {s : Session π} {t : Turn π}
      (hs : g.live.lookup machine = some s)
      (ht : TurnEffect p g.clock g.database machine s t a) (hdb : g'.database = t.database)
      (hl : g'.live = g.live.insert machine t.session) (hh : g'.handshakes = g.handshakes) :
      Effect g g' (.session machine a) t.events

end

/-! ### Steps of a session -/

section

variable {p : Platform π} {now : ℕ} {event : Uuid} {db : Database}

theorem Session.Within.refl (s : Session π) : s.Within s :=
  ⟨rfl, rfl, rfl, rfl, Or.inr rfl, fun _ h => h, Or.inr rfl, Or.inr rfl, fun h => h, fun _ h => h⟩

theorem Session.pending_subset_jobs (s : Session π) : s.pending ⊆ s.jobs :=
  List.subset_append_left _ _

/-- A session without promises in the same connection. -/
theorem Session.Within.of_idle {s s' : Session π} (hid : s'.id = s.id)
    (hversion : s'.version = s.version) (hrecovery : s'.recovery = s.recovery)
    (hgeneration : s'.generation = s.generation) (hpending : s'.pending ⊆ s.jobs)
    (hjobs : s'.phase.jobs ⊆ s.jobs) (hsending : s'.sending = none)
    (hasking : s'.asking ⊆ s.asking) (hreleasing : s'.releasing = none)
    (hmissing : s'.missing = none) (hfresh : s'.fresh = true → s.fresh = true) : s'.Within s :=
  ⟨hid, hversion, hrecovery, hgeneration, Or.inl hsending, hasking, Or.inl hreleasing,
    Or.inl hmissing, hfresh, List.append_subset.mpr ⟨hpending, hjobs⟩⟩

theorem Settlement.Plain.of_error {σ : Settlement} {code message : String}
    (hr : σ.response = none) (he : σ.error = some (errorValue code message))
    (hcode : code ≠ "receipt_missing") (hs : σ.status = .unknown) : σ.Plain db := by
  refine ⟨hr, ?_, fun hfailed => ?_⟩
  · rintro ⟨error, herror, hget⟩
    rw [he] at herror
    obtain rfl := Option.some.inj herror
    rw [get_errorValue] at hget
    exact hcode (Json.str.inj (Option.some.inj hget))
  · rw [hs] at hfailed
    cases hfailed

/-- A job that is lost for another reason than a missing receipt. -/
theorem plain_of_finish {id : Uuid} {code message : String} {c : Committed Unit}
    (h : finish p now event db id .unknown (errorValue code message) = .ok c)
    (hcode : code ≠ "receipt_missing") : ∀ σ ∈ c.settled, σ.Plain db := by
  intro σ hσ
  obtain ⟨-, hs, hr, he⟩ := settled_of_finishTx h hσ
  exact .of_error hr he hcode hs

/-- The errors with which a queued job fails. -/
theorem plain_of_failed {id : Uuid} {job : Job} {error : Json} {c : Committed Unit}
    (hjob : db.jobs.lookup id = some job) (hstatus : job.status = .queued)
    (hcode : error.get "code" ≠ some (.str "receipt_missing"))
    (h : finishTx p now event db id .failed none (some error) = .ok c) :
    ∀ σ ∈ c.settled, σ.Plain db := by
  intro σ hσ
  obtain ⟨hid, -, hr, he⟩ := settled_of_finishTx h hσ
  refine ⟨hr, ?_, fun _ => ⟨job, hid ▸ hjob, hstatus⟩⟩
  rintro ⟨error', herror, hget⟩
  rw [he] at herror
  obtain rfl := Option.some.inj herror
  exact hcode hget

/-- A session that ends keeps no promise. -/
theorem Session.Within.closing {s s' : Session π} (hid : s'.id = s.id)
    (hversion : s'.version = s.version) (hrecovery : s'.recovery = s.recovery)
    (hgeneration : s'.generation = s.generation) (hpending : s'.pending ⊆ s.jobs)
    (hphase : s'.phase = .closing) : s'.Within s := by
  refine .of_idle hid hversion hrecovery hgeneration hpending ?_ ?_ ?_ ?_ ?_ ?_
  · rw [hphase]
    exact List.nil_subset _
  · rw [Session.sending, hphase]
  · rw [Session.asking, hphase]
    exact List.nil_subset _
  · rw [Session.releasing, hphase]
  · rw [Session.missing, hphase]
  · rw [Session.fresh, hphase]
    exact nofun

variable {machine : Uuid} {s : Session π} {a : SessionAction}

/-- A session in another phase with no promise of its own. -/
theorem Session.Within.go {phase : Phase π} (hjobs : phase.jobs ⊆ s.jobs)
    (hsending : (s.go phase).sending = none) (hasking : (s.go phase).asking ⊆ s.asking)
    (hreleasing : (s.go phase).releasing = none) (hmissing : (s.go phase).missing = none)
    (hfresh : (s.go phase).fresh = true → s.fresh = true) : (s.go phase).Within s :=
  .of_idle rfl rfl rfl rfl s.pending_subset_jobs hjobs hsending hasking hreleasing hmissing hfresh

theorem Session.Within.goClosing (s : Session π) : (s.go .closing).Within s :=
  .closing rfl rfl rfl rfl s.pending_subset_jobs rfl

/-- A step that leaves the database alone and sends nothing. -/
theorem TurnEffect.idle {s' : Session π} (hs : s'.Within s) :
    TurnEffect p now db machine s ⟨db, s', []⟩ a :=
  .plain (.keep rfl rfl) (.refl db) (by simp) hs rfl

/-- A step that settles a job for another reason than a missing receipt. -/
theorem TurnEffect.finish {id : Uuid} {code message : String} {c : Committed Unit}
    {s' : Session π}
    (hc : finish p now event db id .unknown (errorValue code message) = .ok c)
    (hcode : code ≠ "receipt_missing") (hs : s'.Within s) :
    TurnEffect p now db machine s ⟨c.database, s', settledEvents c.settled⟩ a :=
  .plain (change_finishTx hc) (tended_finishTx hc) (plain_of_finish hc hcode) hs rfl

theorem turnEffect_commit {α : Type} {s₀ : Session π} {t : Transaction α} {next : α → Session π}
    (hclosing : (s₀.go .closing).Within s)
    (hok : ∀ c, t = .ok c →
      TurnEffect p now db machine s ⟨c.database, next c.value, settledEvents c.settled⟩ a) :
    TurnEffect p now db machine s (s₀.commit db t next) a := by
  unfold Session.commit
  split
  · exact .idle hclosing
  · next c => exact hok c rfl

theorem Session.database_send {full : Bool} {frame : GatewayMessage π} {next : Phase π} :
    (s.send full db frame next).database = db := by
  unfold Session.send
  split_ifs <;> rfl

theorem turnEffect_send {full : Bool} {s₀ : Session π} {frame : GatewayMessage π} {next : Phase π}
    (hclosing : (s₀.go .closing).Within s)
    (hok : full = false →
      TurnEffect p now db machine s ⟨db, s₀.go next, [.sent s₀.id frame]⟩ a) :
    TurnEffect p now db machine s (s₀.send full db frame next) a := by
  unfold Session.send
  split_ifs with hfull
  · exact .idle hclosing
  · exact hok (by simpa using hfull)

private theorem asking_reconnecting {row : InflightRow} {rows : List InflightRow}
    {kept : List Uuid} (hphase : s.phase = .reconnecting (row :: rows) kept) :
    (s.go (.reconnecting rows (if row.recoverable s.generation s.recovery then kept ++ [row.id]
      else kept))).asking ⊆ s.asking := by
  simp only [Session.asking, hphase, Session.go]
  rw [List.filter_cons]
  split_ifs
  · rw [List.map_cons, List.append_assoc]
    exact List.Subset.refl _
  · exact List.Subset.refl _

theorem turnEffect_of_proceed {full : Bool} {t : Turn π}
    (h : s.proceed p now event full db machine = some t) :
    TurnEffect p now db machine s t (.proceed event full) := by
  unfold Session.proceed at h
  split at h
  · next hphase =>
    obtain rfl := Option.some.inj h
    have hfresh : s.fresh = true := by rw [Session.fresh, hphase]
    dsimp only [Session.turn]
    split_ifs
    · exact .idle (.go (List.nil_subset _) rfl (List.nil_subset _) rfl rfl fun _ => hfresh)
    · exact .idle (.goClosing s)
  · next hphase =>
    obtain rfl := Option.some.inj h
    dsimp only [Session.turn]
    split_ifs with hrows
    · exact .idle (.goClosing s)
    · refine .survey rfl hphase (fun row hrow => ?_) rfl rfl
      by_contra hnone
      exact hrows (List.any_eq_true.mpr ⟨row, hrow, by simpa using hnone⟩)
  · next row rows kept hphase =>
    obtain rfl := Option.some.inj h
    refine turnEffect_commit (.goClosing s) fun c hc => ?_
    have hfresh : s.fresh = true := by rw [Session.fresh, hphase]
    have hjobs : (if row.recoverable s.generation s.recovery then kept ++ [row.id] else kept) ++
        rows.map InflightRow.id ⊆ s.jobs := by
      rw [Session.jobs, hphase, Phase.jobs, List.map_cons]
      split_ifs <;> grind
    have hwithin : (s.go (.reconnecting rows (if row.recoverable s.generation s.recovery then
        kept ++ [row.id] else kept))).Within s :=
      .go hjobs rfl (asking_reconnecting hphase) rfl rfl
        fun _ => hfresh
    rcases reconnectRow_cases hc with rfl | ⟨code, message, hcode, hfinish⟩
    · exact .plain (.keep rfl rfl) (.refl _) (by simp) hwithin rfl
    · exact .finish hfinish hcode hwithin
  · next kept hphase =>
    obtain rfl := Option.some.inj h
    have hpending : kept ⊆ s.jobs := by
      rw [Session.jobs, hphase, Phase.jobs]
      grind
    refine turnEffect_send (.closing rfl rfl rfl rfl hpending rfl) fun _ => ?_
    have hasking : kept ⊆ s.asking := by
      rw [Session.asking, hphase]
      exact List.subset_append_left _ _
    exact .greet rfl (.of_idle rfl rfl rfl rfl hpending (List.nil_subset _) rfl hasking rfl rfl
      nofun) rfl rfl (Or.inl rfl) rfl
  · next job request hphase =>
    obtain rfl := Option.some.inj h
    have hpending : s.pending.insert job ⊆ s.jobs := by
      rw [Session.jobs, hphase, Phase.jobs]
      grind
    refine turnEffect_send (.closing rfl rfl rfl rfl hpending rfl) fun _ => ?_
    have hsending : s.sending = some (job, request) := by rw [Session.sending, hphase]
    exact .request rfl hsending
      (.of_idle rfl rfl rfl rfl hpending (List.nil_subset _) rfl (List.nil_subset _) rfl rfl nofun)
      rfl rfl rfl
  · next recovering job hphase =>
    obtain rfl := Option.some.inj h
    have hasking : recovering ⊆ s.asking := by
      rw [Session.asking, hphase]
      exact List.Subset.refl _
    have hreleasing : s.releasing = some job := by rw [Session.releasing, hphase]
    have hpending : s.pending.erase job ⊆ s.jobs :=
      List.Subset.trans List.erase_subset s.pending_subset_jobs
    dsimp only
    split_ifs
    · refine turnEffect_send (.closing rfl rfl rfl rfl hpending rfl) fun _ => ?_
      exact .acknowledge rfl hreleasing (.of_idle rfl rfl rfl rfl hpending (List.nil_subset _) rfl
        hasking rfl rfl nofun) rfl rfl rfl
    · exact .idle (.of_idle rfl rfl rfl rfl hpending (List.nil_subset _) rfl hasking rfl rfl nofun)
  · next recovering job hphase =>
    obtain rfl := Option.some.inj h
    refine turnEffect_commit (.goClosing s) fun c hc => ?_
    have hasking : recovering ⊆ s.asking := by
      rw [Session.asking, hphase]
      exact List.Subset.refl _
    have hmissing : s.missing = some job := by rw [Session.missing, hphase]
    exact .lose hmissing hc rfl (.go (List.nil_subset _) rfl hasking rfl rfl nofun) rfl
  · next hphase =>
    obtain rfl := Option.some.inj h
    dsimp only
    split_ifs
    · exact .plain (change_disconnected _ _) (.of_same rfl rfl) (by simp)
        (.of_idle rfl rfl rfl rfl s.pending_subset_jobs (List.nil_subset _) rfl (List.nil_subset _)
          rfl rfl nofun) rfl
    · exact .idle (.of_idle rfl rfl rfl rfl s.pending_subset_jobs s.pending_subset_jobs rfl
        (List.nil_subset _) rfl rfl nofun)
  · next job jobs hphase =>
    have hjobs : jobs ⊆ s.jobs := by
      rw [Session.jobs, hphase, Phase.jobs]
      grind
    split at h
    · obtain rfl := Option.some.inj h
      exact .idle (.go hjobs rfl (List.nil_subset _) rfl rfl nofun)
    · next c hc =>
      obtain rfl := Option.some.inj h
      exact .finish hc (by decide) (.go hjobs rfl (List.nil_subset _) rfl rfl nofun)
  · next hphase =>
    obtain rfl := Option.some.inj h
    exact .idle (.go (List.nil_subset _) rfl (List.nil_subset _) rfl rfl nofun)
  · cases h
  · cases h

theorem turnEffect_of_dispatch {full : Bool} {locked : List Uuid} {t : Turn π}
    (h : s.dispatch p now event full db machine locked = some t) :
    TurnEffect p now db machine s t (.dispatch event full locked) := by
  unfold Session.dispatch at h
  split at h
  · next job recovering hphase =>
    obtain rfl := Option.some.inj h
    have hasking : recovering ⊆ s.asking := by
      rw [Session.asking, hphase]
      exact List.subset_cons_self _ _
    have hjob : job ∈ s.asking := by
      rw [Session.asking, hphase]
      exact List.mem_cons_self
    split_ifs
    · refine turnEffect_send (.goClosing s) fun _ => ?_
      exact .recover rfl hjob (.go (List.nil_subset _) rfl hasking rfl rfl nofun) rfl rfl rfl
    · exact .idle (.go (List.nil_subset _) rfl hasking rfl rfl nofun)
  · next hphase =>
    split_ifs at h
    · obtain rfl := Option.some.inj h
      refine turnEffect_commit (.goClosing s) fun c hc => ?_
      rcases dispatchNext_cases hc with rfl | ⟨id, job, e, c', hjob, hstatus, hcode, hfinish, rfl⟩ |
        ⟨id, job, request, hjob, hstatus, hmachine, hrequest, rfl⟩
      · exact .idle (.refl s)
      · refine .plain (change_finishTx hfinish) (tended_finishTx hfinish)
          (plain_of_failed hjob hstatus ?_ hfinish) (.refl s) rfl
        rw [e.get_value]
        exact fun heq => hcode (Json.str.inj (Option.some.inj heq))
      · exact .dispatch hphase hjob hstatus hmachine hrequest rfl rfl rfl
    · obtain rfl := Option.some.inj h
      exact .idle (.refl s)
  · cases h

theorem turnEffect_of_read {frame : HostMessage} {t : Turn π}
    (h : s.read p now event db machine frame = some t) :
    TurnEffect p now db machine s t (.read event frame) := by
  unfold Session.read at h
  split at h
  · next recovering hphase =>
    obtain rfl := Option.some.inj h
    cases frame with
    | response r =>
      dsimp only
      split
      · exact .idle (.goClosing s)
      · next job hjob =>
        split_ifs with htakes
        · refine turnEffect_commit (.goClosing s) fun c hc => ?_
          exact .answer hphase hjob htakes hc rfl rfl rfl
        · exact .idle (.goClosing s)
    | accepted id generation =>
      dsimp only
      split_ifs
      · split
        · exact .idle (.goClosing s)
        · split_ifs
          · exact .plain (change_accepted _ _ _) (.of_same rfl rfl) (by simp) (.refl s) rfl
          · exact .idle (.refl s)
      · exact .idle (.goClosing s)
    | missing id generation =>
      dsimp only
      split_ifs with hcond
      · obtain ⟨-, rfl⟩ := hcond
        split
        · exact .idle (.goClosing s)
        · next job hjob =>
          split_ifs
          · exact .miss hphase hjob ‹_› rfl rfl rfl
          · exact .idle (.refl s)
      · exact .idle (.goClosing s)
  · cases h

/-- Every step of a session has one of the effects. -/
theorem turnEffect_of_step {t : Turn π} (h : s.step p now db machine a = some t) :
    TurnEffect p now db machine s t a := by
  cases a with
  | proceed event full => exact turnEffect_of_proceed h
  | dispatch event full locked => exact turnEffect_of_dispatch h
  | read event frame => exact turnEffect_of_read h
  | heartbeat =>
    simp only [Session.step, Session.heartbeat] at h
    split at h
    · obtain rfl := Option.some.inj h
      exact .idle ⟨rfl, rfl, rfl, rfl, Or.inr rfl, fun _ h => h, Or.inr rfl, Or.inr rfl,
        fun h => h, fun _ h => h⟩
    · cases h
  | leave full =>
    simp only [Session.step, Session.leave] at h
    split at h
    · split_ifs at h
      obtain rfl := Option.some.inj h
      refine turnEffect_send (.closing rfl rfl rfl rfl s.pending_subset_jobs rfl) fun _ => ?_
      exact .greet rfl (.closing rfl rfl rfl rfl s.pending_subset_jobs rfl) rfl rfl
        (Or.inr ⟨_, rfl⟩) rfl
    · cases h
  | fail =>
    simp only [Session.step, Session.fail] at h
    split at h
    · cases h
    · cases h
    · cases h
    · obtain rfl := Option.some.inj h
      exact .idle (.goClosing s)
  | skip =>
    simp only [Session.step, Session.skip] at h
    split at h
    · split_ifs at h
      obtain rfl := Option.some.inj h
      exact .idle (.go (List.nil_subset _) rfl (List.nil_subset _) rfl rfl nofun)
    · next job jobs hphase =>
      have hjobs : jobs ⊆ s.jobs := by
        rw [Session.jobs, hphase, Phase.jobs]
        grind
      obtain rfl := Option.some.inj h
      exact .idle (.go hjobs rfl (List.nil_subset _) rfl rfl nofun)
    · cases h

end

/-! ### Steps of the gateway -/

section

variable {p : Platform π} {g g' : AppState π} {es : List (Event π)}

/-- A step outside the sessions that settles no job for an answer of a host. -/
theorem Effect.of_database {a : Action} {σs : List Settlement}
    (hc : Change p g.database g'.database σs) (ht : Tended g.database g'.database)
    (hσ : ∀ σ ∈ σs, σ.Plain g.database) (hl : g'.live = g.live)
    (hh : g'.handshakes = g.handshakes) : Effect p g g' a (settledEvents σs) :=
  .plain hc ht hσ (fun _ s' hs' => ⟨s', hl ▸ hs', .refl s'⟩) fun _ _ hk => hh ▸ hk

/-- A step that settles no job. -/
theorem Effect.of_unsettled {a : Action} (hc : Change p g.database g'.database [])
    (ht : Tended g.database g'.database)
    (hl : ∀ m s', g'.live.lookup m = some s' → ∃ s, g.live.lookup m = some s ∧ s'.Within s)
    (hh : ∀ k h, g'.handshakes.lookup k = some h → g.handshakes.lookup k = some h) :
    Effect p g g' a [] :=
  .plain hc ht (by simp) hl hh

/-- A step that has nothing to do with jobs. -/
theorem Effect.of_same {a : Action} (hdb : g'.database = g.database) (hl : g'.live = g.live)
    (hh : g'.handshakes = g.handshakes) : Effect p g g' a [] :=
  .of_unsettled (hdb ▸ .keep rfl rfl) (hdb ▸ .refl _)
    (fun _ s' hs' => ⟨s', hl ▸ hs', .refl s'⟩) fun _ _ hk => hh ▸ hk

/-- A step that settles a job for another reason than a missing receipt. -/
theorem Effect.finish {a : Action} {event id : Uuid} {code message : String} {c : Committed Unit}
    (hc : finish p g.clock event g.database id .unknown (errorValue code message) = .ok c)
    (hcode : code ≠ "receipt_missing") (hdb : g'.database = c.database) (hl : g'.live = g.live)
    (hh : g'.handshakes = g.handshakes) : Effect p g g' a (settledEvents c.settled) :=
  .of_database (hdb ▸ change_finishTx hc) (hdb ▸ tended_finishTx hc) (plain_of_finish hc hcode) hl
    hh

theorem effect_commit {α : Type} {t : Transaction α} {a : Action}
    (ht : ∀ c, t = .ok c → c.settled = [] ∧ Change p g.database c.database [] ∧
      Tended g.database c.database) :
    Effect p g (g.commit t).1 a (g.commit t).2 := by
  unfold AppState.commit
  split
  · exact .of_same rfl rfl rfl
  · next c =>
    obtain ⟨hσ, hc, htended⟩ := ht c rfl
    rw [hσ]
    exact .of_database hc htended (by simp) rfl rfl

theorem Aside.change {α : Type} {db : Database} {c : Committed α} (h : Aside db c) :
    c.settled = [] ∧ Change p db c.database [] ∧ Tended db c.database :=
  ⟨h.settled, .keep h.jobs h.webhookDeliveries, h.tended⟩

theorem effect_api (a : Action) (b : ApiAction) : Effect p g (g.api p b).1 a (g.api p b).2 := by
  cases b with
  | createUser => exact effect_commit fun c hc => (aside_createUser hc).change
  | updateUser => exact effect_commit fun c hc => (aside_updateUser hc).change
  | createMachine => exact effect_commit fun c hc => (aside_createMachine hc).change
  | updateMachine => exact effect_commit fun c hc => (aside_updateMachine hc).change
  | issueRegistration => exact effect_commit fun c hc => (aside_issueRegistration hc).change
  | submit => exact effect_commit fun c hc => change_submit hc

theorem effect_commitRevoking {t : Transaction Unit} {machine : Uuid} {a : Action}
    (ht : ∀ c, t = .ok c → Aside g.database c) :
    Effect p g (g.commitRevoking machine t).1 a (g.commitRevoking machine t).2 := by
  unfold AppState.commitRevoking
  split
  · exact .of_same rfl rfl rfl
  · next c =>
    obtain ⟨hσ, hc, htended⟩ := (ht c rfl).change (p := p)
    rw [hσ]
    exact .of_database hc htended (by simp) rfl rfl

theorem effect_boot {event : Uuid} {a : Action} (h : g.boot p event = some (g', es)) :
    Effect p g g' a es := by
  unfold AppState.boot at h
  split at h
  · obtain ⟨rfl, rfl⟩ := Prod.mk.inj (Option.some.inj h)
    exact .of_unsettled change_markInflight (.of_same rfl rfl)
      (fun _ s' hs' => ⟨s', hs', .refl s'⟩) fun _ _ hk => hk
  · obtain ⟨rfl, rfl⟩ := Prod.mk.inj (Option.some.inj h)
    exact .of_same rfl rfl rfl
  · split at h
    · obtain ⟨rfl, rfl⟩ := Prod.mk.inj (Option.some.inj h)
      exact .of_same rfl rfl rfl
    · next c hc =>
      obtain ⟨rfl, rfl⟩ := Prod.mk.inj (Option.some.inj h)
      exact .finish hc (by decide) rfl rfl rfl
  · cases h
  · cases h

theorem effect_maintain {event : Uuid} {a : Action} :
    Effect p g (g.maintain p event).1 a (g.maintain p event).2 := by
  unfold AppState.maintain
  split
  · exact .of_same rfl rfl rfl
  · exact .of_same rfl rfl rfl
  · split
    · exact .of_same rfl rfl rfl
    · next c hc =>
      rcases timeoutRow_cases hc with rfl | ⟨job, hjob, hstatus, hfinish⟩
      · exact .of_same rfl rfl rfl
      · refine .of_database (change_finishTx hfinish) (tended_finishTx hfinish)
          (plain_of_failed hjob hstatus ?_ hfinish) rfl rfl
        rw [get_errorValue]
        simp
  · exact .of_unsettled (.keep rfl rfl) (.of_same rfl rfl)
      (fun _ s' hs' => ⟨s', hs', .refl s'⟩) fun _ _ hk => hk
  · split
    · exact .of_same rfl rfl rfl
    · next c hc =>
      rcases expireRow_cases hc with rfl | ⟨message, hfinish⟩
      · exact .of_same rfl rfl rfl
      · exact .finish hfinish (by decide) rfl rfl rfl

theorem effect_hello {connection : Uuid} {hello : Hello}
    (h : g.hello connection hello = some (g', es)) :
    Effect p g g' (.hello connection hello) es := by
  have hsub (k : Uuid) (x : Handshake) (hk : (g.handshakes.erase connection).lookup k = some x) :
      g.handshakes.lookup k = some x := by
    rcases eq_or_ne k connection with rfl | hne
    · rw [AList.lookup_erase] at hk
      cases hk
    · rwa [AList.lookup_erase_ne hne] at hk
  have hidle : Effect p g { g with handshakes := g.handshakes.erase connection }
      (.hello connection hello) (settledEvents []) :=
    .plain (.keep rfl rfl) (.refl _) (by simp) (fun _ s' hs' => ⟨s', hs', .refl s'⟩) hsub
  unfold AppState.hello at h
  split at h
  · cases h
  · next x hx =>
    dsimp only at h
    split_ifs at h with hversion hidentity hslot
    · obtain ⟨rfl, rfl⟩ := Prod.mk.inj (Option.some.inj h)
      exact .refuse (Table.mem_of_lookup hx) rfl rfl rfl
    · obtain ⟨rfl, rfl⟩ := Prod.mk.inj (Option.some.inj h)
      exact hidle
    · obtain ⟨rfl, rfl⟩ := Prod.mk.inj (Option.some.inj h)
      exact hidle
    · obtain ⟨rfl, rfl⟩ := Prod.mk.inj (Option.some.inj h)
      exact .open hx hslot rfl rfl rfl

theorem effect_sessionStep {machine : Uuid} {a : SessionAction}
    (h : g.sessionStep p machine a = some (g', es)) : Effect p g g' (.session machine a) es := by
  unfold AppState.sessionStep at h
  split at h
  · cases h
  · next s hs =>
    split at h
    · obtain ⟨rfl, rfl⟩ := Prod.mk.inj (Option.some.inj h)
      refine .of_unsettled (.keep rfl rfl) (.refl _)
        (fun k s' hs' => ⟨s', ?_, .refl s'⟩) fun _ _ hk => hk
      rcases eq_or_ne k machine with rfl | hne
      · rw [AList.lookup_erase] at hs'
        cases hs'
      · rwa [AList.lookup_erase_ne hne] at hs'
    · obtain ⟨t, ht, heq⟩ := Option.map_eq_some_iff.mp h
      obtain ⟨rfl, rfl⟩ := Prod.mk.inj heq
      exact .turn hs (turnEffect_of_step ht) rfl rfl rfl

theorem effect_serve {a : Action} (h : g.serve p a = some (g', es)) : Effect p g g' a es := by
  cases a with
  | maintain event =>
    obtain ⟨rfl, rfl⟩ := Prod.mk.inj (Option.some.inj h)
    exact effect_maintain
  | maintenanceFails =>
    obtain ⟨rfl, rfl⟩ := Prod.mk.inj (Option.some.inj h)
    exact .of_same rfl rfl rfl
  | api b =>
    obtain ⟨rfl, rfl⟩ := Prod.mk.inj (Option.some.inj h)
    exact effect_api _ b
  | register machine token installation credential =>
    obtain ⟨rfl, rfl⟩ := Prod.mk.inj (Option.some.inj h)
    exact effect_commitRevoking fun c hc => (register_cases hc).1
  | remove user machine =>
    obtain ⟨rfl, rfl⟩ := Prod.mk.inj (Option.some.inj h)
    exact effect_commitRevoking fun c hc => (remove_cases hc).1
  | revoke machine =>
    simp only [AppState.serve] at h
    split_ifs at h
    obtain ⟨rfl, rfl⟩ := Prod.mk.inj (Option.some.inj h)
    refine .of_unsettled (.keep rfl rfl) (.refl _) (fun k s' hs' => ?_)
      fun _ _ hk => hk
    rcases eq_or_ne k machine with rfl | hne
    · rw [Table.lookup_modify] at hs'
      obtain ⟨s, hs, rfl⟩ := Option.map_eq_some_iff.mp hs'
      exact ⟨s, hs, rfl, rfl, rfl, rfl, Or.inr rfl, fun _ h => h, Or.inr rfl, Or.inr rfl,
        fun h => h, fun _ h => h⟩
    · rw [Table.lookup_modify_of_ne hne] at hs'
      exact ⟨s', hs', .refl s'⟩
  | upgrade connection machine credential =>
    simp only [AppState.serve, AppState.upgrade] at h
    split_ifs at h with hconn
    split at h
    · cases h
    · obtain ⟨rfl, rfl⟩ := Prod.mk.inj (Option.some.inj h)
      exact .upgrade hconn rfl rfl rfl rfl
  | hello connection hello => exact effect_hello h
  | session machine a => exact effect_sessionStep h
  | tick n => cases h
  | start => cases h
  | crash => cases h
  | boot event => cases h

/-- Every step of the gateway has one of the effects. -/
theorem effect_of_step {a : Action} (h : g.step p a = some (g', es)) : Effect p g g' a es := by
  unfold AppState.step at h
  split_ifs at h
  split at h
  · obtain ⟨rfl, rfl⟩ := Prod.mk.inj (Option.some.inj h)
    exact .of_same rfl rfl rfl
  · obtain ⟨rfl, rfl⟩ := Prod.mk.inj (Option.some.inj h)
    exact .of_same rfl rfl rfl
  · obtain ⟨rfl, rfl⟩ := Prod.mk.inj (Option.some.inj h)
    refine .of_unsettled (.keep rfl rfl) (.refl _) (fun _ _ hs' => ?_)
      fun _ _ hk => ?_
    · rw [AList.lookup_empty] at hs'
      cases hs'
    · rw [AList.lookup_empty] at hk
      cases hk
  · exact effect_boot h
  · exact effect_serve h
  · cases h

end

end ExecutionProvider.Gateway
