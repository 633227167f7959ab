import ExecutionProvider.Gateway.Completions
import ExecutionProvider.Gateway.Promises
import ExecutionProvider.Gateway.Rows

/-!
# Waiting for the end of a job

A user may wait for the end of a job. The call reads the status of the job; when the job has not
ended it subscribes to its end, reads the status once more and sleeps until it is signalled, its
time is up, or the process shuts down. Then it answers with what it reads. The transaction that
settles a job leaves a notification, which a listener of the process receives some time after the
transaction has committed; the listener takes the subscriptions to the job out of the table and
signals one after the other.

Between the statements with which a call reads its answer other transactions may come. The lock
that the code takes on the row keeps out those that would change it; nothing here needs that.

## Main definitions

* `WaitPhase`, `WaitCall`: a call that waits.
* `Waits`, `waitSystem`: the runs of a gateway with its calls, its subscriptions and its listener.
* `Waits.Woken`: whether a subscription was signalled or is about to be.

## Main results

* `Waits.Sound.step`: what every step preserves.
* `counted_of_run`: the limits are applied to the subscriptions that there are.
* `wait_sound`: no call sleeps through a notification, and the answers about jobs that have ended
  are what is in the database.
-/

namespace ExecutionProvider.Gateway

/-! ### Calls -/

/-- The longest time to wait, in milliseconds. -/
def maxWaitMs : ℕ := 5 * 60 * 1000

/-- How long a call waits. -/
def waitTimeout (timeoutMs : Option ℕ) : Except GatewayError ℕ :=
  let timeout := timeoutMs.getD maxWaitMs
  if 1 ≤ timeout ∧ timeout ≤ maxWaitMs then .ok timeout
  else .error (.invalid "timeoutMs must be between 1 and 300000")

/-- Too many calls wait. -/
def tooManyWaits : GatewayError := ⟨429, "resource_limit", "too many concurrent job waits"⟩

/-- What a call answers: the row of the job, of which the first statement reads most columns and
the second the response, the error and the context, and the request as long as it is kept. -/
structure Detail where
  row : Job
  response : Option Json
  error : Option Json
  clientContext : Option Json
  request : Option Json
  requestExpiresAt : Option ℕ

/-- Where a call stands: before its first reading of the status, before it subscribes, before its
second reading of the status, asleep; in its answer, before each of the three statements; and
after it has returned. -/
inductive WaitPhase
  | arrived
  | open
  | subscribed (id : ℕ)
  | sleeping (id wakeAt : ℕ)
  | answering (id : Option ℕ)
  | rowRead (id : Option ℕ) (row : Job)
  | outcomeRead (id : Option ℕ) (detail : Detail)
  | returned (result : Except GatewayError Detail)

/-- A call that waits for a job of a user. -/
structure WaitCall where
  user : Uuid
  job : Uuid
  timeoutMs : ℕ
  phase : WaitPhase

/-- The subscription that a call holds. -/
def WaitPhase.subscription : WaitPhase → Option ℕ
  | subscribed id | sleeping id _ => some id
  | answering id | rowRead id _ | outcomeRead id _ => id
  | arrived | .open | returned _ => none

/-- The answer of a call, as far as it was read. -/
def WaitPhase.detail : WaitPhase → Option Detail
  | outcomeRead _ detail => some detail
  | returned (.ok detail) => some detail
  | _ => none

/-- A call in another phase. -/
def WaitCall.go (c : WaitCall) (phase : WaitPhase) : WaitCall := { c with phase := phase }

/-- A job of a user. -/
def jobOf (db : Database) (user id : Uuid) : Option Job :=
  (db.jobs.lookup id).filter fun job => job.userId = user

/-- The request of a job, unless its time has come. -/
def requestOf (now : ℕ) (db : Database) (id : Uuid) : Option Json × Option ℕ :=
  match db.jobRequests.lookup id with
  | none => (none, none)
  | some r => (if r.expiresAt.all (now < ·) then some r.request else none, r.expiresAt)

/-! ### The system -/

/-- The job that an event settles. -/
def Event.settledJob {π : Type} : Event π → Option Uuid
  | .settled σ => some σ.job
  | .sent .. => none

/-- The jobs that are settled in a step. -/
def settledJobs {π : Type} (es : List (Event π)) : List Uuid := es.filterMap Event.settledJob

/-- A gateway, whose process listens for notifications as long as it serves, with the notifications
that were not received yet, the listener with the
subscriptions that it is about to signal, those that were signalled, and the calls. -/
structure Waits (π : Type) where
  gateway : AppState π
  shutdown : Bool
  completions : JobCompletions
  channel : List Uuid
  waking : List ℕ
  signalled : List ℕ
  calls : Table Uuid WaitCall

/-- What happens at a gateway, and that a notification is received. -/
inductive WaitEvent (π : Type)
  | gateway (e : Event π)
  | delivered (job : Uuid)

/-- A step of the gateway, of a call or of the listener. A call may be dropped at any moment. -/
inductive WaitAction
  | gateway (a : Action)
  | shutDown
  | wait (call user job : Uuid) (timeoutMs : Option ℕ)
  | proceed (call : Uuid)
  | timeout (call : Uuid)
  | fail (call : Uuid)
  | drop (call : Uuid)
  | receive (job : Uuid)
  | signal

namespace Waits

section

variable {π : Type} (p : Platform π) (W : Waits π)

/-- A gateway whose process has no memory of calls. -/
def ofGateway (g : AppState π) : Waits π := ⟨g, false, .empty, [], [], [], ∅⟩

/-- A new installation. -/
def init : Waits π := ofGateway .init

/-- A call goes on. -/
def put (call : Uuid) (c : WaitCall) : Waits π := { W with calls := W.calls.insert call c }

/-- A subscription that a call holds is dropped. -/
def unsubscribe (c : WaitCall) : JobCompletions :=
  match c.phase.subscription with
  | none => W.completions
  | some id => W.completions.remove c.job id

/-- A call returns, and drops its subscription. -/
def finish (call : Uuid) (c : WaitCall) (result : Except GatewayError Detail) : Waits π :=
  { W.put call (c.go (.returned result)) with completions := W.unsubscribe c }

/-- A call reads the status of its job. -/
def readStatus (call : Uuid) (c : WaitCall) (ended waiting : WaitPhase) : Waits π :=
  match jobOf W.gateway.database c.user c.job with
  | none => W.finish call c (.error .missing)
  | some job => W.put call (c.go (if job.status.isFinal then ended else waiting))

/-- A call subscribes to the end of its job. -/
def subscribe (call : Uuid) (c : WaitCall) : Waits π :=
  match W.completions.subscribe c.user c.job with
  | (completions, none) =>
    { W.finish call c (.error tooManyWaits) with completions := completions }
  | (completions, some id) =>
    { W.put call (c.go (.subscribed id)) with completions := completions }

/-- The next step of a call. -/
def proceed (call : Uuid) (c : WaitCall) : Option (Waits π) :=
  match c.phase with
  | .arrived => some (W.readStatus call c (.answering none) .open)
  | .open => some (W.subscribe call c)
  | .subscribed id =>
    some (W.readStatus call c (.answering (some id))
      (.sleeping id (W.gateway.clock + 1000 * c.timeoutMs)))
  | .sleeping id _ =>
    if id ∈ W.signalled ∨ W.shutdown then some (W.put call (c.go (.answering (some id)))) else none
  | .answering id =>
    match jobOf W.gateway.database c.user c.job with
    | none => some (W.finish call c (.error .missing))
    | some job => some (W.put call (c.go (.rowRead id job)))
  | .rowRead id row =>
    match W.gateway.database.jobs.lookup c.job with
    | none => some (W.finish call c (.error .internal))
    | some job => some (W.put call (c.go (.outcomeRead id
        ⟨row, job.response, job.error, job.clientContext, none, none⟩)))
  | .outcomeRead _ detail =>
    let r := requestOf W.gateway.clock W.gateway.database c.job
    some (W.finish call c (.ok { detail with request := r.1, requestExpiresAt := r.2 }))
  | .returned _ => none

/-- The time of a call is up. -/
def timeout (call : Uuid) (c : WaitCall) : Option (Waits π) :=
  match c.phase with
  | .sleeping id wakeAt =>
    if wakeAt ≤ W.gateway.clock then some (W.put call (c.go (.answering (some id)))) else none
  | _ => none

/-- A statement of a call fails. -/
def fail (call : Uuid) (c : WaitCall) : Option (Waits π) :=
  match c.phase with
  | .arrived | .subscribed _ | .answering _ | .rowRead .. | .outcomeRead .. =>
    some (W.finish call c (.error .internal))
  | .open | .sleeping .. | .returned _ => none

/-- A user waits for a job. -/
def wait (call user job : Uuid) (timeoutMs : Option ℕ) : Option (Waits π) :=
  if W.gateway.process.serves ∧ ¬W.shutdown ∧ call ∉ W.calls then
    match waitTimeout timeoutMs with
    | .error e => some (W.put call ⟨user, job, 0, .returned (.error e)⟩)
    | .ok timeoutMs => some (W.put call ⟨user, job, timeoutMs, .arrived⟩)
  else none

/-- A step of the gateway. What it settles is notified. A process that ends forgets its calls. -/
def gatewayStep (a : Action) : Option (Waits π × List (WaitEvent π)) :=
  (W.gateway.step p a).map fun r =>
    (if r.1.process.serves then
      { W with gateway := r.1, channel := W.channel ++ settledJobs r.2 }
    else ofGateway r.1, r.2.map .gateway)

/-- The listener receives a notification, and takes the subscriptions out of the table. -/
def receive (job : Uuid) : Option (Waits π × List (WaitEvent π)) :=
  if job ∈ W.channel ∧ W.waking = [] then
    let r := W.completions.notify job
    some ({ W with completions := r.1, channel := W.channel.erase job, waking := r.2 },
      [.delivered job])
  else none

/-- The listener signals the next subscription. -/
def signal : Option (Waits π) :=
  match W.waking with
  | [] => none
  | id :: waking => some { W with waking := waking, signalled := id :: W.signalled }

/-- A step that has no events. -/
def quiet (W' : Option (Waits π)) : Option (Waits π × List (WaitEvent π)) := W'.map fun W => (W, [])

/-- A step of the call with some identity. -/
def callStep (call : Uuid) (f : WaitCall → Option (Waits π)) : Option (Waits π) :=
  (W.calls.lookup call).bind f

/-- A step of the system. -/
def step : WaitAction → Option (Waits π × List (WaitEvent π))
  | .gateway a => W.gatewayStep p a
  | .shutDown => quiet (some { W with shutdown := true })
  | .wait call user job timeoutMs => quiet (W.wait call user job timeoutMs)
  | .proceed call => quiet (W.callStep call (W.proceed call))
  | .timeout call => quiet (W.callStep call (W.timeout call))
  | .fail call => quiet (W.callStep call (W.fail call))
  | .drop call => quiet <| W.callStep call fun c =>
    some { W with calls := W.calls.erase call, completions := W.unsubscribe c }
  | .receive job => W.receive job
  | .signal => quiet W.signal

end

end Waits

/-- The runs of a gateway with the calls that wait for jobs. -/
def waitSystem {π : Type} (p : Platform π) : System (Waits π) WaitAction (WaitEvent π) where
  start W := W = .init
  step W a := W.step p a

/-! ### What is settled in a step of the gateway -/

section

variable {π : Type} {p : Platform π} {g g' : AppState π} {a : Action} {es : List (Event π)}
  {db db' : Database} {σs : List Settlement} {id : Uuid}

theorem count_settledJobs (id : Uuid) (es : List (Event π)) :
    (settledJobs es).count id = (settlementsOf id es).length := by
  induction es with
  | nil => rfl
  | cons e es ih =>
    cases e with
    | sent connection frame => exact ih
    | settled σ =>
      have hjobs : settledJobs (.settled σ :: es) = σ.job :: settledJobs es := rfl
      have hof : settlementsOf id (.settled σ :: es) =
          if σ.job = id then σ :: settlementsOf id es else settlementsOf id es := by
        rw [settlementsOf, List.filterMap_cons, Event.settlementOf]
        split_ifs <;> rfl
      rw [hjobs, hof, List.count_cons, ih]
      by_cases hid : σ.job = id
      · simp [hid]
      · simp [hid]

/-- A job that has ended had ended before, or was settled. -/
theorem Change.settled_of_ended (h : Change p db db' σs) (hended : db'.Ended id) :
    db.Ended id ∨ ∃ σ ∈ σs, σ.job = id := by
  obtain ⟨job', hjob', hfinal⟩ := hended
  cases h with
  | keep hj => exact Or.inl ⟨job', hj ▸ hjob', hfinal⟩
  | @submit k job _ hstatus _ _ _ _ hj =>
    rcases eq_or_ne id k with rfl | hne
    · rw [hj, AList.lookup_insert] at hjob'
      obtain rfl := Option.some.inj hjob'
      rw [hstatus] at hfinal
      cases hfinal
    · rw [hj, AList.lookup_insert_ne hne] at hjob'
      exact Or.inl ⟨job', hjob', hfinal⟩
  | @dispatch k job now generation recovery hjob _ hj =>
    rcases eq_or_ne id k with rfl | hne
    · rw [hj, Table.lookup_modify, hjob] at hjob'
      obtain rfl := Option.some.inj hjob'
      cases hfinal
    · rw [hj, Table.lookup_modify_of_ne hne] at hjob'
      exact Or.inl ⟨job', hjob', hfinal⟩
  | progress hf hj =>
    rw [hj, Table.lookup_mapRows] at hjob'
    obtain ⟨job, hjob, rfl⟩ := Option.map_eq_some_iff.mp hjob'
    rcases (hf id job).status with hs | ⟨-, hin⟩
    · exact Or.inl ⟨job, hjob, hs ▸ hfinal⟩
    · rw [JobStatus.isFinal_of_isInflight hin] at hfinal
      cases hfinal
  | @settle event job user σ _ _ _ _ _ hj =>
    rcases eq_or_ne id σ.job with rfl | hne
    · exact Or.inr ⟨σ, List.mem_singleton_self σ, rfl⟩
    · rw [hj, Table.lookup_modify_of_ne hne] at hjob'
      exact Or.inl ⟨job', hjob', hfinal⟩

/-- A job that is settled in a step ends in it, and was open before. -/
theorem Change.ended_of_settled {σ : Settlement} (h : Change p db db' σs) (hσ : σ ∈ σs) :
    ¬db.Ended σ.job ∧ db'.Ended σ.job := by
  cases h with
  | @settle event job user τ hjob hopen _ _ _ hj =>
    obtain rfl := List.mem_singleton.mp hσ
    constructor
    · rintro ⟨job', hjob', hfinal⟩
      obtain rfl := Option.some.inj (hjob.symm.trans hjob')
      rw [hopen] at hfinal
      cases hfinal
    · exact ⟨_, by rw [hj, Table.lookup_modify, hjob]; rfl, rfl⟩
  | keep | submit | dispatch | progress => cases hσ

theorem Change.nodup_settled (h : Change p db db' σs) : (σs.map Settlement.job).Nodup := by
  cases h with
  | settle => exact List.nodup_singleton _
  | keep | submit | dispatch | progress => exact List.nodup_nil

/-- **Notifications.** The jobs that are settled in a step are those that end in it, each once. -/
theorem settledJobs_of_step (h : g.step p a = some (g', es)) :
    (settledJobs es).Nodup ∧ (∀ id ∈ settledJobs es, ¬g.database.Ended id ∧ g'.database.Ended id) ∧
      ∀ id, g'.database.Ended id → g.database.Ended id ∨ id ∈ settledJobs es := by
  obtain ⟨σs, hc, hes⟩ := (effect_of_step h).change
  have hcount (id : Uuid) : (settledJobs es).count id = (σs.map Settlement.job).count id := by
    rw [count_settledJobs, hes, ← List.countP_eq_length_filter, List.count, List.countP_map]
    refine List.countP_congr fun σ _ => ?_
    simp
  have hmem (id : Uuid) : id ∈ settledJobs es ↔ id ∈ σs.map Settlement.job := by
    rw [← List.count_pos_iff, hcount, List.count_pos_iff]
  refine ⟨List.nodup_iff_count_le_one.mpr fun id => ?_, fun id hid => ?_, fun id hended => ?_⟩
  · rw [hcount]
    exact List.nodup_iff_count_le_one.mp hc.nodup_settled id
  · obtain ⟨σ, hσ, rfl⟩ := List.mem_map.mp ((hmem id).mp hid)
    exact hc.ended_of_settled hσ
  · rcases hc.settled_of_ended hended with hold | ⟨σ, hσ, rfl⟩
    · exact Or.inl hold
    · exact Or.inr ((hmem _).mpr (List.mem_map_of_mem hσ))

theorem Database.Ended.step (h : g.step p a = some (g', es)) (hended : g.database.Ended id) :
    g'.database.Ended id := by
  obtain ⟨job, hjob, hfinal⟩ := hended
  exact ⟨job, lookup_of_ended h hjob hfinal, hfinal⟩

end

/-! ### The invariant -/

section

variable {π : Type}

/-- A subscription was signalled, or the listener is about to signal it. -/
def Waits.Woken (W : Waits π) (id : ℕ) : Prop := id ∈ W.signalled ∨ id ∈ W.waking

/-- What the second statement has read belongs to the row that the first has read. -/
structure Detail.Agrees (d : Detail) : Prop where
  response : d.response = d.row.response
  error : d.error = d.row.error
  clientContext : d.clientContext = d.row.clientContext

/-- What holds for a call: its subscription is in the table or woken; if it sleeps and its job has
ended, it is woken or the notification is still to be received; and what it has read about a job
that has ended is what is in the database. -/
structure WaitCall.Sound (W : Waits π) (c : WaitCall) : Prop where
  subscribed : ∀ id, c.phase.subscription = some id →
    id < W.completions.nextId ∧ (W.Woken id ∨ W.completions.Subscribed c.job id)
  asleep : ∀ id wakeAt, c.phase = .sleeping id wakeAt → W.gateway.database.Ended c.job →
    W.Woken id ∨ c.job ∈ W.channel
  row : ∀ id row, c.phase = .rowRead id row → row.status.isFinal = true →
    W.gateway.database.jobs.lookup c.job = some row
  detail : ∀ d, c.phase.detail = some d → d.row.status.isFinal = true →
    W.gateway.database.jobs.lookup c.job = some d.row ∧ d.Agrees

/-- The invariant. -/
structure Waits.Sound (log : List (WaitEvent π)) (W : Waits π) : Prop where
  idle : W.gateway.process.serves = false → W.calls = ∅
  calls : ∀ k c, W.calls.lookup k = some c → c.Sound W
  unique : ∀ k k' c c' id, W.calls.lookup k = some c → W.calls.lookup k' = some c' →
    c.phase.subscription = some id → c'.phase.subscription = some id → k = k'
  nodup : W.channel.Nodup
  ended : ∀ job ∈ W.channel, W.gateway.database.Ended job
  delivered : ∀ job, .delivered job ∈ log → W.gateway.database.Ended job ∧ job ∉ W.channel

variable {p : Platform π} {W W' : Waits π} {log es : List (WaitEvent π)} {call : Uuid}
  {c c' : WaitCall}

/-- A call stays sound when its subscription stays in the table or is woken. -/
theorem WaitCall.Sound.of_completions (h : c.Sound W) (hg : W'.gateway = W.gateway)
    (hnext : W.completions.nextId ≤ W'.completions.nextId)
    (hwoken : ∀ id, W.Woken id → W'.Woken id)
    (hkeep : ∀ id, c.phase.subscription = some id → W.completions.Subscribed c.job id →
      W'.Woken id ∨ W'.completions.Subscribed c.job id ∧
        (c.job ∈ W.channel → c.job ∈ W'.channel)) : c.Sound W' := by
  refine ⟨fun id hid => ?_, fun id wakeAt hphase hended => ?_, ?_, ?_⟩
  · obtain ⟨hlt, hwoken' | hsub⟩ := h.subscribed id hid
    · exact ⟨hlt.trans_le hnext, Or.inl (hwoken id hwoken')⟩
    · exact ⟨hlt.trans_le hnext, (hkeep id hid hsub).imp_right And.left⟩
  · have hid : c.phase.subscription = some id := by rw [hphase]; rfl
    rcases (h.subscribed id hid).2 with hwoken' | hsub
    · exact Or.inl (hwoken id hwoken')
    · rcases hkeep id hid hsub with hwoken' | ⟨-, hchannel⟩
      · exact Or.inl hwoken'
      · rcases h.asleep id wakeAt hphase (hg ▸ hended) with hwoken' | hmem
        · exact Or.inl (hwoken id hwoken')
        · exact Or.inr (hchannel hmem)
  · rw [hg]
    exact h.row
  · rw [hg]
    exact h.detail

namespace WaitCall.Sound

/-- A call that has come in. -/
theorem arrived : (c.go .arrived).Sound W := by
  refine ⟨fun id hid => ?_, fun id wakeAt hphase => ?_, fun id row hphase => ?_, fun d hd => ?_⟩
  · cases hid
  · cases hphase
  · cases hphase
  · cases hd

/-- A call that has not subscribed. -/
theorem opened : (c.go .open).Sound W := by
  refine ⟨fun id hid => ?_, fun id wakeAt hphase => ?_, fun id row hphase => ?_, fun d hd => ?_⟩
  · cases hid
  · cases hphase
  · cases hphase
  · cases hd

/-- A call that has subscribed. -/
theorem subscribed_go {id : ℕ} (hlt : id < W.completions.nextId)
    (hid : W.Woken id ∨ W.completions.Subscribed c.job id) : (c.go (.subscribed id)).Sound W := by
  refine ⟨fun id hid => ?_, fun id wakeAt hphase => ?_, fun id row hphase => ?_, fun d hd => ?_⟩
  · obtain rfl := Option.some.inj hid
    exact ⟨hlt, ‹_›⟩
  · cases hphase
  · cases hphase
  · cases hd

/-- A call that goes to sleep while its job has not ended. -/
theorem sleeping {id wakeAt : ℕ} (hlt : id < W.completions.nextId)
    (hid : W.Woken id ∨ W.completions.Subscribed c.job id)
    (hopen : ¬W.gateway.database.Ended c.job) : (c.go (.sleeping id wakeAt)).Sound W := by
  refine ⟨fun id hid => ?_, fun id wakeAt _ hended => ?_, fun id row hphase => ?_, fun d hd => ?_⟩
  · obtain rfl := Option.some.inj hid
    exact ⟨hlt, ‹_›⟩
  · exact absurd hended hopen
  · cases hphase
  · cases hd

/-- A call that answers. -/
theorem answering {subscription : Option ℕ} (h : ∀ id, subscription = some id →
      id < W.completions.nextId ∧ (W.Woken id ∨ W.completions.Subscribed c.job id)) :
    (c.go (.answering subscription)).Sound W := by
  refine ⟨h, fun id wakeAt hphase => ?_, fun id row hphase => ?_, fun d hd => ?_⟩
  · cases hphase
  · cases hphase
  · cases hd

theorem rowRead {subscription : Option ℕ} {row : Job} (h : ∀ id, subscription = some id →
      id < W.completions.nextId ∧ (W.Woken id ∨ W.completions.Subscribed c.job id))
    (hrow : W.gateway.database.jobs.lookup c.job = some row) :
    (c.go (.rowRead subscription row)).Sound W := by
  refine ⟨h, fun id wakeAt hphase => ?_, fun id row' hphase _ => ?_, fun d hd => ?_⟩
  · cases hphase
  · cases hphase
    exact hrow
  · cases hd

theorem outcomeRead {subscription : Option ℕ} {detail : Detail}
    (h : ∀ id, subscription = some id →
      id < W.completions.nextId ∧ (W.Woken id ∨ W.completions.Subscribed c.job id))
    (hdetail : detail.row.status.isFinal = true →
      W.gateway.database.jobs.lookup c.job = some detail.row ∧ detail.Agrees) :
    (c.go (.outcomeRead subscription detail)).Sound W := by
  refine ⟨h, fun id wakeAt hphase => ?_, fun id row hphase => ?_, fun d hd => ?_⟩
  · cases hphase
  · cases hphase
  · exact Option.some.inj hd ▸ hdetail

theorem returned {result : Except GatewayError Detail}
    (hresult : ∀ d, result = .ok d → d.row.status.isFinal = true →
      W.gateway.database.jobs.lookup c.job = some d.row ∧ d.Agrees) :
    (c.go (.returned result)).Sound W := by
  refine ⟨fun id hid => ?_, fun id wakeAt hphase => ?_, fun id row hphase => ?_, fun d hd => ?_⟩
  · cases hid
  · cases hphase
  · cases hphase
  · cases result with
    | error e => cases hd
    | ok d' => exact hresult d (congrArg _ (Option.some.inj hd))

end WaitCall.Sound

namespace Waits.Sound

theorem serves (h : W.Sound log) (hc : W.calls.lookup call = some c) :
    W.gateway.process.serves = true := by
  by_contra hnot
  rw [h.idle (by simpa using hnot)] at hc
  cases hc

theorem init : (init : Waits π).Sound [] := by
  refine ⟨fun _ => rfl, fun k c hc => ?_, fun k k' c c' id hc => ?_, List.nodup_nil, ?_, ?_⟩
  · cases hc
  · cases hc
  · simp [Waits.init, ofGateway]
  · simp

/-- A call goes on. The other calls keep their subscriptions. -/
theorem put (h : W.Sound log) {completions : JobCompletions}
    (hserves : W.gateway.process.serves = true)
    (hnext : W.completions.nextId ≤ completions.nextId)
    (hkeep : ∀ k c₀ id, k ≠ call → W.calls.lookup k = some c₀ →
      c₀.phase.subscription = some id → c'.phase.subscription ≠ some id ∧
        (W.completions.Subscribed c₀.job id → completions.Subscribed c₀.job id))
    (hc' : c'.Sound { W.put call c' with completions := completions }) :
    ({ W.put call c' with completions := completions } : Waits π).Sound (log ++ []) := by
  have hlookup (k : Uuid) : (W.put call c').calls.lookup k =
      if k = call then some c' else W.calls.lookup k := by
    rw [Waits.put]
    split_ifs with hk
    · rw [hk, AList.lookup_insert]
    · rw [AList.lookup_insert_ne hk]
  refine ⟨fun hnot => (by cases hserves.symm.trans hnot), fun k c₀ hc₀ => ?_,
    fun k k' c₀ c₁ id hc₀ hc₁ hid hid' => ?_, h.nodup, h.ended, ?_⟩
  · rw [hlookup] at hc₀
    split_ifs at hc₀ with hk
    · exact Option.some.inj hc₀ ▸ hc'
    · exact (h.calls k c₀ hc₀).of_completions rfl hnext (fun _ hw => hw) fun id hid hsub =>
        Or.inr ⟨(hkeep k c₀ id hk hc₀ hid).2 hsub, fun hmem => hmem⟩
  · rw [hlookup] at hc₀ hc₁
    split_ifs at hc₀ hc₁ with hk hk' hk'
    · rw [hk, hk']
    · obtain rfl := Option.some.inj hc₀
      exact absurd hid (hkeep k' c₁ id hk' hc₁ hid').1
    · obtain rfl := Option.some.inj hc₁
      exact absurd hid' (hkeep k c₀ id hk hc₀ hid).1
    · exact h.unique k k' c₀ c₁ id hc₀ hc₁ hid hid'
  · rw [List.append_nil]
    exact h.delivered

/-- A call that holds the same subscription as before, or none. -/
theorem go (h : W.Sound log) (hc : W.calls.lookup call = some c)
    (hsub : c'.phase.subscription = none ∨ c'.phase.subscription = c.phase.subscription)
    (hc' : c'.Sound (W.put call c')) : (W.put call c').Sound (log ++ []) := by
  refine h.put (h.serves hc) le_rfl (fun k c₀ id hk hc₀ hid => ⟨fun hid' => ?_, fun h => h⟩) hc'
  rcases hsub with hsub | hsub
  · rw [hsub] at hid'
    cases hid'
  · exact hk (h.unique k call c₀ c id hc₀ hc hid (hsub ▸ hid'))

/-- The other calls keep their subscriptions when a call drops its own. -/
theorem unsubscribe (h : W.Sound log) (hc : W.calls.lookup call = some c) :
    (W.unsubscribe c).nextId = W.completions.nextId ∧
      ∀ k c₀ id, k ≠ call → W.calls.lookup k = some c₀ → c₀.phase.subscription = some id →
        W.completions.Subscribed c₀.job id → (W.unsubscribe c).Subscribed c₀.job id := by
  unfold Waits.unsubscribe
  split
  · exact ⟨rfl, fun _ _ _ _ _ _ hsub => hsub⟩
  · next id' hid' =>
    refine ⟨JobCompletions.ofJob_remove.1, fun k c₀ id hk hc₀ hid hsub => ?_⟩
    have hne : id ≠ id' := by
      rintro rfl
      exact hk (h.unique k call c₀ c id hc₀ hc hid hid')
    rw [JobCompletions.Subscribed, JobCompletions.ofJob_remove.2]
    split_ifs with hjob
    · exact AList.mem_erase.mpr ⟨hne, hjob ▸ hsub⟩
    · exact hsub

/-- A call returns. -/
theorem finish (h : W.Sound log) (hc : W.calls.lookup call = some c)
    {result : Except GatewayError Detail}
    (hresult : ∀ d, result = .ok d → d.row.status.isFinal = true →
      W.gateway.database.jobs.lookup c.job = some d.row ∧ d.Agrees) :
    (W.finish call c result).Sound (log ++ []) := by
  obtain ⟨hnext, hkeep⟩ := h.unsubscribe hc
  refine h.put (h.serves hc) hnext.ge (fun k c₀ id hk hc₀ hid => ⟨fun hid' => ?_, ?_⟩)
    (.returned hresult)
  · cases hid'
  · exact hkeep k c₀ id hk hc₀ hid

/-- A call reads the status of its job. -/
theorem readStatus (h : W.Sound log) (hc : W.calls.lookup call = some c)
    {ended waiting : WaitPhase}
    (hended : (c.go ended).Sound (W.put call (c.go ended)))
    (hwaiting : ¬W.gateway.database.Ended c.job →
      (c.go waiting).Sound (W.put call (c.go waiting)))
    (hsub : ∀ phase ∈ [ended, waiting],
      phase.subscription = none ∨ phase.subscription = c.phase.subscription) :
    (W.readStatus call c ended waiting).Sound (log ++ []) := by
  unfold Waits.readStatus
  split
  · exact h.finish hc fun d hd => (by cases hd)
  · next job hjob =>
    obtain ⟨hjob, -⟩ := Option.filter_eq_some_iff.mp hjob
    split_ifs with hfinal
    · exact h.go hc (hsub ended (by simp)) hended
    · refine h.go hc (hsub waiting (by simp)) (hwaiting ?_)
      rintro ⟨job', hjob', hfinal'⟩
      rw [hjob] at hjob'
      exact hfinal (Option.some.inj hjob' ▸ hfinal')

/-- A call subscribes to the end of its job. -/
theorem subscribe (h : W.Sound log) (hc : W.calls.lookup call = some c) :
    (W.subscribe call c).Sound (log ++ []) := by
  unfold Waits.subscribe
  split
  · next completions hsubscribe =>
    obtain ⟨hnext, ⟨-, hsame⟩ | ⟨hnone, -⟩⟩ := JobCompletions.ofJob_subscribe hsubscribe
    · refine h.put (h.serves hc) (hnext ▸ Nat.le_succ _)
        (fun k c₀ id hk hc₀ hid => ⟨fun hid' => ?_, fun hsub => ?_⟩) (.returned fun d hd => ?_)
      · cases hid'
      · rw [JobCompletions.Subscribed, JobCompletions.ofJob, hsame]
        exact hsub
      · cases hd
    · cases hnone
  · next completions id hsubscribe =>
    obtain ⟨hnext, ⟨hsome, -⟩ | ⟨hsome, hjobs⟩⟩ := JobCompletions.ofJob_subscribe hsubscribe
    · cases hsome
    obtain rfl := Option.some.inj hsome
    refine h.put (h.serves hc) (hnext ▸ Nat.le_succ _)
      (fun k c₀ id hk hc₀ hid => ⟨fun hid' => ?_, fun hsub => ?_⟩)
      (.subscribed_go (hnext ▸ Nat.lt_succ_self _) (Or.inr ?_))
    · obtain rfl := Option.some.inj hid'
      exact (((h.calls k c₀ hc₀).subscribed _ hid).1).false
    · rw [JobCompletions.Subscribed, hjobs]
      split_ifs with hjob
      · exact (AList.mem_insert _).mpr (Or.inr (hjob ▸ hsub))
      · exact hsub
    · show _ ∈ completions.ofJob c.job
      rw [hjobs, if_pos rfl]
      exact (AList.mem_insert _).mpr (Or.inl rfl)

/-- The next step of a call. -/
theorem proceed (h : W.Sound log) (hc : W.calls.lookup call = some c)
    (hstep : W.proceed call c = some W') : W'.Sound (log ++ []) := by
  have hsound := h.calls call c hc
  unfold Waits.proceed at hstep
  split at hstep
  · next hphase =>
    obtain rfl := Option.some.inj hstep
    refine h.readStatus hc (.answering fun id hid => ?_) (fun _ => .opened) fun phase hphase' => ?_
    · cases hid
    · left
      rcases List.mem_pair.mp hphase' with rfl | rfl
      · rfl
      · rfl
  · obtain rfl := Option.some.inj hstep
    exact h.subscribe hc
  · next id hphase =>
    obtain rfl := Option.some.inj hstep
    have hid := hsound.subscribed id (by rw [hphase]; rfl)
    refine h.readStatus hc (.answering fun id' hid' => ?_) (fun hopen => ?_) fun phase hphase' => ?_
    · exact Option.some.inj hid' ▸ hid
    · exact .sleeping hid.1 hid.2 hopen
    · right
      rw [hphase]
      rcases List.mem_pair.mp hphase' with rfl | rfl
      · rfl
      · rfl
  · next id wakeAt hphase =>
    split_ifs at hstep
    obtain rfl := Option.some.inj hstep
    refine h.go hc (Or.inr (by rw [hphase]; rfl)) (.answering fun id' hid' => ?_)
    exact hsound.subscribed id' (by rw [hphase, ← hid']; rfl)
  · next id hphase =>
    split at hstep
    · obtain rfl := Option.some.inj hstep
      exact h.finish hc fun d hd => (by cases hd)
    · next job hjob =>
      obtain rfl := Option.some.inj hstep
      refine h.go hc (Or.inr (by rw [hphase]; rfl)) (.rowRead (fun id' hid' => ?_) ?_)
      · exact hsound.subscribed id' (by rw [hphase, ← hid']; rfl)
      · exact (Option.filter_eq_some_iff.mp hjob).1
  · next id row hphase =>
    split at hstep
    · obtain rfl := Option.some.inj hstep
      exact h.finish hc fun d hd => (by cases hd)
    · next job hjob =>
      obtain rfl := Option.some.inj hstep
      refine h.go hc (Or.inr (by rw [hphase]; rfl)) (.outcomeRead (fun id' hid' => ?_) fun hf => ?_)
      · exact hsound.subscribed id' (by rw [hphase, ← hid']; rfl)
      · have hrow := hsound.row id row hphase hf
        obtain rfl := Option.some.inj (hjob.symm.trans hrow)
        exact ⟨hrow, rfl, rfl, rfl⟩
  · next id detail hphase =>
    obtain rfl := Option.some.inj hstep
    refine h.finish hc fun d hd hf => ?_
    obtain rfl := Except.ok.inj hd
    obtain ⟨hrow, hr, he, hx⟩ := hsound.detail detail (by rw [hphase]; rfl) hf
    exact ⟨hrow, hr, he, hx⟩
  · cases hstep

/-- The time of a call is up, or one of its statements fails. -/
theorem timeout (h : W.Sound log) (hc : W.calls.lookup call = some c)
    (hstep : W.timeout call c = some W') : W'.Sound (log ++ []) := by
  unfold Waits.timeout at hstep
  split at hstep
  · next id wakeAt hphase =>
    split_ifs at hstep
    obtain rfl := Option.some.inj hstep
    refine h.go hc (Or.inr (by rw [hphase]; rfl)) (.answering fun id' hid' => ?_)
    exact (h.calls call c hc).subscribed id' (by rw [hphase, ← hid']; rfl)
  · cases hstep

theorem fail (h : W.Sound log) (hc : W.calls.lookup call = some c)
    (hstep : W.fail call c = some W') : W'.Sound (log ++ []) := by
  unfold Waits.fail at hstep
  split at hstep
  all_goals
    cases hstep
    try exact h.finish hc fun d hd => (by cases hd)

/-- A call is dropped, with its subscription. -/
theorem drop (h : W.Sound log) (hc : W.calls.lookup call = some c) :
    ({ W with calls := W.calls.erase call, completions := W.unsubscribe c } : Waits π).Sound
      (log ++ []) := by
  obtain ⟨hnext, hkeep⟩ := h.unsubscribe hc
  have hlookup {k : Uuid} {c₀ : WaitCall} (hc₀ : (W.calls.erase call).lookup k = some c₀) :
      k ≠ call ∧ W.calls.lookup k = some c₀ := by
    rcases eq_or_ne k call with rfl | hne
    · rw [AList.lookup_erase] at hc₀
      cases hc₀
    · rw [AList.lookup_erase_ne hne] at hc₀
      exact ⟨hne, hc₀⟩
  refine ⟨fun hnot => ?_, fun k c₀ hc₀ => ?_, fun k k' c₀ c₁ id hc₀ hc₁ => ?_, h.nodup, h.ended, ?_⟩
  · cases (h.serves hc).symm.trans hnot
  · obtain ⟨hk, hc₀⟩ := hlookup hc₀
    exact (h.calls k c₀ hc₀).of_completions rfl hnext.ge (fun _ hw => hw) fun id hid hsub =>
      Or.inr ⟨hkeep k c₀ id hk hc₀ hid hsub, fun hmem => hmem⟩
  · exact h.unique k k' c₀ c₁ id (hlookup hc₀).2 (hlookup hc₁).2
  · rw [List.append_nil]
    exact h.delivered

/-- A user waits. -/
theorem wait {user job : Uuid} {timeoutMs : Option ℕ} (h : W.Sound log)
    (hstep : W.wait call user job timeoutMs = some W') : W'.Sound (log ++ []) := by
  unfold Waits.wait at hstep
  split_ifs at hstep with hnew
  split at hstep
  · next e _ =>
    obtain rfl := Option.some.inj hstep
    refine h.put hnew.1 le_rfl (fun k c₀ id _ _ _ => ⟨fun hid' => ?_, fun hsub => hsub⟩) ?_
    · cases hid'
    · exact @WaitCall.Sound.returned _ _ ⟨user, job, 0, .arrived⟩ (.error e) fun d hd => (by
        cases hd)
  · next timeoutMs _ =>
    obtain rfl := Option.some.inj hstep
    refine h.put hnew.1 le_rfl (fun k c₀ id _ _ _ => ⟨fun hid' => ?_, fun hsub => hsub⟩) ?_
    · cases hid'
    · exact @WaitCall.Sound.arrived _ _ ⟨user, job, timeoutMs, .arrived⟩

/-- The listener receives a notification. -/
theorem receive {job : Uuid} (h : W.Sound log) (hstep : W.receive job = some (W', es)) :
    W'.Sound (log ++ es) := by
  unfold Waits.receive at hstep
  split_ifs at hstep with hcond
  obtain ⟨hjob, hidle⟩ := hcond
  obtain ⟨rfl, rfl⟩ := Prod.mk.inj (Option.some.inj hstep)
  obtain ⟨hkeys, hnext, hof⟩ := @JobCompletions.ofJob_notify W.completions job
  refine ⟨h.idle, fun k c hc => ?_, h.unique, h.nodup.erase job, fun j hj => ?_, fun j hj => ?_⟩
  · refine (h.calls k c hc).of_completions rfl hnext.ge (fun id hw => ?_) fun id hid hsub => ?_
    · rcases hw with hw | hw
      · exact Or.inl hw
      · rw [hidle] at hw
        cases hw
    · by_cases hc' : c.job = job
      · left
        right
        show id ∈ (W.completions.notify job).2
        rw [hkeys, ← hc']
        exact hsub
      · right
        refine ⟨?_, fun hmem => (List.mem_erase_of_ne hc').mpr hmem⟩
        rw [JobCompletions.Subscribed, hof, if_neg hc']
        exact hsub
  · exact h.ended j (List.mem_of_mem_erase hj)
  · rcases List.mem_append.mp hj with hj | hj
    · exact ⟨(h.delivered j hj).1, fun hmem => (h.delivered j hj).2 (List.mem_of_mem_erase hmem)⟩
    · obtain rfl := WaitEvent.delivered.inj (List.mem_singleton.mp hj)
      exact ⟨h.ended j hjob, h.nodup.not_mem_erase⟩

/-- The listener signals a subscription. -/
theorem signal (h : W.Sound log) (hstep : W.signal = some W') : W'.Sound (log ++ []) := by
  unfold Waits.signal at hstep
  split at hstep
  · cases hstep
  · next id waking hwaking =>
    obtain rfl := Option.some.inj hstep
    rw [List.append_nil]
    refine ⟨h.idle, fun k c hc => ?_, h.unique, h.nodup, h.ended, h.delivered⟩
    refine (h.calls k c hc).of_completions rfl le_rfl (fun id' hw => ?_) fun id' _ hsub =>
      Or.inr ⟨hsub, fun hmem => hmem⟩
    rcases hw with hw | hw
    · exact Or.inl (List.mem_cons_of_mem id hw)
    · rw [hwaking] at hw
      rcases List.mem_cons.mp hw with rfl | hw
      · exact Or.inl List.mem_cons_self
      · exact Or.inr hw

/-- A step of the gateway. -/
theorem gatewayStep {a : Action} (h : W.Sound log) (hstep : W.gatewayStep p a = some (W', es)) :
    W'.Sound (log ++ es) := by
  obtain ⟨⟨g', es'⟩, hgateway, heq⟩ := Option.map_eq_some_iff.mp hstep
  obtain ⟨rfl, rfl⟩ := Prod.mk.inj heq
  obtain ⟨hnodup, hsettled, hnew⟩ := settledJobs_of_step hgateway
  have hdelivered (j : Uuid) (hj : .delivered j ∈ log ++ es'.map WaitEvent.gateway) :
      W.gateway.database.Ended j ∧ j ∉ W.channel := by
    rcases List.mem_append.mp hj with hj | hj
    · exact h.delivered j hj
    · simp at hj
  have hrow (id : Uuid) (row : Job) (hlookup : W.gateway.database.jobs.lookup id = some row)
      (hfinal : row.status.isFinal = true) : g'.database.jobs.lookup id = some row :=
    lookup_of_ended hgateway hlookup hfinal
  dsimp only
  split_ifs with hserves
  · refine ⟨fun hnot => ?_, fun k c hc => ?_, h.unique, ?_, fun j hj => ?_, fun j hj => ?_⟩
    · cases hserves.symm.trans hnot
    · have hsound := h.calls k c hc
      refine ⟨hsound.subscribed, fun id wakeAt hphase hended => ?_, fun id row hphase hf => ?_,
        fun d hd hf => ?_⟩
      · rcases hnew c.job hended with hold | hmem
        · exact (hsound.asleep id wakeAt hphase hold).imp_right (List.mem_append_left _)
        · exact Or.inr (List.mem_append_right _ hmem)
      · exact hrow _ _ (hsound.row id row hphase hf) hf
      · obtain ⟨hlookup, hagrees⟩ := hsound.detail d hd hf
        exact ⟨hrow _ _ hlookup hf, hagrees⟩
    · refine h.nodup.append hnodup fun j hj hj' => ?_
      exact (hsettled j hj').1 (h.ended j hj)
    · rcases List.mem_append.mp hj with hj | hj
      · exact (h.ended j hj).step hgateway
      · exact (hsettled j hj).2
    · obtain ⟨hended, hnot⟩ := hdelivered j hj
      refine ⟨hended.step hgateway, fun hmem => ?_⟩
      rcases List.mem_append.mp hmem with hmem | hmem
      · exact hnot hmem
      · exact (hsettled j hmem).1 hended
  · refine ⟨fun _ => rfl, fun k c hc => ?_, fun k k' c c' id hc => ?_, List.nodup_nil,
      fun j hj => ?_, fun j hj => ⟨(hdelivered j hj).1.step hgateway, List.not_mem_nil⟩⟩
    · cases hc
    · cases hc
    · cases hj

/-- Every step keeps the invariant. -/
theorem step {a : WaitAction} (h : W.Sound log) (hstep : W.step p a = some (W', es)) :
    W'.Sound (log ++ es) := by
  have hquiet {o : Option (Waits π)} (ho : ∀ W', o = some W' → W'.Sound (log ++ []))
      (hq : quiet o = some (W', es)) : W'.Sound (log ++ es) := by
    obtain ⟨W₁, hW₁, heq⟩ := Option.map_eq_some_iff.mp hq
    obtain ⟨rfl, rfl⟩ := Prod.mk.inj heq
    exact ho W₁ hW₁
  have hcall {call : Uuid} {f : WaitCall → Option (Waits π)}
      (hf : ∀ c W', W.calls.lookup call = some c → f c = some W' → W'.Sound (log ++ [])) :
      ∀ W', W.callStep call f = some W' → W'.Sound (log ++ []) := by
    intro W' hW'
    obtain ⟨c, hc, hfc⟩ := Option.bind_eq_some_iff.mp hW'
    exact hf c W' hc hfc
  cases a with
  | gateway a => exact h.gatewayStep hstep
  | shutDown =>
    refine hquiet (fun W' hW' => ?_) hstep
    obtain rfl := Option.some.inj hW'
    rw [List.append_nil]
    refine ⟨h.idle, fun k c hc => ?_, h.unique, h.nodup, h.ended, h.delivered⟩
    exact (h.calls k c hc).of_completions rfl le_rfl (fun _ hw => hw) fun _ _ hsub =>
      Or.inr ⟨hsub, fun hmem => hmem⟩
  | wait call user job timeoutMs => exact hquiet (fun W' hW' => h.wait hW') hstep
  | proceed call => exact hquiet (hcall fun c W' hc hW' => h.proceed hc hW') hstep
  | timeout call => exact hquiet (hcall fun c W' hc hW' => h.timeout hc hW') hstep
  | fail call => exact hquiet (hcall fun c W' hc hW' => h.fail hc hW') hstep
  | drop call =>
    refine hquiet (hcall fun c W' hc hW' => ?_) hstep
    obtain rfl := Option.some.inj hW'
    exact h.drop hc
  | receive job => exact h.receive hstep
  | signal => exact hquiet (fun W' hW' => h.signal hW') hstep

theorem of_run (h : (waitSystem p).Run log W) : W.Sound log := by
  refine h.invariant (fun W hW => ?_) fun _ hsound hstep => hsound.step hstep
  obtain rfl : W = .init := hW
  exact .init

end Waits.Sound

/-! ### The counts of the subscriptions -/

/-- What a step may do to the table of the subscriptions. -/
inductive CompletionsStep (c : JobCompletions) : JobCompletions → Prop
  | keep : CompletionsStep c c
  | forget : CompletionsStep c .empty
  | subscribe (user job : Uuid) : CompletionsStep c (c.subscribe user job).1
  | notify (job : Uuid) : CompletionsStep c (c.notify job).1
  | remove (job : Uuid) (id : ℕ) : CompletionsStep c (c.remove job id)

namespace CompletionsStep

theorem unsubscribe (W : Waits π) (c : WaitCall) :
    CompletionsStep W.completions (W.unsubscribe c) := by
  unfold Waits.unsubscribe
  split
  · exact .keep
  · exact .remove _ _

theorem readStatus {ended waiting : WaitPhase} :
    CompletionsStep W.completions (W.readStatus call c ended waiting).completions := by
  unfold Waits.readStatus
  split
  · exact .unsubscribe W c
  · exact .keep

theorem subscribeCall : CompletionsStep W.completions (W.subscribe call c).completions := by
  have hsubscribe := CompletionsStep.subscribe (c := W.completions) c.user c.job
  unfold Waits.subscribe
  split
  · next hc => rwa [hc] at hsubscribe
  · next hc => rwa [hc] at hsubscribe

theorem proceed (h : W.proceed call c = some W') :
    CompletionsStep W.completions W'.completions := by
  unfold Waits.proceed at h
  split at h
  · obtain rfl := Option.some.inj h
    exact .readStatus
  · obtain rfl := Option.some.inj h
    exact .subscribeCall
  · obtain rfl := Option.some.inj h
    exact .readStatus
  · split_ifs at h
    obtain rfl := Option.some.inj h
    exact .keep
  · split at h
    · obtain rfl := Option.some.inj h
      exact .unsubscribe W c
    · obtain rfl := Option.some.inj h
      exact .keep
  · split at h
    · obtain rfl := Option.some.inj h
      exact .unsubscribe W c
    · obtain rfl := Option.some.inj h
      exact .keep
  · obtain rfl := Option.some.inj h
    exact .unsubscribe W c
  · cases h

theorem timeout (h : W.timeout call c = some W') :
    CompletionsStep W.completions W'.completions := by
  unfold Waits.timeout at h
  split at h
  · split_ifs at h
    obtain rfl := Option.some.inj h
    exact .keep
  · cases h

theorem fail (h : W.fail call c = some W') : CompletionsStep W.completions W'.completions := by
  unfold Waits.fail at h
  split at h
  all_goals
    cases h
    try exact .unsubscribe W c

theorem wait {user job : Uuid} {timeoutMs : Option ℕ}
    (h : W.wait call user job timeoutMs = some W') :
    CompletionsStep W.completions W'.completions := by
  unfold Waits.wait at h
  split_ifs at h
  split at h
  · obtain rfl := Option.some.inj h
    exact .keep
  · obtain rfl := Option.some.inj h
    exact .keep

theorem of_step {a : WaitAction} (h : W.step p a = some (W', es)) :
    CompletionsStep W.completions W'.completions := by
  have hquiet {o : Option (Waits π)}
      (ho : ∀ W', o = some W' → CompletionsStep W.completions W'.completions)
      (hq : Waits.quiet o = some (W', es)) : CompletionsStep W.completions W'.completions := by
    obtain ⟨W₁, hW₁, heq⟩ := Option.map_eq_some_iff.mp hq
    obtain ⟨rfl, -⟩ := Prod.mk.inj heq
    exact ho W₁ hW₁
  have hcall {call : Uuid} {f : WaitCall → Option (Waits π)}
      (hf : ∀ c W', f c = some W' → CompletionsStep W.completions W'.completions) :
      ∀ W', W.callStep call f = some W' → CompletionsStep W.completions W'.completions := by
    intro W' hW'
    obtain ⟨c, -, hfc⟩ := Option.bind_eq_some_iff.mp hW'
    exact hf c W' hfc
  cases a with
  | gateway a =>
    obtain ⟨⟨g', es'⟩, -, heq⟩ := Option.map_eq_some_iff.mp h
    obtain ⟨rfl, -⟩ := Prod.mk.inj heq
    dsimp only
    split_ifs
    · exact .keep
    · exact .forget
  | shutDown =>
    refine hquiet (fun W' hW' => ?_) h
    obtain rfl := Option.some.inj hW'
    exact .keep
  | wait call user job timeoutMs => exact hquiet (fun _ => .wait) h
  | proceed call => exact hquiet (hcall fun _ _ => .proceed) h
  | timeout call => exact hquiet (hcall fun _ _ => .timeout) h
  | fail call => exact hquiet (hcall fun _ _ => .fail) h
  | drop call =>
    refine hquiet (hcall fun c W' hW' => ?_) h
    obtain rfl := Option.some.inj hW'
    exact .unsubscribe W c
  | receive job =>
    simp only [Waits.step, Waits.receive] at h
    split_ifs at h
    obtain ⟨rfl, -⟩ := Prod.mk.inj (Option.some.inj h)
    exact .notify job
  | signal =>
    refine hquiet (fun W' hW' => ?_) h
    unfold Waits.signal at hW'
    split at hW'
    · cases hW'
    · obtain rfl := Option.some.inj hW'
      exact .keep

end CompletionsStep

theorem JobCompletions.Counted.step {c c' : JobCompletions} (h : c.Counted)
    (hstep : CompletionsStep c c') : c'.Counted := by
  cases hstep with
  | keep => exact h
  | forget => exact .empty
  | subscribe user job => exact h.subscribe
  | notify job => exact h.notify
  | remove job id => exact h.remove

/-- **Limits.** The counts by which a subscription is refused are those of the subscriptions that
there are. -/
theorem counted_of_run (h : (waitSystem p).Run log W) : W.completions.Counted := by
  refine h.invariant (I := fun _ W => W.completions.Counted) (fun W hW => ?_)
    fun _ hcounted hstep => ?_
  · obtain rfl : W = .init := hW
    exact .empty
  · exact hcounted.step (.of_step hstep)

/-- **Waiting.** A call that sleeps while its job has ended was signalled, or is about to be, as
soon as the notification of the job has been received; before that the notification is on its way.
A call that has answered that its job has ended has answered what the database holds, and will
hold. -/
theorem wait_sound (h : (waitSystem p).Run log W) (hc : W.calls.lookup call = some c) :
    (∀ id wakeAt, c.phase = .sleeping id wakeAt → W.gateway.database.Ended c.job →
      (.delivered c.job ∈ log → W.Woken id) ∧ (W.Woken id ∨ c.job ∈ W.channel)) ∧
    ∀ d, c.phase = .returned (.ok d) → d.row.status.isFinal = true →
      W.gateway.database.jobs.lookup c.job = some d.row ∧ d.Agrees := by
  have hsound := Waits.Sound.of_run h
  refine ⟨fun id wakeAt hphase hended => ?_, fun d hphase => ?_⟩
  · have hasleep := (hsound.calls call c hc).asleep id wakeAt hphase hended
    exact ⟨fun hmem => hasleep.resolve_right (hsound.delivered c.job hmem).2, hasleep⟩
  · exact (hsound.calls call c hc).detail d (by rw [hphase]; rfl)

end

/-- A user waits for a job that is not dispatched in time, and the listener hears of its end. -/
def overdueActions : List WaitAction :=
  connectActions.map .gateway ++
    [.gateway submitAction, .wait (.numbered 7) (.numbered 1) (.numbered 5) none,
      .proceed (.numbered 7), .proceed (.numbered 7), .proceed (.numbered 7),
      .gateway (.tick (seconds 31)), .gateway (.maintain (.numbered 6)),
      .gateway (.maintain (.numbered 6)), .receive (.numbered 5)]

/-- The call of that user is woken. -/
theorem wait_sound_overdue :
    ∃ (W : Waits Unit) (log : List (WaitEvent Unit)) (c : WaitCall) (id wakeAt : ℕ),
      (waitSystem plainPlatform).Run log W ∧ W.calls.lookup (.numbered 7) = some c ∧
        c.phase = .sleeping id wakeAt ∧ W.gateway.database.Ended c.job ∧ W.Woken id := by
  obtain ⟨r, hr⟩ : ∃ r, (waitSystem plainPlatform).exec .init overdueActions = some r := ⟨_, rfl⟩
  have hstate : ((waitSystem plainPlatform).exec .init overdueActions).any (fun r =>
      (r.1.calls.lookup (.numbered 7)).any fun c =>
        c.job = .numbered 5 && (match c.phase with | .sleeping .. => true | _ => false) &&
          (r.1.gateway.database.jobs.lookup (.numbered 5)).any fun job => job.status.isFinal) =
      true := by
    decide
  have hlog : ((waitSystem plainPlatform).exec .init overdueActions).any (fun r =>
      r.2.any fun | .delivered job => job = .numbered 5 | _ => false) = true := by
    decide
  rw [hr, Option.any_some] at hstate hlog
  obtain ⟨c, hc, hcond⟩ := (Option.any_eq_true _ _).mp hstate
  obtain ⟨⟨hjob, hphase⟩, hended⟩ : (c.job = .numbered 5 ∧ _ = true) ∧ _ = true := by
    simpa only [Bool.and_eq_true, decide_eq_true_eq] using hcond
  have hrun : (waitSystem plainPlatform).Run r.2 r.1 := ⟨_, rfl, .of_exec hr⟩
  obtain ⟨job, hlookup, hfinal⟩ := (Option.any_eq_true _ _).mp hended
  have hended : r.1.gateway.database.Ended c.job := ⟨job, hjob ▸ hlookup, hfinal⟩
  obtain ⟨e, he, hdelivered⟩ := List.any_eq_true.mp hlog
  split at hphase
  · next id wakeAt hsleeping =>
    split at hdelivered
    · next job' =>
      obtain rfl : job' = c.job := (of_decide_eq_true hdelivered).trans hjob.symm
      exact ⟨r.1, r.2, c, id, wakeAt, hrun, hc, hsleeping, hended,
        ((wait_sound hrun hc).1 id wakeAt hsleeping hended).1 he⟩
    · cases hdelivered
  · cases hphase

end ExecutionProvider.Gateway
