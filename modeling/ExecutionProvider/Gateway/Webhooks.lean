import ExecutionProvider.Foundation.Runs
import ExecutionProvider.Gateway.Database

/-!
# Webhook deliveries

A row of the outbox is delivered by workers. A worker claims a delivery that is due for a lease
of sixty seconds, sends it, and records what came of the attempt while its lease lasts; a lease
that has run out is up for another claim. Attempts that fail are repeated with growing delays
for a day, and at most eight times, until the owner asks for another cycle.

The transactions of the source read the clock several times. Here each has one reading, and time
never runs back.

## Main definitions

* `Delivery`, `Attempt`: the rows of the deliveries and of their attempts.
* `Delivery.claim`, `Delivery.finalize`, `Delivery.redeliver`: the transactions.
* `Webhooks.step`: everything that workers and owners do.
* `RowEffect`: what a step does to one delivery.

## Main results

* `rowEffect_of_step`: every step has one of these effects on a delivery.
-/

namespace ExecutionProvider.Gateway

/-! ### Rows -/

/-- The status of a delivery. -/
inductive DeliveryStatus
  | pending
  | delivering
  | retryWait
  | delivered
  | failed
deriving DecidableEq

/-- An attempt to deliver. -/
structure Attempt where
  number : ℕ
  startedAt : ℕ
  finishedAt : Option ℕ
  httpStatus : Option ℕ
  error : Option Json

/-- The token of the worker that may deliver, and when it is up. -/
structure Lease where
  token : Uuid
  expiresAt : ℕ

/-- A delivery with its attempts. The token of the lease and the time at which it expires are both
there or both not, as the schema demands. -/
structure Delivery where
  outbox : WebhookDelivery
  status : DeliveryStatus
  nextAttemptAt : ℕ
  lease : Option Lease
  retryFromAttempt : ℕ
  retryStartedAt : ℕ
  deliveredAt : Option ℕ
  attempts : List Attempt

/-- What a worker knows about the delivery it has claimed. -/
structure Claim where
  delivery : Uuid
  lease : Uuid
  number : ℕ
  cycleNumber : ℤ
  retryStartedAt : ℕ

/-- What came of an attempt. -/
structure DeliveryOutcome where
  httpStatus : Option ℕ
  error : Option Json
  retry : Bool
  retryAfter : Option ℕ

/-- The time for which failed attempts are repeated. -/
def retryWindow : ℕ := seconds 86400

/-- The time for which a worker may deliver. -/
def leaseTime : ℕ := seconds 60

/-- The delay in seconds before another attempt, by the number of the attempt in its cycle. The
source turns the exponent into an unsigned number of thirty-two bits, and its powers must fit
into sixty-three bits. -/
def backoff (cycleNumber : ℤ) : Option ℕ :=
  let exponent := ((cycleNumber - 1) % 2 ^ 32).toNat
  if 30 * 2 ^ exponent < 2 ^ 63 then some (min (30 * 2 ^ exponent) 3600) else none

/-- What happens to a delivery. A cycle begins, an attempt is claimed, the outcome of an attempt is
recorded, a lease is given back, or the delay cannot be computed. -/
inductive WebhookEvent
  | begun (delivery : Uuid) (time : ℕ)
  | claimed (delivery lease : Uuid) (number time : ℕ)
  | recorded (delivery : Uuid) (number : ℕ)
  | released (delivery lease : Uuid)
  | panicked (delivery : Uuid)
deriving DecidableEq

/-- The delivery that an event is about. -/
def WebhookEvent.delivery : WebhookEvent → Uuid
  | begun id _ | claimed id _ _ _ | recorded id _ | released id _ | panicked id => id

/-! ### Transactions -/

namespace Attempt

/-- The outcome of an attempt that was given up is unknown. -/
def expire (a : Attempt) (now : ℕ) : Attempt :=
  if a.finishedAt.isNone then
    { a with
      finishedAt := some now
      error := some (.mkObj [("code", .str "lease_expired"),
        ("message", .str "previous delivery acknowledgement is unknown")]) }
  else a

/-- The outcome of an attempt. -/
def finish (a : Attempt) (now : ℕ) (outcome : DeliveryOutcome) : Attempt :=
  { a with
    finishedAt := some now
    httpStatus := outcome.httpStatus
    error := outcome.error }

@[simp] theorem number_expire (a : Attempt) (now : ℕ) : (a.expire now).number = a.number := by
  rw [expire]
  split <;> rfl

@[simp] theorem isSome_finishedAt_expire (a : Attempt) (now : ℕ) :
    (a.expire now).finishedAt.isSome = true := by
  cases h : a.finishedAt <;> simp [expire, h]

theorem expire_of_isSome {a : Attempt} (h : a.finishedAt.isSome = true) (now : ℕ) :
    a.expire now = a := by
  rw [expire, if_neg]
  rw [Option.isSome_iff_ne_none] at h
  rwa [Option.isNone_iff_eq_none]

end Attempt

namespace Delivery

/-- A new delivery. -/
def new (outbox : WebhookDelivery) (now : ℕ) : Delivery :=
  ⟨outbox, .pending, now, none, 1, now, none, []⟩

/-- Whether a delivery is up for a claim. -/
def isDue (d : Delivery) (now : ℕ) : Bool :=
  (d.status = .pending || d.status = .retryWait) && d.nextAttemptAt ≤ now ||
    d.status = .delivering && d.lease.any (·.expiresAt ≤ now)

/-- The number of the next attempt. -/
def nextNumber (d : Delivery) : ℕ := (d.attempts.map Attempt.number).foldr max 0 + 1

/-- The number that the next attempt has in its cycle. -/
def nextCycleNumber (d : Delivery) : ℤ := d.nextNumber - d.retryFromAttempt + 1

/-- Whether no further attempt belongs to the cycle. -/
def exhausted (d : Delivery) (now : ℕ) : Bool :=
  8 < d.nextCycleNumber || d.retryStartedAt + retryWindow ≤ now

/-- The attempts that were not finished are given up. -/
def expire (d : Delivery) (now : ℕ) : Delivery :=
  { d with attempts := d.attempts.map fun a => a.expire now }

/-- The cycle has ended without success. -/
def fail (d : Delivery) : Delivery := { d with status := .failed, lease := none }

/-- A worker begins another attempt. -/
def begin (d : Delivery) (now : ℕ) (lease : Uuid) : Delivery :=
  { d with
    status := .delivering
    lease := some ⟨lease, now + leaseTime⟩
    attempts := d.attempts ++ [⟨d.nextNumber, now, none, none, none⟩] }

/-- The attempts whose outcome is not recorded. -/
def unfinished (d : Delivery) : List ℕ :=
  (d.attempts.filter fun a => a.finishedAt.isNone).map Attempt.number

/-- Whether a worker with a token still has the lease. -/
def leased (d : Delivery) (token : Uuid) (now : ℕ) : Bool :=
  d.lease.any fun l => l.token = token && now < l.expiresAt

/-- Whether a failed attempt is to be repeated at some time. -/
def repeats (claim : Claim) (outcome : DeliveryOutcome) (next : ℕ) : Bool :=
  outcome.error.isSome && outcome.retry && claim.cycleNumber < 8 &&
    next < claim.retryStartedAt + retryWindow

/-- The outcome of an attempt is recorded. -/
def finalize (d : Delivery) (now : ℕ) (claim : Claim) (outcome : DeliveryOutcome) (next : ℕ) :
    Delivery :=
  let status : DeliveryStatus :=
    if outcome.error.isNone then .delivered
    else if repeats claim outcome next then .retryWait
    else .failed
  { d with
    status := status
    nextAttemptAt := next
    lease := none
    deliveredAt := if status = .delivered then some now else d.deliveredAt
    attempts := d.attempts.map fun a =>
      if a.number = claim.number then a.finish now outcome else a }

/-- The owner asks for another cycle. -/
def redeliver (d : Delivery) (now : ℕ) : Except GatewayError Delivery :=
  if d.status = .delivered ∨ d.status = .failed then
    .ok { d with
      status := .pending
      nextAttemptAt := now
      retryStartedAt := now
      retryFromAttempt := d.nextNumber }
  else
    .error (.conflict "delivery_already_scheduled" "delivery already has an active retry cycle")

end Delivery

/-! ### Workers and owners -/

/-- The deliveries, whether their owners are enabled, and the claims that workers are busy with. -/
structure Webhooks where
  enabled : Table Uuid Bool
  deliveries : Table Uuid Delivery
  workers : Table ℕ Claim
  now : ℕ

/-- A transaction of a worker or an owner, a row put into the outbox, the end of a worker, or the
passing of time. Which of the deliveries that are due a worker gets depends on the locks of
others; tokens and the jitter of the delay (in milliseconds) are drawn. -/
inductive WebhookAction
  | enable (user : Uuid) (enabled : Bool)
  | enqueue (id : Uuid) (outbox : WebhookDelivery)
  | claim (worker : ℕ) (id lease : Uuid)
  | finalize (worker : ℕ) (outcome : DeliveryOutcome) (jitter : ℕ)
  | crash (worker : ℕ)
  | redeliver (user id : Uuid)
  | wait (time : ℕ)

namespace Webhooks

/-- No delivery yet. -/
def init : Webhooks := ⟨∅, ∅, ∅, 0⟩

/-- A worker claims a delivery that is due. -/
def claim (s : Webhooks) (worker : ℕ) (id lease : Uuid) : Option (Webhooks × List WebhookEvent) :=
  match s.deliveries.lookup id with
  | none => none
  | some d =>
    if s.enabled.lookup d.outbox.userId = some true ∧ d.isDue s.now then
      let recorded := d.unfinished.map (WebhookEvent.recorded id)
      let d := d.expire s.now
      if d.exhausted s.now then
        some ({ s with deliveries := s.deliveries.insert id d.fail }, recorded)
      else
        some ({ s with
          deliveries := s.deliveries.insert id (d.begin s.now lease)
          workers := s.workers.insert worker
            ⟨id, lease, d.nextNumber, d.nextCycleNumber, d.retryStartedAt⟩ },
          recorded ++ [.claimed id lease d.nextNumber s.now])
    else none

/-- A worker records what came of its attempt, unless it has lost its lease. -/
def finalize (s : Webhooks) (worker : ℕ) (outcome : DeliveryOutcome) (jitter : ℕ) :
    Option (Webhooks × List WebhookEvent) :=
  match s.workers.lookup worker with
  | none => none
  | some claim =>
    let done := { s with workers := s.workers.erase worker }
    match s.deliveries.lookup claim.delivery with
    | none => some (done, [])
    | some d =>
      if d.leased claim.lease s.now then
        match backoff claim.cycleNumber with
        | none => some (done, [.panicked claim.delivery])
        | some delay =>
          if delay * 500 ≤ jitter ∧ jitter ≤ delay * 1000 then
            let next := max (s.now + jitter * 1000) (outcome.retryAfter.getD 0)
            some ({ done with deliveries :=
                s.deliveries.insert claim.delivery (d.finalize s.now claim outcome next) },
              (d.attempts.filter fun a => a.number = claim.number).map
                (fun a => .recorded claim.delivery a.number) ++
                [.released claim.delivery claim.lease])
          else none
      else some (done, [])

/-- An owner asks for another cycle. -/
def redeliver (s : Webhooks) (user id : Uuid) : Webhooks × List WebhookEvent :=
  match s.deliveries.lookup id with
  | none => (s, [])
  | some d =>
    if d.outbox.userId = user then
      match d.redeliver s.now with
      | .error _ => (s, [])
      | .ok d => ({ s with deliveries := s.deliveries.insert id d }, [.begun id s.now])
    else (s, [])

/-- A step of the workers and owners. -/
def step (s : Webhooks) : WebhookAction → Option (Webhooks × List WebhookEvent)
  | .enable user enabled => some ({ s with enabled := s.enabled.insert user enabled }, [])
  | .enqueue id outbox =>
    if (s.deliveries.lookup id).isNone then
      some ({ s with deliveries := s.deliveries.insert id (.new outbox s.now) },
        [.begun id s.now])
    else none
  | .claim worker id lease =>
    if (s.workers.lookup worker).isNone then s.claim worker id lease else none
  | .finalize worker outcome jitter => s.finalize worker outcome jitter
  | .crash worker => some ({ s with workers := s.workers.erase worker }, [])
  | .redeliver user id => some (s.redeliver user id)
  | .wait time => some ({ s with now := s.now + time }, [])

end Webhooks

/-- The runs of the workers and owners. -/
def webhookSystem : System Webhooks WebhookAction WebhookEvent where
  start s := s = .init
  step := Webhooks.step

/-! ### The effects of a step -/

/-- The events about one delivery. -/
def history (id : Uuid) (log : List WebhookEvent) : List WebhookEvent :=
  log.filter fun e => e.delivery = id

@[simp] theorem history_append (id : Uuid) (log log' : List WebhookEvent) :
    history id (log ++ log') = history id log ++ history id log' := List.filter_append ..

/-- Events that are all about a delivery. -/
theorem history_eq_self {id : Uuid} {es : List WebhookEvent} (h : ∀ e ∈ es, e.delivery = id) :
    history id es = es :=
  List.filter_eq_self.mpr fun e he => decide_eq_true (h e he)

/-- Events that are all about another delivery. -/
theorem history_eq_nil {id : Uuid} {es : List WebhookEvent} (h : ∀ e ∈ es, e.delivery ≠ id) :
    history id es = [] :=
  List.filter_eq_nil_iff.mpr fun e he => by simpa using h e he

/-- No worker takes over a delivery. -/
def KeepsWorkers (id : Uuid) (s s' : Webhooks) : Prop :=
  ∀ w c, s'.workers.lookup w = some c → c.delivery = id → s.workers.lookup w = some c

/-- What a step does to one delivery, and the events about it: nothing; it is put into the outbox;
it is due and its cycle has ended; it is due and claimed; the worker with its lease records an
outcome (or cannot compute the delay); or its owner asks for another cycle. -/
inductive RowEffect (id : Uuid) (s s' : Webhooks) : WebhookAction → List WebhookEvent → Prop
  | kept {a : WebhookAction} (hd : s'.deliveries.lookup id = s.deliveries.lookup id)
      (hw : KeepsWorkers id s s') (ht : s.now ≤ s'.now) : RowEffect id s s' a []
  | enqueued {outbox : WebhookDelivery} (hd : s.deliveries.lookup id = none)
      (hd' : s'.deliveries.lookup id = some (.new outbox s.now)) (hw : s'.workers = s.workers)
      (ht : s'.now = s.now) : RowEffect id s s' (.enqueue id outbox) [.begun id s.now]
  | exhausted {worker : ℕ} {lease : Uuid} {d : Delivery} (hd : s.deliveries.lookup id = some d)
      (hdue : d.isDue s.now = true) (hd' : s'.deliveries.lookup id = some (d.expire s.now).fail)
      (hw : s'.workers = s.workers) (ht : s'.now = s.now) :
      RowEffect id s s' (.claim worker id lease) (d.unfinished.map (.recorded id))
  | claimed {worker : ℕ} {lease : Uuid} {d : Delivery} (hd : s.deliveries.lookup id = some d)
      (hdue : d.isDue s.now = true) (hleft : (d.expire s.now).exhausted s.now = false)
      (hd' : s'.deliveries.lookup id = some ((d.expire s.now).begin s.now lease))
      (hw : s'.workers = s.workers.insert worker ⟨id, lease, (d.expire s.now).nextNumber,
        (d.expire s.now).nextCycleNumber, d.retryStartedAt⟩) (ht : s'.now = s.now) :
      RowEffect id s s' (.claim worker id lease) (d.unfinished.map (.recorded id) ++
        [.claimed id lease (d.expire s.now).nextNumber s.now])
  | finalized {worker jitter next : ℕ} {outcome : DeliveryOutcome} {c : Claim} {d : Delivery}
      (hd : s.deliveries.lookup id = some d) (hc : s.workers.lookup worker = some c)
      (hid : c.delivery = id) (hlease : d.leased c.lease s.now = true)
      (hd' : s'.deliveries.lookup id = some (d.finalize s.now c outcome next))
      (hw : KeepsWorkers id s s') (ht : s'.now = s.now) :
      RowEffect id s s' (.finalize worker outcome jitter)
        ((d.attempts.filter fun a => a.number = c.number).map (fun a => .recorded id a.number) ++
          [.released id c.lease])
  | panicked {worker jitter : ℕ} {outcome : DeliveryOutcome} {c : Claim}
      (hc : s.workers.lookup worker = some c) (hid : c.delivery = id)
      (hnone : backoff c.cycleNumber = none) :
      RowEffect id s s' (.finalize worker outcome jitter) [.panicked id]
  | redelivered {user : Uuid} {d d' : Delivery} (hd : s.deliveries.lookup id = some d)
      (hr : d.redeliver s.now = .ok d') (hd' : s'.deliveries.lookup id = some d')
      (hw : s'.workers = s.workers) (ht : s'.now = s.now) :
      RowEffect id s s' (.redeliver user id) [.begun id s.now]

section Effects

variable {s s' : Webhooks} {es : List WebhookEvent} (id : Uuid)

theorem keepsWorkers_erase (worker : ℕ) (s : Webhooks) (deliveries : Table Uuid Delivery) :
    KeepsWorkers id s { s with
      workers := s.workers.erase worker, deliveries := deliveries } := by
  intro w c hw hid
  rcases eq_or_ne w worker with rfl | hne
  · rw [AList.lookup_erase] at hw
    cases hw
  · rwa [AList.lookup_erase_ne hne] at hw

theorem keepsWorkers_of_eq (h : s'.workers = s.workers) : KeepsWorkers id s s' :=
  fun _ _ hw _ => h ▸ hw

theorem rowEffect_of_claim {worker : ℕ} {id' lease : Uuid}
    (hs : s.claim worker id' lease = some (s', es)) :
    RowEffect id s s' (.claim worker id' lease) (history id es) := by
  rw [Webhooks.claim] at hs
  split at hs
  · cases hs
  · next d hd =>
    split at hs
    · next hdue =>
      have hrecorded : ∀ e ∈ d.unfinished.map (WebhookEvent.recorded id'), e.delivery = id' := by
        intro e he
        obtain ⟨n, -, rfl⟩ := List.mem_map.mp he
        rfl
      dsimp only at hs
      split at hs
      · simp only [Option.some.injEq, Prod.mk.injEq] at hs
        obtain ⟨rfl, rfl⟩ := hs
        rcases eq_or_ne id' id with rfl | hne
        · rw [history_eq_self hrecorded]
          exact .exhausted hd hdue.2 (AList.lookup_insert _) rfl rfl
        · rw [history_eq_nil fun e he => (hrecorded e he).symm ▸ hne]
          exact .kept (AList.lookup_insert_ne hne.symm) (keepsWorkers_of_eq id rfl) le_rfl
      · next hleft =>
        simp only [Option.some.injEq, Prod.mk.injEq] at hs
        obtain ⟨rfl, rfl⟩ := hs
        have hall : ∀ e ∈ d.unfinished.map (WebhookEvent.recorded id') ++
            [.claimed id' lease (d.expire s.now).nextNumber s.now], e.delivery = id' := by
          intro e he
          rcases List.mem_append.mp he with he | he
          · exact hrecorded e he
          · rw [List.mem_singleton.mp he]
            rfl
        rcases eq_or_ne id' id with rfl | hne
        · rw [history_eq_self hall]
          exact .claimed hd hdue.2 (by simpa using hleft) (AList.lookup_insert _) rfl rfl
        · rw [history_eq_nil fun e he => (hall e he).symm ▸ hne]
          refine .kept (AList.lookup_insert_ne hne.symm) (fun w c hw hid => ?_) le_rfl
          rcases eq_or_ne w worker with rfl | hne'
          · rw [AList.lookup_insert] at hw
            rw [← Option.some.inj hw] at hid
            exact absurd hid hne
          · rwa [AList.lookup_insert_ne hne'] at hw
    · cases hs

theorem rowEffect_of_finalize {worker : ℕ} {outcome : DeliveryOutcome} {jitter : ℕ}
    (hs : s.finalize worker outcome jitter = some (s', es)) :
    RowEffect id s s' (.finalize worker outcome jitter) (history id es) := by
  have hkept : RowEffect id s { s with workers := s.workers.erase worker }
      (.finalize worker outcome jitter) [] :=
    .kept rfl (keepsWorkers_erase id worker s _) le_rfl
  rw [Webhooks.finalize] at hs
  split at hs
  · cases hs
  · next c hc =>
    dsimp only at hs
    split at hs
    · simp only [Option.some.injEq, Prod.mk.injEq] at hs
      obtain ⟨rfl, rfl⟩ := hs
      exact hkept
    · next d hd =>
      split at hs
      · next hlease =>
        split at hs
        · next hnone =>
          simp only [Option.some.injEq, Prod.mk.injEq] at hs
          obtain ⟨rfl, rfl⟩ := hs
          rcases eq_or_ne c.delivery id with hid | hne
          · rw [history_eq_self (by simpa [WebhookEvent.delivery] using hid), hid]
            exact .panicked hc hid hnone
          · rw [history_eq_nil (by simpa [WebhookEvent.delivery] using hne)]
            exact hkept
        · split at hs
          · simp only [Option.some.injEq, Prod.mk.injEq] at hs
            obtain ⟨rfl, rfl⟩ := hs
            have hall : ∀ e ∈ (d.attempts.filter fun a => a.number = c.number).map
                (fun a => WebhookEvent.recorded c.delivery a.number) ++
                  [.released c.delivery c.lease], e.delivery = c.delivery := by
              intro e he
              rcases List.mem_append.mp he with he | he
              · obtain ⟨a, -, rfl⟩ := List.mem_map.mp he
                rfl
              · rw [List.mem_singleton.mp he]
                rfl
            rcases eq_or_ne c.delivery id with hid | hne
            · rw [history_eq_self fun e he => (hall e he).trans hid]
              subst hid
              exact .finalized hd hc rfl hlease (AList.lookup_insert _)
                (keepsWorkers_erase _ worker s _) rfl
            · rw [history_eq_nil fun e he => (hall e he).symm ▸ hne]
              exact .kept (AList.lookup_insert_ne hne.symm) (keepsWorkers_erase id worker s _)
                le_rfl
          · cases hs
      · simp only [Option.some.injEq, Prod.mk.injEq] at hs
        obtain ⟨rfl, rfl⟩ := hs
        exact hkept

theorem rowEffect_of_redeliver {user id' : Uuid} (hs : s.redeliver user id' = (s', es)) :
    RowEffect id s s' (.redeliver user id') (history id es) := by
  have hkept : RowEffect id s s (.redeliver user id') [] :=
    .kept rfl (keepsWorkers_of_eq id rfl) le_rfl
  rw [Webhooks.redeliver] at hs
  split at hs
  · obtain ⟨rfl, rfl⟩ := Prod.mk.inj hs
    exact hkept
  · next d hd =>
    split at hs
    · split at hs
      · obtain ⟨rfl, rfl⟩ := Prod.mk.inj hs
        exact hkept
      · next d' hr =>
        obtain ⟨rfl, rfl⟩ := Prod.mk.inj hs
        rcases eq_or_ne id' id with rfl | hne
        · rw [history_eq_self (by simp [WebhookEvent.delivery])]
          exact .redelivered hd hr (AList.lookup_insert _) rfl rfl
        · rw [history_eq_nil (by simpa [WebhookEvent.delivery] using hne)]
          exact .kept (AList.lookup_insert_ne hne.symm) (keepsWorkers_of_eq id rfl) le_rfl
    · obtain ⟨rfl, rfl⟩ := Prod.mk.inj hs
      exact hkept

/-- Every step has one of these effects on a delivery. -/
theorem rowEffect_of_step {a : WebhookAction} (hs : s.step a = some (s', es)) :
    RowEffect id s s' a (history id es) := by
  cases a with
  | enable user enabled =>
    simp only [Webhooks.step, Option.some.injEq, Prod.mk.injEq] at hs
    obtain ⟨rfl, rfl⟩ := hs
    exact .kept rfl (keepsWorkers_of_eq id rfl) le_rfl
  | enqueue id' outbox =>
    rw [Webhooks.step] at hs
    split at hs
    · next hnone =>
      simp only [Option.some.injEq, Prod.mk.injEq] at hs
      obtain ⟨rfl, rfl⟩ := hs
      rcases eq_or_ne id' id with rfl | hne
      · rw [history_eq_self (by simp [WebhookEvent.delivery])]
        exact .enqueued (Option.isNone_iff_eq_none.mp hnone) (AList.lookup_insert _) rfl rfl
      · rw [history_eq_nil (by simpa [WebhookEvent.delivery] using hne)]
        exact .kept (AList.lookup_insert_ne hne.symm) (keepsWorkers_of_eq id rfl) le_rfl
    · cases hs
  | claim worker id' lease =>
    rw [Webhooks.step] at hs
    split at hs
    · exact rowEffect_of_claim id hs
    · cases hs
  | finalize worker outcome jitter => exact rowEffect_of_finalize id hs
  | crash worker =>
    simp only [Webhooks.step, Option.some.injEq, Prod.mk.injEq] at hs
    obtain ⟨rfl, rfl⟩ := hs
    exact .kept rfl (keepsWorkers_erase id worker s _) le_rfl
  | redeliver user id' => exact rowEffect_of_redeliver id (Option.some.inj hs)
  | wait time =>
    simp only [Webhooks.step, Option.some.injEq, Prod.mk.injEq] at hs
    obtain ⟨rfl, rfl⟩ := hs
    exact .kept rfl (keepsWorkers_of_eq id rfl) (Nat.le_add_right _ _)

end Effects

end ExecutionProvider.Gateway
