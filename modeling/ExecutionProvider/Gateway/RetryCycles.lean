import ExecutionProvider.Gateway.Webhooks
import Mathlib.Tactic.IntervalCases

/-!
# Retry cycles

A cycle of attempts begins when a delivery is put into the outbox, and whenever its owner asks for
another one. What is to hold of the cycles, the leases and the outcomes of a delivery is stated of
the events about it, with the tokens of all its leases distinct.

## Main definitions

* `cycles`: the cycles of a delivery.
* `liveLeases`: the leases that were neither given back nor have run out.
* `Delivery.Valid`: how the row of a delivery reflects the events about it.

## Main results

* `deliveries_sound`: what holds of every delivery in every run of the workers and owners.
-/

namespace ExecutionProvider.Gateway

/-! ### Cycles, leases and outcomes -/

/-- A retry cycle: when it began, and the numbers and times of its attempts. -/
structure Cycle where
  start : ℕ
  claims : List (ℕ × ℕ)
deriving DecidableEq

/-- An event begins a cycle, or belongs to the last one. -/
def cycleStep : List Cycle → WebhookEvent → List Cycle
  | cs, .begun _ time => ⟨time, []⟩ :: cs
  | c :: cs, .claimed _ _ number time => { c with claims := c.claims ++ [(number, time)] } :: cs
  | cs, _ => cs

/-- The cycles of a delivery, given the events about it. The last one comes first. -/
def cycles (log : List WebhookEvent) : List Cycle := log.foldl cycleStep []

/-- A cycle has at most eight attempts, each within a day. -/
def Cycle.Bounded (c : Cycle) : Prop :=
  c.claims.length ≤ 8 ∧ ∀ a ∈ c.claims, a.2 < c.start + retryWindow

/-- The token of the lease with which an attempt is claimed. -/
def WebhookEvent.lease : WebhookEvent → Option Uuid
  | claimed _ lease _ _ => some lease
  | _ => none

/-- The attempt whose outcome is recorded. -/
def WebhookEvent.recording : WebhookEvent → Option ℕ
  | recorded _ number => some number
  | _ => none

/-- The tokens of the leases that were given. -/
def leases (log : List WebhookEvent) : List Uuid := log.filterMap WebhookEvent.lease

/-- The numbers of the attempts whose outcome was recorded. -/
def recordings (log : List WebhookEvent) : List ℕ := log.filterMap WebhookEvent.recording

/-- The token of a lease of a delivery that is held at some time. -/
def WebhookEvent.liveLease (log : List WebhookEvent) (now : ℕ) : WebhookEvent → Option Uuid
  | claimed id lease _ time =>
    if now < time + leaseTime ∧ .released id lease ∉ log then some lease else none
  | _ => none

/-- The leases that were given for a delivery, not given back, and have not run out. -/
def liveLeases (log : List WebhookEvent) (now : ℕ) : List Uuid :=
  log.filterMap (WebhookEvent.liveLease log now)

/-! ### Valid deliveries -/

/-- The row of a delivery reflects the events about it: its attempts are numbered, the last cycle
is the one it is in, the outcomes of all attempts are recorded but for that of a lease, and no
other lease is live. -/
structure Delivery.Valid (id : Uuid) (log : List WebhookEvent) (now : ℕ) (d : Delivery) : Prop where
  numbers : d.attempts.map Attempt.number = List.range' 1 d.attempts.length
  cycle : ∃ current older, cycles log = current :: older ∧ current.start = d.retryStartedAt ∧
    current.claims.length + d.retryFromAttempt = d.attempts.length + 1
  bounded : ∀ c ∈ cycles log, c.Bounded
  status : d.status = .delivering ↔ d.lease.isSome
  free : d.lease = none → ∀ a ∈ d.attempts, a.finishedAt.isSome
  leased : ∀ l, d.lease = some l → ∃ init a time, d.attempts = init ++ [a] ∧
    a.finishedAt = none ∧ (∀ b ∈ init, b.finishedAt.isSome) ∧
    .claimed id l.token a.number time ∈ log ∧ l.expiresAt = time + leaseTime ∧
    .released id l.token ∉ log
  recorded : ∀ n, n ∈ recordings log ↔ ∃ a ∈ d.attempts, a.number = n ∧ a.finishedAt.isSome
  nodup : (recordings log).Nodup
  released : ∀ k, .released id k ∈ log → k ∈ leases log
  live : ∀ k n time, .claimed id k n time ∈ log → .released id k ∉ log →
    d.lease = some ⟨k, time + leaseTime⟩ ∨ time + leaseTime ≤ now

/-- A worker that is busy with a delivery has claimed an attempt, at a place in its cycle for which
the delay can be computed. -/
def WorkersValid (id : Uuid) (log : List WebhookEvent) (s : Webhooks) : Prop :=
  ∀ w c, s.workers.lookup w = some c → c.delivery = id →
    (∃ time, .claimed id c.lease c.number time ∈ log) ∧ 1 ≤ c.cycleNumber ∧ c.cycleNumber ≤ 8

/-- The row of a delivery and the workers reflect the events about it. -/
structure DeliverySound (id : Uuid) (log : List WebhookEvent) (s : Webhooks) : Prop where
  absent : s.deliveries.lookup id = none → log = []
  valid : ∀ d, s.deliveries.lookup id = some d → d.Valid id log s.now
  workers : WorkersValid id log s
  calm : .panicked id ∉ log

/-! ### Events -/

section Events

variable {id : Uuid} {log es : List WebhookEvent}

@[simp] theorem leases_append (log es : List WebhookEvent) :
    leases (log ++ es) = leases log ++ leases es := List.filterMap_append

@[simp] theorem recordings_append (log es : List WebhookEvent) :
    recordings (log ++ es) = recordings log ++ recordings es := List.filterMap_append

theorem cycles_append (log es : List WebhookEvent) :
    cycles (log ++ es) = es.foldl cycleStep (cycles log) := List.foldl_append

theorem leases_claimed (id k : Uuid) (n time : ℕ) (log : List WebhookEvent) :
    leases (.claimed id k n time :: log) = k :: leases log := rfl

theorem recordings_recorded (id : Uuid) (n : ℕ) (log : List WebhookEvent) :
    recordings (.recorded id n :: log) = n :: recordings log := rfl

theorem recordings_map_recorded (id : Uuid) (ns : List ℕ) :
    recordings (ns.map (.recorded id)) = ns := by
  induction ns with
  | nil => rfl
  | cons n ns ih => rw [List.map_cons, recordings_recorded, ih]

theorem leases_map_recorded (id : Uuid) (ns : List ℕ) :
    leases (ns.map (.recorded id)) = [] := by
  simp [leases, List.filterMap_eq_nil_iff, WebhookEvent.lease]

theorem cycles_map_recorded (log : List WebhookEvent) (id : Uuid) (ns : List ℕ) :
    cycles (log ++ ns.map (.recorded id)) = cycles log := by
  rw [cycles_append]
  induction ns with
  | nil => rfl
  | cons n ns ih =>
    rw [List.map_cons, List.foldl_cons]
    cases h : cycles log with
    | nil => rw [h] at ih; exact ih
    | cons c cs => rw [h] at ih; exact ih

theorem mem_leases {k : Uuid} : k ∈ leases log ↔ ∃ id n time, .claimed id k n time ∈ log := by
  rw [leases, List.mem_filterMap]
  constructor
  · rintro ⟨e, he, hk⟩
    cases e with
    | claimed id lease n time =>
      obtain rfl := Option.some.inj hk
      exact ⟨id, n, time, he⟩
    | begun id time => cases hk
    | recorded id n => cases hk
    | released id k' => cases hk
    | panicked id => cases hk
  · rintro ⟨id, n, time, he⟩
    exact ⟨_, he, rfl⟩

/-- With distinct tokens a lease was given once. -/
theorem claimed_unique (h : (leases log).Nodup) {k : Uuid} {n n' time time' : ℕ}
    (hc : .claimed id k n time ∈ log) (hc' : .claimed id k n' time' ∈ log) :
    n = n' ∧ time = time' := by
  induction log with
  | nil => cases hc
  | cons e log ih =>
    have hmem {n time : ℕ} (h : .claimed id k n time ∈ log) : k ∈ leases log :=
      mem_leases.mpr ⟨id, n, time, h⟩
    rcases List.mem_cons.mp hc with rfl | hcl
    · rw [leases_claimed, List.nodup_cons] at h
      rcases List.mem_cons.mp hc' with heq | hc'
      · simp only [WebhookEvent.claimed.injEq, true_and] at heq
        exact ⟨heq.1.symm, heq.2.symm⟩
      · exact absurd (hmem hc') h.1
    · rcases List.mem_cons.mp hc' with rfl | hc'
      · rw [leases_claimed, List.nodup_cons] at h
        exact absurd (hmem hcl) h.1
      · refine ih ?_ hcl hc'
        cases hl : e.lease with
        | none => rwa [leases, List.filterMap_cons_none hl] at h
        | some k' =>
          rw [leases, List.filterMap_cons_some hl, List.nodup_cons] at h
          exact h.2

end Events

/-! ### Attempts -/

section Attempts

variable {id : Uuid} {log : List WebhookEvent} {now : ℕ} {d : Delivery}

theorem foldr_max_range' (n : ℕ) : (List.range' 1 n).foldr max 0 = n := by
  induction n with
  | zero => rfl
  | succ n ih =>
    have hmax : ∀ (l : List ℕ) (m : ℕ), l.foldr max m = max (l.foldr max 0) m := by
      intro l m
      induction l with
      | nil => simp
      | cons a l ih => rw [List.foldr_cons, List.foldr_cons, ih, max_assoc]
    rw [List.range'_1_concat, List.foldr_append, hmax, ih]
    simp [Nat.add_comm]

/-- The next attempt of a valid delivery has the next number. -/
theorem nextNumber_of_numbers (h : d.attempts.map Attempt.number =
    List.range' 1 d.attempts.length) : d.nextNumber = d.attempts.length + 1 := by
  rw [Delivery.nextNumber, h, foldr_max_range']

/-- Giving attempts up changes neither their number nor their order. -/
theorem map_number_expire (d : Delivery) (now : ℕ) :
    (d.expire now).attempts.map Attempt.number = d.attempts.map Attempt.number := by
  simp [Delivery.expire]

@[simp] theorem length_expire (d : Delivery) (now : ℕ) :
    (d.expire now).attempts.length = d.attempts.length := List.length_map _

theorem nextNumber_expire (d : Delivery) (now : ℕ) :
    (d.expire now).nextNumber = d.nextNumber := by
  rw [Delivery.nextNumber, map_number_expire, Delivery.nextNumber]

theorem finished_expire {a : Attempt} (ha : a ∈ (d.expire now).attempts) :
    a.finishedAt.isSome = true := by
  obtain ⟨b, -, rfl⟩ := List.mem_map.mp ha
  exact b.isSome_finishedAt_expire now

namespace Delivery.Valid

/-- Time passes. -/
theorem mono (h : d.Valid id log now) {later : ℕ} (hle : now ≤ later) : d.Valid id log later :=
  { h with live := fun k n time hc hr =>
      (h.live k n time hc hr).imp_right fun ht => Nat.le_trans ht hle }

/-- A delivery that is due has no lease that holds. -/
theorem expired_of_isDue (h : d.Valid id log now) (hdue : d.isDue now = true) {l : Lease}
    (hl : d.lease = some l) : l.expiresAt ≤ now := by
  have hstatus : d.status = .delivering := h.status.mpr (by rw [hl, Option.isSome_some])
  rw [Delivery.isDue, hstatus, hl] at hdue
  simpa using hdue

/-- No lease of a delivery that is due is live. -/
theorem expired_of_claimed (h : d.Valid id log now) (hdue : d.isDue now = true) {k : Uuid}
    {n time : ℕ} (hc : .claimed id k n time ∈ log) (hr : .released id k ∉ log) :
    time + leaseTime ≤ now := by
  rcases h.live k n time hc hr with hl | ht
  · exact h.expired_of_isDue hdue hl
  · exact ht

/-- Attempts with the same number are the same. -/
theorem eq_of_number (h : d.Valid id log now) {a b : Attempt} (ha : a ∈ d.attempts)
    (hb : b ∈ d.attempts) (heq : a.number = b.number) : a = b := by
  have hnodup : (d.attempts.map Attempt.number).Nodup := by
    rw [h.numbers]
    exact List.nodup_range'
  exact List.inj_on_of_nodup_map hnodup ha hb heq

theorem mem_unfinished {n : ℕ} :
    n ∈ d.unfinished ↔ ∃ a ∈ d.attempts, a.number = n ∧ a.finishedAt = none := by
  simp only [Delivery.unfinished, List.mem_map, List.mem_filter, Option.isNone_iff_eq_none]
  constructor
  · rintro ⟨a, ⟨ha, hnone⟩, hn⟩
    exact ⟨a, ha, hn, hnone⟩
  · rintro ⟨a, ha, hn, hnone⟩
    exact ⟨a, ⟨ha, hnone⟩, hn⟩

/-- The outcomes of all attempts are recorded once those that were given up are. -/
theorem recorded_expire (h : d.Valid id log now) (n : ℕ) :
    n ∈ recordings log ++ d.unfinished ↔
      ∃ a ∈ (d.expire now).attempts, a.number = n ∧ a.finishedAt.isSome := by
  rw [List.mem_append, h.recorded, mem_unfinished]
  constructor
  · rintro (⟨a, ha, hn, hf⟩ | ⟨a, ha, hn, hf⟩)
    · exact ⟨a.expire now, List.mem_map_of_mem ha, by simp [hn], by simp⟩
    · exact ⟨a.expire now, List.mem_map_of_mem ha, by simp [hn], by simp⟩
  · rintro ⟨a, ha, hn, -⟩
    obtain ⟨b, hb, rfl⟩ := List.mem_map.mp ha
    rw [Attempt.number_expire] at hn
    cases hf : b.finishedAt with
    | none => exact Or.inr ⟨b, hb, hn, hf⟩
    | some t => exact Or.inl ⟨b, hb, hn, by rw [hf, Option.isSome_some]⟩

theorem nodup_expire (h : d.Valid id log now) : (recordings log ++ d.unfinished).Nodup := by
  refine h.nodup.append ?_ fun n hold hnew => ?_
  · have hnodup : (d.attempts.map Attempt.number).Nodup := by
      rw [h.numbers]
      exact List.nodup_range'
    exact hnodup.sublist (List.filter_sublist.map _)
  · obtain ⟨a, ha, hn, hf⟩ := (h.recorded n).mp hold
    obtain ⟨b, hb, hn', hf'⟩ := mem_unfinished.mp hnew
    rw [h.eq_of_number ha hb (hn.trans hn'.symm), hf'] at hf
    cases hf

end Delivery.Valid

end Attempts

/-! ### Transactions -/

section Transactions

variable {id : Uuid} {log : List WebhookEvent} {now : ℕ} {d : Delivery}

namespace Delivery.Valid

theorem new (id : Uuid) (outbox : WebhookDelivery) (now : ℕ) :
    (Delivery.new outbox now).Valid id [.begun id now] now where
  numbers := rfl
  cycle := ⟨⟨now, []⟩, [], rfl, rfl, rfl⟩
  bounded c hc := by
    rw [List.mem_singleton.mp hc]
    exact ⟨Nat.zero_le _, by simp⟩
  status := by simp [Delivery.new]
  free _ a ha := by cases ha
  leased l hl := by cases hl
  recorded n := by simp [recordings, WebhookEvent.recording, Delivery.new]
  nodup := List.nodup_nil
  released k hk := by simp at hk
  live k n time hc := by simp at hc

/-- The cycle of a delivery that is due has ended. -/
theorem exhausted (h : d.Valid id log now) (hdue : d.isDue now = true) :
    (d.expire now).fail.Valid id (log ++ d.unfinished.map (.recorded id)) now where
  numbers := by
    rw [Delivery.fail, map_number_expire, length_expire]
    exact h.numbers
  cycle := by
    rw [cycles_map_recorded]
    simpa [Delivery.fail, Delivery.expire] using h.cycle
  bounded c hc := h.bounded c (by rwa [cycles_map_recorded] at hc)
  status := by simp [Delivery.fail]
  free _ a ha := finished_expire ha
  leased l hl := by cases hl
  recorded n := by
    rw [recordings_append, recordings_map_recorded]
    exact h.recorded_expire n
  nodup := by
    rw [recordings_append, recordings_map_recorded]
    exact h.nodup_expire
  released k hk := by
    rw [leases_append]
    exact List.mem_append_left _ (h.released k (by simpa using hk))
  live k n time hc hr := by
    refine Or.inr (h.expired_of_claimed (k := k) (n := n) hdue ?_ ?_)
    · simpa using hc
    · simpa using hr

/-- The place in its cycle that the next attempt of a delivery has. -/
theorem nextCycleNumber_eq (h : d.Valid id log now) {c : Cycle} {cs : List Cycle}
    (hc : cycles log = c :: cs) : (d.expire now).nextCycleNumber = c.claims.length + 1 := by
  obtain ⟨current, older, heq, -, hlen⟩ := h.cycle
  obtain ⟨rfl, -⟩ := List.cons.inj (hc.symm.trans heq)
  rw [Delivery.nextCycleNumber, nextNumber_expire, nextNumber_of_numbers h.numbers]
  simp only [Delivery.expire]
  omega

/-- Another attempt of a delivery that is due is claimed. -/
theorem claimed (h : d.Valid id log now) (hdue : d.isDue now = true) {lease : Uuid}
    (hleft : (d.expire now).exhausted now = false) (hnew : lease ∉ leases log) :
    ((d.expire now).begin now lease).Valid id (log ++ (d.unfinished.map (.recorded id) ++
      [.claimed id lease (d.expire now).nextNumber now])) now := by
  obtain ⟨c, cs, hcycles, hstart, hlen⟩ := h.cycle
  have hnumber : (d.expire now).nextNumber = d.attempts.length + 1 := by
    rw [nextNumber_expire, nextNumber_of_numbers h.numbers]
  have hcycles' : cycles (log ++ (d.unfinished.map (.recorded id) ++
      [.claimed id lease (d.expire now).nextNumber now])) =
      { c with claims := c.claims ++ [(d.attempts.length + 1, now)] } :: cs := by
    rw [← List.append_assoc, cycles_append, cycles_map_recorded, hcycles, hnumber]
    rfl
  have hexhausted : c.claims.length + 1 ≤ 8 ∧ now < c.start + retryWindow := by
    rw [Delivery.exhausted, h.nextCycleNumber_eq hcycles] at hleft
    simp only [Bool.or_eq_false_iff, decide_eq_false_iff_not, not_le] at hleft
    rw [hstart]
    exact ⟨by omega, hleft.2⟩
  have hbefore : ∀ e : WebhookEvent, e ∈ log ++ (d.unfinished.map (.recorded id) ++
      [.claimed id lease (d.expire now).nextNumber now]) →
      e ∈ log ∨ (∃ n, e = .recorded id n) ∨ e = .claimed id lease (d.attempts.length + 1) now := by
    intro e he
    rw [hnumber] at he
    simp only [List.mem_append, List.mem_map, List.mem_singleton] at he
    rcases he with he | ⟨n, -, rfl⟩ | he
    · exact Or.inl he
    · exact Or.inr (Or.inl ⟨n, rfl⟩)
    · exact Or.inr (Or.inr he)
  refine ⟨?_, ⟨_, _, hcycles', hstart, ?_⟩, ?_, ?_, ?_, ?_, ?_, ?_, ?_, ?_⟩
  · rw [Delivery.begin, List.map_append, map_number_expire, h.numbers, hnumber,
      List.length_append, length_expire, List.length_singleton, List.range'_1_concat]
    simp [Nat.add_comm]
  · have hfrom : (d.expire now).retryFromAttempt = d.retryFromAttempt := rfl
    simp only [Delivery.begin, List.length_append, length_expire, List.length_singleton, hfrom]
    omega
  · rw [hcycles']
    intro c' hc'
    rcases List.mem_cons.mp hc' with rfl | hc'
    · obtain ⟨-, htimes⟩ := h.bounded c (hcycles ▸ List.mem_cons_self)
      refine ⟨by simpa using hexhausted.1, fun a ha => ?_⟩
      rcases List.mem_append.mp ha with ha | ha
      · exact htimes a ha
      · rw [List.mem_singleton.mp ha]
        exact hexhausted.2
    · exact h.bounded c' (hcycles ▸ List.mem_cons_of_mem _ hc')
  · simp [Delivery.begin]
  · exact fun hnone => by cases hnone
  · rintro l hl
    obtain rfl := Option.some.inj hl
    refine ⟨_, _, now, rfl, rfl, fun b hb => finished_expire hb, by simp, rfl, fun hmem => ?_⟩
    rcases hbefore _ hmem with hmem | ⟨n, hmem⟩ | hmem
    · exact hnew (h.released lease hmem)
    · cases hmem
    · cases hmem
  · intro n
    rw [recordings_append, recordings_append, recordings_map_recorded]
    have hnone : recordings [.claimed id lease (d.expire now).nextNumber now] = [] := rfl
    rw [hnone, List.append_nil, h.recorded_expire n, Delivery.begin]
    constructor
    · rintro ⟨a, ha, hn⟩
      exact ⟨a, List.mem_append_left _ ha, hn⟩
    · rintro ⟨a, ha, hn, hf⟩
      rcases List.mem_append.mp ha with ha | ha
      · exact ⟨a, ha, hn, hf⟩
      · rw [List.mem_singleton.mp ha] at hf
        cases hf
  · rw [recordings_append, recordings_append, recordings_map_recorded]
    have hnone : recordings [.claimed id lease (d.expire now).nextNumber now] = [] := rfl
    rw [hnone, List.append_nil]
    exact h.nodup_expire
  · intro k hk
    rw [leases_append]
    rcases hbefore _ hk with hk | ⟨n, hk⟩ | hk
    · exact List.mem_append_left _ (h.released k hk)
    · cases hk
    · cases hk
  · intro k n time hc hr
    have hold : .released id k ∉ log := fun hmem => hr (List.mem_append_left _ hmem)
    rcases hbefore _ hc with hc | ⟨n, hc⟩ | hc
    · exact Or.inr (h.expired_of_claimed hdue hc hold)
    · cases hc
    · simp only [WebhookEvent.claimed.injEq, true_and] at hc
      obtain ⟨rfl, -, rfl⟩ := hc
      exact Or.inl rfl

/-- What a worker that has the lease of a delivery knows: the attempt it has claimed is the last
one, and the only one whose outcome is not recorded. -/
theorem of_leased (h : d.Valid id log now) (hnodup : (leases log).Nodup) {c : Claim}
    (hclaim : ∃ time, .claimed id c.lease c.number time ∈ log)
    (hlease : d.leased c.lease now = true) :
    ∃ init a, d.attempts = init ++ [a] ∧ a.number = c.number ∧ a.finishedAt = none ∧
      (∀ b ∈ init, b.finishedAt.isSome ∧ b.number ≠ c.number) ∧
      ∃ l, d.lease = some l ∧ l.token = c.lease := by
  obtain ⟨l, hl, hhas⟩ := (Option.any_eq_true _ _).mp hlease
  simp only [Bool.and_eq_true, decide_eq_true_eq] at hhas
  obtain ⟨init, a, time, hattempts, hnone, hinit, hmem, -⟩ := h.leased l hl
  obtain ⟨time', hclaim⟩ := hclaim
  obtain ⟨hnumber, -⟩ := claimed_unique hnodup (hhas.1 ▸ hmem) hclaim
  refine ⟨init, a, hattempts, hnumber, hnone, fun b hb => ⟨hinit b hb, fun heq => ?_⟩, l, hl,
    hhas.1⟩
  have hsame := h.eq_of_number (a := b) (b := a) (by simp [hattempts, hb]) (by simp [hattempts])
    (heq.trans hnumber.symm)
  have hb := hinit b hb
  rw [hsame, hnone] at hb
  cases hb

/-- The outcome of an attempt is recorded by the worker that has the lease. -/
theorem finalized (h : d.Valid id log now) (hnodup : (leases log).Nodup) {c : Claim}
    (hclaim : ∃ time, .claimed id c.lease c.number time ∈ log)
    (hlease : d.leased c.lease now = true) (outcome : DeliveryOutcome) (next : ℕ) :
    (d.finalize now c outcome next).Valid id
      (log ++ ((d.attempts.filter fun a => a.number = c.number).map
        (fun a => .recorded id a.number) ++ [.released id c.lease])) now := by
  obtain ⟨init, a, hattempts, hnumber, hnone, hinit, l, hl, htoken⟩ :=
    h.of_leased hnodup hclaim hlease
  have hfilter : d.attempts.filter (fun a => a.number = c.number) = [a] := by
    rw [hattempts, List.filter_append, List.filter_eq_nil_iff.mpr (by simpa using fun b hb =>
      (hinit b hb).2)]
    simp [hnumber]
  have hafter : (d.finalize now c outcome next).attempts = init ++ [a.finish now outcome] := by
    have hmap : init.map (fun b => if b.number = c.number then b.finish now outcome else b) =
        init := (List.map_congr_left fun b hb => if_neg (hinit b hb).2).trans (List.map_id _)
    rw [Delivery.finalize, hattempts, List.map_append, hmap, List.map_singleton, if_pos hnumber]
  have hevents : log ++ ((d.attempts.filter fun a => a.number = c.number).map
      (fun a => WebhookEvent.recorded id a.number) ++ [.released id c.lease]) =
      log ++ [.recorded id a.number, .released id c.lease] := by
    rw [hfilter]
    rfl
  have hcycles : cycles (log ++ [.recorded id a.number, .released id c.lease]) = cycles log := by
    obtain ⟨current, older, heq, -⟩ := h.cycle
    rw [cycles_append, heq]
    rfl
  have hrecordings : recordings (log ++ [.recorded id a.number, .released id c.lease]) =
      recordings log ++ [a.number] := recordings_append _ _
  have hleases : leases (log ++ [.recorded id a.number, .released id c.lease]) = leases log := by
    rw [leases_append]
    exact List.append_nil _
  have hold {b : Attempt} (hb : b ∈ init) : b ∈ d.attempts := by simp [hattempts, hb]
  have hlast : a ∈ d.attempts := by simp [hattempts]
  rw [hevents]
  refine ⟨?_, ?_, ?_, ?_, ?_, ?_, ?_, ?_, ?_, ?_⟩
  · have hnumbers := h.numbers
    rw [hattempts] at hnumbers
    rw [hafter]
    simpa [Attempt.finish] using hnumbers
  · obtain ⟨current, older, heq, hstart, hlen⟩ := h.cycle
    rw [hcycles]
    refine ⟨current, older, heq, hstart, ?_⟩
    rw [hafter]
    rw [hattempts] at hlen
    simpa [Delivery.finalize] using hlen
  · rw [hcycles]
    exact h.bounded
  · have hstatus : (d.finalize now c outcome next).status ≠ .delivering := by
      rw [Delivery.finalize]
      dsimp only
      split_ifs <;> simp
    have hfree : (d.finalize now c outcome next).lease = none := rfl
    simp [hstatus, hfree]
  · intro _ b hb
    rw [hafter] at hb
    rcases List.mem_append.mp hb with hb | hb
    · exact (hinit b hb).1
    · rw [List.mem_singleton.mp hb]
      rfl
  · exact fun l hl => by cases hl
  · intro n
    rw [hrecordings, hafter, List.mem_append, h.recorded]
    constructor
    · rintro (⟨b, hb, hn, hf⟩ | hn)
      · rw [hattempts] at hb
        rcases List.mem_append.mp hb with hb | hb
        · exact ⟨b, List.mem_append_left _ hb, hn, hf⟩
        · rw [List.mem_singleton.mp hb, hnone] at hf
          cases hf
      · exact ⟨a.finish now outcome, by simp, (List.mem_singleton.mp hn).symm, rfl⟩
    · rintro ⟨b, hb, hn, hf⟩
      rcases List.mem_append.mp hb with hb | hb
      · exact Or.inl ⟨b, hold hb, hn, hf⟩
      · rw [List.mem_singleton.mp hb] at hn
        exact Or.inr (List.mem_singleton.mpr hn.symm)
  · rw [hrecordings]
    refine h.nodup.append (List.nodup_singleton _) fun n hn hn' => ?_
    obtain ⟨b, hb, heq, hf⟩ := (h.recorded n).mp hn
    rw [h.eq_of_number hb hlast (heq.trans (List.mem_singleton.mp hn')), hnone] at hf
    cases hf
  · intro k hk
    rw [hleases]
    rcases List.mem_append.mp hk with hk | hk
    · exact h.released k hk
    · simp only [List.mem_cons, reduceCtorEq, WebhookEvent.released.injEq, true_and,
        List.not_mem_nil, or_false, false_or] at hk
      obtain ⟨time, hclaim⟩ := hclaim
      exact mem_leases.mpr ⟨id, _, time, hk ▸ hclaim⟩
  · intro k n time hc hr
    have hc' : .claimed id k n time ∈ log := by simpa using hc
    have hr' : .released id k ∉ log ∧ k ≠ c.lease := by simpa using hr
    rcases h.live k n time hc' hr'.1 with hk | ht
    · rw [hl] at hk
      rw [Option.some.inj hk] at htoken
      exact absurd htoken hr'.2
    · exact Or.inr ht

/-- The owner asks for another cycle. -/
theorem redelivered (h : d.Valid id log now) {d' : Delivery} (hr : d.redeliver now = .ok d') :
    d'.Valid id (log ++ [.begun id now]) now := by
  rw [Delivery.redeliver] at hr
  split at hr
  · next hstatus =>
    obtain rfl := Except.ok.inj hr
    have hnone : d.lease = none := by
      rw [← Option.not_isSome_iff_eq_none, ← h.status]
      rcases hstatus with hs | hs <;> simp [hs]
    have hcycles : cycles (log ++ [.begun id now]) = ⟨now, []⟩ :: cycles log := by
      rw [cycles_append]
      rfl
    have hrecordings : recordings (log ++ [.begun id now]) = recordings log := by
      rw [recordings_append]
      exact List.append_nil _
    have hleases : leases (log ++ [.begun id now]) = leases log := by
      rw [leases_append]
      exact List.append_nil _
    refine ⟨h.numbers, ⟨_, _, hcycles, rfl, ?_⟩, ?_, ?_, h.free, ?_, ?_, ?_, ?_, ?_⟩
    · rw [nextNumber_of_numbers h.numbers]
      exact Nat.zero_add _
    · rw [hcycles]
      intro c hc
      rcases List.mem_cons.mp hc with rfl | hc
      · exact ⟨Nat.zero_le _, by simp⟩
      · exact h.bounded c hc
    · simp [hnone]
    · intro l hl
      rw [hnone] at hl
      cases hl
    · rw [hrecordings]
      exact h.recorded
    · rw [hrecordings]
      exact h.nodup
    · intro k hk
      rw [hleases]
      exact h.released k (by simpa using hk)
    · exact fun k n time hc hr => h.live k n time (by simpa using hc) (by simpa using hr)
  · cases hr

end Delivery.Valid

end Transactions

/-! ### Runs -/

section Runs

variable {id : Uuid} {log es : List WebhookEvent} {s s' : Webhooks} {a : WebhookAction}

/-- The delay can be computed for every place in a cycle. -/
theorem backoff_ne_none {n : ℤ} (hpos : 1 ≤ n) (hle : n ≤ 8) : backoff n ≠ none := by
  interval_cases n <;> decide

/-- Workers that keep to what they have claimed stay valid as more happens. -/
theorem WorkersValid.mono (h : WorkersValid id log s) (hw : KeepsWorkers id s s')
    (es : List WebhookEvent) : WorkersValid id (log ++ es) s' := by
  intro w c hc hid
  obtain ⟨⟨time, hclaim⟩, hrange⟩ := h w c (hw w c hc hid) hid
  exact ⟨⟨time, List.mem_append_left _ hclaim⟩, hrange⟩

theorem deliverySound_init (id : Uuid) : DeliverySound id [] Webhooks.init where
  absent _ := rfl
  valid d hd := by cases hd
  workers w c hw := by cases hw
  calm := List.not_mem_nil

/-- Every step keeps the row of a delivery and the workers in line with the events about it. -/
theorem DeliverySound.effect (h : DeliverySound id log s) (he : RowEffect id s s' a es)
    (hnodup : (leases (log ++ es)).Nodup) : DeliverySound id (log ++ es) s' := by
  have hnodup' : (leases log).Nodup := by
    rw [leases_append] at hnodup
    exact hnodup.of_append_left
  cases he with
  | kept hd hw ht =>
    rw [List.append_nil]
    refine ⟨fun hnone => h.absent (hd ▸ hnone), fun d hd' => ?_, ?_, h.calm⟩
    · exact (h.valid d (hd ▸ hd')).mono ht
    · simpa using h.workers.mono hw []
  | enqueued hd hd' hw ht =>
    have hlog := h.absent hd
    subst hlog
    refine ⟨fun hnone => ?_, fun d hd'' => ?_, h.workers.mono (keepsWorkers_of_eq id hw) _,
      by simp⟩
    · rw [hd'] at hnone
      cases hnone
    · rw [hd'] at hd''
      obtain rfl := Option.some.inj hd''
      rw [ht]
      exact .new id _ s.now
  | exhausted hd hdue hd' hw ht =>
    refine ⟨fun hnone => ?_, fun d' hd'' => ?_, h.workers.mono (keepsWorkers_of_eq id hw) _, ?_⟩
    · rw [hd'] at hnone
      cases hnone
    · rw [hd'] at hd''
      obtain rfl := Option.some.inj hd''
      rw [ht]
      exact (h.valid _ hd).exhausted hdue
    · simpa using h.calm
  | @claimed worker lease d hd hdue hleft hd' hw ht =>
    have hvalid := h.valid d hd
    have hnew : lease ∉ leases log := by
      have hdisjoint := hnodup
      rw [leases_append, leases_append, leases_map_recorded] at hdisjoint
      exact fun hmem => (List.disjoint_of_nodup_append hdisjoint) hmem (List.mem_singleton_self _)
    refine ⟨fun hnone => ?_, fun d' hd'' => ?_, ?_, ?_⟩
    · rw [hd'] at hnone
      cases hnone
    · rw [hd'] at hd''
      obtain rfl := Option.some.inj hd''
      rw [ht]
      exact hvalid.claimed hdue hleft hnew
    · intro w c hc hid
      rw [hw] at hc
      rcases eq_or_ne w worker with rfl | hne
      · rw [AList.lookup_insert] at hc
        obtain rfl := Option.some.inj hc
        obtain ⟨current, older, hcycles, -⟩ := hvalid.cycle
        have hnumber := hvalid.nextCycleNumber_eq hcycles
        refine ⟨⟨s.now, by simp⟩, ?_⟩
        rw [Delivery.exhausted] at hleft
        simp only [Bool.or_eq_false_iff, decide_eq_false_iff_not] at hleft
        dsimp only
        omega
      · rw [AList.lookup_insert_ne hne] at hc
        obtain ⟨⟨time, hclaim⟩, hrange⟩ := h.workers w c hc hid
        exact ⟨⟨time, List.mem_append_left _ hclaim⟩, hrange⟩
    · simpa using h.calm
  | finalized hd hc hid hlease hd' hw ht =>
    refine ⟨fun hnone => ?_, fun d' hd'' => ?_, h.workers.mono hw _, ?_⟩
    · rw [hd'] at hnone
      cases hnone
    · rw [hd'] at hd''
      obtain rfl := Option.some.inj hd''
      rw [ht]
      exact (h.valid _ hd).finalized hnodup' (h.workers _ _ hc hid).1 hlease _ _
    · simpa using h.calm
  | panicked hc hid hnone =>
    obtain ⟨-, hpos, hle⟩ := h.workers _ _ hc hid
    exact absurd hnone (backoff_ne_none hpos hle)
  | redelivered hd hr hd' hw ht =>
    refine ⟨fun hnone => ?_, fun d' hd'' => ?_, h.workers.mono (keepsWorkers_of_eq id hw) _, ?_⟩
    · rw [hd'] at hnone
      cases hnone
    · rw [hd'] at hd''
      obtain rfl := Option.some.inj hd''
      rw [ht]
      exact (h.valid _ hd).redelivered hr
    · simpa using h.calm

theorem deliverySound_of_run (h : webhookSystem.Run log s)
    (hnodup : (leases (history id log)).Nodup) : DeliverySound id (history id log) s := by
  revert hnodup
  refine h.invariant (I := fun log s => (leases (history id log)).Nodup →
    DeliverySound id (history id log) s) ?_ ?_
  · rintro _ rfl -
    exact deliverySound_init id
  · intro log t a u es _ ih hstep hnodup
    rw [history_append] at hnodup ⊢
    have hold : (leases (history id log)).Nodup := by
      rw [leases_append] at hnodup
      exact hnodup.of_append_left
    exact (ih hold).effect (rowEffect_of_step id hstep) hnodup

/-- A lease that is live is that of its delivery. -/
theorem Delivery.Valid.lease_of_live {now : ℕ} {d : Delivery} (h : d.Valid id log now) {k : Uuid}
    (hid : ∀ e ∈ log, e.delivery = id) (hk : k ∈ liveLeases log now) :
    ∃ l, d.lease = some l ∧ l.token = k := by
  obtain ⟨e, he, hlive⟩ := List.mem_filterMap.mp hk
  cases e with
  | claimed id' lease n time =>
    obtain rfl : id' = id := hid _ he
    rw [WebhookEvent.liveLease] at hlive
    split at hlive
    · next hhas =>
      obtain rfl := Option.some.inj hlive
      rcases h.live lease n time he hhas.2 with hl | ht
      · exact ⟨_, hl, rfl⟩
      · exact absurd hhas.1 (not_lt.mpr ht)
    · cases hlive
  | begun id' time => cases hlive
  | recorded id' n => cases hlive
  | released id' k' => cases hlive
  | panicked id' => cases hlive

/-- The worker that has the lease of a delivery holds a live one. -/
theorem Delivery.Valid.live_of_leased {now : ℕ} {d : Delivery} (h : d.Valid id log now) {k : Uuid}
    (hlease : d.leased k now = true) : k ∈ liveLeases log now := by
  obtain ⟨l, hl, hhas⟩ := (Option.any_eq_true _ _).mp hlease
  simp only [Bool.and_eq_true, decide_eq_true_eq] at hhas
  obtain ⟨init, a, time, -, -, -, hmem, htime, hheld⟩ := h.leased l hl
  refine List.mem_filterMap.mpr ⟨_, hmem, ?_⟩
  rw [WebhookEvent.liveLease, if_pos ⟨htime ▸ hhas.2, hheld⟩, hhas.1]

theorem liveLeases_sublist (log : List WebhookEvent) (now : ℕ) :
    (liveLeases log now).Sublist (leases log) := by
  have key : ∀ part : List WebhookEvent,
      (part.filterMap (WebhookEvent.liveLease log now)).Sublist (leases part) := by
    intro part
    induction part with
    | nil => exact .slnil
    | cons e part ih =>
      cases e with
      | claimed id lease n time =>
        rw [leases_claimed]
        by_cases hlive : now < time + leaseTime ∧ .released id lease ∉ log
        · rw [List.filterMap_cons_some (b := lease) (by rw [WebhookEvent.liveLease, if_pos hlive])]
          exact ih.cons_cons lease
        · rw [List.filterMap_cons_none (by rw [WebhookEvent.liveLease, if_neg hlive])]
          exact ih.cons lease
      | begun id time => exact ih
      | recorded id n => exact ih
      | released id k => exact ih
      | panicked id => exact ih
  exact key log

/-- Whether a delivery has come to an end. -/
def Delivery.ended (d : Delivery) : Prop := d.status = .delivered ∨ d.status = .failed

/-- A step keeps a delivery with the outcomes that were recorded, and when it has come to an end it
stays as it is unless its owner asks for another cycle, which begins with this step. -/
theorem RowEffect.keeps (h : DeliverySound id log s) (hnodup : (leases log).Nodup)
    (he : RowEffect id s s' a es) {d : Delivery} (hd : s.deliveries.lookup id = some d) :
    ∃ d', s'.deliveries.lookup id = some d' ∧
      (∀ t ∈ d.attempts, t.finishedAt.isSome → t ∈ d'.attempts) ∧
      (d.ended → d'.status = d.status ∨ (∃ user, a = .redeliver user id) ∧
        d'.status = .pending ∧ cycles (log ++ es) = ⟨s.now, []⟩ :: cycles log) := by
  have hexpire {d : Delivery} {t : Attempt} (ht : t ∈ d.attempts)
      (hf : t.finishedAt.isSome = true) : t ∈ (d.expire s.now).attempts := by
    rw [← Attempt.expire_of_isSome hf s.now]
    exact List.mem_map_of_mem ht
  have hdue : d.isDue s.now = true → ¬ d.ended := by
    rintro hdue (hs | hs)
    · simp [Delivery.isDue, hs] at hdue
    · simp [Delivery.isDue, hs] at hdue
  cases he with
  | kept hd' => exact ⟨d, hd'.trans hd, fun t ht _ => ht, fun _ => Or.inl rfl⟩
  | enqueued hnone =>
    rw [hd] at hnone
    cases hnone
  | exhausted hd₁ hdue₁ hd' =>
    obtain rfl := Option.some.inj (hd.symm.trans hd₁)
    exact ⟨_, hd', fun t ht hf => hexpire ht hf, fun hend => absurd hend (hdue hdue₁)⟩
  | claimed hd₁ hdue₁ _ hd' =>
    obtain rfl := Option.some.inj (hd.symm.trans hd₁)
    exact ⟨_, hd', fun t ht hf => List.mem_append_left _ (hexpire ht hf),
      fun hend => absurd hend (hdue hdue₁)⟩
  | @finalized worker jitter next outcome c d₁ hd₁ hc hid hlease hd' =>
    obtain rfl := Option.some.inj (hd.symm.trans hd₁)
    have hvalid := h.valid d hd
    obtain ⟨init, b, hattempts, hnumber, hnone, hinit, l, hl, -⟩ :=
      hvalid.of_leased hnodup (h.workers _ _ hc hid).1 hlease
    refine ⟨_, hd', fun t ht hf => ?_, fun hend => ?_⟩
    · have hne : t.number ≠ c.number := by
        rw [hattempts] at ht
        rcases List.mem_append.mp ht with ht | ht
        · exact (hinit t ht).2
        · rw [List.mem_singleton.mp ht, hnone] at hf
          cases hf
      exact List.mem_map.mpr ⟨t, ht, if_neg hne⟩
    · have hstatus : d.status = .delivering := hvalid.status.mpr (by rw [hl, Option.isSome_some])
      rcases hend with hs | hs
      · rw [hstatus] at hs
        cases hs
      · rw [hstatus] at hs
        cases hs
  | panicked hc hid hnone =>
    obtain ⟨-, hpos, hle⟩ := h.workers _ _ hc hid
    exact absurd hnone (backoff_ne_none hpos hle)
  | @redelivered user d₁ d' hd₁ hr hd' =>
    obtain rfl := Option.some.inj (hd.symm.trans hd₁)
    rw [Delivery.redeliver] at hr
    split at hr
    · obtain rfl := Except.ok.inj hr
      refine ⟨_, hd', fun t ht _ => ht, fun _ => Or.inr ⟨⟨user, rfl⟩, rfl, ?_⟩⟩
      rw [cycles_append]
      rfl
    · cases hr

/-- A worker whose lease is not live changes no delivery. -/
theorem deliveries_of_lost (h : DeliverySound id log s) {worker jitter : ℕ}
    {outcome : DeliveryOutcome} {c : Claim}
    (hstep : s.step (.finalize worker outcome jitter) = some (s', es))
    (hc : s.workers.lookup worker = some c) (hid : c.delivery = id)
    (hlost : c.lease ∉ liveLeases log s.now) : s'.deliveries = s.deliveries ∧ es = [] := by
  rw [Webhooks.step, Webhooks.finalize, hc] at hstep
  dsimp only at hstep
  split at hstep
  · simp only [Option.some.injEq, Prod.mk.injEq] at hstep
    obtain ⟨rfl, rfl⟩ := hstep
    exact ⟨rfl, rfl⟩
  · next d hd =>
    have hnot : ¬ d.leased c.lease s.now = true := fun hlease =>
      hlost ((h.valid d (hid ▸ hd)).live_of_leased hlease)
    rw [if_neg hnot] at hstep
    simp only [Option.some.injEq, Prod.mk.injEq] at hstep
    obtain ⟨rfl, rfl⟩ := hstep
    exact ⟨rfl, rfl⟩

/-- **Deliveries.** In every run of workers and owners in which the tokens of the leases of a
delivery are distinct, its attempts are numbered from one, each of its cycles has at most eight
attempts within a day, at most one of its leases is live, the outcome of an attempt is recorded
once, and the delay is always computed for a place from one to eight. In the next step, a worker
whose lease is not live changes nothing, the outcomes that were recorded stay, and a delivery
that has come to an end is left as it is unless its owner has another cycle begun. -/
theorem deliveries_sound (h : webhookSystem.Run log s) (id : Uuid)
    (hleases : (leases (history id log)).Nodup) :
    (∀ d, s.deliveries.lookup id = some d →
      d.attempts.map Attempt.number = List.range' 1 d.attempts.length) ∧
    (∀ c ∈ cycles (history id log), c.Bounded) ∧
    (liveLeases (history id log) s.now).length ≤ 1 ∧
    (recordings (history id log)).Nodup ∧
    (∀ w c, s.workers.lookup w = some c → c.delivery = id →
      1 ≤ c.cycleNumber ∧ c.cycleNumber ≤ 8) ∧
    .panicked id ∉ log ∧
    (∀ worker outcome jitter s' es c,
      s.step (.finalize worker outcome jitter) = some (s', es) →
      s.workers.lookup worker = some c → c.delivery = id →
      c.lease ∉ liveLeases (history id log) s.now → s'.deliveries = s.deliveries ∧ es = []) ∧
    ∀ a s' es d, s.step a = some (s', es) → s.deliveries.lookup id = some d →
      ∃ d', s'.deliveries.lookup id = some d' ∧
        (∀ t ∈ d.attempts, t.finishedAt.isSome → t ∈ d'.attempts) ∧
        (d.ended → d'.status = d.status ∨ (∃ user, a = .redeliver user id) ∧
          d'.status = .pending ∧
          cycles (history id (log ++ es)) = ⟨s.now, []⟩ :: cycles (history id log)) := by
  have hsound := deliverySound_of_run h hleases
  have habout : ∀ e ∈ history id log, e.delivery = id := fun e he =>
    of_decide_eq_true (List.mem_filter.mp he).2
  have hrow : history id log = [] ∨
      ∃ d, s.deliveries.lookup id = some d ∧ d.Valid id (history id log) s.now := by
    cases hd : s.deliveries.lookup id with
    | none => exact Or.inl (hsound.absent hd)
    | some d => exact Or.inr ⟨d, rfl, hsound.valid d hd⟩
  refine ⟨fun d hd => (hsound.valid d hd).numbers, ?_, ?_, ?_, ?_, ?_, ?_, ?_⟩
  · rcases hrow with hnil | ⟨d, -, hv⟩
    · rw [hnil]
      simp [cycles]
    · exact hv.bounded
  · rcases hrow with hnil | ⟨d, -, hv⟩
    · rw [hnil]
      exact Nat.zero_le _
    · have hnodup := (liveLeases_sublist (history id log) s.now).nodup hleases
      have hsame {k k' : Uuid} (hk : k ∈ liveLeases (history id log) s.now)
          (hk' : k' ∈ liveLeases (history id log) s.now) : k = k' := by
        obtain ⟨l, hl, rfl⟩ := hv.lease_of_live habout hk
        obtain ⟨l', hl', rfl⟩ := hv.lease_of_live habout hk'
        rw [Option.some.inj (hl.symm.trans hl')]
      cases hlive : liveLeases (history id log) s.now with
      | nil => exact Nat.zero_le _
      | cons k ks =>
        cases ks with
        | nil => exact le_rfl
        | cons k' ks =>
          rw [hlive] at hnodup hsame
          refine absurd (hsame (List.mem_cons_self) (by simp)) fun heq : k = k' => ?_
          exact (List.nodup_cons.mp hnodup).1 (by simp [heq])
  · rcases hrow with hnil | ⟨d, -, hv⟩
    · rw [hnil]
      exact List.nodup_nil
    · exact hv.nodup
  · exact fun w c hw hid => (hsound.workers w c hw hid).2
  · exact fun hmem => hsound.calm (List.mem_filter.mpr ⟨hmem, decide_eq_true rfl⟩)
  · exact fun worker outcome jitter s' es c hstep hc hid hlost =>
      deliveries_of_lost hsound hstep hc hid hlost
  · intro a s' es d hstep hd
    rw [history_append]
    exact (rowEffect_of_step id hstep).keeps hsound hleases hd

end Runs

/-! ### A retried delivery -/

/-- The user, the job and the delivery in the example. -/
def someUser : Uuid := ⟨"00000000-0000-4000-8000-000000000011", by decide⟩

/-- The delivery in the example. -/
def someDelivery : Uuid := ⟨"00000000-0000-4000-8000-000000000012", by decide⟩

/-- The leases in the example. -/
def someLeases : Uuid × Uuid :=
  (⟨"00000000-0000-4000-8000-000000000013", by decide⟩,
    ⟨"00000000-0000-4000-8000-000000000014", by decide⟩)

/-- A delivery is claimed, fails, and is claimed again. -/
def retriedDelivery : List WebhookAction :=
  [.enable someUser true,
    .enqueue someDelivery ⟨someUser, someUser, "job.failed", "https://example.org/", .null⟩,
    .claim 0 someDelivery someLeases.1,
    .finalize 0 ⟨some 503, some .null, true, none⟩ 20000,
    .wait (seconds 30),
    .claim 1 someDelivery someLeases.2]

/-- The attempts of a delivery that was claimed twice are numbered one and two. -/
theorem deliveries_sound_retried :
    ∃ s d, s.deliveries.lookup someDelivery = some d ∧
      (∃ log, webhookSystem.Run log s) ∧ d.attempts.map Attempt.number = [1, 2] := by
  have hexec : ∃ s log d, webhookSystem.exec .init retriedDelivery = some (s, log) ∧
      s.deliveries.lookup someDelivery = some d ∧ d.attempts.length = 2 ∧
      leases (history someDelivery log) = [someLeases.1, someLeases.2] :=
    ⟨_, _, _, rfl, rfl, rfl, rfl⟩
  obtain ⟨s, log, d, hrun, hd, hlen, hleases⟩ := hexec
  have hnodup : (leases (history someDelivery log)).Nodup := by
    rw [hleases]
    decide
  refine ⟨s, d, hd, ⟨log, _, rfl, .of_exec hrun⟩, ?_⟩
  rw [(deliveries_sound ⟨_, rfl, .of_exec hrun⟩ someDelivery hnodup).1 d hd, hlen]
  rfl

end ExecutionProvider.Gateway
