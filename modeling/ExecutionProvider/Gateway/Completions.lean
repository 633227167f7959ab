import Mathlib.Algebra.Group.Nat.Defs
import ExecutionProvider.Core.Types
import ExecutionProvider.Foundation.Table

/-!
# Subscriptions to the end of a job

A call that waits for a job subscribes to its end. Subscriptions are kept by the job they are for,
and counted by user and in all; a subscription that would exceed a limit is refused. When a job has
ended, all subscriptions to it are taken out of the table, and then each of them is signalled. A
subscription whose call returns is taken out as well, if it is still there.

## Main definitions

* `Waiters`, `JobCompletions`: the table of the subscriptions.
* `subscribe`, `notify`, `remove`: what happens to it.
* `Waiters.Counted`: the counts are those of the table.

## Main results

* `subscribed_subscribe`, `mem_notify`, `subscribed_notify`, `subscribed_remove`: the
  subscriptions after each operation.
* `Counted.subscribe`, `Counted.notify`, `Counted.remove`: the counts stay right.
-/

namespace ExecutionProvider.Gateway

/-- The largest number of calls that wait. -/
def maxWaiters : ℕ := 1024

/-- The largest number of calls of one user that wait. -/
def maxWaitersPerUser : ℕ := 64

/-- The subscriptions, by job, with the user of each; and how many there are of each user and in
all. -/
structure Waiters where
  byJob : Table Uuid (Table ℕ Uuid)
  byUser : Table Uuid ℕ
  total : ℕ

/-- The subscriptions of a process, and the number that the next one is given. -/
structure JobCompletions where
  nextId : ℕ
  waiters : Waiters

/-- A user has one subscription less. -/
def decrementUser (byUser : Table Uuid ℕ) (user : Uuid) : Table Uuid ℕ :=
  match byUser.lookup user with
  | none => byUser
  | some count => if count - 1 = 0 then byUser.erase user else byUser.insert user (count - 1)

namespace JobCompletions

/-- No subscriptions. -/
def empty : JobCompletions := ⟨0, ∅, ∅, 0⟩

variable (c : JobCompletions)

/-- The subscriptions to a job. -/
def ofJob (job : Uuid) : Table ℕ Uuid := (c.waiters.byJob.lookup job).getD ∅

/-- A user subscribes to the end of a job. -/
def subscribe (user job : Uuid) : JobCompletions × Option ℕ :=
  let w := c.waiters
  let count := (w.byUser.lookup user).getD 0
  if maxWaiters ≤ w.total ∨ maxWaitersPerUser ≤ count then ({ c with nextId := c.nextId + 1 }, none)
  else
    ({ nextId := c.nextId + 1
       waiters :=
        { byJob := w.byJob.insert job ((c.ofJob job).insert c.nextId user)
          byUser := w.byUser.insert user (count + 1)
          total := w.total + 1 } },
      some c.nextId)

/-- A job has ended: the subscriptions to it are taken out, to be signalled. -/
def notify (job : Uuid) : JobCompletions × List ℕ :=
  let w := c.waiters
  match w.byJob.lookup job with
  | none => (c, [])
  | some waiters =>
    ({ c with waiters :=
        { byJob := w.byJob.erase job
          byUser := waiters.entries.foldl (fun t e => decrementUser t e.2) w.byUser
          total := w.total - waiters.entries.length } },
      waiters.keys)

/-- A subscription is dropped. -/
def remove (job : Uuid) (id : ℕ) : JobCompletions :=
  let w := c.waiters
  match w.byJob.lookup job with
  | none => c
  | some waiters =>
    let rest := waiters.erase id
    let byJob := if rest.entries.isEmpty then w.byJob.erase job else w.byJob.insert job rest
    match waiters.lookup id with
    | none => { c with waiters := { w with byJob := byJob } }
    | some user =>
      { c with waiters := ⟨byJob, decrementUser w.byUser user, w.total - 1⟩ }

/-! ### The subscriptions -/

/-- Whether a subscription to a job is in the table. -/
def Subscribed (job : Uuid) (id : ℕ) : Prop := id ∈ c.ofJob job

variable {c} {user job job' : Uuid} {id id' : ℕ}

theorem ofJob_insert {waiters : Table ℕ Uuid} {n t : ℕ} {byUser : Table Uuid ℕ} :
    (⟨n, c.waiters.byJob.insert job waiters, byUser, t⟩ : JobCompletions).ofJob job' =
      if job' = job then waiters else c.ofJob job' := by
  unfold ofJob
  split_ifs with h
  · rw [h, AList.lookup_insert]
    rfl
  · rw [AList.lookup_insert_ne h]

theorem ofJob_erase {n t : ℕ} {byUser : Table Uuid ℕ} :
    (⟨n, c.waiters.byJob.erase job, byUser, t⟩ : JobCompletions).ofJob job' =
      if job' = job then ∅ else c.ofJob job' := by
  unfold ofJob
  split_ifs with h
  · rw [h, AList.lookup_erase]
    rfl
  · rw [AList.lookup_erase_ne h]

/-- The subscriptions to a job after some user has subscribed. -/
theorem ofJob_subscribe {c' : JobCompletions} {r : Option ℕ}
    (h : c.subscribe user job = (c', r)) :
    c'.nextId = c.nextId + 1 ∧
      (r = none ∧ c'.waiters = c.waiters ∨ r = some c.nextId ∧ ∀ job', c'.ofJob job' =
        if job' = job then (c.ofJob job).insert c.nextId user else c.ofJob job') := by
  unfold subscribe at h
  dsimp only at h
  split_ifs at h
  · obtain ⟨rfl, rfl⟩ := Prod.mk.inj h
    exact ⟨rfl, Or.inl ⟨rfl, rfl⟩⟩
  · obtain ⟨rfl, rfl⟩ := Prod.mk.inj h
    exact ⟨rfl, Or.inr ⟨rfl, fun _ => ofJob_insert⟩⟩

/-- Notifying takes out exactly the subscriptions to the job. -/
theorem ofJob_notify :
    (c.notify job).2 = (c.ofJob job).keys ∧ (c.notify job).1.nextId = c.nextId ∧
      ∀ job', (c.notify job).1.ofJob job' = if job' = job then ∅ else c.ofJob job' := by
  unfold notify
  dsimp only
  cases hw : c.waiters.byJob.lookup job with
  | none =>
    have hempty : c.ofJob job = ∅ := by rw [ofJob, hw]; rfl
    refine ⟨by rw [hempty]; rfl, rfl, fun job' => ?_⟩
    split_ifs with h
    · rw [h, hempty]
    · rfl
  | some waiters =>
    refine ⟨by rw [ofJob, hw]; rfl, rfl, fun _ => ofJob_erase⟩

/-- Dropping a subscription takes out no other. -/
theorem ofJob_remove :
    (c.remove job id).nextId = c.nextId ∧
      ∀ job', (c.remove job id).ofJob job' =
        if job' = job then (c.ofJob job).erase id else c.ofJob job' := by
  unfold remove
  dsimp only
  cases hw : c.waiters.byJob.lookup job with
  | none =>
    refine ⟨rfl, fun job' => ?_⟩
    split_ifs with h
    · have hempty : c.ofJob job = ∅ := by rw [ofJob, hw]; rfl
      rw [h, hempty]
      rfl
    · rfl
  | some waiters =>
    have hjob : c.ofJob job = waiters := by rw [ofJob, hw]; rfl
    have hrest {n t : ℕ} {byUser : Table Uuid ℕ} (job' : Uuid) :
        (⟨n, if (waiters.erase id).entries.isEmpty then c.waiters.byJob.erase job
            else c.waiters.byJob.insert job (waiters.erase id), byUser, t⟩ :
          JobCompletions).ofJob job' =
          if job' = job then (c.ofJob job).erase id else c.ofJob job' := by
      rw [hjob]
      by_cases hempty : (waiters.erase id).entries.isEmpty = true
      · rw [if_pos hempty, ofJob_erase]
        have herase : waiters.erase id = ∅ := AList.ext (List.isEmpty_iff.mp hempty)
        rw [herase]
      · rw [if_neg hempty, ofJob_insert]
    dsimp only
    cases waiters.lookup id with
    | none => exact ⟨rfl, hrest⟩
    | some user => exact ⟨rfl, hrest⟩

/-! ### The counts -/

/-- What the users of the subscriptions amount to. -/
def measure (c : JobCompletions) (f : Uuid → ℕ) : ℕ :=
  c.waiters.byJob.weight fun _ waiters => waiters.weight fun _ u => f u

/-- The counts are those of the table, and the next number is new. -/
structure Counted (c : JobCompletions) : Prop where
  fresh : ∀ job id, id ∈ c.ofJob job → id < c.nextId
  byUser : ∀ user, (c.waiters.byUser.lookup user).getD 0 =
    c.measure fun u => if u = user then 1 else 0
  total : c.waiters.total = c.measure fun _ => 1

theorem lookup_decrementUser (byUser : Table Uuid ℕ) (user v : Uuid) :
    ((decrementUser byUser user).lookup v).getD 0 =
      (byUser.lookup v).getD 0 - if user = v then 1 else 0 := by
  unfold decrementUser
  cases hcount : byUser.lookup user with
  | none =>
    split_ifs with h
    · rw [← h, hcount]
      rfl
    · rfl
  | some count =>
    dsimp only
    by_cases h : user = v
    · subst h
      rw [if_pos rfl, hcount]
      split_ifs with hzero
      · rw [AList.lookup_erase]
        exact hzero.symm
      · rw [AList.lookup_insert]
        rfl
    · rw [if_neg h]
      split_ifs
      · rw [AList.lookup_erase_ne (Ne.symm h)]
        rfl
      · rw [AList.lookup_insert_ne (Ne.symm h)]
        rfl

private theorem lookup_foldl_decrementUser (entries : List (Sigma fun _ : ℕ => Uuid))
    (byUser : Table Uuid ℕ) (v : Uuid) :
    ((entries.foldl (fun t e => decrementUser t e.2) byUser).lookup v).getD 0 =
      (byUser.lookup v).getD 0 -
        entries.foldr (fun e n => (if e.2 = v then 1 else 0) + n) 0 := by
  induction entries generalizing byUser with
  | nil => rfl
  | cons e entries ih =>
    rw [List.foldl_cons, ih, lookup_decrementUser, List.foldr_cons]
    omega

private theorem length_entries (waiters : Table ℕ Uuid) :
    waiters.entries.length = waiters.weight fun _ _ => 1 := by
  unfold Table.weight
  induction waiters.entries with
  | nil => rfl
  | cons e entries ih =>
    simp only [List.length_cons, List.foldr_cons, ih, Nat.add_comm]

theorem elim_lookup_eq_weight_ofJob {f : Uuid → ℕ} :
    (c.waiters.byJob.lookup job).elim 0 (fun waiters => waiters.weight fun _ u => f u) =
      (c.ofJob job).weight fun _ u => f u := by
  unfold ofJob
  cases c.waiters.byJob.lookup job with
  | none => rfl
  | some waiters => rfl

/-- A new subscription counts. -/
theorem measure_subscribe {c' : JobCompletions} (h : c.subscribe user job = (c', some id))
    (hfresh : ∀ job id, id ∈ c.ofJob job → id < c.nextId) (f : Uuid → ℕ) :
    c'.measure f = c.measure f + f user := by
  unfold subscribe at h
  dsimp only at h
  split_ifs at h
  · cases h
  obtain ⟨rfl, -⟩ := Prod.mk.inj h
  have hnew : c.nextId ∉ c.ofJob job := fun hmem => (hfresh job c.nextId hmem).false
  have hold := Table.weight_eq_add_erase (fun _ waiters => Table.weight (fun _ u => f u) waiters)
    c.waiters.byJob job
  rw [elim_lookup_eq_weight_ofJob] at hold
  unfold measure
  rw [Table.weight_insert_erase, Table.weight_insert hnew, hold]
  omega

/-- The subscriptions to a job that has ended no longer count. -/
theorem measure_notify (f : Uuid → ℕ) :
    (c.notify job).1.measure f + (c.ofJob job).weight (fun _ u => f u) = c.measure f := by
  have hold := Table.weight_eq_add_erase (fun _ waiters => Table.weight (fun _ u => f u) waiters)
    c.waiters.byJob job
  rw [elim_lookup_eq_weight_ofJob] at hold
  unfold notify measure
  dsimp only
  cases hw : c.waiters.byJob.lookup job with
  | none =>
    have hempty : c.ofJob job = ∅ := by rw [ofJob, hw]; rfl
    rw [hempty]
    rfl
  | some waiters =>
    dsimp only
    omega

/-- A subscription that is dropped no longer counts. -/
theorem measure_remove (f : Uuid → ℕ) :
    (c.remove job id).measure f + ((c.ofJob job).lookup id).elim 0 f = c.measure f := by
  have hold := Table.weight_eq_add_erase (fun _ waiters => Table.weight (fun _ u => f u) waiters)
    c.waiters.byJob job
  rw [elim_lookup_eq_weight_ofJob] at hold
  have hid := Table.weight_eq_add_erase (fun _ u => f u) (c.ofJob job) id
  unfold remove measure
  dsimp only
  cases hw : c.waiters.byJob.lookup job with
  | none =>
    have hempty : c.ofJob job = ∅ := by rw [ofJob, hw]; rfl
    rw [hempty]
    rfl
  | some waiters =>
    have hjob : c.ofJob job = waiters := by rw [ofJob, hw]; rfl
    rw [hjob] at hold hid ⊢
    have hrest : Table.weight (fun _ waiters => Table.weight (fun _ u => f u) waiters)
        (if (waiters.erase id).entries.isEmpty then c.waiters.byJob.erase job
          else c.waiters.byJob.insert job (waiters.erase id)) =
        Table.weight (fun _ u => f u) (waiters.erase id) +
          Table.weight (fun _ waiters => Table.weight (fun _ u => f u) waiters)
            (c.waiters.byJob.erase job) := by
      by_cases hempty : (waiters.erase id).entries.isEmpty = true
      · have herase : waiters.erase id = ∅ := AList.ext (List.isEmpty_iff.mp hempty)
        rw [if_pos hempty, herase, Table.weight_empty, Nat.zero_add]
      · rw [if_neg hempty, Table.weight_insert_erase]
    dsimp only
    cases hl : waiters.lookup id with
    | none =>
      rw [hl] at hid
      dsimp only [Option.elim_none] at hid ⊢
      omega
    | some user =>
      rw [hl] at hid
      dsimp only [Option.elim_some] at hid ⊢
      omega

theorem counts_notify :
    (∀ v, ((c.notify job).1.waiters.byUser.lookup v).getD 0 =
      (c.waiters.byUser.lookup v).getD 0 -
        (c.ofJob job).weight fun _ u => if u = v then 1 else 0) ∧
    (c.notify job).1.waiters.total = c.waiters.total - (c.ofJob job).weight fun _ _ => 1 := by
  unfold notify ofJob
  dsimp only
  cases c.waiters.byJob.lookup job with
  | none => exact ⟨fun _ => rfl, rfl⟩
  | some waiters =>
    refine ⟨fun v => ?_, ?_⟩
    · exact lookup_foldl_decrementUser waiters.entries c.waiters.byUser v
    · show c.waiters.total - waiters.entries.length = _
      rw [length_entries]
      rfl

theorem counts_remove :
    (∀ v, ((c.remove job id).waiters.byUser.lookup v).getD 0 =
      (c.waiters.byUser.lookup v).getD 0 -
        ((c.ofJob job).lookup id).elim 0 fun u => if u = v then 1 else 0) ∧
    (c.remove job id).waiters.total =
      c.waiters.total - ((c.ofJob job).lookup id).elim 0 fun _ => 1 := by
  unfold remove ofJob
  dsimp only
  cases c.waiters.byJob.lookup job with
  | none => exact ⟨fun _ => rfl, rfl⟩
  | some waiters =>
    dsimp only [Option.getD_some]
    cases waiters.lookup id with
    | none => exact ⟨fun _ => rfl, rfl⟩
    | some user => exact ⟨fun v => lookup_decrementUser _ user v, rfl⟩

namespace Counted

theorem empty : empty.Counted := by
  refine ⟨fun job id hid => ?_, fun user => rfl, rfl⟩
  cases hid

theorem subscribe (h : c.Counted) : (c.subscribe user job).1.Counted := by
  obtain ⟨c', r, hc⟩ : ∃ c' r, c.subscribe user job = (c', r) := ⟨_, _, rfl⟩
  rw [hc]
  obtain ⟨hnext, ⟨rfl, hsame⟩ | ⟨rfl, hjobs⟩⟩ := ofJob_subscribe hc
  · have hof (job' : Uuid) : c'.ofJob job' = c.ofJob job' := by rw [ofJob, hsame, ofJob]
    have hmeasure (f : Uuid → ℕ) : c'.measure f = c.measure f := by
      rw [measure, hsame, measure]
    refine ⟨fun job' id hid => ?_, fun v => ?_, ?_⟩
    · rw [hof] at hid
      exact hnext ▸ Nat.lt_succ_of_lt (h.fresh job' id hid)
    · rw [hsame, hmeasure, h.byUser]
    · rw [hsame, hmeasure, h.total]
  · refine ⟨fun job' id hid => ?_, fun v => ?_, ?_⟩
    · rw [hjobs] at hid
      rw [hnext]
      split_ifs at hid
      · rcases (AList.mem_insert _).mp hid with rfl | hid
        · exact Nat.lt_succ_self _
        · exact Nat.lt_succ_of_lt (h.fresh job id hid)
      · exact Nat.lt_succ_of_lt (h.fresh job' id hid)
    · rw [measure_subscribe hc h.fresh]
      have hv := h.byUser v
      unfold JobCompletions.subscribe at hc
      dsimp only at hc
      split_ifs at hc
      · cases hc
      obtain ⟨rfl, -⟩ := Prod.mk.inj hc
      dsimp only
      by_cases huser : user = v
      · subst huser
        rw [AList.lookup_insert, if_pos rfl, ← hv]
        rfl
      · rw [AList.lookup_insert_ne (Ne.symm huser), if_neg huser, hv]
        rfl
    · rw [measure_subscribe hc h.fresh]
      have htotal := h.total
      unfold JobCompletions.subscribe at hc
      dsimp only at hc
      split_ifs at hc
      · cases hc
      obtain ⟨rfl, -⟩ := Prod.mk.inj hc
      dsimp only
      omega

theorem notify (h : c.Counted) : (c.notify job).1.Counted := by
  obtain ⟨-, hnext, hjobs⟩ := @ofJob_notify c job
  obtain ⟨huser, htotal⟩ := @counts_notify c job
  refine ⟨fun job' id hid => ?_, fun v => ?_, ?_⟩
  · rw [hjobs] at hid
    split_ifs at hid
    · cases hid
    · exact hnext ▸ h.fresh job' id hid
  · have hmeasure := @measure_notify c job fun u => if u = v then 1 else 0
    have hv := h.byUser v
    rw [huser]
    omega
  · have hmeasure := @measure_notify c job fun _ => 1
    have ht := h.total
    rw [htotal]
    omega

theorem remove (h : c.Counted) : (c.remove job id).Counted := by
  obtain ⟨hnext, hjobs⟩ := @ofJob_remove c job id
  obtain ⟨huser, htotal⟩ := @counts_remove c job id
  refine ⟨fun job' k hk => ?_, fun v => ?_, ?_⟩
  · rw [hjobs] at hk
    split_ifs at hk
    · exact hnext ▸ h.fresh job k (AList.mem_erase.mp hk).2
    · exact hnext ▸ h.fresh job' k hk
  · have hmeasure := @measure_remove c job id fun u => if u = v then 1 else 0
    have hv := h.byUser v
    rw [huser]
    omega
  · have hmeasure := @measure_remove c job id fun _ => 1
    have ht := h.total
    rw [htotal]
    omega

end Counted

end JobCompletions

end ExecutionProvider.Gateway
