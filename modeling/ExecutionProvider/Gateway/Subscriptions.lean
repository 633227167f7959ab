import ExecutionProvider.Foundation.Runs
import ExecutionProvider.Gateway.Completions

/-!
# The accounts of the subscriptions

Calls subscribe to jobs, jobs end, and calls drop their subscriptions, in any order. A subscription
is registered until it is dropped, or its job ends and it is taken out to be signalled, whichever
comes first; what comes second finds it gone and leaves the table as it is. The subscriptions
are counted in all and by user, so that every operation has three accounts to keep.

## Main definitions

* `JobCompletions.registered`: the waiters in the table.
* `Decrements`: counts from which users may be taken off, one after the other.
* `JobCompletions.Tidy`: nothing empty is kept, and the limits are respected.
* `subscriptionSystem`: subscribing, notifying and dropping in any order.

## Main results

* `Subscriptions.Sound.step`: what every step preserves.
* `subscriptions_accounted`: the accounts are right in every state.
-/

namespace ExecutionProvider.Gateway

variable {c : JobCompletions} {user job job' : Uuid} {id : ℕ}

namespace JobCompletions

/-! ### The registered waiters -/

/-- The registered waiters: their jobs, their subscriptions and their users. -/
def registered (c : JobCompletions) : List (Uuid × ℕ × Uuid) :=
  c.waiters.byJob.entries.flatMap fun e => e.2.entries.map fun f => (e.1, f.1, f.2)

theorem mem_registered :
    (job, id, user) ∈ c.registered ↔ (c.ofJob job).lookup id = some user := by
  rw [registered, List.mem_flatMap, ofJob]
  constructor
  · rintro ⟨⟨_, waiters⟩, hjob, hmem⟩
    obtain ⟨⟨_, _⟩, hid, heq⟩ := List.mem_map.mp hmem
    obtain ⟨rfl, rfl, rfl⟩ : _ = job ∧ _ = id ∧ _ = user := by simpa using heq
    rw [AList.mem_lookup_iff.mpr hjob]
    exact AList.mem_lookup_iff.mpr hid
  · intro hid
    cases hjob : c.waiters.byJob.lookup job with
    | none =>
      rw [hjob] at hid
      cases hid
    | some waiters =>
      rw [hjob] at hid
      exact ⟨⟨job, waiters⟩, AList.mem_lookup_iff.mp hjob,
        List.mem_map.mpr ⟨⟨id, user⟩, AList.mem_lookup_iff.mp hid, rfl⟩⟩

/-- Waiters are counted by going through the table. -/
theorem countP_registered (p : Uuid → Bool) (c : JobCompletions) :
    c.registered.countP (fun x => p x.2.2) = c.measure fun u => if p u then 1 else 0 := by
  have hwaiters (job : Uuid) (entries : List (Sigma fun _ : ℕ => Uuid)) :
      (entries.map fun f => (job, f.1, f.2)).countP (fun x => p x.2.2) =
        entries.foldr (fun e n => (if p e.2 then 1 else 0) + n) 0 := by
    induction entries with
    | nil => rfl
    | cons e entries ih =>
      rw [List.map_cons, List.countP_cons, ih, List.foldr_cons, Nat.add_comm]
  rw [registered, measure, Table.weight]
  induction c.waiters.byJob.entries with
  | nil => rfl
  | cons e entries ih =>
    rw [List.flatMap_cons, List.countP_append, ih, List.foldr_cons, hwaiters]
    rfl

theorem length_registered (c : JobCompletions) : c.registered.length = c.measure fun _ => 1 := by
  have hcount := countP_registered (fun _ => true) c
  rwa [List.countP_true] at hcount

end JobCompletions

/-! ### Counting down -/

/-- Users can be taken off the counts, one after the other: each of them has a count, which is not
zero. -/
def Decrements (byUser : Table Uuid ℕ) : List Uuid → Prop
  | [] => True
  | user :: users =>
    (∃ n, byUser.lookup user = some (n + 1)) ∧ Decrements (decrementUser byUser user) users

/-- They can if each of them counts as often as it is to be taken off. -/
theorem Decrements.of_count_le {users : List Uuid} {byUser : Table Uuid ℕ}
    (h : ∀ user, users.count user ≤ (byUser.lookup user).getD 0) : Decrements byUser users := by
  induction users generalizing byUser with
  | nil => trivial
  | cons user users ih =>
    refine ⟨?_, ih fun v => ?_⟩
    · have huser := h user
      rw [List.count_cons_self] at huser
      cases hn : byUser.lookup user with
      | none =>
        rw [hn] at huser
        cases huser
      | some n =>
        rw [hn] at huser
        exact ⟨n - 1, congrArg some (Nat.sub_add_cancel (Nat.one_le_of_lt huser)).symm⟩
    · have hv := h v
      rw [List.count_cons] at hv
      rw [JobCompletions.lookup_decrementUser]
      simp only [beq_iff_eq] at hv
      omega

/-- The counts of users are neither zero nor beyond the limit. -/
def WithinLimit (byUser : Table Uuid ℕ) : Prop :=
  ∀ user n, byUser.lookup user = some n → 0 < n ∧ n ≤ maxWaitersPerUser

theorem WithinLimit.decrementUser {byUser : Table Uuid ℕ} (h : WithinLimit byUser) (user : Uuid) :
    WithinLimit (decrementUser byUser user) := by
  intro v n hn
  rw [Gateway.decrementUser] at hn
  split at hn
  · exact h v n hn
  · next count hcount =>
    have hle := h user count hcount
    split_ifs at hn with hzero
    · by_cases hv : v = user
      · rw [hv, AList.lookup_erase] at hn
        cases hn
      · rw [AList.lookup_erase_ne hv] at hn
        exact h v n hn
    · by_cases hv : v = user
      · rw [hv, AList.lookup_insert] at hn
        obtain rfl := Option.some.inj hn
        omega
      · rw [AList.lookup_insert_ne hv] at hn
        exact h v n hn

/-! ### What is kept -/

namespace JobCompletions

/-- No job without waiters is kept and no user without any, and the limits are respected. -/
structure Tidy (c : JobCompletions) : Prop where
  jobs : ∀ job waiters, c.waiters.byJob.lookup job = some waiters → waiters.entries ≠ []
  users : WithinLimit c.waiters.byUser
  total : c.waiters.total ≤ maxWaiters

namespace Tidy

theorem empty : empty.Tidy := ⟨nofun, nofun, Nat.zero_le _⟩

theorem subscribe (h : c.Tidy) : (c.subscribe user job).1.Tidy := by
  rw [JobCompletions.subscribe]
  split_ifs with hfull
  · exact ⟨h.jobs, h.users, h.total⟩
  · rw [not_or, not_le, not_le] at hfull
    refine ⟨fun job' waiters hw => ?_, fun v n hn => ?_, hfull.1⟩
    · obtain ⟨-, rfl⟩ | ⟨-, hw⟩ := Table.lookup_insert_eq_some.mp hw
      · exact List.cons_ne_nil _ _
      · exact h.jobs job' waiters hw
    · obtain ⟨-, rfl⟩ | ⟨-, hn⟩ := Table.lookup_insert_eq_some.mp hn
      · exact ⟨Nat.succ_pos _, hfull.2⟩
      · exact h.users v n hn

theorem lookup_erase_eq_some {t : Table Uuid (Table ℕ Uuid)} {waiters : Table ℕ Uuid}
    (hw : (t.erase job).lookup job' = some waiters) : t.lookup job' = some waiters := by
  by_cases hjob : job' = job
  · rw [hjob, AList.lookup_erase] at hw
    cases hw
  · rwa [AList.lookup_erase_ne hjob] at hw

theorem notify (h : c.Tidy) : (c.notify job).1.Tidy := by
  rw [JobCompletions.notify]
  cases c.waiters.byJob.lookup job with
  | none => exact h
  | some waiters =>
    refine ⟨fun job' waiters' hw => h.jobs job' waiters' (lookup_erase_eq_some hw), ?_,
      (Nat.sub_le _ _).trans h.total⟩
    dsimp only
    have hfold (entries : List (Sigma fun _ : ℕ => Uuid)) {byUser : Table Uuid ℕ}
        (hlimit : WithinLimit byUser) :
        WithinLimit (entries.foldl (fun t e => decrementUser t e.2) byUser) := by
      induction entries generalizing byUser with
      | nil => exact hlimit
      | cons e entries ih => exact ih (hlimit.decrementUser e.2)
    exact hfold waiters.entries h.users

theorem remove (h : c.Tidy) : (c.remove job id).Tidy := by
  rw [JobCompletions.remove]
  dsimp only
  cases c.waiters.byJob.lookup job with
  | none => exact h
  | some waiters =>
    -- What is left of the waiters of the job is kept unless nothing is left.
    have hjobs (job' : Uuid) (waiters' : Table ℕ Uuid)
        (hw : (if (waiters.erase id).entries.isEmpty then c.waiters.byJob.erase job
          else c.waiters.byJob.insert job (waiters.erase id)).lookup job' = some waiters') :
        waiters'.entries ≠ [] := by
      split_ifs at hw with hempty
      · exact h.jobs job' waiters' (lookup_erase_eq_some hw)
      · obtain ⟨-, rfl⟩ | ⟨-, hw⟩ := Table.lookup_insert_eq_some.mp hw
        · exact fun hnil => hempty (List.isEmpty_iff.mpr hnil)
        · exact h.jobs job' waiters' hw
    dsimp only
    cases waiters.lookup id with
    | none => exact ⟨hjobs, h.users, h.total⟩
    | some user => exact ⟨hjobs, h.users.decrementUser user, (Nat.sub_le _ _).trans h.total⟩

end Tidy

/-! ### No count is taken below zero -/

/-- The users of the waiters for a job. -/
def users (c : JobCompletions) (job : Uuid) : List Uuid := (c.ofJob job).entries.map Sigma.snd

/-- Notifying a job takes off no more than was counted. -/
theorem Counted.decrements_notify (h : c.Counted) (job : Uuid) :
    Decrements c.waiters.byUser (c.users job) ∧ (c.users job).length ≤ c.waiters.total := by
  have hweight (f : Uuid → ℕ) : ((c.ofJob job).weight fun _ u => f u) ≤ c.measure f := by
    have hnotify := @measure_notify c job f
    omega
  have hcount (p : Uuid → Bool) (entries : List (Sigma fun _ : ℕ => Uuid)) :
      (entries.map Sigma.snd).countP p =
        entries.foldr (fun e n => (if p e.2 then 1 else 0) + n) 0 := by
    induction entries with
    | nil => rfl
    | cons e entries ih =>
      rw [List.map_cons, List.countP_cons, ih, List.foldr_cons, Nat.add_comm]
  refine ⟨.of_count_le fun v => ?_, ?_⟩
  · rw [h.byUser v, List.count, users, hcount]
    simp only [beq_iff_eq]
    exact hweight fun u => if u = v then 1 else 0
  · have hlength := hcount (fun _ => true) (c.ofJob job).entries
    rw [List.countP_true] at hlength
    rw [h.total, users, hlength]
    exact hweight fun _ => 1

/-- Dropping a registered subscription takes off what was counted for it. -/
theorem Counted.decrements_remove (h : c.Counted) (hid : (c.ofJob job).lookup id = some user) :
    Decrements c.waiters.byUser [user] ∧ 0 < c.waiters.total := by
  have hmeasure (f : Uuid → ℕ) : f user ≤ c.measure f := by
    have hremove := @measure_remove c job id f
    rw [hid, Option.elim_some] at hremove
    omega
  refine ⟨.of_count_le fun v => ?_, ?_⟩
  · rw [h.byUser v]
    have hle := hmeasure fun u => if u = v then 1 else 0
    rw [List.count_singleton]
    simpa only [beq_iff_eq] using hle
  · rw [h.total]
    exact hmeasure fun _ => 1

/-- Dropping a subscription that is not registered counts nothing. -/
theorem remove_of_lookup_none (hid : (c.ofJob job).lookup id = none) :
    (c.remove job id).waiters.byUser = c.waiters.byUser ∧
      (c.remove job id).waiters.total = c.waiters.total := by
  rw [ofJob] at hid
  rw [remove]
  dsimp only
  cases hw : c.waiters.byJob.lookup job with
  | none => exact ⟨rfl, rfl⟩
  | some waiters =>
    rw [hw] at hid
    dsimp only
    rw [show waiters.lookup id = none from hid]
    exact ⟨rfl, rfl⟩

theorem mem_registered_notify {x : Uuid × ℕ × Uuid} :
    x ∈ (c.notify job).1.registered ↔ x ∈ c.registered ∧ x.1 ≠ job := by
  obtain ⟨job', id, user⟩ := x
  obtain ⟨-, -, hjobs⟩ := @ofJob_notify c job
  rw [mem_registered, mem_registered, hjobs]
  by_cases hjob : job' = job
  · rw [if_pos hjob]
    exact ⟨nofun, fun h => absurd hjob h.2⟩
  · rw [if_neg hjob]
    exact ⟨fun h => ⟨h, hjob⟩, fun h => h.1⟩

theorem mem_registered_remove {x : Uuid × ℕ × Uuid} :
    x ∈ (c.remove job id).registered ↔ x ∈ c.registered ∧ ¬(x.1 = job ∧ x.2.1 = id) := by
  obtain ⟨job', id', user⟩ := x
  obtain ⟨-, hjobs⟩ := @ofJob_remove c job id
  rw [mem_registered, mem_registered, hjobs]
  by_cases hjob : job' = job
  · rw [if_pos hjob, hjob]
    by_cases hid : id' = id
    · rw [hid, AList.lookup_erase]
      exact ⟨nofun, fun h => absurd ⟨rfl, rfl⟩ h.2⟩
    · rw [AList.lookup_erase_ne hid]
      exact ⟨fun h => ⟨h, fun heq => hid heq.2⟩, fun h => h.1⟩
  · rw [if_neg hjob]
    exact ⟨fun h => ⟨h, fun heq => hjob heq.1⟩, fun h => h.1⟩

end JobCompletions

/-! ### Subscribing, notifying and dropping -/

/-- The subscriptions of a process: the table, those that are held with their users and jobs, and
those that were taken out of the table, before and after they are signalled. -/
structure Subscriptions where
  completions : JobCompletions
  held : Table ℕ (Uuid × Uuid)
  signals : List ℕ
  signalled : List ℕ

/-- What happens to the subscriptions. The waiters that a notification takes out are signalled one
after the other, in any order. -/
inductive SubscriptionAction
  | subscribe (user job : Uuid)
  | notify (job : Uuid)
  | signal (id : ℕ)
  | drop (id : ℕ)

/-- A notification takes out the waiters for a job. -/
inductive SubscriptionEvent
  | notified (job : Uuid) (ids : List ℕ)

namespace Subscriptions

/-- No subscriptions. -/
def init : Subscriptions := ⟨.empty, ∅, [], []⟩

/-- A step. -/
def step (w : Subscriptions) : SubscriptionAction → Option (Subscriptions × List SubscriptionEvent)
  | .subscribe user job =>
    let r := w.completions.subscribe user job
    match r.2 with
    | none => some ({ w with completions := r.1 }, [])
    | some id => some ({ w with completions := r.1, held := w.held.insert id (user, job) }, [])
  | .notify job =>
    let r := w.completions.notify job
    some ({ w with completions := r.1, signals := w.signals ++ r.2 }, [.notified job r.2])
  | .signal id =>
    if id ∈ w.signals then
      some ({ w with signals := w.signals.erase id, signalled := id :: w.signalled }, [])
    else none
  | .drop id =>
    match w.held.lookup id with
    | none => none
    | some (_, job) =>
      some ({ w with completions := w.completions.remove job id, held := w.held.erase id }, [])

/-- A subscription was taken out of the table to be signalled. -/
def Taken (w : Subscriptions) (id : ℕ) : Prop := id ∈ w.signals ∨ id ∈ w.signalled

/-- What holds of the subscriptions in every state. -/
structure Sound (log : List SubscriptionEvent) (w : Subscriptions) : Prop where
  counted : w.completions.Counted
  tidy : w.completions.Tidy
  registered : ∀ job id user, (w.completions.ofJob job).lookup id = some user ↔
    w.held.lookup id = some (user, job) ∧ ¬w.Taken id
  fresh : ∀ id, id ∈ w.held ∨ w.Taken id → id < w.completions.nextId
  taken : ∀ id, w.Taken id ↔ ∃ job ids, .notified job ids ∈ log ∧ id ∈ ids
  once : (w.signals ++ w.signalled).Nodup

end Subscriptions

/-- The runs of the subscriptions of a process. -/
def subscriptionSystem : System Subscriptions SubscriptionAction SubscriptionEvent where
  start w := w = .init
  step := Subscriptions.step

namespace Subscriptions

variable {w u : Subscriptions} {log es : List SubscriptionEvent} {a : SubscriptionAction}

theorem Sound.init : Sound [] .init := by
  have hnone (id : ℕ) : ¬Taken .init id := by
    rintro (h | h) <;> cases h
  refine ⟨.empty, .empty, fun job id user => ⟨nofun, fun h => nomatch h.1⟩, fun id h => ?_,
    fun id => ⟨fun h => absurd h (hnone id), ?_⟩, .nil⟩
  · obtain h | h := h
    · cases h
    · exact absurd h (hnone id)
  · rintro ⟨_, _, h, -⟩
    cases h

theorem Sound.subscribe (h : Sound log w) (user job : Uuid)
    (hstep : w.step (.subscribe user job) = some (u, es)) : Sound (log ++ es) u := by
  obtain ⟨c', r, hc⟩ : ∃ c' r, w.completions.subscribe user job = (c', r) := ⟨_, _, rfl⟩
  have hcounted := @JobCompletions.Counted.subscribe _ user job h.counted
  have htidy := @JobCompletions.Tidy.subscribe _ user job h.tidy
  rw [Subscriptions.step, hc] at hstep
  rw [hc] at hcounted htidy
  obtain ⟨hnext, ⟨rfl, hsame⟩ | ⟨rfl, hjobs⟩⟩ := JobCompletions.ofJob_subscribe hc
  · cases hstep
    refine ⟨hcounted, htidy, fun job' id user' => ?_, fun id hid => ?_, ?_, h.once⟩
    · rw [JobCompletions.ofJob, hsame]
      exact h.registered job' id user'
    · exact hnext ▸ Nat.lt_succ_of_lt (h.fresh id hid)
    · rw [List.append_nil]
      exact h.taken
  · cases hstep
    have hnew : ¬w.Taken w.completions.nextId := fun htaken => (h.fresh _ (.inr htaken)).false
    refine ⟨hcounted, htidy, fun job' id user' => ?_, fun id hid => ?_, ?_, h.once⟩
    · rw [hjobs]
      dsimp only
      by_cases hid : id = w.completions.nextId
      · subst hid
        rw [AList.lookup_insert]
        by_cases hjob : job' = job
        · rw [if_pos hjob, AList.lookup_insert, hjob]
          exact ⟨fun heq => ⟨congrArg (fun o => o.map fun v => (v, job)) heq, hnew⟩,
            fun heq => congrArg (Option.map Prod.fst) heq.1⟩
        · rw [if_neg hjob]
          refine ⟨fun hlookup => ?_, fun heq => ?_⟩
          · have hheld := ((h.registered _ _ _).mp hlookup).1
            exact absurd (h.fresh _ (.inl (Table.mem_of_lookup hheld))) (lt_irrefl _)
          · exact absurd (congrArg Prod.snd (Option.some.inj heq.1)).symm hjob
      · rw [AList.lookup_insert_ne hid]
        have hold : (if job' = job then (w.completions.ofJob job).insert w.completions.nextId user
            else w.completions.ofJob job').lookup id = (w.completions.ofJob job').lookup id := by
          split_ifs with hjob
          · rw [AList.lookup_insert_ne hid, hjob]
          · rfl
        rw [hold]
        exact h.registered job' id user'
    · rw [hnext]
      obtain hheld | htaken := hid
      · obtain rfl | hheld := (AList.mem_insert _).mp hheld
        · exact Nat.lt_succ_self _
        · exact Nat.lt_succ_of_lt (h.fresh id (.inl hheld))
      · exact Nat.lt_succ_of_lt (h.fresh id (.inr htaken))
    · rw [List.append_nil]
      exact h.taken

/-- What is taken out of the table are the waiters that are registered for the job. -/
theorem Sound.mem_notify (h : Sound log w) {job : Uuid} {id : ℕ} :
    id ∈ (w.completions.notify job).2 ↔
      ∃ user, w.held.lookup id = some (user, job) ∧ ¬w.Taken id := by
  rw [(@JobCompletions.ofJob_notify w.completions job).1]
  constructor
  · intro hid
    obtain ⟨user, huser⟩ := Option.isSome_iff_exists.mp (AList.lookup_isSome.mpr hid)
    exact ⟨user, (h.registered job id user).mp huser⟩
  · rintro ⟨user, huser⟩
    exact Table.mem_of_lookup ((h.registered job id user).mpr huser)

theorem Sound.notify (h : Sound log w) (job : Uuid)
    (hstep : w.step (.notify job) = some (u, es)) : Sound (log ++ es) u := by
  cases hstep
  obtain ⟨hkeys, hnext, hjobs⟩ := @JobCompletions.ofJob_notify w.completions job
  have hmem {id : ℕ} := @Sound.mem_notify _ _ h job id
  have htaken (id : ℕ) : Taken { w with
      completions := (w.completions.notify job).1
      signals := w.signals ++ (w.completions.notify job).2 } id ↔
      w.Taken id ∨ id ∈ (w.completions.notify job).2 := by
    simp only [Taken, List.mem_append]
    tauto
  refine ⟨h.counted.notify, h.tidy.notify, fun job' id user => ?_, fun id hid => ?_, fun id => ?_,
    ?_⟩
  · rw [htaken, hjobs, not_or]
    by_cases hjob : job' = job
    · rw [if_pos hjob, hjob]
      exact ⟨nofun, fun hall => absurd (hmem.mpr ⟨user, hall.1, hall.2.1⟩) hall.2.2⟩
    · rw [if_neg hjob, h.registered]
      refine ⟨fun hall => ⟨hall.1, hall.2, fun hid => ?_⟩, fun hall => ⟨hall.1, hall.2.1⟩⟩
      obtain ⟨user', hheld, -⟩ := hmem.mp hid
      exact hjob (congrArg Prod.snd (Option.some.inj (hall.1.symm.trans hheld)))
  · rw [hnext]
    rw [htaken] at hid
    obtain hheld | hid | hid := hid
    · exact h.fresh id (.inl hheld)
    · exact h.fresh id (.inr hid)
    · obtain ⟨user, hheld, -⟩ := hmem.mp hid
      exact h.fresh id (.inl (Table.mem_of_lookup hheld))
  · rw [htaken, h.taken]
    simp only [List.mem_append, List.mem_singleton]
    constructor
    · rintro (⟨job', ids, hids, hid⟩ | hid)
      · exact ⟨job', ids, .inl hids, hid⟩
      · exact ⟨job, _, .inr rfl, hid⟩
    · rintro ⟨job', ids, hids | ⟨⟨⟩⟩, hid⟩
      · exact .inl ⟨job', ids, hids, hid⟩
      · exact .inr hid
  · have hnodup : (w.completions.notify job).2.Nodup := by
      rw [hkeys]
      exact (w.completions.ofJob job).keys_nodup
    have hperm := List.Perm.append_left w.signals
      (@List.perm_append_comm _ (w.completions.notify job).2 w.signalled)
    rw [← List.append_assoc, ← List.append_assoc] at hperm
    refine hperm.nodup_iff.mpr (h.once.append hnodup fun id hold hid => ?_)
    obtain ⟨user, -, hnot⟩ := hmem.mp hid
    exact hnot (List.mem_append.mp hold)

theorem Sound.signal (h : Sound log w) (id : ℕ)
    (hstep : w.step (.signal id) = some (u, es)) : Sound (log ++ es) u := by
  rw [Subscriptions.step, Option.ite_none_right_eq_some] at hstep
  obtain ⟨hmem, heq⟩ := hstep
  cases heq
  have hperm := List.perm_cons_erase hmem
  have htaken (id' : ℕ) : Taken { w with
      signals := w.signals.erase id
      signalled := id :: w.signalled } id' ↔ w.Taken id' := by
    rw [Taken, Taken, hperm.mem_iff]
    simp only [List.mem_cons]
    tauto
  refine ⟨h.counted, h.tidy, fun job id' user => ?_, fun id' hid => ?_, fun id' => ?_, ?_⟩
  · rw [htaken]
    exact h.registered job id' user
  · rw [htaken] at hid
    exact h.fresh id' hid
  · rw [htaken, List.append_nil]
    exact h.taken id'
  · have hmiddle := @List.perm_middle _ id (w.signals.erase id) w.signalled
    exact (hmiddle.trans (hperm.symm.append_right w.signalled)).nodup_iff.mpr h.once

theorem Sound.drop (h : Sound log w) (id : ℕ)
    (hstep : w.step (.drop id) = some (u, es)) : Sound (log ++ es) u := by
  rw [Subscriptions.step] at hstep
  split at hstep
  · cases hstep
  · next user job hheld =>
    cases hstep
    obtain ⟨hnext, hjobs⟩ := @JobCompletions.ofJob_remove w.completions job id
    refine ⟨h.counted.remove, h.tidy.remove, fun job' id' user' => ?_, fun id' hid => ?_, ?_,
      h.once⟩
    · rw [hjobs]
      dsimp only
      by_cases hid : id' = id
      · subst hid
        rw [AList.lookup_erase]
        refine ⟨fun hlookup => ?_, nofun⟩
        split_ifs at hlookup with hjob
        · rw [AList.lookup_erase] at hlookup
          cases hlookup
        · have hheld' := ((h.registered _ _ _).mp hlookup).1
          exact absurd (congrArg Prod.snd (Option.some.inj (hheld'.symm.trans hheld))) hjob
      · rw [AList.lookup_erase_ne hid]
        have hold : (if job' = job then (w.completions.ofJob job).erase id
            else w.completions.ofJob job').lookup id' = (w.completions.ofJob job').lookup id' := by
          split_ifs with hjob
          · rw [AList.lookup_erase_ne hid, hjob]
          · rfl
        rw [hold]
        exact h.registered job' id' user'
    · rw [hnext]
      obtain hheld' | htaken := hid
      · exact h.fresh id' (.inl (AList.mem_erase.mp hheld').2)
      · exact h.fresh id' (.inr htaken)
    · rw [List.append_nil]
      exact h.taken

/-- Every step keeps the subscriptions sound. -/
theorem Sound.step (h : Sound log w) (hstep : w.step a = some (u, es)) : Sound (log ++ es) u := by
  cases a with
  | subscribe user job => exact h.subscribe user job hstep
  | notify job => exact h.notify job hstep
  | signal id => exact h.signal id hstep
  | drop id => exact h.drop id hstep

theorem Sound.of_run (hrun : subscriptionSystem.Run log w) : Sound log w := by
  refine hrun.invariant (I := Sound) (fun w hw => ?_) fun _ h hstep => h.step hstep
  obtain rfl : w = .init := hw
  exact .init

end Subscriptions

/-- **Accounts.** In every state the total is the number of the registered waiters, and the count of
each user that of the user's; nothing empty is kept, and the limits are respected. The registered
waiters are the subscriptions that are held and were not taken out to be signalled, and those that
were taken out are the ones that notifications of their jobs have found. Notifying a job takes out
exactly its waiters, and dropping a subscription removes its own waiter if it is registered, and
nothing otherwise; neither counts below zero. -/
theorem subscriptions_accounted {log : List SubscriptionEvent} {w : Subscriptions}
    (hrun : subscriptionSystem.Run log w) :
    let c := w.completions
    (c.waiters.total = c.registered.length ∧
      ∀ user, (c.waiters.byUser.lookup user).getD 0 = c.registered.countP (·.2.2 = user)) ∧
    ((∀ job waiters, c.waiters.byJob.lookup job = some waiters → waiters.entries ≠ []) ∧
      ∀ user n, c.waiters.byUser.lookup user = some n → 0 < n) ∧
    (c.waiters.total ≤ maxWaiters ∧
      ∀ user, (c.waiters.byUser.lookup user).getD 0 ≤ maxWaitersPerUser) ∧
    (∀ job id user, (job, id, user) ∈ c.registered ↔
      w.held.lookup id = some (user, job) ∧ id ∉ w.signals ∧ id ∉ w.signalled) ∧
    ((∀ id, id ∈ w.signals ∨ id ∈ w.signalled ↔ ∃ job ids, .notified job ids ∈ log ∧ id ∈ ids) ∧
      (w.signals ++ w.signalled).Nodup) ∧
    (∀ job, Decrements c.waiters.byUser (c.users job) ∧
      (c.users job).length ≤ c.waiters.total ∧
      (∀ id, id ∈ (c.notify job).2 ↔ ∃ user, (job, id, user) ∈ c.registered) ∧
      ∀ x, x ∈ (c.notify job).1.registered ↔ x ∈ c.registered ∧ x.1 ≠ job) ∧
    ∀ id user job, w.held.lookup id = some (user, job) →
      (∀ x, x ∈ (c.remove job id).registered ↔ x ∈ c.registered ∧ x ≠ (job, id, user)) ∧
      ((job, id, user) ∈ c.registered →
        Decrements c.waiters.byUser [user] ∧ 0 < c.waiters.total) ∧
      ((job, id, user) ∉ c.registered →
        (c.remove job id).waiters.byUser = c.waiters.byUser ∧
        (c.remove job id).waiters.total = c.waiters.total) := by
  have h := Subscriptions.Sound.of_run hrun
  have hregistered (job : Uuid) (id : ℕ) (user : Uuid) :
      (job, id, user) ∈ w.completions.registered ↔
        w.held.lookup id = some (user, job) ∧ ¬w.Taken id := by
    rw [JobCompletions.mem_registered]
    exact h.registered job id user
  refine ⟨⟨?_, fun user => ?_⟩, ⟨h.tidy.jobs, fun user n hn => (h.tidy.users user n hn).1⟩,
    ⟨h.tidy.total, fun user => ?_⟩, fun job id user => ?_, ⟨h.taken, h.once⟩, fun job => ?_,
    fun id user job hheld => ⟨?_, fun hmem => ?_, fun hmem => ?_⟩⟩
  · rw [JobCompletions.length_registered]
    exact h.counted.total
  · rw [JobCompletions.countP_registered fun u => decide (u = user)]
    simp only [decide_eq_true_eq]
    exact h.counted.byUser user
  · cases hn : w.completions.waiters.byUser.lookup user with
    | none => exact Nat.zero_le _
    | some n => exact (h.tidy.users user n hn).2
  · rw [hregistered, Subscriptions.Taken, not_or]
  · obtain ⟨hdecrements, hle⟩ := h.counted.decrements_notify job
    refine ⟨hdecrements, hle, fun id => ?_, fun x => JobCompletions.mem_registered_notify⟩
    simp only [hregistered]
    exact h.mem_notify
  · rintro ⟨job', id', user'⟩
    rw [JobCompletions.mem_registered_remove]
    refine and_congr_right fun hmem => not_congr ⟨?_, fun heq => ?_⟩
    · rintro ⟨rfl, rfl⟩
      have hheld' := ((hregistered _ _ _).mp hmem).1
      have huser : user' = user := congrArg Prod.fst (Option.some.inj (hheld'.symm.trans hheld))
      rw [huser]
    · exact ⟨congrArg Prod.fst heq, congrArg (fun x => x.2.1) heq⟩
  · exact h.counted.decrements_remove (JobCompletions.mem_registered.mp hmem)
  · refine JobCompletions.remove_of_lookup_none ?_
    cases hid : (w.completions.ofJob job).lookup id with
    | none => rfl
    | some user' =>
      have hmem' := JobCompletions.mem_registered.mpr hid
      have hheld' := ((hregistered _ _ _).mp hmem').1
      have huser : user' = user := congrArg Prod.fst (Option.some.inj (hheld'.symm.trans hheld))
      exact absurd (huser ▸ hmem') hmem

/-- Two calls wait for a job that ends, and one of them has returned. -/
theorem subscriptions_accounted_two : ∃ log w, subscriptionSystem.Run log w ∧
    w.signals = [1] ∧ w.signalled = [0] ∧
    w.completions.waiters.total = w.completions.registered.length := by
  obtain ⟨w, log, hexec, hsignals, hsignalled⟩ : ∃ w log, subscriptionSystem.exec .init
      [.subscribe (.numbered 1) (.numbered 5), .subscribe (.numbered 1) (.numbered 5),
        .notify (.numbered 5), .signal 0, .drop 0] = some (w, log) ∧
      w.signals = [1] ∧ w.signalled = [0] := ⟨_, _, rfl, rfl, rfl⟩
  have hrun : subscriptionSystem.Run log w := ⟨.init, rfl, .of_exec hexec⟩
  exact ⟨log, w, hrun, hsignals, hsignalled, (subscriptions_accounted hrun).1.1⟩

end ExecutionProvider.Gateway
