import ExecutionProvider.Gateway.Promises

/-!
# A request is sent at most once

A job is dispatched while it is queued, and never queued again. The session that has dispatched it
sends its request next, or never. So a job has one request to be sent: it is there while the job
is queued, then with one session, and then on a socket. A job that fails with an error of the
gateway has failed while it was queued.

## Main definitions

* `requestsSent`: how often the request of a job was sent in a run.
* `FailedWithError`: a job was settled as failed with an error.
* `Credit`: what there is left to be sent for a job.

## Main results

* `credit_of_run`: the credit of a job in every run.
-/

namespace ExecutionProvider.Gateway

open Protocol

variable {π : Type}

/-- Whether an event is the request of a job being sent. -/
def Event.isRequest (id : Uuid) : Event π → Bool
  | .sent _ (.request r) => r.requestId = id.text
  | _ => false

/-- How often the request of a job was sent in a run. -/
def requestsSent (id : Uuid) (log : List (Event π)) : ℕ := log.countP (Event.isRequest id)

/-- A job was settled as failed with an error. -/
def FailedWithError (log : List (Event π)) (id : Uuid) : Prop :=
  ∃ σ, .settled σ ∈ log ∧ σ.job = id ∧ σ.status = .failed ∧ σ.error ≠ none

/-- A session is about to send the request of a job. -/
def Session.Sends (s : Session π) (id : Uuid) : Prop := ∃ r, s.sending = some (id, r)

/-- The requests that sessions are about to send carry the identities of their jobs. -/
def AppState.Named (g : AppState π) : Prop :=
  ∀ m s id r, g.live.lookup m = some s → s.sending = some (id, r) → r.requestId = id.text

/-- What there is left to be sent for a job: its request, until a session has sent it, and nothing
when the job has failed with an error. -/
structure Credit (log : List (Event π)) (g : AppState π) (id : Uuid) : Prop where
  unique : ∀ m m' s s', g.live.lookup m = some s → g.live.lookup m' = some s' → s.Sends id →
    s'.Sends id → m = m'
  sending : ∀ m s, g.live.lookup m = some s → s.Sends id →
    requestsSent id log = 0 ∧ g.database.Dispatched id ∧ ¬FailedWithError log id
  unsent : ¬g.database.Dispatched id → requestsSent id log = 0
  once : requestsSent id log ≤ 1
  failed : FailedWithError log id → requestsSent id log = 0 ∧ g.database.Dispatched id

section

variable {p : Platform π} {g g' : AppState π} {a : Action} {log es : List (Event π)} {id : Uuid}

theorem requestsSent_append (log es : List (Event π)) :
    requestsSent id (log ++ es) = requestsSent id log + requestsSent id es :=
  List.countP_append

theorem FailedWithError.append_iff :
    FailedWithError (log ++ es) id ↔ FailedWithError log id ∨ FailedWithError es id := by
  constructor
  · rintro ⟨σ, hmem, hσ⟩
    exact (List.mem_append.mp hmem).imp (fun h => ⟨σ, h, hσ⟩) fun h => ⟨σ, h, hσ⟩
  · rintro (⟨σ, hmem, hσ⟩ | ⟨σ, hmem, hσ⟩)
    · exact ⟨σ, List.mem_append_left _ hmem, hσ⟩
    · exact ⟨σ, List.mem_append_right _ hmem, hσ⟩

theorem AppState.Named.step (hn : g.Named) (he : Effect p g g' a es) : g'.Named := by
  intro m s' k r hs' hsending
  cases he.session_origin hs' with
  | kept hs hw =>
    rcases hw.sending with hnone | hsame
    · rw [hnone] at hsending
      cases hsending
    · exact hn m _ k r hs (hsame ▸ hsending)
  | opened _ _ _ _ _ heq =>
    subst heq
    cases hsending
  | surveyed _ _ heq =>
    subst heq
    cases hsending
  | dispatched _ _ _ _ _ hrequest _ _ heq =>
    subst heq
    obtain ⟨rfl, rfl⟩ := Prod.mk.inj (Option.some.inj hsending)
    exact hrequest
  | responded _ _ _ heq =>
    subst heq
    cases hsending
  | missed _ _ _ _ heq =>
    subst heq
    cases hsending

/-- A session that is about to send a request was so before, or has dispatched the job in the
step. -/
theorem Effect.sends_origin {m : Uuid} {s' : Session π} (he : Effect p g g' a es)
    (hs' : g'.live.lookup m = some s') (hsends : s'.Sends id) :
    (∃ s, g.live.lookup m = some s ∧ s.Sends id) ∨
      ¬g.database.Dispatched id ∧ g'.database.Dispatched id ∧ es = [] ∧
        ∃ job, g.database.jobs.lookup id = some job ∧ job.machineId = m := by
  obtain ⟨r, hsending⟩ := hsends
  cases he.session_origin hs' with
  | kept hs hw =>
    rcases hw.sending with hnone | hsame
    · rw [hnone] at hsending
      cases hsending
    · exact Or.inl ⟨_, hs, r, hsame ▸ hsending⟩
  | opened _ _ _ _ _ heq =>
    subst heq
    cases hsending
  | surveyed _ _ heq =>
    subst heq
    cases hsending
  | dispatched _ _ hjob hstatus hmachine _ hjob' hes heq =>
    subst heq
    obtain ⟨rfl, rfl⟩ := Prod.mk.inj (Option.some.inj hsending)
    refine Or.inr ⟨?_, ⟨_, hjob', nofun⟩, hes, _, hjob, hmachine⟩
    rintro ⟨job, hjob₁, hne⟩
    rw [hjob] at hjob₁
    exact hne (Option.some.inj hjob₁ ▸ hstatus)
  | responded _ _ _ heq =>
    subst heq
    cases hsending
  | missed _ _ _ _ heq =>
    subst heq
    cases hsending

/-- A request that is sent in a step is the promise of a session, which is kept with it. -/
theorem Effect.request_origin (hn : g.Named) (he : Effect p g g' a es)
    (hsent : requestsSent id es ≠ 0) :
    requestsSent id es = 1 ∧ ∃ m s s', g.live.lookup m = some s ∧ s.Sends id ∧
      g'.live.lookup m = some s' ∧ s'.sending = none := by
  obtain ⟨e, hmem, hrequest⟩ := List.countP_pos_iff.mp (Nat.pos_of_ne_zero hsent)
  match e, hrequest with
  | .sent connection (.request r), hrequest =>
    obtain ⟨horigin, rfl⟩ := he.speaks hmem
    have hid : r.requestId = id.text := of_decide_eq_true hrequest
    refine ⟨by simp [requestsSent, Event.isRequest, hid], ?_⟩
    cases horigin with
    | @session m s s' _ hs hs' _ hdone _ hf =>
      cases hf with
      | @request k _ hsending =>
        have hk : k = id := Uuid.text_injective ((hn m s k r hs hsending).symm.trans hid)
        exact ⟨m, s, s', hs, ⟨r, hk ▸ hsending⟩, hs', hdone⟩

/-- A job that a step settles as failed with an error was queued. -/
theorem Effect.failed_origin (he : Effect p g g' a es) (hfailed : FailedWithError es id) :
    ¬g.database.Dispatched id ∧ g'.database.Dispatched id := by
  obtain ⟨σ, hmem, rfl, hstatus, herror⟩ := hfailed
  refine ⟨?_, (he.ended_of_settled hmem).dispatched⟩
  cases he.settlement_origin hmem with
  | plain h =>
    obtain ⟨job, hjob, hqueued⟩ := h.queued hstatus
    rintro ⟨job', hjob', hne⟩
    rw [hjob] at hjob'
    exact hne (Option.some.inj hjob' ▸ hqueued)
  | answer _ _ _ _ _ _ _ _ hnone => exact absurd hnone herror
  | lost _ _ hunknown =>
    rw [hstatus] at hunknown
    cases hunknown

/-- Every step keeps the credit of a job. -/
theorem Credit.step (hn : g.Named) (hc : Credit log g id) (he : Effect p g g' a es) :
    Credit (log ++ es) g' id := by
  obtain ⟨σs, hchange, -⟩ := he.change
  -- A request goes out only while a session promises it, so nothing else has used the credit.
  have hrequest (hsent : requestsSent id es ≠ 0) :
      requestsSent id log = 0 ∧ g.database.Dispatched id ∧ ¬FailedWithError log id := by
    obtain ⟨-, m, s, s', hs, hsends, -⟩ := he.request_origin hn hsent
    exact hc.sending m s hs hsends
  have hzero (h : requestsSent id log = 0) (hes : requestsSent id es = 0) :
      requestsSent id (log ++ es) = 0 := by
    rw [requestsSent_append, h, hes]
  constructor
  · intro m m' s s' hs hs' hsends hsends'
    rcases he.sends_origin hs hsends with ⟨t, ht, htsends⟩ | ⟨hnot, -, -, job, hjob, hm⟩ <;>
      rcases he.sends_origin hs' hsends' with ⟨t', ht', htsends'⟩ | ⟨hnot', -, -, job', hjob', hm'⟩
    · exact hc.unique m m' t t' ht ht' htsends htsends'
    · exact absurd (hc.sending m t ht htsends).2.1 hnot'
    · exact absurd (hc.sending m' t' ht' htsends').2.1 hnot
    · rw [hjob] at hjob'
      rw [← hm, ← hm', Option.some.inj hjob']
  · intro m s' hs' hsends
    rcases he.sends_origin hs' hsends with ⟨s, hs, hold⟩ | ⟨hnot, hdispatched, rfl, -⟩
    · obtain ⟨hsent, hdispatched, hfailed⟩ := hc.sending m s hs hold
      refine ⟨hzero hsent ?_, hchange.dispatched hdispatched, ?_⟩
      · by_contra hne
        obtain ⟨-, m₁, s₁, s₁', hs₁, hsends₁, hs₁', hdone⟩ := he.request_origin hn hne
        obtain rfl := hc.unique m₁ m s₁ s hs₁ hs hsends₁ hold
        rw [hs'] at hs₁'
        obtain rfl := Option.some.inj hs₁'
        obtain ⟨r, hsending⟩ := hsends
        rw [hdone] at hsending
        cases hsending
      · rw [FailedWithError.append_iff, not_or]
        exact ⟨hfailed, fun h => (he.failed_origin h).1 hdispatched⟩
    · rw [List.append_nil]
      exact ⟨hc.unsent hnot, hdispatched, fun h => hnot (hc.failed h).2⟩
  · intro hnot
    have hbefore : ¬g.database.Dispatched id := fun h => hnot (hchange.dispatched h)
    refine hzero (hc.unsent hbefore) ?_
    by_contra hne
    exact hbefore (hrequest hne).2.1
  · by_cases hes : requestsSent id es = 0
    · rw [requestsSent_append, hes]
      exact hc.once
    · rw [requestsSent_append, (hrequest hes).1, (he.request_origin hn hes).1]
  · intro hfailed
    rcases FailedWithError.append_iff.mp hfailed with hold | hnew
    · obtain ⟨hsent, hdispatched⟩ := hc.failed hold
      refine ⟨hzero hsent ?_, hchange.dispatched hdispatched⟩
      by_contra hne
      exact (hrequest hne).2.2 hold
    · obtain ⟨hnot, hdispatched⟩ := he.failed_origin hnew
      refine ⟨hzero (hc.unsent hnot) ?_, hdispatched⟩
      by_contra hne
      exact hnot (hrequest hne).2.1

theorem Credit.init : Credit [] (AppState.init : AppState π) id := by
  refine ⟨fun _ _ _ _ h => ?_, fun _ _ h => ?_, fun _ => rfl, Nat.zero_le 1, ?_⟩
  · cases h
  · cases h
  · rintro ⟨σ, hmem, -⟩
    cases hmem

variable (id) in
/-- The credit of a job in every run. -/
theorem credit_of_run (h : (gatewaySystem p).Run log g) : g.Named ∧ Credit log g id := by
  refine h.invariant (I := fun log g => g.Named ∧ Credit log g id) ?_ ?_
  · rintro _ rfl
    refine ⟨fun _ _ _ _ h => ?_, .init⟩
    cases h
  · rintro log g a g' es - ⟨hn, hc⟩ hstep
    exact ⟨hn.step (effect_of_step hstep), hc.step hn (effect_of_step hstep)⟩

end

end ExecutionProvider.Gateway
