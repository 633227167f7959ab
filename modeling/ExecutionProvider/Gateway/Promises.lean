import ExecutionProvider.Gateway.Validity

/-!
# Promises and frames

What a session may send, or settle for an answer of its host, goes back to a promise: the step
before has dispatched the job, surveyed it, committed its outcome or read that its receipt is
missing. This module reads off the effects of a step where the sessions after it come from, what
the frames are that it sends, and what the outcomes are that it gives.

## Main definitions

* `Session.Origin`: where a session after a step comes from.
* `Session.Speaks`: the frames that a session sends.
* `Settlement.Origin`: where an outcome comes from.

## Main results

* `Effect.session_origin`, `Effect.speaks`, `Effect.settlement_origin`: every session, frame and
  outcome has one of these origins.
* `Effect.sent_unique`: a step that sends a frame does nothing else that is seen.
-/

namespace ExecutionProvider.Gateway

open Protocol

variable {π : Type}

/-! ### Jobs that were dispatched to a host -/

/-- A job of a machine that was dispatched to the host of some generation. -/
def Database.DispatchedTo (db : Database) (id machine generation : Uuid) : Prop :=
  ∃ job, db.jobs.lookup id = some job ∧ job.status ≠ .queued ∧ job.machineId = machine ∧
    job.runtimeGenerationId = some generation

/-- A job that has ended. -/
def Database.Ended (db : Database) (id : Uuid) : Prop :=
  ∃ job, db.jobs.lookup id = some job ∧ job.status.isFinal = true

/-! ### Origins -/

/-- Where the session of a machine after a step comes from. -/
inductive Session.Origin (g g' : AppState π) (a : Action) (es : List (Event π)) (machine : Uuid)
    (s' : Session π) : Prop
  | kept {s : Session π} (hs : g.live.lookup machine = some s) (hw : s'.Within s)
  | opened {connection : Uuid} {hello : Hello} {h : Handshake} (ha : a = .hello connection hello)
      (hh : g.handshakes.lookup connection = some h) (hmachine : h.machine = machine)
      (hgone : connection ∉ g'.handshakes) (hes : es = [])
      (hs' : s' = .init connection h.version hello)
  | surveyed {s : Session π} (hs : g.live.lookup machine = some s) (hphase : s.phase = .checked)
      (hs' : s' = s.go (.reconnecting (reconnectRows g.clock g.database machine) []))
  | dispatched {s : Session π} {id : Uuid} {job : Job} {request : Request π}
      (hs : g.live.lookup machine = some s) (hphase : s.phase = .serving [])
      (hjob : g.database.jobs.lookup id = some job) (hstatus : job.status = .queued)
      (hmachine : job.machineId = machine) (hrequest : request.requestId = id.text)
      (hjob' : g'.database.jobs.lookup id =
        some (job.dispatch g.clock s.generation s.recovery)) (hes : es = [])
      (hs' : s' = s.go (.dispatched id request))
  | responded {s : Session π} {recovering : List Uuid} {id : Uuid}
      (hs : g.live.lookup machine = some s) (hphase : s.phase = .serving recovering)
      (hended : g'.database.Ended id) (hs' : s' = s.go (.responded recovering id))
  | missed {s : Session π} {recovering : List Uuid} {event id : Uuid} {text : String}
      (ha : a = .session machine (.read event (.missing text s.generation)))
      (hs : g.live.lookup machine = some s) (hphase : s.phase = .serving recovering)
      (hid : Uuid.parse text = some id)
      (hs' : s' = { s with pending := s.pending.erase id }.go (.missed recovering id))

/-- The frames that a session sends in a step that leads to another one. -/
inductive Session.Speaks (s s' : Session π) : GatewayMessage π → Prop
  | welcome : Speaks s s' (.welcome s.recovery)
  | disconnect (code : DisconnectCode) : Speaks s s' (.disconnect code)
  | request {id : Uuid} {r : Request π} (h : s.sending = some (id, r)) :
      Speaks s s' (.request r)
  | recover {id : Uuid} (h : id ∈ s.asking) : Speaks s s' (.recover id.text s.generation)
  | acknowledge {id : Uuid} (h : s.releasing = some id) :
      Speaks s s' (.acknowledge id.text s.generation)

/-- Where a frame comes from: a session has sent it, which then has nothing more to send, or a
connection was refused. -/
inductive FrameOrigin (g g' : AppState π) : Uuid → GatewayMessage π → Prop
  | session {machine : Uuid} {s s' : Session π} {frame : GatewayMessage π}
      (hs : g.live.lookup machine = some s) (hs' : g'.live.lookup machine = some s')
      (hw : s'.Within s) (hdone : s'.sending = none) (hfresh : s'.fresh = false)
      (hf : s.Speaks s' frame) : FrameOrigin g g' s.id frame
  | refused {connection : Uuid} (hc : connection ∈ g.handshakes)
      (hgone : connection ∉ g'.handshakes) :
      FrameOrigin g g' connection (.disconnect .incompatibleProtocol)

/-- Where the outcome of a job comes from: it owes nothing to an answer, it is the response that
the host has sent, or the receipt is missing. -/
inductive Settlement.Origin (g : AppState π) (a : Action) (σ : Settlement) : Prop
  | plain (h : σ.Plain g.database)
  | answer {machine event id : Uuid} {s : Session π} {r : Response} {job : Job}
      (ha : a = .session machine (.read event (.response r)))
      (hs : g.live.lookup machine = some s) (hid : r.requestId.bind Uuid.parse = some id)
      (hjob : g.database.jobs.lookup id = some job) (hstatus : job.status ≠ .queued)
      (hgeneration : job.runtimeGenerationId = some s.generation) (hσ : σ.job = id)
      (hresponse : σ.response = some (storedResponse r)) (herror : σ.error = none)
  | lost {machine : Uuid} {s : Session π} (hs : g.live.lookup machine = some s)
      (hmissing : s.missing = some σ.job) (hstatus : σ.status = .unknown)
      (hresponse : σ.response = none)

section

variable {p : Platform π} {g g' : AppState π} {a : Action} {es : List (Event π)}

theorem Database.DispatchedTo.dispatched {db : Database} {id machine generation : Uuid}
    (h : db.DispatchedTo id machine generation) : db.Dispatched id := by
  obtain ⟨job, hjob, hne, -⟩ := h
  exact ⟨job, hjob, hne⟩

/-- A job is dispatched to one host, for one machine. -/
theorem Database.DispatchedTo.unique {db : Database} {id machine machine' generation generation' :
    Uuid} (h : db.DispatchedTo id machine generation)
    (h' : db.DispatchedTo id machine' generation') :
    machine = machine' ∧ generation = generation' := by
  obtain ⟨job, hjob, -, hm, hg⟩ := h
  obtain ⟨job', hjob', -, hm', hg'⟩ := h'
  rw [hjob] at hjob'
  obtain rfl := Option.some.inj hjob'
  exact ⟨hm.symm.trans hm', Option.some.inj (hg.symm.trans hg')⟩

theorem Database.Ended.dispatched {db : Database} {id : Uuid} (h : db.Ended id) :
    db.Dispatched id := by
  obtain ⟨job, hjob, hfinal⟩ := h
  refine ⟨job, hjob, ?_⟩
  rintro hqueued
  rw [hqueued] at hfinal
  cases hfinal

theorem Database.Ended.change {db db' : Database} {σs : List Settlement} {id : Uuid}
    (h : db.Ended id) (hc : Change p db db' σs) : db'.Ended id := by
  obtain ⟨job, hjob, hfinal⟩ := h
  obtain ⟨job', hjob', hstatus, -⟩ := hc.ended hjob hfinal
  exact ⟨job', hjob', hstatus ▸ hfinal⟩

/-- A job that was dispatched stays with its host. -/
theorem Database.DispatchedTo.change {db db' : Database} {σs : List Settlement}
    {id machine generation : Uuid} (h : db.DispatchedTo id machine generation)
    (hc : Change p db db' σs) : db'.DispatchedTo id machine generation := by
  obtain ⟨job, hjob, hne, hm, hg⟩ := h
  obtain ⟨job', hjob', hne'⟩ := hc.dispatched ⟨job, hjob, hne⟩
  have hsame : job'.machineId = job.machineId ∧
      job'.runtimeGenerationId = job.runtimeGenerationId := by
    cases hc with
    | keep hj =>
      rw [hj, hjob] at hjob'
      obtain rfl := Option.some.inj hjob'
      exact ⟨rfl, rfl⟩
    | @submit k _ hk _ _ _ _ _ hj =>
      have hdiff : id ≠ k := fun heq => hk (heq ▸ Table.mem_of_lookup hjob)
      rw [hj, AList.lookup_insert_ne hdiff, hjob] at hjob'
      obtain rfl := Option.some.inj hjob'
      exact ⟨rfl, rfl⟩
    | @dispatch k job₁ _ _ _ hjob₁ hstatus hj =>
      have hdiff : id ≠ k := by
        rintro rfl
        rw [hjob] at hjob₁
        exact hne (Option.some.inj hjob₁ ▸ hstatus)
      rw [hj, Table.lookup_modify_of_ne hdiff, hjob] at hjob'
      obtain rfl := Option.some.inj hjob'
      exact ⟨rfl, rfl⟩
    | progress hf hj =>
      rw [hj, Table.lookup_mapRows, hjob] at hjob'
      obtain rfl := Option.some.inj hjob'
      exact ⟨(hf id job).machineId, (hf id job).runtimeGenerationId⟩
    | @settle event job₁ user σ _ _ _ _ _ hj =>
      rcases eq_or_ne id σ.job with rfl | hdiff
      · rw [hj, Table.lookup_modify, hjob] at hjob'
        obtain rfl := Option.some.inj hjob'
        exact ⟨rfl, rfl⟩
      · rw [hj, Table.lookup_modify_of_ne hdiff, hjob] at hjob'
        obtain rfl := Option.some.inj hjob'
        exact ⟨rfl, rfl⟩
  exact ⟨job', hjob', hne', hsame.1.trans hm, hsame.2.trans hg⟩

theorem ended_of_finishTx {now : ℕ} {event id : Uuid} {db : Database} {status : FinalStatus}
    {response error : Option Json} {c : Committed Unit} {job : Job}
    (h : finishTx p now event db id status response error = .ok c)
    (hjob : db.jobs.lookup id = some job) : c.database.Ended id := by
  rcases finishTx_cases h with ⟨hdb, -, hfinal⟩ | ⟨job₁, user, -, -, -, -, hj, -⟩
  · exact ⟨job, hdb ▸ hjob, hfinal job hjob⟩
  · exact ⟨_, by rw [hj, Table.lookup_modify, hjob]; rfl, rfl⟩

/-- After a response its job has ended. -/
theorem ended_of_response {now : ℕ} {event machine generation id : Uuid} {db : Database}
    {r : Response} {c : Committed Unit}
    (h : response p now event db machine generation id r = .ok c) : c.database.Ended id := by
  obtain ⟨job, hjob, -, -, -, ⟨-, h⟩ | ⟨-, h⟩⟩ := response_cases h
  · exact ended_of_finishTx h hjob
  · exact ended_of_finishTx h hjob

theorem Effect.session_origin {machine : Uuid} {s' : Session π} (h : Effect p g g' a es)
    (hs' : g'.live.lookup machine = some s') : s'.Origin g g' a es machine := by
  cases h with
  | plain _ _ _ hl =>
    obtain ⟨s, hs, hw⟩ := hl machine s' hs'
    exact .kept hs hw
  | upgrade _ _ _ hl => exact .kept (hl ▸ hs') (.refl s')
  | refuse _ _ hl => exact .kept (hl ▸ hs') (.refl s')
  | @«open» connection hello h hc hslot hdb hl hh =>
    rw [hl] at hs'
    rcases eq_or_ne machine h.machine with rfl | hne
    · rw [AList.lookup_insert] at hs'
      have hgone : connection ∉ g'.handshakes := by
        rw [hh, AList.mem_erase]
        exact fun hmem => hmem.1 rfl
      exact .opened rfl hc rfl hgone rfl (Option.some.inj hs').symm
    · rw [AList.lookup_insert_ne hne] at hs'
      exact .kept hs' (.refl s')
  | @turn k b s t hs ht hdb hl hh =>
    rw [hl] at hs'
    rcases eq_or_ne machine k with rfl | hne
    · rw [AList.lookup_insert] at hs'
      obtain rfl := Option.some.inj hs'
      cases ht with
      | plain _ _ _ hw => exact .kept hs hw
      | greet _ hw => exact .kept hs hw
      | survey _ hphase _ hs' => exact .surveyed hs hphase hs'
      | dispatch hphase hjob hstatus hmachine hrequest hdb' hs' he =>
        exact .dispatched hs hphase hjob hstatus hmachine hrequest
          (by rw [hdb, hdb', Table.lookup_modify, hjob]; rfl) he hs'
      | request _ _ hw => exact .kept hs hw
      | recover _ _ hw => exact .kept hs hw
      | answer hphase _ _ hc hdb' hs' =>
        exact .responded hs hphase (by rw [hdb, hdb']; exact ended_of_response hc) hs'
      | acknowledge _ _ hw => exact .kept hs hw
      | miss hphase hid _ _ hs' => exact .missed rfl hs hphase hid hs'
      | lose _ _ _ hw => exact .kept hs hw
    · rw [AList.lookup_insert_ne hne] at hs'
      exact .kept hs' (.refl s')

/-- A connection is in its handshake because it was so before, or has just been accepted. -/
theorem Effect.handshake_origin {connection : Uuid} (h : Effect p g g' a es)
    (hc : connection ∈ g'.handshakes) :
    connection ∈ g.handshakes ∨
      ∃ machine credential, a = .upgrade connection machine credential := by
  cases h with
  | plain _ _ _ _ hh =>
    obtain ⟨x, hx⟩ := Option.isSome_iff_exists.mp (AList.lookup_isSome.mpr hc)
    exact Or.inl (Table.mem_of_lookup (hh connection x hx))
  | upgrade _ _ _ _ hh =>
    rw [hh] at hc
    exact ((AList.mem_insert _).mp hc).elim (fun heq => Or.inr ⟨_, _, by rw [heq]⟩) Or.inl
  | refuse _ _ _ hh =>
    rw [hh] at hc
    exact Or.inl (AList.mem_erase.mp hc).2
  | «open» _ _ _ _ hh =>
    rw [hh] at hc
    exact Or.inl (AList.mem_erase.mp hc).2
  | turn _ _ _ _ hh => exact Or.inl (hh ▸ hc)

/-- Settlements are not frames. -/
theorem not_sent_mem_settledEvents {σs : List Settlement} {connection : Uuid}
    {frame : GatewayMessage π} : .sent connection frame ∉ settledEvents σs := by
  intro h
  obtain ⟨σ, -, hσ⟩ := List.mem_map.mp h
  cases hσ

theorem settled_mem_settledEvents {σs : List Settlement} {σ : Settlement}
    (h : .settled σ ∈ (settledEvents σs : List (Event π))) : σ ∈ σs := by
  obtain ⟨σ', hσ', heq⟩ := List.mem_map.mp h
  cases heq
  exact hσ'

/-- A step sends a frame that goes back to a promise, and does nothing else that is seen. -/
theorem Effect.speaks {connection : Uuid} {frame : GatewayMessage π} (h : Effect p g g' a es)
    (he : .sent connection frame ∈ es) :
    FrameOrigin g g' connection frame ∧ es = [.sent connection frame] := by
  cases h with
  | plain => exact absurd he not_sent_mem_settledEvents
  | upgrade => cases he
  | @refuse k hello hc hdb hl hh =>
    cases List.mem_singleton.mp he
    refine ⟨.refused hc ?_, rfl⟩
    rw [hh, AList.mem_erase]
    exact fun hmem => hmem.1 rfl
  | «open» => cases he
  | @turn k b s t hs ht hdb hl hh =>
    have hs' : g'.live.lookup k = some t.session := by rw [hl, AList.lookup_insert]
    cases ht with
    | plain _ _ _ _ he' =>
      rw [he'] at he
      exact absurd he not_sent_mem_settledEvents
    | greet _ hw hdone hfresh hf he' =>
      rw [he'] at he ⊢
      cases List.mem_singleton.mp he
      refine ⟨.session hs hs' hw hdone hfresh ?_, rfl⟩
      rcases hf with rfl | ⟨code, rfl⟩
      · exact .welcome
      · exact .disconnect code
    | survey _ _ _ _ he' =>
      rw [he'] at he
      cases he
    | dispatch _ _ _ _ _ _ _ he' =>
      rw [he'] at he
      cases he
    | request _ hsending hw hdone hfresh he' =>
      rw [he'] at he ⊢
      cases List.mem_singleton.mp he
      exact ⟨.session hs hs' hw hdone hfresh (.request hsending), rfl⟩
    | recover _ hid hw hdone hfresh he' =>
      rw [he'] at he ⊢
      cases List.mem_singleton.mp he
      exact ⟨.session hs hs' hw hdone hfresh (.recover hid), rfl⟩
    | answer _ _ _ _ _ _ he' =>
      rw [he'] at he
      exact absurd he not_sent_mem_settledEvents
    | acknowledge _ hid hw hdone hfresh he' =>
      rw [he'] at he ⊢
      cases List.mem_singleton.mp he
      exact ⟨.session hs hs' hw hdone hfresh (.acknowledge hid), rfl⟩
    | miss _ _ _ _ _ he' =>
      rw [he'] at he
      cases he
    | lose _ _ _ _ he' =>
      rw [he'] at he
      exact absurd he not_sent_mem_settledEvents

/-- A job that a step settles has ended after it. -/
theorem Effect.ended_of_settled {σ : Settlement} (h : Effect p g g' a es)
    (he : .settled σ ∈ es) : g'.database.Ended σ.job := by
  obtain ⟨σs, hc, hes⟩ := h.change
  have hσ : σ ∈ σs := by
    have hfilter : σ ∈ settlementsOf σ.job es :=
      List.mem_filterMap.mpr ⟨_, he, by simp [Event.settlementOf]⟩
    rw [hes, List.mem_filter] at hfilter
    exact hfilter.1
  cases hc with
  | @settle event job owner σ' hjob _ _ _ _ hj =>
    obtain rfl := List.mem_singleton.mp hσ
    exact ⟨_, by rw [hj, Table.lookup_modify, hjob]; rfl, rfl⟩
  | keep | submit | dispatch | progress => cases hσ

/-- A job that a step settles had not ended before it. -/
theorem Effect.not_ended_of_settled {σ : Settlement} (h : Effect p g g' a es)
    (he : .settled σ ∈ es) : ¬g.database.Ended σ.job := by
  obtain ⟨σs, hc, hes⟩ := h.change
  have hσ : σ ∈ σs := by
    have hfilter : σ ∈ settlementsOf σ.job es :=
      List.mem_filterMap.mpr ⟨_, he, by simp [Event.settlementOf]⟩
    rw [hes, List.mem_filter] at hfilter
    exact hfilter.1
  cases hc with
  | @settle event job owner σ' hjob hopen =>
    obtain rfl := List.mem_singleton.mp hσ
    rintro ⟨job', hjob', hfinal⟩
    rw [hjob] at hjob'
    obtain rfl := Option.some.inj hjob'
    rw [hopen] at hfinal
    cases hfinal
  | keep | submit | dispatch | progress => cases hσ

/-- Every outcome has one of the origins. -/
theorem Effect.settlement_origin {σ : Settlement} (h : Effect p g g' a es)
    (he : .settled σ ∈ es) : σ.Origin g a := by
  cases h with
  | plain _ _ hσ => exact .plain (hσ σ (settled_mem_settledEvents he))
  | upgrade => cases he
  | refuse => cases List.mem_singleton.mp he
  | «open» => cases he
  | @turn k b s t hs ht hdb hl hh =>
    cases ht with
    | plain _ _ hσ _ he' =>
      rw [he'] at he
      exact .plain (hσ σ (settled_mem_settledEvents he))
    | greet _ _ _ _ _ he' =>
      rw [he'] at he
      cases List.mem_singleton.mp he
    | survey _ _ _ _ he' =>
      rw [he'] at he
      cases he
    | dispatch _ _ _ _ _ _ _ he' =>
      rw [he'] at he
      cases he
    | request _ _ _ _ _ he' =>
      rw [he'] at he
      cases List.mem_singleton.mp he
    | recover _ _ _ _ _ he' =>
      rw [he'] at he
      cases List.mem_singleton.mp he
    | answer _ hid _ hc _ _ he' =>
      rw [he'] at he
      obtain ⟨job, hjob, -, hgeneration, hstatus, ⟨-, h⟩ | ⟨-, h⟩⟩ := response_cases hc
      · exact .plain (plain_of_finish h (by decide) σ (settled_mem_settledEvents he))
      · obtain ⟨hσ, -, hresponse, herror⟩ := settled_of_finishTx h (settled_mem_settledEvents he)
        exact .answer rfl hs hid hjob hstatus hgeneration hσ hresponse herror
    | acknowledge _ _ _ _ _ he' =>
      rw [he'] at he
      cases List.mem_singleton.mp he
    | miss _ _ _ _ _ he' =>
      rw [he'] at he
      cases he
    | lose hid hc _ _ he' =>
      rw [he'] at he
      obtain ⟨hσ, hstatus, hresponse, -⟩ :=
        settled_of_finishTx hc (settled_mem_settledEvents he)
      exact .lost hs (hσ ▸ hid) hstatus hresponse

end

end ExecutionProvider.Gateway
