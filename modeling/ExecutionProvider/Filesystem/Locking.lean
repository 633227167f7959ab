import ExecutionProvider.Filesystem.Mutations

/-!
# What the lock of the receipts guards

As long as no future is dropped while its work is under way, the call whose work is under way is
the one that holds the lock. Its identifier has no receipt, and there is room for one. Every other
work has come to its end.

## Main definitions

* `Mutations.Sound`: what holds of the calls, the works and the receipts.

## Main results

* `MutationEnv.returns_of_prepare`: a work comes to an outcome of its own kind.
* `Mutations.Sound.of_run`: it holds as long as no future is dropped while its work is under way.
-/

namespace ExecutionProvider.Filesystem

/-- Whether a receipt is recorded. -/
def MutationEvent.isRecorded : MutationEvent → Bool
  | recorded _ _ _ => true
  | _ => false

/-- Whether a call returns, before the lock or behind it. -/
def MutationEvent.isReturn : MutationEvent → Bool
  | returned _ _ _ | refused _ _ _ => true
  | _ => false

/-- Whether a call waits for the lock. -/
def MutationPhase.isWaiting : MutationPhase → Bool
  | waiting _ => true
  | _ => false

/-- What holds of the calls, the works and the receipts after the given events. -/
structure Mutations.Sound (env : MutationEnv) (log : List MutationEvent) (m : Mutations) :
    Prop where
  waiting : ∀ {k request p}, m.calls.lookup k = some ⟨request, .waiting p⟩ →
    env.prepare request = .ok p
  working : ∀ {k request fingerprint}, m.calls.lookup k = some ⟨request, .working fingerprint⟩ →
    m.holder = some k ∧ (∃ p, env.prepare request = .ok p ∧ p.fingerprint = fingerprint) ∧
      m.entries.lookup request.mutationId = none ∧
      m.entries.entries.length < env.maxFileMutationReceipts
  works : ∀ {k w}, m.works.lookup k = some w → w.rest.Returns (·.matches w.request = true) ∧
    ((∃ fingerprint, m.calls.lookup k = some ⟨w.request, .working fingerprint⟩) ∨
      m.calls.lookup k = some ⟨w.request, .ended⟩ ∧ w.rest.pending = none)
  performed : ∀ {k request c}, .performed k request c ∈ log →
    (∃ fingerprint, m.calls.lookup k = some ⟨request, .working fingerprint⟩) ∨
      ∃ outcome, .recorded k request outcome ∈ log
  recorded : ∀ {k request outcome}, .recorded k request outcome ∈ log →
    m.calls.lookup k = some ⟨request, .ended⟩ ∧ outcome.matches request = true ∧
      ∃ p, env.prepare request = .ok p ∧
        m.entries.lookup request.mutationId = some (p.fingerprint, outcome)
  unique : ∀ {k k' request request' outcome outcome'}, .recorded k request outcome ∈ log →
    .recorded k' request' outcome' ∈ log → request.mutationId = request'.mutationId → k = k'
  entries : ∀ {id stored}, m.entries.lookup id = some stored →
    ∃ k request, .recorded k request stored.2 ∈ log ∧ request.mutationId = id
  returned : ∀ {k request reply}, .returned k request reply ∈ log →
    m.calls.lookup k = some ⟨request, .ended⟩
  refused : ∀ {k request e}, .refused k request e ∈ log → m.calls.lookup k = some ⟨request, .ended⟩
  count : (log.filter MutationEvent.isRecorded).length = m.entries.entries.length
  bounded : m.entries.entries.length ≤ env.maxFileMutationReceipts

/-! ### The calls up to the lock -/

section Prepare

variable {env : MutationEnv}

theorem MutationEnv.writeFile_eq_ok {request : WriteFileRequest} {p : Prepared}
    (h : env.writeFile request = .ok p) :
    ∃ path, env.resolveFilePath request.cwd request.path = .ok path ∧
      p.fingerprint = .write (Path.components path) (env.sha256 request.data)
        request.createParentDirectories request.mode ∧ p.late = .ok () ∧
      p.work.Returns (·.matches (.write request) = true) := by
  unfold writeFile at h
  obtain ⟨-, -, h⟩ := Result.bind_eq_ok.mp h
  split_ifs at h
  · cases h
  · obtain ⟨-, -, h⟩ := Result.bind_eq_ok.mp h
    obtain ⟨path, hpath, heq⟩ := Result.bind_eq_ok.mp h
    obtain rfl := Except.ok.inj heq
    exact ⟨path, hpath, rfl, rfl, Program.returns_bind fun _ => rfl⟩

theorem MutationEnv.removeFile_eq_ok {request : RemoveFileRequest} {p : Prepared}
    (h : env.removeFile request = .ok p) :
    ∃ path, env.resolveFilePath request.cwd request.path = .ok path ∧
      p.fingerprint = .remove (Path.components path) request.precondition ∧ p.late = .ok () ∧
      p.work.Returns (·.matches (.remove request) = true) := by
  unfold removeFile at h
  obtain ⟨-, -, h⟩ := Result.bind_eq_ok.mp h
  obtain ⟨-, -, h⟩ := Result.bind_eq_ok.mp h
  obtain ⟨path, hpath, heq⟩ := Result.bind_eq_ok.mp h
  obtain rfl := Except.ok.inj heq
  exact ⟨path, hpath, rfl, rfl, Program.returns_bind fun _ => rfl⟩

theorem MutationEnv.applyPatch_eq_ok {request : ApplyPatchRequest} {p : Prepared}
    (h : env.applyPatch request = .ok p) :
    p.fingerprint = .patch (env.sha256 (textBytes (encodedPatch request))) ∧
      (∀ e, p.late = .error e → e.code = .resourceLimit) ∧
      p.work.Returns (·.matches (.patch request) = true) := by
  unfold applyPatch at h
  obtain ⟨-, -, h⟩ := Result.bind_eq_ok.mp h
  split_ifs at h
  · cases h
  · obtain ⟨cwd, -, heq⟩ := Result.bind_eq_ok.mp h
    obtain rfl := Except.ok.inj heq
    refine ⟨rfl, fun e he => ?_, Program.returns_bind fun _ => rfl⟩
    dsimp only at he
    split_ifs at he
    obtain rfl := Except.error.inj he
    rfl

/-- A work comes to an outcome of the kind of its request. -/
theorem MutationEnv.returns_of_prepare {request : MutationRequest} {p : Prepared}
    (h : env.prepare request = .ok p) : p.work.Returns (·.matches request = true) := by
  cases request with
  | write request =>
    obtain ⟨-, -, -, -, hreturns⟩ := writeFile_eq_ok h
    exact hreturns
  | remove request =>
    obtain ⟨-, -, -, -, hreturns⟩ := removeFile_eq_ok h
    exact hreturns
  | patch request => exact (applyPatch_eq_ok h).2.2

/-- A call that has its work done found no receipt, and room for one. -/
theorem Prepared.enter_eq_ok {p : Prepared} {request : MutationRequest} {entries : Receipts}
    {maximum : ℕ} {work : FileWork MutationOutcome}
    (h : p.enter request entries maximum = .ok work) :
    entries.lookup request.mutationId = none ∧ entries.entries.length < maximum ∧
      work = p.work := by
  unfold Prepared.enter at h
  split at h
  · cases h
  · next hnone =>
    split at h
    · cases h
    · cases h
    · next hcapacity =>
      refine ⟨hnone, ?_, (Except.ok.inj h).symm⟩
      unfold ensureReceiptCapacity at hcapacity
      split_ifs at hcapacity with hfull
      exact Nat.lt_of_not_le hfull

/-- The check of a patch behind the lookup is one of its size. -/
theorem MutationEnv.code_of_late {request : MutationRequest} {p : Prepared} {e : Error}
    (h : env.prepare request = .ok p) (he : p.late = .error e) : e.code = .resourceLimit := by
  cases request with
  | write request =>
    obtain ⟨-, -, -, hlate, -⟩ := writeFile_eq_ok h
    cases hlate.symm.trans he
  | remove request =>
    obtain ⟨-, -, -, hlate, -⟩ := removeFile_eq_ok h
    cases hlate.symm.trans he
  | patch request => exact (applyPatch_eq_ok h).2.1 e he

end Prepare

/-! ### The steps -/

namespace Mutations.Sound

variable {env : MutationEnv} {log es : List MutationEvent} {m m' : Mutations} {k : ℕ}
  {request : MutationRequest}

theorem init : Sound env [] Mutations.init where
  waiting h := nomatch h
  working h := nomatch h
  works h := nomatch h
  performed h := nomatch h
  recorded h := nomatch h
  unique h := nomatch h
  entries h := nomatch h
  returned h := nomatch h
  refused h := nomatch h
  count := rfl
  bounded := Nat.zero_le _

/-- A call without work that is made, or comes to an end. -/
theorem of_call {phase : MutationPhase} (h : m.Sound env log)
    (hcall : k ∉ m.calls ∨ ∃ p, m.calls.lookup k = some ⟨request, .waiting p⟩)
    (hphase : phase = .ended ∨ ∃ p, phase = .waiting p ∧ env.prepare request = .ok p)
    (hes : ∀ e ∈ es, phase = .ended ∧ ((∃ reply, e = .returned k request reply) ∨
      ∃ error, e = .refused k request error)) :
    Sound env (log ++ es) { m with calls := m.calls.insert k ⟨request, phase⟩ } := by
  have hother {k' : ℕ} {request' : MutationRequest} {phase' : MutationPhase}
      (hlookup : m.calls.lookup k' = some ⟨request', phase'⟩) (hnot : phase'.isWaiting = false) :
      (m.calls.insert k ⟨request, phase⟩).lookup k' = some ⟨request', phase'⟩ := by
    rw [AList.lookup_insert_ne, hlookup]
    rintro rfl
    rcases hcall with hnew | ⟨p, hwaiting⟩
    · exact hnew (Table.mem_of_lookup hlookup)
    · obtain ⟨-, rfl⟩ := MutationCall.mk.inj (Option.some.inj (hlookup.symm.trans hwaiting))
      cases hnot
  have hworking {k' : ℕ} {request' : MutationRequest} {fingerprint : MutationFingerprint}
      (hlookup : (m.calls.insert k ⟨request, phase⟩).lookup k' =
        some ⟨request', .working fingerprint⟩) :
      m.calls.lookup k' = some ⟨request', .working fingerprint⟩ := by
    rcases Table.lookup_insert_eq_some.mp hlookup with ⟨-, heq⟩ | ⟨-, hold⟩
    · obtain ⟨-, rfl⟩ := MutationCall.mk.inj heq
      rcases hphase with hphase | ⟨p, hphase, -⟩ <;> cases hphase
    · exact hold
  have hnone {e : MutationEvent} (he : e ∈ log ++ es) (hreturn : e.isReturn = false) :
      e ∈ log := by
    rcases List.mem_append.mp he with hold | hnew
    · exact hold
    · rcases (hes e hnew).2 with ⟨reply, rfl⟩ | ⟨error, rfl⟩ <;> cases hreturn
  refine ⟨fun hlookup => ?_, fun hlookup => h.working (hworking hlookup), fun hlookup => ?_,
    fun he => ?_, fun he => ?_, fun he he' => ?_, fun hlookup => ?_, fun he => ?_, fun he => ?_, ?_,
    h.bounded⟩
  · rcases Table.lookup_insert_eq_some.mp hlookup with ⟨-, heq⟩ | ⟨-, hold⟩
    · obtain ⟨rfl, rfl⟩ := MutationCall.mk.inj heq
      rcases hphase with hphase | ⟨p, hphase, hprepare⟩
      · cases hphase
      · rwa [MutationPhase.waiting.inj hphase]
    · exact h.waiting hold
  · obtain ⟨hreturns, ⟨fingerprint, hw⟩ | ⟨hended, hpending⟩⟩ := h.works hlookup
    · exact ⟨hreturns, Or.inl ⟨fingerprint, hother hw rfl⟩⟩
    · exact ⟨hreturns, Or.inr ⟨hother hended rfl, hpending⟩⟩
  · rcases h.performed (hnone he rfl) with ⟨fingerprint, hw⟩ | ⟨outcome, hrecorded⟩
    · exact Or.inl ⟨fingerprint, hother hw rfl⟩
    · exact Or.inr ⟨outcome, List.mem_append_left _ hrecorded⟩
  · obtain ⟨hended, hrest⟩ := h.recorded (hnone he rfl)
    exact ⟨hother hended rfl, hrest⟩
  · exact h.unique (hnone he rfl) (hnone he' rfl)
  · obtain ⟨k', request', hrecorded, hid⟩ := h.entries hlookup
    exact ⟨k', request', List.mem_append_left _ hrecorded, hid⟩
  · rcases List.mem_append.mp he with hold | hnew
    · exact hother (h.returned hold) rfl
    · obtain ⟨rfl, ⟨reply, heq⟩ | ⟨error, heq⟩⟩ := hes _ hnew
      · obtain ⟨rfl, rfl, -⟩ := MutationEvent.returned.inj heq
        exact AList.lookup_insert _
      · cases heq
  · rcases List.mem_append.mp he with hold | hnew
    · exact hother (h.refused hold) rfl
    · obtain ⟨rfl, ⟨reply, heq⟩ | ⟨error, heq⟩⟩ := hes _ hnew
      · cases heq
      · obtain ⟨rfl, rfl, -⟩ := MutationEvent.refused.inj heq
        exact AList.lookup_insert _
  · have hfilter : es.filter MutationEvent.isRecorded = [] := by
      refine List.filter_eq_nil_iff.mpr fun e he => ?_
      rcases (hes e he).2 with ⟨reply, rfl⟩ | ⟨error, rfl⟩ <;> exact Bool.false_ne_true
    rw [List.filter_append, hfilter, List.append_nil, h.count]

theorem call (h : m.Sound env log) (hs : m.call env k request = some (m', es)) :
    Sound env (log ++ es) m' := by
  unfold Mutations.call at hs
  split_ifs at hs with hnew
  · obtain ⟨rfl, rfl⟩ := Prod.mk.inj (Option.some.inj hs)
    exact h.of_call (Or.inl hnew) (Or.inl rfl) fun e he =>
      ⟨rfl, Or.inr ⟨_, List.mem_singleton.mp he⟩⟩
  · split at hs
    · obtain ⟨rfl, rfl⟩ := Prod.mk.inj (Option.some.inj hs)
      exact h.of_call (Or.inl hnew) (Or.inl rfl) fun e he =>
        ⟨rfl, Or.inr ⟨_, List.mem_singleton.mp he⟩⟩
    · next p hprepare =>
      obtain ⟨rfl, rfl⟩ := Prod.mk.inj (Option.some.inj hs)
      exact h.of_call (Or.inl hnew) (Or.inr ⟨p, rfl, hprepare⟩) fun e he =>
        absurd he List.not_mem_nil

/-- No call has its work under way while nobody holds the lock. -/
theorem not_working (h : m.Sound env log) (hfree : m.holder = none) {k : ℕ}
    {fingerprint : MutationFingerprint} :
    m.calls.lookup k ≠ some ⟨request, .working fingerprint⟩ := by
  intro hlookup
  rw [(h.working hlookup).1] at hfree
  cases hfree

theorem lock (h : m.Sound env log) (hs : m.lock env k = some (m', es)) :
    Sound env (log ++ es) m' := by
  unfold Mutations.lock at hs
  split at hs
  · next request prepared hcall hfree =>
    split at hs
    · obtain ⟨rfl, rfl⟩ := Prod.mk.inj (Option.some.inj hs)
      exact h.of_call (Or.inr ⟨_, hcall⟩) (Or.inl rfl) fun e he =>
        ⟨rfl, Or.inl ⟨_, List.mem_singleton.mp he⟩⟩
    · next work henter =>
      obtain ⟨rfl, rfl⟩ := Prod.mk.inj (Option.some.inj hs)
      obtain ⟨hnone, hroom, rfl⟩ := Prepared.enter_eq_ok henter
      have hprepare := h.waiting hcall
      have hother {k' : ℕ} {request' : MutationRequest} {phase' : MutationPhase}
          (hlookup : m.calls.lookup k' = some ⟨request', phase'⟩)
          (hnot : phase'.isWaiting = false) :
          (m.calls.insert k ⟨request, .working prepared.fingerprint⟩).lookup k' =
            some ⟨request', phase'⟩ := by
        rw [AList.lookup_insert_ne, hlookup]
        rintro rfl
        obtain ⟨-, rfl⟩ := MutationCall.mk.inj (Option.some.inj (hlookup.symm.trans hcall))
        cases hnot
      rw [List.append_nil]
      refine ⟨fun hlookup => ?_, fun hlookup => ?_, fun hlookup => ?_, fun he => ?_,
        fun he => ?_, h.unique, h.entries, fun he => hother (h.returned he) rfl,
        fun he => hother (h.refused he) rfl, h.count, h.bounded⟩
      · rcases Table.lookup_insert_eq_some.mp hlookup with ⟨-, heq⟩ | ⟨-, hold⟩
        · cases (MutationCall.mk.inj heq).2
        · exact h.waiting hold
      · rcases Table.lookup_insert_eq_some.mp hlookup with ⟨rfl, heq⟩ | ⟨-, hold⟩
        · obtain ⟨rfl, hphase⟩ := MutationCall.mk.inj heq
          exact ⟨rfl, ⟨prepared, hprepare, MutationPhase.working.inj hphase⟩, hnone, hroom⟩
        · exact absurd hold (h.not_working hfree)
      · rcases Table.lookup_insert_eq_some.mp hlookup with ⟨rfl, rfl⟩ | ⟨-, hold⟩
        · exact ⟨MutationEnv.returns_of_prepare hprepare, Or.inl ⟨_, AList.lookup_insert _⟩⟩
        · obtain ⟨hreturns, ⟨fingerprint, hw⟩ | ⟨hended, hpending⟩⟩ := h.works hold
          · exact absurd hw (h.not_working hfree)
          · exact ⟨hreturns, Or.inr ⟨hother hended rfl, hpending⟩⟩
      · rcases h.performed he with ⟨fingerprint, hw⟩ | hrecorded
        · exact absurd hw (h.not_working hfree)
        · exact Or.inr hrecorded
      · obtain ⟨hended, hrest⟩ := h.recorded he
        exact ⟨hother hended rfl, hrest⟩
  · cases hs

theorem work {answers : (c : SysCall) → c.Answer} (h : m.Sound env log)
    (hs : m.work k answers = some (m', es)) : Sound env (log ++ es) m' := by
  unfold Mutations.work at hs
  split at hs
  · cases hs
  · next w hw =>
    split at hs
    · cases hs
    · next c hpending =>
      obtain ⟨rfl, rfl⟩ := Prod.mk.inj (Option.some.inj hs)
      obtain ⟨hreturns, ⟨fingerprint, hworking⟩ | ⟨-, hnone⟩⟩ := h.works hw
      · have hold {e : MutationEvent} (he : e ∈ log ++ [.performed k w.request c])
            (hne : e ≠ .performed k w.request c) : e ∈ log :=
          (List.mem_append.mp he).resolve_right fun hnew => hne (List.mem_singleton.mp hnew)
        refine ⟨h.waiting, h.working, fun hlookup => ?_, fun he => ?_, fun he => ?_,
          fun he he' => ?_, fun hlookup => ?_, fun he => ?_, fun he => ?_, ?_, h.bounded⟩
        · rcases Table.lookup_insert_eq_some.mp hlookup with ⟨rfl, rfl⟩ | ⟨-, hlookup⟩
          · exact ⟨hreturns.answer answers, Or.inl ⟨fingerprint, hworking⟩⟩
          · exact h.works hlookup
        · rcases List.mem_append.mp he with he | he
          · rcases h.performed he with hw | ⟨outcome, hrecorded⟩
            · exact Or.inl hw
            · exact Or.inr ⟨outcome, List.mem_append_left _ hrecorded⟩
          · obtain ⟨rfl, rfl, -⟩ := MutationEvent.performed.inj (List.mem_singleton.mp he)
            exact Or.inl ⟨fingerprint, hworking⟩
        · exact h.recorded (hold he (by rintro ⟨⟩))
        · exact h.unique (hold he (by rintro ⟨⟩)) (hold he' (by rintro ⟨⟩))
        · obtain ⟨k', request', hrecorded, hid⟩ := h.entries hlookup
          exact ⟨k', request', List.mem_append_left _ hrecorded, hid⟩
        · exact h.returned (hold he (by rintro ⟨⟩))
        · exact h.refused (hold he (by rintro ⟨⟩))
        · rw [List.filter_append, List.length_append, h.count]
          rfl
      · rw [hnone] at hpending
        cases hpending

theorem resume (h : m.Sound env log) (hs : m.resume k = some (m', es)) :
    Sound env (log ++ es) m' := by
  unfold Mutations.resume at hs
  split at hs
  · next request fingerprint outcome hcall hresult =>
    obtain ⟨rfl, rfl⟩ := Prod.mk.inj (Option.some.inj hs)
    obtain ⟨w, hw, houtcome⟩ := Option.bind_eq_some_iff.mp hresult
    obtain ⟨hholder, ⟨p, hprepare, rfl⟩, hnone, hroom⟩ := h.working hcall
    have hrequest : w.request = request := by
      rcases (h.works hw).2 with ⟨fingerprint, hcall'⟩ | ⟨hcall', -⟩ <;>
      exact (MutationCall.mk.inj (Option.some.inj (hcall'.symm.trans hcall))).1
    have hmatches : outcome.matches request = true :=
      hrequest ▸ (h.works hw).1.of_result houtcome
    have hother {k' : ℕ} {request' : MutationRequest}
        (hlookup : m.calls.lookup k' = some ⟨request', .ended⟩) :
        (m.calls.insert k ⟨request, .ended⟩).lookup k' = some ⟨request', .ended⟩ := by
      rw [AList.lookup_insert_ne, hlookup]
      rintro rfl
      cases hlookup.symm.trans hcall
    have hworking {k' : ℕ} {request' : MutationRequest} {fingerprint : MutationFingerprint}
        (hlookup : m.calls.lookup k' = some ⟨request', .working fingerprint⟩) : k' = k :=
      Option.some.inj ((h.working hlookup).1.symm.trans hholder)
    have hreceipt {id : String} {stored : MutationFingerprint × MutationOutcome}
        (hlookup : m.entries.lookup id = some stored) :
        (m.entries.insert request.mutationId (p.fingerprint, outcome)).lookup id = some stored := by
      rw [AList.lookup_insert_ne, hlookup]
      rintro rfl
      rw [hnone] at hlookup
      cases hlookup
    have hfresh {k' : ℕ} {request' : MutationRequest} {outcome' : MutationOutcome}
        (hrecorded : .recorded k' request' outcome' ∈ log) :
        request'.mutationId ≠ request.mutationId := by
      intro hid
      obtain ⟨-, -, p', -, hlookup⟩ := h.recorded hrecorded
      rw [hid, hnone] at hlookup
      cases hlookup
    have hlength : (m.entries.insert request.mutationId (p.fingerprint, outcome)).entries.length =
        m.entries.entries.length + 1 := by
      rw [AList.entries_insert_of_notMem (AList.lookup_eq_none.mp hnone), List.length_cons]
    refine ⟨fun hlookup => ?_, fun hlookup => ?_, fun hlookup => ?_, fun he => ?_, fun he => ?_,
      fun he he' hid => ?_, fun hlookup => ?_, fun he => ?_, fun he => ?_, ?_, ?_⟩
    · rcases Table.lookup_insert_eq_some.mp hlookup with ⟨-, heq⟩ | ⟨-, hold⟩
      · cases (MutationCall.mk.inj heq).2
      · exact h.waiting hold
    · rcases Table.lookup_insert_eq_some.mp hlookup with ⟨-, heq⟩ | ⟨hne, hold⟩
      · cases (MutationCall.mk.inj heq).2
      · exact absurd (hworking hold) hne
    · obtain ⟨hreturns, ⟨fingerprint, hcall'⟩ | ⟨hended, hpending⟩⟩ := h.works hlookup
      · obtain rfl := hworking hcall'
        obtain rfl := Option.some.inj (hlookup.symm.trans hw)
        refine ⟨hreturns, Or.inr ⟨?_, Program.pending_eq_none_of_result houtcome⟩⟩
        rw [hrequest]
        exact AList.lookup_insert _
      · exact ⟨hreturns, Or.inr ⟨hother hended, hpending⟩⟩
    · rcases List.mem_append.mp he with he | he
      · rcases h.performed he with ⟨fingerprint, hcall'⟩ | ⟨outcome', hrecorded⟩
        · obtain rfl := hworking hcall'
          obtain ⟨rfl, -⟩ := MutationCall.mk.inj (Option.some.inj (hcall'.symm.trans hcall))
          exact Or.inr ⟨outcome, List.mem_append_right _ (List.mem_cons_self ..)⟩
        · exact Or.inr ⟨outcome', List.mem_append_left _ hrecorded⟩
      · rcases List.mem_pair.mp he with he | he <;> cases he
    · rcases List.mem_append.mp he with he | he
      · obtain ⟨hended, hmatches', p', hprepare', hlookup⟩ := h.recorded he
        exact ⟨hother hended, hmatches', p', hprepare', hreceipt hlookup⟩
      · rcases List.mem_pair.mp he with he | he
        · obtain ⟨rfl, rfl, rfl⟩ := MutationEvent.recorded.inj he
          exact ⟨AList.lookup_insert _, hmatches, p, hprepare, AList.lookup_insert _⟩
        · cases he
    · rcases List.mem_append.mp he with hold | hnew <;>
      rcases List.mem_append.mp he' with hold' | hnew'
      · exact h.unique hold hold' hid
      · rcases List.mem_pair.mp hnew' with heq | heq
        · obtain ⟨rfl, rfl, rfl⟩ := MutationEvent.recorded.inj heq
          exact absurd hid (hfresh hold)
        · cases heq
      · rcases List.mem_pair.mp hnew with heq | heq
        · obtain ⟨rfl, rfl, rfl⟩ := MutationEvent.recorded.inj heq
          exact absurd hid.symm (hfresh hold')
        · cases heq
      · rcases List.mem_pair.mp hnew with heq | heq <;>
        rcases List.mem_pair.mp hnew' with heq' | heq'
        · rw [(MutationEvent.recorded.inj heq).1, (MutationEvent.recorded.inj heq').1]
        · cases heq'
        · cases heq
        · cases heq
    · rcases Table.lookup_insert_eq_some.mp hlookup with ⟨rfl, rfl⟩ | ⟨-, hold⟩
      · exact ⟨k, request, List.mem_append_right _ (List.mem_cons_self ..), rfl⟩
      · obtain ⟨k', request', hrecorded, hid⟩ := h.entries hold
        exact ⟨k', request', List.mem_append_left _ hrecorded, hid⟩
    · rcases List.mem_append.mp he with he | he
      · exact hother (h.returned he)
      · rcases List.mem_pair.mp he with he | he
        · cases he
        · obtain ⟨rfl, rfl, -⟩ := MutationEvent.returned.inj he
          exact AList.lookup_insert _
    · rcases List.mem_append.mp he with he | he
      · exact hother (h.refused he)
      · rcases List.mem_pair.mp he with he | he <;> cases he
    · rw [List.filter_append, List.length_append, h.count, hlength]
      rfl
    · rw [hlength]
      exact hroom
  · cases hs

theorem shutdown (h : m.Sound env log) :
    Sound env (log ++ [.shutdown]) { m with available := false } := by
  have hold {e : MutationEvent} (he : e ∈ log ++ [.shutdown]) (hne : e ≠ .shutdown) : e ∈ log :=
    (List.mem_append.mp he).resolve_right fun hnew => hne (List.mem_singleton.mp hnew)
  refine ⟨h.waiting, h.working, h.works, fun he => ?_, fun he => ?_, fun he he' => ?_,
    fun hlookup => ?_, fun he => ?_, fun he => ?_, ?_, h.bounded⟩
  · rcases h.performed (hold he (by rintro ⟨⟩)) with hw | ⟨outcome, hrecorded⟩
    · exact Or.inl hw
    · exact Or.inr ⟨outcome, List.mem_append_left _ hrecorded⟩
  · exact h.recorded (hold he (by rintro ⟨⟩))
  · exact h.unique (hold he (by rintro ⟨⟩)) (hold he' (by rintro ⟨⟩))
  · obtain ⟨k', request', hrecorded, hid⟩ := h.entries hlookup
    exact ⟨k', request', List.mem_append_left _ hrecorded, hid⟩
  · exact h.returned (hold he (by rintro ⟨⟩))
  · exact h.refused (hold he (by rintro ⟨⟩))
  · rw [List.filter_append, List.length_append, h.count]
    rfl

/-- A future that is dropped while no work of it is under way. -/
theorem drop (h : m.Sound env log) (hs : m.drop k = some (m', es)) (hkept : .abandoned k ∉ es) :
    Sound env (log ++ es) m' := by
  unfold Mutations.drop at hs
  split at hs
  · next request p hcall =>
    obtain ⟨rfl, rfl⟩ := Prod.mk.inj (Option.some.inj hs)
    exact h.of_call (Or.inr ⟨p, hcall⟩) (Or.inl rfl) fun e he => absurd he List.not_mem_nil
  · obtain ⟨rfl, rfl⟩ := Prod.mk.inj (Option.some.inj hs)
    exact absurd (List.mem_singleton_self _) hkept
  · cases hs

theorem step {a : MutationAction} (h : m.Sound env log) (hs : m.step env a = some (m', es))
    (hkept : ∀ k, .abandoned k ∉ es) : Sound env (log ++ es) m' := by
  cases a with
  | call k request => exact h.call hs
  | lock k => exact h.lock hs
  | work k answers => exact h.work hs
  | resume k => exact h.resume hs
  | drop k => exact h.drop hs (hkept k)
  | shutdown =>
    obtain ⟨rfl, rfl⟩ := Prod.mk.inj (Option.some.inj hs)
    exact h.shutdown

/-- The calls, the works and the receipts agree as long as no future is dropped while its work is
under way. -/
theorem of_run (hrun : (mutationSystem env).Run log m) (hkept : ∀ k, .abandoned k ∉ log) :
    m.Sound env log := by
  refine hrun.invariant (I := fun log m => (∀ k, .abandoned k ∉ log) → m.Sound env log) ?_ ?_ hkept
  · rintro _ rfl -
    exact init
  · intro log m a m' es _ ih hs hkept
    exact (ih fun k hk => hkept k (List.mem_append_left _ hk)).step hs fun k hk =>
      hkept k (List.mem_append_right _ hk)

/-- All calls of the operating system that are made for an identifier are made by one work. -/
theorem once {k' : ℕ} {request' : MutationRequest} {c c' : SysCall} (h : m.Sound env log)
    (hperformed : .performed k request c ∈ log) (hperformed' : .performed k' request' c' ∈ log)
    (hid : request.mutationId = request'.mutationId) : k = k' := by
  rcases h.performed hperformed with ⟨fingerprint, hworking⟩ | ⟨outcome, hrecorded⟩ <;>
  rcases h.performed hperformed' with ⟨fingerprint', hworking'⟩ | ⟨outcome', hrecorded'⟩
  · exact Option.some.inj ((h.working hworking).1.symm.trans (h.working hworking').1)
  · obtain ⟨-, -, p, -, hreceipt⟩ := h.recorded hrecorded'
    rw [← hid, (h.working hworking).2.2.1] at hreceipt
    cases hreceipt
  · obtain ⟨-, -, p, -, hreceipt⟩ := h.recorded hrecorded
    rw [hid, (h.working hworking').2.2.1] at hreceipt
    cases hreceipt
  · exact h.unique hrecorded hrecorded' hid

end Mutations.Sound

end ExecutionProvider.Filesystem
