import ExecutionProvider.Filesystem.Serialization

/-!
# Mutations are idempotent

A receipt holds what tells its mutation apart from others with the same identifier: the path, the
hash of the content and the flags, or a digest of the whole patch. When no hash is the same for two
contents, that is the input.

## Main definitions

* `MutationEnv.SameInput`: two requests for the same mutation.
* `Idempotent`: what the receipts promise.

## Main results

* `MutationEnv.fingerprint_eq_iff`: fingerprints tell inputs apart.
* `mutations_idempotent`: what the receipts promise holds when no future is dropped while its work
  is under way.
-/

namespace ExecutionProvider.Filesystem

open Protocol

/-- Two requests for the same mutation: of the same kind, with the same resolved path and the same
arguments. A patch is compared as a whole. -/
def MutationEnv.SameInput (env : MutationEnv) : MutationRequest → MutationRequest → Prop
  | .write r, .write r' =>
    (env.resolveFilePath r.cwd r.path).map Path.components =
      (env.resolveFilePath r'.cwd r'.path).map Path.components ∧
    r.data = r'.data ∧ r.createParentDirectories = r'.createParentDirectories ∧ r.mode = r'.mode
  | .remove r, .remove r' =>
    (env.resolveFilePath r.cwd r.path).map Path.components =
      (env.resolveFilePath r'.cwd r'.path).map Path.components ∧ r.precondition = r'.precondition
  | .patch r, .patch r' => r = r'
  | _, _ => False

/-- What the receipts promise, after the given events. -/
structure Idempotent (env : MutationEnv) (log : List MutationEvent) (m : Mutations) : Prop where
  /-- All calls of the operating system for an identifier are made by one work. -/
  once : ∀ {k k' request request' c c'}, .performed k request c ∈ log →
    .performed k' request' c' ∈ log → request.mutationId = request'.mutationId → k = k'
  /-- A later call with the same input returns the outcome. -/
  replayed : ∀ {past rest k k' request request' outcome reply},
    log = past ++ .returned k request reply :: rest → .recorded k' request' outcome ∈ past →
    request.mutationId = request'.mutationId → env.SameInput request request' →
    reply = outcome.reply
  /-- A later call with another input returns a conflict. -/
  conflict : ∀ {past rest k k' request request' outcome reply},
    log = past ++ .returned k request reply :: rest → .recorded k' request' outcome ∈ past →
    request.mutationId = request'.mutationId → ¬ env.SameInput request request' →
    reply = request.fail idempotencyConflict
  /-- A later call has no work. -/
  untouched : ∀ {k k' request request' outcome c}, .recorded k' request' outcome ∈ log →
    request.mutationId = request'.mutationId → .performed k request c ∈ log → k = k'
  /-- A later call returns as soon as it has the lock. -/
  prompt : ∀ {k k' request request' outcome p}, .recorded k' request' outcome ∈ log →
    request.mutationId = request'.mutationId → m.calls.lookup k = some ⟨request, .waiting p⟩ →
    m.holder = none → ∃ m' reply, m.step env (.lock k) = some (m', [.returned k request reply]) ∧
      m'.entries = m.entries ∧ m'.works = m.works
  /-- A call that does not get as far has wrong arguments, or the runtime is shutting down. -/
  refused : ∀ {k request e}, .refused k request e ∈ log →
    env.prepare request = .error e ∨ .shutdown ∈ log
  /-- A receipt stays as it is. -/
  kept : ∀ {k request outcome}, .recorded k request outcome ∈ log →
    ∃ p, env.prepare request = .ok p ∧
      m.entries.lookup request.mutationId = some (p.fingerprint, outcome)
  /-- The receipts are within their bound. -/
  bounded : m.entries.entries.length ≤ env.maxFileMutationReceipts
  /-- Without room for a receipt, a new identifier is refused, and is not worked on. -/
  full : ∀ {k request p}, m.calls.lookup k = some ⟨request, .waiting p⟩ → m.holder = none →
    env.maxFileMutationReceipts ≤ m.entries.entries.length →
    (∀ k' request' outcome, .recorded k' request' outcome ∈ log →
      request.mutationId ≠ request'.mutationId) →
    ∃ m' e, m.step env (.lock k) = some (m', [.returned k request (request.fail e)]) ∧
      e.code = .resourceLimit ∧ m'.entries = m.entries ∧ m'.works = m.works

section Fingerprints

variable {env : MutationEnv}

theorem textBytes_injective : Function.Injective textBytes := by
  intro s t heq
  have hbytes : s.toByteArray = t.toByteArray :=
    ByteArray.ext (Array.toList_inj.mp heq)
  exact String.toByteArray_inj.mp hbytes

theorem encodedPatch_injective : Function.Injective encodedPatch := by
  intro r r' heq
  have hwrite := Json.text_injective heq
  have hread := congrArg ApplyPatchRequest.codec.read hwrite
  rw [Codec.read_write, Codec.read_write] at hread
  exact Option.some.inj hread

/-- Fingerprints tell inputs apart. -/
theorem MutationEnv.fingerprint_eq_iff (hsha : Function.Injective env.sha256)
    {request request' : MutationRequest} {p p' : Prepared} (h : env.prepare request = .ok p)
    (h' : env.prepare request' = .ok p') :
    p.fingerprint = p'.fingerprint ↔ env.SameInput request request' := by
  cases request with
  | write r =>
    obtain ⟨path, hpath, hp, -, -⟩ := writeFile_eq_ok h
    cases request' with
    | write r' =>
      obtain ⟨path', hpath', hp', -, -⟩ := writeFile_eq_ok h'
      rw [hp, hp', MutationFingerprint.write.injEq, hsha.eq_iff]
      simp only [SameInput, hpath, hpath', Except.map, Except.ok.injEq]
    | remove r' =>
      obtain ⟨path', -, hp', -, -⟩ := removeFile_eq_ok h'
      rw [hp, hp']
      exact ⟨fun heq => (by cases heq), False.elim⟩
    | patch r' =>
      rw [hp, (applyPatch_eq_ok h').1]
      exact ⟨fun heq => (by cases heq), False.elim⟩
  | remove r =>
    obtain ⟨path, hpath, hp, -, -⟩ := removeFile_eq_ok h
    cases request' with
    | write r' =>
      obtain ⟨path', -, hp', -, -⟩ := writeFile_eq_ok h'
      rw [hp, hp']
      exact ⟨fun heq => (by cases heq), False.elim⟩
    | remove r' =>
      obtain ⟨path', hpath', hp', -, -⟩ := removeFile_eq_ok h'
      rw [hp, hp', MutationFingerprint.remove.injEq]
      simp only [SameInput, hpath, hpath', Except.map, Except.ok.injEq]
    | patch r' =>
      rw [hp, (applyPatch_eq_ok h').1]
      exact ⟨fun heq => (by cases heq), False.elim⟩
  | patch r =>
    have hp := (applyPatch_eq_ok h).1
    cases request' with
    | write r' =>
      obtain ⟨path', -, hp', -, -⟩ := writeFile_eq_ok h'
      rw [hp, hp']
      exact ⟨fun heq => (by cases heq), False.elim⟩
    | remove r' =>
      obtain ⟨path', -, hp', -, -⟩ := removeFile_eq_ok h'
      rw [hp, hp']
      exact ⟨fun heq => (by cases heq), False.elim⟩
    | patch r' =>
      rw [hp, (applyPatch_eq_ok h').1, MutationFingerprint.patch.injEq, hsha.eq_iff,
        textBytes_injective.eq_iff, encodedPatch_injective.eq_iff]
      rfl

/-- A request with the same input is of the same kind. -/
theorem MutationEnv.SameInput.matches {request request' : MutationRequest}
    {outcome : MutationOutcome} (h : env.SameInput request request')
    (hmatches : outcome.matches request' = true) : outcome.matches request = true := by
  cases request <;> cases request' <;> cases outcome <;> first | exact False.elim h | exact hmatches

end Fingerprints

/-! ### What a call returns -/

section Returns

variable {env : MutationEnv} {log past rest es : List MutationEvent} {m m' : Mutations} {k : ℕ}
  {request : MutationRequest} {reply : MutationReply}

/-- Why a call returns what it does: its work has come to an outcome, its identifier had a receipt,
or there was none. -/
inductive Answered (env : MutationEnv) (past : List MutationEvent) (k : ℕ)
    (request : MutationRequest) : MutationReply → Prop
  | done {outcome : MutationOutcome} (h : .recorded k request outcome ∈ past) :
    Answered env past k request outcome.reply
  | stored {k' : ℕ} {request' : MutationRequest} {outcome : MutationOutcome} {p p' : Prepared}
    (h : .recorded k' request' outcome ∈ past) (hid : request.mutationId = request'.mutationId)
    (hp : env.prepare request = .ok p) (hp' : env.prepare request' = .ok p')
    (hmatches : outcome.matches request' = true) :
    Answered env past k request (request.replay p.fingerprint (p'.fingerprint, outcome))
  | failed {e : Error} (h : ∀ k' request' outcome, .recorded k' request' outcome ∈ past →
      request.mutationId ≠ request'.mutationId) : Answered env past k request (request.fail e)

/-- What a call does that finds the lock free. -/
theorem Mutations.lock_of_waiting {p : Prepared}
    (hcall : m.calls.lookup k = some ⟨request, .waiting p⟩) (hfree : m.holder = none)
    (henter : p.enter request m.entries env.maxFileMutationReceipts = .error reply) :
    ∃ m', m.step env (.lock k) = some (m', [.returned k request reply]) ∧
      m'.entries = m.entries ∧ m'.works = m.works := by
  refine ⟨{ m with calls := m.calls.insert k ⟨request, .ended⟩ }, ?_, rfl, rfl⟩
  simp only [step, lock, hcall, hfree, henter]

/-- The end of a call: its work is done, or it returns as soon as it has the lock. -/
theorem Mutations.returned_of_step {a : MutationAction} {pre post : List MutationEvent}
    (hs : m.step env a = some (m', es)) (hes : es = pre ++ .returned k request reply :: post) :
    (∃ outcome, pre = [.recorded k request outcome] ∧ reply = outcome.reply) ∨
      pre = [] ∧ ∃ p, m.calls.lookup k = some ⟨request, .waiting p⟩ ∧
        p.enter request m.entries env.maxFileMutationReceipts = .error reply := by
  have hmem : .returned k request reply ∈ es :=
    hes ▸ List.mem_append_right _ (List.mem_cons_self ..)
  cases a with
  | call k' request' =>
    simp only [step, call] at hs
    split_ifs at hs
    · obtain ⟨-, rfl⟩ := Prod.mk.inj (Option.some.inj hs)
      cases List.mem_singleton.mp hmem
    · split at hs <;> obtain ⟨-, rfl⟩ := Prod.mk.inj (Option.some.inj hs)
      · cases List.mem_singleton.mp hmem
      · cases hmem
  | lock k' =>
    simp only [step, lock] at hs
    split at hs
    · next request' p hcall hfree =>
      split at hs <;> obtain ⟨-, rfl⟩ := Prod.mk.inj (Option.some.inj hs)
      · next reply' henter =>
        obtain ⟨rfl, rfl, rfl⟩ := MutationEvent.returned.inj (List.mem_singleton.mp hmem)
        rcases List.append_eq_singleton_iff.mp hes.symm with ⟨hpre, -⟩ | ⟨-, hnil⟩
        · exact Or.inr ⟨hpre, p, hcall, henter⟩
        · cases hnil
      · cases hmem
    · cases hs
  | work k' answers =>
    simp only [step, work] at hs
    split at hs
    · cases hs
    · split at hs
      · cases hs
      · obtain ⟨-, rfl⟩ := Prod.mk.inj (Option.some.inj hs)
        cases List.mem_singleton.mp hmem
  | resume k' =>
    simp only [step, resume] at hs
    split at hs
    · next request' fingerprint outcome hcall hresult =>
      obtain ⟨-, rfl⟩ := Prod.mk.inj (Option.some.inj hs)
      cases pre with
      | nil => cases (List.cons.inj hes).1
      | cons e pre =>
        obtain ⟨rfl, hrest⟩ := List.cons.inj hes
        cases pre with
        | nil =>
          obtain ⟨rfl, rfl, rfl⟩ := MutationEvent.returned.inj (List.cons.inj hrest).1
          exact Or.inl ⟨outcome, rfl, rfl⟩
        | cons e' pre => cases pre <;> cases (List.cons.inj hrest).2
    · cases hs
  | drop k' =>
    simp only [step, drop] at hs
    split at hs
    · obtain ⟨-, rfl⟩ := Prod.mk.inj (Option.some.inj hs)
      cases hmem
    · obtain ⟨-, rfl⟩ := Prod.mk.inj (Option.some.inj hs)
      cases List.mem_singleton.mp hmem
    · cases hs
  | shutdown =>
    obtain ⟨-, rfl⟩ := Prod.mk.inj (Option.some.inj hs)
    cases List.mem_singleton.mp hmem

/-- What a call returns that has found a receipt, or no room for one. -/
theorem Mutations.Sound.answered {p : Prepared} (h : m.Sound env log)
    (hcall : m.calls.lookup k = some ⟨request, .waiting p⟩)
    (henter : p.enter request m.entries env.maxFileMutationReceipts = .error reply) :
    Answered env log k request reply := by
  have hp := h.waiting hcall
  unfold Prepared.enter at henter
  split at henter
  · next stored hstored =>
    obtain ⟨k', request', hrecorded, hid⟩ := h.entries hstored
    obtain ⟨-, hmatches, p', hp', hlookup⟩ := h.recorded hrecorded
    rw [hid, hstored] at hlookup
    have hfingerprint : stored.1 = p'.fingerprint := congrArg Prod.fst (Option.some.inj hlookup)
    have hreply : reply = request.replay p.fingerprint (p'.fingerprint, stored.2) := by
      rw [← Except.error.inj henter, ← hfingerprint]
    rw [hreply]
    exact .stored hrecorded hid.symm hp hp' hmatches
  · next hnone =>
    have hnew (k' : ℕ) (request' : MutationRequest) (outcome : MutationOutcome)
        (hrecorded : .recorded k' request' outcome ∈ log) :
        request.mutationId ≠ request'.mutationId := by
      intro hid
      obtain ⟨-, -, p', -, hlookup⟩ := h.recorded hrecorded
      rw [← hid, hnone] at hlookup
      cases hlookup
    split at henter
    · rw [← Except.error.inj henter]
      exact .failed hnew
    · rw [← Except.error.inj henter]
      exact .failed hnew
    · cases henter

theorem answered_of_run (hrun : (mutationSystem env).Run log m)
    (hkept : ∀ k, .abandoned k ∉ log) (hlog : log = past ++ .returned k request reply :: rest) :
    Answered env past k request reply := by
  refine hrun.each (L := fun past e => (∀ k, .abandoned k ∉ past) →
    ∀ k request reply, e = .returned k request reply → Answered env past k request reply)
    ?_ hlog ?_ k request reply rfl
  · rintro log m a m' es pre _ post hrun hs hes hkept k request reply rfl
    rcases Mutations.returned_of_step hs hes with ⟨outcome, rfl, rfl⟩ | ⟨rfl, p, hcall, henter⟩
    · exact .done (List.mem_append_right _ (List.mem_singleton_self _))
    · rw [List.append_nil] at hkept ⊢
      exact (Mutations.Sound.of_run hrun hkept).answered hcall henter
  · exact fun k hk => hkept k (hlog ▸ List.mem_append_left _ hk)

/-- Who is refused in a step, and whether the runtime stays available. -/
theorem Mutations.refused_of_step {a : MutationAction} (hs : m.step env a = some (m', es)) :
    (∀ k request e, .refused k request e ∈ es →
      m.available = false ∨ env.prepare request = .error e) ∧
      (m'.available = m.available ∨ .shutdown ∈ es) := by
  cases a with
  | call k' request' =>
    simp only [step, call] at hs
    split_ifs at hs with hnew hclosed
    · obtain ⟨rfl, -⟩ := Prod.mk.inj (Option.some.inj hs)
      exact ⟨fun _ _ _ _ => Or.inl hclosed, Or.inl rfl⟩
    · split at hs <;> obtain ⟨rfl, rfl⟩ := Prod.mk.inj (Option.some.inj hs)
      · next e hprepare =>
        refine ⟨fun k request e' he => ?_, Or.inl rfl⟩
        obtain ⟨-, rfl, rfl⟩ := MutationEvent.refused.inj (List.mem_singleton.mp he)
        exact Or.inr hprepare
      · exact ⟨fun _ _ _ he => absurd he List.not_mem_nil, Or.inl rfl⟩
  | lock k' =>
    simp only [step, lock] at hs
    split at hs
    · split at hs <;> obtain ⟨rfl, rfl⟩ := Prod.mk.inj (Option.some.inj hs)
      · exact ⟨fun _ _ _ he => (by cases List.mem_singleton.mp he), Or.inl rfl⟩
      · exact ⟨fun _ _ _ he => absurd he List.not_mem_nil, Or.inl rfl⟩
    · cases hs
  | work k' answers =>
    simp only [step, work] at hs
    split at hs
    · cases hs
    · split at hs
      · cases hs
      · obtain ⟨rfl, rfl⟩ := Prod.mk.inj (Option.some.inj hs)
        exact ⟨fun _ _ _ he => (by cases List.mem_singleton.mp he), Or.inl rfl⟩
  | resume k' =>
    simp only [step, resume] at hs
    split at hs
    · obtain ⟨rfl, rfl⟩ := Prod.mk.inj (Option.some.inj hs)
      refine ⟨fun _ _ _ he => ?_, Or.inl rfl⟩
      rcases List.mem_pair.mp he with he | he <;> cases he
    · cases hs
  | drop k' =>
    simp only [step, drop] at hs
    split at hs
    · obtain ⟨rfl, rfl⟩ := Prod.mk.inj (Option.some.inj hs)
      exact ⟨fun _ _ _ he => absurd he List.not_mem_nil, Or.inl rfl⟩
    · obtain ⟨rfl, rfl⟩ := Prod.mk.inj (Option.some.inj hs)
      exact ⟨fun _ _ _ he => (by cases List.mem_singleton.mp he), Or.inl rfl⟩
    · cases hs
  | shutdown =>
    obtain ⟨rfl, rfl⟩ := Prod.mk.inj (Option.some.inj hs)
    exact ⟨fun _ _ _ he => (by cases List.mem_singleton.mp he),
      Or.inr (List.mem_singleton_self _)⟩

/-- A call is refused because of its arguments, or because of a shutdown. -/
theorem refused_of_run {e : Error} (hrun : (mutationSystem env).Run log m)
    (he : .refused k request e ∈ log) : env.prepare request = .error e ∨ .shutdown ∈ log := by
  have hinv := hrun.invariant (I := fun log m => (m.available = false → .shutdown ∈ log) ∧
    ∀ k request e, .refused k request e ∈ log → env.prepare request = .error e ∨ .shutdown ∈ log)
    ?_ ?_
  · exact hinv.2 k request e he
  · rintro _ rfl
    exact ⟨fun h => (by cases h), fun _ _ _ h => absurd h List.not_mem_nil⟩
  · intro log m a m' es _ ih hs
    obtain ⟨hrefused, havailable⟩ := Mutations.refused_of_step hs
    constructor
    · intro hclosed
      rcases havailable with heq | hshut
      · exact List.mem_append_left _ (ih.1 (heq.symm.trans hclosed))
      · exact List.mem_append_right _ hshut
    · intro k request e he
      rcases List.mem_append.mp he with hold | hnew
      · exact (ih.2 k request e hold).imp id fun h => List.mem_append_left _ h
      · rcases hrefused k request e hnew with hclosed | hprepare
        · exact Or.inr (List.mem_append_left _ (ih.1 hclosed))
        · exact Or.inl hprepare

end Returns

/-- **The receipts of mutations**: a mutation is worked on once, a later call with its identifier
returns the outcome or a conflict without touching a file, receipts stay as they are, and without
room for one nothing is done. -/
theorem mutations_idempotent {env : MutationEnv} (hsha : Function.Injective env.sha256)
    {log : List MutationEvent} {m : Mutations} (hrun : (mutationSystem env).Run log m)
    (hkept : ∀ k, .abandoned k ∉ log) : Idempotent env log m := by
  have h := Mutations.Sound.of_run hrun hkept
  have hreply {past rest : List MutationEvent} {k k' : ℕ} {request request' : MutationRequest}
      {outcome : MutationOutcome} {reply : MutationReply}
      (hlog : log = past ++ .returned k request reply :: rest)
      (hpast : .recorded k' request' outcome ∈ past)
      (hid : request.mutationId = request'.mutationId) :
      (env.SameInput request request' → reply = outcome.reply) ∧
        (¬ env.SameInput request request' → reply = request.fail idempotencyConflict) := by
    have hmem {e : MutationEvent} (he : e ∈ past) : e ∈ log := hlog ▸ List.mem_append_left _ he
    obtain ⟨hended', hmatches', p', hp', hlookup'⟩ := h.recorded (hmem hpast)
    cases answered_of_run hrun hkept hlog with
    | done hdone =>
      obtain ⟨-, -, p, hp, hlookup⟩ := h.recorded (hmem hdone)
      rw [hid, hlookup'] at hlookup
      obtain ⟨hfingerprint, rfl⟩ := Prod.mk.inj (Option.some.inj hlookup)
      exact ⟨fun _ => rfl, fun hnot =>
        absurd ((MutationEnv.fingerprint_eq_iff hsha hp hp').mp hfingerprint.symm) hnot⟩
    | @stored k'' request'' outcome'' p p'' hrecorded hid'' hp hp'' hmatches =>
      obtain ⟨-, -, p₀, hp₀, hlookup⟩ := h.recorded (hmem hrecorded)
      obtain rfl := Except.ok.inj (hp₀.symm.trans hp'')
      rw [← hid'', hid, hlookup'] at hlookup
      obtain ⟨hfingerprint, rfl⟩ := Prod.mk.inj (Option.some.inj hlookup)
      rw [← hfingerprint, MutationRequest.replay]
      constructor
      · intro hsame
        rw [if_neg (not_not.mpr ((MutationEnv.fingerprint_eq_iff hsha hp hp').mpr hsame).symm),
          if_pos (hsame.matches hmatches')]
      · intro hnot
        exact if_pos fun heq => hnot ((MutationEnv.fingerprint_eq_iff hsha hp hp').mp heq.symm)
    | failed hnew => exact absurd hid (hnew k' request' outcome hpast)
  refine ⟨h.once, fun hlog hpast hid => (hreply hlog hpast hid).1,
    fun hlog hpast hid => (hreply hlog hpast hid).2, fun hrecorded hid hperformed => ?_,
    fun hrecorded hid hcall hfree => ?_, refused_of_run hrun, fun hrecorded => ?_, h.bounded,
    fun hcall hfree hfull hnew => ?_⟩
  · rcases h.performed hperformed with ⟨fingerprint, hworking⟩ | ⟨outcome', hrecorded'⟩
    · obtain ⟨-, -, p', -, hlookup⟩ := h.recorded hrecorded
      rw [← hid, (h.working hworking).2.2.1] at hlookup
      cases hlookup
    · exact h.unique hrecorded' hrecorded hid
  · next k k' request request' outcome p =>
    have henter : ∃ reply, p.enter request m.entries env.maxFileMutationReceipts =
        .error reply := by
      obtain ⟨-, -, p', -, hlookup⟩ := h.recorded hrecorded
      rw [← hid] at hlookup
      exact ⟨_, by rw [Prepared.enter, hlookup]⟩
    obtain ⟨reply, henter⟩ := henter
    obtain ⟨m', hstep, hsame⟩ := Mutations.lock_of_waiting hcall hfree henter
    exact ⟨m', reply, hstep, hsame⟩
  · obtain ⟨-, -, p, hp, hlookup⟩ := h.recorded hrecorded
    exact ⟨p, hp, hlookup⟩
  · next k request p =>
    have hnone : m.entries.lookup request.mutationId = none := by
      by_contra hsome
      obtain ⟨stored, hstored⟩ := Option.ne_none_iff_exists'.mp hsome
      obtain ⟨k', request', hrecorded, hid⟩ := h.entries hstored
      exact hnew k' request' stored.2 hrecorded hid.symm
    have henter : ∃ e, e.code = .resourceLimit ∧
        p.enter request m.entries env.maxFileMutationReceipts = .error (request.fail e) := by
      unfold Prepared.enter
      rw [hnone, ensureReceiptCapacity, if_pos hfull]
      cases hlate : p.late with
      | error e => exact ⟨e, MutationEnv.code_of_late (h.waiting hcall) hlate, rfl⟩
      | ok u => exact ⟨receiptLimitReached, rfl, rfl⟩
    obtain ⟨e, hcode, henter⟩ := henter
    obtain ⟨m', hstep, hsame⟩ := Mutations.lock_of_waiting hcall hfree henter
    exact ⟨m', e, hstep, hcode, hsame⟩

/-- A hash function without collisions that is right about the letter `A`. -/
def witnessHash (data : List UInt8) : String :=
  if data = [65] then "559aead08264d5795d3909718cdd05abd49572e84fe55590eef31a88a08fdffd"
  else String.ofList ('-' :: data.map fun b => Char.ofNat b.toNat)

theorem witnessHash_injective : Function.Injective witnessHash := by
  have hchar : Function.Injective fun b : UInt8 => Char.ofNat b.toNat := by
    intro b c heq
    have hsmall (b : UInt8) : b.toNat.isValidChar := Or.inl (by have := b.toNat_lt; omega)
    have hnat (b : UInt8) : (Char.ofNat b.toNat).toNat = b.toNat := by
      rw [Char.ofNat, dif_pos (hsmall b)]
      rfl
    exact UInt8.toNat_inj.mp ((hnat b).symm.trans ((congrArg Char.toNat heq).trans (hnat c)))
  have hdash (l : List Char) : String.ofList ('-' :: l) ≠
      "559aead08264d5795d3909718cdd05abd49572e84fe55590eef31a88a08fdffd" := by
    intro heq
    have hhead := congrArg (fun s => s.toList.head?) heq
    rw [String.toList_ofList] at hhead
    cases hhead
  intro data data' heq
  unfold witnessHash at heq
  split_ifs at heq with h h'
  · rw [h, h']
  · exact absurd heq.symm (hdash _)
  · exact absurd heq (hdash _)
  · have hlist := String.ofList_injective heq
    exact List.map_injective_iff.mpr hchar (List.cons.inj hlist).2

/-- A write that is retried after it is done. -/
theorem mutations_idempotent_retry : ∃ log m,
    (mutationSystem { retryEnv with sha256 := witnessHash }).Run log m ∧
      Idempotent { retryEnv with sha256 := witnessHash } log m := by
  have hexec : ((mutationSystem { retryEnv with sha256 := witnessHash }).exec .init
      ([.call 1 retryRequest, .lock 1] ++ List.replicate 8 (.work 1 (missingFile "a")) ++
      [.resume 1, .call 2 retryRequest, .lock 2])).any (fun r => r.2.all fun e => match e with
        | .abandoned _ => false
        | _ => true) = true := by
    decide +kernel
  obtain ⟨⟨m, log⟩, hrun, hcheck⟩ := (Option.any_eq_true _ _).mp hexec
  have hrun : (mutationSystem { retryEnv with sha256 := witnessHash }).Run log m :=
    ⟨_, rfl, .of_exec hrun⟩
  refine ⟨log, m, hrun, mutations_idempotent witnessHash_injective hrun fun k hk => ?_⟩
  cases List.all_eq_true.mp hcheck _ hk

end ExecutionProvider.Filesystem
