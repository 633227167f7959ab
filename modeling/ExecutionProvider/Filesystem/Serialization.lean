import ExecutionProvider.Filesystem.Locking

/-!
# Mutations that do not overlap

The calls of the operating system that change files are the effects of a mutation. While a call
waits for its work with the registry locked, no other work has an effect, and when the work is
done, the receipt keeps its identifier from being worked on again.

Both depend on the future of the call. When it is dropped while the work is under way, the lock is
released and no receipt is recorded, but the work goes on. Another call with the same identifier
is then worked on a second time, and at the same time.

## Main definitions

* `effects`: the effects of a run, in order.
* `Serialized`: effects of two mutations do not alternate, and an identifier has those of one work.

## Main results

* `mutations_serialized`: effects are serialized as long as no future is dropped while its work is
  under way.
* `not_serialized_retry`: a retry after a dropped future overlaps with the work that goes on.
-/

namespace ExecutionProvider.Filesystem

/-- A call of the operating system that changes files, with its work and its mutation. -/
def MutationEvent.effect : MutationEvent → Option (ℕ × String × SysCall)
  | performed k request c => if c.changes then some (k, request.mutationId, c) else none
  | _ => none

/-- The effects of a run, in order. -/
def effects (log : List MutationEvent) : List (ℕ × String × SysCall) :=
  log.filterMap MutationEvent.effect

/-- The effects of one work lie before those of another, or behind them. -/
def Disjoint (log : List MutationEvent) : Prop :=
  ∀ k k' id id' id'' c c' c'', [(k, id, c), (k', id', c'), (k, id'', c'')].Sublist (effects log) →
    k' = k

/-- The effects of a mutation are those of one work. -/
def Once (log : List MutationEvent) : Prop :=
  ∀ k k' id c c', (k, id, c) ∈ effects log → (k', id, c') ∈ effects log → k' = k

/-- Effects are serialized: those of two works do not overlap, and a mutation has one work. -/
structure Serialized (log : List MutationEvent) : Prop where
  disjoint : Disjoint log
  once : Once log

section

variable {env : MutationEnv} {log past rest : List MutationEvent} {m : Mutations} {k : ℕ}
  {request : MutationRequest} {c : SysCall}

theorem MutationEvent.effect_eq_some {e : MutationEvent} {id : String} :
    e.effect = some (k, id, c) ↔
      ∃ request, e = .performed k request c ∧ c.changes = true ∧ request.mutationId = id := by
  constructor
  · intro heq
    cases e with
    | performed k' request c' =>
      simp only [effect] at heq
      split_ifs at heq with hchanges
      obtain ⟨rfl, hrest⟩ := Prod.mk.inj (Option.some.inj heq)
      obtain ⟨hid, rfl⟩ := Prod.mk.inj hrest
      exact ⟨request, rfl, hchanges, hid⟩
    | _ => cases heq
  · rintro ⟨request, rfl, hchanges, rfl⟩
    exact if_pos hchanges

theorem mem_effects {id : String} : (k, id, c) ∈ effects log ↔
    ∃ request, .performed k request c ∈ log ∧ c.changes = true ∧ request.mutationId = id := by
  rw [effects, List.mem_filterMap]
  constructor
  · rintro ⟨e, he, heffect⟩
    obtain ⟨request, rfl, hrest⟩ := MutationEvent.effect_eq_some.mp heffect
    exact ⟨request, he, hrest⟩
  · rintro ⟨request, he, hrest⟩
    exact ⟨_, he, MutationEvent.effect_eq_some.mpr ⟨request, rfl, hrest⟩⟩

/-- A work makes a call before its receipt is recorded, and when all other works that made one
have theirs. -/
structure Exclusive (past : List MutationEvent) (k : ℕ) : Prop where
  unrecorded : ∀ request outcome, .recorded k request outcome ∉ past
  unreturned : ∀ request reply, .returned k request reply ∉ past
  others : ∀ {k' request c}, .performed k' request c ∈ past →
    k' = k ∨ ∃ outcome, .recorded k' request outcome ∈ past

theorem Mutations.Sound.exclusive {fingerprint : MutationFingerprint} (h : m.Sound env log)
    (hworking : m.calls.lookup k = some ⟨request, .working fingerprint⟩) : Exclusive log k where
  unrecorded request' outcome hrecorded := by
    cases (h.recorded hrecorded).1.symm.trans hworking
  unreturned request' reply hreturned := by
    cases (h.returned hreturned).symm.trans hworking
  others := by
    intro k' request' c hperformed
    rcases h.performed hperformed with ⟨fingerprint', hworking'⟩ | hrecorded
    · exact Or.inl (Option.some.inj ((h.working hworking').1.symm.trans (h.working hworking).1))
    · exact Or.inr hrecorded

/-- The work of a step that makes a call of the operating system. -/
theorem Mutations.eq_work_of_step {a : MutationAction} {m' : Mutations} {es : List MutationEvent}
    (hs : m.step env a = some (m', es)) (he : .performed k request c ∈ es) :
    ∃ w, es = [.performed k request c] ∧ m.works.lookup k = some w ∧ w.request = request ∧
      w.rest.pending = some c := by
  cases a with
  | call k' request' =>
    simp only [step, call] at hs
    split_ifs at hs
    · obtain ⟨-, rfl⟩ := Prod.mk.inj (Option.some.inj hs)
      cases List.mem_singleton.mp he
    · split at hs <;> obtain ⟨-, rfl⟩ := Prod.mk.inj (Option.some.inj hs)
      · cases List.mem_singleton.mp he
      · cases he
  | lock k' =>
    simp only [step, lock] at hs
    split at hs
    · split at hs <;> obtain ⟨-, rfl⟩ := Prod.mk.inj (Option.some.inj hs)
      · cases List.mem_singleton.mp he
      · cases he
    · cases hs
  | work k' answers =>
    simp only [step, work] at hs
    split at hs
    · cases hs
    · next w hw =>
      split at hs
      · cases hs
      · next c' hpending =>
        obtain ⟨-, rfl⟩ := Prod.mk.inj (Option.some.inj hs)
        obtain ⟨rfl, rfl, rfl⟩ := MutationEvent.performed.inj (List.mem_singleton.mp he)
        exact ⟨w, rfl, hw, rfl, hpending⟩
  | resume k' =>
    simp only [step, resume] at hs
    split at hs
    · obtain ⟨-, rfl⟩ := Prod.mk.inj (Option.some.inj hs)
      rcases List.mem_pair.mp he with he | he <;> cases he
    · cases hs
  | drop k' =>
    simp only [step, drop] at hs
    split at hs
    · obtain ⟨-, rfl⟩ := Prod.mk.inj (Option.some.inj hs)
      cases he
    · obtain ⟨-, rfl⟩ := Prod.mk.inj (Option.some.inj hs)
      cases List.mem_singleton.mp he
    · cases hs
  | shutdown =>
    obtain ⟨-, rfl⟩ := Prod.mk.inj (Option.some.inj hs)
    cases List.mem_singleton.mp he

theorem exclusive_of_run (hrun : (mutationSystem env).Run log m)
    (hkept : ∀ k, .abandoned k ∉ log) (hlog : log = past ++ .performed k request c :: rest) :
    Exclusive past k := by
  refine hrun.each (L := fun past e => (∀ k, .abandoned k ∉ past) →
    ∀ k request c, e = .performed k request c → Exclusive past k) ?_ hlog ?_ k request c rfl
  · rintro log m a m' es pre _ post hrun hs hes hkept k request c rfl
    obtain ⟨w, hsingle, hw, rfl, hpending⟩ := Mutations.eq_work_of_step hs
      (hes ▸ List.mem_append_right pre (List.mem_cons_self ..))
    obtain ⟨rfl, -⟩ | ⟨-, hnil⟩ := List.append_eq_singleton_iff.mp (hes.symm.trans hsingle)
    swap
    · cases hnil
    rw [List.append_nil] at hkept ⊢
    have hsound := Mutations.Sound.of_run hrun hkept
    obtain ⟨-, ⟨fingerprint, hworking⟩ | ⟨-, hnone⟩⟩ := hsound.works hw
    · exact hsound.exclusive hworking
    · rw [hnone] at hpending
      cases hpending
  · exact fun k hk => hkept k (hlog ▸ List.mem_append_left _ hk)

/-- **File mutations**: as long as no future is dropped while its work is under way, the effects
of two works never overlap, and those of a mutation are all of one work. -/
theorem mutations_serialized (hrun : (mutationSystem env).Run log m)
    (hkept : ∀ k, .abandoned k ∉ log) : Serialized log := by
  have hsound := Mutations.Sound.of_run hrun hkept
  constructor
  · intro k k' id id' id'' c c' c'' hsub
    by_contra hne
    obtain ⟨l₁, l₂, heq, hmem, htail⟩ := List.cons_sublist_iff.mp hsub
    obtain ⟨l₃, l₄, rfl, hmem', hlast⟩ := List.cons_sublist_iff.mp htail
    obtain ⟨log₁, log₂, rfl, rfl, hrest⟩ := List.filterMap_eq_append_iff.mp heq
    obtain ⟨log₃, log₄, rfl, rfl, rfl⟩ := List.filterMap_eq_append_iff.mp hrest
    obtain ⟨request, hperformed, -⟩ := mem_effects.mp hmem
    obtain ⟨request', hperformed', -⟩ := mem_effects.mp hmem'
    obtain ⟨request'', hperformed'', -⟩ := mem_effects.mp (List.singleton_sublist.mp hlast)
    obtain ⟨past, rest, rfl⟩ := List.append_of_mem hperformed'
    obtain ⟨past', rest', rfl⟩ := List.append_of_mem hperformed''
    have hsecond : Exclusive (log₁ ++ past) k' :=
      exclusive_of_run hrun hkept (by simp only [List.append_assoc, List.cons_append]; rfl)
    have hthird : Exclusive (log₁ ++ (past ++ .performed k' request' c' :: rest ++ past')) k :=
      exclusive_of_run hrun hkept (by simp only [List.append_assoc, List.cons_append]; rfl)
    rcases hsecond.others (List.mem_append_left _ hperformed) with rfl | ⟨outcome, hrecorded⟩
    · exact hne rfl
    · refine hthird.unrecorded request outcome ?_
      rcases List.mem_append.mp hrecorded with hfirst | hpast
      · exact List.mem_append_left _ hfirst
      · exact List.mem_append_right _ (List.mem_append_left _ (List.mem_append_left _ hpast))
  · intro k k' id c c' hmem hmem'
    obtain ⟨request, hperformed, -, rfl⟩ := mem_effects.mp hmem
    obtain ⟨request', hperformed', -, hid⟩ := mem_effects.mp hmem'
    exact hsound.once hperformed' hperformed hid

end

/-! ### A retry after a dropped future -/

/-- A runtime in `/w`. -/
def retryEnv : MutationEnv where
  cwd := "/w"
  maxFileReadBytes := 100
  maxFileWriteBytes := 100
  maxFileMutationReceipts := 10
  sha256 data := String.ofList (data.map fun b => Char.ofNat b.toNat)
  execute request _ _ := .done ⟨request.mutationId, .applied, true, [], "", false, none⟩

/-- What an operating system answers in a directory without files: what is looked up does not
exist, and what is changed is. -/
def missingFile (uuid : String) : (c : SysCall) → c.Answer
  | .symlinkMetadata _ | .metadata _ => .error ⟨true, "No such file or directory"⟩
  | .readLink _ | .canonicalize _ => .error ⟨true, "No such file or directory"⟩
  | .currentDir => .ok "/w"
  | .openFile _ => .error ⟨true, "No such file or directory"⟩
  | .createNew _ => .ok 3
  | .readUpTo _ _ => .ok []
  | .createDirAll _ | .writeAll _ _ | .syncAll _ | .setPermissions _ _ | .rename _ _
  | .removeFile _ => .ok ()
  | .newUuid => uuid

/-- The letter `A` is written to `f`. -/
def retryRequest : MutationRequest := .write ⟨"m", none, "f", [65], false, .overwrite⟩

/-- A write is worked on up to its temporary file, and its future is dropped. A retry is worked on
up to its own temporary file. Then the first work goes on to its end, and the second one too. -/
def retryActions : List MutationAction :=
  [.call 1 retryRequest, .lock 1] ++ List.replicate 5 (.work 1 (missingFile "a")) ++
  [.drop 1, .call 2 retryRequest, .lock 2] ++ List.replicate 5 (.work 2 (missingFile "b")) ++
  List.replicate 3 (.work 1 (missingFile "a")) ++ List.replicate 3 (.work 2 (missingFile "b"))

/-- A retry after a dropped future is worked on while the first work goes on: the effects
alternate, and the identifier has the effects of two works. -/
theorem not_serialized_retry : ∃ log m, (mutationSystem retryEnv).Run log m ∧
    ¬ Disjoint log ∧ ¬ Once log := by
  have hexec : ((mutationSystem retryEnv).exec .init retryActions).any (fun r =>
      decide ([(1, "m", SysCall.createNew "/w/.f.process-execution-a.tmp"),
        (2, "m", .createNew "/w/.f.process-execution-b.tmp"),
        (1, "m", .rename "/w/.f.process-execution-a.tmp" "/w/f")].Sublist (effects r.2)) &&
      decide ((2, "m", SysCall.rename "/w/.f.process-execution-b.tmp" "/w/f") ∈ effects r.2)) =
      true := by
    decide +kernel
  obtain ⟨⟨m, log⟩, hrun, hcheck⟩ := (Option.any_eq_true _ _).mp hexec
  obtain ⟨hsub, hmem⟩ := (Bool.and_eq_true _ _).mp hcheck
  have hsub := of_decide_eq_true hsub
  refine ⟨log, m, ⟨_, rfl, .of_exec hrun⟩, fun hdisjoint => ?_, fun honce => ?_⟩
  · exact absurd (hdisjoint _ _ _ _ _ _ _ _ hsub) (by decide)
  · have hfirst := hsub.subset (List.mem_cons_self ..)
    exact absurd (honce _ _ _ _ _ hfirst (of_decide_eq_true hmem)) (by decide)

/-- The letter `B` is written to `g`. -/
def otherRequest : MutationRequest := .write ⟨"n", none, "g", [66], false, .overwrite⟩

/-- While a write is worked on, two retries of it and another write wait for the lock, and the
future of the first retry is dropped. The other retry is answered, and the other write is worked
on. -/
def keptActions : List MutationAction :=
  [.call 1 retryRequest, .lock 1, .call 2 retryRequest] ++
  List.replicate 4 (.work 1 (missingFile "a")) ++ [.call 3 otherRequest, .call 4 retryRequest,
    .drop 2] ++
  List.replicate 4 (.work 1 (missingFile "a")) ++ [.resume 1, .lock 4, .lock 3] ++
  List.replicate 8 (.work 3 (missingFile "b")) ++ [.resume 3]

/-- The call that returns behind the lock. -/
def MutationEvent.returning : MutationEvent → Option ℕ
  | returned k _ _ => some k
  | _ => none

/-- The effects of both writes are serialized, and the retry has none. -/
theorem mutations_serialized_kept : ∃ log m, (mutationSystem retryEnv).Run log m ∧
    (1, "m", SysCall.rename "/w/.f.process-execution-a.tmp" "/w/f") ∈ effects log ∧
    (3, "n", SysCall.rename "/w/.g.process-execution-b.tmp" "/w/g") ∈ effects log ∧
    some 4 ∈ log.map MutationEvent.returning ∧ Serialized log := by
  have hexec : ((mutationSystem retryEnv).exec .init keptActions).any (fun r =>
      decide ((1, "m", SysCall.rename "/w/.f.process-execution-a.tmp" "/w/f") ∈ effects r.2 ∧
        (3, "n", SysCall.rename "/w/.g.process-execution-b.tmp" "/w/g") ∈ effects r.2 ∧
        some 4 ∈ r.2.map MutationEvent.returning) &&
      r.2.all fun e => match e with
        | .abandoned _ => false
        | _ => true) = true := by
    decide +kernel
  obtain ⟨⟨m, log⟩, hrun, hcheck⟩ := (Option.any_eq_true _ _).mp hexec
  obtain ⟨hmem, hkept⟩ := (Bool.and_eq_true _ _).mp hcheck
  obtain ⟨hfirst, hsecond, hreturned⟩ := of_decide_eq_true hmem
  have hrun : (mutationSystem retryEnv).Run log m := ⟨_, rfl, .of_exec hrun⟩
  refine ⟨log, m, hrun, hfirst, hsecond, hreturned, mutations_serialized hrun fun k hk => ?_⟩
  cases List.all_eq_true.mp hkept _ hk

end ExecutionProvider.Filesystem
