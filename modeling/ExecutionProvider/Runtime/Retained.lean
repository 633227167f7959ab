import Mathlib.Data.List.Induction
import ExecutionProvider.Runtime.Calls

/-!
# How long an execution is known

The registry keeps an execution from the call that admits it until it has been finished for as long
as such executions are retained, whatever other calls come in between. For all that time a call with
its handle finds it, and a call with its identity joins it or conflicts with it, so that nothing is
started twice. After that its handle leads nowhere, and no call joins it any more.

## Main definitions

* `Core.Dated`: only sessions whose tasks are done have a time at which they finished.
* `Core.Goes`: what any number of calls do to the entries of the registry.
* `Core.Knows`, `Core.Forgets`: what calls find of an execution, before and after it has expired.

## Main results

* `Core.goes_exec`: the calls of a run.
* `known_until_expired`: an execution is known exactly until it has expired.
-/

namespace ExecutionProvider.Runtime

variable {ρ : Type} {limits : Limits} {c c' c'' : Core ρ} {drawn drawn' : List Uuid} {sequence : ℕ}
  {entry : Entry ρ}

/-! ### Sessions that are finished -/

/-- The task of a session that has finished at some time is done. -/
def Execution.Dated (x : Execution) : Prop := x.session.finishedAt.isSome → x.phase = .done

theorem Execution.Dated.advance {x x' : Execution} {now : ℕ} {spawnFails : Bool} (hx : x.Dated)
    (h : x.advance now spawnFails = some x') :
    x'.Dated ∧ x.session.finishedAt = none := by
  have hnone (hp : x.phase ≠ .done) : x.session.finishedAt = none :=
    Option.not_isSome_iff_eq_none.mp fun hsome => hp (hx hsome)
  have hnot (hp : x.phase ≠ .done) : ¬x.session.finishedAt.isSome := by simp [hnone hp]
  cases hp : x.phase with
  | cancelled | draining =>
    rw [Execution.advance, hp] at h
    exact ⟨Option.some.inj h ▸ fun _ => rfl, hnone (by simp [hp])⟩
  | spawning =>
    simp only [Execution.advance, hp] at h
    refine ⟨?_, hnone (by simp [hp])⟩
    split_ifs at h
    · exact Option.some.inj h ▸ fun _ => rfl
    · exact Option.some.inj h ▸ fun hsome => absurd hsome (hnot (by simp [hp]))
  | spawned | waiting =>
    rw [Execution.advance, hp] at h
    exact ⟨Option.some.inj h ▸ fun hsome => absurd hsome (hnot (by simp [hp])),
      hnone (by simp [hp])⟩
  | done =>
    rw [Execution.advance, hp] at h
    cases h

/-- Sessions have numbers that were given out, and those that have finished are done. -/
structure Core.Dated (c : Core ρ) : Prop where
  numbered : ∀ sequence ∈ c.sessions, sequence < c.registry.nextSequence
  done : ∀ sequence x, c.sessions.lookup sequence = some x → x.Dated

/-- When the session with a number finished. -/
def Core.finishedAt (c : Core ρ) (sequence : ℕ) : Option ℕ :=
  (c.sessions.lookup sequence).bind fun x => x.session.finishedAt

/-- Whether an entry has expired. -/
def Core.Expired (limits : Limits) (c : Core ρ) (sequence : ℕ) (entry : Entry ρ) : Prop :=
  Registry.isExpired limits c.sessions c.now sequence entry = true

instance (sequence : ℕ) (entry : Entry ρ) : Decidable (c.Expired limits sequence entry) :=
  inferInstanceAs (Decidable (_ = true))

/-- How long an entry is retained after it has finished. -/
def Entry.retention (limits : Limits) (entry : Entry ρ) : ℕ :=
  if entry.runRequest.isSome then limits.runOutputRetention else limits.finishedRetention

theorem Core.expired_iff : c.Expired limits sequence entry ↔
    ∃ t, c.finishedAt sequence = some t ∧ entry.retention limits ≤ c.now - t := by
  rw [Expired, Registry.isExpired, Core.finishedAt, Entry.retention]
  cases (c.sessions.lookup sequence).bind fun x => x.session.finishedAt with
  | none => simp
  | some t => simp

/-! ### What calls do to the entries -/

/-- Time goes on, and what has finished stays so. Entries stay until they have expired, and new ones
have new numbers and the handles that were drawn. -/
structure Core.Goes (limits : Limits) (c : Core ρ) (drawn : List Uuid) (c' : Core ρ) : Prop where
  dated : c'.Dated
  now : c.now ≤ c'.now
  next : c.registry.nextSequence ≤ c'.registry.nextSequence
  finished : ∀ sequence t, c.finishedAt sequence = some t → c'.finishedAt sequence = some t
  kept : ∀ sequence entry, c.registry.entries.lookup sequence = some entry →
    c'.registry.entries.lookup sequence = some entry ∨ c'.Expired limits sequence entry
  known : ∀ sequence entry, c'.registry.entries.lookup sequence = some entry →
    c.registry.entries.lookup sequence = some entry ∨
      c.registry.nextSequence ≤ sequence ∧ entry.handle ∈ drawn

theorem Core.dated_init : (Core.init : Core ρ).Dated where
  numbered _ hs := absurd hs (AList.notMem_empty _)
  done _ _ hx := by simp [init] at hx

/-- What has expired stays so. -/
theorem Core.Goes.expired (h : c.Goes limits drawn c') (he : c.Expired limits sequence entry) :
    c'.Expired limits sequence entry := by
  obtain ⟨t, ht, hle⟩ := expired_iff.mp he
  exact expired_iff.mpr ⟨t, h.finished _ _ ht, hle.trans (Nat.sub_le_sub_right h.now t)⟩

theorem Core.Goes.refl (h : c.Dated) : c.Goes limits [] c where
  dated := h
  now := le_rfl
  next := le_rfl
  finished _ _ := id
  kept _ _ := Or.inl
  known _ _ := Or.inl

theorem Core.Goes.trans (h : c.Goes limits drawn c') (h' : c'.Goes limits drawn' c'') :
    c.Goes limits (drawn ++ drawn') c'' where
  dated := h'.dated
  now := h.now.trans h'.now
  next := h.next.trans h'.next
  finished s t ht := h'.finished s t (h.finished s t ht)
  kept s e he := by
    rcases h.kept s e he with hkept | hexpired
    · exact h'.kept s e hkept
    · exact Or.inr (h'.expired hexpired)
  known s e he := by
    rcases h'.known s e he with hold | hnew
    · exact (h.known s e hold).imp_right (And.imp_right (List.mem_append_left _))
    · exact Or.inr ⟨h.next.trans hnew.1, List.mem_append_right _ hnew.2⟩

/-- Only the entries, the numbers, the sessions and the time matter. -/
theorem Core.Goes.congr (h : c.Goes limits drawn c')
    (hentries : c''.registry.entries = c'.registry.entries)
    (hnext : c''.registry.nextSequence = c'.registry.nextSequence)
    (hsessions : c''.sessions = c'.sessions) (hnow : c''.now = c'.now) :
    c.Goes limits drawn c'' where
  dated := ⟨by rw [hsessions, hnext]; exact h.dated.numbered, by rw [hsessions]; exact h.dated.done⟩
  now := hnow ▸ h.now
  next := hnext ▸ h.next
  finished s t ht := by
    rw [Core.finishedAt, hsessions]
    exact h.finished s t ht
  kept s e he := by
    rw [Core.Expired, hentries, hsessions, hnow]
    exact h.kept s e he
  known s e he := h.known s e (hentries ▸ he)

/-! ### Single calls -/

variable (limits) in
/-- What is expired is removed, and nothing else. -/
theorem Core.lookup_entries_cleanup (c : Core ρ) (sequence : ℕ) :
    (c.cleanup limits).registry.entries.lookup sequence =
      (c.registry.entries.lookup sequence).filter fun e => ¬c.Expired limits sequence e := by
  rw [Core.cleanup, Registry.cleanup, Table.lookup_eraseAll]
  cases hlookup : c.registry.entries.lookup sequence with
  | none => simp
  | some e =>
    have hmem : sequence ∈ (c.registry.entries.select
        (Registry.isExpired limits c.sessions c.now)).map Prod.fst ↔
        c.Expired limits sequence e := by
      rw [List.mem_map]
      constructor
      · rintro ⟨⟨s, e'⟩, hs, rfl⟩
        obtain ⟨hs', hexp⟩ := Table.mem_select_iff.mp hs
        obtain rfl : e' = e := Option.some.inj (hs'.symm.trans hlookup)
        exact hexp
      · exact fun hexp => ⟨(sequence, e), Table.mem_select_iff.mpr ⟨hlookup, hexp⟩, rfl⟩
    by_cases hexp : c.Expired limits sequence e
    · simp [if_pos (hmem.mpr hexp), Option.filter, hexp]
    · simp [if_neg (mt hmem.mp hexp), Option.filter, hexp]

theorem Core.Dated.goes_cleanup (h : c.Dated) : c.Goes limits [] (c.cleanup limits) where
  dated := ⟨h.numbered, h.done⟩
  now := le_rfl
  next := le_rfl
  finished _ _ := id
  kept s e he := by
    rw [lookup_entries_cleanup, he]
    by_cases hexp : c.Expired limits s e
    · exact Or.inr hexp
    · exact Or.inl (by simp [Option.filter, hexp])
  known s e he := by
    rw [lookup_entries_cleanup] at he
    exact Or.inl (Option.filter_eq_some_iff.mp he).1

/-- A new entry. -/
theorem Core.Dated.goes_record (h : c.Dated) (hnew : c.registry.nextSequence ∉ c.registry.entries)
    (entry : Entry ρ) (phase : Phase) :
    c.Goes limits [entry.handle] (c.record entry phase) where
  dated := by
    refine ⟨fun s hs => ?_, fun s x hx => ?_⟩
    · rcases (AList.mem_insert _).mp hs with rfl | hs
      · exact Nat.lt_succ_self _
      · exact Nat.lt_succ_of_lt (h.numbered s hs)
    · rcases Table.lookup_insert_eq_some.mp hx with ⟨-, rfl⟩ | ⟨-, hx⟩
      · exact fun hsome => absurd hsome (by simp [Session.new])
      · exact h.done s x hx
  now := le_rfl
  next := Nat.le_succ _
  finished s t ht := by
    obtain ⟨x, hx, hxt⟩ := Option.bind_eq_some_iff.mp ht
    have hne : s ≠ c.registry.nextSequence := (h.numbered s (Table.mem_of_lookup hx)).ne
    rw [Core.finishedAt, Core.record, AList.lookup_insert_ne hne]
    exact ht
  kept s e he := by
    have hne : s ≠ c.registry.nextSequence := fun heq => hnew (heq ▸ Table.mem_of_lookup he)
    rw [Core.record, AList.lookup_insert_ne hne]
    exact Or.inl he
  known s e he := by
    rcases Table.lookup_insert_eq_some.mp he with ⟨rfl, rfl⟩ | ⟨-, he⟩
    · exact Or.inr ⟨le_rfl, List.mem_singleton.mpr rfl⟩
    · exact Or.inl he

/-- A session changes, but not the time at which it has finished. -/
theorem Core.Dated.goes_modify (h : c.Dated) (sequence : ℕ) {f : Execution → Execution}
    (hdated : ∀ x, c.sessions.lookup sequence = some x → (f x).Dated)
    (hfinished : ∀ x t, c.sessions.lookup sequence = some x → x.session.finishedAt = some t →
      (f x).session.finishedAt = some t) :
    c.Goes limits [] { c with sessions := c.sessions.modify sequence f } where
  dated := by
    refine ⟨fun s hs => h.numbered s (Table.mem_modify.mp hs), fun s x hx => ?_⟩
    rcases eq_or_ne s sequence with rfl | hne
    · rw [Table.lookup_modify] at hx
      obtain ⟨x₀, hx₀, rfl⟩ := Option.map_eq_some_iff.mp hx
      exact hdated x₀ hx₀
    · rw [Table.lookup_modify_of_ne hne] at hx
      exact h.done s x hx
  now := le_rfl
  next := le_rfl
  finished s t ht := by
    obtain ⟨x, hx, hxt⟩ := Option.bind_eq_some_iff.mp ht
    rw [Core.finishedAt]
    rcases eq_or_ne s sequence with rfl | hne
    · rw [Table.lookup_modify, hx]
      exact hfinished x t hx hxt
    · rw [Table.lookup_modify_of_ne hne]
      exact ht
  kept _ _ := Or.inl
  known _ _ := Or.inl

theorem Core.Dated.goes_terminate (h : c.Dated) (sequence grace : ℕ) (reason : StopReason) :
    c.Goes limits [] { c with sessions := c.sessions.modify sequence fun x =>
      { x with session := x.session.terminate c.now grace reason } } := by
  refine h.goes_modify sequence (fun x hx hsome => ?_) fun x t hx ht => ?_
  · rw [Session.finishedAt_terminate] at hsome
    exact h.done sequence x hx hsome
  · rw [Session.finishedAt_terminate]
    exact ht

theorem Core.Dated.goes_advance (h : c.Dated) {sequence : ℕ} {spawnFails : Bool} {es : List Event}
    (hs : c.advance sequence spawnFails = some (c', es)) : c.Goes limits [] c' := by
  obtain ⟨x, x', hx, hadvance, rfl, -⟩ := Core.advance_cases hs
  obtain ⟨hdated, hnone⟩ := (h.done sequence x hx).advance hadvance
  refine h.goes_modify sequence (fun _ _ => hdated) fun y t hy ht => ?_
  obtain rfl : x = y := Option.some.inj (hx.symm.trans hy)
  rw [hnone] at ht
  cases ht

/-- The entries, the sessions and the time are the same. -/
theorem Core.Goes.of_same (h : c.Dated) (hregistry : c'.registry.entries = c.registry.entries)
    (hnext : c'.registry.nextSequence = c.registry.nextSequence)
    (hsessions : c'.sessions = c.sessions) (hnow : c'.now = c.now) : c.Goes limits [] c' :=
  (Core.Goes.refl h).congr hregistry hnext hsessions hnow

/-! ### Every call -/

theorem Core.Dated.goes_terminateRun (h : c.Dated) (call : ℕ) (runId : String)
    (grace : Option ℕ) : c.Goes limits [] (c.terminateRun limits call runId grace).1 := by
  obtain ⟨error, heq⟩ | ⟨-, heq⟩ := c.terminateRun_cases limits call runId grace <;> rw [heq]
  · exact .refl h
  · exact h.goes_cleanup.congr rfl rfl rfl rfl

theorem Core.Dated.goes_recordPending (h : c.Dated) {call : ℕ} {es : List Event}
    (hs : c.recordPending limits call = some (c', es)) : c.Goes limits [] c' := by
  obtain ⟨runId, grace, -, ⟨-, rfl, -⟩ | ⟨-, rfl, -⟩⟩ := Core.recordPending_cases hs
  · exact .of_same h rfl rfl rfl rfl
  · exact .of_same h rfl rfl rfl rfl

theorem Core.Dated.goes_inspect (h : c.Dated) {call : ℕ} {es : List Event}
    (hs : c.inspect call = some (c', es)) : c.Goes limits [] c' := by
  obtain ⟨runId, grace, own, x, -, -, ⟨-, rfl, -⟩ | ⟨-, rfl, -⟩⟩ := Core.inspect_cases hs
  · exact .of_same h rfl rfl rfl rfl
  · exact .of_same h rfl rfl rfl rfl

theorem Core.Dated.goes_stop (h : c.Dated) {call : ℕ} {es : List Event}
    (hs : c.stop call = some (c', es)) : c.Goes limits [] c' := by
  obtain ⟨runId, grace, own, -, rfl, -⟩ := Core.stop_cases hs
  exact (h.goes_terminate _ _ _).congr rfl rfl rfl rfl

/-- What the admission of a new execution does, after what has expired is removed. -/
theorem Accepts.goes {key : Entry ρ → Option String} {id : String} {same : Entry ρ → Prop}
    {admitted : Core ρ} {answer : Result Admission} {handle : Uuid} (h : c.Dated)
    (haccepts : Accepts limits (c.cleanup limits) key id same admitted c' answer)
    (hadmitted : (c.cleanup limits).Goes limits [handle] admitted) :
    ∃ drawn, drawn.Sublist [handle] ∧ c.Goes limits drawn c' := by
  cases haccepts with
  | joined | conflict | refused => exact ⟨[], List.nil_sublist _, h.goes_cleanup⟩
  | admitted => exact ⟨[handle], List.Sublist.refl _, h.goes_cleanup.trans hadmitted⟩

theorem Core.Goes.mono (h : c.Goes limits drawn c') (hsub : drawn ⊆ drawn') :
    c.Goes limits drawn' c' :=
  { h with known := fun s e he => (h.known s e he).imp_right (And.imp_right fun hmem => hsub hmem) }

section Step

variable [DecidableEq ρ]

theorem Core.Dated.goes_startExecution (h : c.Dated) (hsound : c.Sound limits)
    (request : StartRequest ρ) (handle : Uuid) :
    c.Goes limits [handle] (c.startExecution limits request handle).1 := by
  obtain ⟨c', answer, -, heq, haccepts⟩ := hsound.acceptStart request handle
  have hclean : c.Goes limits [] (c.cleanup limits) := h.goes_cleanup
  have hnew : (c.cleanup limits).registry.nextSequence ∉ (c.cleanup limits).registry.entries :=
    AList.lookup_eq_none.mp (hsound.cleanup limits).lookup_nextSequence
  obtain ⟨drawn, hdrawn, hgoes⟩ := haccepts.goes h
    ((hclean.dated.goes_record hnew ⟨handle, some request, none⟩ .spawning).congr rfl rfl rfl rfl)
  rw [heq]
  exact hgoes.mono hdrawn.subset

theorem Core.Dated.goes_runExecution (h : c.Dated) (hsound : c.Sound limits)
    (request : RunRequest ρ) (handle : Uuid) (spoolError : Option String) :
    c.Goes limits [handle] (c.runExecution limits request handle spoolError).1 := by
  obtain ⟨c', answer, -, heq, haccepts⟩ := hsound.acceptRun request handle spoolError
  have hclean : c.Goes limits [] (c.cleanup limits) := h.goes_cleanup
  have hnew : (c.cleanup limits).registry.nextSequence ∉ (c.cleanup limits).registry.entries :=
    AList.lookup_eq_none.mp (hsound.cleanup limits).lookup_nextSequence
  obtain ⟨drawn, hdrawn, hgoes⟩ := haccepts.goes h
    ((hclean.dated.goes_record hnew ⟨handle, none, some request⟩ _).congr rfl rfl rfl rfl)
  rw [heq]
  exact hgoes.mono hdrawn.subset

variable {generation : Uuid} {labels : ρ → StringMap}

/-- What one call does. -/
theorem Core.Dated.goes_step (h : c.Dated) (hsound : c.Sound limits) {call : Call ρ}
    {es : List Event} (hs : (callSystem limits generation labels).step c call = some (c', es)) :
    c.Goes limits call.handle.toList c' := by
  cases call with
  | action a =>
    cases a with
    | startExecution request handle =>
      have hgoes := h.goes_startExecution hsound request handle
      rwa [show c.startExecution limits request handle = (c', es) from Option.some.inj hs] at hgoes
    | runExecution request handle spoolError =>
      have hgoes := h.goes_runExecution hsound request handle spoolError
      rwa [show c.runExecution limits request handle spoolError = (c', es) from
        Option.some.inj hs] at hgoes
    | terminateRun call runId grace =>
      have hgoes : c.Goes limits [] (c.terminateRun limits call runId grace).1 :=
        h.goes_terminateRun call runId grace
      simp only [callSystem, Core.step] at hs
      split_ifs at hs
      rwa [show c.terminateRun limits call runId grace = (c', es) from Option.some.inj hs] at hgoes
    | recordPending call => exact h.goes_recordPending hs
    | inspect call => exact h.goes_inspect hs
    | stop call => exact h.goes_stop hs
    | terminate sequence grace reason =>
      obtain ⟨rfl, -⟩ := Prod.mk.inj (Option.some.inj hs)
      exact h.goes_terminate sequence grace reason
    | advance sequence spawnFails => exact h.goes_advance hs
    | cleanup =>
      obtain ⟨rfl, -⟩ := Prod.mk.inj (Option.some.inj hs)
      exact h.goes_cleanup
    | shutdown =>
      obtain ⟨rfl, -⟩ := Prod.mk.inj (Option.some.inj hs)
      exact .of_same h rfl rfl rfl rfl
    | wait time =>
      obtain ⟨rfl, -⟩ := Prod.mk.inj (Option.some.inj hs)
      exact ⟨⟨h.numbered, h.done⟩, Nat.le_add_right _ _, le_rfl, fun _ _ => id,
        fun _ _ => Or.inl, fun _ _ => Or.inl⟩
  | session handle =>
    obtain ⟨a, ha, heq⟩ := Option.map_eq_some_iff.mp hs
    obtain ⟨rfl, -⟩ := Prod.mk.inj heq
    rw [hsound.session_eq] at ha
    split_ifs at ha
    · obtain rfl := Option.some.inj ha
      exact .refl h
    · obtain rfl := Option.some.inj ha
      exact h.goes_cleanup
  | listExecutions request =>
    obtain ⟨rfl, -⟩ := Prod.mk.inj (Option.some.inj hs)
    unfold Core.listExecutions
    dsimp only
    split_ifs
    · exact .refl h
    · split
      · exact h.goes_cleanup
      · split_ifs <;> exact h.goes_cleanup

/-- **What the calls of a run do.** -/
theorem Core.goes_exec {calls : List (Call ρ)} {log : List Event} (h : c.Dated)
    (hsound : c.Sound limits) (hfresh : ∀ g ∈ calls.filterMap Call.handle, g ∉ c.registry.handles)
    (hnodup : (calls.filterMap Call.handle).Nodup)
    (hexec : (callSystem limits generation labels).exec c calls = some (c', log)) :
    c.Goes limits (calls.filterMap Call.handle) c' := by
  induction calls using List.reverseRecOn generalizing c' log with
  | nil =>
    obtain ⟨rfl, -⟩ := Prod.mk.inj (Option.some.inj hexec)
    exact .refl h
  | append_singleton calls call ih =>
    obtain ⟨c₁, es, es', hcalls, hcall⟩ := System.exec_append_eq_some hexec
    rw [List.filterMap_append] at hfresh hnodup ⊢
    have hfresh₁ : ∀ g ∈ calls.filterMap Call.handle, g ∉ c.registry.handles :=
      fun g hg => hfresh g (List.mem_append_left _ hg)
    have hnodup₁ := (List.nodup_append.mp hnodup).1
    have hgoes := ih hfresh₁ hnodup₁ hcalls
    obtain ⟨c₂, es₁, es₂, hstep, hnil, -⟩ := System.exec_cons_eq_some_iff.mp hcall
    obtain ⟨rfl, -⟩ := Prod.mk.inj (Option.some.inj hnil)
    refine hgoes.trans ((hgoes.dated.goes_step (hsound.exec hfresh₁ hnodup₁ hcalls) hstep).mono ?_)
    cases hhandle : call.handle with
    | none => exact List.nil_subset _
    | some g => simp [hhandle]

/-! ### Before and after an execution has expired -/

/-- An execution is found by its handle, and a call with its identity joins it or conflicts with
it. -/
structure Core.Knows (limits : Limits) (generation : Uuid) (c : Core ρ) (sequence : ℕ)
    (entry : Entry ρ) : Prop where
  session : c.session limits generation ⟨entry.handle, generation⟩ =
    some (c.cleanup limits, .ok sequence)
  start : ∀ request handle, entry.startId = some request.startId →
    c.acceptStart limits request handle = some (c.cleanup limits,
      if entry.startRequest = some request then .ok ⟨sequence, true⟩
      else .error ⟨.idempotencyConflict, "start_id was used for different arguments"⟩)
  run : ∀ request handle spoolError, entry.runId = some request.runId →
    c.acceptRun limits request handle spoolError = some (c.cleanup limits,
      if entry.runRequest = some request then .ok ⟨sequence, true⟩
      else .error ⟨.idempotencyConflict, "run_id was used for different arguments"⟩)

/-- The handle of an execution leads nowhere, and no call goes on with it. -/
structure Core.Forgets (limits : Limits) (generation : Uuid) (c : Core ρ) (sequence : ℕ)
    (entry : Entry ρ) : Prop where
  session : c.session limits generation ⟨entry.handle, generation⟩ = some (c.cleanup limits,
    .error ⟨.notFound, "execution was not found or its retention ended"⟩)
  start : ∀ request handle c' retry,
    c.acceptStart limits request handle ≠ some (c', .ok ⟨sequence, retry⟩)
  run : ∀ request handle spoolError c' retry,
    c.acceptRun limits request handle spoolError ≠ some (c', .ok ⟨sequence, retry⟩)

theorem Core.Sound.knows (h : c.Sound limits) (generation : Uuid)
    (hentry : (c.cleanup limits).registry.entries.lookup sequence = some entry) :
    c.Knows limits generation sequence entry where
  session := by
    have hindex : (c.cleanup limits).registry.handles.lookup entry.handle = some sequence :=
      ((h.cleanup limits).indexed.handles _ _).mpr ⟨entry, hentry, rfl⟩
    rw [h.session_eq, if_neg (not_not.mpr rfl), hindex]
  start request handle hid :=
    (h.answers generation).joinsStart request handle sequence entry hentry hid
  run request handle spoolError hid :=
    (h.answers generation).joinsRun request handle spoolError sequence entry hentry hid

omit [DecidableEq ρ] in
/-- A call that goes on with a number finds the entry with it, or gives the number out. -/
theorem Accepts.ne_ok {key : Entry ρ → Option String} {id : String} {same : Entry ρ → Prop}
    {admitted : Core ρ} {retry : Bool}
    (hentry : c.registry.entries.lookup sequence = none)
    (hlt : sequence < c.registry.nextSequence) :
    ¬Accepts limits c key id same admitted c' (.ok ⟨sequence, retry⟩) := by
  intro h
  cases h with
  | joined hfound => simp [hentry] at hfound
  | admitted => exact Nat.lt_irrefl _ hlt

theorem Core.Sound.forgets (h : c.Sound limits) (generation : Uuid)
    (hentry : (c.cleanup limits).registry.entries.lookup sequence = none)
    (hlt : sequence < c.registry.nextSequence)
    (hhandle : ∀ s e, (c.cleanup limits).registry.entries.lookup s = some e →
      e.handle ≠ entry.handle) : c.Forgets limits generation sequence entry where
  session := by
    have hindex : (c.cleanup limits).registry.handles.lookup entry.handle = none :=
      (h.cleanup limits).indexed.handles.eq_none_iff.mpr fun s e he heq =>
        hhandle s e he (Option.some.inj heq)
    rw [h.session_eq, if_neg (not_not.mpr rfl), hindex]
  start request handle c' retry heq := by
    obtain ⟨c₁, answer, haccept, -, haccepts⟩ := h.acceptStart request handle
    obtain ⟨rfl, rfl⟩ := Prod.mk.inj (Option.some.inj (haccept.symm.trans heq))
    exact Accepts.ne_ok hentry hlt haccepts
  run request handle spoolError c' retry heq := by
    obtain ⟨c₁, answer, haccept, -, haccepts⟩ := h.acceptRun request handle spoolError
    obtain ⟨rfl, rfl⟩ := Prod.mk.inj (Option.some.inj (haccept.symm.trans heq))
    exact Accepts.ne_ok hentry hlt haccepts

/-- **An execution is known exactly until it has expired.** In every run in which no handle is drawn
twice, an entry that the registry has at some moment is found by its handle at every later moment
until it has expired, and a call with its identity joins it when its request is the same and
conflicts with it otherwise. From then on its handle leads nowhere, and no call goes on with it. -/
theorem known_until_expired {calls calls' : List (Call ρ)} {log log' : List Event}
    (hfresh : ((calls ++ calls').filterMap Call.handle).Nodup)
    (hexec : (callSystem limits generation labels).exec Core.init calls = some (c, log))
    (hentry : c.registry.entries.lookup sequence = some entry)
    (hexec' : (callSystem limits generation labels).exec c calls' = some (c', log')) :
    if c'.Expired limits sequence entry then c'.Forgets limits generation sequence entry
    else c'.Knows limits generation sequence entry := by
  rw [List.filterMap_append] at hfresh
  obtain ⟨hnodup, hnodup', hdisjoint⟩ := List.nodup_append.mp hfresh
  have hnone : ∀ g ∈ calls.filterMap Call.handle, g ∉ (Core.init : Core ρ).registry.handles :=
    fun g _ => AList.notMem_empty g
  have hsound := (Core.sound_init limits).exec hnone hnodup hexec
  have hgoes := Core.goes_exec Core.dated_init (Core.sound_init limits) hnone hnodup hexec
  -- every handle that the registry has was drawn
  have hdrawn : ∀ s e, c.registry.entries.lookup s = some e →
      e.handle ∈ calls.filterMap Call.handle := fun s e he =>
    ((hgoes.known s e he).resolve_left fun h => by simp [Core.init, Registry.empty] at h).2
  have hfresh' : ∀ g ∈ calls'.filterMap Call.handle, g ∉ c.registry.handles := by
    intro g hg hmem
    obtain ⟨s, hs⟩ := Option.isSome_iff_exists.mp (AList.lookup_isSome.mpr hmem)
    obtain ⟨e, he, hkey⟩ := (hsound.indexed.handles g s).mp hs
    obtain rfl := Option.some.inj hkey
    exact hdisjoint _ (hdrawn s e he) _ hg rfl
  have hsound' := hsound.exec hfresh' hnodup' hexec'
  have hgoes' := Core.goes_exec hgoes.dated hsound hfresh' hnodup' hexec'
  have hlt : sequence < c.registry.nextSequence := hsound.numbered _ (Table.mem_of_lookup hentry)
  split_ifs with hexpired
  · have hgone : (c'.cleanup limits).registry.entries.lookup sequence = none := by
      rw [Core.lookup_entries_cleanup, Option.filter_eq_none_iff]
      intro e he
      obtain hold | ⟨hle, -⟩ := hgoes'.known sequence e he
      · obtain rfl : entry = e := Option.some.inj (hentry.symm.trans hold)
        simpa using hexpired
      · exact absurd hlt hle.not_gt
    refine hsound'.forgets generation hgone (hlt.trans_le hgoes'.next) fun s e he heq => ?_
    have hfound := he
    rw [Core.lookup_entries_cleanup] at hfound
    obtain hold | ⟨-, hnew⟩ := hgoes'.known s e (Option.filter_eq_some_iff.mp hfound).1
    · -- no two entries have the same handle
      obtain rfl := hsound.indexed.handles.unique hold hentry rfl (congrArg some heq.symm)
      rw [hgone] at he
      cases he
    · exact hdisjoint _ (hdrawn sequence entry hentry) _ hnew heq.symm
  · refine hsound'.knows generation ?_
    have hkept := (hgoes'.kept sequence entry hentry).resolve_right hexpired
    rw [Core.lookup_entries_cleanup, hkept, Option.filter_some, if_pos (decide_eq_true hexpired)]

end Step

/-- An execution that has just finished is known, and some time later it is forgotten. -/
theorem known_until_expired_later :
    ∃ (c c' : Core Unit) (log log' : List Event) (entry : Entry Unit),
      (callSystem someLimits (.numbered 0) fun _ => .empty).exec Core.init
        [.action (.startExecution ⟨"s", ()⟩ (.numbered 1)), .action (.advance 1 true)] =
        some (c, log) ∧
      (callSystem someLimits (.numbered 0) fun _ => .empty).exec c [.action (.wait 1)] =
        some (c', log') ∧
      c.Knows someLimits (.numbered 0) 1 entry ∧ c'.Forgets someLimits (.numbered 0) 1 entry := by
  have hexec : ∃ (c c' : Core Unit) (log log' : List Event) (entry : Entry Unit),
      (callSystem someLimits (.numbered 0) fun _ => .empty).exec Core.init
        [.action (.startExecution ⟨"s", ()⟩ (.numbered 1)), .action (.advance 1 true)] =
        some (c, log) ∧
      (callSystem someLimits (.numbered 0) fun _ => .empty).exec c [.action (.wait 1)] =
        some (c', log') ∧ c.registry.entries.lookup 1 = some entry ∧
      ¬c.Expired someLimits 1 entry ∧ c'.Expired someLimits 1 entry :=
    ⟨_, _, _, _, _, rfl, rfl, rfl, by decide, by decide⟩
  obtain ⟨c, c', log, log', entry, hexec, hexec', hentry, hnot, hexpired⟩ := hexec
  have hnil : (callSystem someLimits (.numbered 0) fun _ => .empty).exec c [] = some (c, []) := rfl
  have hknown := known_until_expired (by decide) hexec hentry hnil
  have hforgotten := known_until_expired (by decide) hexec hentry hexec'
  rw [if_neg hnot] at hknown
  rw [if_pos hexpired] at hforgotten
  exact ⟨c, c', log, log', entry, hexec, hexec', hknown, hforgotten⟩

end ExecutionProvider.Runtime
