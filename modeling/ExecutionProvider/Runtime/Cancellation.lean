import ExecutionProvider.Foundation.Index
import ExecutionProvider.Runtime.Registry

/-!
# Early cancellation of runs

`terminate_run` looks the session of a run up in one locked section and records a cancellation
in another when there was none. A run that is admitted in between is neither stopped nor
cancelled. A cancellation that was recorded before is not renewed, and the record of a run that has
finished expires: then the run is admitted again as if nothing had cancelled it. Otherwise a
confirmed termination holds for as long as the output of runs is retained: no process of the run is
left running without a request to stop.

## Main definitions

* `Core.Kept`: the confirmed terminations hold while they are retained.
* `Core.Valid`: the invariant of the runtime.
* `Core.CleanStep`: a step that is neither the return of a call that was raced nor admits a run of
  which neither a record nor a cancellation is left.
* `Core.FreshStep`: a step that is no return of a call that was raced or found something old.

## Main results

* `Core.Valid.step`: every step keeps the invariant, and a clean one the confirmed terminations.
* `kept_iff_clean`: they hold in every state of a run exactly when its steps are clean, and its
  steps are clean when they are fresh.
-/

namespace ExecutionProvider.Runtime

variable {ρ : Type} {limits : Limits} {c c' : Core ρ}

/-! ### Sessions that stay stopped -/

theorem Session.stopped_terminate (s : Session) (now grace : ℕ) (reason : StopReason) :
    (s.terminate now grace reason).stopped = true := by
  rw [Session.terminate]
  split_ifs with h
  · simp [Session.stopped]
  · by_contra hstopped
    simp only [Session.stopped, Bool.or_eq_true, decide_eq_true_eq, not_or, Bool.not_eq_true,
      Option.isSome_eq_false_iff, Option.isNone_iff_eq_none] at hstopped
    exact h ⟨hstopped.2, hstopped.1.2, hstopped.1.1⟩

/-- The task of a finished session is done. -/
def Execution.Valid (x : Execution) : Prop := x.session.state = .finished → x.phase = .done

/-- A halted execution stays halted when its task takes a step. -/
theorem Execution.halted_advance {x x' : Execution} {now : ℕ} {spawnFails : Bool}
    (hv : x.Valid) (h : x.halted = true) (hx : x.advance now spawnFails = some x') :
    x'.halted = true := by
  have hfinish (s : Session) : (s.finish now).stopped = true := by
    simp [Session.finish, Session.stopped]
  have hstopped (hphase : x.phase ≠ .cancelled) : x.session.stopped = true := by
    simpa [Execution.halted, hphase] using h
  cases hp : x.phase with
  | cancelled =>
    rw [Execution.advance, hp] at hx
    obtain rfl := Option.some.inj hx
    simp [Execution.halted, hfinish]
  | spawning =>
    have hs := hstopped (by simp [hp])
    simp only [Execution.advance, hp] at hx
    split_ifs at hx
    · obtain rfl := Option.some.inj hx
      simp [Execution.halted, hfinish]
    · obtain rfl := Option.some.inj hx
      simp [Execution.halted, hs]
  | spawned =>
    have hs := hstopped (by simp [hp])
    have hstate : x.session.state ≠ .finished := fun hf => by
      have := hv hf
      rw [hp] at this
      cases this
    rw [Execution.advance, hp] at hx
    obtain rfl := Option.some.inj hx
    have hlaunch : x.session.launch.stopped = true := by
      simp only [Session.stopped, Bool.or_eq_true, decide_eq_true_eq] at hs
      simp only [Session.stopped, Session.launch, Bool.or_eq_true]
      exact Or.inl (hs.resolve_right hstate)
    simp [Execution.halted, hlaunch]
  | waiting =>
    rw [Execution.advance, hp] at hx
    obtain rfl := Option.some.inj hx
    simp [Execution.halted, Session.rootExit, Session.stopped]
  | draining =>
    rw [Execution.advance, hp] at hx
    obtain rfl := Option.some.inj hx
    simp [Execution.halted, hfinish]
  | done =>
    rw [Execution.advance, hp] at hx
    cases hx

theorem Execution.Valid.advance {x x' : Execution} {now : ℕ} {spawnFails : Bool}
    (hv : x.Valid) (hx : x.advance now spawnFails = some x') : x'.Valid := by
  intro hf
  cases hp : x.phase with
  | spawning =>
    simp only [Execution.advance, hp] at hx
    split_ifs at hx
    · rw [← Option.some.inj hx]
    · rw [← Option.some.inj hx] at hf
      have := hv hf
      rw [hp] at this
      cases this
  | spawned =>
    rw [Execution.advance, hp] at hx
    rw [← Option.some.inj hx] at hf
    simp only [Session.launch] at hf
    split_ifs at hf
    have := hv hf
    rw [hp] at this
    cases this
  | waiting =>
    rw [Execution.advance, hp] at hx
    rw [← Option.some.inj hx] at hf
    cases hf
  | cancelled | draining =>
    rw [Execution.advance, hp] at hx
    rw [← Option.some.inj hx]
  | done =>
    rw [Execution.advance, hp] at hx
    cases hx

theorem Execution.Valid.terminate {x : Execution} (hv : x.Valid) (now grace : ℕ)
    (reason : StopReason) :
    Execution.Valid { x with session := x.session.terminate now grace reason } := by
  intro hf
  simp only [Session.terminate] at hf
  split_ifs at hf
  exact hv hf

theorem Execution.halted_terminate (x : Execution) (now grace : ℕ) (reason : StopReason) :
    Execution.halted { x with session := x.session.terminate now grace reason } = true := by
  simp [Execution.halted, Session.stopped_terminate]

/-! ### The invariants -/

/-- The confirmed terminations hold while they are retained: the session that the registry has for
such a run is halted. -/
def Core.Kept (limits : Limits) (c : Core ρ) : Prop :=
  ∀ id t, (id, t) ∈ c.promised → c.now - t < limits.runOutputRetention → ∀ sequence,
    c.registry.runs.lookup id = some sequence →
      (c.sessions.lookup sequence).any Execution.halted = true

/-- Sessions are numbered, entries have sessions and are found by their run, finished sessions are
done, and promises were made before. -/
structure Core.Valid (c : Core ρ) : Prop where
  numbered : ∀ sequence ∈ c.sessions, sequence < c.registry.nextSequence
  entered : ∀ sequence ∈ c.registry.entries, sequence ∈ c.sessions
  indexed : Table.Indexes Entry.runId c.registry.entries c.registry.runs
  finished : ∀ sequence x, c.sessions.lookup sequence = some x → x.Valid
  dated : ∀ id t, (id, t) ∈ c.promised → t ≤ c.now

/-- The return of a call that was not raced. -/
def Event.Clean : Event → Prop
  | .returned _ _ raced => raced = false
  | .failed _ => True

theorem Core.valid_init : (Core.init : Core ρ).Valid :=
  ⟨by simp [init], by simp [init, Registry.empty], .empty, by simp [init], by simp [init]⟩

theorem Core.kept_init : (Core.init : Core ρ).Kept limits := by simp [Kept, init]

/-- A run that the registry finds has a session. -/
theorem Core.Valid.recorded (h : c.Valid) {id : String} {sequence : ℕ}
    (hl : c.registry.runs.lookup id = some sequence) : sequence ∈ c.sessions := by
  obtain ⟨entry, hentry, -⟩ := (h.indexed id sequence).mp hl
  exact h.entered sequence (Table.mem_of_lookup hentry)

/-- Only these things matter. -/
theorem Core.Valid.congr (h : c.Valid) (hentries : c'.registry.entries = c.registry.entries)
    (hruns : c'.registry.runs = c.registry.runs)
    (hnext : c'.registry.nextSequence = c.registry.nextSequence)
    (hsessions : c'.sessions = c.sessions) (hnow : c.now ≤ c'.now)
    (hpromised : c'.promised = c.promised) : c'.Valid where
  numbered := by rw [hsessions, hnext]; exact h.numbered
  entered := by rw [hentries, hsessions]; exact h.entered
  indexed := by rw [hentries, hruns]; exact h.indexed
  finished := by rw [hsessions]; exact h.finished
  dated id t ht := (h.dated id t (hpromised ▸ ht)).trans hnow

theorem Core.Kept.congr (h : c.Kept limits) (hruns : c'.registry.runs = c.registry.runs)
    (hsessions : c'.sessions = c.sessions) (hnow : c.now ≤ c'.now)
    (hpromised : c'.promised = c.promised) : c'.Kept limits := fun id t ht hage sequence hl => by
  rw [hsessions]
  exact h id t (hpromised ▸ ht) (lt_of_le_of_lt (Nat.sub_le_sub_right hnow t) hage) sequence
    (hruns ▸ hl)

/-! ### Expiry -/

theorem Core.lookup_runs_cleanup {id : String} {sequence : ℕ}
    (h : (c.cleanup limits).registry.runs.lookup id = some sequence) :
    c.registry.runs.lookup id = some sequence := by
  simp only [Core.cleanup, Registry.cleanup, Table.lookup_eraseAll] at h
  split_ifs at h
  exact h

variable (limits) in
theorem Registry.indexes_runs_cleanup {r : Registry ρ}
    (h : Table.Indexes Entry.runId r.entries r.runs) (sessions : Table ℕ Execution) (now : ℕ) :
    Table.Indexes Entry.runId (r.cleanup limits sessions now).entries
      (r.cleanup limits sessions now).runs :=
  h.eraseAll fun _ he => (Table.mem_select_iff.mp he).1

theorem Registry.entries_cleanup_sublist (r : Registry ρ) (sessions : Table ℕ Execution)
    (now : ℕ) : (r.cleanup limits sessions now).entries.entries.Sublist r.entries.entries :=
  Table.entries_eraseAll_sublist _ _

theorem Registry.mem_of_mem_cleanup {r : Registry ρ} {sessions : Table ℕ Execution} {now : ℕ}
    {sequence : ℕ} (h : sequence ∈ (r.cleanup limits sessions now).entries) :
    sequence ∈ r.entries :=
  ((r.entries_cleanup_sublist sessions now).map Sigma.fst).subset h

variable (limits) in
theorem Core.Valid.cleanup (h : c.Valid) : (c.cleanup limits).Valid where
  numbered := h.numbered
  entered sequence hs := h.entered sequence (Registry.mem_of_mem_cleanup hs)
  indexed := Registry.indexes_runs_cleanup limits h.indexed c.sessions c.now
  finished := h.finished
  dated := h.dated

theorem Core.Kept.cleanup (h : c.Kept limits) : (c.cleanup limits).Kept limits :=
  fun id t ht hage sequence hl => h id t ht hage sequence (Core.lookup_runs_cleanup hl)

/-! ### New sessions -/

theorem Core.Valid.lookup_record {entry : Entry ρ} {phase : Phase} (h : c.Valid) {sequence : ℕ}
    (hs : sequence ∈ c.sessions) :
    (c.record entry phase).sessions.lookup sequence = c.sessions.lookup sequence :=
  AList.lookup_insert_ne (Nat.ne_of_lt (h.numbered sequence hs))

theorem Core.Valid.lookup_nextSequence (h : c.Valid) :
    c.registry.entries.lookup c.registry.nextSequence = none :=
  AList.lookup_eq_none.mpr fun hs =>
    Nat.lt_irrefl _ (h.numbered _ (h.entered _ hs))

/-- A session is recorded, and entered into the index of the runs if it is one. -/
theorem Core.Valid.record (h : c.Valid) (entry : Entry ρ) (phase : Phase)
    (hentries : c'.registry.entries = (c.record entry phase).registry.entries)
    (hnext : c'.registry.nextSequence = (c.record entry phase).registry.nextSequence)
    (hsessions : c'.sessions = (c.record entry phase).sessions) (hnow : c'.now = c.now)
    (hpromised : c'.promised = c.promised)
    (hindexed : Table.Indexes Entry.runId (c.record entry phase).registry.entries
      c'.registry.runs) : c'.Valid where
  numbered sequence hs := by
    rw [hnext]
    rw [hsessions] at hs
    rcases (AList.mem_insert _).mp hs with rfl | hs
    · exact Nat.lt_succ_self _
    · exact Nat.lt_succ_of_lt (h.numbered sequence hs)
  entered sequence hs := by
    rw [hentries] at hs
    rw [hsessions]
    exact (AList.mem_insert _).mpr (((AList.mem_insert _).mp hs).imp_right (h.entered sequence))
  indexed := by
    rw [hentries]
    exact hindexed
  finished sequence x hl := by
    rw [hsessions, Core.record] at hl
    rcases Table.lookup_insert_eq_some.mp hl with ⟨-, rfl⟩ | ⟨-, hl⟩
    · intro hf
      cases hf
    · exact h.finished sequence x hl
  dated := by
    rw [hpromised, hnow]
    exact h.dated

/-- Sessions that were there before are still halted. -/
theorem Core.Kept.record (h : c.Kept limits) (hv : c.Valid) (entry : Entry ρ) (phase : Phase) :
    (c.record entry phase).Kept limits := fun id t ht hage sequence hl => by
  rw [hv.lookup_record (hv.recorded hl)]
  exact h id t ht hage sequence hl

variable (limits) in
theorem Core.Valid.admitStart (hv : c.Valid) (request : StartRequest ρ) (handle : Uuid) :
    (c.admitStart request handle).Valid ∧
      (c.Kept limits → (c.admitStart request handle).Kept limits) :=
  ⟨hv.record ⟨handle, some request, none⟩ .spawning rfl rfl rfl rfl rfl
      (hv.indexed.insert_of_none hv.lookup_nextSequence rfl),
    fun hk => (hk.record hv ⟨handle, some request, none⟩ .spawning).congr rfl rfl le_rfl rfl⟩

/-- Whether the termination of a run was confirmed and is still retained. -/
def Core.Promises (limits : Limits) (c : Core ρ) (id : String) : Prop :=
  ∃ t, (id, t) ∈ c.promised ∧ c.now - t < limits.runOutputRetention

variable (limits) in
/-- A run is admitted with the cancellation that was recorded for it. The promises are kept exactly
when there is one for every run that was promised to be terminated. -/
theorem Core.Valid.admitRun (hv : c.Valid) (request : RunRequest ρ) (handle : Uuid)
    (hid : c.registry.runs.lookup request.runId = none) :
    (c.admitRun request handle).Valid ∧
      (c.Kept limits → ((c.admitRun request handle).Kept limits ↔
        ¬(c.registry.pendingRunTerminations.lookup request.runId = none ∧
          c.Promises limits request.runId))) := by
  set phase : Phase := if (c.registry.pendingRunTerminations.lookup request.runId).isSome then
    .cancelled else .spawning with hphase
  have hlookup : (c.admitRun request handle).registry.runs.lookup request.runId =
      some c.registry.nextSequence := AList.lookup_insert _
  have hsession : (c.admitRun request handle).sessions.lookup c.registry.nextSequence =
      some ⟨.new, phase⟩ := AList.lookup_insert _
  refine ⟨hv.record ⟨handle, none, some request⟩ phase rfl rfl rfl rfl rfl
    (hv.indexed.insert hv.lookup_nextSequence rfl hid), fun hk => ⟨?_, ?_⟩⟩
  · rintro hkept ⟨hpending, t, ht, hage⟩
    have hhalted := hkept request.runId t ht hage _ hlookup
    rw [hsession, hphase, hpending] at hhalted
    cases hhalted
  · intro hlate id t ht hage sequence hl
    rcases eq_or_ne id request.runId with rfl | hne
    · -- the new session consumes the cancellation that was recorded
      have hpending : (c.registry.pendingRunTerminations.lookup request.runId).isSome := by
        by_contra hnone
        exact hlate ⟨Option.not_isSome_iff_eq_none.mp hnone, t, ht, hage⟩
      obtain rfl := Option.some.inj (hlookup.symm.trans hl)
      rw [hsession, hphase, if_pos hpending]
      rfl
    · rw [Core.admitRun, AList.lookup_insert_ne hne] at hl
      exact hk.record hv ⟨handle, none, some request⟩ phase id t ht hage sequence hl

/-! ### Sections that accept requests -/

/-! ### Steps of sessions -/

/-- Changing a session keeps the invariant and the promises when a halted session stays so. -/
theorem Core.Valid.modify (hv : c.Valid) (sequence : ℕ) {f : Execution → Execution}
    (hvalid : ∀ x, c.sessions.lookup sequence = some x → (f x).Valid)
    (hhalted : ∀ x, c.sessions.lookup sequence = some x → x.halted = true →
      (f x).halted = true) :
    Core.Valid { c with sessions := c.sessions.modify sequence f } ∧
      (c.Kept limits → Core.Kept limits { c with sessions := c.sessions.modify sequence f }) := by
  refine ⟨⟨fun s hs => hv.numbered s (Table.mem_modify.mp hs),
    fun s hs => Table.mem_modify.mpr (hv.entered s hs), hv.indexed, fun s x hl => ?_, hv.dated⟩,
    fun hk id t ht hage s hl => ?_⟩
  · rcases eq_or_ne s sequence with rfl | hne
    · rw [Table.lookup_modify] at hl
      obtain ⟨x₀, hx₀, rfl⟩ := Option.map_eq_some_iff.mp hl
      exact hvalid x₀ hx₀
    · rw [Table.lookup_modify_of_ne hne] at hl
      exact hv.finished s x hl
  · have hs := hk id t ht hage s hl
    rcases eq_or_ne s sequence with rfl | hne
    · obtain ⟨x, hx, hx'⟩ := (Option.any_eq_true _ _).mp hs
      rw [Table.lookup_modify, hx]
      exact hhalted x hx hx'
    · rwa [Table.lookup_modify_of_ne hne]

theorem Core.Valid.advance (hv : c.Valid) {sequence : ℕ} {spawnFails : Bool} {es : List Event}
    (hs : c.advance sequence spawnFails = some (c', es)) :
    c'.Valid ∧ (c.Kept limits → c'.Kept limits) := by
  obtain ⟨x, x', hx, hadvance, rfl, -⟩ := Core.advance_cases hs
  have hvx := hv.finished sequence x hx
  refine hv.modify sequence (fun y hy => hvx.advance hadvance) fun y hy hhalted => ?_
  obtain rfl : x = y := Option.some.inj (hx.symm.trans hy)
  exact x.halted_advance hvx hhalted hadvance

/-! ### The calls of `terminate_run` -/

/-- A call returns: the promises are kept afterwards exactly when the session that the registry has
for the run is halted, if it has one. -/
theorem Core.Valid.confirm (hv : c.Valid) (hretention : 0 < limits.runOutputRetention) (call : ℕ)
    (runId : String) :
    (c.confirm call runId).Valid ∧
      (c.Kept limits → ((c.confirm call runId).Kept limits ↔ ∀ sequence,
        c.registry.runs.lookup runId = some sequence →
          (c.sessions.lookup sequence).any Execution.halted = true)) := by
  refine ⟨⟨hv.numbered, hv.entered, hv.indexed, hv.finished, fun id t ht => ?_⟩,
    fun hk => ⟨fun h sequence hl => ?_, fun h id t ht hage sequence hl => ?_⟩⟩
  · rcases List.mem_cons.mp ht with heq | hold
    · obtain ⟨rfl, rfl⟩ := Prod.mk.inj heq
      exact le_rfl
    · exact hv.dated id t hold
  · refine h runId c.now List.mem_cons_self ?_ sequence hl
    simpa [Core.confirm] using hretention
  · rcases List.mem_cons.mp ht with heq | hold
    · obtain ⟨rfl, rfl⟩ := Prod.mk.inj heq
      exact h sequence hl
    · exact hk id t hold hage sequence hl

/-- A call is not raced when the session that the registry has for the run is its own or halted. -/
theorem Core.raced_eq_false_iff {runId : String} {own : Option ℕ} :
    c.raced runId own = false ↔ ∀ sequence, c.registry.runs.lookup runId = some sequence →
      some sequence ≠ own → (c.sessions.lookup sequence).any Execution.halted = true := by
  rw [Core.raced]
  cases c.registry.runs.lookup runId with
  | none => simp
  | some sequence => simp

/-- What a section of a call leaves behind: the invariant, and the promises exactly when it is no
return of a call that was raced. -/
def Core.ReturnKeeps (limits : Limits) (c c' : Core ρ) (es : List Event) : Prop :=
  c'.Valid ∧ (c.Kept limits → (c'.Kept limits ↔ ∀ e ∈ es, e.Clean))

/-- A section that does not return keeps the promises. -/
theorem Core.ReturnKeeps.of_kept {es : List Event} (h : c'.Valid ∧ (c.Kept limits → c'.Kept limits))
    (hes : ∀ e ∈ es, ∃ error, e = .failed error) : c.ReturnKeeps limits c' es := by
  refine ⟨h.1, fun hk => iff_of_true (h.2 hk) fun e he => ?_⟩
  obtain ⟨error, rfl⟩ := hes e he
  trivial

variable (limits) in
/-- The calls that are under way do not matter. -/
theorem Core.Valid.calls (hv : c.Valid) (calls : Table ℕ TerminateCall) :
    Core.Valid { c with terminateCalls := calls } ∧
      (c.Kept limits → Core.Kept limits { c with terminateCalls := calls }) :=
  ⟨hv.congr rfl rfl rfl rfl le_rfl rfl, fun hk => hk.congr rfl rfl le_rfl rfl⟩

theorem Core.Valid.recordPending (hv : c.Valid) (hretention : 0 < limits.runOutputRetention)
    {call : ℕ} {es : List Event} (hs : c.recordPending limits call = some (c', es)) :
    c.ReturnKeeps limits c' es := by
  obtain ⟨runId, grace, -, ⟨-, rfl, error, rfl⟩ | ⟨-, rfl, rfl⟩⟩ := Core.recordPending_cases hs
  · exact .of_kept (hv.calls limits (c.terminateCalls.erase call)) (by simp)
  · have hv₁ : Core.Valid { c with registry :=
        { c.registry with pendingRunTerminations := c.recorded runId } } :=
      hv.congr rfl rfl rfl rfl le_rfl rfl
    obtain ⟨hv₂, hk₂⟩ := hv₁.confirm hretention call runId
    refine ⟨hv₂, fun hk => (hk₂ (hk.congr rfl rfl le_rfl rfl)).trans ?_⟩
    simp only [List.mem_singleton, forall_eq, Event.Clean]
    rw [Core.raced_eq_false_iff]
    simp

theorem Core.Valid.inspect (hv : c.Valid) (hretention : 0 < limits.runOutputRetention) {call : ℕ}
    {es : List Event} (hs : c.inspect call = some (c', es)) : c.ReturnKeeps limits c' es := by
  obtain ⟨runId, grace, own, x, -, hx, ⟨hfinished, rfl, rfl⟩ | ⟨-, rfl, rfl⟩⟩ :=
    Core.inspect_cases hs
  · obtain ⟨hv₂, hk₂⟩ := hv.confirm hretention call runId
    refine ⟨hv₂, fun hk => (hk₂ hk).trans ?_⟩
    simp only [List.mem_singleton, forall_eq, Event.Clean]
    rw [Core.raced_eq_false_iff]
    refine forall₂_congr fun sequence hl => ⟨fun h _ => h, fun h => ?_⟩
    by_cases hown : some sequence = some own
    · obtain rfl := Option.some.inj hown
      simp [hx, Execution.halted, Session.stopped, hfinished]
    · exact h hown
  · exact .of_kept (hv.calls limits (c.terminateCalls.insert call (.inspected runId grace own)))
      (by simp)

theorem Core.Valid.stop (hv : c.Valid) (hretention : 0 < limits.runOutputRetention) {call : ℕ}
    {es : List Event} (hs : c.stop call = some (c', es)) : c.ReturnKeeps limits c' es := by
  obtain ⟨runId, grace, own, -, rfl, rfl⟩ := Core.stop_cases hs
  obtain ⟨hv₁, hk₁⟩ := hv.modify own
    (f := fun x => { x with session := x.session.terminate c.now grace .explicitTermination })
    (fun x hx => (hv.finished own x hx).terminate _ _ _)
    (fun x _ _ => x.halted_terminate _ _ _)
  obtain ⟨hv₂, hk₂⟩ := hv₁.confirm hretention call runId
  refine ⟨hv₂, fun hk => (hk₂ (hk₁ hk)).trans ?_⟩
  simp only [List.mem_singleton, forall_eq, Event.Clean]
  rw [Core.raced_eq_false_iff]
  refine forall₂_congr fun sequence hl => ?_
  rcases eq_or_ne sequence own with rfl | hne
  · obtain ⟨x, hx⟩ := Option.isSome_iff_exists.mp (AList.lookup_isSome.mpr (hv.recorded hl))
    simp [hx, Execution.halted_terminate]
  · rw [Table.lookup_modify_of_ne hne]
    exact ⟨fun h _ => h, fun h => h (by simpa using hne)⟩

/-! ### Steps -/

section Step

variable [DecidableEq ρ] {a : Action ρ} {es : List Event}

variable (limits) in
/-- The run that a call of `terminate_run` is about to return about, and the session that the call
has looked up. -/
def Core.returning (c : Core ρ) : Action ρ → Option (String × Option ℕ)
  | .recordPending call =>
    match c.terminateCalls.lookup call with
    | some (.lookedUp runId _ none) =>
      if limits.maxRetainedExecutions ≤ c.registry.pendingRunTerminations.entries.length then none
      else some (runId, none)
    | _ => none
  | .inspect call =>
    match c.terminateCalls.lookup call with
    | some (.lookedUp runId _ (some own)) =>
      if (c.sessions.lookup own).any fun x => x.session.state = .finished then
        some (runId, some own)
      else none
    | _ => none
  | .stop call =>
    match c.terminateCalls.lookup call with
    | some (.inspected runId _ own) => some (runId, some own)
    | _ => none
  | _ => none

/-- A run is admitted for which no cancellation is left although its termination was confirmed, and
is to be retained. -/
def Core.Readmits (limits : Limits) (c : Core ρ) : Action ρ → Prop
  | .runExecution request _ spoolError =>
    c.AdmitsRun limits request spoolError ∧
      (c.cleanup limits).registry.pendingRunTerminations.lookup request.runId = none ∧
      c.Promises limits request.runId
  | _ => False

/-- A step that is no return of a call that was raced, and admits no run of which neither a record
nor a cancellation is left although its termination is to be retained. -/
structure Core.CleanStep (limits : Limits) (c : Core ρ) (a : Action ρ) : Prop where
  returns : ∀ runId own, c.returning limits a = some (runId, own) → c.raced runId own = false
  admits : ¬c.Readmits limits a

/-- What a step promises: nothing, or the termination of the run about which a call returns. -/
theorem Core.promised_step (hs : c.step limits a = some (c', es)) :
    c.returning limits a = none ∧ c'.promised = c.promised ∧
        (∀ e ∈ es, ∃ error, e = .failed error) ∨
      ∃ runId own state, c.returning limits a = some (runId, own) ∧
        c'.promised = (runId, c.now) :: c.promised ∧
        es = [.returned runId state (c.raced runId own)] := by
  cases a with
  | startExecution request handle =>
    have hs := Option.some.inj hs
    obtain ⟨es', hes, heq⟩ | ⟨-, -, heq⟩ := c.startExecution_cases limits request handle
    · obtain ⟨rfl, rfl⟩ := Prod.mk.inj (heq.symm.trans hs)
      exact Or.inl ⟨rfl, rfl, hes⟩
    · obtain ⟨rfl, rfl⟩ := Prod.mk.inj (heq.symm.trans hs)
      exact Or.inl ⟨rfl, rfl, by simp⟩
  | runExecution request handle spoolError =>
    have hs := Option.some.inj hs
    obtain ⟨-, es', hes, heq⟩ | ⟨-, heq⟩ :=
      c.runExecution_cases limits request handle spoolError
    · obtain ⟨rfl, rfl⟩ := Prod.mk.inj (heq.symm.trans hs)
      exact Or.inl ⟨rfl, rfl, hes⟩
    · obtain ⟨rfl, rfl⟩ := Prod.mk.inj (heq.symm.trans hs)
      exact Or.inl ⟨rfl, rfl, by simp⟩
  | terminateRun call runId grace =>
    simp only [Core.step, Option.ite_none_right_eq_some] at hs
    have hs := Option.some.inj hs.2
    obtain ⟨error, heq⟩ | ⟨-, heq⟩ := c.terminateRun_cases limits call runId grace <;>
      obtain ⟨rfl, rfl⟩ := Prod.mk.inj (heq.symm.trans hs)
    · exact Or.inl ⟨rfl, rfl, by simp⟩
    · exact Or.inl ⟨rfl, rfl, by simp⟩
  | recordPending call =>
    obtain ⟨runId, grace, hcall, ⟨hfull, rfl, hes⟩ | ⟨hroom, rfl, rfl⟩⟩ :=
      Core.recordPending_cases hs <;> rw [Core.returning, hcall]
    · obtain ⟨error, rfl⟩ := hes
      exact Or.inl ⟨if_pos hfull, rfl, by simp⟩
    · exact Or.inr ⟨runId, none, .pending, if_neg hroom, rfl, rfl⟩
  | inspect call =>
    obtain ⟨runId, grace, own, x, hcall, hx, hcases⟩ := Core.inspect_cases hs
    have hreturning : c.returning limits (.inspect call) =
        if x.session.state = .finished then some (runId, some own) else none := by
      simp [Core.returning, hcall, hx]
    rw [hreturning]
    obtain ⟨hfinished, rfl, rfl⟩ | ⟨hnot, rfl, rfl⟩ := hcases
    · exact Or.inr ⟨runId, some own, .finished, if_pos hfinished, rfl, rfl⟩
    · exact Or.inl ⟨if_neg hnot, rfl, by simp⟩
  | stop call =>
    obtain ⟨runId, grace, own, hcall, rfl, rfl⟩ := Core.stop_cases hs
    exact Or.inr ⟨runId, some own, .terminating, by rw [Core.returning, hcall], rfl, rfl⟩
  | terminate | cleanup | shutdown | wait =>
    obtain ⟨rfl, rfl⟩ := Prod.mk.inj (Option.some.inj hs)
    exact Or.inl ⟨rfl, rfl, by simp⟩
  | advance sequence spawnFails =>
    obtain ⟨x, x', -, -, rfl, rfl⟩ := Core.advance_cases hs
    exact Or.inl ⟨rfl, rfl, by simp⟩

/-- The returns of a step are those of calls that were not raced. -/
theorem Core.clean_iff (hs : c.step limits a = some (c', es)) :
    (∀ e ∈ es, e.Clean) ↔
      ∀ runId own, c.returning limits a = some (runId, own) → c.raced runId own = false := by
  rcases Core.promised_step hs with ⟨hnone, -, hes⟩ | ⟨runId, own, state, hreturning, -, rfl⟩
  · refine iff_of_true (fun e he => ?_) fun runId own h => ?_
    · obtain ⟨error, rfl⟩ := hes e he
      trivial
    · cases hnone.symm.trans h
  · rw [hreturning]
    simp [Event.Clean]

/-- Every step keeps the invariant, and the promises exactly when it is clean. -/
theorem Core.Valid.step (hv : c.Valid) (hretention : 0 < limits.runOutputRetention)
    (hs : c.step limits a = some (c', es)) :
    c'.Valid ∧ (c.Kept limits → (c'.Kept limits ↔ c.CleanStep limits a)) := by
  -- every step but the admission of a run
  have hother (h : c.ReturnKeeps limits c' es) (ha : ¬c.Readmits limits a) :
      c'.Valid ∧ (c.Kept limits → (c'.Kept limits ↔ c.CleanStep limits a)) :=
    ⟨h.1, fun hk => (h.2 hk).trans <| (Core.clean_iff hs).trans
      ⟨fun hreturns => ⟨hreturns, ha⟩, fun hclean => hclean.returns⟩⟩
  have hv₁ := hv.cleanup limits
  cases a with
  | startExecution request handle =>
    have hs' := Option.some.inj hs
    obtain ⟨es', hes, heq⟩ | ⟨-, -, heq⟩ := c.startExecution_cases limits request handle
    · obtain ⟨rfl, rfl⟩ := Prod.mk.inj (heq.symm.trans hs')
      exact hother (.of_kept ⟨hv₁, fun hk => hk.cleanup⟩ hes) id
    · obtain ⟨rfl, rfl⟩ := Prod.mk.inj (heq.symm.trans hs')
      obtain ⟨hv₂, hk₂⟩ := hv₁.admitStart limits request handle
      exact hother (.of_kept ⟨hv₂, fun hk => hk₂ hk.cleanup⟩ (by simp)) id
  | runExecution request handle spoolError =>
    have hs' := Option.some.inj hs
    obtain ⟨hnot, es', hes, heq⟩ | ⟨hadmits, heq⟩ :=
      c.runExecution_cases limits request handle spoolError
    · obtain ⟨rfl, rfl⟩ := Prod.mk.inj (heq.symm.trans hs')
      exact hother (.of_kept ⟨hv₁, fun hk => hk.cleanup⟩ hes) fun h => hnot h.1
    · obtain ⟨rfl, rfl⟩ := Prod.mk.inj (heq.symm.trans hs')
      obtain ⟨hv₂, hk₂⟩ := hv₁.admitRun limits request handle hadmits.1
      refine ⟨hv₂, fun hk => (hk₂ hk.cleanup).trans ⟨fun h => ⟨nofun, fun hre => h hre.2⟩,
        fun hclean h => hclean.admits ⟨hadmits, h⟩⟩⟩
  | terminateRun call runId grace =>
    have hkept : c'.Valid ∧ (c.Kept limits → c'.Kept limits) := by
      simp only [Core.step, Option.ite_none_right_eq_some] at hs
      have hs := Option.some.inj hs.2
      obtain ⟨error, heq⟩ | ⟨-, heq⟩ := c.terminateRun_cases limits call runId grace <;>
        obtain ⟨rfl, -⟩ := Prod.mk.inj (heq.symm.trans hs)
      · exact ⟨hv, id⟩
      · obtain ⟨hv₂, hk₂⟩ := hv₁.calls limits ((c.cleanup limits).terminateCalls.insert
          call (.lookedUp runId (grace.getD limits.terminationGrace)
            ((c.cleanup limits).registry.runs.lookup runId)))
        exact ⟨hv₂, fun hk => hk₂ hk.cleanup⟩
    rcases Core.promised_step hs with ⟨-, -, hes⟩ | ⟨runId', own, state, hreturning, -, -⟩
    · exact hother (.of_kept hkept hes) id
    · cases hreturning
  | recordPending call => exact hother (hv.recordPending hretention hs) id
  | inspect call => exact hother (hv.inspect hretention hs) id
  | stop call => exact hother (hv.stop hretention hs) id
  | terminate sequence grace reason =>
    obtain ⟨rfl, rfl⟩ := Prod.mk.inj (Option.some.inj hs)
    exact hother (.of_kept (hv.modify sequence (fun x hx => (hv.finished sequence x hx).terminate
      _ _ _) fun x _ _ => x.halted_terminate _ _ _) (by simp)) id
  | advance sequence spawnFails =>
    obtain ⟨x, x', -, -, -, hnil⟩ := Core.advance_cases hs
    exact hother (.of_kept (hv.advance hs) (by simp [hnil])) id
  | cleanup =>
    obtain ⟨rfl, rfl⟩ := Prod.mk.inj (Option.some.inj hs)
    exact hother (.of_kept ⟨hv₁, fun hk => hk.cleanup⟩ (by simp)) id
  | shutdown =>
    obtain ⟨rfl, rfl⟩ := Prod.mk.inj (Option.some.inj hs)
    exact hother (.of_kept ⟨hv.congr rfl rfl rfl rfl le_rfl rfl,
      fun hk => hk.congr rfl rfl le_rfl rfl⟩ (by simp)) id
  | wait time =>
    obtain ⟨rfl, rfl⟩ := Prod.mk.inj (Option.some.inj hs)
    exact hother (.of_kept ⟨hv.congr rfl rfl rfl rfl (Nat.le_add_right _ _) rfl,
      fun hk => hk.congr rfl rfl (Nat.le_add_right _ _) rfl⟩ (by simp)) id

end Step

/-! ### What is not too old -/

/-- The registry has a run that had not finished before some time. -/
def Core.Lasts (c : Core ρ) (id : String) (t : ℕ) : Prop :=
  ∃ sequence x, c.registry.runs.lookup id = some sequence ∧ c.sessions.lookup sequence = some x ∧
    ∀ finishedAt, x.session.finishedAt = some finishedAt → t ≤ finishedAt

/-- The registry has such a run, or a cancellation that had not been recorded before. -/
def Core.Secures (c : Core ρ) (id : String) (t : ℕ) : Prop :=
  c.Lasts id t ∨
    ∃ createdAt, c.registry.pendingRunTerminations.lookup id = some createdAt ∧ t ≤ createdAt

/-- A cancellation that is not too old outlives the removal of old ones. -/
theorem Core.lookup_pending_cleanup {id : String} {t : ℕ}
    (h : c.registry.pendingRunTerminations.lookup id = some t)
    (hage : c.now - t < limits.runOutputRetention) :
    (c.cleanup limits).registry.pendingRunTerminations.lookup id = some t := by
  simp only [Core.cleanup, Registry.cleanup]
  rw [Table.lookup_retain, h, Option.filter_some, if_pos (decide_eq_true hage)]

section Secures

variable {id : String} {t : ℕ}

/-- Sessions that do not finish before that time. -/
theorem Core.Lasts.of_sessions (h : c.Lasts id t)
    (hruns : c'.registry.runs.lookup id = c.registry.runs.lookup id)
    (hsessions : ∀ sequence x, c.registry.runs.lookup id = some sequence →
      c.sessions.lookup sequence = some x → ∃ x', c'.sessions.lookup sequence = some x' ∧
        ∀ f, x'.session.finishedAt = some f → x.session.finishedAt = some f ∨ t ≤ f) :
    c'.Lasts id t := by
  obtain ⟨sequence, x, hrun, hx, hfinished⟩ := h
  obtain ⟨x', hx', hkept⟩ := hsessions sequence x hrun hx
  exact ⟨sequence, x', hruns.trans hrun, hx',
    fun f hf => (hkept f hf).elim (hfinished f) fun h => h⟩

theorem Core.Secures.congr (h : c.Secures id t) (hruns : c'.registry.runs = c.registry.runs)
    (hpending : ∀ createdAt, c.registry.pendingRunTerminations.lookup id = some createdAt →
      c'.registry.pendingRunTerminations.lookup id = some createdAt)
    (hsessions : c'.sessions = c.sessions) : c'.Secures id t :=
  h.imp (fun h => h.of_sessions (by rw [hruns]) fun sequence x _ hx =>
      ⟨x, hsessions ▸ hx, fun _ => Or.inl⟩)
    fun ⟨createdAt, hcreated, hle⟩ => ⟨createdAt, hpending createdAt hcreated, hle⟩

/-- Nothing of this is removed before it is too old. -/
theorem Core.Valid.secures_cleanup (hv : c.Valid) (h : c.Secures id t)
    (hage : c.now - t < limits.runOutputRetention) : (c.cleanup limits).Secures id t := by
  rcases h with hlasts | ⟨createdAt, hcreated, hle⟩
  · refine Or.inl (hlasts.of_sessions ?_ fun _ x _ hx => ⟨x, hx, fun _ => Or.inl⟩)
    obtain ⟨sequence, x, hrun, hx, hfinished⟩ := hlasts
    rw [Core.cleanup, Registry.cleanup, Table.lookup_eraseAll, if_neg]
    intro hmem
    obtain ⟨⟨sequence', entry⟩, he, hid⟩ := List.mem_filterMap.mp hmem
    obtain ⟨hentry, hexpired⟩ := Table.mem_select_iff.mp he
    obtain ⟨request, hrequest, -⟩ : ∃ request, entry.runRequest = some request ∧ _ :=
      Option.map_eq_some_iff.mp hid
    -- the entry that expires is that of the run
    obtain rfl : sequence = sequence' :=
      Option.some.inj (hrun.symm.trans ((hv.indexed id sequence').mpr ⟨entry, hentry, hid⟩))
    simp only [Registry.isExpired, hx, Option.bind_some, hrequest, Option.isSome_some,
      if_true] at hexpired
    cases hf : x.session.finishedAt with
    | none => simp [hf] at hexpired
    | some f =>
      have hold := hfinished f hf
      simp only [hf, decide_eq_true_eq] at hexpired
      omega
  · exact Or.inr ⟨createdAt, Core.lookup_pending_cleanup hcreated (by omega), hle⟩

/-- A session keeps the time at which it finished. -/
theorem Execution.finishedAt_advance {x x' : Execution} {now f : ℕ} {spawnFails : Bool}
    (hx : x.advance now spawnFails = some x') (hf : x'.session.finishedAt = some f) :
    x.session.finishedAt = some f ∨ f = now := by
  cases hp : x.phase <;> simp only [Execution.advance, hp] at hx
  case spawning =>
    split_ifs at hx <;> obtain rfl := Option.some.inj hx
    · exact Or.inr (Option.some.inj hf).symm
    · exact Or.inl hf
  case done => cases hx
  all_goals obtain rfl := Option.some.inj hx
  case cancelled | draining => exact Or.inr (Option.some.inj hf).symm
  case spawned | waiting => exact Or.inl hf

theorem Session.finishedAt_terminate (s : Session) (now grace : ℕ) (reason : StopReason) :
    (s.terminate now grace reason).finishedAt = s.finishedAt := by
  rw [Session.terminate]
  split_ifs <;> rfl

theorem Core.Secures.modify (h : c.Secures id t) (sequence : ℕ) {f : Execution → Execution}
    (hf : ∀ x finishedAt, c.sessions.lookup sequence = some x →
      (f x).session.finishedAt = some finishedAt → x.session.finishedAt = some finishedAt ∨
        t ≤ finishedAt) :
    Core.Secures { c with sessions := c.sessions.modify sequence f } id t := by
  refine h.imp_left fun h => h.of_sessions rfl fun s x _ hx => ?_
  rcases eq_or_ne s sequence with rfl | hne
  · exact ⟨f x, by rw [Table.lookup_modify, hx]; rfl, fun finishedAt => hf x finishedAt hx⟩
  · exact ⟨x, by rwa [Table.lookup_modify_of_ne hne], fun _ => Or.inl⟩

theorem Core.Secures.terminate (h : c.Secures id t) (sequence grace : ℕ) (reason : StopReason) :
    Core.Secures { c with sessions := c.sessions.modify sequence fun x =>
      { x with session := x.session.terminate c.now grace reason } } id t := by
  refine h.modify sequence fun x finishedAt _ hf => Or.inl ?_
  rwa [Session.finishedAt_terminate] at hf

/-- A new session is recorded beside those that are there. -/
theorem Core.Secures.record (h : c.Secures id t) (hv : c.Valid) (entry : Entry ρ) (phase : Phase) :
    (c.record entry phase).Secures id t :=
  h.imp_left fun h => h.of_sessions rfl fun _ x hrun hx =>
    ⟨x, by rwa [hv.lookup_record (hv.recorded hrun)], fun _ => Or.inl⟩

theorem Core.Secures.admitRun (h : c.Secures id t) (hv : c.Valid) (request : RunRequest ρ)
    (handle : Uuid) : (c.admitRun request handle).Secures id t := by
  rcases eq_or_ne id request.runId with rfl | hne
  · exact Or.inl ⟨c.registry.nextSequence, _, AList.lookup_insert _, AList.lookup_insert _,
      fun f hf => by cases hf⟩
  · refine (h.record hv ⟨handle, none, some request⟩ _).imp
      (fun h => h.of_sessions (AList.lookup_insert_ne hne) fun _ x _ hx =>
        ⟨x, hx, fun _ => Or.inl⟩) fun ⟨createdAt, hcreated, hle⟩ => ⟨createdAt, ?_, hle⟩
    rw [Core.admitRun, AList.lookup_erase_ne hne]
    exact hcreated

/-- Recording a cancellation leaves older ones alone. -/
theorem Core.lookup_recorded {createdAt : ℕ} (runId : String)
    (h : c.registry.pendingRunTerminations.lookup id = some createdAt) :
    (c.recorded runId).lookup id = some createdAt := by
  rw [Core.recorded]
  split_ifs with hsome
  · exact h
  · rcases eq_or_ne id runId with rfl | hne
    · rw [h] at hsome
      exact absurd rfl hsome
    · rwa [AList.lookup_insert_ne hne]

/-- A cancellation that is recorded is there, and not older than any that was. -/
theorem Core.le_lookup_recorded {runId : String}
    (h : ∀ createdAt, c.registry.pendingRunTerminations.lookup runId = some createdAt →
      c.now ≤ createdAt) :
    ∃ createdAt, (c.recorded runId).lookup runId = some createdAt ∧ c.now ≤ createdAt := by
  rw [Core.recorded]
  split_ifs with hsome
  · obtain ⟨createdAt, hcreated⟩ := Option.isSome_iff_exists.mp hsome
    exact ⟨createdAt, hcreated, h createdAt hcreated⟩
  · exact ⟨c.now, AList.lookup_insert _, le_rfl⟩

/-- No step gives any of this up before it is too old. -/
theorem Core.Valid.secures_step [DecidableEq ρ] {a : Action ρ} {es : List Event} (hv : c.Valid)
    (hs : c.step limits a = some (c', es)) (h : c.Secures id t) (ht : t ≤ c.now)
    (hage : c.now - t < limits.runOutputRetention) : c'.Secures id t := by
  have hclean := hv.secures_cleanup h hage
  cases a with
  | startExecution request handle =>
    have hs := Option.some.inj hs
    obtain ⟨es', -, heq⟩ | ⟨-, -, heq⟩ := c.startExecution_cases limits request handle
    · obtain ⟨rfl, -⟩ := Prod.mk.inj (heq.symm.trans hs)
      exact hclean
    · obtain ⟨rfl, -⟩ := Prod.mk.inj (heq.symm.trans hs)
      exact (hclean.record (hv.cleanup limits) ⟨handle, some request, none⟩ .spawning).congr rfl
        (fun _ h => h) rfl
  | runExecution request handle spoolError =>
    have hs := Option.some.inj hs
    obtain ⟨-, es', -, heq⟩ | ⟨-, heq⟩ := c.runExecution_cases limits request handle spoolError
    · obtain ⟨rfl, -⟩ := Prod.mk.inj (heq.symm.trans hs)
      exact hclean
    · obtain ⟨rfl, -⟩ := Prod.mk.inj (heq.symm.trans hs)
      exact hclean.admitRun (hv.cleanup limits) request handle
  | terminateRun call runId grace =>
    simp only [Core.step, Option.ite_none_right_eq_some] at hs
    have hs := Option.some.inj hs.2
    obtain ⟨error, heq⟩ | ⟨-, heq⟩ := c.terminateRun_cases limits call runId grace <;>
      obtain ⟨rfl, -⟩ := Prod.mk.inj (heq.symm.trans hs)
    · exact h
    · exact hclean.congr rfl (fun _ h => h) rfl
  | recordPending call =>
    obtain ⟨runId, grace, -, ⟨-, rfl, -⟩ | ⟨-, rfl, -⟩⟩ := Core.recordPending_cases hs
    · exact h.congr rfl (fun _ h => h) rfl
    · exact h.congr rfl (fun _ => Core.lookup_recorded runId) rfl
  | inspect call =>
    obtain ⟨runId, grace, own, x, -, -, ⟨-, rfl, -⟩ | ⟨-, rfl, -⟩⟩ := Core.inspect_cases hs
    · exact h.congr rfl (fun _ h => h) rfl
    · exact h.congr rfl (fun _ h => h) rfl
  | stop call =>
    obtain ⟨runId, grace, own, -, rfl, -⟩ := Core.stop_cases hs
    exact (h.terminate own grace .explicitTermination).congr rfl (fun _ h => h) rfl
  | terminate sequence grace reason =>
    obtain ⟨rfl, -⟩ := Prod.mk.inj (Option.some.inj hs)
    exact h.terminate sequence grace reason
  | advance sequence spawnFails =>
    obtain ⟨x, x', hx, hadvance, rfl, -⟩ := Core.advance_cases hs
    refine h.modify sequence fun y finishedAt hy hf => ?_
    obtain rfl : x = y := Option.some.inj (hx.symm.trans hy)
    exact (Execution.finishedAt_advance hadvance hf).imp_right fun heq => ht.trans_eq heq.symm
  | cleanup =>
    obtain ⟨rfl, -⟩ := Prod.mk.inj (Option.some.inj hs)
    exact hclean
  | shutdown | wait =>
    obtain ⟨rfl, -⟩ := Prod.mk.inj (Option.some.inj hs)
    exact h.congr rfl (fun _ h => h) rfl

end Secures

/-! ### Runs -/

section Runs

variable [DecidableEq ρ] {a : Action ρ} {es : List Event}

/-- A step that is no return of a call that was raced, or that has found a record of the run, or a
cancellation of it, that is older than its return. -/
structure Core.FreshStep (limits : Limits) (c : Core ρ) (a : Action ρ) : Prop where
  returns : ∀ runId own, c.returning limits a = some (runId, own) → c.raced runId own = false
  found : ∀ runId own, c.returning limits a = some (runId, own) → c.Lasts runId c.now ∨
    own = none ∧ ∀ createdAt, c.registry.pendingRunTerminations.lookup runId = some createdAt →
      c.now ≤ createdAt

/-- For every confirmed termination that is to be retained, the registry has what is not too old. -/
def Core.Secured (limits : Limits) (c : Core ρ) : Prop :=
  ∀ id t, (id, t) ∈ c.promised → c.now - t < limits.runOutputRetention → c.Secures id t

omit [DecidableEq ρ] in
/-- Nothing that is secured is admitted again. -/
theorem Core.Secured.not_readmits (h : c.Secured limits) (hv : c.Valid) :
    ¬c.Readmits limits a := by
  cases a with
  | runExecution request handle spoolError =>
    rintro ⟨⟨hnone, -⟩, hpending, t, ht, hage⟩
    rcases hv.secures_cleanup (h request.runId t ht hage) hage with ⟨_, _, hrun, -⟩ | ⟨_, hc, -⟩
    · cases hnone.symm.trans hrun
    · cases hpending.symm.trans hc
  | _ => exact fun h => h

/-- Time does not go back. -/
theorem Core.now_le_step (hs : c.step limits a = some (c', es)) : c.now ≤ c'.now := by
  cases a with
  | startExecution request handle =>
    have hs := Option.some.inj hs
    obtain ⟨es', -, heq⟩ | ⟨-, -, heq⟩ := c.startExecution_cases limits request handle <;>
      exact (Prod.mk.inj (heq.symm.trans hs)).1 ▸ le_refl c.now
  | runExecution request handle spoolError =>
    have hs := Option.some.inj hs
    obtain ⟨-, es', -, heq⟩ | ⟨-, heq⟩ := c.runExecution_cases limits request handle spoolError <;>
      exact (Prod.mk.inj (heq.symm.trans hs)).1 ▸ le_refl c.now
  | terminateRun call runId grace =>
    simp only [Core.step, Option.ite_none_right_eq_some] at hs
    have hs := Option.some.inj hs.2
    obtain ⟨error, heq⟩ | ⟨-, heq⟩ := c.terminateRun_cases limits call runId grace <;>
      exact (Prod.mk.inj (heq.symm.trans hs)).1 ▸ le_refl c.now
  | recordPending call =>
    obtain ⟨runId, grace, -, ⟨-, rfl, -⟩ | ⟨-, rfl, -⟩⟩ := Core.recordPending_cases hs
    · exact le_refl c.now
    · exact le_refl c.now
  | inspect call =>
    obtain ⟨runId, grace, own, x, -, -, ⟨-, rfl, -⟩ | ⟨-, rfl, -⟩⟩ := Core.inspect_cases hs
    · exact le_refl c.now
    · exact le_refl c.now
  | stop call =>
    obtain ⟨runId, grace, own, -, rfl, -⟩ := Core.stop_cases hs
    exact le_refl c.now
  | advance sequence spawnFails =>
    obtain ⟨x, x', -, -, rfl, -⟩ := Core.advance_cases hs
    exact le_refl c.now
  | terminate | cleanup | shutdown =>
    exact (Prod.mk.inj (Option.some.inj hs)).1 ▸ le_refl c.now
  | wait time => exact (Prod.mk.inj (Option.some.inj hs)).1 ▸ Nat.le_add_right c.now time

/-- The termination of a run is secured when a call returns about it that has found nothing old. -/
theorem Core.Valid.secures_returned {runId : String} {own : Option ℕ} (hv : c.Valid)
    (hretention : 0 < limits.runOutputRetention) (hs : c.step limits a = some (c', es))
    (hreturning : c.returning limits a = some (runId, own))
    (hfound : c.Lasts runId c.now ∨ own = none ∧ ∀ createdAt,
      c.registry.pendingRunTerminations.lookup runId = some createdAt → c.now ≤ createdAt) :
    c'.Secures runId c.now := by
  rcases hfound with hlasts | ⟨rfl, hold⟩
  · exact hv.secures_step hs (Or.inl hlasts) le_rfl (by rwa [Nat.sub_self])
  · cases a with
    | recordPending call =>
      obtain ⟨runId', grace, hcall, hcases⟩ := Core.recordPending_cases hs
      simp only [Core.returning, hcall, Option.ite_none_left_eq_some] at hreturning
      obtain ⟨hroom, hsame⟩ := hreturning
      obtain ⟨rfl, -⟩ := Prod.mk.inj (Option.some.inj hsame)
      obtain ⟨hfull, -⟩ | ⟨-, rfl, -⟩ := hcases
      · exact absurd hfull hroom
      · exact Or.inr (Core.le_lookup_recorded hold)
    | inspect call | stop call =>
      simp only [Core.returning] at hreturning
      split at hreturning
      · first
        | cases hreturning
        | split_ifs at hreturning
          cases hreturning
      · cases hreturning
    | _ => cases hreturning

/-- Fresh steps keep what is secured. -/
theorem Core.Secured.step (h : c.Secured limits) (hv : c.Valid)
    (hretention : 0 < limits.runOutputRetention) (hs : c.step limits a = some (c', es))
    (hfresh : c.FreshStep limits a) : c'.Secured limits := by
  have hnow := Core.now_le_step hs
  have hold (id : String) (t : ℕ) (ht : (id, t) ∈ c.promised)
      (hage : c'.now - t < limits.runOutputRetention) : c'.Secures id t :=
    hv.secures_step hs (h id t ht (lt_of_le_of_lt (Nat.sub_le_sub_right hnow t) hage))
      (hv.dated id t ht) (lt_of_le_of_lt (Nat.sub_le_sub_right hnow t) hage)
  rcases Core.promised_step hs with ⟨-, hsame, -⟩ | ⟨runId, own, state, hreturning, hnew, -⟩
  · exact fun id t ht hage => hold id t (hsame ▸ ht) hage
  · intro id t ht hage
    rw [hnew] at ht
    rcases List.mem_cons.mp ht with heq | hmem
    · obtain ⟨rfl, rfl⟩ := Prod.mk.inj heq
      exact hv.secures_returned hretention hs hreturning (hfresh.found id own hreturning)
    · exact hold id t hmem hage

/-- **Early cancellation.** The confirmed terminations hold in every state of a run of the runtime,
each until `run_output_retention` has passed since its return, exactly when every step is clean: no
call of `terminate_run` was raced, which means that before its last locked section the registry held
no session of the run, other than the one the call had looked up, that nothing had stopped; and
no run was admitted again after the registry had given up both its record and its cancellation. The
latter never happens when each call, at its return, found a record of the run that had not finished
before, or no session and no cancellation that was recorded before. -/
theorem kept_iff_clean (hretention : 0 < limits.runOutputRetention) (as : List (Action ρ)) :
    ((system limits).Steps (fun _ _ c => c.Kept limits) .init as ↔
      (system limits).Steps (fun c a _ => c.CleanStep limits a) .init as) ∧
    ((system limits).Steps (fun c a _ => c.FreshStep limits a) .init as →
      (system limits).Steps (fun _ _ c => c.Kept limits) .init as) := by
  have hinit : (Core.init : Core ρ).Valid ∧ (Core.init : Core ρ).Kept limits :=
    ⟨Core.valid_init, Core.kept_init⟩
  refine ⟨⟨.imp (I := fun c => c.Valid ∧ c.Kept limits) ?_ hinit,
    .imp (I := fun c => c.Valid ∧ c.Kept limits) ?_ hinit⟩,
    .imp (I := fun c => c.Valid ∧ c.Kept limits ∧ c.Secured limits) ?_
      ⟨hinit.1, hinit.2, by simp [Core.Secured, Core.init]⟩⟩
  · intro c a c' es ⟨hv, hk⟩ hs hkept
    obtain ⟨hv', hiff⟩ := hv.step hretention hs
    exact ⟨⟨hv', hkept⟩, (hiff hk).mp hkept⟩
  · intro c a c' es ⟨hv, hk⟩ hs hclean
    obtain ⟨hv', hiff⟩ := hv.step hretention hs
    exact ⟨⟨hv', (hiff hk).mpr hclean⟩, (hiff hk).mpr hclean⟩
  · intro c a c' es ⟨hv, hk, hsecured⟩ hs hfresh
    obtain ⟨hv', hiff⟩ := hv.step hretention hs
    have hkept := (hiff hk).mpr ⟨hfresh.returns, hsecured.not_readmits hv⟩
    exact ⟨⟨hv', hkept, hsecured.step hv hretention hs hfresh⟩, hkept⟩

end Runs

/-! ### Runs that are cancelled -/

/-- Limits for the examples. -/
def someLimits : Limits := ⟨1, 1, 8, 8, 1, 1⟩

/-- Limits with ten units of time for which runs are retained. -/
def retainingLimits : Limits := ⟨1, 10, 8, 8, 1, 1⟩

/-- The handle of the session in the examples. -/
def someHandle : Uuid := ⟨"00000000-0000-4000-8000-000000000002", by decide⟩

theorem Core.FreshStep.of_none [DecidableEq ρ] {a : Action ρ} (h : c.returning limits a = none) :
    c.FreshStep limits a := by
  constructor <;> intro runId own hsome <;> cases h.symm.trans hsome

/-- Run `r` is cancelled before it is requested, and is admitted and finished without a process;
run `s` is cancelled while its process is running. -/
def cancelActions : List (Action Unit) :=
  [.terminateRun 0 "r" none, .recordPending 0, .wait 3, .runExecution ⟨"r", ()⟩ someHandle none,
    .advance 1 false, .runExecution ⟨"s", ()⟩ (.numbered 3) none, .advance 2 false,
    .advance 2 false, .terminateRun 1 "s" none, .inspect 1, .stop 1, .advance 2 false]

/-- Both cancellations are kept. -/
theorem kept_iff_clean_early :
    (system retainingLimits).Steps (fun _ _ c => c.Kept retainingLimits) .init cancelActions ∧
      ((system retainingLimits).exec .init cancelActions).any (fun r =>
        r.1.registry.runs.lookup "r" = some 1 && r.1.registry.runs.lookup "s" = some 2 &&
          r.1.promised = [("s", 3), ("r", 0)]) = true := by
  refine ⟨(kept_iff_clean (by decide) cancelActions).2 ?_, by decide⟩
  refine ⟨_, _, rfl, .of_none rfl, _, _, rfl, ⟨?_, ?_⟩, _, _, rfl, .of_none rfl, _, _, rfl,
    .of_none rfl, _, _, rfl, .of_none rfl, _, _, rfl, .of_none rfl, _, _, rfl, .of_none rfl, _, _,
    rfl, .of_none rfl, _, _, rfl, .of_none rfl, _, _, rfl, .of_none rfl, _, _, rfl, ⟨?_, ?_⟩, _, _,
    rfl, .of_none rfl, trivial⟩
  · rintro _ _ ⟨⟩
    rfl
  · rintro _ _ ⟨⟩
    exact Or.inr ⟨rfl, fun _ h => by cases h⟩
  · rintro _ _ ⟨⟩
    rfl
  · rintro _ _ ⟨⟩
    exact Or.inl ⟨2, _, rfl, rfl, fun _ h => by cases h⟩

/-- Run `r` is admitted between the two locked sections of its cancellation. -/
def racedActions : List (Action Unit) :=
  [.terminateRun 0 "r" none, .runExecution ⟨"r", ()⟩ someHandle none, .recordPending 0,
    .advance 1 false, .advance 1 false]

/-- Run `r` is cancelled twice and admitted when the first cancellation has become too old. -/
def repeatedActions : List (Action Unit) :=
  [.terminateRun 0 "r" none, .recordPending 0, .wait 6, .terminateRun 1 "r" none, .recordPending 1,
    .wait 4, .runExecution ⟨"r", ()⟩ someHandle none, .advance 1 false, .advance 1 false]

/-- Whether a run whose termination is to be retained is left running. -/
def Core.leaves (limits : Limits) (c : Core ρ) (id : String) : Bool :=
  (c.promised.any fun p => p.1 = id && c.now - p.2 < limits.runOutputRetention) &&
    (c.registry.runs.lookup id).any fun sequence =>
      !(c.sessions.lookup sequence).any Execution.halted

theorem Core.not_kept_of_leaves {id : String} (h : c.leaves limits id = true) :
    ¬c.Kept limits := by
  intro hkept
  rw [Core.leaves, Bool.and_eq_true] at h
  obtain ⟨⟨id', t⟩, ht, hp⟩ := List.any_eq_true.mp h.1
  obtain ⟨sequence, hrun, hrunning⟩ := (Option.any_eq_true _ _).mp h.2
  simp only [Bool.and_eq_true, decide_eq_true_eq] at hp
  obtain ⟨rfl, hage⟩ := hp
  rw [hkept id' t ht hage sequence hrun] at hrunning
  cases hrunning

/-- A run that is left running breaks its promise on the way. -/
theorem Core.not_steps_kept_of_leaves [DecidableEq ρ] {id : String} {as : List (Action ρ)}
    (h : ((system limits).exec .init as).any (fun r => r.1.leaves limits id) = true) :
    ¬((system limits).Steps (fun _ _ _ => True) .init as →
      (system limits).Steps (fun _ _ c => c.Kept limits) .init as) := by
  intro hall
  obtain ⟨⟨c, log⟩, hexec, hleft⟩ := (Option.any_eq_true _ _).mp h
  have hsteps : (system limits).Steps (fun _ _ c => c.Kept limits) .init (as ++ []) := by
    rw [List.append_nil]
    exact hall (.of_exec (Option.isSome_of_eq_some hexec))
  have hkept : (Core.init : Core ρ).Kept limits → c.Kept limits :=
    hsteps.trans (P := fun _ _ c => c.Kept limits)
      (R := fun c c' => c.Kept limits → c'.Kept limits) (fun _ h => h)
      (fun h h' hk => h' (h hk)) (fun _ hk _ => hk) hexec
  exact Core.not_kept_of_leaves hleft (hkept Core.kept_init)

/-- Both runs are left running. -/
theorem not_forall_kept :
    ¬((system retainingLimits).Steps (fun _ _ _ => True) .init racedActions →
      (system retainingLimits).Steps (fun _ _ c => c.Kept retainingLimits) .init racedActions) ∧
    ¬((system retainingLimits).Steps (fun _ _ _ => True) .init repeatedActions →
      (system retainingLimits).Steps (fun _ _ c => c.Kept retainingLimits) .init
        repeatedActions) := by
  have hraced : ((system retainingLimits).exec .init racedActions).any
      (fun r => r.1.leaves retainingLimits "r") = true := by decide
  have hrepeated : ((system retainingLimits).exec .init repeatedActions).any
      (fun r => r.1.leaves retainingLimits "r") = true := by decide
  exact ⟨Core.not_steps_kept_of_leaves hraced, Core.not_steps_kept_of_leaves hrepeated⟩

end ExecutionProvider.Runtime
