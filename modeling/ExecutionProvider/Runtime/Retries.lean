import ExecutionProvider.Runtime.Cancellation

/-!
# Cancelling a run again

A run that is not there yet can be cancelled, and the cancellation is kept until the run is
admitted or the cancellation is too old. Whoever cancels the run again in the meantime is to be
told the same. But the call looks whether there is room for another cancellation before it looks
whether the run has been cancelled already.

## Main definitions

* `Action.call`: the call that a locked section belongs to.
* `Retry`: a call that cancels a run again, before its last locked section.
* `Repeats`: it is told the same and changes nothing.

## Main results

* `Core.lookup_pending_step`: what every step leaves of a cancellation.
* `repeats_iff`: a run is cancelled again exactly if there is room for another cancellation.
-/

namespace ExecutionProvider.Runtime

variable {ρ : Type} {limits : Limits} {c c' : Core ρ}

/-- The call of `terminate_run` that a locked section belongs to. -/
def Action.call : Action ρ → Option ℕ
  | .terminateRun call _ _ => some call
  | .recordPending call => some call
  | .inspect call => some call
  | .stop call => some call
  | _ => none

/-! ### What a step leaves of a cancellation -/

/-- What a step leaves alone: time does not go back, the calls of others stay where they are, and so
do the cancellations that are not too old and whose runs are not admitted. -/
structure Core.Frame (limits : Limits) (a : Action ρ) (c c' : Core ρ) : Prop where
  now : c.now ≤ c'.now
  calls : ∀ call, a.call ≠ some call →
    c'.terminateCalls.lookup call = c.terminateCalls.lookup call
  pending : ∀ id t, c.registry.pendingRunTerminations.lookup id = some t →
    c'.now - t < limits.runOutputRetention → c'.registry.runs.lookup id = none →
    c'.registry.pendingRunTerminations.lookup id = some t

theorem Core.Frame.of_eq {a : Action ρ} (hnow : c.now ≤ c'.now)
    (hcalls : ∀ call, a.call ≠ some call →
      c'.terminateCalls.lookup call = c.terminateCalls.lookup call)
    (hpending : c'.registry.pendingRunTerminations = c.registry.pendingRunTerminations) :
    Core.Frame limits a c c' :=
  ⟨hnow, hcalls, fun id t h _ _ => by rw [hpending, h]⟩

theorem Core.Frame.of_cleanup {a : Action ρ} (hnow : c'.now = c.now)
    (hcalls : ∀ call, a.call ≠ some call →
      c'.terminateCalls.lookup call = c.terminateCalls.lookup call)
    (hpending : c'.registry.pendingRunTerminations =
      (c.cleanup limits).registry.pendingRunTerminations) : Core.Frame limits a c c' :=
  ⟨hnow.ge, hcalls, fun id t h hage _ => by
    rw [hpending]
    exact Core.lookup_pending_cleanup h (hnow ▸ hage)⟩

theorem Core.lookup_confirm (c : Core ρ) {call call' : ℕ} (runId : String) (h : call' ≠ call) :
    (c.confirm call runId).terminateCalls.lookup call' = c.terminateCalls.lookup call' :=
  AList.lookup_erase_ne h

section Sections

variable [DecidableEq ρ]

/-- Starting an execution does not concern the cancellations. -/
theorem Core.startExecution_frame (c : Core ρ) (request : StartRequest ρ) (handle : Uuid) :
    (c.startExecution limits request handle).1.registry.pendingRunTerminations =
        (c.cleanup limits).registry.pendingRunTerminations ∧
      (c.startExecution limits request handle).1.terminateCalls = c.terminateCalls ∧
      (c.startExecution limits request handle).1.now = c.now := by
  obtain ⟨es, -, heq⟩ | ⟨-, -, heq⟩ := c.startExecution_cases limits request handle <;> rw [heq] <;>
    exact ⟨rfl, rfl, rfl⟩

/-- Running an execution does not concern the cancellations of other runs. -/
theorem Core.runExecution_frame (c : Core ρ) (request : RunRequest ρ) (handle : Uuid)
    (spoolError : Option String) :
    ((c.runExecution limits request handle spoolError).1.registry.pendingRunTerminations =
        (c.cleanup limits).registry.pendingRunTerminations ∨
      (c.runExecution limits request handle spoolError).1.registry.pendingRunTerminations =
          (c.cleanup limits).registry.pendingRunTerminations.erase request.runId ∧
        ((c.runExecution limits request handle spoolError).1.registry.runs.lookup
          request.runId).isSome = true) ∧
      (c.runExecution limits request handle spoolError).1.terminateCalls = c.terminateCalls ∧
      (c.runExecution limits request handle spoolError).1.now = c.now := by
  obtain ⟨-, es, -, heq⟩ | ⟨-, heq⟩ := c.runExecution_cases limits request handle spoolError <;>
    rw [heq]
  · exact ⟨.inl rfl, rfl, rfl⟩
  · refine ⟨.inr ⟨rfl, ?_⟩, rfl, rfl⟩
    rw [Core.admitRun, AList.lookup_insert]
    rfl

/-- Every step leaves these things alone. -/
theorem Core.frame_step {a : Action ρ} {es : List Event}
    (hs : c.step limits a = some (c', es)) : Core.Frame limits a c c' := by
  have hother {call call' : ℕ} (h : some call ≠ some call') : call' ≠ call :=
    fun heq => h (congrArg some heq.symm)
  cases a with
  | startExecution request handle =>
    obtain ⟨rfl, -⟩ := Prod.ext_iff.mp (Option.some.inj hs)
    obtain ⟨hpending, hcalls, hnow⟩ := @Core.startExecution_frame _ limits _ c request handle
    exact .of_cleanup hnow (fun call _ => by rw [hcalls]) hpending
  | runExecution request handle spoolError =>
    obtain ⟨rfl, -⟩ := Prod.ext_iff.mp (Option.some.inj hs)
    obtain ⟨hpending | ⟨hpending, hrun⟩, hcalls, hnow⟩ :=
      @Core.runExecution_frame _ limits _ c request handle spoolError
    · exact .of_cleanup hnow (fun call _ => by rw [hcalls]) hpending
    · -- The run that is admitted is another one.
      refine ⟨hnow.ge, fun call _ => by rw [hcalls], fun id t h hage hopen => ?_⟩
      have hne : id ≠ request.runId := by
        rintro rfl
        rw [hopen] at hrun
        cases hrun
      rw [hpending, AList.lookup_erase_ne hne]
      exact Core.lookup_pending_cleanup h (hnow ▸ hage)
  | terminateRun call runId grace =>
    simp only [Core.step, Option.ite_none_right_eq_some] at hs
    obtain ⟨rfl, -⟩ := Prod.ext_iff.mp (Option.some.inj hs.2)
    obtain ⟨error, heq⟩ | ⟨-, heq⟩ := c.terminateRun_cases limits call runId grace <;> rw [heq]
    · exact .of_eq le_rfl (fun _ _ => rfl) rfl
    · exact .of_cleanup rfl (fun call' h => AList.lookup_insert_ne (hother h)) rfl
  | recordPending call =>
    obtain ⟨runId, grace, -, ⟨-, rfl, -⟩ | ⟨-, rfl, -⟩⟩ := Core.recordPending_cases hs
    · exact .of_eq le_rfl (fun call' h => AList.lookup_erase_ne (hother h)) rfl
    · exact ⟨le_rfl, fun call' h => Core.lookup_confirm _ _ (hother h),
        fun id t h _ _ => Core.lookup_recorded runId h⟩
  | inspect call =>
    obtain ⟨runId, grace, own, x, -, -, ⟨-, rfl, -⟩ | ⟨-, rfl, -⟩⟩ := Core.inspect_cases hs
    · exact .of_eq le_rfl (fun call' h => Core.lookup_confirm _ _ (hother h)) rfl
    · exact .of_eq le_rfl (fun call' h => AList.lookup_insert_ne (hother h)) rfl
  | stop call =>
    obtain ⟨runId, grace, own, -, rfl, -⟩ := Core.stop_cases hs
    exact .of_eq le_rfl (fun call' h => Core.lookup_confirm _ _ (hother h)) rfl
  | advance sequence spawnFails =>
    obtain ⟨x, x', -, -, rfl, -⟩ := Core.advance_cases hs
    exact .of_eq le_rfl (fun _ _ => rfl) rfl
  | cleanup =>
    cases hs
    exact .of_cleanup rfl (fun _ _ => rfl) rfl
  | terminate | shutdown =>
    cases hs
    exact .of_eq le_rfl (fun _ _ => rfl) rfl
  | wait time =>
    cases hs
    exact .of_eq (Nat.le_add_right _ _) (fun _ _ => rfl) rfl

/-- A cancellation outlives all that happens before it is too old and its run is admitted. -/
theorem Core.lookup_pending_exec {as : List (Action ρ)} {es : List Event} {id : String} {t : ℕ}
    (hexec : (system limits).exec c as = some (c', es))
    (h : c.registry.pendingRunTerminations.lookup id = some t)
    (hage : c'.now - t < limits.runOutputRetention)
    (hopen : ∀ before after v es, as = before ++ after →
      (system limits).exec c before = some (v, es) → v.registry.runs.lookup id = none) :
    c'.registry.pendingRunTerminations.lookup id = some t := by
  induction as generalizing c es with
  | nil =>
    cases hexec
    exact h
  | cons a as ih =>
    rw [System.exec] at hexec
    split at hexec
    · cases hexec
    · next v es' hstep =>
      obtain ⟨⟨d, es''⟩, hrest, heq⟩ := Option.map_eq_some_iff.mp hexec
      cases heq
      have hcons {before : List (Action ρ)} {u : Core ρ} {es : List Event}
          (hbefore : (system limits).exec v before = some (u, es)) :
          (system limits).exec c (a :: before) = some (u, es' ++ es) := by
        rw [System.exec, hstep]
        dsimp only
        rw [hbefore]
        rfl
      have hframe := Core.frame_step hstep
      have hnow : v.now ≤ d.now :=
        (System.Path.of_exec hrest).preserves (I := fun u => v.now ≤ u.now)
          (fun hle hs => hle.trans (Core.frame_step hs).now) le_rfl
      have hage' := (Nat.sub_le_sub_right hnow t).trans_lt hage
      have hv := hframe.pending id t h hage' (hopen [a] as v _ rfl (hcons rfl))
      exact ih hrest hv fun before after u es heq hbefore =>
        hopen (a :: before) after u _ (congrArg (a :: ·) heq) (hcons hbefore)

/-- A call stays where it is while others take steps. -/
theorem Core.lookup_calls_exec {as : List (Action ρ)} {es : List Event} {call : ℕ}
    (hexec : (system limits).exec c as = some (c', es)) (h : ∀ a ∈ as, a.call ≠ some call) :
    c'.terminateCalls.lookup call = c.terminateCalls.lookup call := by
  induction as generalizing c es with
  | nil =>
    cases hexec
    rfl
  | cons a as ih =>
    rw [System.exec] at hexec
    split at hexec
    · cases hexec
    · next v es' hstep =>
      obtain ⟨⟨d, es''⟩, hrest, heq⟩ := Option.map_eq_some_iff.mp hexec
      cases heq
      rw [List.forall_mem_cons] at h
      rw [ih hrest h.2, (Core.frame_step hstep).calls call h.1]

/-! ### Calls -/

/-- The calls that are under way are about identities. -/
def Core.Asked (c : Core ρ) : Prop :=
  ∀ call id grace own, c.terminateCalls.lookup call = some (.lookedUp id grace own) →
    ¬(id = "" ∨ 256 < id.utf8ByteSize)

theorem Core.Asked.step {a : Action ρ} {es : List Event} (h : c.Asked)
    (hs : c.step limits a = some (c', es)) : c'.Asked := by
  intro call id grace own hcall
  by_cases hown : a.call = some call
  · have hnone (calls : Table ℕ TerminateCall) (heq : (calls.erase call).lookup call =
        some (.lookedUp id grace own)) : False := by
      rw [AList.lookup_erase] at heq
      cases heq
    cases a with
    | terminateRun call' runId grace' =>
      obtain rfl := Option.some.inj hown
      simp only [Core.step, Option.ite_none_right_eq_some] at hs
      obtain ⟨rfl, -⟩ := Prod.ext_iff.mp (Option.some.inj hs.2)
      obtain ⟨error, heq⟩ | ⟨hid, heq⟩ := c.terminateRun_cases limits call' runId grace' <;>
        rw [heq] at hcall
      · exact h _ id grace own hcall
      · rw [AList.lookup_insert] at hcall
        cases hcall
        exact hid
    | recordPending call' =>
      obtain rfl := Option.some.inj hown
      obtain ⟨_, _, -, ⟨-, rfl, -⟩ | ⟨-, rfl, -⟩⟩ := Core.recordPending_cases hs
      · exact absurd hcall (hnone _)
      · exact absurd hcall (hnone _)
    | inspect call' =>
      obtain rfl := Option.some.inj hown
      obtain ⟨_, _, _, _, -, -, ⟨-, rfl, -⟩ | ⟨-, rfl, -⟩⟩ := Core.inspect_cases hs
      · exact absurd hcall (hnone _)
      · rw [AList.lookup_insert] at hcall
        cases hcall
    | stop call' =>
      obtain rfl := Option.some.inj hown
      obtain ⟨_, _, _, -, rfl, -⟩ := Core.stop_cases hs
      exact absurd hcall (hnone _)
    | _ => cases hown
  · rw [(Core.frame_step hs).calls call hown] at hcall
    exact h call id grace own hcall

theorem Core.Asked.of_run {log : List Event} (h : (system limits).Run log c) : c.Asked := by
  refine h.invariant (I := fun _ c => c.Asked) (fun c hc => ?_) fun _ h hs => h.step hs
  obtain rfl : c = Core.init := hc
  exact nofun

omit [DecidableEq ρ] in
/-- The last locked section of a call that is told that its cancellation is pending. -/
theorem Core.lookup_of_returned_pending {call : ℕ} {es : List Event} {id : String} {raced : Bool}
    (hs : c.recordPending limits call = some (c', es)) (hmem : .returned id .pending raced ∈ es) :
    (∃ grace, c.terminateCalls.lookup call = some (.lookedUp id grace none)) ∧
      ∃ t, c'.registry.pendingRunTerminations.lookup id = some t := by
  obtain ⟨runId, grace, hcall, ⟨-, -, error, rfl⟩ | ⟨-, rfl, rfl⟩⟩ := Core.recordPending_cases hs
  · simp at hmem
  · obtain ⟨rfl, -⟩ : id = runId ∧ _ := by simpa using (List.mem_singleton.mp hmem)
    refine ⟨⟨grace, hcall⟩, ?_⟩
    change ∃ t, (c.recorded id).lookup id = some t
    rw [Core.recorded]
    split_ifs with hknown
    · exact Option.isSome_iff_exists.mp hknown
    · exact ⟨_, AList.lookup_insert _⟩

/-! ### Cancelling again -/

/-- A call cancels a run again: an earlier call was told that its cancellation is pending, and since
then the run was not admitted and the cancellation has not become too old. The call has found no
run, and is before its last locked section. -/
inductive Retry (limits : Limits) (id : String) (call : ℕ) (d : Core ρ) : Prop
  | intro {log es es' : List Event} {c c' : Core ρ} {first t : ℕ} {raced : Bool}
      {before after : List (Action ρ)} {grace : Option ℕ} (hrun : (system limits).Run log c)
      (hfirst : c.step limits (.recordPending first) = some (c', es))
      (hpending : .returned id .pending raced ∈ es)
      (hcreated : c'.registry.pendingRunTerminations.lookup id = some t)
      (hexec : (system limits).exec c' (before ++ .terminateRun call id grace :: after) =
        some (d, es'))
      (hgrace : grace.getD limits.terminationGrace ≤ limits.maxTerminationGrace)
      (hcall : ∀ a ∈ after, a.call ≠ some call)
      (hage : d.now - t < limits.runOutputRetention)
      (hopen : ∀ as bs v es'', before ++ .terminateRun call id grace :: after = as ++ bs →
        (system limits).exec c' as = some (v, es'') → v.registry.runs.lookup id = none)

/-- A call is told that its cancellation is pending, and changes nothing. -/
def Repeats (limits : Limits) (id : String) (call : ℕ) (d : Core ρ) : Prop :=
  ∃ d' raced, d.step limits (.recordPending call) = some (d', [.returned id .pending raced]) ∧
    d'.registry = d.registry ∧ d'.sessions = d.sessions ∧ d'.now = d.now

variable {id : String} {call : ℕ} {d : Core ρ}

/-- Such a call finds no run but the cancellation. -/
theorem Retry.lookup (h : Retry limits id call d) :
    (∃ grace, d.terminateCalls.lookup call = some (.lookedUp id grace none)) ∧
      ∃ t, d.registry.pendingRunTerminations.lookup id = some t := by
  obtain @⟨log, es, es', c, c', first, t, raced, before, after, grace, hrun, hfirst, hpending,
    hcreated, hexec, hgrace, hcall, hage, hopen⟩ := h
  refine ⟨?_, _, Core.lookup_pending_exec hexec hcreated hage hopen⟩
  obtain ⟨⟨grace', hlooked⟩, -⟩ := Core.lookup_of_returned_pending hfirst hpending
  have hid := Core.Asked.of_run hrun _ _ _ _ hlooked
  obtain ⟨v, es₁, es₂, hbefore, hrest⟩ := System.exec_append_eq_some hexec
  rw [System.exec] at hrest
  split at hrest
  · cases hrest
  · next v' es₃ hstep =>
    obtain ⟨⟨d', es₄⟩, hafter, heq⟩ := Option.map_eq_some_iff.mp hrest
    cases heq
    -- The run is not there, so the call finds nothing.
    have hnone : (v.cleanup limits).registry.runs.lookup id = none := by
      rw [Option.eq_none_iff_forall_ne_some]
      intro sequence hsome
      have hsome' := Core.lookup_runs_cleanup hsome
      rw [hopen before _ v es₁ rfl hbefore] at hsome'
      cases hsome'
    simp only [system, Core.step, Option.ite_none_right_eq_some] at hstep
    obtain ⟨rfl, -⟩ := Prod.ext_iff.mp (Option.some.inj hstep.2)
    rw [Core.lookup_calls_exec hafter hcall, Core.terminateRun]
    dsimp only
    rw [if_neg hid, if_neg (not_lt.mpr hgrace)]
    exact ⟨_, by rw [AList.lookup_insert, hnone]⟩

/-- There is no room for another cancellation. -/
theorem Retry.not_repeats (h : Retry limits id call d)
    (hfull : limits.maxRetainedExecutions ≤ d.registry.pendingRunTerminations.entries.length) :
    ¬Repeats limits id call d := by
  rintro ⟨d', raced, hstep, -⟩
  obtain ⟨⟨grace, hcall⟩, -⟩ := h.lookup
  simp only [Core.step, Core.recordPending, hcall] at hstep
  rw [if_pos hfull] at hstep
  simp at hstep

/-- **Cancelling a run again.** A call that cancels a run again is told that its cancellation is
pending, and changes nothing, exactly if there is room for another cancellation. -/
theorem repeats_iff (h : Retry limits id call d) :
    Repeats limits id call d ↔
      d.registry.pendingRunTerminations.entries.length < limits.maxRetainedExecutions := by
  constructor
  · intro hrepeats
    by_contra hfull
    exact h.not_repeats (not_lt.mp hfull) hrepeats
  · intro hroom
    obtain ⟨⟨grace, hcall⟩, t, ht⟩ := h.lookup
    have hknown : (d.registry.pendingRunTerminations.lookup id).isSome = true := by rw [ht]; rfl
    simp only [Repeats, Core.step, Core.recordPending, hcall]
    rw [if_neg (not_le.mpr hroom), if_pos hknown]
    exact ⟨_, _, rfl, rfl, rfl, rfl⟩

end Sections

/-- A run is cancelled twice in a runtime that keeps some cancellations. -/
theorem retry_twice (n : ℕ) : ∃ d : Core Unit, Retry ⟨1, 1, 8, n + 1, 1, 1⟩ "r" 1 d ∧
    d.registry.pendingRunTerminations.entries.length = 1 := by
  obtain ⟨c, c', d, hc, hc', hd, hpending, hage, hruns, hruns', hone⟩ : ∃ c c' d : Core Unit,
      (system ⟨1, 1, 8, n + 1, 1, 1⟩).exec Core.init [.terminateRun 0 "r" none] = some (c, []) ∧
      c.step ⟨1, 1, 8, n + 1, 1, 1⟩ (.recordPending 0) =
        some (c', [.returned "r" .pending false]) ∧
      (system ⟨1, 1, 8, n + 1, 1, 1⟩).exec c' ([] ++ [.terminateRun 1 "r" none]) = some (d, []) ∧
      c'.registry.pendingRunTerminations.lookup "r" = some 0 ∧ d.now - 0 < 1 ∧
      c'.registry.runs.lookup "r" = none ∧ d.registry.runs.lookup "r" = none ∧
      d.registry.pendingRunTerminations.entries.length = 1 :=
    ⟨_, _, _, rfl, rfl, rfl, rfl, Nat.zero_lt_one, rfl, rfl, rfl⟩
  refine ⟨d, .intro ⟨Core.init, rfl, .of_exec hc⟩ hc' (List.mem_singleton_self _) hpending hd
    le_rfl nofun hage fun as bs v es heq hexec => ?_, hone⟩
  rcases as with _ | ⟨a, _ | ⟨b, as⟩⟩
  · cases hexec
    exact hruns
  · obtain ⟨rfl, -⟩ := List.cons.inj heq
    cases hexec.symm.trans hd
    exact hruns'
  · cases (List.cons.inj heq).2

/-- There is room for another cancellation. -/
theorem repeats_iff_room : ∃ d : Core Unit, Repeats ⟨1, 1, 8, 2, 1, 1⟩ "r" 1 d := by
  obtain ⟨d, hretry, hone⟩ := retry_twice 1
  exact ⟨d, (repeats_iff hretry).mpr (by rw [hone]; decide)⟩

/-- A runtime that keeps one cancellation does not repeat what it said of it. -/
theorem not_forall_repeats : ¬∀ (limits : Limits) (id : String) (call : ℕ) (d : Core Unit),
    Retry limits id call d → Repeats limits id call d := by
  intro h
  obtain ⟨d, hretry, hone⟩ := retry_twice 0
  exact hretry.not_repeats (by rw [hone]) (h _ _ _ d hretry)

end ExecutionProvider.Runtime
