import Mathlib.Data.List.Sort
import ExecutionProvider.Runtime.Cancellation

/-!
# Shutdown

A call of `shutdown` closes the registry and collects the sessions that it holds, in one locked
section. It asks each of these sessions to stop, and then waits for each of them to be finished.
All other calls go on in between. A session that the registry does not hold any more was removed
because it was finished, and none is recorded after the registry was closed, so the collected
sessions are all that matter.

## Main definitions

* `ShutdownCall`, `Shutdowns`: a runtime with its calls of `shutdown`.
* `shutdownSystem`: the runs of all calls and sessions.
* `Core.Finished`: an execution whose session is finished.

## Main results

* `Core.carries_or_admits`: what a step of the runtime does to its sessions.
* `shutdown_complete`: what holds when a call of `shutdown` has returned.
-/

namespace ExecutionProvider.Runtime

variable {ρ : Type}

/-! ### Calls of `shutdown` -/

/-- A call of `shutdown`: it has collected the sessions and asks them to stop, those first that are
left, or it waits for those that are left. -/
inductive ShutdownCall
  | terminating (left sessions : List ℕ)
  | waiting (left : List ℕ)

/-- A runtime with the calls of `shutdown`. -/
structure Shutdowns (ρ : Type) where
  core : Core ρ
  calls : Table ℕ ShutdownCall

/-- What happens: an event of the runtime, an execution is accepted, a call of `shutdown`
returns. -/
inductive ShutdownEvent
  | core (e : Event)
  | accepted (sequence : ℕ)
  | returned (call : ℕ)

/-- A step of the runtime, the first section of a call of `shutdown`, a later step of it, or its
end because nobody waits for it. -/
inductive ShutdownAction (ρ : Type)
  | core (a : Action ρ)
  | shutdown (call : ℕ)
  | proceed (call : ℕ)
  | drop (call : ℕ)

/-- Whether an execution is finished. -/
def Core.isFinished (c : Core ρ) (sequence : ℕ) : Bool :=
  (c.sessions.lookup sequence).any fun x => x.session.state = .finished

/-- The execution that a step of the runtime accepts. -/
def Core.accepts (c c' : Core ρ) : List ShutdownEvent :=
  if c'.registry.nextSequence = c.registry.nextSequence then []
  else [.accepted c.registry.nextSequence]

namespace Shutdowns

variable (limits : Limits) (S : Shutdowns ρ)

/-- A new runtime. -/
def init : Shutdowns ρ := ⟨.init, ∅⟩

/-- The locked section of `shutdown`: the registry is closed and its sessions are collected. -/
def shutdown (call : ℕ) : Option (Shutdowns ρ × List ShutdownEvent) :=
  if call ∈ S.calls then none
  else
    let sessions := S.core.registry.entries.keys.insertionSort (· ≤ ·)
    some ({ S with
      core := { S.core with registry := { S.core.registry with shuttingDown := true } }
      calls := S.calls.insert call (.terminating sessions sessions) }, [])

/-- The next step of a call of `shutdown`. -/
def proceed (call : ℕ) : Option (Shutdowns ρ × List ShutdownEvent) :=
  match S.calls.lookup call with
  | none => none
  | some (.terminating (sequence :: left) sessions) =>
    some ({ S with
      core := { S.core with sessions := S.core.sessions.modify sequence fun x =>
        { x with session :=
            x.session.terminate S.core.now limits.terminationGrace .runtimeShutdown } }
      calls := S.calls.insert call (.terminating left sessions) }, [])
  | some (.terminating [] sessions) =>
    some ({ S with calls := S.calls.insert call (.waiting sessions) }, [])
  | some (.waiting (sequence :: left)) =>
    if S.core.isFinished sequence then
      some ({ S with calls := S.calls.insert call (.waiting left) }, [])
    else none
  | some (.waiting []) => some ({ S with calls := S.calls.erase call }, [.returned call])

/-- A step. -/
def step [DecidableEq ρ] : ShutdownAction ρ → Option (Shutdowns ρ × List ShutdownEvent)
  | .core .shutdown => none
  | .core a => (S.core.step limits a).map fun r =>
      ({ S with core := r.1 }, r.2.map .core ++ S.core.accepts r.1)
  | .shutdown call => S.shutdown call
  | .proceed call => S.proceed limits call
  | .drop call => some ({ S with calls := S.calls.erase call }, [])

end Shutdowns

/-- The runs of a runtime with its calls of `shutdown`. -/
def shutdownSystem [DecidableEq ρ] (limits : Limits) :
    System (Shutdowns ρ) (ShutdownAction ρ) ShutdownEvent where
  start S := S = .init
  step S a := S.step limits a

/-! ### Sessions of the runtime -/

/-- An execution whose session is finished. -/
def Core.Finished (c : Core ρ) (sequence : ℕ) : Prop :=
  ∃ x, c.sessions.lookup sequence = some x ∧ x.session.state = .finished

/-- A session has an end exactly when it is finished, and then its task is done. -/
structure Execution.Ended (x : Execution) : Prop where
  valid : x.Valid
  finishedAt : x.session.finishedAt.isSome = true → x.session.state = .finished

/-- Every session ends in order, and those that the registry does not hold are finished. -/
structure Core.Holds (c : Core ρ) : Prop where
  numbered : ∀ sequence, sequence ∈ c.sessions → sequence < c.registry.nextSequence
  ended : ∀ sequence x, c.sessions.lookup sequence = some x → x.Ended
  held : ∀ sequence ∈ c.sessions, sequence ∈ c.registry.entries ∨ c.Finished sequence

/-- A step that accepts nothing: sessions only go on, and only finished ones are not held any
more. -/
structure Core.Carries (c c' : Core ρ) : Prop where
  nextSequence : c'.registry.nextSequence = c.registry.nextSequence
  shuttingDown : c'.registry.shuttingDown = c.registry.shuttingDown
  sessions : ∀ sequence, sequence ∈ c'.sessions ↔ sequence ∈ c.sessions
  finished : ∀ sequence, c.Finished sequence → c'.Finished sequence
  ended : (∀ sequence x, c.sessions.lookup sequence = some x → x.Ended) →
    ∀ sequence x, c'.sessions.lookup sequence = some x → x.Ended
  entries : ∀ sequence ∈ c.registry.entries,
    sequence ∈ c'.registry.entries ∨ c'.Finished sequence

/-- A step that accepts an execution, after it has removed what has expired. -/
structure Core.Admits (c c' : Core ρ) : Prop where
  before : ∃ c₁ : Core ρ, c.Carries c₁ ∧ (∃ phase, c'.sessions =
    c₁.sessions.insert c.registry.nextSequence ⟨.new, phase⟩) ∧
    ∀ sequence, sequence ∈ c'.registry.entries ↔
      sequence = c.registry.nextSequence ∨ sequence ∈ c₁.registry.entries
  nextSequence : c'.registry.nextSequence = c.registry.nextSequence + 1
  serving : c.registry.shuttingDown = false
  shuttingDown : c'.registry.shuttingDown = false

section

variable {limits : Limits} {c c' : Core ρ} {sequence : ℕ} {x x' : Execution}

theorem Execution.Ended.advance {now : ℕ} {spawnFails : Bool} (h : x.Ended)
    (hx : x.advance now spawnFails = some x') : x'.Ended := by
  refine ⟨h.valid.advance hx, fun hsome => ?_⟩
  have hnot (hphase : x.phase ≠ .done) : x.session.finishedAt = none := by
    by_contra hfinished
    exact hphase (h.valid (h.finishedAt (Option.isSome_iff_ne_none.mpr hfinished)))
  unfold Execution.advance at hx
  split at hx
  · obtain rfl := Option.some.inj hx
    rfl
  · next hphase =>
    split_ifs at hx
    · obtain rfl := Option.some.inj hx
      rfl
    · obtain rfl := Option.some.inj hx
      rw [hnot (by rw [hphase]; simp)] at hsome
      cases hsome
  · next hphase =>
    obtain rfl := Option.some.inj hx
    rw [Session.launch, hnot (by rw [hphase]; simp)] at hsome
    cases hsome
  · next hphase =>
    obtain rfl := Option.some.inj hx
    rw [Session.rootExit, hnot (by rw [hphase]; simp)] at hsome
    cases hsome
  · obtain rfl := Option.some.inj hx
    rfl
  · cases hx

theorem Execution.Ended.terminate (h : x.Ended) (now grace : ℕ) (reason : StopReason) :
    Execution.Ended { x with session := x.session.terminate now grace reason } := by
  refine ⟨h.valid.terminate now grace reason, fun hsome => ?_⟩
  simp only [Session.terminate] at hsome ⊢
  split_ifs at hsome ⊢ with hcond
  · exact absurd (h.finishedAt hsome) hcond.1
  · exact h.finishedAt hsome

/-- A finished session stays as it is. -/
theorem Session.terminate_of_finished {s : Session} (h : s.state = .finished) (now grace : ℕ)
    (reason : StopReason) : s.terminate now grace reason = s :=
  if_neg fun hcond => hcond.1 h

namespace Core.Carries

theorem refl (c : Core ρ) : c.Carries c :=
  ⟨rfl, rfl, fun _ => Iff.rfl, fun _ h => h, fun h => h, fun _ h => Or.inl h⟩

/-- Only the registry's entries and the sessions matter. -/
theorem of_same (hregistry : c'.registry.entries = c.registry.entries)
    (hnext : c'.registry.nextSequence = c.registry.nextSequence)
    (hshut : c'.registry.shuttingDown = c.registry.shuttingDown)
    (hsessions : c'.sessions = c.sessions) : c.Carries c' := by
  refine ⟨hnext, hshut, fun n => by rw [hsessions], fun n h => ?_, hsessions ▸ fun h => h,
    fun n h => Or.inl (hregistry ▸ h)⟩
  rwa [Core.Finished, hsessions]

/-- A step of one session. -/
theorem modify {f : Execution → Execution}
    (hended : ∀ x, c.sessions.lookup sequence = some x → x.Ended → (f x).Ended)
    (hfinished : ∀ x, c.sessions.lookup sequence = some x → x.session.state = .finished →
      (f x).session.state = .finished) :
    c.Carries { c with sessions := c.sessions.modify sequence f } := by
  refine ⟨rfl, rfl, fun n => Table.mem_modify, fun n hn => ?_, fun h n x hx => ?_,
    fun n hn => Or.inl hn⟩
  · obtain ⟨x, hx, hstate⟩ := hn
    by_cases hns : n = sequence
    · subst hns
      exact ⟨f x, by rw [Table.lookup_modify, hx]; rfl, hfinished x hx hstate⟩
    · exact ⟨x, by rw [Table.lookup_modify_of_ne hns, hx], hstate⟩
  · by_cases hns : n = sequence
    · subst hns
      rw [Table.lookup_modify] at hx
      obtain ⟨x₀, hx₀, rfl⟩ := Option.map_eq_some_iff.mp hx
      exact hended x₀ hx₀ (h n x₀ hx₀)
    · rw [Table.lookup_modify_of_ne hns] at hx
      exact h n x hx

theorem terminate (now grace : ℕ) (reason : StopReason) :
    c.Carries { c with sessions := c.sessions.modify sequence fun x =>
      { x with session := x.session.terminate now grace reason } } := by
  refine modify (fun x _ hx => hx.terminate now grace reason) fun x _ hx => ?_
  dsimp only
  rw [Session.terminate_of_finished hx]
  exact hx

theorem advance {spawnFails : Bool} {es : List Event}
    (hended : ∀ n x, c.sessions.lookup n = some x → x.Ended)
    (h : c.advance sequence spawnFails = some (c', es)) : c.Carries c' := by
  obtain ⟨x, x', hx, hadvance, rfl, -⟩ := Core.advance_cases h
  refine modify (fun y _ hy => (hended sequence x hx).advance hadvance) fun y hy hstate => ?_
  obtain rfl := Option.some.inj (hx.symm.trans hy)
  rw [Execution.advance, (hended sequence x hx).valid hstate] at hadvance
  cases hadvance

/-- What has expired is finished. -/
theorem cleanup (hended : ∀ n x, c.sessions.lookup n = some x → x.Ended) :
    c.Carries (c.cleanup limits) := by
  refine ⟨rfl, rfl, fun _ => Iff.rfl, fun _ h => h, fun h => h, fun n hn => ?_⟩
  have hlookup : (c.cleanup limits).registry.entries.lookup n =
      if n ∈ (c.registry.entries.select
        (Registry.isExpired limits c.sessions c.now)).map Prod.fst then none
      else c.registry.entries.lookup n :=
    Table.lookup_eraseAll _ _ _
  split_ifs at hlookup with hexpired
  · obtain ⟨⟨n, entry⟩, hmem, rfl⟩ := List.mem_map.mp hexpired
    obtain ⟨-, hcond⟩ := Table.mem_select_iff.mp hmem
    unfold Registry.isExpired at hcond
    dsimp only at hcond
    split at hcond
    · next finishedAt hfinished =>
      obtain ⟨x, hx, hat⟩ := Option.bind_eq_some_iff.mp hfinished
      exact Or.inr ⟨x, hx, (hended n x hx).finishedAt (by rw [hat]; rfl)⟩
    · cases hcond
  · refine Or.inl (AList.lookup_isSome.mp ?_)
    rw [hlookup]
    exact AList.lookup_isSome.mpr hn

end Core.Carries

/-- Recording a session after a clean-up admits it. -/
theorem Core.Carries.admits {c₁ : Core ρ} {entry : Entry ρ} {phase : Phase} (h : c.Carries c₁)
    (hserving : c₁.registry.shuttingDown = false)
    (hentries : c'.registry.entries = (c₁.record entry phase).registry.entries)
    (hnext : c'.registry.nextSequence = (c₁.record entry phase).registry.nextSequence)
    (hshut : c'.registry.shuttingDown = c₁.registry.shuttingDown)
    (hsessions : c'.sessions = (c₁.record entry phase).sessions) : c.Admits c' := by
  refine ⟨⟨c₁, h, ⟨phase, ?_⟩, fun n => ?_⟩, ?_, h.shuttingDown.symm.trans hserving,
    hshut.trans hserving⟩
  · rw [hsessions, Core.record, h.nextSequence]
  · rw [hentries, Core.record, ← h.nextSequence]
    exact AList.mem_insert _
  · rw [hnext, Core.record, h.nextSequence]

theorem Core.carries_or_admits_start [DecidableEq ρ] {request : StartRequest ρ} {handle : Uuid}
    (hended : ∀ n x, c.sessions.lookup n = some x → x.Ended) :
    c.Carries (c.startExecution limits request handle).1 ∨
      c.Admits (c.startExecution limits request handle).1 := by
  have hclean : c.Carries (c.cleanup limits) := .cleanup hended
  obtain ⟨es, -, heq⟩ | ⟨-, hserving, heq⟩ := c.startExecution_cases limits request handle <;>
    rw [heq]
  · exact Or.inl hclean
  · exact Or.inr (@Core.Carries.admits _ _ _ _ ⟨handle, some request, none⟩ .spawning hclean
      hserving rfl rfl rfl rfl)

theorem Core.carries_or_admits_run [DecidableEq ρ] {request : RunRequest ρ} {handle : Uuid}
    {spoolError : Option String} (hended : ∀ n x, c.sessions.lookup n = some x → x.Ended) :
    c.Carries (c.runExecution limits request handle spoolError).1 ∨
      c.Admits (c.runExecution limits request handle spoolError).1 := by
  have hclean : c.Carries (c.cleanup limits) := .cleanup hended
  obtain ⟨-, es, -, heq⟩ | ⟨⟨-, hserving, -⟩, heq⟩ :=
    c.runExecution_cases limits request handle spoolError <;> rw [heq]
  · exact Or.inl hclean
  · exact Or.inr (@Core.Carries.admits _ _ _ _ ⟨handle, none, some request⟩ _ hclean hserving rfl
      rfl rfl rfl)

/-- What a step of the runtime does to its sessions. -/
theorem Core.carries_or_admits [DecidableEq ρ] {a : Action ρ} {es : List Event}
    (hended : ∀ n x, c.sessions.lookup n = some x → x.Ended) (ha : a ≠ .shutdown)
    (h : c.step limits a = some (c', es)) : c.Carries c' ∨ c.Admits c' := by
  cases a with
  | startExecution request handle =>
    obtain rfl : (c.startExecution limits request handle).1 = c' :=
      congrArg Prod.fst (Option.some.inj h)
    exact Core.carries_or_admits_start hended
  | runExecution request handle spoolError =>
    obtain rfl : (c.runExecution limits request handle spoolError).1 = c' :=
      congrArg Prod.fst (Option.some.inj h)
    exact Core.carries_or_admits_run hended
  | terminateRun call runId grace =>
    rw [Core.step] at h
    split_ifs at h
    obtain ⟨error, heq⟩ | ⟨-, heq⟩ := c.terminateRun_cases limits call runId grace <;>
      obtain ⟨rfl, -⟩ := Prod.mk.inj (heq.symm.trans (Option.some.inj h))
    · exact Or.inl (.refl c)
    · have hclean : c.Carries (c.cleanup limits) := .cleanup hended
      exact Or.inl ⟨hclean.nextSequence, hclean.shuttingDown, hclean.sessions, hclean.finished,
        hclean.ended, hclean.entries⟩
  | recordPending call =>
    obtain ⟨runId, grace, -, ⟨-, rfl, -⟩ | ⟨-, rfl, -⟩⟩ := Core.recordPending_cases h
    · exact Or.inl (.of_same rfl rfl rfl rfl)
    · exact Or.inl (.of_same rfl rfl rfl rfl)
  | inspect call =>
    obtain ⟨runId, grace, own, x, -, -, ⟨-, rfl, -⟩ | ⟨-, rfl, -⟩⟩ := Core.inspect_cases h
    · exact Or.inl (.of_same rfl rfl rfl rfl)
    · exact Or.inl (.of_same rfl rfl rfl rfl)
  | stop call =>
    obtain ⟨runId, grace, sequence, -, rfl, -⟩ := Core.stop_cases h
    have hkeeps : c.Carries _ :=
      @Core.Carries.terminate _ _ sequence c.now grace .explicitTermination
    exact Or.inl ⟨hkeeps.nextSequence, hkeeps.shuttingDown, hkeeps.sessions, hkeeps.finished,
      hkeeps.ended, hkeeps.entries⟩
  | terminate sequence grace reason =>
    obtain ⟨rfl, -⟩ := Prod.mk.inj (Option.some.inj h)
    exact Or.inl (.terminate c.now grace reason)
  | advance sequence spawnFails => exact Or.inl (.advance hended h)
  | cleanup =>
    obtain ⟨rfl, -⟩ := Prod.mk.inj (Option.some.inj h)
    exact Or.inl (.cleanup hended)
  | shutdown => exact absurd rfl ha
  | wait time =>
    obtain ⟨rfl, -⟩ := Prod.mk.inj (Option.some.inj h)
    exact Or.inl (.of_same rfl rfl rfl rfl)

/-! ### The invariant -/

theorem Core.Holds.init : (Core.init : Core ρ).Holds := by
  refine ⟨fun n hn => ?_, fun n x hx => ?_, fun n hn => ?_⟩
  · cases hn
  · cases hx
  · cases hn

theorem Core.Holds.keeps (h : c.Holds) (hkeeps : c.Carries c') : c'.Holds := by
  refine ⟨fun n hn => ?_, hkeeps.ended h.ended, fun n hn => ?_⟩
  · rw [hkeeps.nextSequence]
    exact h.numbered n ((hkeeps.sessions n).mp hn)
  · rcases h.held n ((hkeeps.sessions n).mp hn) with hheld | hfinished
    · exact hkeeps.entries n hheld
    · exact Or.inr (hkeeps.finished n hfinished)

theorem Core.Holds.admits (h : c.Holds) (hadmits : c.Admits c') : c'.Holds := by
  obtain ⟨c₁, hkeeps, ⟨phase, hsessions⟩, hentries⟩ := hadmits.before
  have h₁ := h.keeps hkeeps
  have hne {n : ℕ} (hn : n ∈ c₁.sessions) : n ≠ c.registry.nextSequence :=
    Nat.ne_of_lt (h.numbered n ((hkeeps.sessions n).mp hn))
  refine ⟨fun n hn => ?_, fun n x hx => ?_, fun n hn => ?_⟩
  · rw [hadmits.nextSequence]
    rw [hsessions, AList.mem_insert] at hn
    rcases hn with rfl | hn
    · exact Nat.lt_succ_self _
    · exact Nat.lt_succ_of_lt (h.numbered n ((hkeeps.sessions n).mp hn))
  · rw [hsessions] at hx
    by_cases hnew : n = c.registry.nextSequence
    · subst hnew
      rw [AList.lookup_insert] at hx
      obtain rfl := Option.some.inj hx
      exact ⟨fun hstate => (nomatch hstate), fun hsome => (nomatch hsome)⟩
    · rw [AList.lookup_insert_ne hnew] at hx
      exact h₁.ended n x hx
  · rw [hsessions, AList.mem_insert] at hn
    rcases hn with rfl | hn
    · exact Or.inl ((hentries _).mpr (Or.inl rfl))
    · rcases h₁.held n hn with hheld | ⟨x, hx, hstate⟩
      · exact Or.inl ((hentries n).mpr (Or.inr hheld))
      · refine Or.inr ⟨x, ?_, hstate⟩
        rw [hsessions, AList.lookup_insert_ne (hne hn), hx]

theorem Core.isFinished_iff : c.isFinished sequence = true ↔ c.Finished sequence := by
  simp [Core.isFinished, Core.Finished, Option.any_eq_true]

/-- The sessions that a call of `shutdown` does not look at any more are finished, apart from those
that it has collected. -/
def ShutdownCall.Covers (c : Core ρ) : ShutdownCall → Prop
  | .terminating _ sessions | .waiting sessions =>
    ∀ n ∈ c.sessions, n ∈ sessions ∨ c.Finished n

/-- What holds while calls of `shutdown` are under way and when they have returned. -/
structure Shutdowns.Sound (log : List ShutdownEvent) (S : Shutdowns ρ) : Prop where
  holds : S.core.Holds
  accepted : ∀ n, .accepted n ∈ log → n ∈ S.core.sessions
  calls : ∀ k call, S.calls.lookup k = some call →
    S.core.registry.shuttingDown = true ∧ call.Covers S.core
  returned : ∀ k, .returned k ∈ log →
    S.core.registry.shuttingDown = true ∧ ∀ n ∈ S.core.sessions, S.core.Finished n

theorem ShutdownCall.Covers.carries {call : ShutdownCall} (h : call.Covers c)
    (hcarries : c.Carries c') : call.Covers c' := by
  cases call with
  | terminating left sessions =>
    exact fun n hn => (h n ((hcarries.sessions n).mp hn)).imp_right (hcarries.finished n)
  | waiting left =>
    exact fun n hn => (h n ((hcarries.sessions n).mp hn)).imp_right (hcarries.finished n)

namespace Shutdowns.Sound

variable {S S' : Shutdowns ρ} {log : List ShutdownEvent}

theorem init : (Shutdowns.init : Shutdowns ρ).Sound [] := by
  refine ⟨.init, fun n hn => ?_, fun k call hk => ?_, fun k hk => ?_⟩
  · cases hn
  · cases hk
  · cases hk

/-- A step of the runtime that accepts nothing. -/
theorem carries {es : List Event} (h : S.Sound log) (hcarries : S.core.Carries c') :
    Shutdowns.Sound (log ++ es.map .core) { S with core := c' } := by
  have hlog {e : ShutdownEvent} (he : e ∈ log ++ es.map .core) (hne : ∀ e', e ≠ .core e') :
      e ∈ log := by
    refine (List.mem_append.mp he).resolve_right fun hmem => ?_
    obtain ⟨e', -, rfl⟩ := List.mem_map.mp hmem
    exact hne e' rfl
  refine ⟨h.holds.keeps hcarries, fun n hn => ?_, fun k call hk => ?_, fun k hk => ?_⟩
  · exact (hcarries.sessions n).mpr (h.accepted n (hlog hn (by simp)))
  · obtain ⟨hshut, hcovers⟩ := h.calls k call hk
    exact ⟨hcarries.shuttingDown.trans hshut, hcovers.carries hcarries⟩
  · obtain ⟨hshut, hfinished⟩ := h.returned k (hlog hk (by simp))
    exact ⟨hcarries.shuttingDown.trans hshut, fun n hn =>
      hcarries.finished n (hfinished n ((hcarries.sessions n).mp hn))⟩

/-- A step of the runtime that accepts an execution. No call of `shutdown` has closed the
registry. -/
theorem admits {es : List Event} (h : S.Sound log) (hadmits : S.core.Admits c') :
    Shutdowns.Sound (log ++ (es.map .core ++ [.accepted S.core.registry.nextSequence]))
      { S with core := c' } := by
  have hopen (hshut : S.core.registry.shuttingDown = true) : False := by
    rw [hadmits.serving] at hshut
    cases hshut
  obtain ⟨c₁, hcarries, ⟨phase, hsessions⟩, -⟩ := hadmits.before
  have hold {n : ℕ} (hn : n ∈ S.core.sessions) : n ∈ c'.sessions := by
    rw [hsessions, AList.mem_insert]
    exact Or.inr ((hcarries.sessions n).mpr hn)
  refine ⟨h.holds.admits hadmits, fun n hn => ?_, fun k call hk => ?_, fun k hk => ?_⟩
  · rcases List.mem_append.mp hn with hn | hn
    · exact hold (h.accepted n hn)
    · rcases List.mem_append.mp hn with hn | hn
      · obtain ⟨e, -, heq⟩ := List.mem_map.mp hn
        cases heq
      · obtain rfl := ShutdownEvent.accepted.inj (List.mem_singleton.mp hn)
        rw [hsessions, AList.mem_insert]
        exact Or.inl rfl
  · exact (hopen (h.calls k call hk).1).elim
  · rcases List.mem_append.mp hk with hk | hk
    · exact (hopen (h.returned k hk).1).elim
    · rcases List.mem_append.mp hk with hk | hk
      · obtain ⟨e, -, heq⟩ := List.mem_map.mp hk
        cases heq
      · cases List.mem_singleton.mp hk

/-- A step of a call of `shutdown` that returns nothing. -/
theorem of_call {k : ℕ} {calls : Table ℕ ShutdownCall} (h : S.Sound log)
    (hcarries : S.core.Carries c') (hother : ∀ k', k' ≠ k → calls.lookup k' = S.calls.lookup k')
    (hcall : ∀ call, calls.lookup k = some call →
      c'.registry.shuttingDown = true ∧ call.Covers c') :
    Shutdowns.Sound log ⟨c', calls⟩ := by
  have hstep : Shutdowns.Sound (log ++ [].map .core) { S with core := c' } := h.carries hcarries
  rw [List.map_nil, List.append_nil] at hstep
  refine ⟨hstep.holds, hstep.accepted, fun k' call hk' => ?_, hstep.returned⟩
  by_cases hkk : k' = k
  · subst hkk
    exact hcall call hk'
  · exact hstep.calls k' call ((hother k' hkk).symm.trans hk')

/-- The first section of a call. -/
theorem shutdown {k : ℕ} {es : List ShutdownEvent} (h : S.Sound log)
    (hstep : S.shutdown k = some (S', es)) : S'.Sound (log ++ es) := by
  unfold Shutdowns.shutdown at hstep
  split_ifs at hstep
  obtain ⟨rfl, rfl⟩ := Prod.mk.inj (Option.some.inj hstep)
  refine ⟨⟨h.holds.numbered, h.holds.ended, h.holds.held⟩, fun n hn => ?_, fun k' call hk' => ?_,
    fun k' hk' => ?_⟩
  · rw [List.append_nil] at hn
    exact h.accepted n hn
  · refine ⟨rfl, ?_⟩
    by_cases hkk : k' = k
    · subst hkk
      rw [AList.lookup_insert] at hk'
      obtain rfl := Option.some.inj hk'
      exact fun n hn => (h.holds.held n hn).imp_left fun hheld =>
        (List.mem_insertionSort _).mpr (AList.mem_keys.mp hheld)
    · rw [AList.lookup_insert_ne hkk] at hk'
      exact (h.calls k' call hk').2
  · rw [List.append_nil] at hk'
    exact ⟨rfl, (h.returned k' hk').2⟩

/-- A later step of a call. When nothing is left to wait for, every session is finished. -/
theorem proceed {k : ℕ} {es : List ShutdownEvent} (h : S.Sound log)
    (hstep : S.proceed limits k = some (S', es)) : S'.Sound (log ++ es) := by
  unfold Shutdowns.proceed at hstep
  split at hstep
  · cases hstep
  · next sequence left sessions hk =>
    obtain ⟨rfl, rfl⟩ := Prod.mk.inj (Option.some.inj hstep)
    obtain ⟨hshut, hcovers⟩ := h.calls k _ hk
    have hcarries := @Core.Carries.terminate _ S.core sequence S.core.now
      limits.terminationGrace .runtimeShutdown
    rw [List.append_nil]
    refine h.of_call (k := k) hcarries (fun k' hkk => AList.lookup_insert_ne hkk)
      fun call hcall => ?_
    rw [AList.lookup_insert] at hcall
    obtain rfl := Option.some.inj hcall
    exact ⟨hshut, hcovers.carries hcarries⟩
  · next sessions hk =>
    obtain ⟨rfl, rfl⟩ := Prod.mk.inj (Option.some.inj hstep)
    rw [List.append_nil]
    refine h.of_call (k := k) (.refl _) (fun k' hkk => AList.lookup_insert_ne hkk)
      fun call hcall => ?_
    rw [AList.lookup_insert] at hcall
    obtain rfl := Option.some.inj hcall
    exact ⟨(h.calls k _ hk).1, (h.calls k _ hk).2⟩
  · next sequence left hk =>
    split_ifs at hstep with hfinished
    obtain ⟨rfl, rfl⟩ := Prod.mk.inj (Option.some.inj hstep)
    obtain ⟨hshut, hcovers⟩ := h.calls k _ hk
    rw [List.append_nil]
    refine h.of_call (k := k) (.refl _) (fun k' hkk => AList.lookup_insert_ne hkk)
      fun call hcall => ?_
    rw [AList.lookup_insert] at hcall
    obtain rfl := Option.some.inj hcall
    refine ⟨hshut, fun n hn => ?_⟩
    rcases hcovers n hn with hmem | hdone
    · rcases List.mem_cons.mp hmem with rfl | hmem
      · exact Or.inr (Core.isFinished_iff.mp hfinished)
      · exact Or.inl hmem
    · exact Or.inr hdone
  · next hk =>
    obtain ⟨rfl, rfl⟩ := Prod.mk.inj (Option.some.inj hstep)
    obtain ⟨hshut, hcovers⟩ := h.calls k _ hk
    have herase : Shutdowns.Sound log ⟨S.core, S.calls.erase k⟩ := by
      refine h.of_call (k := k) (.refl _) (fun k' hkk => AList.lookup_erase_ne hkk)
        fun call hcall => ?_
      rw [AList.lookup_erase] at hcall
      cases hcall
    refine ⟨herase.holds, fun n hn => herase.accepted n ?_, herase.calls, fun k' _ => ⟨hshut,
      fun n hn => (hcovers n hn).resolve_left List.not_mem_nil⟩⟩
    exact (List.mem_append.mp hn).resolve_right fun hmem => nomatch List.mem_singleton.mp hmem

/-- A step of the runtime under calls of `shutdown`. -/
theorem core_of_step [DecidableEq ρ] {a : Action ρ} {es : List ShutdownEvent} (h : S.Sound log)
    (hstep : S.step limits (.core a) = some (S', es)) :
    ∃ (c' : Core ρ) (es' : List Event), S' = { S with core := c' } ∧
      (S.core.Carries c' ∧ es = es'.map .core ∨ S.core.Admits c' ∧
        es = es'.map .core ++ [.accepted S.core.registry.nextSequence]) := by
  by_cases ha : a = .shutdown
  · rw [ha] at hstep
    cases hstep
  · have hmap : (S.core.step limits a).map (fun r =>
        ({ S with core := r.1 }, r.2.map ShutdownEvent.core ++ S.core.accepts r.1)) =
        some (S', es) := by
      cases a <;> first | exact hstep | exact absurd rfl ha
    obtain ⟨⟨c', es'⟩, hcore, heq⟩ := Option.map_eq_some_iff.mp hmap
    obtain ⟨rfl, rfl⟩ := Prod.mk.inj heq
    refine ⟨c', es', rfl, ?_⟩
    rcases Core.carries_or_admits h.holds.ended ha hcore with hcarries | hadmits
    · rw [Core.accepts, if_pos hcarries.nextSequence, List.append_nil]
      exact Or.inl ⟨hcarries, rfl⟩
    · rw [Core.accepts, if_neg (by rw [hadmits.nextSequence]; omega)]
      exact Or.inr ⟨hadmits, rfl⟩

/-- Every step of the system. -/
theorem step [DecidableEq ρ] {a : ShutdownAction ρ} {es : List ShutdownEvent} (h : S.Sound log)
    (hstep : S.step limits a = some (S', es)) : S'.Sound (log ++ es) := by
  cases a with
  | core a =>
    obtain ⟨c', es', rfl, ⟨hcarries, rfl⟩ | ⟨hadmits, rfl⟩⟩ := h.core_of_step hstep
    · exact h.carries hcarries
    · exact h.admits hadmits
  | shutdown k => exact h.shutdown hstep
  | proceed k => exact h.proceed hstep
  | drop k =>
    obtain ⟨rfl, rfl⟩ := Prod.mk.inj (Option.some.inj hstep)
    rw [List.append_nil]
    refine h.of_call (k := k) (.refl _) (fun k' hkk => AList.lookup_erase_ne hkk)
      fun call hcall => ?_
    rw [AList.lookup_erase] at hcall
    cases hcall

theorem of_run [DecidableEq ρ] (h : (shutdownSystem limits).Run log S) : S.Sound log := by
  refine h.invariant (I := fun log S => S.Sound log) (fun S hS => ?_)
    fun _ hsound hstep => hsound.step hstep
  obtain rfl : S = .init := hS
  exact init

/-- An execution is accepted only while no call of `shutdown` has returned. -/
theorem returned_of_accepted [DecidableEq ρ] {a : ShutdownAction ρ} {es : List ShutdownEvent}
    {n k : ℕ} (h : S.Sound log) (hstep : S.step limits a = some (S', es))
    (hn : .accepted n ∈ es) : .returned k ∉ log ∧ .returned k ∉ es := by
  cases a with
  | core a =>
    obtain ⟨c', es', rfl, ⟨-, rfl⟩ | ⟨hadmits, rfl⟩⟩ := h.core_of_step hstep
    · obtain ⟨e', -, heq⟩ := List.mem_map.mp hn
      cases heq
    · refine ⟨fun hk => ?_, fun hk => ?_⟩
      · have hshut := (h.returned k hk).1
        rw [hadmits.serving] at hshut
        cases hshut
      · rcases List.mem_append.mp hk with hk | hk
        · obtain ⟨e', -, heq⟩ := List.mem_map.mp hk
          cases heq
        · cases List.mem_singleton.mp hk
  | shutdown k =>
    simp only [Shutdowns.step, Shutdowns.shutdown] at hstep
    split_ifs at hstep
    obtain ⟨-, rfl⟩ := Prod.mk.inj (Option.some.inj hstep)
    cases hn
  | proceed k =>
    simp only [Shutdowns.step, Shutdowns.proceed] at hstep
    split at hstep
    · cases hstep
    · obtain ⟨-, rfl⟩ := Prod.mk.inj (Option.some.inj hstep)
      cases hn
    · obtain ⟨-, rfl⟩ := Prod.mk.inj (Option.some.inj hstep)
      cases hn
    · split_ifs at hstep
      obtain ⟨-, rfl⟩ := Prod.mk.inj (Option.some.inj hstep)
      cases hn
    · obtain ⟨-, rfl⟩ := Prod.mk.inj (Option.some.inj hstep)
      cases List.mem_singleton.mp hn
  | drop k =>
    obtain ⟨-, rfl⟩ := Prod.mk.inj (Option.some.inj hstep)
    cases hn

end Shutdowns.Sound

/-- **Shutdown is complete.** When a call of `shutdown` has returned, every execution that was ever
accepted is finished, and none is accepted afterwards. -/
theorem shutdown_complete [DecidableEq ρ] {S : Shutdowns ρ} {log past rest : List ShutdownEvent}
    {call : ℕ} (h : (shutdownSystem limits).Run log S)
    (hlog : log = past ++ .returned call :: rest) :
    (∀ n, .accepted n ∈ log → S.core.Finished n) ∧ ∀ n, .accepted n ∉ rest := by
  have hsound := Shutdowns.Sound.of_run h
  refine ⟨fun n hn => ?_, fun n hn => ?_⟩
  · exact (hsound.returned call (hlog ▸ by simp)).2 n (hsound.accepted n hn)
  · obtain ⟨before, after, rfl⟩ := List.append_of_mem hn
    refine h.each (L := fun past e => e = .accepted n → .returned call ∉ past) ?_
      (hlog.trans (List.append_assoc past (.returned call :: before) (.accepted n :: after)).symm)
      rfl (by simp)
    rintro log S a S' es pre e post hrun hstep rfl rfl hmem
    obtain ⟨hnot, hnot'⟩ := (Shutdowns.Sound.of_run hrun).returned_of_accepted (k := call) hstep
      (List.mem_append_right pre List.mem_cons_self)
    rcases List.mem_append.mp hmem with hmem | hmem
    · exact hnot hmem
    · exact hnot' (List.mem_append_left _ hmem)

end

/-- A runtime is shut down while a run waits to be spawned. -/
theorem shutdown_complete_spawning :
    ∃ (S : Shutdowns Unit) (log : List ShutdownEvent), (shutdownSystem someLimits).Run log S ∧
      .accepted 1 ∈ log ∧ S.core.Finished 1 := by
  have hend : ((shutdownSystem someLimits).exec (Shutdowns.init : Shutdowns Unit)
      [.core (.runExecution ⟨"r", ()⟩ someHandle none), .shutdown 0, .proceed 0, .proceed 0,
        .core (.advance 1 true), .proceed 0, .proceed 0]).map Prod.snd =
      some [.accepted 1, .returned 0] := rfl
  obtain ⟨⟨S, log⟩, hr, heq⟩ := Option.map_eq_some_iff.mp hend
  obtain rfl : log = _ := heq
  have hrun : (shutdownSystem someLimits).Run [.accepted 1, .returned 0] S :=
    ⟨_, rfl, .of_exec hr⟩
  have hdone := @shutdown_complete _ _ _ _ _ [.accepted 1] [] _ hrun rfl
  exact ⟨S, _, hrun, List.mem_cons_self, hdone.1 1 List.mem_cons_self⟩

end ExecutionProvider.Runtime
