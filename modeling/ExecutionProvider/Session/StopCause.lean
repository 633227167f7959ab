import ExecutionProvider.Session.Steps

/-!
# Why a session stopped

Timeouts, callers and the shutdown of the runtime ask a session to stop, each with a deadline. The
first of them counts. The loop of the run task notices at some later time that there is a deadline,
and the result of the execution is decided later still, when the process is gone and its output is
drained; what is recorded in between changes nothing.

## Main definitions

* `Data.stopCause`: the deadline and the reason for which a session is to stop.
* `Classified`: how the result of an execution depends on why it stopped.

## Main results

* `stopCause_of_step`: a step that changes why a session stops finds that it is not to.
* `first_stop_cause`: the first cause is kept, and decides the result.
-/

namespace ExecutionProvider.Session

open ExecutionProvider.Runtime (StopReason WriteOutcome)

/-! ### The cause is kept -/

/-- When and why a session is to stop. -/
def Data.stopCause (d : Data) : Option ℕ × Option StopReason := (d.stopDeadline, d.stopReason)

section Sections

variable (d : Data)

@[simp] theorem stopCause_launch (writer : Bool) (startedAt : SystemTime) :
    (d.launch writer startedAt).stopCause = d.stopCause := rfl

@[simp] theorem stopCause_rootExit : d.rootExit.stopCause = d.stopCause := rfl

@[simp] theorem stopCause_dropControl : d.dropControl.stopCause = d.stopCause := rfl

@[simp] theorem stopCause_loseOutput : d.loseOutput.stopCause = d.stopCause := rfl

@[simp] theorem stopCause_noteSpool : d.noteSpool.stopCause = d.stopCause := by
  rw [Data.noteSpool]
  split_ifs <;> rfl

@[simp] theorem stopCause_finish (sha256 : List UInt8 → String) (closeError : Option String)
    (result : ExecutionResult) (finishedAt : SystemTime) (now : ℕ) :
    (d.finish sha256 closeError result finishedAt now).stopCause = d.stopCause :=
  stopCause_noteSpool { d with outputSpool := d.outputSpool.map (.finalize sha256 closeError) }

@[simp] theorem stopCause_leaveInput (error : Option String) :
    (d.leaveInput error).stopCause = d.stopCause := by
  cases error <;> rfl

theorem stopCause_append {d d' : Data} {outcomes : List WriteOutcome} {stream : OutputStream}
    {data : List UInt8} (h : d.append outcomes stream data = some d') :
    d'.stopCause = d.stopCause := by
  rw [Data.append] at h
  split at h
  · obtain rfl := Option.some.inj h
    exact stopCause_noteSpool _
  · cases h

theorem result_terminate (now grace : ℕ) (reason : StopReason) :
    (d.terminate now grace reason).execution.result = d.execution.result := by
  rw [Data.terminate]
  split_ifs <;> rfl

theorem result_noteSpool : d.noteSpool.execution.result = d.execution.result := by
  rw [Data.noteSpool]
  split_ifs <;> rfl

theorem result_leaveInput (error : Option String) :
    (d.leaveInput error).execution.result = d.execution.result := by
  cases error <;> rfl

theorem result_append {d d' : Data} {outcomes : List WriteOutcome} {stream : OutputStream}
    {data : List UInt8} (h : d.append outcomes stream data = some d') :
    d'.execution.result = d.execution.result := by
  rw [Data.append] at h
  split at h
  · obtain rfl := Option.some.inj h
    exact result_noteSpool _
  · cases h

/-- Asking a session to stop counts if nobody has asked before. -/
theorem stopCause_terminate (now grace : ℕ) (reason : StopReason) :
    (d.terminate now grace reason).stopCause = d.stopCause ∨
      d.stopDeadline = none ∧
        (d.terminate now grace reason).stopCause = (some (now + grace), some reason) := by
  rw [Data.terminate]
  split_ifs with h
  · exact .inr ⟨h.2.2, rfl⟩
  · exact .inl rfl

end Sections

variable {S : Setup} {w u : World} {a : Action} {es : List Event}

/-- What a step does to the cause for which a session stops. -/
def KeepsCause (d d' : Data) : Prop :=
  d'.stopCause = d.stopCause ∨
    d.stopDeadline = none ∧ ∃ deadline reason, d'.stopCause = (some deadline, some reason)

theorem keepsCause_terminate (d : Data) (now grace : ℕ) (reason : StopReason) :
    KeepsCause d (d.terminate now grace reason) :=
  (stopCause_terminate d now grace reason).imp id fun h => ⟨h.1, _, _, h.2⟩

/-- A step that changes the cause for which a session stops finds that there is none. -/
theorem keepsCause_step (h : Step S w u es) : KeepsCause w.data u.data := by
  cases h with
  | run h =>
    cases h with
    | terminate htask => exact keepsCause_terminate _ _ _ _
    | finish closeError finishedAt htask => exact .inl (stopCause_finish ..)
    | @drain l exit deadline reader ok htask hreader =>
      cases ok with
      | false => exact .inl (stopCause_loseOutput w.data)
      | true => exact .inl rfl
    | silent => exact .inl rfl
    | launch => exact .inl rfl
    | spawn => exact .inl rfl
    | enqueue => exact .inl rfl
    | stop => exact .inl rfl
    | permit => exact .inl rfl
    | tell => exact .inl rfl
    | rootExit => exact .inl rfl
    | panic => exact .inl rfl
    | dropControl => exact .inl rfl
    | loseOutput => exact .inl rfl
    | join => exact .inl rfl
  | input h =>
    cases h with
    | leave => exact .inl (stopCause_leaveInput ..)
    | _ => exact .inl rfl
  | reader h =>
    cases h with
    | read hreader hdata hd => exact .inl (stopCause_append hd)
    | _ => exact .inl rfl
  | caller h =>
    cases h with
    | terminate grace reason => exact keepsCause_terminate _ _ _ _
    | _ => exact .inl rfl

/-! ### The result -/

/-- The task has noticed that it is to stop the process. -/
def RunTask.stopping (t : RunTask) : Bool := t.loop.any Loop.stopping

/-- The task has left its loop, or never was in it and will not be. -/
def RunTask.hasLeft : RunTask → Bool
  | .exiting .. => true
  | .exited .. => true
  | .joining .. => true
  | .grace .. => true
  | .sleeping .. => true
  | .killing .. => true
  | .dropping .. => true
  | .draining .. => true
  | .expiring .. => true
  | .aborting .. => true
  | .releasing .. => true
  | .classifying .. => true
  | .finishing _ => true
  | .finished => true
  | .done => true
  | _ => false

/-- How a result is explained by the cause for which the session stopped, and by whether the loop
has left without having noticed any. -/
structure Classified (log : List Event) (d : Data) (r : ExecutionResult) : Prop where
  timedOut : ∀ code signal, r = .timedOut code signal → d.stopReason = some .timeout
  terminated : ∀ code signal, r = .terminated code signal →
    d.stopReason = some .explicitTermination ∨ d.stopReason = some .runtimeShutdown ∨
      Event.cancelled ∈ log
  unnoticed : Event.left false ∈ log →
    (∃ code signal, r = .exited code signal) ∨ ∃ message, r = .lost message

/-- What holds of the causes along a run. -/
structure Explains (log : List Event) (w : World) : Prop where
  both : w.data.stopReason.isSome = w.data.stopDeadline.isSome
  noticed : w.task.stopping = true → w.data.stopReason.isSome = true
  left : Event.left false ∈ log → w.task.hasLeft = true ∧ w.task.stopping = false
  finishing : ∀ r, w.task = .finishing r → Classified log w.data r
  result : ∀ r ∈ w.data.execution.result, (w.task = .finished ∨ w.task = .done) ∧
    Classified log w.data r

variable {log : List Event}

/-- A recorded reason is kept. -/
theorem KeepsCause.stopReason {d d' : Data} (h : KeepsCause d d')
    (hboth : d.stopReason.isSome = d.stopDeadline.isSome) {reason : StopReason}
    (hreason : d.stopReason = some reason) : d'.stopReason = some reason := by
  obtain heq | ⟨hnone, -⟩ := h
  · rw [← hreason]
    exact congrArg Prod.snd heq
  · rw [hreason, hnone] at hboth
    cases hboth

theorem KeepsCause.both {d d' : Data} (h : KeepsCause d d')
    (hboth : d.stopReason.isSome = d.stopDeadline.isSome) :
    d'.stopReason.isSome = d'.stopDeadline.isSome := by
  obtain heq | ⟨-, deadline, reason, heq⟩ := h
  · rw [show d'.stopReason = d.stopReason from congrArg Prod.snd heq,
      show d'.stopDeadline = d.stopDeadline from congrArg Prod.fst heq, hboth]
  · rw [show d'.stopReason = some reason from congrArg Prod.snd heq,
      show d'.stopDeadline = some deadline from congrArg Prod.fst heq]
    rfl

/-- A result stays explained while the cause is kept and the loop is not left. -/
theorem Classified.mono {d d' : Data} {r : ExecutionResult} (h : Classified log d r)
    (hkeeps : KeepsCause d d') (hboth : d.stopReason.isSome = d.stopDeadline.isSome)
    (hes : Event.left false ∉ es) : Classified (log ++ es) d' r where
  timedOut code signal hr := hkeeps.stopReason hboth (h.timedOut code signal hr)
  terminated code signal hr := by
    obtain hreason | hreason | hlog := h.terminated code signal hr
    · exact .inl (hkeeps.stopReason hboth hreason)
    · exact .inr (.inl (hkeeps.stopReason hboth hreason))
    · exact .inr (.inr (List.mem_append_left es hlog))
  unnoticed hlog := h.unnoticed ((List.mem_append.mp hlog).resolve_right hes)

/-- What is decided when the loop has left. -/
theorem Explains.classify {l : Loop} {exit : Except String Exit} (h : Explains log w)
    (htask : w.task = .classifying l exit) :
    Classified log w.data (l.classify exit w.data.stopReason) := by
  have hstopping : w.task.stopping = l.stopping := by rw [htask]; rfl
  have hunnoticed (hlog : Event.left false ∈ log) : l.stopping = false :=
    hstopping ▸ (h.left hlog).2
  unfold Loop.classify
  split
  · exact ⟨nofun, nofun, fun _ => .inr ⟨_, rfl⟩⟩
  · exact ⟨nofun, nofun, fun _ => .inr ⟨_, rfl⟩⟩
  · split_ifs with htimeout hstop
    · rw [Bool.and_eq_true, decide_eq_true_iff] at htimeout
      refine ⟨fun _ _ _ => htimeout.2, nofun, fun hlog => ?_⟩
      rw [hunnoticed hlog] at htimeout
      cases htimeout.1
    · refine ⟨nofun, fun _ _ _ => ?_, fun hlog => ?_⟩
      · -- There is a reason, and it is not the timeout.
        obtain ⟨reason, hreason⟩ := Option.isSome_iff_exists.mp (h.noticed (hstopping ▸ hstop))
        rw [hreason] at htimeout ⊢
        cases reason with
        | explicitTermination => exact .inl rfl
        | runtimeShutdown => exact .inr (.inl rfl)
        | timeout => exact absurd (by simp [hstop]) htimeout
      · rw [hunnoticed hlog] at hstop
        cases hstop
    · exact ⟨nofun, nofun, fun _ => .inl ⟨_, _, rfl⟩⟩

/-- A step of another task. -/
theorem Explains.other (h : Explains log w) (htask : u.task = w.task)
    (hresult : u.data.execution.result = w.data.execution.result)
    (hkeeps : KeepsCause w.data u.data) (hes : Event.left false ∉ es) :
    Explains (log ++ es) u where
  both := hkeeps.both h.both
  noticed hstop := by
    obtain ⟨reason, hreason⟩ := Option.isSome_iff_exists.mp (h.noticed (htask ▸ hstop))
    rw [hkeeps.stopReason h.both hreason]
    rfl
  left hlog := by
    rw [htask]
    exact h.left ((List.mem_append.mp hlog).resolve_right hes)
  finishing r hr := (h.finishing r (htask ▸ hr)).mono hkeeps h.both hes
  result r hr := by
    rw [hresult] at hr
    rw [htask]
    exact ⟨(h.result r hr).1, (h.result r hr).2.mono hkeeps h.both hes⟩

/-- The task goes on, and has noticed as much as before. -/
theorem Explains.move {task : RunTask} (h : Explains log w) (htask : u.task = task)
    (hstopping : task.stopping = w.task.stopping) (hleft : task.hasLeft = w.task.hasLeft)
    (hfinishing : ∀ r, task ≠ .finishing r) (hgoes : w.task ≠ .finished ∧ w.task ≠ .done)
    (hresult : u.data.execution.result = w.data.execution.result)
    (hkeeps : KeepsCause w.data u.data) (hes : Event.left false ∉ es) :
    Explains (log ++ es) u where
  both := hkeeps.both h.both
  noticed hstop := by
    rw [htask, hstopping] at hstop
    obtain ⟨reason, hreason⟩ := Option.isSome_iff_exists.mp (h.noticed hstop)
    rw [hkeeps.stopReason h.both hreason]
    rfl
  left hlog := by
    rw [htask, hstopping, hleft]
    exact h.left ((List.mem_append.mp hlog).resolve_right hes)
  finishing r hr := absurd (htask ▸ hr) (hfinishing r)
  result r hr := by
    rw [hresult] at hr
    obtain hdone | hdone := (h.result r hr).1
    · exact absurd hdone hgoes.1
    · exact absurd hdone hgoes.2

/-- A result is decided. -/
theorem Explains.decide {r : ExecutionResult} (h : Explains log w)
    (hgoes : w.task ≠ .finished ∧ w.task ≠ .done) (hr : Classified (log ++ es) w.data r) :
    Explains (log ++ es) { w with task := .finishing r } where
  both := h.both
  noticed := nofun
  left _ := ⟨rfl, rfl⟩
  finishing r' hr' := by
    obtain rfl := RunTask.finishing.inj hr'
    exact hr
  result r' hr' := by
    obtain hdone | hdone := (h.result r' hr').1
    · exact absurd hdone hgoes.1
    · exact absurd hdone hgoes.2

@[simp] theorem stopping_settle (l : Loop) (graceful : Result Bool) (kill : Result Unit) :
    (l.settle graceful kill).stopping = l.stopping := by
  unfold Loop.settle
  split <;> rfl

@[simp] theorem stopping_note (l : Loop) (answer : Result Unit) :
    (l.note answer).stopping = l.stopping := by
  cases answer <;> rfl

/-- Steps that nobody sees: the task may notice that it is to stop the process, leave the loop, or
decide the result. -/
theorem Explains.silent {task : RunTask} (h : Explains log w) (hs : Silent S w task es) :
    Explains (log ++ es) { w with task := task } := by
  have hkeeps : KeepsCause w.data w.data := .inl rfl
  have hmove (hstopping : task.stopping = w.task.stopping) (hleft : task.hasLeft = w.task.hasLeft)
      (hfinishing : ∀ r, task ≠ .finishing r) (hgoes : w.task ≠ .finished ∧ w.task ≠ .done)
      (hes : es = []) : Explains (log ++ es) { w with task := task } :=
    h.move rfl hstopping hleft hfinishing hgoes rfl hkeeps (hes ▸ List.not_mem_nil)
  cases hs with
  | cancelled htask =>
    refine h.decide (by simp [htask]) ⟨nofun, fun _ _ _ => .inr (.inr (by simp)), fun hlog => ?_⟩
    have hleft := (h.left (by simpa using hlog)).1
    rw [htask] at hleft
    cases hleft
  | failed message htask =>
    refine h.decide (by simp [htask]) ⟨nofun, nofun, fun hlog => ?_⟩
    have hleft := (h.left (by simpa using hlog)).1
    rw [htask] at hleft
    cases hleft
  | classified htask =>
    rw [List.append_nil]
    have hdecide := h.classify htask
    rw [← List.append_nil log] at hdecide ⊢
    exact h.decide (by simp [htask]) hdecide
  | notice htask hsome hstopping =>
    rw [List.append_nil]
    refine ⟨h.both, fun _ => ?_, fun hlog => ?_, nofun, fun r hr => ?_⟩
    · rw [h.both, hsome]
      rfl
    · have hleft := (h.left hlog).1
      rw [htask] at hleft
      cases hleft
    · have hdone := (h.result r hr).1
      simp [htask] at hdone
  | @exit l deadline status htask =>
    refine ⟨h.both, fun hstop => h.noticed (by rw [htask]; exact hstop), fun hlog => ⟨rfl, ?_⟩,
      nofun, fun r hr => ?_⟩
    · obtain hold | hnew := List.mem_append.mp hlog
      · have hleft := (h.left hold).1
        rw [htask] at hleft
        cases hleft
      · exact (Event.left.inj (List.mem_singleton.mp hnew)).symm
    · have hdone := (h.result r hr).1
      simp [htask] at hdone
  | released htask hl =>
    obtain rfl | ⟨message, rfl⟩ := hl
    · exact hmove (by rw [htask]; rfl) (by rw [htask]; rfl) nofun (by simp [htask]) rfl
    · exact hmove (by rw [htask]; rfl) (by rw [htask]; rfl) nofun (by simp [htask]) rfl
  | settle graceful kill htask =>
    exact hmove (by simp [htask, RunTask.stopping, RunTask.loop]) (by rw [htask]; rfl) nofun
      (by simp [htask]) rfl
  | kill answer htask =>
    exact hmove (by simp [htask, RunTask.stopping, RunTask.loop]) (by rw [htask]; rfl) nofun
      (by simp [htask]) rfl
  | killed answer htask =>
    exact hmove (by simp [htask, RunTask.stopping, RunTask.loop]) (by rw [htask]; rfl) nofun
      (by simp [htask]) rfl
  | spawned p htask | idle htask | recheck htask | interrupt htask | select htask | seen htask
  | elapsed htask | joined htask | sleep htask | hurry htask | awake htask | drained htask
  | expired htask | aborted htask =>
    exact hmove (by rw [htask]; rfl) (by rw [htask]; rfl) nofun (by simp [htask]) rfl

/-- The steps of the task that drives the process. -/
theorem Explains.run (h : Explains log w) (hs : RunStep S w u es) : Explains (log ++ es) u := by
  have hkeeps : KeepsCause w.data u.data := keepsCause_step (.run hs)
  cases hs with
  | silent hs => exact h.silent hs
  | @finish result closeError finishedAt htask =>
    have hcause : (w.data.finish S.sha256 closeError result finishedAt w.now).stopCause =
        w.data.stopCause := stopCause_finish ..
    refine ⟨hkeeps.both h.both, nofun, fun _ => ⟨rfl, rfl⟩, nofun, fun r hr => ⟨.inl rfl, ?_⟩⟩
    obtain rfl : result = r := Option.some.inj hr
    exact (h.finishing result htask).mono hkeeps h.both List.not_mem_nil
  | panic => exact h.other rfl rfl hkeeps (by simp)
  | @drain l exit deadline reader ok htask hreader =>
    refine h.other rfl ?_ hkeeps List.not_mem_nil
    cases ok with
    | false => rfl
    | true => rfl
  | join => exact h.other rfl rfl hkeeps List.not_mem_nil
  | spawn htask =>
    exact h.move rfl (by rw [htask]; rfl) (by rw [htask]; rfl) nofun (by simp [htask]) rfl hkeeps
      List.not_mem_nil
  | @enqueue l deadline kill htask =>
    refine h.move rfl (by simp [htask, RunTask.stopping, RunTask.loop]) (by rw [htask]; rfl) nofun
      (by simp [htask]) rfl hkeeps fun hes => ?_
    obtain ⟨input, heq⟩ := eq_of_mem_sent hes
    cases heq
  | terminate htask =>
    refine h.move rfl (by rw [htask]; rfl) (by rw [htask]; rfl) nofun (by simp [htask]) ?_ hkeeps
      List.not_mem_nil
    exact result_terminate ..
  | tell htask htells =>
    cases htells with
    | finished =>
      refine ⟨h.both, nofun, fun _ => ⟨rfl, rfl⟩, nofun, fun r hr => ⟨.inr rfl, ?_⟩⟩
      rw [List.append_nil]
      exact (h.result r hr).2
    | stopped | exited =>
      exact h.move rfl (by rw [htask]; rfl) (by rw [htask]; rfl) nofun (by simp [htask]) rfl hkeeps
        List.not_mem_nil
  | launch _ htask | stop htask | permit htask | rootExit htask | dropControl htask
  | loseOutput htask =>
    exact h.move rfl (by rw [htask]; rfl) (by rw [htask]; rfl) nofun (by simp [htask]) rfl hkeeps
      List.not_mem_nil

/-- What holds of the causes holds along a run. -/
theorem explains (hrun : (sessionSystem S).Run log w) : Explains log w := by
  refine hrun.invariant (I := Explains) ?_ fun _ h hstep => ?_
  · rintro w ⟨execution, spool, cancelled, shutdown, now, rfl, -, hresult, -, -⟩
    refine ⟨rfl, ?_, nofun, ?_, fun r hr => ?_⟩
    · cases cancelled <;> nofun
    · cases cancelled <;> nofun
    · have hnone : some r = none := hr.symm.trans hresult
      cases hnone
  · have hs := step_cases hstep
    have hkeeps := keepsCause_step hs
    cases hs with
    | run hs => exact h.run hs
    | input hs =>
      cases hs with
      | leave => exact h.other rfl (result_leaveInput ..) hkeeps List.not_mem_nil
      | write => exact h.other rfl rfl hkeeps (by simp)
      | _ => exact h.other rfl rfl hkeeps List.not_mem_nil
    | reader hs =>
      cases hs with
      | read hreader hdata hd => exact h.other rfl (result_append hd) hkeeps (by simp)
      | panic => exact h.other rfl rfl hkeeps (by simp)
      | _ => exact h.other rfl rfl hkeeps List.not_mem_nil
    | caller hs =>
      cases hs with
      | terminate => exact h.other rfl (result_terminate ..) hkeeps List.not_mem_nil
      | write | close | signal | panic => exact h.other rfl rfl hkeeps (by simp)
      | _ => exact h.other rfl rfl hkeeps List.not_mem_nil

/-- A cause that is recorded is kept along a path. -/
theorem stopCause_of_path (hp : (sessionSystem S).Path w log u)
    (hcause : w.data.stopDeadline.isSome = true) :
    u.data.stopCause = w.data.stopCause := by
  refine hp.preserves (I := fun v => v.data.stopCause = w.data.stopCause) (fun hI hstep => ?_) rfl
  obtain heq | ⟨hnone, -⟩ := keepsCause_step (step_cases hstep)
  · rw [heq, hI]
  · rw [show w.data.stopDeadline = none from (congrArg Prod.fst hI).symm.trans hnone] at hcause
    cases hcause

/-- **The first cause for which a session stops.** The deadline and the reason are set together,
and once they are set they never change. They decide the result: it tells of a timeout only if the
reason is the timeout, and of a termination only if the reason is another or the run was cancelled
before its launch; if the loop was left before a cause was noticed, it tells of neither. -/
theorem first_stop_cause (hrun : (sessionSystem S).Run log w) :
    w.data.stopReason.isSome = w.data.stopDeadline.isSome ∧
      (∀ log' u, (sessionSystem S).Path w log' u → w.data.stopDeadline.isSome = true →
        u.data.stopDeadline = w.data.stopDeadline ∧ u.data.stopReason = w.data.stopReason) ∧
      ∀ r, w.data.execution.result = some r →
        ((∃ code signal, r = .timedOut code signal) → w.data.stopReason = some .timeout) ∧
        ((∃ code signal, r = .terminated code signal) →
          w.data.stopReason = some .explicitTermination ∨
            w.data.stopReason = some .runtimeShutdown ∨ Event.cancelled ∈ log) ∧
        (Event.left false ∈ log →
          (∃ code signal, r = .exited code signal) ∨ ∃ message, r = .lost message) := by
  have hexplains := explains hrun
  refine ⟨hexplains.both, fun log' u hp hcause => ?_, fun r hr => ?_⟩
  · have heq := stopCause_of_path hp hcause
    exact ⟨congrArg Prod.fst heq, congrArg Prod.snd heq⟩
  · have hclass := (hexplains.result r hr).2
    refine ⟨?_, ?_, hclass.unnoticed⟩
    · rintro ⟨code, signal, rfl⟩
      exact hclass.timedOut code signal rfl
    · rintro ⟨code, signal, rfl⟩
      exact hclass.terminated code signal rfl

/-- A timeout comes before a caller, and the process ends when it is asked to. -/
theorem first_stop_cause_timeout : ∃ log w, (sessionSystem someSetup).Run log w ∧
    w.data.execution.result = some (.timedOut (some 0) none) ∧
    w.data.stopReason = some .timeout := by
  have hend : ((sessionSystem someSetup).exec someSession
      [.run {}, .run {}, .run {}, .terminate 5 .timeout, .terminate 1 .explicitTermination,
        .run {}, .run {}, .run {}, .run { branch := .exit (.ok ⟨some 0, none⟩) }, .run {}, .run {},
        .run {}, .run {}, .tick 5, .run {}, .run {}, .run {}, .run {}, .run {}, .run {},
        .run {}]).map (fun r => (r.1.data.execution.result)) =
      some (some (.timedOut (some 0) none)) := by
    decide +kernel
  obtain ⟨⟨w, log⟩, hexec, hresult⟩ := Option.map_eq_some_iff.mp hend
  have hrun : (sessionSystem someSetup).Run log w :=
    ⟨someSession, someSession_start, .of_exec hexec⟩
  have hcause := (first_stop_cause hrun).2.2 _ hresult
  exact ⟨log, w, hrun, hresult, hcause.1 ⟨_, _, rfl⟩⟩

end ExecutionProvider.Session
