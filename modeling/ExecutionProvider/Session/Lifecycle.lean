import ExecutionProvider.Session.Capture
import ExecutionProvider.Session.StopCause

/-!
# The life of a session

An execution is starting, runs, is to be stopped, and is finished. Many tasks change the data of
its session, and some of its fields belong to some of these states. A session is at a stage of its
life, which the place of the task that drives the process tells: before the launch, alive, exited,
or finished. Each section under the lock leaves the fields as they are to be at its stage.

## Main definitions

* `Stage`, `Data.At`: the stages, and what holds of the data at each of them.
* `Lives`: what holds of a session and its tasks.

## Main results

* `lifecycle`: the state only advances, the fields go with it, and a finished session stays as it
  is.
-/

namespace ExecutionProvider

/-- How far along the life of an execution a state is. -/
def ExecutionState.rank : ExecutionState → ℕ
  | starting => 0
  | running => 1
  | stopping => 2
  | finished => 3

end ExecutionProvider

namespace ExecutionProvider.Session

open ExecutionProvider.Runtime (Journal OutputSpool StopReason WriteOutcome)

/-! ### Stages -/

/-- The stages in the life of a session. -/
inductive Stage
  | before
  | alive
  | exited
  | finished
deriving DecidableEq

namespace Stage

/-- The state of an execution at a stage, given whether it is to be stopped. -/
def state : Stage → Bool → ExecutionState
  | before, stopping => if stopping then .stopping else .starting
  | alive, stopping => if stopping then .stopping else .running
  | exited, _ => .stopping
  | finished, _ => .finished

/-- How far along the life of a session a stage is. -/
def rank : Stage → ℕ
  | before => 0
  | alive => 1
  | exited => 2
  | finished => 3

/-- States advance with stages and with requests to stop. -/
theorem rank_state_le {s t : Stage} {b c : Bool} (hst : s.rank ≤ t.rank)
    (hbc : b = true → c = true) : (s.state b).rank ≤ (t.state c).rank := by
  revert hst hbc
  cases s <;> cases t <;> cases b <;> cases c <;> decide

end Stage

/-- What holds of the data of a session at a stage. -/
structure Data.At (s : Stage) (d : Data) : Prop where
  launched : d.launched = decide (s ≠ .before)
  rootExited : s ≠ .finished → d.rootExited = decide (s = .exited)
  state : d.execution.state = s.state d.stopDeadline.isSome
  control : s = .alive → d.control = true
  result : d.execution.result.isSome = decide (s = .finished)
  finishedAt : d.execution.finishedAt.isSome = decide (s = .finished)
  instant : d.finishedAt.isSome = decide (s = .finished)

section Sections

variable {d d' : Data} {s : Stage}

theorem Data.At.terminate (h : d.At s) (now grace : ℕ) (reason : StopReason) :
    (d.terminate now grace reason).At s := by
  rw [Data.terminate]
  split_ifs with hguard
  · refine ⟨h.launched, h.rootExited, ?_, h.control, h.result, h.finishedAt, h.instant⟩
    -- The session is before its launch or alive.
    have hstate := h.state
    cases s with
    | before => rfl
    | alive => rfl
    | exited => rfl
    | finished => exact absurd hstate hguard.1
  · exact h

theorem Data.At.launch (h : d.At .before) (writer : Bool) (startedAt : SystemTime) :
    (d.launch writer startedAt).At .alive := by
  refine ⟨rfl, fun _ => h.rootExited nofun, ?_, fun _ => rfl, h.result, h.finishedAt, h.instant⟩
  have hstate := h.state
  simp only [Data.launch, Data.revise]
  cases hstop : d.stopDeadline with
  | none => rfl
  | some deadline =>
    rw [hstop] at hstate
    exact hstate

theorem Data.At.rootExit (h : d.At .alive) : d.rootExit.At .exited :=
  ⟨h.launched, fun _ => rfl, rfl, nofun, h.result, h.finishedAt, h.instant⟩

theorem Data.At.dropControl (h : d.At .exited) : d.dropControl.At .exited :=
  ⟨h.launched, h.rootExited, h.state, nofun, h.result, h.finishedAt, h.instant⟩

theorem Data.At.loseOutput (h : d.At s) : d.loseOutput.At s :=
  ⟨h.launched, h.rootExited, h.state, h.control, h.result, h.finishedAt, h.instant⟩

theorem Data.At.noteSpool (h : d.At s) : d.noteSpool.At s := by
  rw [Data.noteSpool]
  split_ifs
  · exact h.loseOutput
  · exact h

theorem Data.at_finish (d : Data) (sha256 : List UInt8 → String) (closeError : Option String)
    (result : ExecutionResult) (finishedAt : SystemTime) (now : ℕ) :
    (d.finish sha256 closeError result finishedAt now).At .finished :=
  ⟨rfl, fun h => absurd rfl h, rfl, nofun, rfl, rfl, rfl⟩

theorem Data.At.append {outcomes : List WriteOutcome} {stream : OutputStream} {data : List UInt8}
    (h : d.At s) (hd : d.append outcomes stream data = some d') : d'.At s := by
  rw [Data.append] at hd
  split at hd
  · obtain rfl := Option.some.inj hd
    exact Data.At.noteSpool
      ⟨h.launched, h.rootExited, h.state, h.control, h.result, h.finishedAt, h.instant⟩
  · cases hd

theorem Data.At.leaveInput (h : d.At s) (error : Option String) : (d.leaveInput error).At s := by
  cases error with
  | none => exact ⟨h.launched, h.rootExited, h.state, h.control, h.result, h.finishedAt, h.instant⟩
  | some message =>
    exact ⟨h.launched, h.rootExited, h.state, h.control, h.result, h.finishedAt, h.instant⟩

end Sections

/-! ### Sessions with their tasks -/

namespace RunTask

/-- The stages at which a session may be. -/
def stages : RunTask → List Stage
  | cancelled => [.before]
  | spawning => [.before]
  | spawned _ => [.before]
  | finishing _ => [.before, .exited]
  | finished => [.finished]
  | done => [.finished]
  | exited .. => [.exited]
  | joining .. => [.exited]
  | grace .. => [.exited]
  | sleeping .. => [.exited]
  | killing .. => [.exited]
  | dropping .. => [.exited]
  | draining .. => [.exited]
  | expiring .. => [.exited]
  | aborting .. => [.exited]
  | releasing .. => [.exited]
  | classifying .. => [.exited]
  | _ => [.alive]

/-- There is no input task, or no longer. -/
def inputOver : RunTask → Bool
  | cancelled => true
  | spawning => true
  | spawned _ => true
  | grace .. => true
  | sleeping .. => true
  | killing .. => true
  | dropping .. => true
  | draining .. => true
  | expiring .. => true
  | aborting .. => true
  | releasing .. => true
  | classifying .. => true
  | finishing _ => true
  | finished => true
  | done => true
  | _ => false

/-- There are no readers, or no longer. -/
def outputOver : RunTask → Bool
  | cancelled => true
  | spawning => true
  | spawned _ => true
  | launched _ => true
  | releasing .. => true
  | classifying .. => true
  | finishing _ => true
  | finished => true
  | done => true
  | _ => false

end RunTask

/-- What a step makes of a stage: it may advance, and a finished session stays as it is. -/
def Advances (s : Stage) (w u : World) : Prop :=
  ∃ s' ∈ u.task.stages, u.data.At s' ∧ s.rank ≤ s'.rank ∧
    (s = .finished → u.data.execution = w.data.execution ∧ u.data.journal = w.data.journal)

variable {S : Setup} {w u : World} {es : List Event} {s : Stage}

/-- A step of another task that changes nothing of a finished session. -/
theorem Advances.other (hmem : s ∈ w.task.stages) (htask : u.task = w.task) (hat : u.data.At s)
    (hsame : s = .finished →
      u.data.execution = w.data.execution ∧ u.data.journal = w.data.journal) : Advances s w u :=
  ⟨s, htask ▸ hmem, hat, le_rfl, hsame⟩

/-- A step of the run task within a stage. -/
theorem Advances.within {t : Stage} (hmem : s ∈ w.task.stages) (hw : w.task.stages = [t])
    (hu : t ∈ u.task.stages) (hat : w.data.At s → u.data.At s) (h : w.data.At s)
    (hsame : s = .finished →
      u.data.execution = w.data.execution ∧ u.data.journal = w.data.journal) : Advances s w u := by
  rw [hw, List.mem_singleton] at hmem
  exact ⟨s, hmem ▸ hu, hat h, le_rfl, hsame⟩

/-- Steps of the run task that nobody sees. -/
theorem Silent.advances {task : RunTask} (hs : Silent S w task es) (hmem : s ∈ w.task.stages)
    (hat : w.data.At s) : Advances s w { w with task := task } := by
  have hwithin {t : Stage} (hw : w.task.stages = [t]) (hu : t ∈ task.stages) :
      Advances s w { w with task := task } := .within hmem hw hu id hat fun _ => ⟨rfl, rfl⟩
  cases hs with
  | cancelled htask | failed _ htask | spawned _ htask =>
    exact @hwithin .before (by rw [htask]; rfl) (by simp [RunTask.stages])
  | idle htask | recheck htask | notice htask | interrupt htask | settle _ _ htask | kill _ htask
  | select htask | exit _ htask | seen htask | elapsed htask =>
    exact @hwithin .alive (by rw [htask]; rfl) (by simp [RunTask.stages])
  | joined htask | sleep htask | hurry htask | awake htask | killed _ htask | drained htask
  | expired htask | aborted htask | released htask | classified htask =>
    exact @hwithin .exited (by rw [htask]; rfl) (by simp [RunTask.stages])

/-- The steps of the run task. -/
theorem RunStep.advances (hs : RunStep S w u es) (hmem : s ∈ w.task.stages) (hat : w.data.At s) :
    Advances s w u := by
  cases hs with
  | silent hs => exact hs.advances hmem hat
  | launch startedAt htask =>
    rw [htask] at hmem
    obtain rfl := List.mem_singleton.mp hmem
    exact ⟨.alive, List.mem_singleton_self _, hat.launch _ startedAt, by decide, nofun⟩
  | rootExit htask =>
    rw [htask] at hmem
    obtain rfl := List.mem_singleton.mp hmem
    exact ⟨.exited, List.mem_singleton_self _, hat.rootExit, by decide, nofun⟩
  | finish closeError finishedAt htask =>
    rw [htask] at hmem
    refine ⟨.finished, List.mem_singleton_self _, Data.at_finish .., ?_, ?_⟩
    · cases s <;> decide
    · rintro rfl
      simp [RunTask.stages] at hmem
  | dropControl htask =>
    rw [htask] at hmem
    obtain rfl := List.mem_singleton.mp hmem
    exact ⟨.exited, List.mem_singleton_self _, hat.dropControl, le_rfl, nofun⟩
  | loseOutput htask =>
    rw [htask] at hmem
    obtain rfl := List.mem_singleton.mp hmem
    exact ⟨.exited, List.mem_singleton_self _, hat.loseOutput, le_rfl, nofun⟩
  | terminate htask =>
    rw [htask] at hmem
    obtain rfl := List.mem_singleton.mp hmem
    exact ⟨.alive, List.mem_singleton_self _, hat.terminate .., le_rfl, nofun⟩
  | @drain l exit deadline reader ok htask hreader =>
    have hexited : s = .exited := by
      rw [htask] at hmem
      exact List.mem_singleton.mp hmem
    refine .other hmem rfl ?_ (fun hs => absurd (hexited.symm.trans hs) nofun)
    cases ok with
    | false => exact hat.loseOutput
    | true => exact hat
  | join | panic => exact .other hmem rfl hat fun _ => ⟨rfl, rfl⟩
  | @tell task task' htask htells =>
    have hwithin {t : Stage} (hw : w.task.stages = [t]) (hu : t ∈ task'.stages) :
        Advances s w { w.notifyWaiters with task := task' } :=
      .within hmem hw hu id hat fun _ => ⟨rfl, rfl⟩
    cases htells with
    | stopped => exact @hwithin .alive (by rw [htask]; rfl) (by simp [RunTask.stages])
    | exited => exact @hwithin .exited (by rw [htask]; rfl) (by simp [RunTask.stages])
    | finished => exact @hwithin .finished (by rw [htask]; rfl) (by simp [RunTask.stages])
  | spawn htask | enqueue _ htask | stop htask | permit htask =>
    exact @Advances.within _ _ _ .alive hmem (by rw [htask]; rfl) (by simp [RunTask.stages]) id hat
      fun _ => ⟨rfl, rfl⟩

/-- A session that is finished has nothing more to read or write. -/
theorem RunTask.over_of_finished {t : RunTask} (h : .finished ∈ t.stages) :
    t.inputOver = true ∧ t.outputOver = true := by
  cases t with
  | finished => exact ⟨rfl, rfl⟩
  | done => exact ⟨rfl, rfl⟩
  | _ => simp [RunTask.stages] at h

/-- The input task. -/
theorem InputStep.advances (hs : InputStep w u es) (hmem : s ∈ w.task.stages) (hat : w.data.At s)
    (hinput : w.task.inputOver = true → w.inputTask.isDone = true) : Advances s w u := by
  cases hs with
  | leave hleave =>
    refine .other hmem rfl (hat.leaveInput _) fun hfinished => ?_
    have hdone := hinput (RunTask.over_of_finished (hfinished ▸ hmem)).1
    rw [hleave] at hdone
    cases hdone
  | _ => exact .other hmem rfl hat fun _ => ⟨rfl, rfl⟩

theorem not_drained {reader : ℕ} {r : Reader} (h : w.readers[reader]? = some r)
    (hr : r.isJoined = false) : w.drained = false := by
  rw [Bool.eq_false_iff, World.drained, Ne, List.all_eq_true]
  intro hall
  rw [hall r (List.mem_of_getElem? h)] at hr
  cases hr

/-- A reader. -/
theorem ReaderStep.advances (hs : ReaderStep w u es) (hmem : s ∈ w.task.stages)
    (hat : w.data.At s) (houtput : w.task.outputOver = true → w.drained = true) :
    Advances s w u := by
  cases hs with
  | read hreader hdata hd =>
    refine .other hmem rfl (hat.append hd) fun hfinished => ?_
    have hdrained := houtput (RunTask.over_of_finished (hfinished ▸ hmem)).2
    rw [not_drained hreader rfl] at hdrained
    cases hdrained
  | _ => exact .other hmem rfl hat fun _ => ⟨rfl, rfl⟩

/-- Callers. -/
theorem CallerStep.advances (hs : CallerStep S w u es) (hmem : s ∈ w.task.stages)
    (hat : w.data.At s) : Advances s w u := by
  cases hs with
  | terminate grace reason =>
    refine .other hmem rfl (hat.terminate ..) fun hfinished => ?_
    have hstate : w.data.execution.state = .finished := by rw [hat.state, hfinished]; rfl
    have hsame : w.data.terminate w.now grace reason = w.data :=
      if_neg fun hguard => hguard.1 hstate
    rw [hsame]
    exact ⟨rfl, rfl⟩
  | resize rows cols hstate =>
    refine .other hmem rfl
      ⟨hat.launched, hat.rootExited, hat.state, hat.control, hat.result, hat.finishedAt,
        hat.instant⟩ fun hfinished => ?_
    have hstate' := hat.state
    rw [hstate, hfinished] at hstate'
    cases hstate'
  | receipt | write | close | interrupt | signal =>
    exact .other hmem rfl ⟨hat.launched, hat.rootExited, hat.state, hat.control, hat.result,
      hat.finishedAt, hat.instant⟩ fun _ => ⟨rfl, rfl⟩
  | _ => exact .other hmem rfl hat fun _ => ⟨rfl, rfl⟩

/-! ### Runs -/

/-- What holds of a session and its tasks: the data are as they are to be at the stage of the
session, and neither input nor output goes on for longer than it is to. -/
structure Lives (w : World) : Prop where
  stage : ∃ s ∈ w.task.stages, w.data.At s
  input : w.task.inputOver = true → w.inputTask.isDone = true
  output : w.task.outputOver = true → w.drained = true

/-- The input task is joined before the run task goes on. -/
theorem Silent.inputOver {task : RunTask} (hs : Silent S w task es) (h : task.inputOver = true) :
    w.task.inputOver = true ∨ w.inputTask.isDone = true := by
  cases hs with
  | joined htask hdone => exact .inr hdone
  | cancelled htask | failed _ htask | spawned _ htask | sleep htask | hurry htask | awake htask
  | killed _ htask | drained htask | expired htask | aborted htask | released htask
  | classified htask => exact .inl (by rw [htask]; rfl)
  | _ => cases h

/-- The readers are joined before the run task goes on. -/
theorem Silent.outputOver {task : RunTask} (hs : Silent S w task es) (h : task.outputOver = true) :
    w.task.outputOver = true ∨ w.drained = true := by
  cases hs with
  | drained htask hdrained => exact .inr hdrained
  | aborted htask hdrained => exact .inr hdrained
  | cancelled htask | failed _ htask | spawned _ htask | released htask | classified htask =>
    exact .inl (by rw [htask]; rfl)
  | _ => cases h

theorem Lives.advances (h : Lives w) (hs : Step S w u es) (hmem : s ∈ w.task.stages)
    (hat : w.data.At s) : Advances s w u := by
  cases hs with
  | run hs => exact hs.advances hmem hat
  | input hs => exact hs.advances hmem hat h.input
  | reader hs => exact hs.advances hmem hat h.output
  | caller hs => exact hs.advances hmem hat

/-- The steps of the run task leave input and output alone once they are over. -/
theorem RunStep.over (hs : RunStep S w u es) (h : Lives w) :
    (u.task.inputOver = true → u.inputTask.isDone = true) ∧
      (u.task.outputOver = true → u.drained = true) := by
  cases hs with
  | silent hs =>
    refine ⟨fun hover => ?_, fun hover => ?_⟩
    · exact (hs.inputOver hover).elim h.input id
    · exact (hs.outputOver hover).elim h.output id
  | launch startedAt htask => exact ⟨nofun, fun _ => h.output (by rw [htask]; rfl)⟩
  | dropControl htask => exact ⟨fun _ => h.input (by rw [htask]; rfl), nofun⟩
  | loseOutput htask => exact ⟨fun _ => h.input (by rw [htask]; rfl), nofun⟩
  | finish _ _ htask =>
    exact ⟨fun _ => h.input (by rw [htask]; rfl), fun _ => h.output (by rw [htask]; rfl)⟩
  | panic => exact ⟨h.input, h.output⟩
  | drain htask =>
    refine ⟨h.input, fun hover => ?_⟩
    rw [World.joinReader, htask] at hover
    cases hover
  | join htask =>
    refine ⟨h.input, fun hover => ?_⟩
    rw [World.joinReader, htask] at hover
    cases hover
  | tell htask htells =>
    cases htells with
    | finished =>
      exact ⟨fun _ => h.input (by rw [htask]; rfl), fun _ => h.output (by rw [htask]; rfl)⟩
    | _ => exact ⟨nofun, nofun⟩
  | _ => exact ⟨nofun, nofun⟩

/-- Once input is over there is nothing to do for the input task. -/
theorem InputStep.over (hs : InputStep w u es)
    (h : w.task.inputOver = true → w.inputTask.isDone = true) : u.task.inputOver = false := by
  rw [Bool.eq_false_iff]
  intro hover
  have hdone (hw : w.task.inputOver = true) {i : InputTask} (hi : w.inputTask = i) :
      i.isDone = true := hi ▸ h hw
  cases hs with
  | take hi | takeClose hi | hangUp hi | write _ hi | written hi | flushed hi | shut hi | leave hi
  | tell hi | close hi => cases hdone hover hi
  | fail _ hawaits =>
    have hdone' := h hover
    cases hi : w.inputTask <;> simp_all [InputTask.awaits, InputTask.isDone]
  | abort htask =>
    dsimp only at hover
    rw [htask] at hover
    cases hover

/-- Once output is over there is nothing to do for the readers. -/
theorem ReaderStep.over (hs : ReaderStep w u es)
    (h : w.task.outputOver = true → w.drained = true) : u.task.outputOver = false := by
  rw [Bool.eq_false_iff]
  intro hover
  have hdrained (hw : w.task.outputOver = true) {reader : ℕ} {r : Reader}
      (hr : w.readers[reader]? = some r) (hne : r.isJoined = false) : False := by
    have hnot := not_drained hr hne
    rw [h hw] at hnot
    cases hnot
  cases hs with
  | read hr => exact hdrained hover hr rfl
  | panic hr => exact hdrained hover hr rfl
  | tell hr => exact hdrained hover hr rfl
  | ended _ hr => exact hdrained hover hr rfl

/-- A step of a session. -/
theorem Lives.step (h : Lives w) (hs : Step S w u es) : Lives u := by
  obtain ⟨s, hmem, hat⟩ := h.stage
  obtain ⟨s', hmem', hat', -, -⟩ := h.advances hs hmem hat
  cases hs with
  | run hs => exact ⟨⟨s', hmem', hat'⟩, (hs.over h).1, (hs.over h).2⟩
  | input hs =>
    have hover := hs.over h.input
    refine ⟨⟨s', hmem', hat'⟩, fun hin => absurd hin (by rw [hover]; nofun), ?_⟩
    cases hs <;> exact h.output
  | reader hs =>
    have hover := hs.over h.output
    refine ⟨⟨s', hmem', hat'⟩, ?_, fun hout => absurd hout (by rw [hover]; nofun)⟩
    cases hs <;> exact h.input
  | caller hs =>
    refine ⟨⟨s', hmem', hat'⟩, ?_, ?_⟩
    · cases hs <;> exact h.input
    · cases hs <;> exact h.output

variable {log : List Event}

theorem lives (hrun : (sessionSystem S).Run log w) : Lives w := by
  refine hrun.invariant (I := fun _ => Lives) ?_ fun _ h hstep => h.step (step_cases hstep)
  rintro w ⟨execution, spool, cancelled, shutdown, now, rfl, hstate, hresult, hfinished, -⟩
  refine ⟨⟨.before, ?_, rfl, fun _ => rfl, hstate, nofun, ?_, ?_, rfl⟩, fun _ => rfl, fun _ => rfl⟩
  · cases cancelled <;> exact List.mem_singleton_self _
  · simp [World.init, Data.new, hresult]
  · simp [World.init, Data.new, hfinished]

/-- A running session has its control handle. -/
theorem Data.At.control_of_running {d : Data} (h : d.At s) (hstate : d.execution.state = .running) :
    d.control = true := by
  have hs := h.state
  rw [hstate] at hs
  cases s with
  | alive => exact h.control rfl
  | before => cases hstop : d.stopDeadline.isSome <;> rw [hstop] at hs <;> cases hs
  | exited => cases hs
  | finished => cases hs

/-- No task comes upon something that is missing. -/
theorem not_panicked (hrun : (sessionSystem S).Run log w) : Event.panicked ∉ log := by
  refine hrun.invariant (I := fun log _ => Event.panicked ∉ log) (fun _ _ => List.not_mem_nil) ?_
  intro log w a u es hrun hlog hstep
  rw [List.mem_append, not_or]
  refine ⟨hlog, fun hes => ?_⟩
  have hlives := lives hrun
  cases step_cases hstep with
  | run hs =>
    cases hs with
    | panic htask hstopping hnone =>
      -- The task has noticed a stop, so there is a deadline.
      have hexplains := explains hrun
      have hreason := hexplains.noticed (by rw [htask]; exact hstopping)
      rw [hexplains.both, hnone] at hreason
      cases hreason
    | silent hs => cases hs <;> simp at hes
    | enqueue =>
      obtain ⟨input, heq⟩ := eq_of_mem_sent hes
      cases heq
    | _ => simp at hes
  | input hs => cases hs <;> simp at hes
  | reader hs =>
    cases hs with
    | @panic reader stream data outcomes hreader hd =>
      obtain ⟨d, hd', -⟩ := (captures hrun).append outcomes stream data
      rw [hd] at hd'
      cases hd'
    | _ => simp at hes
  | caller hs =>
    cases hs with
    | panic hstate hcontrol =>
      obtain ⟨s, -, hat⟩ := hlives.stage
      rw [hat.control_of_running hstate] at hcontrol
      cases hcontrol
    | _ => simp at hes

theorem Data.At.isSome_iff {d : Data} {α : Type} {x : Option α} (h : d.At s)
    (hx : x.isSome = decide (s = .finished)) :
    x.isSome = true ↔ d.execution.state = .finished := by
  rw [hx, decide_eq_true_iff, h.state]
  cases s with
  | before => cases d.stopDeadline.isSome <;> simp [Stage.state]
  | alive => cases d.stopDeadline.isSome <;> simp [Stage.state]
  | exited => simp [Stage.state]
  | finished => simp [Stage.state]

/-- What a step does to the state of the execution. -/
theorem Lives.forward (h : Lives w) (hs : Step S w u es) :
    w.data.execution.state.rank ≤ u.data.execution.state.rank ∧
      (w.data.execution.state = .finished →
        u.data.execution = w.data.execution ∧ u.data.journal = w.data.journal) := by
  obtain ⟨s, hmem, hat⟩ := h.stage
  obtain ⟨s', hmem', hat', hrank, hsame⟩ := h.advances hs hmem hat
  refine ⟨?_, fun hfinished => hsame ?_⟩
  · rw [hat.state, hat'.state]
    refine Stage.rank_state_le hrank fun hstop => ?_
    obtain heq | ⟨hnone, -⟩ := keepsCause_step hs
    · rwa [show u.data.stopDeadline = w.data.stopDeadline from congrArg Prod.fst heq]
    · rw [hnone] at hstop
      cases hstop
  · exact of_decide_eq_true (hat.result ▸ (hat.isSome_iff hat.result).mpr hfinished)

/-- **The life of a session.** No task comes upon something that is missing. A running session has
its control handle, and there is a deadline whenever the loop has noticed a stop. A session has a
result, and the times of its end, exactly if it is finished. Its state only advances, and once it
is finished, its snapshot, the bytes of its journal and its revision stay as they are. -/
theorem lifecycle (hrun : (sessionSystem S).Run log w) :
    Event.panicked ∉ log ∧
      (w.data.execution.state = .running → w.data.control = true) ∧
      (w.task.stopping = true → w.data.stopDeadline.isSome = true) ∧
      (w.data.execution.result.isSome = true ↔ w.data.execution.state = .finished) ∧
      (w.data.execution.finishedAt.isSome = true ↔ w.data.execution.state = .finished) ∧
      (w.data.finishedAt.isSome = true ↔ w.data.execution.state = .finished) ∧
      ∀ log' u, (sessionSystem S).Path w log' u →
        w.data.execution.state.rank ≤ u.data.execution.state.rank ∧
          (w.data.execution.state = .finished →
            u.data.execution = w.data.execution ∧ u.data.journal = w.data.journal) := by
  have hlives := lives hrun
  have hexplains := explains hrun
  obtain ⟨s, hmem, hat⟩ := hlives.stage
  refine ⟨not_panicked hrun, hat.control_of_running, fun hstop => ?_, hat.isSome_iff hat.result,
    hat.isSome_iff hat.finishedAt, hat.isSome_iff hat.instant, fun log' u hp => ?_⟩
  · rw [← hexplains.both]
    exact hexplains.noticed hstop
  · have hpath := hp.preserves (I := fun v => Lives v ∧
      w.data.execution.state.rank ≤ v.data.execution.state.rank ∧
        (w.data.execution.state = .finished →
          v.data.execution = w.data.execution ∧ v.data.journal = w.data.journal))
      (fun hI hstep => ?_) ⟨hlives, le_rfl, fun _ => ⟨rfl, rfl⟩⟩
    · exact hpath.2
    · obtain ⟨hlives, hle, hsame⟩ := hI
      have hs := step_cases hstep
      obtain ⟨hle', hsame'⟩ := hlives.forward hs
      refine ⟨hlives.step hs, hle.trans hle', fun hfinished => ?_⟩
      obtain ⟨hexecution, hjournal⟩ := hsame hfinished
      obtain ⟨hexecution', hjournal'⟩ := hsame' (by rw [hexecution, hfinished])
      exact ⟨hexecution'.trans hexecution, hjournal'.trans hjournal⟩

/-- A process exits by itself; later calls change nothing. -/
theorem lifecycle_exited : ∃ log w log' u, (sessionSystem someSetup).Run log w ∧
    w.data.execution.state = .finished ∧ (sessionSystem someSetup).Path w log' u ∧
    u.data.inputReceipts.keys = ["empty"] ∧ u.data.execution = w.data.execution := by
  obtain ⟨w, log, u, log', hexec, hexec', hfinished, hkeys⟩ : ∃ w log u log',
      (sessionSystem someSetup).exec someSession
        [.run {}, .run {}, .run {}, .run {}, .run { branch := .exit (.ok ⟨some 0, none⟩) }, .run {},
          .run {}, .run {}, .run {}, .run {}, .run {}, .run {}, .run {}, .run {}, .run {}] =
        some (w, log) ∧
      (sessionSystem someSetup).exec w [.terminate 1 .explicitTermination, .notifyStop,
        .write "empty" [], .run {}] = some (u, log') ∧
      w.data.execution.state = .finished ∧ u.data.inputReceipts.keys = ["empty"] :=
    ⟨_, _, _, _, rfl, rfl, rfl, rfl⟩
  have hrun : (sessionSystem someSetup).Run log w :=
    ⟨someSession, someSession_start, .of_exec hexec⟩
  have hlife := (lifecycle hrun).2.2.2.2.2.2 log' u (.of_exec hexec')
  exact ⟨log, w, log', u, hrun, hfinished, .of_exec hexec', hkeys, (hlife.2 hfinished).1⟩

end ExecutionProvider.Session
