import ExecutionProvider.Session.StopCause

/-!
# Nobody sleeps through a change

The loop of the run task waits for a notification that keeps one permit, and looks at the deadline
when it is woken. Callers wait for a notification that keeps nothing, for which they register
before they look. In both cases what they wait for is recorded under the lock, and they are
notified after the lock is released.

## Main definitions

* `World.Telling`: somebody is to notify the waiters.
* `World.Armed`: what the loop knows of the deadline.

## Main results

* `Armed.step`, `served_step`: no step leaves anybody asleep.
* `never_slept_through`: neither the loop nor a waiter sleeps through what it waits for.
-/

namespace ExecutionProvider.Session

/-! ### The loop -/

/-- The loop and the deadline that it has seen and acts on. -/
def RunTask.acting : RunTask → Option (Loop × ℕ)
  | .noticing l deadline => some (l, deadline)
  | .interrupting l deadline => some (l, deadline)
  | .checking l deadline => some (l, deadline)
  | _ => none

/-- The loop that waits, and the deadline that its timer is set for. -/
def RunTask.waiting : RunTask → Option (Loop × Option ℕ)
  | .selecting l deadline => some (l, deadline)
  | _ => none

/-- What the loop knows of the deadline. Between looking at it and waiting, it is the one that was
recorded. While the loop waits, a recorded deadline is one that it acts on, by a timer or by having
killed the process, or the loop has been notified or is to be. -/
structure World.Armed (w : World) : Prop where
  acting : ∀ l deadline, w.task.acting = some (l, deadline) →
    l.stopping = true ∧ w.data.stopDeadline = some deadline
  waiting : ∀ l deadline d, w.task.waiting = some (l, deadline) → w.data.stopDeadline = some d →
    (l.stopping = true ∧ (l.killed = true ∨ deadline = some d)) ∨ w.stop = true ∨
      0 < w.stopCallers

variable {S : Setup} {w u : World} {es : List Event}

/-- A step of another task that does not take a notification away. -/
theorem World.Armed.other (h : w.Armed) (htask : u.task = w.task)
    (hkeeps : KeepsCause w.data u.data)
    (hnew : u.data.stopDeadline = w.data.stopDeadline ∨ 0 < u.stopCallers)
    (hpending : w.stop = true ∨ 0 < w.stopCallers → u.stop = true ∨ 0 < u.stopCallers) :
    u.Armed where
  acting l deadline ht := by
    obtain ⟨hstopping, hd⟩ := h.acting l deadline (htask ▸ ht)
    refine ⟨hstopping, ?_⟩
    obtain heq | ⟨hnone, -⟩ := hkeeps
    · rw [← hd]
      exact congrArg Prod.fst heq
    · cases hnone.symm.trans hd
  waiting l deadline d ht hd := by
    obtain hsame | hpos := hnew
    · exact (h.waiting l deadline d (htask ▸ ht) (hsame ▸ hd)).imp id hpending
    · exact .inr (.inr hpos)

/-- A step to a place where the loop neither acts nor waits. -/
theorem World.armed_of_task (hacting : u.task.acting = none) (hwaiting : u.task.waiting = none) :
    u.Armed where
  acting l deadline ht := by
    rw [hacting] at ht
    cases ht
  waiting l deadline d ht := by
    rw [hwaiting] at ht
    cases ht

/-- A step to a place where the loop acts. -/
theorem World.armed_acting {l : Loop} {deadline : ℕ} (hacting : u.task.acting = some (l, deadline))
    (hwaiting : u.task.waiting = none) (hstopping : l.stopping = true)
    (hd : u.data.stopDeadline = some deadline) : u.Armed where
  acting l' deadline' ht := by
    cases hacting.symm.trans ht
    exact ⟨hstopping, hd⟩
  waiting l' deadline' d ht := by
    rw [hwaiting] at ht
    cases ht

/-- A step to the place where the loop waits. -/
theorem World.armed_waiting {l : Loop} {deadline : Option ℕ} (hacting : u.task.acting = none)
    (hwaiting : u.task.waiting = some (l, deadline))
    (h : ∀ d, u.data.stopDeadline = some d →
      l.stopping = true ∧ (l.killed = true ∨ deadline = some d)) : u.Armed where
  acting l' deadline' ht := by
    rw [hacting] at ht
    cases ht
  waiting l' deadline' d ht hd := by
    cases hwaiting.symm.trans ht
    exact .inl (h d hd)

/-- Steps of the loop that nobody sees. -/
theorem World.Armed.silent {task : RunTask} (h : w.Armed) (hs : Silent S w task es) :
    ({ w with task := task } : World).Armed := by
  cases hs with
  | idle htask hnone =>
    refine armed_waiting rfl rfl fun d hd => ?_
    cases hnone.symm.trans hd
  | recheck htask hsome hstopping => exact armed_acting rfl rfl hstopping hsome
  | notice htask hsome => exact armed_acting rfl rfl rfl hsome
  | interrupt htask =>
    obtain ⟨hstopping, hd⟩ := h.acting _ _ (by rw [htask]; rfl)
    exact armed_acting rfl rfl hstopping hd
  | settle graceful kill htask =>
    obtain ⟨hstopping, hd⟩ := h.acting _ _ (by rw [htask]; rfl)
    exact armed_acting rfl rfl (by rw [stopping_settle, hstopping]) hd
  | kill answer htask =>
    have hstopping := (h.acting _ _ (by rw [htask]; rfl)).1
    exact armed_waiting rfl rfl fun d hd => ⟨(stopping_note _ answer).trans hstopping, .inl rfl⟩
  | select htask =>
    obtain ⟨hstopping, hd'⟩ := h.acting _ _ (by rw [htask]; rfl)
    exact armed_waiting rfl rfl fun d hd => ⟨hstopping, .inr (hd'.symm.trans hd)⟩
  | _ => exact armed_of_task rfl rfl

/-- A step. -/
theorem World.Armed.step (h : w.Armed) (hs : Step S w u es) : u.Armed := by
  have hkeeps := keepsCause_step hs
  cases hs with
  | run hs =>
    cases hs with
    | silent hs => exact h.silent hs
    | enqueue kill htask =>
      obtain ⟨hstopping, hd⟩ := h.acting _ _ (by rw [htask]; rfl)
      exact armed_acting rfl rfl (by rw [stopping_settle, hstopping]) hd
    | tell htask htells => cases htells <;> exact armed_of_task rfl rfl
    | panic => exact h
    | drain htask =>
      refine armed_of_task ?_ ?_
      · rw [World.joinReader, htask]
        rfl
      · rw [World.joinReader, htask]
        rfl
    | join htask =>
      refine armed_of_task ?_ ?_
      · rw [World.joinReader, htask]
        rfl
      · rw [World.joinReader, htask]
        rfl
    | _ => exact armed_of_task rfl rfl
  | input hs =>
    cases hs with
    | @leave error =>
      exact h.other rfl hkeeps (.inl (congrArg Prod.fst (stopCause_leaveInput w.data error))) id
    | _ => exact h.other rfl hkeeps (.inl rfl) id
  | reader hs =>
    cases hs with
    | read hreader hdata hd =>
      exact h.other rfl hkeeps (.inl (congrArg Prod.fst (stopCause_append hd))) id
    | _ => exact h.other rfl hkeeps (.inl rfl) id
  | caller hs =>
    cases hs with
    | terminate => exact h.other rfl hkeeps (.inr (Nat.succ_pos _)) fun _ => .inr (Nat.succ_pos _)
    | permit => exact h.other rfl hkeeps (.inl rfl) fun _ => .inl rfl
    | _ => exact h.other rfl hkeeps (.inl rfl) id

/-! ### The waiters -/

/-- The task is to notify the waiters, at once or after it has notified itself. -/
def RunTask.tells : RunTask → Bool
  | .launched _ => true
  | .stopNotice _ => true
  | .changeNotice _ => true
  | .exited .. => true
  | .finished => true
  | _ => false

/-- Somebody is to notify the waiters: a caller, the task that drives the process, a reader, or
the input task. -/
def World.Telling (w : World) : Prop :=
  0 < w.stopCallers ∨ 0 < w.changeCallers ∨ w.task.tells = true ∨
    (∃ stream, .appended stream ∈ w.readers) ∨ w.inputTask = .notifying

/-- What waiters see of a session. -/
structure SameView (d d' : Data) : Prop where
  launched : d'.launched = d.launched
  state : d'.execution.state = d.execution.state
  handle : d'.execution.handle = d.execution.handle
  journal : d'.journal = d.journal

theorem SameView.refl (d : Data) : SameView d d := ⟨rfl, rfl, rfl, rfl⟩

/-- Whether a caller returns at once depends only on what waiters see. -/
theorem SameView.holds {d d' : Data} (h : SameView d d') (c : Condition) :
    c.holds d' = c.holds d := by
  cases c with
  | launched => exact h.launched
  | finished => rw [Condition.holds, Condition.holds, h.state]
  | observes cursor limit returnWhen deadline =>
    have hrefuses (c : Cursor) : d'.journal.refuses d'.execution c =
        d.journal.refuses d.execution c := by
      rw [Runtime.Journal.refuses, Runtime.Journal.refuses, h.handle, h.journal]
    have hreason (j : Runtime.Journal) (delivered : ℕ) (output : List OutputChunk) (gap : Bool) :
        j.returnReason d'.execution cursor limit delivered output gap =
          j.returnReason d.execution cursor limit delivered output gap := by
      rw [Runtime.Journal.returnReason, Runtime.Journal.returnReason, h.state]
    rw [Condition.holds, Condition.holds, Runtime.Journal.read, Runtime.Journal.read,
      funext hrefuses]
    by_cases hrefused : cursor.any (d.journal.refuses d.execution) = true
    · rw [if_pos hrefused, if_pos hrefused]
    · rw [if_neg hrefused, if_neg hrefused]
      simp only [h.journal, hreason]

/-- No waiter sleeps although it would return at once, unless somebody is to notify it. -/
def World.Serves (w : World) : Prop :=
  ∀ v ∈ w.waiters, v.Served (Condition.holds w.data) w.Telling

theorem World.Serves.notified (hu : u.waiters = w.waiters.map Waiter.notify) : u.Serves := by
  intro v hv
  rw [hu, List.mem_map] at hv
  obtain ⟨v, -, rfl⟩ := hv
  exact Waiter.Served.notify

theorem World.Serves.telling (h : u.Telling) : u.Serves := fun _ _ => .of_pending h

theorem World.Serves.same (h : w.Serves) (hu : u.waiters = w.waiters)
    (hview : SameView w.data u.data) (htelling : w.Telling → u.Telling) : u.Serves := by
  intro v hv
  exact (h v (hu ▸ hv)).mono (hview.holds v.condition) htelling

/-- A task that is to notify somebody does not take steps that nobody sees. -/
theorem Silent.not_tells {task : RunTask} (hs : Silent S w task es) : w.task.tells = false := by
  cases hs with
  | cancelled htask | failed _ htask | spawned _ htask | idle htask | recheck htask | notice htask
  | interrupt htask | settle _ _ htask | kill _ htask | select htask | exit _ htask | seen htask
  | elapsed htask | joined htask | sleep htask | hurry htask | awake htask | killed _ htask
  | drained htask | expired htask | aborted htask | released htask | classified htask =>
    rw [htask]
    rfl

/-- Nobody else tells less when the task is not to tell. -/
theorem World.Telling.of_task (h : w.Telling) (htask : w.task.tells = false)
    (hstop : u.stopCallers = w.stopCallers) (hchange : u.changeCallers = w.changeCallers)
    (hreaders : u.readers = w.readers) (hinput : u.inputTask = w.inputTask) : u.Telling := by
  obtain hpos | hpos | htells | hreader | hnotifying := h
  · exact .inl (hstop ▸ hpos)
  · exact .inr (.inl (hchange ▸ hpos))
  · rw [htask] at htells
    cases htells
  · exact .inr (.inr (.inr (.inl (hreaders ▸ hreader))))
  · exact .inr (.inr (.inr (.inr (hinput.trans hnotifying))))

/-- Nobody tells less when a reader is not to tell. -/
theorem World.Telling.of_reader (h : w.Telling) {reader : ℕ} {r r' : Reader}
    (hr : w.readers[reader]? = some r) (hnot : ∀ stream, r ≠ .appended stream)
    (hreaders : u.readers = w.readers.set reader r') (hstop : u.stopCallers = w.stopCallers)
    (hchange : u.changeCallers = w.changeCallers) (htask : u.task = w.task)
    (hinput : u.inputTask = w.inputTask) : u.Telling := by
  obtain hpos | hpos | htells | ⟨stream, hmem⟩ | hnotifying := h
  · exact .inl (hstop ▸ hpos)
  · exact .inr (.inl (hchange ▸ hpos))
  · exact .inr (.inr (.inl (htask ▸ htells)))
  · refine .inr (.inr (.inr (.inl ⟨stream, ?_⟩)))
    -- The reader that is to tell is another one.
    obtain ⟨i, hi⟩ := List.mem_iff_getElem?.mp hmem
    refine List.mem_iff_getElem?.mpr ⟨i, ?_⟩
    have hne : reader ≠ i := by
      rintro rfl
      exact hnot stream (Option.some.inj (hr.symm.trans hi))
    rw [hreaders, List.getElem?_set_ne hne, hi]
  · exact .inr (.inr (.inr (.inr (hinput.trans hnotifying))))

/-- Nobody tells less when the input task is not to tell. -/
theorem World.Telling.of_input (h : w.Telling) (hnot : w.inputTask ≠ .notifying)
    (hstop : u.stopCallers = w.stopCallers) (hchange : u.changeCallers = w.changeCallers)
    (htask : u.task = w.task) (hreaders : u.readers = w.readers) : u.Telling := by
  obtain hpos | hpos | htells | hreader | hnotifying := h
  · exact .inl (hstop ▸ hpos)
  · exact .inr (.inl (hchange ▸ hpos))
  · exact .inr (.inr (.inl (htask ▸ htells)))
  · exact .inr (.inr (.inr (.inl (hreaders ▸ hreader))))
  · exact absurd hnotifying hnot

/-- The run task notifies the waiters after each section that they may wait for. -/
theorem World.Serves.run (h : w.Serves) (hs : RunStep S w u es) : u.Serves := by
  cases hs with
  | silent hs => exact h.same rfl (.refl _) fun ht => ht.of_task hs.not_tells rfl rfl rfl rfl
  | launch | terminate | rootExit | finish => exact .telling (.inr (.inr (.inl rfl)))
  | permit => exact .telling (.inr (.inr (.inl rfl)))
  | spawn => exact .notified rfl
  | tell => exact .notified rfl
  | enqueue _ htask | stop htask | dropControl htask | loseOutput htask =>
    exact h.same rfl ⟨rfl, rfl, rfl, rfl⟩ fun ht => ht.of_task (by rw [htask]; rfl) rfl rfl rfl rfl
  | panic => exact h
  | @drain l exit deadline reader ok htask hreader =>
    refine h.same rfl ?_ fun ht => ht.of_reader hreader nofun rfl rfl rfl rfl rfl
    cases ok with
    | false => exact ⟨rfl, rfl, rfl, rfl⟩
    | true => exact .refl _
  | join htask hreader =>
    exact h.same rfl (.refl _) fun ht => ht.of_reader hreader nofun rfl rfl rfl rfl rfl

/-- The input task. -/
theorem World.Serves.input (h : w.Serves) (hs : InputStep w u es) : u.Serves := by
  have hsame (hu : u.waiters = w.waiters) (hd : u.data = w.data)
      (hnot : w.inputTask ≠ .notifying) (hstop : u.stopCallers = w.stopCallers)
      (hchange : u.changeCallers = w.changeCallers) (htask : u.task = w.task)
      (hreaders : u.readers = w.readers) : u.Serves :=
    h.same hu (hd ▸ .refl _) fun ht => ht.of_input hnot hstop hchange htask hreaders
  cases hs with
  | leave => exact .telling (.inr (.inr (.inr (.inr rfl))))
  | tell => exact .notified rfl
  | fail _ hawaits =>
    refine hsame rfl rfl (fun hi => ?_) rfl rfl rfl rfl
    rw [hi] at hawaits
    cases hawaits
  | abort _ hawaits =>
    refine hsame rfl rfl (fun hi => ?_) rfl rfl rfl rfl
    rw [hi] at hawaits
    cases hawaits
  | take hi | takeClose hi | hangUp hi | write _ hi | written hi | flushed hi | shut hi
  | close hi => exact hsame rfl rfl (by rw [hi]; nofun) rfl rfl rfl rfl

/-- The readers. -/
theorem World.Serves.reader (h : w.Serves) (hs : ReaderStep w u es) : u.Serves := by
  cases hs with
  | @read reader stream data outcomes d hreader hdata hd =>
    refine .telling (.inr (.inr (.inr (.inl ⟨stream, ?_⟩))))
    exact List.mem_set (List.getElem?_eq_some_iff.mp hreader).1 _
  | panic => exact h
  | tell => exact .notified rfl
  | ended ok hreader =>
    exact h.same rfl (.refl _) fun ht => ht.of_reader hreader nofun rfl rfl rfl rfl rfl

/-- Callers and waiters. -/
theorem World.Serves.caller (h : w.Serves) (hs : CallerStep S w u es) : u.Serves := by
  cases hs with
  | terminate => exact .telling (.inl (Nat.succ_pos _))
  | permit => exact .telling (.inr (.inl (Nat.succ_pos _)))
  | resize => exact .telling (.inr (.inl (Nat.succ_pos _)))
  | tell => exact .notified rfl
  | wait condition =>
    intro v hv
    obtain hold | hnew := List.mem_append.mp hv
    · exact h v hold
    · obtain rfl := List.mem_singleton.mp hnew
      nofun
  | wake hw hv' =>
    intro v hv
    obtain hold | rfl := List.mem_or_eq_of_mem_set hv
    · exact h v hold
    · exact .step hv'
  | drop waiter => exact fun v hv => h v (List.mem_of_mem_eraseIdx hv)
  | tick | shutdown | refuse | panic => exact h
  | receipt | write | close | interrupt | signal => exact h.same rfl ⟨rfl, rfl, rfl, rfl⟩ id

theorem World.Serves.step (h : w.Serves) (hs : Step S w u es) : u.Serves := by
  cases hs with
  | run hs => exact h.run hs
  | input hs => exact h.input hs
  | reader hs => exact h.reader hs
  | caller hs => exact h.caller hs

/-! ### Runs -/

variable {log : List Event}

/-- **Nobody sleeps through what it waits for.** If the loop waits although a deadline was recorded,
it has noticed it, and has set its timer for it or killed the process, or there is a permit for it
or a caller is to notify it. If a waiter sleeps although it would return at once, somebody is to
notify it. -/
theorem never_slept_through (hrun : (sessionSystem S).Run log w) :
    (∀ l deadline d, w.task = .selecting l deadline → w.data.stopDeadline = some d →
      (l.stopping = true ∧ (l.killed = true ∨ deadline = some d)) ∨ w.stop = true ∨
        0 < w.stopCallers) ∧
      ∀ v ∈ w.waiters, v.Sleeps → v.condition.holds w.data = true → w.Telling := by
  have hinv := hrun.invariant (I := fun _ w => w.Armed ∧ w.Serves) ?_
    fun _ h hstep => ⟨h.1.step (step_cases hstep), h.2.step (step_cases hstep)⟩
  · refine ⟨fun l deadline d ht => hinv.1.waiting l deadline d ?_, hinv.2⟩
    rw [ht]
    rfl
  · rintro w ⟨execution, spool, cancelled, shutdown, now, rfl, -⟩
    refine ⟨?_, nofun⟩
    cases cancelled <;> exact World.armed_of_task rfl rfl

/-- What a caller waits for that has seen a session launched. -/
def someCondition : Condition := .observes (some ⟨someExecution.handle, 0, 1⟩) 8 .activity 100

/-- The loop and a waiter sleep when a caller asks the session to stop. -/
theorem never_slept_through_terminate : ∃ log w, (sessionSystem someSetup).Run log w ∧
    w.task = .selecting .init none ∧ w.data.stopDeadline = some 5 ∧
    ⟨someCondition, .blocked false⟩ ∈ w.waiters ∧ (w.stop = true ∨ 0 < w.stopCallers) ∧
    w.Telling := by
  obtain ⟨w, log, hexec, htask, hdeadline, hwaiters, hholds⟩ : ∃ w log,
      (sessionSystem someSetup).exec someSession [.run {}, .run {}, .run {}, .run {},
        .wait someCondition, .wake 0, .wake 0, .terminate 5 .timeout] = some (w, log) ∧
      w.task = .selecting .init none ∧ w.data.stopDeadline = some 5 ∧
      w.waiters = [⟨someCondition, .blocked false⟩] ∧ someCondition.holds w.data = true :=
    ⟨_, _, rfl, rfl, rfl, rfl, rfl⟩
  have hrun : (sessionSystem someSetup).Run log w :=
    ⟨someSession, someSession_start, .of_exec hexec⟩
  have hmem : (⟨someCondition, .blocked false⟩ : Waiter Condition) ∈ w.waiters := by
    rw [hwaiters]
    exact List.mem_singleton_self _
  obtain ⟨hloop, hwaiter⟩ := never_slept_through hrun
  have hpending := hloop _ _ _ htask hdeadline
  exact ⟨log, w, hrun, htask, hdeadline, hmem,
    hpending.resolve_left fun hacted => absurd hacted.1 nofun, hwaiter _ hmem rfl hholds⟩

end ExecutionProvider.Session
