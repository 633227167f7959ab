import ExecutionProvider.Session.Lifecycle

/-!
# Changes and those who wait for activity

An observer that waits for activity hands in the cursor of its last observation. It is told of
activity if there is more output, or if the revision has advanced. So a section that changes the
snapshot of an execution is to advance one of them. All do, but for those by which the run task
notes, while it drains the output, that some of it is missing.

## Main definitions

* `Advanced`: the data after some sections, as observers see them.
* `World.losesOutput`: a step by which the run task notes that output is missing.
* `Sees`: what observers are promised, along a list of actions.

## Main results

* `Advanced.sees`: observers are told of changes that advance the revision or the output.
* `sees_iff`: observers are told of all changes exactly if no output is noted to be missing.
-/

namespace ExecutionProvider.Session

open ExecutionProvider.Runtime (Journal StopReason WriteOutcome chunkBytes_nil)

/-! ### What observers see -/

/-- From one moment to a later one, the revision and the output have not gone back, and one of
them has advanced if the snapshot has changed. -/
structure Advanced (d d' : Data) : Prop where
  revision : d.journal.revision ≤ d'.journal.revision
  stop : d.journal.stop ≤ d'.journal.stop
  snapshot : d'.execution = d.execution ∨ d.journal.revision < d'.journal.revision ∨
    d.journal.stop < d'.journal.stop

theorem Advanced.refl (d : Data) : Advanced d d := ⟨le_rfl, le_rfl, .inl rfl⟩

theorem Advanced.trans {d d' d'' : Data} (h : Advanced d d') (h' : Advanced d' d'') :
    Advanced d d'' := by
  refine ⟨h.revision.trans h'.revision, h.stop.trans h'.stop, ?_⟩
  obtain heq' | hlt' | hlt' := h'.snapshot
  · obtain heq | hlt | hlt := h.snapshot
    · exact .inl (heq'.trans heq)
    · exact .inr (.inl (hlt.trans_le h'.revision))
    · exact .inr (.inr (hlt.trans_le h'.stop))
  · exact .inr (.inl (h.revision.trans_lt hlt'))
  · exact .inr (.inr (h.stop.trans_lt hlt'))

/-- An observer that comes back with the cursor of an observation, and is told that nothing has
happened, sees the snapshot that it has seen. -/
def Sees (d d' : Data) : Prop :=
  ∀ cursor limit o limit' o', d.journal.read d.execution cursor limit = .ok o →
    d'.journal.read d'.execution (some o.nextCursor) limit' = .ok o' →
    o'.execution ≠ o.execution → o'.returnReason ≠ .waitElapsed

/-- What an observation holds. -/
theorem Journal.read_eq_ok {j : Journal} {execution : ExecutionSnapshot} {cursor : Option Cursor}
    {limit : ℕ} {o : Observation} (h : j.read execution cursor limit = .ok o) :
    cursor.any (j.refuses execution) = false ∧ o.execution = execution ∧
      o.nextCursor.revision = j.revision ∧ o.nextCursor.offset ≤ j.stop ∧
      o.returnReason = j.returnReason execution cursor limit
        (o.nextCursor.offset - max (cursor.elim 0 Cursor.offset) j.start) o.output o.outputGap := by
  rw [Journal.read] at h
  split_ifs at h with hrefused
  cases h
  exact ⟨Bool.eq_false_of_not_eq_true hrefused, rfl, rfl, min_le_left _ _, rfl⟩

/-- An observation that comes back without anything to tell has no output, tells of no gap, and
finds the revision of its cursor. -/
theorem Journal.of_waitElapsed {j : Journal} {execution : ExecutionSnapshot}
    {cursor : Option Cursor} {limit delivered : ℕ} {output : List OutputChunk} {gap : Bool}
    (h : j.returnReason execution cursor limit delivered output gap = .waitElapsed) :
    delivered < limit ∧ output = [] ∧ gap = false ∧ ∀ c ∈ cursor, j.revision ≤ c.revision := by
  rw [Journal.returnReason] at h
  split_ifs at h with hlimit hfinished hactivity
  rw [not_or, not_or] at hactivity
  obtain ⟨houtput, hgap, hcursor⟩ := hactivity
  refine ⟨Nat.lt_of_not_le hlimit, not_not.mp houtput, Bool.eq_false_of_not_eq_true hgap, ?_⟩
  rintro c rfl
  simpa using hcursor

/-- **Observers are told of what advances.** -/
theorem Advanced.sees {d d' : Data} (h : Advanced d d') {output : List (OutputStream × UInt8)}
    (hkeeps : d'.journal.Keeps output) : Sees d d' := by
  intro cursor limit o limit' o' ho ho' hne hreason
  obtain ⟨-, hexecution, hrevision, hoffset, -⟩ := Journal.read_eq_ok ho
  obtain ⟨hserved, hexecution', -, -, hreason'⟩ := Journal.read_eq_ok ho'
  obtain ⟨hlimit, houtput, hgap, hcursor⟩ := Journal.of_waitElapsed (hreason'.symm.trans hreason)
  have hsame : d'.journal.revision ≤ d.journal.revision := hrevision ▸ hcursor _ rfl
  obtain heq | hlt | hlt := h.snapshot
  · exact hne (hexecution'.trans (heq.trans hexecution.symm))
  · exact absurd hlt hsame.not_gt
  · -- There is output behind the cursor.
    obtain ⟨o'', ho'', hdelivers, -⟩ := hkeeps.read hserved limit'
    obtain rfl : o' = o'' := Except.ok.inj (ho'.symm.trans ho'')
    have hnone := hdelivers.bytes
    rw [houtput, chunkBytes_nil] at hnone
    have hstart : ¬o.nextCursor.offset < d'.journal.start := by
      rw [← Bool.not_eq_true] at hgap
      exact fun hlt => hgap (hdelivers.gap.mpr hlt)
    have hmax : max o.nextCursor.offset d'.journal.start = o.nextCursor.offset :=
      max_eq_left (Nat.le_of_not_lt hstart)
    have hend : o'.nextCursor.offset = min output.length (o.nextCursor.offset + limit') := by
      have heq := hdelivers.offset
      rwa [Option.elim_some, hmax] at heq
    have hlength := congrArg List.length hnone
    rw [Option.elim_some, hmax, List.extract_eq_take_drop, List.length_nil, List.length_take,
      List.length_drop, hend, ← hkeeps.stop] at hlength
    omega

/-! ### Steps -/

/-- The run task notes, while it drains the output, that some of it is missing: a reader has ended
with an error, or the readers' time is up. -/
def World.losesOutput (w : World) : Action → Bool
  | .run a =>
    match w.task with
    | .draining .. =>
      !w.drained && a.reader.any fun reader => w.readers[reader]? = some (.ended false)
    | .expiring .. => true
    | _ => false
  | _ => false

section Sections

variable (d : Data)

theorem advanced_revise {d d' : Data} (h : d'.journal.revision = d.journal.revision + 1)
    (hstop : d'.journal.stop = d.journal.stop) : Advanced d d' :=
  ⟨by omega, hstop.ge, .inr (.inl (by omega))⟩

theorem advanced_of_eq {d d' : Data} (hjournal : d'.journal = d.journal)
    (hexecution : d'.execution = d.execution) : Advanced d d' :=
  ⟨by rw [hjournal], by rw [hjournal], .inl hexecution⟩

theorem advanced_terminate (now grace : ℕ) (reason : StopReason) :
    Advanced d (d.terminate now grace reason) := by
  rw [Data.terminate]
  split_ifs
  · exact advanced_revise rfl rfl
  · exact .refl d

theorem journal_noteSpool : d.noteSpool.journal = d.journal := by
  rw [Data.noteSpool]
  split_ifs <;> rfl

theorem advanced_finish (sha256 : List UInt8 → String) (closeError : Option String)
    (result : ExecutionResult) (finishedAt : SystemTime) (now : ℕ) :
    Advanced d (d.finish sha256 closeError result finishedAt now) := by
  have hjournal := journal_noteSpool
    { d with outputSpool := d.outputSpool.map (.finalize sha256 closeError) }
  have hrevision := congrArg (fun j => j.revision + 1) hjournal
  have hstop := congrArg Journal.stop hjournal
  exact advanced_revise hrevision hstop

theorem advanced_leaveInput (error : Option String) : Advanced d (d.leaveInput error) := by
  cases error with
  | none => exact advanced_of_eq rfl rfl
  | some message => exact advanced_revise rfl rfl

/-- Bytes that are appended are behind the end of the output. -/
theorem advanced_append {d d' : Data} {outcomes : List WriteOutcome} {stream : OutputStream}
    {data : List UInt8} (hdata : data ≠ []) (h : d.append outcomes stream data = some d') :
    Advanced d d' := by
  rw [Data.append] at h
  split at h
  · next journal spool hjournal _ =>
    obtain rfl := Option.some.inj h
    rw [Journal.append] at hjournal
    obtain ⟨kept, -, rfl⟩ := Option.map_eq_some_iff.mp hjournal
    have hpos := List.length_pos_iff.mpr hdata
    refine ⟨?_, ?_, .inr (.inr ?_)⟩
    · rw [journal_noteSpool]
    · rw [journal_noteSpool]
      exact Nat.le_add_right _ _
    · rw [journal_noteSpool]
      exact Nat.lt_add_of_pos_right hpos
  · cases h

end Sections

variable {S : Setup} {w u : World} {a : Action} {es : List Event}

/-- A step of the run task while it drains the output. -/
theorem advanced_draining {b : Answers} {l : Loop} {exit : Except String Exit} {deadline : ℕ}
    (htask : w.task = .draining l exit deadline) (h : w.run S b = some (u, es))
    (hloses : w.losesOutput (.run b) = true → w.data.execution.outputIncomplete = true) :
    Advanced w.data u.data := by
  rw [World.losesOutput, htask] at hloses
  simp only [World.run, htask] at h
  by_cases hdrained : w.drained = true
  · rw [if_pos hdrained] at h
    cases h
    exact .refl _
  · rw [if_neg hdrained] at h
    split at h
    · split_ifs at h
      cases h
      exact .refl _
    · next reader hreader =>
      split at h
      · next ok hended =>
        cases h
        cases ok with
        | true => exact .refl _
        | false =>
          -- Output was already known to be missing.
          have hincomplete := hloses (by
            rw [Bool.eq_false_of_not_eq_true hdrained, hreader, Option.any_some, hended]
            rfl)
          refine advanced_of_eq rfl ?_
          change { w.data.execution with outputIncomplete := true } = w.data.execution
          rw [← hincomplete]
      · cases h

/-- A step of the run task. -/
theorem advanced_run {b : Answers} (h : w.run S b = some (u, es))
    (hloses : w.losesOutput (.run b) = true → w.data.execution.outputIncomplete = true) :
    Advanced w.data u.data := by
  have hs := run_cases h
  cases hs with
  | terminate => exact advanced_terminate ..
  | finish => exact advanced_finish ..
  | launch | rootExit => exact advanced_revise rfl rfl
  | dropControl => exact advanced_of_eq rfl rfl
  | drain htask => exact advanced_draining htask h hloses
  | loseOutput htask =>
    have hincomplete := hloses (by rw [World.losesOutput, htask])
    refine advanced_of_eq rfl ?_
    change { w.data.execution with outputIncomplete := true } = w.data.execution
    rw [← hincomplete]
  | _ => exact .refl _

/-- A step advances what observers see, unless the run task notes that output is missing. -/
theorem advanced_step (h : w.step S a = some (u, es))
    (hloses : w.losesOutput a = true → w.data.execution.outputIncomplete = true) :
    Advanced w.data u.data := by
  obtain ⟨b, rfl⟩ | hs | hs | hs := run_or_other h
  · exact advanced_run h hloses
  · cases hs with
    | leave => exact advanced_leaveInput ..
    | _ => exact .refl _
  · cases hs with
    | read hreader hdata hd => exact advanced_append hdata hd
    | _ => exact .refl _
  · cases hs with
    | terminate => exact advanced_terminate ..
    | resize => exact advanced_revise rfl rfl
    | receipt | write | close | interrupt | signal => exact advanced_of_eq rfl rfl
    | _ => exact .refl _

/-! ### Lists of actions -/

/-- Along a list of actions, whoever observes a session twice is told of what has changed. -/
def SeesAlong (S : Setup) (w : World) (as : List Action) : Prop :=
  ∀ before between after v u log log', as = before ++ between ++ after →
    (sessionSystem S).exec w before = some (v, log) →
    (sessionSystem S).exec v between = some (u, log') → Sees v.data u.data

/-- A window without bytes has no parts of chunks. -/
theorem collect_eq_nil {first last : ℕ} (h : last ≤ first) (position : ℕ)
    (chunks : List OutputChunk) : Journal.collect first last position chunks = [] := by
  induction chunks generalizing position with
  | nil => rfl
  | cons chunk chunks ih =>
    rw [Journal.collect]
    have hempty : ¬max first position < min last (position + chunk.data.length) := by omega
    rw [if_neg hempty, ih]
    exact ite_self _

/-- An observer at the end of the output is told nothing of output that is noted to be missing. -/
theorem not_sees_loseOutput {d : Data} {output : List (OutputStream × UInt8)}
    (hkeeps : d.journal.Keeps output) (hstate : d.execution.state ≠ .finished)
    (hcomplete : d.execution.outputIncomplete = false) :
    ¬Sees d d.loseOutput := by
  intro hsees
  have hstart : d.journal.start ≤ d.journal.stop := by
    rw [hkeeps.start, hkeeps.stop]
    exact Nat.sub_le _ _
  -- The first observation takes all that there is.
  have hfirst : ∃ o, d.journal.read d.execution none (d.journal.stop + 1) = .ok o ∧
      o.execution = d.execution ∧
      o.nextCursor = ⟨d.execution.handle, d.journal.stop, d.journal.revision⟩ := by
    refine ⟨_, if_neg Bool.false_ne_true, rfl, ?_⟩
    have hend : min d.journal.stop (max 0 d.journal.start + (d.journal.stop + 1)) =
        d.journal.stop := by omega
    exact congrArg (fun n => (⟨d.execution.handle, n, d.journal.revision⟩ : Cursor)) hend
  obtain ⟨o, ho, hexecution, hcursor⟩ := hfirst
  have hserved : (some o.nextCursor).any (d.loseOutput.journal.refuses d.loseOutput.execution) =
      false := by
    rw [hcursor]
    simp [Journal.refuses, Data.loseOutput]
  have hsecond : ∃ o', d.loseOutput.journal.read d.loseOutput.execution (some o.nextCursor) 1 =
      .ok o' ∧ o'.execution = d.loseOutput.execution ∧ o'.returnReason = .waitElapsed := by
    refine ⟨_, if_neg (hserved ▸ Bool.false_ne_true), rfl, ?_⟩
    rw [Option.elim_some, hcursor]
    have hmax : max d.journal.stop d.journal.start = d.journal.stop := max_eq_left hstart
    have hend : min d.journal.stop (d.journal.stop + 1) = d.journal.stop := by omega
    change d.journal.returnReason d.loseOutput.execution _ 1 (min d.journal.stop
        (max d.journal.stop d.journal.start + 1) - max d.journal.stop d.journal.start)
        (Journal.collect (max d.journal.stop d.journal.start) (min d.journal.stop
          (max d.journal.stop d.journal.start + 1)) d.journal.start d.journal.chunks)
        (decide (d.journal.stop < d.journal.start)) = _
    rw [hmax, hend, collect_eq_nil le_rfl, Nat.sub_self, Journal.returnReason]
    have hstate' : d.loseOutput.execution.state ≠ .finished := hstate
    simp [hstate', hstart]
  obtain ⟨o', ho', hexecution', hreason⟩ := hsecond
  refine hsees none _ o 1 o' ho ho' (fun heq => ?_) hreason
  rw [hexecution', hexecution] at heq
  have hincomplete := congrArg ExecutionSnapshot.outputIncomplete heq
  rw [hcomplete] at hincomplete
  cases hincomplete

/-- The step by which the run task notes that output is missing. -/
theorem data_of_losesOutput (h : w.step S a = some (u, es)) (hloses : w.losesOutput a = true) :
    u.data = w.data.loseOutput ∧ w.task.stages = [.exited] := by
  cases a with
  | run b =>
    change w.run S b = some (u, es) at h
    rw [World.losesOutput] at hloses
    split at hloses
    · next l exit deadline htask =>
      simp only [World.run, htask] at h
      rw [Bool.and_eq_true, Bool.not_eq_true'] at hloses
      rw [if_neg (by rw [hloses.1]; nofun)] at h
      cases hreader : b.reader with
      | none =>
        rw [hreader] at hloses
        cases hloses.2
      | some reader =>
        rw [hreader] at h hloses
        dsimp only at h
        rw [of_decide_eq_true hloses.2] at h
        cases h
        exact ⟨rfl, by rw [htask]; rfl⟩
    · next htask =>
      simp only [World.run, htask] at h
      cases h
      exact ⟨rfl, by rw [htask]; rfl⟩
    · cases hloses
  | _ => cases hloses

/-- **Changes and those who wait for activity.** Along the runs of a session, whoever observes it
twice is told of what has changed, exactly if the run task never notes that output is missing when
none was known to be. -/
theorem sees_iff {log : List Event} (hrun : (sessionSystem S).Run log w) {as : List Action}
    (hexec : ((sessionSystem S).exec w as).isSome = true) :
    SeesAlong S w as ↔ (sessionSystem S).Steps (fun v a _ =>
      v.losesOutput a = true → v.data.execution.outputIncomplete = true) w as := by
  constructor
  · intro hsees
    have hsteps := System.Steps.of_exec hexec
    clear hexec
    induction as generalizing w log with
    | nil => trivial
    | cons a as ih =>
      obtain ⟨v, es, hstep, -, hrest⟩ := hsteps
      refine ⟨v, es, hstep, fun hloses => ?_, ih (hrun.tail hstep) ?_ hrest⟩
      · by_contra hcomplete
        obtain ⟨hdata, hstages⟩ := data_of_losesOutput hstep hloses
        have hlives := lives hrun
        obtain ⟨s, hmem, hat⟩ := hlives.stage
        rw [hstages, List.mem_singleton] at hmem
        have hstate : w.data.execution.state ≠ .finished := by
          rw [hat.state, hmem]
          nofun
        have hone : (sessionSystem S).exec w [a] = some (v, es) := by
          simp [System.exec, hstep]
        have hnot := hsees [] [a] as w v [] es rfl rfl hone
        rw [hdata] at hnot
        exact not_sees_loseOutput (captures hrun).journal hstate
          (Bool.eq_false_of_not_eq_true hcomplete) hnot
      · rintro before between after x y log' log'' rfl hbefore hbetween
        refine hsees (a :: before) between after x y (es ++ log') log'' rfl ?_ hbetween
        rw [System.exec, hstep]
        dsimp only
        rw [hbefore]
        rfl
  · rintro hsteps before between after v u log' log'' rfl hbefore hbetween
    rw [List.append_assoc] at hsteps
    have hadvanced : Advanced v.data u.data :=
      (hsteps.drop hbefore).trans (R := fun v u => Advanced v.data u.data) (fun v => .refl v.data)
        (fun {x y z} (h : Advanced x.data y.data) (h' : Advanced y.data z.data) => h.trans h')
        (fun hstep hP => advanced_step hstep hP) hbetween
    exact hadvanced.sees
      (captures ((hrun.path (.of_exec hbefore)).path (.of_exec hbetween))).journal

/-- A caller asks a session to stop. -/
theorem sees_iff_terminate : ∃ log w, (sessionSystem someSetup).Run log w ∧
    w.task = .selecting .init none ∧ SeesAlong someSetup w [.terminate 5 .explicitTermination] := by
  obtain ⟨w, log, hexec, htask⟩ : ∃ w log, (sessionSystem someSetup).exec someSession
      [.run {}, .run {}, .run {}, .run {}] = some (w, log) ∧ w.task = .selecting .init none :=
    ⟨_, _, rfl, rfl⟩
  have hrun : (sessionSystem someSetup).Run log w :=
    ⟨someSession, someSession_start, .of_exec hexec⟩
  have hsteps : (sessionSystem someSetup).Steps (fun v a _ =>
      v.losesOutput a = true → v.data.execution.outputIncomplete = true) w
      [.terminate 5 .explicitTermination] := ⟨_, _, rfl, nofun, trivial⟩
  exact ⟨log, w, hrun, htask, (sees_iff hrun rfl).mpr hsteps⟩

/-- A reader ends with an error and is joined, and an observer that waits for activity is told
nothing of it. -/
theorem sees_not_reader : ¬∀ (S : Setup) (log log' : List Event) (w u : World),
    (sessionSystem S).Run log w → (sessionSystem S).Path w log' u → Sees w.data u.data := by
  intro h
  obtain ⟨w, log, hexec, u, hstep, hdata, hstate, hcomplete⟩ : ∃ w log,
      (sessionSystem someSetup).exec someSession
        [.run { spawned := .ok ⟨[.stdout], false⟩ }, .run {}, .run {}, .run {},
          .run { branch := .exit (.ok ⟨some 0, none⟩) }, .run {}, .run {}, .run {}, .run {},
          .run {}, .run {}, .endRead 0 false] = some (w, log) ∧
      ∃ u, (sessionSystem someSetup).step w (.run { reader := some 0 }) = some (u, []) ∧
        u.data = w.data.loseOutput ∧ w.data.execution.state = .stopping ∧
        w.data.execution.outputIncomplete = false := ⟨_, _, rfl, _, rfl, rfl, rfl, rfl⟩
  have hrun : (sessionSystem someSetup).Run log w :=
    ⟨someSession, someSession_start, .of_exec hexec⟩
  have hsees := h someSetup log [] w u hrun (.single hstep)
  rw [hdata] at hsees
  exact not_sees_loseOutput (captures hrun).journal (by rw [hstate]; nofun) hcomplete hsees

end ExecutionProvider.Session
