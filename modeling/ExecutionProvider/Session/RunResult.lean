import ExecutionProvider.Session.Lifecycle
import Mathlib.Algebra.GroupWithZero.Nat

/-!
# The result of a run

When a run is finished, its caller is given the end of its output, and is told of the file that the
output was written to: how much it holds, its hash, and whether it is all of the output. Writing to
the file may fail at any time, and so may readers; the file is called complete only if neither
has happened.

## Main definitions

* `Data.runResult`: what is said of a finished run.
* `Files`, `Reads`: what holds of the output file and of the readers along a run.

## Main results

* `run_preview`: the preview is the end of the output.
* `output_file`: what is said of the output file is true.
-/

namespace ExecutionProvider.Session

open ExecutionProvider.Runtime (Journal OutputSpool StopReason WriteOutcome chunkBytes)

/-- What is said of a finished run. -/
def Data.runResult (d : Data) (runId : String) (outputLimit : ℕ) (expiresAt : SystemTime) :
    Result RunResult :=
  if d.execution.state ≠ .finished then .error ⟨.invalidState, "run is not finished"⟩
  else
    match d.outputSpool with
    | none => .error ⟨.invalidState, "run has no output file"⟩
    | some spool =>
      let output := spool.preview outputLimit
      let previewBytes := (output.map fun chunk => chunk.data.length).sum
      let complete := !d.execution.outputIncomplete
      .ok {
        runId := runId
        execution := d.execution
        outputFile := spool.outputFile complete expiresAt
        output := output
        outputTruncated := !complete || previewBytes < spool.capturedBytes }

variable {S : Setup} {w u : World} {log es : List Event}

/-! ### The preview -/

theorem sum_length_eq (chunks : List OutputChunk) :
    (chunks.map fun chunk => chunk.data.length).sum = (chunkBytes chunks).length := by
  rw [chunkBytes, List.length_flatMap]
  congr 1
  exact List.map_congr_left fun chunk _ => chunk.length_bytes.symm

/-- The result of a finished run. -/
theorem runResult_eq_ok {d : Data} {s : OutputSpool} (hfinished : d.execution.state = .finished)
    (hs : d.outputSpool = some s) (runId : String) (limit : ℕ) (expiresAt : SystemTime) :
    ∃ r, d.runResult runId limit expiresAt = .ok r ∧ r.output = s.preview limit ∧
      r.outputFile = s.outputFile (!d.execution.outputIncomplete) expiresAt ∧
      (r.outputTruncated = false ↔ d.execution.outputIncomplete = false ∧
        s.capturedBytes ≤ (chunkBytes r.output).length) := by
  rw [Data.runResult, if_neg (not_not.mpr hfinished), hs]
  refine ⟨_, rfl, rfl, rfl, ?_⟩
  rw [sum_length_eq, Bool.or_eq_false_iff, Bool.not_not, decide_eq_false_iff_not, not_lt]

/-- **The preview of a run.** The output that is returned with a finished run is the end of what
was captured, as long as the limit allows, and it is said to be all exactly if it is all that was
captured and nothing is missing. -/
theorem run_preview (hrun : (sessionSystem S).Run log w)
    (hfinished : w.data.execution.state = .finished) {s : OutputSpool}
    (hs : w.data.outputSpool = some s) {limit : ℕ} (hlimit : limit ≤ s.tailCapacity)
    (runId : String) (expiresAt : SystemTime) :
    ∃ r, w.data.runResult runId limit expiresAt = .ok r ∧
      chunkBytes r.output = (captured log).rtake limit ∧
      (r.outputTruncated = false ↔
        chunkBytes r.output = captured log ∧ w.data.execution.outputIncomplete = false) := by
  obtain ⟨r, hr, houtput, -, htruncated⟩ := runResult_eq_ok hfinished hs runId limit expiresAt
  have hholds := (captures hrun).spool s hs
  have hpreview : chunkBytes r.output = (captured log).rtake limit := by
    rw [houtput, hholds.preview hlimit]
  refine ⟨r, hr, hpreview, ?_⟩
  have hsuffix : chunkBytes r.output <:+ captured log := by
    rw [hpreview, List.rtake]
    exact List.drop_suffix _ _
  rw [htruncated, hholds.captured, and_comm]
  refine and_congr_left fun _ => ⟨fun hle => ?_, fun heq => by rw [heq]⟩
  exact hsuffix.eq_of_length_le hle

/-- A run that writes to a file. -/
def someRun : World :=
  .init someSetup.limits someExecution (some (.create (.numbered 2) "/output" 2)) false false 0

/-- The process writes three bytes and exits. -/
def someActions : List Action :=
  [.run { spawned := .ok ⟨[.stdout], false⟩ }, .run {}, .run {}, .run {},
    .read 0 [1, 2, 3] [.wrote 2], .tell 0, .endRead 0 true,
    .run { branch := .exit (.ok ⟨some 0, none⟩) }, .run {}, .run {}, .run {}, .run {}, .run {},
    .run {}, .run { reader := some 0 }, .run {}, .run {}, .run {}, .run {}]

theorem someRun_finished : ∃ log w s, (sessionSystem someSetup).Run log w ∧
    w.data.execution.state = .finished ∧ w.data.outputSpool = some s ∧ s.tailCapacity = 2 ∧
    captured log = [(.stdout, 1), (.stdout, 2), (.stdout, 3)] := by
  obtain ⟨w, log, s, hexec, hw⟩ : ∃ w log s,
      (sessionSystem someSetup).exec someRun someActions = some (w, log) ∧
      w.data.execution.state = .finished ∧ w.data.outputSpool = some s ∧ s.tailCapacity = 2 ∧
      captured log = [(.stdout, 1), (.stdout, 2), (.stdout, 3)] :=
    ⟨_, _, _, rfl, rfl, rfl, rfl, rfl⟩
  have hstart : (sessionSystem someSetup).start someRun :=
    ⟨someExecution, _, false, false, 0, rfl, rfl, rfl, rfl, fun s hs =>
      ⟨_, _, _, (Option.some.inj hs).symm⟩⟩
  exact ⟨log, w, s, ⟨someRun, hstart, .of_exec hexec⟩, hw⟩

/-- A byte of the preview of a run. -/
theorem run_preview_one : ∃ log w, (sessionSystem someSetup).Run log w ∧
    ∃ r, w.data.runResult "run" 1 ⟨0, 0⟩ = .ok r ∧
      chunkBytes r.output = [(OutputStream.stdout, 3)] := by
  obtain ⟨log, w, s, hrun, hfinished, hs, hcapacity, hcaptured⟩ := someRun_finished
  have hlimit : 1 ≤ s.tailCapacity := by rw [hcapacity]; decide
  obtain ⟨r, hr, houtput, -⟩ := run_preview hrun hfinished hs hlimit "run" ⟨0, 0⟩
  refine ⟨log, w, hrun, r, hr, ?_⟩
  rw [houtput, hcaptured]
  rfl

/-! ### The output file -/

/-- A finished session has joined its readers. -/
theorem Lives.drained_of_finished (h : Lives w) (hfinished : w.data.execution.state = .finished) :
    w.drained = true := by
  obtain ⟨s, hmem, hat⟩ := h.stage
  have hs : s = .finished :=
    of_decide_eq_true (hat.result ▸ (hat.isSome_iff hat.result).mpr hfinished)
  exact h.output (RunTask.over_of_finished (hs ▸ hmem)).2

/-- The bytes that were captured. -/
def capturedBytes (log : List Event) : List UInt8 := (captured log).map Prod.snd

/-- What holds of the output file along a run. It holds the beginning of what was captured; it is
open as long as nothing has failed; and once the session is finished its hash is taken. -/
structure Files (S : Setup) (log : List Event) (w : World) : Prop where
  stores : ∀ s ∈ w.data.outputSpool, s.Stores (capturedBytes log)
  live : w.data.execution.state ≠ .finished → ∀ s ∈ w.data.outputSpool, s.Live
  hash : w.data.execution.state = .finished →
    ∀ s ∈ w.data.outputSpool, s.sha256 = some (S.sha256 s.stored)

/-- A step that has nothing to do with the file. -/
theorem Files.other (h : Files S log w) (hspool : u.data.outputSpool = w.data.outputSpool)
    (hstate : u.data.execution.state = .finished ↔ w.data.execution.state = .finished)
    (hcaptured : captured es = []) : Files S (log ++ es) u where
  stores s hs := by
    rw [capturedBytes, captured_append, hcaptured, List.append_nil]
    exact h.stores s (hspool ▸ hs)
  live hnot s hs := h.live (mt hstate.mpr hnot) s (hspool ▸ hs)
  hash hfinished s hs := h.hash (hstate.mp hfinished) s (hspool ▸ hs)

theorem outputSpool_noteSpool (d : Data) : d.noteSpool.outputSpool = d.outputSpool := by
  rw [Data.noteSpool]
  split_ifs <;> rfl

theorem state_noteSpool (d : Data) : d.noteSpool.execution.state = d.execution.state := by
  rw [Data.noteSpool]
  split_ifs <;> rfl

/-- Asking a session to stop has nothing to do with its file, and does not finish it. -/
theorem outputSpool_terminate (d : Data) (now grace : ℕ) (reason : StopReason) :
    (d.terminate now grace reason).outputSpool = d.outputSpool ∧
      ((d.terminate now grace reason).execution.state = .finished ↔
        d.execution.state = .finished) := by
  rw [Data.terminate]
  split_ifs with hguard
  · exact ⟨rfl, fun h => (by cases h), fun hfinished => absurd hfinished hguard.1⟩
  · exact ⟨rfl, Iff.rfl⟩

theorem outputSpool_leaveInput (d : Data) (error : Option String) :
    (d.leaveInput error).outputSpool = d.outputSpool := by
  cases error <;> rfl

theorem state_leaveInput (d : Data) (error : Option String) :
    (d.leaveInput error).execution.state = d.execution.state := by
  cases error <;> rfl

/-- Output that arrives is given to the spool. -/
theorem spool_of_append {d d' : Data} {outcomes : List WriteOutcome} {stream : OutputStream}
    {data : List UInt8} (h : d.append outcomes stream data = some d') :
    ∃ spool, Data.spool outcomes stream data d.outputSpool = some spool ∧
      d'.outputSpool = spool ∧ d'.execution.state = d.execution.state := by
  rw [Data.append] at h
  split at h
  · next journal spool hjournal hspool =>
    obtain rfl := Option.some.inj h
    exact ⟨spool, hspool, outputSpool_noteSpool _, state_noteSpool _⟩
  · cases h

/-- The run task. -/
theorem Files.run (h : Files S log w) (hlives : Lives w) (hs : RunStep S w u es) :
    Files S (log ++ es) u := by
  have halive {s : Stage} (hw : w.task.stages = [s]) (hs : s ≠ .finished) :
      w.data.execution.state ≠ .finished := by
    obtain ⟨t, hmem, hat⟩ := hlives.stage
    rw [hw, List.mem_singleton] at hmem
    rw [hat.state, hmem]
    cases s with
    | finished => exact absurd rfl hs
    | before => cases w.data.stopDeadline.isSome <;> intro h <;> cases h
    | alive => cases w.data.stopDeadline.isSome <;> intro h <;> cases h
    | exited =>
      intro h
      cases h
  cases hs with
  | silent hs =>
    refine h.other rfl Iff.rfl ?_
    cases hs <;> rfl
  | enqueue =>
    refine h.other rfl Iff.rfl (List.flatMap_eq_nil_iff.mpr fun e he => ?_)
    obtain ⟨input, rfl⟩ := eq_of_mem_sent he
    rfl
  | terminate =>
    obtain ⟨hspool, hstate⟩ := outputSpool_terminate w.data w.now S.limits.terminationGrace
      .runtimeShutdown
    exact h.other hspool hstate rfl
  | @launch p startedAt htask =>
    have hnot : w.data.execution.state ≠ .finished :=
      @halive .before (by rw [htask]; rfl) fun h => by cases h
    refine h.other rfl ⟨fun hfinished => ?_, fun hfinished => absurd hfinished hnot⟩ rfl
    simp only [Data.launch, Data.revise] at hfinished
    split_ifs at hfinished
    exact hfinished
  | rootExit htask =>
    have hnot : w.data.execution.state ≠ .finished :=
      @halive .alive (by rw [htask]; rfl) fun h => by cases h
    exact h.other rfl ⟨fun h => (by cases h), fun hfinished => absurd hfinished hnot⟩ rfl
  | @finish result closeError finishedAt htask =>
    have hnot : w.data.execution.state ≠ .finished := by
      obtain ⟨t, hmem, hat⟩ := hlives.stage
      intro hfinished
      have ht : t = .finished :=
        of_decide_eq_true (hat.result ▸ (hat.isSome_iff hat.result).mpr hfinished)
      rw [htask, ht] at hmem
      simp [RunTask.stages] at hmem
    have hspool : (w.data.finish S.sha256 closeError result finishedAt w.now).outputSpool =
        w.data.outputSpool.map (.finalize S.sha256 closeError) := outputSpool_noteSpool _
    refine ⟨fun s hs => ?_, fun hnot' => absurd rfl hnot', fun _ s hs => ?_⟩
    · rw [List.append_nil]
      obtain ⟨s', hs', rfl⟩ := Option.map_eq_some_iff.mp (hspool.symm.trans hs)
      exact ((h.stores s' hs').finalize (h.live hnot s' hs') S.sha256 closeError).1
    · obtain ⟨s', hs', rfl⟩ := Option.map_eq_some_iff.mp (hspool.symm.trans hs)
      exact ((h.stores s' hs').finalize (h.live hnot s' hs') S.sha256 closeError).2
  | @drain l exit deadline reader ok =>
    cases ok with
    | false => exact h.other rfl Iff.rfl rfl
    | true => exact h.other rfl Iff.rfl rfl
  | _ => exact h.other rfl Iff.rfl rfl

/-- The input task. -/
theorem Files.input (h : Files S log w) (hs : InputStep w u es) : Files S (log ++ es) u := by
  cases hs with
  | leave => exact h.other (outputSpool_leaveInput ..) (by rw [state_leaveInput]) rfl
  | _ => exact h.other rfl Iff.rfl rfl

/-- Callers. -/
theorem Files.caller (h : Files S log w) (hs : CallerStep S w u es) : Files S (log ++ es) u := by
  cases hs with
  | terminate grace reason =>
    obtain ⟨hspool, hstate⟩ := outputSpool_terminate w.data w.now grace reason
    exact h.other hspool hstate rfl
  | _ => exact h.other rfl Iff.rfl rfl

/-- A reader. What it captures is written to the file, which is open unless something has
failed. -/
theorem Files.reader (h : Files S log w) (hlives : Lives w) (hs : ReaderStep w u es) :
    Files S (log ++ es) u := by
  cases hs with
  | @read reader stream data outcomes d hreader hdata hd =>
    have hnot : w.data.execution.state ≠ .finished := by
      intro hfinished
      have hdrained := hlives.drained_of_finished hfinished
      rw [not_drained hreader rfl] at hdrained
      cases hdrained
    obtain ⟨spool, hspool, hd', hstate⟩ := spool_of_append hd
    have hbytes :
        capturedBytes (log ++ [.captured ⟨stream, data⟩]) = capturedBytes log ++ data := by
      rw [capturedBytes, captured_append, captured_chunk, List.map_append, OutputChunk.bytes,
        List.map_map]
      exact congrArg _ (List.map_id data)
    have hboth : ∀ s ∈ spool, s.Stores (capturedBytes log ++ data) ∧ s.Live := by
      intro s hs
      cases hold : w.data.outputSpool with
      | none =>
        rw [hold] at hspool
        obtain rfl := Option.some.inj hspool
        cases hs
      | some s' =>
        rw [hold] at hspool
        obtain ⟨s'', hs'', rfl⟩ := Option.map_eq_some_iff.mp hspool
        obtain rfl := Option.some.inj hs
        exact (h.stores s' hold).append (h.live hnot s' hold) hs''
    refine ⟨fun s hs => ?_, fun _ s hs => ?_, fun hfinished => ?_⟩
    · rw [hbytes]
      exact (hboth s (hd' ▸ hs)).1
    · exact (hboth s (hd' ▸ hs)).2
    · exact absurd (hstate.symm.trans hfinished) hnot
  | _ => exact h.other rfl Iff.rfl rfl

/-- Along every run the file holds the beginning of what was captured. -/
theorem files (hrun : (sessionSystem S).Run log w) : Files S log w := by
  refine hrun.invariant (I := Files S) ?_ ?_
  · rintro w ⟨execution, spool, cancelled, shutdown, now, rfl, hstate, -, -, hspool⟩
    refine ⟨fun s hs => ?_, fun _ s hs => ?_, fun hfinished => ?_⟩
    · obtain ⟨artifactId, path, tailCapacity, rfl⟩ := hspool s hs
      exact OutputSpool.stores_create ..
    · obtain ⟨artifactId, path, tailCapacity, rfl⟩ := hspool s hs
      rfl
    · exact absurd (hstate.symm.trans hfinished) nofun
  · intro log w a u es hrun h hstep
    cases step_cases hstep with
    | run hs => exact h.run (lives hrun) hs
    | input hs => exact h.input hs
    | reader hs => exact h.reader (lives hrun) hs
    | caller hs => exact h.caller hs

/-! ### The readers -/

/-- The run task gave up on the readers. -/
def RunTask.aborts : RunTask → Bool
  | aborting .. => true
  | _ => false

/-- What holds of the readers along a run: if one of them has not reached the end of its output,
this was noted. -/
structure Reads (w : World) : Prop where
  joined : w.data.execution.outputIncomplete = false → Reader.joined false ∉ w.readers
  aborts : w.task.aborts = true → w.data.execution.outputIncomplete = true

/-- A step after which no more output is known to be read than before. -/
theorem Reads.other (h : Reads w) (hreaders : .joined false ∈ u.readers → .joined false ∈ w.readers)
    (htask : u.task.aborts = true → w.task.aborts = true)
    (hincomplete : w.data.execution.outputIncomplete = true →
      u.data.execution.outputIncomplete = true) : Reads u := by
  refine ⟨fun hcomplete hmem => ?_, fun haborts => hincomplete (h.aborts (htask haborts))⟩
  refine h.joined (Bool.eq_false_iff.mpr fun hw => ?_) (hreaders hmem)
  rw [hincomplete hw] at hcomplete
  cases hcomplete

theorem outputIncomplete_noteSpool {d : Data} (h : d.execution.outputIncomplete = true) :
    d.noteSpool.execution.outputIncomplete = true := by
  rw [Data.noteSpool]
  split_ifs
  · rfl
  · exact h

theorem outputIncomplete_terminate {d : Data} (now grace : ℕ) (reason : StopReason)
    (h : d.execution.outputIncomplete = true) :
    (d.terminate now grace reason).execution.outputIncomplete = true := by
  rw [Data.terminate]
  split_ifs
  · exact h
  · exact h

theorem outputIncomplete_append {d d' : Data} {outcomes : List WriteOutcome}
    {stream : OutputStream} {data : List UInt8} (hd : d.append outcomes stream data = some d')
    (h : d.execution.outputIncomplete = true) : d'.execution.outputIncomplete = true := by
  rw [Data.append] at hd
  split at hd
  · obtain rfl := Option.some.inj hd
    exact outputIncomplete_noteSpool h
  · cases hd

/-- Only one who joins a reader finds out that it has not reached the end. -/
theorem joined_of_mem_set {readers : List Reader} {reader : ℕ} {r : Reader}
    (hr : r ≠ .joined false) (h : .joined false ∈ readers.set reader r) :
    .joined false ∈ readers :=
  (List.mem_or_eq_of_mem_set h).resolve_right fun heq => hr heq.symm

/-- The run task. -/
theorem Reads.run (h : Reads w) (hs : RunStep S w u es) : Reads u := by
  cases hs with
  | silent hs =>
    refine h.other id (fun haborts => ?_) id
    cases hs <;> cases haborts
  | spawn =>
    refine h.other (fun hmem => ?_) (fun haborts => by cases haborts) id
    obtain ⟨stream, -, hstream⟩ := List.mem_map.mp hmem
    cases hstream
  | terminate =>
    exact h.other id (fun haborts => by cases haborts) (outputIncomplete_terminate _ _ _)
  | tell htask htells =>
    refine h.other id (fun haborts => ?_) id
    cases htells <;> cases haborts
  | panic => exact h
  | @drain l exit deadline reader ok htask =>
    cases ok with
    | false =>
      refine ⟨fun hcomplete => (by cases hcomplete), fun haborts => ?_⟩
      rw [World.joinReader, htask] at haborts
      cases haborts
    | true => exact h.other (joined_of_mem_set fun heq => by cases heq) id id
  | loseOutput => exact ⟨fun hcomplete => (by cases hcomplete), fun _ => rfl⟩
  | join htask =>
    have hincomplete := h.aborts (by rw [htask]; rfl)
    refine ⟨fun hcomplete => ?_, fun _ => hincomplete⟩
    cases hcomplete.symm.trans hincomplete
  | @finish result closeError =>
    exact h.other id (fun haborts => by cases haborts) (outputIncomplete_noteSpool (d :=
      { w.data with outputSpool := w.data.outputSpool.map (.finalize S.sha256 closeError) }))
  | _ => exact h.other id (fun haborts => by cases haborts) id

/-- A reader. -/
theorem Reads.reader (h : Reads w) (hs : ReaderStep w u es) : Reads u := by
  cases hs with
  | read hreader hdata hd => exact h.other (joined_of_mem_set nofun) id (outputIncomplete_append hd)
  | panic => exact h
  | tell => exact h.other (joined_of_mem_set nofun) id id
  | ended => exact h.other (joined_of_mem_set nofun) id id

/-- Along every run it is noted if a reader has not reached the end of its output. -/
theorem reads (hrun : (sessionSystem S).Run log w) : Reads w := by
  refine hrun.invariant (I := fun _ => Reads) ?_ ?_
  · rintro w ⟨execution, spool, cancelled, shutdown, now, rfl, -⟩
    refine ⟨fun _ => List.not_mem_nil, fun haborts => ?_⟩
    cases cancelled <;> cases haborts
  · intro log w a u es _ h hstep
    cases step_cases hstep with
    | run hs => exact h.run hs
    | input hs =>
      cases hs with
      | @leave error => exact h.other id id (by cases error <;> exact id)
      | _ => exact h.other id id id
    | reader hs => exact h.reader hs
    | caller hs =>
      cases hs with
      | terminate => exact h.other id id (outputIncomplete_terminate _ _ _)
      | _ => exact h.other id id id

/-- **The output file.** Along every run, whatever the calls on the file return, its size and its
running hash are those of the bytes in it, which are the beginning of what the journal captured.
What is said of the file of a finished run is true of these bytes; and the file is called complete
only if it holds all that was captured, and every reader has reached the end of its output. -/
theorem output_file (hrun : (sessionSystem S).Run log w) {s : OutputSpool}
    (hs : w.data.outputSpool = some s) :
    w.data.journal.Keeps (captured log) ∧ s.sizeBytes = s.stored.length ∧ s.hashed = s.stored ∧
      s.stored <+: (captured log).map Prod.snd ∧
      ∀ runId limit expiresAt r, w.data.runResult runId limit expiresAt = .ok r →
        r.outputFile.sha256 = S.sha256 s.stored ∧
        r.outputFile.sizeBytes = .ofNat s.stored.length ∧
        (r.outputFile.complete = true → s.stored = (captured log).map Prod.snd ∧
          ∀ reader ∈ w.readers, reader = .joined true) := by
  have hfiles := files hrun
  have hstores := hfiles.stores s hs
  refine ⟨(captures hrun).journal, hstores.size, hstores.hashed, hstores.begins, ?_⟩
  intro runId limit expiresAt r hr
  have hfinished : w.data.execution.state = .finished := by
    by_contra hnot
    rw [Data.runResult, if_pos hnot] at hr
    cases hr
  obtain ⟨r', hr', -, hfile, -⟩ := runResult_eq_ok hfinished hs runId limit expiresAt
  obtain rfl := Except.ok.inj (hr'.symm.trans hr)
  rw [hfile]
  refine ⟨?_, congrArg UInt64.ofNat hstores.size, fun hcomplete => ?_⟩
  · rw [OutputSpool.outputFile, hfiles.hash hfinished s hs]
    rfl
  · rw [OutputSpool.outputFile, Bool.and_eq_true, Bool.not_eq_true',
      Option.isNone_iff_eq_none] at hcomplete
    refine ⟨hstores.whole hcomplete.2, fun reader hreader => ?_⟩
    have hjoined := List.all_eq_true.mp ((lives hrun).drained_of_finished hfinished) reader hreader
    cases reader with
    | joined ok =>
      cases ok with
      | true => rfl
      | false => exact absurd hreader ((reads hrun).joined hcomplete.1)
    | _ => cases hjoined

/-- The file of a run. -/
theorem output_file_some : ∃ log w s, (sessionSystem someSetup).Run log w ∧
    w.data.execution.state = .finished ∧ w.data.outputSpool = some s ∧
    s.stored <+: [1, 2, 3] ∧ s.sizeBytes = s.stored.length := by
  obtain ⟨log, w, s, hrun, hfinished, hs, -, hcaptured⟩ := someRun_finished
  obtain ⟨-, hsize, -, hstored, -⟩ := output_file hrun hs
  rw [hcaptured] at hstored
  exact ⟨log, w, s, hrun, hfinished, hs, hstored, hsize⟩

end ExecutionProvider.Session
