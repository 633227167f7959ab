import ExecutionProvider.Session.Steps

/-!
# What is captured of the output

A reader that gets some output appends it to the journal and to the output file in one section.
So both keep what all readers have captured, in the order of these sections, whatever the calls on
the file return.

## Main definitions

* `captured`: the output that was captured along a run.
* `Data.Captures`: data whose journal and output file keep the end of some output.

## Main results

* `captures`: the data of a session keep the output captured so far.
-/

namespace ExecutionProvider.Session

open ExecutionProvider.Runtime (Journal OutputSpool StopReason WriteOutcome chunkBytes)

/-- The output that was captured, each byte with its stream. -/
def captured (log : List Event) : List (OutputStream × UInt8) :=
  log.flatMap fun
    | .captured chunk => chunk.bytes
    | _ => []

@[simp] theorem captured_append (log log' : List Event) :
    captured (log ++ log') = captured log ++ captured log' := List.flatMap_append

theorem captured_chunk (chunk : OutputChunk) : captured [.captured chunk] = chunk.bytes :=
  List.append_nil _

/-- The journal and the output file keep the end of some output. -/
structure Data.Captures (output : List (OutputStream × UInt8)) (d : Data) : Prop where
  journal : d.journal.Keeps output
  spool : ∀ s ∈ d.outputSpool, s.Holds output

variable {output : List (OutputStream × UInt8)}

section Sections

variable {d d' : Data}

theorem Data.Captures.of_eq (h : d.Captures output) {revision : ℕ}
    (hjournal : d'.journal = { d.journal with revision := revision })
    (hspool : d'.outputSpool = d.outputSpool) : d'.Captures output := by
  refine ⟨?_, hspool ▸ h.spool⟩
  rw [hjournal]
  exact ⟨h.journal.stop, h.journal.start, h.journal.bytes⟩

theorem Data.Captures.terminate (h : d.Captures output) (now grace : ℕ) (reason : StopReason) :
    (d.terminate now grace reason).Captures output := by
  rw [Data.terminate]
  split_ifs
  · exact h.of_eq rfl rfl
  · exact h

theorem Data.Captures.noteSpool (h : d.Captures output) : d.noteSpool.Captures output := by
  rw [Data.noteSpool]
  split_ifs
  · exact h.of_eq rfl rfl
  · exact h

theorem Data.Captures.finish (h : d.Captures output) (sha256 : List UInt8 → String)
    (closeError : Option String) (result : ExecutionResult) (finishedAt : SystemTime) (now : ℕ) :
    (d.finish sha256 closeError result finishedAt now).Captures output := by
  refine Data.Captures.of_eq (Data.Captures.noteSpool (d :=
    { d with outputSpool := d.outputSpool.map (.finalize sha256 closeError) }) ⟨h.journal, ?_⟩)
    rfl rfl
  intro s hs
  obtain ⟨s', hs', rfl⟩ := Option.map_eq_some_iff.mp hs
  exact (h.spool s' hs').finalize sha256 closeError

theorem Data.Captures.leaveInput (h : d.Captures output) (error : Option String) :
    (d.leaveInput error).Captures output := by
  cases error with
  | none => exact h.of_eq rfl rfl
  | some message => exact h.of_eq rfl rfl

/-- Output that arrives is appended, whatever the calls on the file return. -/
theorem Data.Captures.append (h : d.Captures output) (outcomes : List WriteOutcome)
    (stream : OutputStream) (data : List UInt8) :
    ∃ d', d.append outcomes stream data = some d' ∧
      d'.Captures (output ++ (OutputChunk.mk stream data).bytes) := by
  obtain ⟨journal, hjournal, -, -, hkeeps⟩ := h.journal.append stream data
  obtain ⟨spool, hspool, hholds⟩ : ∃ spool,
      Data.spool outcomes stream data d.outputSpool = some spool ∧
        ∀ s ∈ spool, s.Holds (output ++ (OutputChunk.mk stream data).bytes) := by
    cases hs : d.outputSpool with
    | none => exact ⟨none, rfl, nofun⟩
    | some s =>
      obtain ⟨s', hs', hholds⟩ := (h.spool s hs).append outcomes stream data
      refine ⟨some s', by rw [Data.spool, hs', Option.map_some], ?_⟩
      rintro _ ⟨⟩
      exact hholds
  rw [Data.append, hjournal, hspool]
  exact ⟨_, rfl, Data.Captures.noteSpool ⟨hkeeps, hholds⟩⟩

end Sections

variable {S : Setup} {w u : World} {log es : List Event}

/-- A step keeps the output captured so far. -/
theorem captures_step (hs : Step S w u es) (h : w.data.Captures output) :
    u.data.Captures (output ++ captured es) := by
  have hsame {d : Data} (hd : d.Captures output) (hes : captured es = []) :
      d.Captures (output ++ captured es) := by
    rwa [hes, List.append_nil]
  cases hs with
  | run hs =>
    cases hs with
    | silent hs =>
      refine hsame h ?_
      cases hs <;> rfl
    | terminate => exact hsame (h.terminate ..) rfl
    | finish => exact hsame (h.finish ..) rfl
    | launch | rootExit | dropControl | loseOutput => exact hsame (h.of_eq rfl rfl) rfl
    | @drain l exit deadline reader ok =>
      refine hsame ?_ rfl
      cases ok with
      | false => exact h.of_eq rfl rfl
      | true => exact h
    | enqueue =>
      refine hsame h (List.flatMap_eq_nil_iff.mpr fun e he => ?_)
      obtain ⟨input, rfl⟩ := eq_of_mem_sent he
      rfl
    | _ => exact hsame h rfl
  | input hs =>
    cases hs with
    | leave => exact hsame (h.leaveInput _) rfl
    | _ => exact hsame h rfl
  | reader hs =>
    cases hs with
    | @read reader stream data outcomes d hreader hdata hd =>
      obtain ⟨d', hd', hcaptures⟩ := h.append outcomes stream data
      obtain rfl := Option.some.inj (hd.symm.trans hd')
      rwa [captured_chunk]
    | _ => exact hsame h rfl
  | caller hs =>
    cases hs with
    | terminate => exact hsame (h.terminate ..) rfl
    | receipt | write | close | interrupt | signal | resize => exact hsame (h.of_eq rfl rfl) rfl
    | _ => exact hsame h rfl

/-- **What is captured.** The journal and the output file keep the end of the output that the
readers have captured, in the order in which they have. -/
theorem captures (hrun : (sessionSystem S).Run log w) : w.data.Captures (captured log) := by
  refine hrun.invariant (I := fun log w => w.data.Captures (captured log)) ?_ ?_
  · rintro w ⟨execution, spool, cancelled, shutdown, now, rfl, -, -, -, hspool⟩
    refine ⟨Journal.keeps_new _, fun s hs => ?_⟩
    obtain ⟨artifactId, path, tailCapacity, rfl⟩ := hspool s hs
    exact OutputSpool.holds_create ..
  · intro log w a u es _ h hstep
    rw [captured_append]
    exact captures_step (step_cases hstep) h

end ExecutionProvider.Session
