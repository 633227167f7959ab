import ExecutionProvider.Foundation.Runs
import ExecutionProvider.Runtime.Journal

/-!
# Following an output

While bytes are appended to a journal, a reader asks for what comes behind its cursor and takes
over the cursor it is given, at whatever moments. Reading changes nothing in the journal, so
other readers need not appear.

## Main definitions

* `Follower`, `Follower.step`: a journal with a reader.
* `appended`: the bytes written so far.

## Main results

* `follow_lossless`: the reader is given the output from its first cursor on, but for the gaps it
  is told of.
-/

namespace ExecutionProvider.Runtime

/-- The journal of an execution, the execution as it is seen now, and the cursor of a reader. -/
structure Follower where
  journal : Journal
  execution : ExecutionSnapshot
  cursor : Option Cursor

/-- What happens to a journal and its reader: output is appended, the execution changes (which may
count as a revision), or the reader asks for a positive number of bytes. -/
inductive FollowAction
  | append (stream : OutputStream) (data : List UInt8)
  | change (execution : ExecutionSnapshot) (revises : Bool)
  | read (limit : ℕ)

/-- What has happened. An observation comes with the position that was asked for and with the
start of the journal at that time. -/
inductive FollowEvent
  | appended (chunk : OutputChunk)
  | panicked
  | observed (requested start limit : ℕ) (observation : Observation)
  | failed (error : Error)

namespace Follower

/-- The position that the reader asks for next. -/
def offset (s : Follower) : ℕ := s.cursor.elim 0 Cursor.offset

/-- The journal serves the cursor of the reader. -/
def Serves (s : Follower) : Prop := s.cursor.any (s.journal.refuses s.execution) = false

/-- A step of a journal and its reader. -/
def step (s : Follower) : FollowAction → Option (Follower × List FollowEvent)
  | .append stream data =>
    match s.journal.append stream data with
    | none => some (s, [.panicked])
    | some journal => some ({ s with journal := journal }, [.appended ⟨stream, data⟩])
  | .change execution revises =>
    if execution.handle = s.execution.handle then
      some ({ s with
        execution := execution
        journal := { s.journal with
          revision := s.journal.revision + if revises then 1 else 0 } }, [])
    else none
  | .read limit =>
    if limit = 0 then none
    else
      match s.journal.read s.execution s.cursor limit with
      | .error e => some (s, [.failed e])
      | .ok o => some ({ s with cursor := some o.nextCursor },
          [.observed s.offset s.journal.start limit o])

end Follower

/-- The runs of a journal of some capacity and its reader. -/
def followSystem (capacity : ℕ) : System Follower FollowAction FollowEvent where
  start s := s.journal = Journal.new capacity ∧ s.cursor = none
  step := Follower.step

/-- The bytes that an event added to the output. -/
def FollowEvent.bytes : FollowEvent → List (OutputStream × UInt8)
  | .appended chunk => chunk.bytes
  | _ => []

/-- The output so far. -/
def appended (log : List FollowEvent) : List (OutputStream × UInt8) :=
  log.flatMap FollowEvent.bytes

/-- The part of an output that an observation accounts for: what was asked for but is no longer
kept, and what was delivered. -/
def FollowEvent.accounts (output : List (OutputStream × UInt8)) :
    FollowEvent → List (OutputStream × UInt8)
  | .observed requested start _ o => output.extract requested start ++ chunkBytes o.output
  | _ => []

/-- What is to hold of an event behind some output: nothing fails, and what is delivered is what
was written. All but the last bytes of the output are no longer kept. -/
def FollowEvent.Correct (capacity : ℕ) (output : List (OutputStream × UInt8)) :
    FollowEvent → Prop
  | .appended _ => True
  | .panicked => False
  | .observed requested start limit o =>
    start = output.length - capacity ∧ Journal.Delivers output start requested limit o
  | .failed _ => False

/-! ### Steps -/

variable {capacity : ℕ} {log log' : List FollowEvent} {s t : Follower}

@[simp] theorem appended_append (log log' : List FollowEvent) :
    appended (log ++ log') = appended log ++ appended log' := List.flatMap_append

/-- A journal of a capacity that keeps the end of the output so far, and whose reader it
serves. -/
structure Follows (capacity : ℕ) (log : List FollowEvent) (s : Follower) : Prop where
  capacity : s.journal.capacity = capacity
  keeps : s.journal.Keeps (appended log)
  serves : s.Serves

/-- Where the cursor of the reader may be. -/
theorem Follows.offset_le (h : Follows capacity log s) : s.offset ≤ (appended log).length := by
  have hserves := h.serves
  rw [Follower.offset, ← h.keeps.stop]
  cases hc : s.cursor with
  | none => exact Nat.zero_le _
  | some c =>
    rw [Follower.Serves, hc, Option.any_some] at hserves
    simp only [Journal.refuses, Bool.or_eq_false_iff, decide_eq_false_iff_not, not_lt] at hserves
    exact hserves.1.2

/-- A cursor that is served stays so while the journal grows. -/
theorem Follower.Serves.mono (h : s.Serves) {journal : Journal} {execution : ExecutionSnapshot}
    (hh : execution.handle = s.execution.handle) (hs : s.journal.stop ≤ journal.stop)
    (hr : s.journal.revision ≤ journal.revision) :
    Follower.Serves ⟨journal, execution, s.cursor⟩ := by
  rw [Follower.Serves] at h ⊢
  dsimp only
  cases hc : s.cursor with
  | none => rfl
  | some c =>
    rw [hc, Option.any_some] at h
    simp only [Option.any_some, Journal.refuses, Bool.or_eq_false_iff, decide_eq_false_iff_not,
      not_lt, hh] at h ⊢
    exact ⟨⟨h.1.1, h.1.2.trans hs⟩, h.2.trans hr⟩

/-- What a step does: the output grows and nothing else changes for the reader, or the reader is
served and moves on. -/
theorem Follows.step (h : Follows capacity log s) {a : FollowAction} {es : List FollowEvent}
    (hstep : s.step a = some (t, es)) :
    Follows capacity (log ++ es) t ∧ es.length ≤ 1 ∧
      (∀ e ∈ es, e.Correct capacity (appended log)) ∧
      (t.offset = s.offset ∧ (∀ e output, e ∈ es → e.accounts output = []) ∨
        ∃ limit o, es = [.observed s.offset s.journal.start limit o] ∧
          t.offset = o.nextCursor.offset) := by
  cases a with
  | append stream data =>
    obtain ⟨j, hj, hcap, hrev, hkeeps⟩ := h.keeps.append stream data
    simp only [Follower.step, hj, Option.some.injEq, Prod.mk.injEq] at hstep
    obtain ⟨rfl, rfl⟩ := hstep
    have hstop : s.journal.stop ≤ j.stop := by
      rw [h.keeps.stop, hkeeps.stop, List.length_append]
      exact Nat.le_add_right _ _
    refine ⟨⟨hcap.trans h.capacity, ?_, h.serves.mono rfl hstop hrev.ge⟩, le_rfl, ?_,
      Or.inl ⟨rfl, ?_⟩⟩
    · simpa [appended, FollowEvent.bytes] using hkeeps
    · simp [FollowEvent.Correct]
    · rintro e output he
      rw [List.mem_singleton.mp he]
      rfl
  | change execution revises =>
    rw [Follower.step] at hstep
    split at hstep
    · next hhandle =>
      simp only [Option.some.injEq, Prod.mk.injEq] at hstep
      obtain ⟨rfl, rfl⟩ := hstep
      refine ⟨⟨h.capacity, ?_, h.serves.mono hhandle le_rfl (Nat.le_add_right _ _)⟩,
        Nat.zero_le _, by simp, ?_⟩
      · rw [List.append_nil]
        exact ⟨h.keeps.stop, h.keeps.start, h.keeps.bytes⟩
      · exact Or.inl ⟨rfl, by simp⟩
    · cases hstep
  | read limit =>
    rw [Follower.step] at hstep
    split at hstep
    · cases hstep
    · obtain ⟨o, ho, hdelivers, hnext⟩ := h.keeps.read h.serves limit
      simp only [ho, Option.some.injEq, Prod.mk.injEq] at hstep
      obtain ⟨rfl, rfl⟩ := hstep
      refine ⟨⟨h.capacity, ?_, ?_⟩, le_rfl, ?_, Or.inr ⟨limit, o, rfl, rfl⟩⟩
      · simpa [appended, FollowEvent.bytes] using h.keeps
      · simpa [Follower.Serves] using hnext
      · rintro e he
        rw [List.mem_singleton.mp he]
        exact ⟨by rw [h.keeps.start, h.capacity], hdelivers⟩

/-! ### Runs -/

theorem follows_of_start (h : (followSystem capacity).start s) : Follows capacity [] s where
  capacity := by rw [h.1, Journal.new]
  keeps := by
    rw [h.1]
    exact Journal.keeps_new capacity
  serves := by rw [Follower.Serves, h.2, Option.any_none]

theorem follows_of_run (h : (followSystem capacity).Run log s) : Follows capacity log s :=
  h.invariant (fun _ => follows_of_start) fun _ hs hstep => (hs.step hstep).1

/-- The part of a growing output that a correct event accounts for stays the same. -/
theorem FollowEvent.Correct.accounts_append {output : List (OutputStream × UInt8)}
    {e : FollowEvent} (h : e.Correct capacity output) (more : List (OutputStream × UInt8)) :
    e.accounts (output ++ more) = e.accounts output := by
  cases e with
  | observed requested start limit o =>
    rw [accounts, accounts, List.extract_append_of_le]
    rw [h.1]
    exact Nat.sub_le _ _
  | appended chunk => rfl
  | panicked => rfl
  | failed e => rfl

/-- A correct observation accounts for all of the output between the position that was asked for
and the next one. -/
theorem Journal.Delivers.accounts_eq {output : List (OutputStream × UInt8)}
    {start requested limit : ℕ} {o : Observation} (h : Delivers output start requested limit o)
    (hr : requested ≤ output.length) (hs : start ≤ output.length) :
    (FollowEvent.observed requested start limit o).accounts output =
      output.extract requested o.nextCursor.offset ∧ requested ≤ o.nextCursor.offset := by
  have hoffset := h.offset
  have hmax : max requested start ≤ o.nextCursor.offset := by omega
  refine ⟨?_, (le_max_left _ _).trans hmax⟩
  have hgap : output.extract requested start = output.extract requested (max requested start) := by
    by_cases hlt : requested ≤ start
    · rw [max_eq_right hlt]
    · rw [max_eq_left (by omega), List.extract_eq_nil_of_le _ (by omega),
        List.extract_eq_nil_of_le _ le_rfl]
  rw [FollowEvent.accounts, h.bytes, hgap, List.extract_append_extract _ (le_max_left _ _) hmax]

/-- What a reader that began at some position has been given so far. -/
structure Lossless (capacity : ℕ) (log : List FollowEvent) (first : ℕ) (log' : List FollowEvent)
    (t : Follower) : Prop where
  follows : Follows capacity (log ++ log') t
  accounts : log'.flatMap (FollowEvent.accounts (appended (log ++ log'))) =
    (appended (log ++ log')).extract first t.offset
  first_le : first ≤ t.offset
  correct : ∀ pre e post, log' = pre ++ e :: post → e.Correct capacity (appended (log ++ pre))

namespace Lossless

variable {first : ℕ} {u : Follower} {es : List FollowEvent}

theorem start (h : Follows capacity log s) : Lossless capacity log s.offset [] s where
  follows := by simpa using h
  accounts := (List.extract_eq_nil_of_le _ le_rfl).symm
  first_le := le_rfl
  correct pre e post heq := by simp at heq

/-- The events so far account for the same part of an output that has grown. -/
theorem accounts_append (h : Lossless capacity log first log' t)
    (more : List (OutputStream × UInt8)) :
    log'.flatMap (FollowEvent.accounts (appended (log ++ log') ++ more)) =
      log'.flatMap (FollowEvent.accounts (appended (log ++ log'))) := by
  refine List.flatMap_congr fun e he => ?_
  obtain ⟨pre, post, heq⟩ := List.append_of_mem he
  have hcorrect := h.correct pre e post heq
  rw [heq, ← List.append_assoc, appended_append (log ++ pre), List.append_assoc,
    hcorrect.accounts_append, hcorrect.accounts_append]

theorem step (h : Lossless capacity log first log' t) {a : FollowAction}
    (hstep : t.step a = some (u, es)) : Lossless capacity log first (log' ++ es) u := by
  obtain ⟨hfollows, hlen, hcorrect, hcases⟩ := h.follows.step hstep
  have hle := h.follows.offset_le
  have hold : log'.flatMap (FollowEvent.accounts (appended (log ++ (log' ++ es)))) =
      (appended (log ++ (log' ++ es))).extract first t.offset := by
    rw [← List.append_assoc, appended_append _ es, h.accounts_append, h.accounts,
      List.extract_append_of_le _ _ hle]
  refine ⟨by rwa [← List.append_assoc], ?_, ?_, ?_⟩
  · rw [List.flatMap_append, hold]
    rcases hcases with ⟨hoffset, hnone⟩ | ⟨limit, o, rfl, hoffset⟩
    · rw [hoffset, List.flatMap_eq_nil_iff.mpr fun e he => hnone e _ he, List.append_nil]
    · obtain ⟨hstart, hdelivers⟩ := hcorrect _ (List.mem_singleton.mpr rfl)
      obtain ⟨haccounts, hnext⟩ := hdelivers.accounts_eq hle (by omega)
      have hsame : appended (log ++ (log' ++ [.observed t.offset t.journal.start limit o])) =
          appended (log ++ log') := by
        rw [← List.append_assoc, appended_append _ [_]]
        exact List.append_nil _
      rw [hsame, List.flatMap_singleton, haccounts, hoffset,
        List.extract_append_extract _ h.first_le hnext]
  · rcases hcases with ⟨hoffset, -⟩ | ⟨limit, o, rfl, hoffset⟩
    · exact hoffset ▸ h.first_le
    · obtain ⟨hstart, hdelivers⟩ := hcorrect _ (List.mem_singleton.mpr rfl)
      rw [hoffset]
      exact h.first_le.trans (hdelivers.accounts_eq hle (by omega)).2
  · intro pre e post heq
    rcases List.append_eq_append_iff.mp heq with ⟨mid, hpre, hes⟩ | ⟨mid, hlog, hmid⟩
    · -- The event is the one of this step.
      have hmid : mid = [] := by
        have hlen' := congrArg List.length hes
        rw [List.length_append, List.length_cons] at hlen'
        exact List.length_eq_zero_iff.mp (by omega)
      subst hmid
      rw [hpre, List.append_nil]
      exact hcorrect e (by simp [hes])
    · cases mid with
      | nil =>
        rw [List.append_nil] at hlog
        rw [← hlog]
        rw [List.nil_append] at hmid
        exact hcorrect e (hmid ▸ List.mem_cons_self)
      | cons e' mid =>
        obtain ⟨rfl, -⟩ := List.cons.inj hmid
        exact h.correct pre e mid hlog

end Lossless

/-- **No output is lost.** A reader starts with any cursor that the journal serves, or with none,
and takes over each cursor it is given, while the journal grows. It is never refused, the journal
keeps the last bytes of the output, and the reader is given the output from its first position
to its last one, in order and once, but for the gaps it is told of. -/
theorem follow_lossless (cursor : Option Cursor) (h : (followSystem capacity).Run log s)
    (hc : Follower.Serves { s with cursor := cursor })
    (hp : (followSystem capacity).Path { s with cursor := cursor } log' t) :
    chunkBytes t.journal.chunks = (appended (log ++ log')).rtake capacity ∧
      log'.flatMap (FollowEvent.accounts (appended (log ++ log'))) =
        (appended (log ++ log')).extract (cursor.elim 0 Cursor.offset) t.offset ∧
      ∀ pre e post, log' = pre ++ e :: post → e.Correct capacity (appended (log ++ pre)) := by
  have hs := follows_of_run h
  have hlossless := hp.rec_invariant (fun hI hstep => Lossless.step hI hstep)
    (Lossless.start (s := { s with cursor := cursor }) ⟨hs.capacity, hs.keeps, hc⟩)
  refine ⟨?_, hlossless.accounts, hlossless.correct⟩
  rw [hlossless.follows.keeps.rtake, hlossless.follows.capacity]

/-- An identifier for the example. -/
def someId : Uuid := ⟨"00000000-0000-4000-8000-000000000003", by decide⟩

/-- The execution in the example. -/
def someSnapshot : ExecutionSnapshot where
  handle := ⟨someId, someId⟩
  command := .program "yes" []
  resolvedShell := none
  cwd := "/"
  io := .pipes false
  labels := .empty
  state := .running
  result := none
  createdAt := ⟨0, 0⟩
  startedAt := none
  finishedAt := none
  outputIncomplete := false
  inputError := none

/-- A journal of three bytes is read from its second position when that is no longer kept. -/
theorem follow_lossless_gap :
    ∃ t : Follower,
      t.journal.chunks = [⟨.stdout, [3]⟩, ⟨.stderr, [4, 5]⟩] ∧ t.offset = 4 ∧
      chunkBytes t.journal.chunks = [(.stdout, 1), (.stdout, 2), (.stdout, 3), (.stderr, 4),
        (.stderr, 5)].rtake 3 := by
  have hrun : ∃ s log, (followSystem 3).exec ⟨Journal.new 3, someSnapshot, none⟩
      [.append .stdout [1, 2, 3]] = some (s, log) ∧
      Follower.Serves { s with cursor := some ⟨someSnapshot.handle, 1, 0⟩ } ∧
      ∃ t log', (followSystem 3).exec { s with cursor := some ⟨someSnapshot.handle, 1, 0⟩ }
        [.append .stderr [4, 5], .read 2] = some (t, log') ∧ t.offset = 4 ∧
        t.journal.chunks = [⟨.stdout, [3]⟩, ⟨.stderr, [4, 5]⟩] ∧
        appended (log ++ log') = [(.stdout, 1), (.stdout, 2), (.stdout, 3), (.stderr, 4),
          (.stderr, 5)] := ⟨_, _, rfl, rfl, _, _, rfl, rfl, rfl, rfl⟩
  obtain ⟨s, log, hs, hserves, t, log', ht, hoffset, hchunks, houtput⟩ := hrun
  refine ⟨t, hchunks, hoffset, ?_⟩
  rw [← houtput]
  exact (follow_lossless _ ⟨_, ⟨rfl, rfl⟩, .of_exec hs⟩ hserves (.of_exec ht)).1

end ExecutionProvider.Runtime
