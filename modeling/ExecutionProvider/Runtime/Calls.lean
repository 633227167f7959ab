import Mathlib.Data.List.Sort
import ExecutionProvider.Foundation.Index
import ExecutionProvider.Runtime.Cancellation

/-!
# What the calls find in the registry

The registry has its executions under their numbers, and finds these numbers by handle and by the
identities under which executions were started or run. A call that finds a number takes the entry
with that number, and would not survive it if there were none.

## Main definitions

* `Core.findRun`, `Core.session`, `Core.listExecutions`: the other sections that look for sessions.
* `callSystem`: the runs of a runtime with all of these calls.
* `Registry.Indexed`, `Core.Sound`: the invariant of the registry.

## Main results

* `Core.Sound.step`: every section keeps the invariant.
* `registry_sound`: the invariant, and what calls answer, in every state of a run.
-/

namespace ExecutionProvider.Runtime

variable {ρ : Type} (limits : Limits)

/-! ### Sections with their answers -/

/-- What is asked about a list of executions. -/
structure ListRequest where
  state : StateFilter
  labels : StringMap
  limit : ℕ
  pageCursor : Option PageCursor

/-- The numbers of the executions on a page, and where the next page begins. -/
structure Page where
  executions : List ℕ
  nextPageCursor : Option PageCursor

namespace Core

variable (c : Core ρ)

/-- The entry with the number that an index gives. -/
def entryOf (sequence : Option ℕ) : Option (Option ℕ) :=
  match sequence with
  | none => some none
  | some sequence =>
    match c.registry.entries.lookup sequence with
    | none => none
    | some _ => some (some sequence)

/-- The first locked section of `terminate_run`: the session of a run, if there is one. -/
def findRun (runId : String) : Option (Option ℕ) :=
  let c := c.cleanup limits
  c.entryOf (c.registry.runs.lookup runId)

variable (generation : Uuid)

/-- Whether something belongs to a generation of the runtime. -/
def checkGeneration (generation' : Uuid) : Result Unit :=
  if generation' ≠ generation then
    .error ⟨.generationMismatch, "execution belongs to another runtime generation"⟩
  else .ok ()

/-- The session of an execution. -/
def session (handle : ExecutionHandle) : Option (Core ρ × Result ℕ) :=
  match checkGeneration generation handle.generationId with
  | .error e => some (c, .error e)
  | .ok () =>
    let c := c.cleanup limits
    match c.entryOf (c.registry.handles.lookup handle.id) with
    | none => none
    | some none =>
      some (c, .error ⟨.notFound, "execution was not found or its retention ended"⟩)
    | some (some sequence) => some (c, .ok sequence)

/-! ### Lists of executions -/

/-- The labels of an execution. -/
def labelsOf (labels : ρ → StringMap) (entry : Entry ρ) : List (String × String) :=
  (entry.startRequest.map fun q => (labels q.arguments).entries).getD [] ++
    (entry.runRequest.map fun q => (labels q.arguments).entries).getD []

/-- Whether an execution is on a list. -/
def matchesRequest (labels : ρ → StringMap) (request : ListRequest) (sequence : ℕ)
    (entry : Entry ρ) : Bool :=
  let finished := (c.sessions.lookup sequence).any fun x => x.session.state = .finished
  !(request.state = .active && finished || request.state = .finished && !finished) &&
    request.labels.entries.all fun l => (labelsOf labels entry).contains l

/-- A page: as many executions as fit on it, and whether there are more. -/
def takePage (limit : ℕ) (executions : List ℕ) : List ℕ → List ℕ × Bool
  | [] => (executions, false)
  | sequence :: rest =>
    if executions.length = limit then (executions, true)
    else takePage limit (executions ++ [sequence]) rest

/-- Where a page begins, and the last execution that the list has. -/
def pageRange (request : ListRequest) : Result (ℕ × ℕ) :=
  match request.pageCursor with
  | none => .ok (0, c.registry.nextSequence - 1)
  | some cursor =>
    match checkGeneration generation cursor.generationId with
    | .error e => .error e
    | .ok () =>
      if cursor.state ≠ request.state ∨ cursor.labels ≠ request.labels then
        .error (.invalid "list filters changed between pages")
      else .ok (cursor.after.toNat, cursor.through.toNat)

/-- The locked section of `list_executions`. -/
def listExecutions (labels : ρ → StringMap) (request : ListRequest) : Core ρ × Result Page :=
  if request.limit = 0 then (c, .error (.invalid "list limit must be positive"))
  else
    let c := c.cleanup limits
    match c.pageRange generation request with
    | .error e => (c, .error e)
    | .ok (after, through) =>
      if through < after ∨ c.registry.nextSequence ≤ through then
        (c, .error (.invalid "page cursor is ahead of this runtime's execution list"))
      else
        let found := c.registry.entries.select fun sequence entry =>
          after < sequence && sequence ≤ through && c.matchesRequest labels request sequence entry
        let numbers := (found.map Prod.fst).insertionSort (· ≤ ·)
        let page := takePage request.limit [] numbers
        let next : PageCursor := ⟨generation, .ofNat (page.1.getLast?.getD after), .ofNat through,
          request.state, request.labels⟩
        (c, .ok ⟨page.1, if page.2 then some next else none⟩)

end Core

/-! ### All calls -/

/-- A section of the runtime, or one of the calls that only look for sessions. -/
inductive Call (ρ : Type)
  | action (action : Action ρ)
  | session (handle : ExecutionHandle)
  | listExecutions (request : ListRequest)

/-- The handle that a call draws for a new execution. -/
def Call.handle : Call ρ → Option Uuid
  | action (.startExecution _ handle) | action (.runExecution _ handle _) => some handle
  | _ => none

/-- The runs of a runtime of some generation, with all calls. -/
def callSystem [DecidableEq ρ] (generation : Uuid) (labels : ρ → StringMap) :
    System (Core ρ) (Call ρ) Event where
  start c := c = Core.init
  step c
    | .action action => Core.step limits c action
    | .session handle =>
      (c.session limits generation handle).map fun a => (a.1, failures a.2)
    | .listExecutions request =>
      let a := c.listExecutions limits generation labels request
      some (a.1, failures a.2)

/-! ### The invariant -/

/-- The registry finds its entries by handle and by identity, and finds nothing else. -/
structure Registry.Indexed (r : Registry ρ) : Prop where
  handles : Table.Indexes (fun e => some e.handle) r.entries r.handles
  starts : Table.Indexes Entry.startId r.entries r.starts
  runs : Table.Indexes Entry.runId r.entries r.runs

/-- The indexes agree with the entries, the entries have numbers that were given out and sessions,
and there are not too many of them. -/
structure Core.Sound (c : Core ρ) : Prop where
  indexed : c.registry.Indexed
  numbered : ∀ sequence ∈ c.registry.entries, sequence < c.registry.nextSequence
  recorded : ∀ sequence ∈ c.registry.entries, sequence ∈ c.sessions
  finished : ∀ sequence x, c.sessions.lookup sequence = some x → x.Valid
  retained : c.registry.entries.entries.length ≤ limits.maxRetainedExecutions
  active : c.registry.active c.sessions ≤ limits.maxActiveExecutions

theorem Core.sound_init : (Core.init : Core ρ).Sound limits where
  indexed := ⟨.empty, .empty, .empty⟩
  numbered _ hs := absurd hs (AList.notMem_empty _)
  recorded _ hs := absurd hs (AList.notMem_empty _)
  finished _ _ hx := by simp [init] at hx
  retained := Nat.zero_le _
  active := Nat.zero_le _

variable {limits} {c c' : Core ρ}

/-! ### Expiry -/

variable (limits) in
theorem Registry.Indexed.cleanup {r : Registry ρ} (h : r.Indexed) (sessions : Table ℕ Execution)
    (now : ℕ) : (r.cleanup limits sessions now).Indexed := by
  have hremoved : ∀ e ∈ r.entries.select (Registry.isExpired limits sessions now),
      r.entries.lookup e.1 = some e.2 := fun e he => (Table.mem_select_iff.mp he).1
  refine ⟨?_, h.starts.eraseAll hremoved, Registry.indexes_runs_cleanup limits h.runs sessions now⟩
  have hhandles := h.handles.eraseAll hremoved
  rw [List.filterMap_eq_map'] at hhandles
  exact hhandles

/-- There are no more entries that are not finished when there are fewer entries. -/
theorem Registry.active_le_of_sublist {r r' : Registry ρ} {sessions : Table ℕ Execution}
    (h : r'.entries.entries.Sublist r.entries.entries) :
    r'.active sessions ≤ r.active sessions := by
  rw [Registry.active, Registry.active, Table.select, Table.select, List.length_map,
    List.length_map]
  exact (h.filter _).length_le

variable (limits) in
theorem Core.Sound.cleanup (h : c.Sound limits) : (c.cleanup limits).Sound limits where
  indexed := h.indexed.cleanup limits c.sessions c.now
  numbered _ hs := h.numbered _ (Registry.mem_of_mem_cleanup hs)
  recorded _ hs := h.recorded _ (Registry.mem_of_mem_cleanup hs)
  finished := h.finished
  retained := (c.registry.entries_cleanup_sublist c.sessions c.now).length_le.trans h.retained
  active := (Registry.active_le_of_sublist
    (c.registry.entries_cleanup_sublist c.sessions c.now)).trans h.active

/-! ### New entries -/

theorem Core.Sound.lookup_nextSequence (h : c.Sound limits) :
    c.registry.entries.lookup c.registry.nextSequence = none :=
  AList.lookup_eq_none.mpr fun hs => Nat.lt_irrefl _ (h.numbered _ hs)

/-- There is room for a new entry. -/
theorem Core.Sound.record (h : c.Sound limits) (hroom : c.registry.hasRoom limits c.sessions = true)
    (entry : Entry ρ) (phase : Phase) :
    (∀ sequence ∈ (c.record entry phase).registry.entries,
      sequence < (c.record entry phase).registry.nextSequence) ∧
    (∀ sequence ∈ (c.record entry phase).registry.entries,
      sequence ∈ (c.record entry phase).sessions) ∧
    (∀ sequence x, (c.record entry phase).sessions.lookup sequence = some x → x.Valid) ∧
    (c.record entry phase).registry.entries.entries.length ≤ limits.maxRetainedExecutions ∧
    (c.record entry phase).registry.active (c.record entry phase).sessions ≤
      limits.maxActiveExecutions := by
  rw [Registry.hasRoom, Bool.and_eq_true, decide_eq_true_eq, decide_eq_true_eq] at hroom
  have hnew : c.registry.nextSequence ∉ c.registry.entries :=
    AList.lookup_eq_none.mp h.lookup_nextSequence
  refine ⟨fun sequence hs => ?_, fun sequence hs => ?_, fun sequence x hx => ?_, ?_, ?_⟩
  · rcases (AList.mem_insert _).mp hs with rfl | hs
    · exact Nat.lt_succ_self _
    · exact Nat.lt_succ_of_lt (h.numbered _ hs)
  · exact (AList.mem_insert _).mpr (((AList.mem_insert _).mp hs).imp_right (h.recorded _))
  · by_cases hs : sequence = c.registry.nextSequence
    · rw [hs, Core.record, AList.lookup_insert] at hx
      rw [← Option.some.inj hx]
      intro hf
      cases hf
    · rw [Core.record, AList.lookup_insert_ne hs] at hx
      exact h.finished sequence x hx
  · rw [Core.record, AList.entries_insert_of_notMem hnew, List.length_cons]
    exact hroom.2
  · have hold : c.registry.active (c.record entry phase).sessions =
        c.registry.active c.sessions := by
      rw [Registry.active, Registry.active, Table.select, Table.select, List.length_map,
        List.length_map]
      refine congrArg List.length (List.filter_congr fun e he => ?_)
      have hne : e.1 ≠ c.registry.nextSequence := fun heq =>
        hnew (heq ▸ List.mem_map.mpr ⟨e, he, rfl⟩)
      rw [Core.record, AList.lookup_insert_ne hne]
    have hle : (c.record entry phase).registry.active (c.record entry phase).sessions ≤
        c.registry.active (c.record entry phase).sessions + 1 := by
      rw [Registry.active, Registry.active, Core.record, Table.select_insert hnew]
      split_ifs
      · exact Nat.le_refl _
      · exact Nat.le_succ _
    omega

/-- An entry that was started is entered into the indexes. -/
theorem Core.Sound.admitStart (h : c.Sound limits)
    (hroom : c.registry.hasRoom limits c.sessions = true) {request : StartRequest ρ} {handle : Uuid}
    (hhandle : c.registry.handles.lookup handle = none)
    (hid : c.registry.starts.lookup request.startId = none) :
    (c.admitStart request handle).Sound limits := by
  obtain ⟨hnumbered, hrecorded, hfinished, hretained, hactive⟩ :=
    h.record hroom ⟨handle, some request, none⟩ .spawning
  have hnew := h.lookup_nextSequence
  exact ⟨⟨h.indexed.handles.insert hnew rfl hhandle, h.indexed.starts.insert hnew rfl hid,
    h.indexed.runs.insert_of_none hnew rfl⟩, hnumbered, hrecorded, hfinished, hretained, hactive⟩

/-- An entry that was run is entered into the indexes. -/
theorem Core.Sound.admitRun (h : c.Sound limits)
    (hroom : c.registry.hasRoom limits c.sessions = true) {request : RunRequest ρ} {handle : Uuid}
    (hhandle : c.registry.handles.lookup handle = none)
    (hid : c.registry.runs.lookup request.runId = none) :
    (c.admitRun request handle).Sound limits := by
  obtain ⟨hnumbered, hrecorded, hfinished, hretained, hactive⟩ :=
    h.record hroom ⟨handle, none, some request⟩
      (if (c.registry.pendingRunTerminations.lookup request.runId).isSome then .cancelled
        else .spawning)
  have hnew := h.lookup_nextSequence
  exact ⟨⟨h.indexed.handles.insert hnew rfl hhandle, h.indexed.starts.insert_of_none hnew rfl,
    h.indexed.runs.insert hnew rfl hid⟩, hnumbered, hrecorded, hfinished, hretained, hactive⟩

/-! ### Answers -/

/-- How a request is accepted in a state of the registry: it joins the entry with its identity, when
that has the same request, and conflicts with it otherwise; when there is none, it is refused or
admitted. -/
inductive Accepts (limits : Limits) (c : Core ρ) (key : Entry ρ → Option String) (id : String)
    (same : Entry ρ → Prop) (admitted : Core ρ) : Core ρ → Result Admission → Prop
  | joined {sequence : ℕ} {entry : Entry ρ}
      (hentry : c.registry.entries.lookup sequence = some entry) (hkey : key entry = some id)
      (hsame : same entry) :
      Accepts limits c key id same admitted c (.ok ⟨sequence, true⟩)
  | conflict {sequence : ℕ} {entry : Entry ρ} {message : String}
      (hentry : c.registry.entries.lookup sequence = some entry) (hkey : key entry = some id)
      (hsame : ¬same entry) :
      Accepts limits c key id same admitted c (.error ⟨.idempotencyConflict, message⟩)
  | refused {error : Error} (hnew : ∀ sequence entry,
      c.registry.entries.lookup sequence = some entry → key entry ≠ some id)
      (hcode : error.code ≠ .idempotencyConflict) :
      Accepts limits c key id same admitted c (.error error)
  | admitted (hnew : ∀ sequence entry,
      c.registry.entries.lookup sequence = some entry → key entry ≠ some id)
      (hroom : c.registry.hasRoom limits c.sessions = true) :
      Accepts limits c key id same admitted admitted (.ok ⟨c.registry.nextSequence, false⟩)

section Accept

variable [DecidableEq ρ]

/-- What the locked section of `start_execution` does. -/
theorem Core.Sound.acceptStart (h : c.Sound limits) (request : StartRequest ρ) (handle : Uuid) :
    ∃ c' answer, c.acceptStart limits request handle = some (c', answer) ∧
      c.startExecution limits request handle = (c', failures answer) ∧
      Accepts limits (c.cleanup limits) Entry.startId request.startId
        (fun e => e.startRequest = some request)
        ((c.cleanup limits).admitStart request handle) c' answer := by
  suffices haccept : ∃ c' answer, c.acceptStart limits request handle = some (c', answer) ∧
      Accepts limits (c.cleanup limits) Entry.startId request.startId
        (fun e => e.startRequest = some request)
        ((c.cleanup limits).admitStart request handle) c' answer by
    obtain ⟨c', answer, haccept, haccepts⟩ := haccept
    exact ⟨c', answer, haccept, by rw [Core.startExecution, haccept]; rfl, haccepts⟩
  have hclean := h.cleanup limits
  unfold Core.acceptStart
  dsimp only
  cases hs : (c.cleanup limits).registry.starts.lookup request.startId with
  | some sequence =>
    obtain ⟨entry, hentry, hkey⟩ := (hclean.indexed.starts _ _).mp hs
    dsimp only
    rw [hentry]
    dsimp only
    split_ifs with hsame
    · exact ⟨_, _, rfl, .joined hentry hkey hsame⟩
    · exact ⟨_, _, rfl, .conflict hentry hkey hsame⟩
  | none =>
    have hnew := hclean.indexed.starts.eq_none_iff.mp hs
    dsimp only
    split_ifs with hdown hroom
    · exact ⟨_, _, rfl, .refused hnew (by simp)⟩
    · exact ⟨_, _, rfl, .admitted hnew hroom⟩
    · exact ⟨_, _, rfl, .refused hnew (by simp)⟩

/-- What the locked section of `run_execution` does. -/
theorem Core.Sound.acceptRun (h : c.Sound limits) (request : RunRequest ρ) (handle : Uuid)
    (spoolError : Option String) :
    ∃ c' answer, c.acceptRun limits request handle spoolError = some (c', answer) ∧
      c.runExecution limits request handle spoolError = (c', failures answer) ∧
      Accepts limits (c.cleanup limits) Entry.runId request.runId
        (fun e => e.runRequest = some request)
        ((c.cleanup limits).admitRun request handle) c' answer := by
  suffices haccept : ∃ c' answer,
      c.acceptRun limits request handle spoolError = some (c', answer) ∧
      Accepts limits (c.cleanup limits) Entry.runId request.runId
        (fun e => e.runRequest = some request)
        ((c.cleanup limits).admitRun request handle) c' answer by
    obtain ⟨c', answer, haccept, haccepts⟩ := haccept
    exact ⟨c', answer, haccept, by rw [Core.runExecution, haccept]; rfl, haccepts⟩
  have hclean := h.cleanup limits
  unfold Core.acceptRun
  dsimp only
  cases hs : (c.cleanup limits).registry.runs.lookup request.runId with
  | some sequence =>
    obtain ⟨entry, hentry, hkey⟩ := (hclean.indexed.runs _ _).mp hs
    dsimp only
    rw [hentry]
    dsimp only
    split_ifs with hsame
    · exact ⟨_, _, rfl, .joined hentry hkey hsame⟩
    · exact ⟨_, _, rfl, .conflict hentry hkey hsame⟩
  | none =>
    have hnew := hclean.indexed.runs.eq_none_iff.mp hs
    dsimp only
    split_ifs with hdown hroom
    · exact ⟨_, _, rfl, .refused hnew (by simp)⟩
    · cases spoolError with
      | some message => exact ⟨_, _, rfl, .refused hnew (by simp)⟩
      | none => exact ⟨_, _, rfl, .admitted hnew hroom⟩
    · exact ⟨_, _, rfl, .refused hnew (by simp)⟩

end Accept

/-- A new session keeps the invariant, when its handle was not drawn before. -/
theorem Accepts.sound {key : Entry ρ → Option String} {id : String} {same : Entry ρ → Prop}
    {admitted : Core ρ} {answer : Result Admission}
    (h : Accepts limits c key id same admitted c' answer) (hc : c.Sound limits)
    (hadmitted : (∀ sequence entry, c.registry.entries.lookup sequence = some entry →
      key entry ≠ some id) → c.registry.hasRoom limits c.sessions = true →
      admitted.Sound limits) : c'.Sound limits := by
  cases h with
  | joined | conflict | refused => exact hc
  | admitted hnew hroom => exact hadmitted hnew hroom

/-! ### Other changes -/

/-- Only the entries, their indexes and the sessions matter. -/
theorem Core.Sound.congr (h : c.Sound limits) (hentries : c'.registry.entries = c.registry.entries)
    (hhandles : c'.registry.handles = c.registry.handles)
    (hstarts : c'.registry.starts = c.registry.starts)
    (hruns : c'.registry.runs = c.registry.runs)
    (hnext : c'.registry.nextSequence = c.registry.nextSequence)
    (hsessions : c'.sessions = c.sessions) : c'.Sound limits where
  indexed := ⟨by rw [hentries, hhandles]; exact h.indexed.handles,
    by rw [hentries, hstarts]; exact h.indexed.starts,
    by rw [hentries, hruns]; exact h.indexed.runs⟩
  numbered := by rw [hentries, hnext]; exact h.numbered
  recorded := by rw [hentries, hsessions]; exact h.recorded
  finished := by rw [hsessions]; exact h.finished
  retained := by rw [hentries]; exact h.retained
  active := by rw [Registry.active, hentries, hsessions]; exact h.active

/-- Sessions that are finished stay finished. -/
theorem Core.Sound.modify (h : c.Sound limits) (sequence : ℕ) {f : Execution → Execution}
    (hvalid : ∀ x, c.sessions.lookup sequence = some x → (f x).Valid)
    (hfinished : ∀ x, c.sessions.lookup sequence = some x → x.session.state = .finished →
      (f x).session.state = .finished) :
    Core.Sound limits { c with sessions := c.sessions.modify sequence f } where
  indexed := h.indexed
  numbered := h.numbered
  recorded s hs := Table.mem_modify.mpr (h.recorded s hs)
  finished s x hx := by
    rcases eq_or_ne s sequence with rfl | hne
    · rw [Table.lookup_modify] at hx
      obtain ⟨x₀, hx₀, rfl⟩ := Option.map_eq_some_iff.mp hx
      exact hvalid x₀ hx₀
    · rw [Table.lookup_modify_of_ne hne] at hx
      exact h.finished s x hx
  retained := h.retained
  active := by
    refine le_trans ?_ h.active
    rw [Registry.active, Registry.active, Table.select, Table.select, List.length_map,
      List.length_map, ← List.countP_eq_length_filter, ← List.countP_eq_length_filter]
    refine List.countP_mono_left fun e _ hunfinished => ?_
    obtain ⟨x, hx, hstate⟩ := (Option.any_eq_true _ _).mp hunfinished
    rw [decide_eq_true_eq] at hstate
    rcases eq_or_ne e.1 sequence with heq | hne
    · rw [heq, Table.lookup_modify] at hx
      obtain ⟨x₀, hx₀, rfl⟩ := Option.map_eq_some_iff.mp hx
      rw [heq, hx₀]
      exact decide_eq_true fun hf => hstate (hfinished x₀ hx₀ hf)
    · rw [Table.lookup_modify_of_ne hne] at hx
      rw [hx]
      exact decide_eq_true hstate

/-- A task takes a step. Nothing is left to do for a session that is finished. -/
theorem Core.Sound.advance (h : c.Sound limits) {sequence : ℕ} {spawnFails : Bool}
    {es : List Event} (hs : c.advance sequence spawnFails = some (c', es)) :
    c'.Sound limits ∧ c'.registry = c.registry ∧ es = [] := by
  obtain ⟨x, x', hx, hadvance, rfl, rfl⟩ := Core.advance_cases hs
  have hvalid := h.finished sequence x hx
  refine ⟨h.modify sequence (fun y _ => hvalid.advance hadvance) fun y hy hfinished => ?_, rfl,
    rfl⟩
  obtain rfl : x = y := Option.some.inj (hx.symm.trans hy)
  rw [Execution.advance, hvalid hfinished] at hadvance
  cases hadvance

/-- A session is asked to stop. -/
theorem Core.Sound.terminate (h : c.Sound limits) (sequence grace : ℕ) (reason : StopReason) :
    Core.Sound limits { c with sessions := c.sessions.modify sequence fun x =>
      { x with session := x.session.terminate c.now grace reason } } := by
  refine h.modify sequence (fun x hx => (h.finished sequence x hx).terminate c.now grace reason)
    fun x hx hfinished => ?_
  rw [Session.terminate, if_neg fun hne => hne.1 hfinished]
  exact hfinished

/-! ### Every call -/

/-- A registry is the same, apart from expiry. -/
def Core.SameButExpiry (limits : Limits) (c c' : Core ρ) : Prop :=
  c'.registry = c.registry ∨ c'.registry = (c.cleanup limits).registry

/-- What a section does to the registry: it keeps the invariant when the handle that it drew is new,
enters no other handles, and changes nothing when it fails. -/
structure Core.Keeps (limits : Limits) (c : Core ρ) (drawn : Option Uuid) (c' : Core ρ)
    (es : List Event) : Prop where
  sound : (∀ g, drawn = some g → c.registry.handles.lookup g = none) → c'.Sound limits
  handles : ∀ g, g ∈ c'.registry.handles → g ∈ c.registry.handles ∨ drawn = some g
  failed : ∀ e, .failed e ∈ es → c.SameButExpiry limits c'

theorem Core.mem_handles_cleanup {g : Uuid} (h : g ∈ (c.cleanup limits).registry.handles) :
    g ∈ c.registry.handles :=
  ((Table.entries_eraseAll_sublist _ c.registry.handles).map Sigma.fst).subset h

theorem Core.lookup_handles_cleanup {g : Uuid} (h : c.registry.handles.lookup g = none) :
    (c.cleanup limits).registry.handles.lookup g = none :=
  AList.lookup_eq_none.mpr fun hmem => AList.lookup_eq_none.mp h (mem_handles_cleanup hmem)

/-- A section that leaves the registry as it is, apart from expiry. -/
theorem Core.Keeps.of_sameButExpiry {drawn : Option Uuid} {es : List Event}
    (hsound : c'.Sound limits) (h : c.SameButExpiry limits c') : c.Keeps limits drawn c' es := by
  refine ⟨fun _ => hsound, fun g hg => Or.inl ?_, fun _ _ => h⟩
  rcases h with h | h
  · exact h ▸ hg
  · exact Core.mem_handles_cleanup (h ▸ hg)

/-- A section that does not fail and leaves the handles as they are. -/
theorem Core.Keeps.of_succeeded {drawn : Option Uuid} {es : List Event}
    (hsound : c'.Sound limits) (h : c'.registry.handles = c.registry.handles)
    (hes : ∀ e, .failed e ∉ es) : c.Keeps limits drawn c' es :=
  ⟨fun _ => hsound, fun _ hg => Or.inl (h ▸ hg), fun e he => absurd he (hes e)⟩

theorem Accepts.keeps {key : Entry ρ → Option String} {id : String} {same : Entry ρ → Prop}
    {admitted : Core ρ} {answer : Result Admission} {handle : Uuid}
    (h : Accepts limits (c.cleanup limits) key id same admitted c' answer) (hc : c.Sound limits)
    (hadmitted : (∀ sequence entry, (c.cleanup limits).registry.entries.lookup sequence =
      some entry → key entry ≠ some id) →
      (c.cleanup limits).registry.hasRoom limits (c.cleanup limits).sessions = true →
      c.registry.handles.lookup handle = none → admitted.Sound limits)
    (hhandles : ∀ g, g ∈ admitted.registry.handles → g ∈ c.registry.handles ∨ g = handle) :
    c.Keeps limits (some handle) c' (failures answer) := by
  cases h with
  | joined | conflict | refused => exact .of_sameButExpiry (hc.cleanup limits) (Or.inr rfl)
  | admitted hnew hroom =>
    refine ⟨fun hfresh => hadmitted hnew hroom (hfresh handle rfl), fun g hg => ?_, fun e he => ?_⟩
    · exact (hhandles g hg).imp_right fun heq => by rw [heq]
    · exact absurd he List.not_mem_nil

/-! ### The sections of `terminate_run` -/

theorem Core.Sound.keeps_terminateRun (h : c.Sound limits) (call : ℕ) (runId : String)
    (grace : Option ℕ) : c.Keeps limits none (c.terminateRun limits call runId grace).1
      (c.terminateRun limits call runId grace).2 := by
  obtain ⟨error, heq⟩ | ⟨-, heq⟩ := c.terminateRun_cases limits call runId grace <;> rw [heq]
  · exact .of_sameButExpiry h (Or.inl rfl)
  · exact .of_sameButExpiry ((h.cleanup limits).congr rfl rfl rfl rfl rfl rfl) (Or.inr rfl)

theorem Core.Sound.keeps_recordPending (h : c.Sound limits) {call : ℕ} {es : List Event}
    (hs : c.recordPending limits call = some (c', es)) : c.Keeps limits none c' es := by
  obtain ⟨runId, grace, -, ⟨-, rfl, error, rfl⟩ | ⟨-, rfl, rfl⟩⟩ := Core.recordPending_cases hs
  · exact .of_sameButExpiry (h.congr rfl rfl rfl rfl rfl rfl) (Or.inl rfl)
  · exact .of_succeeded (h.congr rfl rfl rfl rfl rfl rfl) rfl (by simp)

theorem Core.Sound.keeps_inspect (h : c.Sound limits) {call : ℕ} {es : List Event}
    (hs : c.inspect call = some (c', es)) : c.Keeps limits none c' es := by
  obtain ⟨runId, grace, own, x, -, -, ⟨-, rfl, rfl⟩ | ⟨-, rfl, rfl⟩⟩ := Core.inspect_cases hs
  · exact .of_sameButExpiry (h.congr rfl rfl rfl rfl rfl rfl) (Or.inl rfl)
  · exact .of_sameButExpiry (h.congr rfl rfl rfl rfl rfl rfl) (Or.inl rfl)

theorem Core.Sound.keeps_stop (h : c.Sound limits) {call : ℕ} {es : List Event}
    (hs : c.stop call = some (c', es)) : c.Keeps limits none c' es := by
  obtain ⟨runId, grace, own, -, rfl, rfl⟩ := Core.stop_cases hs
  exact .of_sameButExpiry ((h.terminate _ _ _).congr rfl rfl rfl rfl rfl rfl) (Or.inl rfl)

/-! ### Looking for sessions -/

/-- The entries that the indexes name are there. -/
theorem Core.entryOf_eq {sequence : Option ℕ}
    (h : ∀ s, sequence = some s → ∃ entry, c.registry.entries.lookup s = some entry) :
    c.entryOf sequence = some sequence := by
  unfold Core.entryOf
  split
  · rfl
  · next s =>
    obtain ⟨entry, hentry⟩ := h s rfl
    rw [hentry]

theorem Core.Sound.findRun_eq (h : c.Sound limits) (runId : String) :
    c.findRun limits runId = some ((c.cleanup limits).registry.runs.lookup runId) :=
  Core.entryOf_eq fun s hs =>
    (((h.cleanup limits).indexed.runs runId s).mp hs).imp fun _ he => he.1

/-- Every execution that is retained is found by its handle, and no other. -/
theorem Core.Sound.session_eq (h : c.Sound limits) (generation : Uuid) (handle : ExecutionHandle) :
    c.session limits generation handle = some (
      if handle.generationId ≠ generation then
        (c, .error ⟨.generationMismatch, "execution belongs to another runtime generation"⟩)
      else (c.cleanup limits, match (c.cleanup limits).registry.handles.lookup handle.id with
        | none => .error ⟨.notFound, "execution was not found or its retention ended"⟩
        | some sequence => .ok sequence)) := by
  rw [Core.session, Core.checkGeneration]
  split_ifs with hgeneration
  · rfl
  · dsimp only
    rw [Core.entryOf_eq fun s hs =>
      (((h.cleanup limits).indexed.handles handle.id s).mp hs).imp fun _ he => he.1]
    cases (c.cleanup limits).registry.handles.lookup handle.id <;> rfl

theorem Core.Sound.keeps_session (h : c.Sound limits) {generation : Uuid}
    {handle : ExecutionHandle} {answer : Result ℕ}
    (hs : c.session limits generation handle = some (c', answer)) :
    c.Keeps limits none c' (failures answer) := by
  rw [h.session_eq] at hs
  split_ifs at hs
  · obtain ⟨rfl, rfl⟩ := Prod.mk.inj (Option.some.inj hs)
    exact .of_sameButExpiry h (Or.inl rfl)
  · obtain ⟨rfl, -⟩ := Prod.mk.inj (Option.some.inj hs)
    exact .of_sameButExpiry (h.cleanup limits) (Or.inr rfl)

theorem Core.Sound.keeps_listExecutions (h : c.Sound limits) (generation : Uuid)
    (labels : ρ → StringMap) (request : ListRequest) :
    c.Keeps limits none (c.listExecutions limits generation labels request).1
      (failures (c.listExecutions limits generation labels request).2) := by
  have hclean (answer : Result Page) :
      c.Keeps limits none (c.cleanup limits) (failures answer) :=
    .of_sameButExpiry (h.cleanup limits) (Or.inr rfl)
  unfold Core.listExecutions
  by_cases hlimit : request.limit = 0
  · rw [if_pos hlimit]
    exact .of_sameButExpiry h (Or.inl rfl)
  · rw [if_neg hlimit]
    dsimp only
    split
    · exact hclean _
    · split
      · exact hclean _
      · exact hclean _

section Step

variable [DecidableEq ρ]

theorem Core.Sound.keeps_startExecution (h : c.Sound limits) (request : StartRequest ρ)
    (handle : Uuid) : c.Keeps limits (some handle) (c.startExecution limits request handle).1
      (c.startExecution limits request handle).2 := by
  obtain ⟨c', answer, -, heq, haccepts⟩ := h.acceptStart request handle
  have hclean := h.cleanup limits
  rw [heq]
  refine haccepts.keeps h (fun hnew hroom hhandle => ?_) fun g hg => ?_
  · exact hclean.admitStart hroom (Core.lookup_handles_cleanup hhandle)
      (hclean.indexed.starts.eq_none_iff.mpr hnew)
  · exact ((AList.mem_insert _).mp hg).symm.imp_left Core.mem_handles_cleanup

theorem Core.Sound.keeps_runExecution (h : c.Sound limits) (request : RunRequest ρ)
    (handle : Uuid) (spoolError : Option String) :
    c.Keeps limits (some handle) (c.runExecution limits request handle spoolError).1
      (c.runExecution limits request handle spoolError).2 := by
  obtain ⟨c', answer, -, heq, haccepts⟩ := h.acceptRun request handle spoolError
  have hclean := h.cleanup limits
  rw [heq]
  refine haccepts.keeps h (fun hnew hroom hhandle => ?_) fun g hg => ?_
  · exact hclean.admitRun hroom (Core.lookup_handles_cleanup hhandle)
      (hclean.indexed.runs.eq_none_iff.mpr hnew)
  · exact ((AList.mem_insert _).mp hg).symm.imp_left Core.mem_handles_cleanup

/-- Every section of the runtime keeps the registry sound. -/
theorem Core.Sound.keeps_action (h : c.Sound limits) {a : Action ρ} {es : List Event}
    (hs : Core.step limits c a = some (c', es)) :
    c.Keeps limits (Call.action a).handle c' es := by
  cases a with
  | startExecution request handle =>
    have hkeeps := h.keeps_startExecution request handle
    rwa [show c.startExecution limits request handle = (c', es) from Option.some.inj hs] at hkeeps
  | runExecution request handle spoolError =>
    have hkeeps := h.keeps_runExecution request handle spoolError
    rwa [show c.runExecution limits request handle spoolError = (c', es) from
      Option.some.inj hs] at hkeeps
  | terminateRun call runId grace =>
    have hkeeps := h.keeps_terminateRun call runId grace
    rw [Core.step] at hs
    split_ifs at hs
    rwa [show c.terminateRun limits call runId grace = (c', es) from Option.some.inj hs] at hkeeps
  | recordPending call => exact h.keeps_recordPending hs
  | inspect call => exact h.keeps_inspect hs
  | stop call => exact h.keeps_stop hs
  | terminate sequence grace reason =>
    obtain ⟨rfl, rfl⟩ := Prod.mk.inj (Option.some.inj hs)
    exact .of_sameButExpiry (h.terminate sequence grace reason) (Or.inl rfl)
  | advance sequence spawnFails =>
    obtain ⟨hsound, hregistry, -⟩ := h.advance hs
    exact .of_sameButExpiry hsound (Or.inl hregistry)
  | cleanup =>
    obtain ⟨rfl, rfl⟩ := Prod.mk.inj (Option.some.inj hs)
    exact .of_sameButExpiry (h.cleanup limits) (Or.inr rfl)
  | shutdown =>
    obtain ⟨rfl, rfl⟩ := Prod.mk.inj (Option.some.inj hs)
    exact .of_succeeded (h.congr rfl rfl rfl rfl rfl rfl) rfl (by simp)
  | wait time =>
    obtain ⟨rfl, rfl⟩ := Prod.mk.inj (Option.some.inj hs)
    exact .of_sameButExpiry (h.congr rfl rfl rfl rfl rfl rfl) (Or.inl rfl)

variable {generation : Uuid} {labels : ρ → StringMap}

/-- Every call keeps the registry sound. -/
theorem Core.Sound.keeps_step (h : c.Sound limits) {call : Call ρ} {es : List Event}
    (hs : (callSystem limits generation labels).step c call = some (c', es)) :
    c.Keeps limits call.handle c' es := by
  cases call with
  | action a => exact h.keeps_action hs
  | session handle =>
    obtain ⟨a, ha, heq⟩ := Option.map_eq_some_iff.mp hs
    obtain ⟨rfl, rfl⟩ := Prod.mk.inj heq
    exact h.keeps_session ha
  | listExecutions request =>
    obtain ⟨rfl, rfl⟩ := Prod.mk.inj (Option.some.inj hs)
    exact h.keeps_listExecutions generation labels request

/-! ### Runs -/

/-- The handles that are not drawn yet are not in the registry. -/
theorem Core.Sound.exec {calls : List (Call ρ)} {log : List Event} (h : c.Sound limits)
    (hfresh : ∀ g ∈ calls.filterMap Call.handle, g ∉ c.registry.handles)
    (hnodup : (calls.filterMap Call.handle).Nodup)
    (hexec : (callSystem limits generation labels).exec c calls = some (c', log)) :
    c'.Sound limits := by
  induction calls generalizing c log with
  | nil =>
    obtain ⟨rfl, -⟩ := Prod.mk.inj (Option.some.inj hexec)
    exact h
  | cons call calls ih =>
    rw [System.exec] at hexec
    split at hexec
    · cases hexec
    · next c₁ es hstep =>
      obtain ⟨⟨c₂, log₂⟩, hrest, heq⟩ := Option.map_eq_some_iff.mp hexec
      obtain ⟨rfl, -⟩ := Prod.mk.inj heq
      have hkeeps := h.keeps_step hstep
      have hdrawn : ∀ g, call.handle = some g → g ∈ (call :: calls).filterMap Call.handle :=
        fun g hg => List.mem_filterMap.mpr ⟨call, List.mem_cons_self, hg⟩
      have hrestFresh : ∀ g ∈ calls.filterMap Call.handle, g ∉ c₁.registry.handles := by
        intro g hg hmem
        rcases hkeeps.handles g hmem with hold | hnew
        · refine hfresh g ?_ hold
          obtain ⟨call', hcall', hg'⟩ := List.mem_filterMap.mp hg
          exact List.mem_filterMap.mpr ⟨call', List.mem_cons_of_mem _ hcall', hg'⟩
        · rw [List.filterMap_cons_some hnew] at hnodup
          exact (List.nodup_cons.mp hnodup).1 hg
      refine ih (hkeeps.sound fun g hg => ?_) hrestFresh ?_ hrest
      · exact AList.lookup_eq_none.mpr (hfresh g (hdrawn g hg))
      · exact hnodup.sublist ((List.sublist_cons_self call calls).filterMap _)

/-- What the calls answer when they look for a session: they find the entry that an index names; a
call with the identity of an entry joins it when it has the same request, and conflicts with it
otherwise. -/
structure Core.Answers (limits : Limits) (generation : Uuid) (c : Core ρ) : Prop where
  start (request : StartRequest ρ) (handle : Uuid) : ∃ c' answer,
    c.acceptStart limits request handle = some (c', answer) ∧
    c.startExecution limits request handle = (c', failures answer)
  joinsStart (request : StartRequest ρ) (handle : Uuid) (sequence : ℕ) (entry : Entry ρ)
    (hentry : (c.cleanup limits).registry.entries.lookup sequence = some entry)
    (hid : entry.startId = some request.startId) :
    c.acceptStart limits request handle = some (c.cleanup limits,
      if entry.startRequest = some request then .ok ⟨sequence, true⟩
      else .error ⟨.idempotencyConflict, "start_id was used for different arguments"⟩)
  run (request : RunRequest ρ) (handle : Uuid) (spoolError : Option String) : ∃ c' answer,
    c.acceptRun limits request handle spoolError = some (c', answer) ∧
    c.runExecution limits request handle spoolError = (c', failures answer)
  joinsRun (request : RunRequest ρ) (handle : Uuid) (spoolError : Option String) (sequence : ℕ)
    (entry : Entry ρ)
    (hentry : (c.cleanup limits).registry.entries.lookup sequence = some entry)
    (hid : entry.runId = some request.runId) :
    c.acceptRun limits request handle spoolError = some (c.cleanup limits,
      if entry.runRequest = some request then .ok ⟨sequence, true⟩
      else .error ⟨.idempotencyConflict, "run_id was used for different arguments"⟩)
  findsRun (runId : String) : (c.findRun limits runId).isSome
  findsSession (handle : ExecutionHandle) : (c.session limits generation handle).isSome

theorem Core.Sound.answers (h : c.Sound limits) (generation : Uuid) :
    c.Answers limits generation where
  start request handle := by
    obtain ⟨c', answer, haccept, heq, -⟩ := h.acceptStart request handle
    exact ⟨c', answer, haccept, heq⟩
  joinsStart request handle sequence entry hentry hid := by
    have hindex : (c.cleanup limits).registry.starts.lookup request.startId = some sequence :=
      ((h.cleanup limits).indexed.starts _ _).mpr ⟨entry, hentry, hid⟩
    unfold Core.acceptStart
    dsimp only
    rw [hindex]
    dsimp only
    rw [hentry]
    dsimp only
    split_ifs <;> rfl
  run request handle spoolError := by
    obtain ⟨c', answer, haccept, heq, -⟩ := h.acceptRun request handle spoolError
    exact ⟨c', answer, haccept, heq⟩
  joinsRun request handle spoolError sequence entry hentry hid := by
    have hindex : (c.cleanup limits).registry.runs.lookup request.runId = some sequence :=
      ((h.cleanup limits).indexed.runs _ _).mpr ⟨entry, hentry, hid⟩
    unfold Core.acceptRun
    dsimp only
    rw [hindex]
    dsimp only
    rw [hentry]
    dsimp only
    split_ifs <;> rfl
  findsRun runId := by
    rw [h.findRun_eq]
    rfl
  findsSession handle := by
    rw [h.session_eq]
    rfl

/-- **The execution registry.** In every state that a runtime reaches, whatever calls are made and
however their sections and the steps of sessions come, when no handle is drawn twice: the indexes
name exactly the entries with their keys, there are not too many entries nor too many that are not
finished, no two entries have the same identity, calls find the entries that they look for and join
or conflict with those of their identity, and a section that fails changes nothing but what
expired. -/
theorem registry_sound {calls : List (Call ρ)} {log : List Event}
    (hfresh : (calls.filterMap Call.handle).Nodup)
    (hexec : (callSystem limits generation labels).exec Core.init calls = some (c, log)) :
    c.registry.Indexed ∧
    (∀ sequence sequence' entry entry',
      c.registry.entries.lookup sequence = some entry →
      c.registry.entries.lookup sequence' = some entry' →
      (∃ id, entry.startId = some id ∧ entry'.startId = some id) ∨
        (∃ id, entry.runId = some id ∧ entry'.runId = some id) →
      sequence = sequence') ∧
    c.Answers limits generation ∧
    (∀ call c' es e, (callSystem limits generation labels).step c call = some (c', es) →
      .failed e ∈ es → c.SameButExpiry limits c') ∧
    (∀ sequence ∈ c.registry.entries, sequence ∈ c.sessions) ∧
    c.registry.entries.entries.length ≤ limits.maxRetainedExecutions ∧
    c.registry.active c.sessions ≤ limits.maxActiveExecutions := by
  have hsound : c.Sound limits :=
    (Core.sound_init limits).exec (fun g _ => AList.notMem_empty g) hfresh hexec
  refine ⟨hsound.indexed, fun sequence sequence' entry entry' hentry hentry' hid => ?_,
    hsound.answers generation, fun call c' es e hstep he => (hsound.keeps_step hstep).failed e he,
    hsound.recorded, hsound.retained, hsound.active⟩
  rcases hid with ⟨id, hid, hid'⟩ | ⟨id, hid, hid'⟩
  · exact hsound.indexed.starts.unique hentry hentry' hid hid'
  · exact hsound.indexed.runs.unique hentry hentry' hid hid'

end Step

/-- An identity that is used again after its first execution has expired: the registry finds the
second execution. -/
theorem registry_sound_reused :
    ∃ c : Core Unit, c.registry.starts.lookup "s" = some 2 ∧ c.registry.Indexed ∧
      c.acceptStart someLimits ⟨"s", ()⟩ (.numbered 3) =
        some (c.cleanup someLimits, .ok ⟨2, true⟩) := by
  have hexec : ∃ c log, (callSystem someLimits (.numbered 0) fun _ => .empty).exec
      (Core.init : Core Unit) [.action (.startExecution ⟨"s", ()⟩ (.numbered 1)),
        .action (.advance 1 true), .action (.wait 2),
        .action (.startExecution ⟨"s", ()⟩ (.numbered 2)),
        .session ⟨.numbered 2, .numbered 0⟩] = some (c, log) ∧
      c.registry.starts.lookup "s" = some 2 ∧
      (c.cleanup someLimits).registry.entries.lookup 2 =
        some ⟨.numbered 2, some ⟨"s", ()⟩, none⟩ := ⟨_, _, rfl, rfl, rfl⟩
  obtain ⟨c, log, hexec, hstart, hentry⟩ := hexec
  have hsound := registry_sound (by decide) hexec
  exact ⟨c, hstart, hsound.1, hsound.2.2.1.joinsStart ⟨"s", ()⟩ (.numbered 3) 2 _ hentry rfl⟩

end ExecutionProvider.Runtime
