import Mathlib.Order.Interval.Set.Basic
import ExecutionProvider.Foundation.Paging
import ExecutionProvider.Runtime.Calls

/-!
# Executions by pages

A client reads the list of executions page by page, and asks for each page with the cursor that the
page before it came with. Between two pages, executions are started, change their state and expire.

## Main definitions

* `Core.Lists`: the executions that are on a list.
* `Pages`: the pages of a list, each with the state of the runtime in which it was made.

## Main results

* `Core.listExecutions_eq_ok`: what is on a page.
* `listing_sound`: what the pages of a list have in common with the list.
-/

namespace ExecutionProvider.Runtime

variable {ρ : Type} {limits : Limits} {generation : Uuid} {labels : ρ → StringMap}
  {c c' : Core ρ} {request : ListRequest} {page : Page}

/-! ### Numbers -/

/-- Numbers are given out in order: what is new in the registry has a number that was given out
since. -/
structure Core.Grows (c c' : Core ρ) : Prop where
  nextSequence : c.registry.nextSequence ≤ c'.registry.nextSequence
  entries : ∀ s ∈ c'.registry.entries, s ∈ c.registry.entries ∨
    c.registry.nextSequence ≤ s ∧ s < c'.registry.nextSequence

/-- The numbers in the registry were given out. -/
structure Core.Numbered (c : Core ρ) : Prop where
  pos : 0 < c.registry.nextSequence
  entries : ∀ s ∈ c.registry.entries, 0 < s ∧ s < c.registry.nextSequence

namespace Core.Grows

theorem of_registry (h : c'.registry.entries = c.registry.entries)
    (hnext : c'.registry.nextSequence = c.registry.nextSequence) : c.Grows c' :=
  ⟨hnext.ge, fun _ hs => Or.inl (h ▸ hs)⟩

protected theorem trans {c'' : Core ρ} (h : c.Grows c') (h' : c'.Grows c'') : c.Grows c'' := by
  refine ⟨h.nextSequence.trans h'.nextSequence, fun s hs => ?_⟩
  rcases h'.entries s hs with hold | hnew
  · exact (h.entries s hold).imp_right fun hs => ⟨hs.1, hs.2.trans_le h'.nextSequence⟩
  · exact Or.inr ⟨h.nextSequence.trans hnew.1, hnew.2⟩

theorem cleanup (c : Core ρ) : c.Grows (c.cleanup limits) :=
  ⟨le_rfl, fun _ hs => Or.inl (Registry.mem_of_mem_cleanup hs)⟩

theorem record (c : Core ρ) (entry : Entry ρ) (phase : Phase) : c.Grows (c.record entry phase) := by
  refine ⟨Nat.le_succ _, fun s hs => ?_⟩
  rcases (AList.mem_insert _).mp hs with rfl | hold
  · exact Or.inr ⟨le_rfl, Nat.lt_succ_self _⟩
  · exact Or.inl hold

theorem of_answer {answer : Core ρ × List Event} {es : List Event} (hgrows : c.Grows answer.1)
    (h : some answer = some (c', es)) : c.Grows c' := by
  obtain rfl := Option.some.inj h
  exact hgrows

theorem admitRun (c : Core ρ) (request : RunRequest ρ) (handle : Uuid) :
    c.Grows (c.admitRun request handle) :=
  (Grows.record c ⟨handle, none, some request⟩ (if
    (c.registry.pendingRunTerminations.lookup request.runId).isSome then .cancelled
      else .spawning)).trans (.of_registry rfl rfl)

theorem numbered (h : c.Grows c') (hc : c.Numbered) : c'.Numbered := by
  refine ⟨hc.pos.trans_le h.nextSequence, fun s hs => ?_⟩
  rcases h.entries s hs with hold | hnew
  · exact (hc.entries s hold).imp_right fun hlt => hlt.trans_le h.nextSequence
  · exact ⟨hc.pos.trans_le hnew.1, hnew.2⟩

theorem listExecutions (c : Core ρ) (request : ListRequest) :
    c.Grows (c.listExecutions limits generation labels request).1 := by
  unfold Core.listExecutions
  dsimp only
  split_ifs
  · exact .of_registry rfl rfl
  · split
    · exact .cleanup c
    · split_ifs <;> exact .cleanup c

theorem session {handle : ExecutionHandle} {answer : Core ρ × Result ℕ}
    (h : c.session limits generation handle = some answer) : c.Grows answer.1 := by
  unfold Core.session at h
  split at h
  · obtain rfl := Option.some.inj h
    exact .of_registry rfl rfl
  · dsimp only at h
    split at h
    · cases h
    · obtain rfl := Option.some.inj h
      exact .cleanup c
    · obtain rfl := Option.some.inj h
      exact .cleanup c

theorem terminateRun (c : Core ρ) (call : ℕ) (runId : String) (grace : Option ℕ) :
    c.Grows (c.terminateRun limits call runId grace).1 := by
  obtain ⟨error, heq⟩ | ⟨-, heq⟩ := c.terminateRun_cases limits call runId grace <;> rw [heq]
  · exact .of_registry rfl rfl
  · exact (Grows.cleanup c).trans (.of_registry rfl rfl)

theorem recordPending {call : ℕ} {es : List Event}
    (h : c.recordPending limits call = some (c', es)) : c.Grows c' := by
  obtain ⟨runId, grace, -, ⟨-, rfl, -⟩ | ⟨-, rfl, -⟩⟩ := Core.recordPending_cases h
  · exact .of_registry rfl rfl
  · exact .of_registry rfl rfl

theorem inspect {call : ℕ} {es : List Event} (h : c.inspect call = some (c', es)) :
    c.Grows c' := by
  obtain ⟨runId, grace, own, x, -, -, ⟨-, rfl, -⟩ | ⟨-, rfl, -⟩⟩ := Core.inspect_cases h
  · exact .of_registry rfl rfl
  · exact .of_registry rfl rfl

section Step

variable [DecidableEq ρ]

theorem startExecution (c : Core ρ) (request : StartRequest ρ) (handle : Uuid) :
    c.Grows (c.startExecution limits request handle).1 := by
  obtain ⟨es, -, heq⟩ | ⟨-, -, heq⟩ := c.startExecution_cases limits request handle <;> rw [heq]
  · exact .cleanup c
  · exact (Grows.cleanup c).trans
      ((Grows.record _ ⟨handle, some request, none⟩ .spawning).trans (.of_registry rfl rfl))

theorem runExecution (c : Core ρ) (request : RunRequest ρ) (handle : Uuid)
    (spoolError : Option String) : c.Grows (c.runExecution limits request handle spoolError).1 := by
  obtain ⟨-, es, -, heq⟩ | ⟨-, heq⟩ := c.runExecution_cases limits request handle spoolError <;>
    rw [heq]
  · exact .cleanup c
  · exact (Grows.cleanup c).trans (.admitRun _ request handle)

/-- What a section of the runtime does to the numbers. -/
theorem action {a : Action ρ} {es : List Event} (h : Core.step limits c a = some (c', es)) :
    c.Grows c' := by
  cases a with
  | startExecution request handle => exact .of_answer (startExecution c request handle) h
  | runExecution request handle spoolError =>
    exact .of_answer (runExecution c request handle spoolError) h
  | terminateRun call runId grace =>
    rw [Core.step] at h
    split_ifs at h
    exact .of_answer (terminateRun c call runId grace) h
  | recordPending call => exact recordPending h
  | inspect call => exact inspect h
  | stop call =>
    obtain ⟨runId, grace, own, -, rfl, -⟩ := Core.stop_cases h
    exact .of_registry rfl rfl
  | advance sequence spawnFails =>
    obtain ⟨x, x', -, -, rfl, -⟩ := Core.advance_cases h
    exact .of_registry rfl rfl
  | cleanup => exact .of_answer (.cleanup c) h
  | terminate | shutdown | wait => exact .of_answer (.of_registry rfl rfl) h

/-- What a step of the runtime does to the numbers. -/
theorem step {call : Call ρ} {es : List Event}
    (h : (callSystem limits generation labels).step c call = some (c', es)) : c.Grows c' := by
  cases call with
  | action a => exact action h
  | session handle =>
    obtain ⟨answer, hanswer, heq⟩ := Option.map_eq_some_iff.mp h
    exact .of_answer (session hanswer) (congrArg some heq)
  | listExecutions request => exact .of_answer (listExecutions c request) h

theorem path {log : List Event}
    (h : (callSystem limits generation labels).Path c log c') : c.Grows c' :=
  h.preserves (I := fun c' => c.Grows c') (fun hgrows hstep => hgrows.trans (step hstep))
    (.of_registry rfl rfl)

end Step

end Core.Grows

theorem Core.numbered_init : (Core.init : Core ρ).Numbered :=
  ⟨Nat.one_pos, fun _ hs => absurd hs (AList.notMem_empty _)⟩

theorem Core.Numbered.of_reachable [DecidableEq ρ]
    (h : (callSystem limits generation labels).Reachable c) : c.Numbered := by
  refine h.invariant (I := Core.Numbered) (fun s hs => ?_) fun _ hI hstep =>
    (Core.Grows.step hstep).numbered hI
  rw [show s = Core.init from hs]
  exact Core.numbered_init

/-! ### Pages -/

/-- An execution is retained, and is one of those that a list asks for. -/
def Core.Lists (limits : Limits) (labels : ρ → StringMap) (c : Core ρ) (state : StateFilter)
    (wanted : StringMap) (sequence : ℕ) : Prop :=
  ∃ entry, (c.cleanup limits).registry.entries.lookup sequence = some entry ∧
    c.matchesRequest labels ⟨state, wanted, 0, none⟩ sequence entry = true

/-- A page has as many executions as fit on it. -/
theorem takePage_eq (limit : ℕ) (executions numbers : List ℕ) (h : executions.length ≤ limit) :
    Core.takePage limit executions numbers =
      (executions ++ numbers.take (limit - executions.length),
        decide (limit < executions.length + numbers.length)) := by
  induction numbers generalizing executions with
  | nil =>
    rw [Core.takePage, List.take_nil, List.append_nil, List.length_nil, Nat.add_zero,
      decide_eq_false (Nat.not_lt.mpr h)]
  | cons sequence rest ih =>
    rw [Core.takePage]
    split_ifs with hfull
    · rw [hfull, Nat.sub_self, List.take_zero, List.append_nil, List.length_cons]
      rw [decide_eq_true (by omega)]
    · have hlt : executions.length < limit := lt_of_le_of_ne h hfull
      rw [ih _ (by rw [List.length_append, List.length_singleton]; exact hlt), List.length_append,
        List.length_singleton, List.append_assoc]
      obtain ⟨room, hroom⟩ := Nat.exists_eq_add_of_lt hlt
      rw [show limit - executions.length = room + 1 by omega,
        show limit - (executions.length + 1) = room by omega, List.take_succ_cons,
        List.singleton_append, List.length_cons, Nat.add_assoc, Nat.add_comm 1]

/-- **What is on a page.** The list behind the cursor has, in order, the executions that were asked
for; the page has the first of them, and a cursor when there are more. -/
theorem Core.listExecutions_eq_ok
    (h : (c.listExecutions limits generation labels request).2 = .ok page) :
    0 < request.limit ∧ ∃ (after through : ℕ) (l : List ℕ),
      (c.cleanup limits).pageRange generation request = .ok (after, through) ∧
      through < c.registry.nextSequence ∧ l.Pairwise (· < ·) ∧
      (∀ s, s ∈ l ↔
        after < s ∧ s ≤ through ∧ c.Lists limits labels request.state request.labels s) ∧
      page.executions = l.take request.limit ∧
      page.nextPageCursor = if request.limit < l.length then
        some ⟨generation, .ofNat ((l.take request.limit).getLast?.getD after), .ofNat through,
          request.state, request.labels⟩ else none := by
  unfold Core.listExecutions at h
  split at h
  · cases h
  next hlimit =>
  dsimp only at h
  split at h
  · cases h
  next after through hrange =>
  split at h
  · cases h
  next hahead =>
  rw [takePage_eq _ _ _ (Nat.zero_le _), List.nil_append, List.length_nil, Nat.sub_zero,
    Nat.zero_add] at h
  obtain rfl := Except.ok.inj h
  refine ⟨Nat.pos_of_ne_zero hlimit, after, through, _, hrange, ?_, ?_, fun s => ?_, rfl, ?_⟩
  · exact Nat.lt_of_not_le fun hle => hahead (Or.inr hle)
  · have hnodup := ((List.perm_insertionSort (· ≤ ·) _).nodup_iff).mpr
      (Table.nodup_map_fst_select (fun sequence entry => after < sequence && sequence ≤ through &&
        (c.cleanup limits).matchesRequest labels request sequence entry)
        (c.cleanup limits).registry.entries)
    exact ((List.pairwise_insertionSort (· ≤ ·) _).and hnodup).imp fun h => lt_of_le_of_ne h.1 h.2
  · rw [List.mem_insertionSort, List.mem_map]
    constructor
    · rintro ⟨⟨s, entry⟩, hmem, rfl⟩
      obtain ⟨hentry, hcond⟩ := Table.mem_select_iff.mp hmem
      rw [Bool.and_eq_true, Bool.and_eq_true, decide_eq_true_eq, decide_eq_true_eq] at hcond
      exact ⟨hcond.1.1, hcond.1.2, entry, hentry, hcond.2⟩
    · rintro ⟨hafter, hthrough, entry, hentry, hmatches⟩
      refine ⟨(s, entry), Table.mem_select_iff.mpr ⟨hentry, ?_⟩, rfl⟩
      rw [Bool.and_eq_true, Bool.and_eq_true, decide_eq_true_eq, decide_eq_true_eq]
      exact ⟨⟨hafter, hthrough⟩, hmatches⟩
  · exact if_congr decide_eq_true_iff rfl rfl

/-- A page is made of every list that a cursor fits. -/
theorem Core.listExecutions_isOk {after through : ℕ} (hlimit : 0 < request.limit)
    (hrange : (c.cleanup limits).pageRange generation request = .ok (after, through))
    (hle : after ≤ through) (hthrough : through < c.registry.nextSequence) :
    ∃ page, (c.listExecutions limits generation labels request).2 = .ok page := by
  have hin : ¬(through < after ∨ (c.cleanup limits).registry.nextSequence ≤ through) :=
    not_or.mpr ⟨Nat.not_lt.mpr hle, Nat.not_le.mpr hthrough⟩
  unfold Core.listExecutions
  rw [if_neg hlimit.ne']
  dsimp only
  rw [hrange]
  dsimp only
  rw [if_neg hin]
  exact ⟨_, rfl⟩

/-! ### Cursors -/

/-- The cursor of the next page has the last number of this one, and the bound of the list. -/
theorem Core.pageRange_next {state : StateFilter} {wanted : StringMap} {limit position through : ℕ}
    (hposition : position < 2 ^ 64) (hthrough : through < 2 ^ 64) :
    c.pageRange generation ⟨state, wanted, limit,
      some ⟨generation, .ofNat position, .ofNat through, state, wanted⟩⟩ =
      .ok (position, through) := by
  unfold Core.pageRange
  dsimp only
  rw [Core.checkGeneration, if_neg (not_not.mpr rfl)]
  dsimp only
  rw [if_neg (by simp), UInt64.toNat_ofNat_of_lt' hposition, UInt64.toNat_ofNat_of_lt' hthrough]

/-- A page is the rest of the list, or its beginning with a cursor behind it. -/
theorem Core.listExecutions_split {after through : ℕ}
    (h : (c.listExecutions limits generation labels request).2 = .ok page)
    (hrange : (c.cleanup limits).pageRange generation request = .ok (after, through)) :
    through < c.registry.nextSequence ∧ ∃ l : List ℕ, l.Pairwise (· < ·) ∧
      (∀ s, s ∈ l ↔
        after < s ∧ s ≤ through ∧ c.Lists limits labels request.state request.labels s) ∧
      ((page.executions = l ∧ page.nextPageCursor = none) ∨
        ∃ position, (l.take request.limit).getLast? = some position ∧ position ≤ through ∧
          page.executions = l.take request.limit ∧
          page.nextPageCursor = some ⟨generation, .ofNat position, .ofNat through, request.state,
            request.labels⟩) := by
  obtain ⟨hlimit, after', through', l, hrange', hthrough, hsorted, hmem, hpage, hnext⟩ :=
    listExecutions_eq_ok h
  obtain ⟨rfl, rfl⟩ := Prod.mk.inj (Except.ok.inj (hrange.symm.trans hrange'))
  refine ⟨hthrough, l, hsorted, hmem, ?_⟩
  split_ifs at hnext with hmore
  · have hne : l.take request.limit ≠ [] := by
      rw [Ne, List.take_eq_nil_iff]
      rintro (hzero | rfl)
      · omega
      · exact Nat.not_lt_zero _ hmore
    have hlast := List.getLast?_eq_some_getLast hne
    refine Or.inr ⟨_, hlast, ?_, hpage, ?_⟩
    · exact ((hmem _).mp (List.mem_of_mem_take (List.getLast_mem hne))).2.1
    · rw [hnext, hlast, Option.getD_some]
  · exact Or.inl ⟨hpage.trans (List.take_of_length_le (Nat.not_lt.mp hmore)), hnext⟩

/-! ### Following the cursors -/

section Follow

variable [DecidableEq ρ] {state : StateFilter} {wanted : StringMap} {cursor : Option PageCursor}
  {pages : List (Core ρ × Page)} {after through : ℕ}

/-- The pages of a list from a cursor on, each with the state in which it was made. Between two
pages, the runtime takes any steps. -/
inductive Pages (limits : Limits) (generation : Uuid) (labels : ρ → StringMap)
    (state : StateFilter) (wanted : StringMap) :
    Core ρ → Option PageCursor → List (Core ρ × Page) → Prop
  | last {c : Core ρ} {cursor : Option PageCursor} {limit : ℕ} {page : Page}
      (hpage : (c.listExecutions limits generation labels ⟨state, wanted, limit, cursor⟩).2 =
        .ok page) : Pages limits generation labels state wanted c cursor [(c, page)]
  | next {c c' : Core ρ} {cursor : Option PageCursor} {next : PageCursor} {limit : ℕ} {page : Page}
      {log : List Event} {rest : List (Core ρ × Page)}
      (hpage : (c.listExecutions limits generation labels ⟨state, wanted, limit, cursor⟩).2 =
        .ok page)
      (hnext : page.nextPageCursor = some next)
      (hsteps : (callSystem limits generation labels).Path
        (c.listExecutions limits generation labels ⟨state, wanted, limit, cursor⟩).1 log c')
      (hrest : Pages limits generation labels state wanted c' (some next) rest) :
      Pages limits generation labels state wanted c cursor ((c, page) :: rest)

/-- Whether the last of the pages has no cursor. -/
def ended (pages : List (Core ρ × Page)) : Bool :=
  pages.getLast?.any fun p => p.2.nextPageCursor.isNone

/-- The pages are those of a list that changes. -/
theorem Pages.listing (h : Pages limits generation labels state wanted c cursor pages)
    (hrange : ∀ limit, (c.cleanup limits).pageRange generation ⟨state, wanted, limit, cursor⟩ =
      .ok (after, through)) (hword : through < 2 ^ 64) :
    Listing (some after) (pages.map fun p =>
      ({s | s ≤ through ∧ p.1.Lists limits labels state wanted s}, p.2.executions))
      (ended pages) := by
  have hbehind {l : List ℕ} {c : Core ρ} {after : ℕ} (hmem : ∀ s, s ∈ l ↔
      after < s ∧ s ≤ through ∧ c.Lists limits labels state wanted s) (s : ℕ) :
      s ∈ l ↔ s ∈ {s | s ≤ through ∧ c.Lists limits labels state wanted s} ∧
        ∀ a ∈ some after, a < s := by
    rw [hmem, Set.mem_ofPred_eq, and_comm]
    exact and_congr_right fun _ => ⟨fun hlt a ha => Option.some.inj ha ▸ hlt, fun h => h after rfl⟩
  induction h generalizing after with
  | @last c cursor limit page hpage =>
    obtain ⟨-, l, hsorted, hmem, hcases⟩ := Core.listExecutions_split hpage (hrange limit)
    rcases hcases with ⟨hall, hend⟩ | ⟨position, hposition, -, htake, hnext⟩
    · rw [show ended [(c, page)] = true from congrArg Option.isNone hend, List.map_singleton,
        hall]
      exact .last hsorted (hbehind hmem)
    · rw [show ended [(c, page)] = false from congrArg Option.isNone hnext, List.map_singleton,
        htake]
      exact .next hsorted (hbehind hmem) hposition (.stopped _)
  | @next c c' cursor next limit page log rest hpage hnext _ hrest ih =>
    obtain ⟨-, l, hsorted, hmem, hcases⟩ := Core.listExecutions_split hpage (hrange limit)
    rcases hcases with ⟨-, hend⟩ | ⟨position, hposition, hle, htake, hnext'⟩
    · cases hend.symm.trans hnext
    · have hended : ended ((c, page) :: rest) = ended rest := by
        cases hrest <;> rfl
      obtain rfl := Option.some.inj (hnext.symm.trans hnext')
      rw [hended, List.map_cons, htake]
      exact .next hsorted (hbehind hmem) hposition
        (ih fun _ => Core.pageRange_next (hle.trans_lt hword) hword)

/-- A page with a cursor has executions, and the cursor leads to another page, whatever steps the
runtime takes before. -/
theorem Core.listExecutions_continues {limit : ℕ} {next : PageCursor}
    (hpage : (c.listExecutions limits generation labels ⟨state, wanted, limit, cursor⟩).2 =
      .ok page)
    (hrange : (c.cleanup limits).pageRange generation ⟨state, wanted, limit, cursor⟩ =
      .ok (after, through))
    (hword : through < 2 ^ 64) (hnext : page.nextPageCursor = some next) :
    page.executions ≠ [] ∧ ∃ position ≤ through,
      (∀ (c' : Core ρ) limit, c'.pageRange generation ⟨state, wanted, limit, some next⟩ =
        .ok (position, through)) ∧
      ∀ log c' limit, 0 < limit → (callSystem limits generation labels).Path c log c' →
        ∃ page, (c'.listExecutions limits generation labels
          ⟨state, wanted, limit, some next⟩).2 = .ok page := by
  obtain ⟨hthrough, l, -, hmem, hcases⟩ := listExecutions_split hpage hrange
  rcases hcases with ⟨-, hend⟩ | ⟨position, hposition, hle, htake, hnext'⟩
  · cases hend.symm.trans hnext
  · obtain rfl := Option.some.inj (hnext.symm.trans hnext')
    have hrange' (c' : Core ρ) (limit : ℕ) : c'.pageRange generation ⟨state, wanted, limit,
        some ⟨generation, .ofNat position, .ofNat through, state, wanted⟩⟩ =
        .ok (position, through) := pageRange_next (hle.trans_lt hword) hword
    refine ⟨?_, position, hle, hrange', fun log c' limit hlimit hpath => ?_⟩
    · rw [htake]
      exact List.ne_nil_of_mem (List.mem_of_getLast? hposition)
    · exact listExecutions_isOk hlimit (hrange' _ _) hle
        (hthrough.trans_le (Core.Grows.path hpath).nextSequence)

theorem Pages.continues (h : Pages limits generation labels state wanted c cursor pages)
    (hrange : ∀ limit, (c.cleanup limits).pageRange generation ⟨state, wanted, limit, cursor⟩ =
      .ok (after, through)) (hword : through < 2 ^ 64) {p : Core ρ × Page} (hp : p ∈ pages)
    {next : PageCursor} (hnext : p.2.nextPageCursor = some next) :
    p.2.executions ≠ [] ∧ ∀ log c' limit, 0 < limit →
      (callSystem limits generation labels).Path p.1 log c' → ∃ page,
        (c'.listExecutions limits generation labels ⟨state, wanted, limit, some next⟩).2 =
          .ok page := by
  induction h generalizing after with
  | @last c cursor limit page hpage =>
    obtain rfl := List.mem_singleton.mp hp
    exact (Core.listExecutions_continues hpage (hrange limit) hword hnext).imp_right
      fun ⟨_, _, _, hmore⟩ => hmore
  | @next c c' cursor next' limit page log rest hpage hnext' _ hrest ih =>
    rcases List.mem_cons.mp hp with rfl | hp
    · exact (Core.listExecutions_continues hpage (hrange limit) hword hnext).imp_right
        fun ⟨_, _, _, hmore⟩ => hmore
    · obtain ⟨-, position, -, hrange', -⟩ :=
        Core.listExecutions_continues hpage (hrange limit) hword hnext'
      exact ih (hrange' _) hp

/-! ### The list -/

/-- **Listing executions by pages.** Whatever happens between the pages of a list: their numbers
increase, so that no execution comes twice, and stay below the bound of the first page; a list that
has ended has every execution that was on it in all states in which a page was made; no page has an
execution that was not on the list then; a page with a cursor has executions, and its cursor leads
to another page; and there are only so many pages. -/
theorem listing_sound (hreach : (callSystem limits generation labels).Reachable c)
    (hword : c.registry.nextSequence ≤ 2 ^ 64)
    (h : Pages limits generation labels state wanted c none pages) :
    (pages.flatMap fun p => p.2.executions).Pairwise (· < ·) ∧
    (∀ s ∈ pages.flatMap fun p => p.2.executions, s ≤ c.registry.nextSequence - 1) ∧
    (ended pages = true → ∀ s, (∀ p ∈ pages, p.1.Lists limits labels state wanted s) →
      s ∈ pages.flatMap fun p => p.2.executions) ∧
    (∀ p ∈ pages, ∀ s ∈ p.2.executions, p.1.Lists limits labels state wanted s) ∧
    (∀ p ∈ pages, ∀ next, p.2.nextPageCursor = some next → p.2.executions ≠ [] ∧
      ∀ log c' limit, 0 < limit → (callSystem limits generation labels).Path p.1 log c' →
        ∃ page, (c'.listExecutions limits generation labels
          ⟨state, wanted, limit, some next⟩).2 = .ok page) ∧
    pages.length ≤ c.registry.nextSequence := by
  have hnumbered := Core.Numbered.of_reachable hreach
  have hpos := hnumbered.pos
  have hrange (limit : ℕ) : (c.cleanup limits).pageRange generation
      ⟨state, wanted, limit, none⟩ = .ok (0, c.registry.nextSequence - 1) := rfl
  have hlisting := h.listing hrange (by omega)
  have hflat : (pages.flatMap fun p => p.2.executions) = (pages.map fun p =>
      ({s | s ≤ c.registry.nextSequence - 1 ∧ p.1.Lists limits labels state wanted s},
        p.2.executions)).flatMap Prod.snd := by
    rw [List.flatMap_map]
  have hsound (p : Core ρ × Page) (hp : p ∈ pages) (s : ℕ) (hs : s ∈ p.2.executions) :
      s ≤ c.registry.nextSequence - 1 ∧ p.1.Lists limits labels state wanted s :=
    hlisting.sound (List.mem_map_of_mem hp) hs
  have hbound (s : ℕ) (hs : s ∈ pages.flatMap fun p => p.2.executions) :
      s ≤ c.registry.nextSequence - 1 := by
    obtain ⟨p, hp, hs⟩ := List.mem_flatMap.mp hs
    exact (hsound p hp s hs).1
  have hincreasing : (pages.flatMap fun p => p.2.executions).Pairwise (· < ·) :=
    hflat ▸ hlisting.increasing
  refine ⟨hincreasing, hbound, fun hended s hs => ?_, fun p hp s hs => (hsound p hp s hs).2,
    fun p hp next hnext => h.continues hrange (by omega) hp hnext, ?_⟩
  · obtain ⟨page, hfirst⟩ : ∃ page, (c, page) ∈ pages := by
      cases h with
      | last => exact ⟨_, List.mem_singleton_self _⟩
      | next => exact ⟨_, List.mem_cons_self⟩
    obtain ⟨entry, hentry, -⟩ := hs _ hfirst
    have hnumber := hnumbered.entries s
      (Registry.mem_of_mem_cleanup (Table.mem_of_lookup hentry))
    rw [hflat]
    refine hlisting.complete hended (fun a ha => ?_) fun page hpage => ?_
    · rw [← Option.some.inj ha]
      exact hnumber.1
    obtain ⟨p, hp, rfl⟩ := List.mem_map.mp hpage
    exact ⟨by omega, hs p hp⟩
  · have hlength := hlisting.length_le
    rw [← hflat, List.length_map] at hlength
    have hsub : pages.flatMap (fun p => p.2.executions) ⊆
        List.range' 1 (c.registry.nextSequence - 1) := fun s hs => by
      have hbelow := hbound s hs
      have habove := hlisting.behind (hflat ▸ hs) 0 rfl
      rw [List.mem_range'_1]
      omega
    have hcard := (List.subperm_of_subset (hincreasing.imp ne_of_lt) hsub).length_le
    rw [List.length_range'] at hcard
    omega

end Follow

/-- A list of three executions on two pages: one of them expires after the first page, and another
one is started. -/
theorem listing_sound_expired :
    ∃ (c : Core Unit) (pages : List (Core Unit × Page)), c.registry.nextSequence = 4 ∧
      pages.length = 2 ∧
      ∀ s, (∀ p ∈ pages, p.1.Lists someLimits (fun _ => .empty) .all .empty s) → s ∈ [1, 3] := by
  obtain ⟨c, log, page, next, c', log', page', hstart, hpage, hnext, hsteps, hpage', hend, hlisted,
      hcount⟩ : ∃ (c : Core Unit) (log : List Event) (page : Page) (next : PageCursor)
      (c' : Core Unit) (log' : List Event) (page' : Page),
      (callSystem someLimits (.numbered 0) fun _ => .empty).exec (Core.init : Core Unit)
        [.action (.startExecution ⟨"a", ()⟩ (.numbered 1)),
          .action (.startExecution ⟨"b", ()⟩ (.numbered 2)),
          .action (.startExecution ⟨"c", ()⟩ (.numbered 3))] = some (c, log) ∧
      (c.listExecutions someLimits (.numbered 0) (fun _ => .empty)
        ⟨.all, .empty, 1, none⟩).2 = .ok page ∧
      page.nextPageCursor = some next ∧
      (callSystem someLimits (.numbered 0) fun _ => .empty).exec
        (c.listExecutions someLimits (.numbered 0) (fun _ => .empty) ⟨.all, .empty, 1, none⟩).1
        [.action (.advance 2 true), .action (.wait 2),
          .action (.startExecution ⟨"d", ()⟩ (.numbered 4))] = some (c', log') ∧
      (c'.listExecutions someLimits (.numbered 0) (fun _ => .empty)
        ⟨.all, .empty, 1, some next⟩).2 = .ok page' ∧
      page'.nextPageCursor = none ∧ page.executions ++ page'.executions = [1, 3] ∧
      c.registry.nextSequence = 4 := ⟨_, _, _, _, _, _, _, rfl, rfl, rfl, rfl, rfl, rfl, rfl, rfl⟩
  have hpages : Pages someLimits (.numbered 0) (fun _ => .empty) .all .empty c none
      [(c, page), (c', page')] := .next hpage hnext (.of_exec hsteps) (.last hpage')
  have hsound := listing_sound ⟨log, _, rfl, .of_exec hstart⟩ (by rw [hcount]; decide) hpages
  have hflat : ([(c, page), (c', page')].flatMap fun p => p.2.executions) = [1, 3] := by
    rw [List.flatMap_cons, List.flatMap_singleton]
    exact hlisted
  rw [hflat] at hsound
  exact ⟨c, _, hcount, rfl, hsound.2.2.1 (congrArg Option.isNone hend)⟩

end ExecutionProvider.Runtime
