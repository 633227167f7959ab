import Mathlib.Algebra.GroupWithZero.Nat
import ExecutionProvider.Foundation.Runs
import ExecutionProvider.Protocol.Dispatcher
import ExecutionProvider.Protocol.FileResults

/-!
# Batches

The operations of a batch are performed one after the other, until one of them fails, or up to
eight at a time. A batch fails when an operation does, unless its error was to be expected.

What comes of the operations is decided outside, by their positions. In parallel they end in any
order; their results are taken in the order in which they were started.

## Main definitions

* `outcomeSucceeded`: whether an operation of a batch succeeded.
* `Sequence.step`, `sequential`: operations one after the other.
* `Buffer`, `bufferSystem`: operations in parallel.
* `Performs`: the results of a batch.
* `Succeeds`: what success means.

## Main results

* `sequential_eq`: which operations are performed one after the other.
* `Buffer.Ordered.step`: operations in parallel keep their order.
* `batch_semantics`: what a batch answers.
-/

namespace ExecutionProvider.Protocol

/-- The largest number of operations that are performed at a time. -/
def maxParallelOperations : ℕ := 8

section

variable (c : TextEncoding) (accepted : List ErrorCode) (outcomes : ℕ → Result DispatchResult)

/-! ### Operations of a batch -/

/-- What came of an operation. -/
def itemOutcome : Result DispatchResult → OperationOutcome
  | .ok result => .ok (result.toOperationResult c)
  | .error error => .error error

/-- The response to the operation at a position. -/
def respond (i : ℕ) (item : BatchOperation) : OperationResponse :=
  ⟨item.requestId, itemOutcome c (outcomes i)⟩

/-- The response to an operation that is not performed. -/
def skip (item : BatchOperation) : OperationResponse :=
  ⟨item.requestId, .skipped "a previous operation failed"⟩

/-- Whether an operation of a batch succeeded. -/
def outcomeSucceeded : OperationOutcome → Bool
  | .ok result =>
    !match ((result.value c).get "status").bind Json.asStr with
      | some status => status == "rejected" || status == "partial"
      | none => false
  | .error error => error.code ∈ accepted
  | .skipped _ => false

/-- Whether all operations of a batch succeeded. -/
def batchSucceeded (results : List OperationResponse) : Bool :=
  results.all fun r => outcomeSucceeded c accepted r.outcome

/-! ### One after the other -/

/-- The responses to the first operations of a batch, the positions of those that were performed,
and whether one has failed. -/
structure Sequence where
  results : List OperationResponse
  executed : List ℕ
  failed : Bool

/-- The next operation. -/
def Sequence.step (s : Sequence) (item : BatchOperation) : Sequence :=
  let i := s.results.length
  let response := if s.failed then skip item else respond c outcomes i item
  { results := s.results ++ [response]
    executed := if s.failed then s.executed else s.executed ++ [i]
    failed := s.failed || !outcomeSucceeded c accepted response.outcome }

/-- Operations one after the other. -/
def sequential (items : List BatchOperation) : Sequence :=
  items.foldl (Sequence.step c accepted outcomes) ⟨[], [], false⟩

/-! ### In parallel -/

/-- The operations that wait, those that were started, with their positions, and whether they have
ended, and the responses that were taken. -/
structure Buffer where
  waiting : List (ℕ × BatchOperation)
  running : List ((ℕ × BatchOperation) × Bool)
  results : List OperationResponse

/-- An operation is started, one of those that were started ends, or a response is taken. -/
inductive BufferAction
  | start
  | finish (index : ℕ)
  | take

/-- A step of a batch whose operations are performed in parallel. -/
def Buffer.step (b : Buffer) : BufferAction → Option (Buffer × List Empty)
  | .start =>
    match b.waiting with
    | [] => none
    | item :: waiting =>
      if b.running.length < maxParallelOperations then
        some ({ b with waiting, running := b.running ++ [(item, false)] }, [])
      else none
  | .finish index =>
    match b.running[index]? with
    | some (item, false) => some ({ b with running := b.running.set index (item, true) }, [])
    | _ => none
  | .take =>
    match b.running with
    | ((i, item), true) :: running =>
      some ({ b with running, results := b.results ++ [respond c outcomes i item] }, [])
    | _ => none

/-- Operations in parallel. -/
def bufferSystem (items : List BatchOperation) : System Buffer BufferAction Empty where
  start b := b = ⟨items.zipIdx.map Prod.swap, [], []⟩
  step := Buffer.step c outcomes

/-- Whether all responses were taken. -/
def Buffer.Complete (b : Buffer) : Prop := b.waiting = [] ∧ b.running = []

/-- The results of a batch. -/
def Performs : BatchMode → List BatchOperation → List OperationResponse → Prop
  | .sequential, items, results => (sequential c accepted outcomes items).results = results
  | .parallel, items, results => ∃ log b,
    (bufferSystem c outcomes items).Run log b ∧ b.Complete ∧ b.results = results

end

/-! ### Success -/

/-- Whether an operation succeeded, or failed as was to be expected. A patch succeeds when it is
applied. -/
def Succeeds (accepted : List ErrorCode) : Result DispatchResult → Prop
  | .ok (.applyPatch receipt) => receipt.status = .applied
  | .ok _ => True
  | .error error => error.code ∈ accepted

variable {c : TextEncoding} {accepted : List ErrorCode} {outcomes : ℕ → Result DispatchResult}

theorem outcomeSucceeded_itemOutcome {outcome : Result DispatchResult} :
    outcomeSucceeded c accepted (itemOutcome c outcome) = true ↔ Succeeds accepted outcome := by
  cases outcome with
  | error error => exact decide_eq_true_iff
  | ok result =>
    have hstatus := result.get_status c
    rw [DispatchResult.value] at hstatus
    rw [itemOutcome, outcomeSucceeded, hstatus]
    cases result with
    | applyPatch receipt =>
      show _ ↔ receipt.status = .applied
      cases h : receipt.status <;> simp [h, Patch.PatchStatus.text, Json.asStr]
    | _ => exact iff_of_true rfl trivial

/-! ### Results in order -/

section Sequential

variable (c accepted outcomes)

/-- Whether all operations before a position succeeded. -/
def reached (i : ℕ) : Bool :=
  (List.range i).all fun j => outcomeSucceeded c accepted (itemOutcome c (outcomes j))

/-- The response to the operation at a position, performed or not. -/
def sequentialResponse (i : ℕ) (item : BatchOperation) : OperationResponse :=
  if reached c accepted outcomes i then respond c outcomes i item else skip item

theorem reached_succ (i : ℕ) : reached c accepted outcomes (i + 1) =
    (reached c accepted outcomes i &&
      outcomeSucceeded c accepted (itemOutcome c (outcomes i))) := by
  rw [reached, List.range_succ, List.all_append, reached]
  simp

theorem reached_iff {i : ℕ} :
    reached c accepted outcomes i = true ↔ ∀ j < i, Succeeds accepted (outcomes j) := by
  rw [reached, List.all_eq_true]
  simp only [List.mem_range, outcomeSucceeded_itemOutcome]

/-- What a batch has done after its first operations. -/
theorem sequential_eq (items : List BatchOperation) :
    sequential c accepted outcomes items =
      ⟨items.mapIdx (sequentialResponse c accepted outcomes),
        (List.range items.length).filter (reached c accepted outcomes),
        !reached c accepted outcomes items.length⟩ := by
  induction items using List.reverseRecOn with
  | nil => rfl
  | append_singleton items item ih =>
    have hstep : sequential c accepted outcomes (items ++ [item]) =
        (sequential c accepted outcomes items).step c accepted outcomes item := by
      rw [sequential, List.foldl_append]
      rfl
    rw [hstep, ih, Sequence.step, List.mapIdx_concat, List.length_append, List.length_singleton,
      List.range_succ, List.filter_append, reached_succ, sequentialResponse]
    dsimp only
    rw [List.length_mapIdx]
    cases h : reached c accepted outcomes items.length with
    | true => simp [respond, h]
    | false => simp [skip, outcomeSucceeded, h]

end Sequential

/-! ### Results in parallel -/

namespace Buffer

variable {b b' : Buffer} {a : BufferAction} {es : List Empty} {items : List BatchOperation}

/-- The responses to the operations of a batch in their order, those that are still to come
included. -/
def responses (c : TextEncoding) (outcomes : ℕ → Result DispatchResult) (b : Buffer) :
    List OperationResponse :=
  b.results ++ b.running.map (fun r => respond c outcomes r.1.1 r.1.2) ++
    b.waiting.map fun r => respond c outcomes r.1 r.2

/-- How much is left to do. -/
def remaining (b : Buffer) : ℕ :=
  3 * b.waiting.length + (b.running.map fun r => if r.2 then 1 else 2).sum

/-- Operations in parallel keep their order, and something gets done. -/
theorem step_spec (hs : b.step c outcomes a = some (b', es)) :
    b'.responses c outcomes = b.responses c outcomes ∧ b'.remaining < b.remaining := by
  cases a with
  | start =>
    cases hwaiting : b.waiting with
    | nil => simp [step, hwaiting] at hs
    | cons item waiting =>
      simp only [step, hwaiting, Option.ite_none_right_eq_some, Option.some.injEq,
        Prod.mk.injEq] at hs
      obtain ⟨-, rfl, -⟩ := hs
      simp [responses, remaining, hwaiting]
      omega
  | finish index =>
    rw [step] at hs
    split at hs
    · next item hindex =>
      obtain ⟨rfl, -⟩ := Prod.ext_iff.mp (Option.some.inj hs)
      obtain ⟨hlt, hget⟩ := List.getElem?_eq_some_iff.mp hindex
      -- Only the mark of one operation is changed.
      have hsplit : b.running =
          b.running.take index ++ (item, false) :: b.running.drop (index + 1) := by
        rw [← hget, List.getElem_cons_drop, List.take_append_drop]
      have hset : b.running.set index (item, true) =
          b.running.take index ++ (item, true) :: b.running.drop (index + 1) :=
        List.set_eq_take_append_cons_drop.trans (if_pos hlt)
      constructor
      · rw [responses, responses, hset]
        conv_rhs => rw [hsplit]
        simp
      · have hremaining : b.remaining = 3 * b.waiting.length +
            ((b.running.take index ++ (item, false) :: b.running.drop (index + 1)).map
              fun r => if r.2 then 1 else 2).sum := by rw [← hsplit, remaining]
        rw [hremaining, remaining, hset]
        simp
    · cases hs
  | take =>
    rw [step] at hs
    split at hs
    · next i item running hrunning =>
      obtain ⟨rfl, -⟩ := Prod.ext_iff.mp (Option.some.inj hs)
      simp [responses, remaining, hrunning]
    · cases hs

/-- As long as something is left to do, something can be done. -/
theorem exists_step (c : TextEncoding) (outcomes : ℕ → Result DispatchResult)
    (h : ¬b.Complete) : ∃ a b', b.step c outcomes a = some (b', []) := by
  obtain ⟨waiting, running, results⟩ := b
  cases running with
  | nil =>
    cases waiting with
    | nil => exact absurd ⟨rfl, rfl⟩ h
    | cons item waiting => exact ⟨.start, _, rfl⟩
  | cons r running =>
    obtain ⟨⟨i, item⟩, ended⟩ := r
    cases ended with
    | false => exact ⟨.finish 0, _, rfl⟩
    | true => exact ⟨.take, _, rfl⟩

/-- Whatever was done, the rest can be done. -/
theorem exists_complete (c : TextEncoding) (outcomes : ℕ → Result DispatchResult)
    (items : List BatchOperation) (b : Buffer) :
    ∃ log b', (bufferSystem c outcomes items).Path b log b' ∧ b'.Complete := by
  by_cases h : b.Complete
  · exact ⟨[], b, .refl, h⟩
  · obtain ⟨a, b', hs⟩ := exists_step c outcomes h
    have hless := (step_spec hs).2
    obtain ⟨log, b'', hpath, hcomplete⟩ := exists_complete c outcomes items b'
    exact ⟨_, b'', (System.Path.single hs).trans hpath, hcomplete⟩
termination_by b.remaining

/-- All responses are taken in the order of the operations. -/
theorem results_of_run {log : List Empty} (h : (bufferSystem c outcomes items).Run log b)
    (hcomplete : b.Complete) : b.results = items.mapIdx (respond c outcomes) := by
  have hresponses : b.responses c outcomes = items.mapIdx (respond c outcomes) := by
    refine h.invariant (I := fun _ b => b.responses c outcomes = _) ?_ ?_
    · rintro _ rfl
      rw [responses, List.mapIdx_eq_zipIdx_map]
      simp
    · intro log t a u es _ hI hs
      exact (step_spec hs).1.trans hI
  rw [responses, hcomplete.1, hcomplete.2] at hresponses
  simpa using hresponses

end Buffer

/-! ### What a batch answers -/

/-- A response with the result of a batch succeeds when the batch does. -/
theorem succeeded_batch (id : Option String) (generation : Uuid) (succeeded : Bool)
    (results : List OperationResponse) :
    (Response.new id generation
      (.ok ((PayloadResult.batch succeeded results).value c))).succeeded = succeeded := by
  have hsucceeded : ((PayloadResult.batch succeeded results).value c).get "succeeded" =
      some (.bool succeeded) := Json.get_mkObj (by simp) (by simp)
  have hstatus : ((PayloadResult.batch succeeded results).value c).get "status" = none :=
    Json.get_mkObj_of_notMem (by simp)
  rw [Response.succeeded, Response.new]
  dsimp only
  rw [hsucceeded, hstatus]
  cases succeeded <;> rfl

/-- A response to a single operation succeeds when the operation does. -/
theorem succeeded_single (id : Option String) (generation : Uuid)
    (outcome : Result DispatchResult) :
    (Response.new id generation (outcome.map (DispatchResult.value c))).succeeded =
      outcomeSucceeded c [] (itemOutcome c outcome) := by
  cases outcome with
  | error error => rfl
  | ok result =>
    simp only [Response.succeeded, Response.new, Except.map, result.get_succeeded c]
    rfl

/-- The results of a batch, by the positions of its operations. -/
theorem results_eq {mode : BatchMode} {items : List BatchOperation}
    {results : List OperationResponse} (h : Performs c accepted outcomes mode items results) :
    results = items.mapIdx (match mode with
      | .sequential => sequentialResponse c accepted outcomes
      | .parallel => respond c outcomes) := by
  cases mode with
  | sequential => exact h.symm.trans (congrArg Sequence.results (sequential_eq ..))
  | parallel =>
    obtain ⟨log, b, hrun, hcomplete, rfl⟩ := h
    exact Buffer.results_of_run hrun hcomplete

/-- A batch succeeds when all its operations do. -/
theorem batchSucceeded_iff {mode : BatchMode} {items : List BatchOperation}
    {results : List OperationResponse} (h : Performs c accepted outcomes mode items results) :
    batchSucceeded c accepted results = true ↔
      ∀ i < items.length, Succeeds accepted (outcomes i) := by
  rw [results_eq h, batchSucceeded, List.all_eq_true]
  simp only [List.mem_mapIdx]
  cases mode with
  | parallel =>
    constructor
    · intro hall i hi
      exact outcomeSucceeded_itemOutcome.mp (hall _ ⟨i, hi, rfl⟩)
    · rintro hall _ ⟨i, hi, rfl⟩
      exact outcomeSucceeded_itemOutcome.mpr (hall i hi)
  | sequential =>
    constructor
    · intro hall i hi
      have hi := hall _ ⟨i, hi, rfl⟩
      dsimp only at hi
      rw [sequentialResponse] at hi
      split_ifs at hi
      · exact outcomeSucceeded_itemOutcome.mp hi
      · cases hi
    · rintro hall _ ⟨i, hi, rfl⟩
      have hreached : reached c accepted outcomes i = true :=
        (reached_iff c accepted outcomes).mpr fun j hj => hall j (hj.trans hi)
      dsimp only
      rw [sequentialResponse, if_pos hreached]
      exact outcomeSucceeded_itemOutcome.mpr (hall i hi)

/-- **Batches.** In both modes a batch has results, which are those of its operations in their
order. One after the other, an operation is performed if all operations before it succeeded, and
skipped otherwise. The batch succeeds if all its operations do, where an expected error counts as
success and a patch that was not applied as failure, and so does the response to it. The response
to a single operation succeeds as the operation of a batch does for which no error is expected. -/
theorem batch_semantics (c : TextEncoding) (accepted : List ErrorCode)
    (outcomes : ℕ → Result DispatchResult) (items : List BatchOperation) (id : Option String)
    (generation : Uuid) :
    (∀ mode, ∃ results, Performs c accepted outcomes mode items results) ∧
    (∀ mode results, Performs c accepted outcomes mode items results →
      results.map OperationResponse.requestId = items.map BatchOperation.requestId ∧
      (batchSucceeded c accepted results = true ↔
        ∀ i < items.length, Succeeds accepted (outcomes i)) ∧
      (Response.new id generation (.ok
        ((PayloadResult.batch (batchSucceeded c accepted results) results).value c))).succeeded =
          batchSucceeded c accepted results) ∧
    (∀ results, Performs c accepted outcomes .parallel items results →
      results = items.mapIdx (respond c outcomes)) ∧
    (∀ i item, items[i]? = some item →
      (i ∈ (sequential c accepted outcomes items).executed ↔
        ∀ j < i, Succeeds accepted (outcomes j)) ∧
      ((∀ j < i, Succeeds accepted (outcomes j)) →
        (sequential c accepted outcomes items).results[i]? = some (respond c outcomes i item)) ∧
      ((¬∀ j < i, Succeeds accepted (outcomes j)) →
        (sequential c accepted outcomes items).results[i]? = some (skip item))) ∧
    ∀ outcome : Result DispatchResult,
      (Response.new id generation (outcome.map (DispatchResult.value c))).succeeded =
        outcomeSucceeded c [] (itemOutcome c outcome) := by
  refine ⟨fun mode => ?_, fun mode results h => ⟨?_, batchSucceeded_iff h, succeeded_batch ..⟩,
    fun results h => results_eq h, fun i item hitem => ?_, succeeded_single id generation⟩
  · cases mode with
    | sequential => exact ⟨_, rfl⟩
    | parallel =>
      obtain ⟨log, b, hpath, hcomplete⟩ :=
        Buffer.exists_complete c outcomes items ⟨items.zipIdx.map Prod.swap, [], []⟩
      exact ⟨_, log, b, ⟨_, rfl, hpath⟩, hcomplete, rfl⟩
  · refine List.ext_getElem (by simp [results_eq h]) fun i hi hi' => ?_
    cases mode with
    | parallel => simp [results_eq h, respond]
    | sequential =>
      simp only [results_eq h, List.getElem_map, List.getElem_mapIdx, sequentialResponse]
      split_ifs <;> rfl
  · obtain ⟨hi, -⟩ := List.getElem?_eq_some_iff.mp hitem
    rw [sequential_eq, List.mem_filter, List.mem_range, List.getElem?_mapIdx, hitem,
      ← reached_iff c accepted outcomes, Option.map_some, sequentialResponse]
    refine ⟨and_iff_right hi, fun hreached => ?_, fun hreached => ?_⟩
    · rw [if_pos hreached]
    · rw [if_neg hreached]

end ExecutionProvider.Protocol
