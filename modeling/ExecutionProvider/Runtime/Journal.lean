import ExecutionProvider.Core.Error
import ExecutionProvider.Core.Types
import ExecutionProvider.Foundation.Window

/-!
# The output journal

The journal of an execution keeps the last bytes of its output, in chunks of one stream each.
Positions are counted from the first byte ever written, whether it is still kept or not. A
reader asks for what comes behind a cursor.

The counters of the source have sixty-four bits, which no output exceeds; the one sum that might
overflow saturates, and is then cut at the end of the output.

## Main definitions

* `Journal.append`, `Journal.read`: writing to the journal and reading behind a cursor.
* `Journal.Keeps`: a journal that keeps the end of some output.

## Main results

* `Journal.Keeps.append`: appending never fails, and evicts from the front.
* `Journal.Keeps.read`: what a reader is given.
-/

namespace ExecutionProvider.Runtime

/-- A bounded journal: its chunks, the position of the first byte in them, the position behind
the last one (`end` in the source), how many bytes are kept, and how often something other than
the output changed. -/
structure Journal where
  chunks : List OutputChunk
  start : ℕ
  stop : ℕ
  capacity : ℕ
  revision : ℕ
deriving DecidableEq

/-- The bytes of some chunks, each with its stream. -/
def chunkBytes (chunks : List OutputChunk) : List (OutputStream × UInt8) :=
  chunks.flatMap OutputChunk.bytes

@[simp] theorem chunkBytes_nil : chunkBytes [] = [] := rfl

@[simp] theorem chunkBytes_cons (chunk : OutputChunk) (chunks : List OutputChunk) :
    chunkBytes (chunk :: chunks) = chunk.bytes ++ chunkBytes chunks := List.flatMap_cons

@[simp] theorem chunkBytes_append (cs cs' : List OutputChunk) :
    chunkBytes (cs ++ cs') = chunkBytes cs ++ chunkBytes cs' := List.flatMap_append

namespace Journal

/-- The journal of a new execution. -/
def new (capacity : ℕ) : Journal := ⟨[], 0, 0, capacity, 0⟩

/-- Bytes before the target are discarded from the front, given the position of the first chunk.
There is no result when the chunks run out. -/
def evict (target : ℕ) : ℕ → List OutputChunk → Option (ℕ × List OutputChunk)
  | start, [] => if start < target then none else some (start, [])
  | start, front :: chunks =>
    if start < target then
      let discard := min (target - start) front.data.length
      if discard = front.data.length then evict target (start + discard) chunks
      else
        -- The target lies within this chunk, so the loop ends here.
        some (start + discard, { front with data := front.data.drop discard } :: chunks)
    else some (start, front :: chunks)

/-- Bytes are appended, and those that no longer fit are discarded from the front. -/
def append (j : Journal) (stream : OutputStream) (data : List UInt8) : Option Journal :=
  let stop := j.stop + data.length
  (evict (stop - j.capacity) j.start (j.chunks ++ [⟨stream, data⟩])).map fun r =>
    { j with start := r.1, chunks := r.2, stop := stop }

/-- The parts of the chunks that lie in a window, given the position of the first chunk. -/
def collect (begin_ stop : ℕ) : ℕ → List OutputChunk → List OutputChunk
  | _, [] => []
  | position, chunk :: chunks =>
    let next := position + chunk.data.length
    let first := max begin_ position
    let last := min stop next
    let rest := if stop ≤ next then [] else collect begin_ stop next chunks
    if first < last then
      ⟨chunk.stream, chunk.data.extract (first - position) (last - position)⟩ :: rest
    else rest

/-- A cursor that belongs to another execution, or is ahead of the journal. -/
def refuses (j : Journal) (execution : ExecutionSnapshot) (cursor : Cursor) : Bool :=
  cursor.handle ≠ execution.handle || j.stop < cursor.offset || j.revision < cursor.revision

/-- Why an observation of the given output comes back. -/
def returnReason (j : Journal) (execution : ExecutionSnapshot) (cursor : Option Cursor)
    (limit delivered : ℕ) (output : List OutputChunk) (gap : Bool) : ReturnReason :=
  if limit ≤ delivered then .outputLimit
  else if execution.state = .finished then .finished
  else if output ≠ [] ∨ gap ∨ cursor.all fun c => c.revision < j.revision then .activity
  else .waitElapsed

/-- What the journal holds behind a cursor, or from its start, up to some number of bytes. -/
def read (j : Journal) (execution : ExecutionSnapshot) (cursor : Option Cursor) (limit : ℕ) :
    Result Observation :=
  if cursor.any (j.refuses execution) then
    .error (.invalid "cursor does not belong to this execution or is ahead of its output")
  else
    let requested := cursor.elim 0 Cursor.offset
    let begin_ := max requested j.start
    let stop := min j.stop (begin_ + limit)
    let output := collect begin_ stop j.start j.chunks
    let gap : Bool := requested < j.start
    .ok {
      execution := execution
      output := output
      nextCursor := ⟨execution.handle, stop, j.revision⟩
      hasMore := stop < j.stop
      outputGap := gap
      returnReason := j.returnReason execution cursor limit (stop - begin_) output gap }

/-! ### What a journal keeps -/

/-- The journal keeps the end of an output: as many of its last bytes as it has room for. -/
structure Keeps (j : Journal) (output : List (OutputStream × UInt8)) : Prop where
  stop : j.stop = output.length
  start : j.start = output.length - j.capacity
  bytes : chunkBytes j.chunks = output.drop j.start

variable {j : Journal} {output : List (OutputStream × UInt8)}

theorem keeps_new (capacity : ℕ) : (new capacity).Keeps [] := ⟨rfl, by simp [new], rfl⟩

/-- The bytes kept are the last ones. -/
theorem Keeps.rtake (h : j.Keeps output) : chunkBytes j.chunks = output.rtake j.capacity := by
  rw [h.bytes, h.start, List.rtake]

/-- Eviction finds the bytes it discards. -/
theorem evict_eq_some {target start : ℕ} {chunks : List OutputChunk} (hs : start ≤ target)
    (ht : target ≤ start + (chunkBytes chunks).length) :
    ∃ kept, evict target start chunks = some (target, kept) ∧
      chunkBytes kept = (chunkBytes chunks).drop (target - start) := by
  induction chunks generalizing start with
  | nil =>
    have heq : start = target := by
      rw [chunkBytes_nil, List.length_nil] at ht
      omega
    subst heq
    exact ⟨[], by simp [evict], by simp⟩
  | cons front chunks ih =>
    rw [chunkBytes_cons, List.length_append, OutputChunk.length_bytes] at ht
    rw [evict]
    by_cases hlt : start < target
    · rw [if_pos hlt]
      by_cases hall : front.data.length ≤ target - start
      · -- The whole chunk goes.
        obtain ⟨kept, hkept, hbytes⟩ := @ih (start + front.data.length) (by omega) (by omega)
        refine ⟨kept, ?_, ?_⟩
        · rw [min_eq_right hall, if_pos rfl, hkept]
        · have hnil : front.bytes.drop (target - start) = [] :=
            List.drop_eq_nil_of_le (by rwa [OutputChunk.length_bytes])
          rw [hbytes, chunkBytes_cons, List.drop_append, hnil, List.nil_append,
            OutputChunk.length_bytes, Nat.sub_sub]
      · have hle : target - start ≤ front.data.length := Nat.le_of_not_le hall
        have hmin : min (target - start) front.data.length = target - start := min_eq_left hle
        refine ⟨{ front with data := front.data.drop (target - start) } :: chunks, ?_, ?_⟩
        · rw [hmin, if_neg (fun heq => hall heq.ge), Nat.add_sub_cancel' hs]
        · rw [chunkBytes_cons, chunkBytes_cons, List.drop_append, OutputChunk.length_bytes,
            Nat.sub_eq_zero_of_le hle, List.drop_zero]
          simp [OutputChunk.bytes]
    · have heq : start = target := by omega
      subst heq
      exact ⟨front :: chunks, by simp, by simp⟩

/-- **Appending to a journal.** It never fails, and the journal then keeps the end of the output
with the new bytes. -/
theorem Keeps.append (h : j.Keeps output) (stream : OutputStream) (data : List UInt8) :
    ∃ j', j.append stream data = some j' ∧ j'.capacity = j.capacity ∧ j'.revision = j.revision ∧
      j'.Keeps (output ++ (OutputChunk.mk stream data).bytes) := by
  have hstart := h.start
  have hstop := h.stop
  have hlen : (chunkBytes j.chunks).length = output.length - j.start := by
    rw [h.bytes, List.length_drop]
  have hs : j.start ≤ j.stop + data.length - j.capacity := by omega
  have ht : j.stop + data.length - j.capacity ≤
      j.start + (chunkBytes (j.chunks ++ [⟨stream, data⟩])).length := by
    rw [chunkBytes_append, chunkBytes_cons, chunkBytes_nil, List.append_nil, List.length_append,
      OutputChunk.length_bytes, hlen]
    dsimp only
    omega
  obtain ⟨kept, hkept, hbytes⟩ := evict_eq_some hs ht
  refine ⟨{ j with start := j.stop + data.length - j.capacity, chunks := kept,
                   stop := j.stop + data.length }, ?_, rfl, rfl, ?_, ?_, ?_⟩
  · rw [Journal.append, hkept]
    rfl
  · rw [List.length_append, OutputChunk.length_bytes, hstop]
  · rw [List.length_append, OutputChunk.length_bytes, hstop]
  · -- What is discarded now comes behind what was discarded before.
    dsimp only
    rw [hbytes, chunkBytes_append, chunkBytes_cons, chunkBytes_nil, List.append_nil, h.bytes,
      ← List.drop_append_of_le_length (by omega), List.drop_drop]
    congr 1
    omega

/-! ### Reading -/

/-- The parts of the chunks that lie in a window hold its bytes. -/
theorem chunkBytes_collect (begin_ stop position : ℕ) (chunks : List OutputChunk) :
    chunkBytes (collect begin_ stop position chunks) =
      (chunkBytes chunks).extract (begin_ - position) (stop - position) := by
  induction chunks generalizing position with
  | nil => simp [collect]
  | cons chunk chunks ih =>
    have hrest : chunkBytes (if stop ≤ position + chunk.data.length then [] else
          collect begin_ stop (position + chunk.data.length) chunks) =
        (chunkBytes chunks).extract (begin_ - position - chunk.bytes.length)
          (stop - position - chunk.bytes.length) := by
      rw [OutputChunk.length_bytes, Nat.sub_sub, Nat.sub_sub]
      by_cases hle : stop ≤ position + chunk.data.length
      · rw [if_pos hle, Nat.sub_eq_zero_of_le hle, List.extract_eq_nil_of_le _ (Nat.zero_le _)]
        rfl
      · rw [if_neg hle, ih]
    rw [collect, chunkBytes_cons, List.extract_append_eq, ← hrest]
    by_cases hlt : max begin_ position < min stop (position + chunk.data.length)
    · rw [if_pos hlt, chunkBytes_cons]
      congr 1
      simp only [OutputChunk.bytes, List.extract_eq_take_drop, ← List.map_drop, ← List.map_take]
      have hfirst : max begin_ position - position = begin_ - position := by omega
      rw [hfirst]
      by_cases hle : stop ≤ position + chunk.data.length
      · rw [min_eq_left hle]
      · rw [min_eq_right (by omega), Nat.add_sub_cancel_left,
          List.take_of_length_le (by rw [List.length_drop]),
          List.take_of_length_le (by rw [List.length_drop]; omega)]
    · rw [if_neg hlt]
      -- The window misses this chunk: it is empty, or the chunk is, or it begins behind it.
      have hnil : chunk.bytes.extract (begin_ - position) (stop - position) = [] := by
        rw [← List.length_eq_zero_iff]
        simp only [List.extract_eq_take_drop, List.length_take, List.length_drop,
          OutputChunk.length_bytes]
        omega
      rw [hnil, List.nil_append]

/-- What a reader is given of an output, when it asks for a number of bytes from some position
on: what was written there, or, where the start of it was discarded, what comes behind. -/
structure Delivers (output : List (OutputStream × UInt8)) (start requested limit : ℕ)
    (o : Observation) : Prop where
  gap : o.outputGap = true ↔ requested < start
  offset : o.nextCursor.offset = min output.length (max requested start + limit)
  bytes : chunkBytes o.output = output.extract (max requested start) o.nextCursor.offset
  more : o.hasMore = true ↔ output.drop o.nextCursor.offset ≠ []

/-- **Reading a journal.** A cursor that the journal does not refuse is served from the output,
and comes back as one that it does not refuse. -/
theorem Keeps.read (h : j.Keeps output) {execution : ExecutionSnapshot} {cursor : Option Cursor}
    (hc : cursor.any (j.refuses execution) = false) (limit : ℕ) :
    ∃ o, j.read execution cursor limit = .ok o ∧
      Delivers output j.start (cursor.elim 0 Cursor.offset) limit o ∧
      j.refuses execution o.nextCursor = false := by
  set requested := cursor.elim 0 Cursor.offset with hrequested
  have hstop := h.stop
  have hstart := h.start
  refine ⟨_, by rw [Journal.read, if_neg (by simp [hc])], ⟨?_, ?_, ?_, ?_⟩, ?_⟩
  · simp [hrequested]
  · rw [← hrequested, hstop]
  · dsimp only
    rw [← hrequested, chunkBytes_collect, h.bytes, List.extract_drop]
    by_cases hle : j.start ≤ min j.stop (max requested j.start + limit)
    · rw [Nat.add_sub_cancel' (le_max_right _ _), Nat.add_sub_cancel' hle]
    · rw [List.extract_eq_nil_of_le _ (by omega), List.extract_eq_nil_of_le _ (by omega)]
  · dsimp only
    rw [← hrequested, decide_eq_true_iff, hstop, Ne, List.drop_eq_nil_iff, not_le]
  · simp [refuses]

end Journal

end ExecutionProvider.Runtime
