import ExecutionProvider.Runtime.Journal

/-!
# The output file of a run

The output of a run is written to a file as it arrives. Beside the file, the spool keeps the last
bytes of the output for a preview, and counts what was captured, whether or not it reached the
file. The first failure closes the file for good.

What the calls on the file return comes from outside, and so does the hash function.

## Main definitions

* `OutputSpool.append`, `OutputSpool.finalize`: capturing output, and closing the file.
* `OutputSpool.preview`, `OutputSpool.outputFile`: what is said of a finished run.
* `OutputSpool.Holds`: a spool that captured some output.
* `OutputSpool.Stores`: a spool whose file holds the beginning of some output.

## Main results

* `OutputSpool.Holds.append`: capturing never fails, and the tail is the end of the output.
* `OutputSpool.Holds.preview`: the preview is the end of the output, too.
* `OutputSpool.Stores.append`: the file and its hash stop at the first failure.
-/

namespace ExecutionProvider.Runtime

/-- What a call that writes to a file returns: how many bytes it wrote, or why it failed. -/
inductive WriteOutcome
  | wrote (count : ℕ)
  | failed (message : String)

/-- The file that a run writes to, and the end of what was captured. The hash is that of the
bytes in `hashed`; only specifications look at `stored`, the bytes in the file. -/
structure OutputSpool where
  artifactId : Uuid
  path : String
  isOpen : Bool
  hashed : List UInt8
  sha256 : Option String
  sizeBytes : ℕ
  capturedBytes : ℕ
  tail : List OutputChunk
  tailBytes : ℕ
  tailCapacity : ℕ
  error : Option String
  stored : List UInt8

namespace OutputSpool

/-- The spool of a new run. -/
def create (artifactId : Uuid) (path : String) (tailCapacity : ℕ) : OutputSpool :=
  ⟨artifactId, path, true, [], none, 0, 0, [], 0, tailCapacity, none, []⟩

/-- The file is closed. The first failure is the one that is kept. -/
def fail (s : OutputSpool) (message : String) : OutputSpool :=
  { s with error := some (s.error.getD message), isOpen := false }

/-- Some bytes reached the file. -/
def wrote (s : OutputSpool) (data : List UInt8) : OutputSpool :=
  { s with
    hashed := s.hashed ++ data
    sizeBytes := s.sizeBytes + data.length
    stored := s.stored ++ data }

/-- The loop that writes to the file, given what its calls return. Calls of which nothing is given
write all that remains. -/
def write (s : OutputSpool) : List WriteOutcome → List UInt8 → OutputSpool
  | _, [] => s
  | [], remaining => s.wrote remaining
  | .wrote 0 :: _, _ => s.fail "output file write returned zero bytes"
  | .wrote count :: outcomes, remaining =>
    (s.wrote (remaining.take count)).write outcomes (remaining.drop count)
  | .failed message :: _, _ => s.fail message

/-- The loop that cuts the tail from the front, given the number of bytes in it. There is no
result when the chunks run out. -/
def cut (capacity : ℕ) : ℕ → List OutputChunk → Option (ℕ × List OutputChunk)
  | bytes, [] => if capacity < bytes then none else some (bytes, [])
  | bytes, front :: tail =>
    if capacity < bytes then
      let count := min (bytes - capacity) front.data.length
      if count = front.data.length then cut capacity (bytes - count) tail
      else
        -- What was to be discarded lies within this chunk, so the loop ends here.
        some (bytes - count, { front with data := front.data.drop count } :: tail)
    else some (bytes, front :: tail)

/-- Bytes are added to the tail, which is cut if it is too long. -/
def appendTail (s : OutputSpool) (stream : OutputStream) (data : List UInt8) :
    Option OutputSpool :=
  if s.tailCapacity = 0 then some s
  else
    (cut s.tailCapacity (s.tailBytes + data.length) (s.tail ++ [⟨stream, data⟩])).map fun r =>
      { s with tailBytes := r.1, tail := r.2 }

/-- Bytes are captured, and written to the file while it is open. -/
def append (s : OutputSpool) (outcomes : List WriteOutcome) (stream : OutputStream)
    (data : List UInt8) : Option OutputSpool :=
  (appendTail { s with capturedBytes := s.capturedBytes + data.length } stream data).map fun s =>
    if s.isOpen then s.write outcomes data else s

/-- The file is closed, which may fail, and the hash is taken. -/
def finalize (sha256 : List UInt8 → String) (closeError : Option String) (s : OutputSpool) :
    OutputSpool :=
  let error := if s.isOpen then s.error.or closeError else s.error
  { s with error := error, isOpen := false, sha256 := some (sha256 s.hashed) }

/-- What is left of some chunks when bytes at the front are skipped. -/
def skip : ℕ → List OutputChunk → List OutputChunk
  | _, [] => []
  | n, chunk :: tail =>
    if chunk.data.length ≤ n then skip (n - chunk.data.length) tail
    else { chunk with data := chunk.data.drop n } :: skip 0 tail

/-- The end of the tail, up to some number of bytes. -/
def preview (s : OutputSpool) (limit : ℕ) : List OutputChunk := skip (s.tailBytes - limit) s.tail

/-- What is said of the file of a finished run. -/
def outputFile (s : OutputSpool) (complete : Bool) (expiresAt : SystemTime) : RunOutputFile where
  artifactId := s.artifactId
  path := s.path
  sizeBytes := .ofNat s.sizeBytes
  sha256 := s.sha256.getD ""
  complete := complete && s.error.isNone
  expiresAt := expiresAt

/-! ### What a spool captured -/

/-- The spool captured an output: it counts its bytes, and its tail is the end of it. -/
structure Holds (s : OutputSpool) (output : List (OutputStream × UInt8)) : Prop where
  captured : s.capturedBytes = output.length
  bytes : s.tailBytes = (chunkBytes s.tail).length
  tail : chunkBytes s.tail = output.rtake s.tailCapacity

variable {s : OutputSpool} {output : List (OutputStream × UInt8)}

theorem holds_create (artifactId : Uuid) (path : String) (tailCapacity : ℕ) :
    (create artifactId path tailCapacity).Holds [] :=
  ⟨rfl, rfl, by simp [create]⟩

/-- The tail is cut as a journal is. -/
theorem cut_eq_map_evict {capacity start bytes : ℕ} {tail : List OutputChunk} :
    cut capacity (bytes - start) tail =
      (Journal.evict (bytes - capacity) start tail).map fun r => (bytes - r.1, r.2) := by
  have hiff (start : ℕ) : capacity < bytes - start ↔ start < bytes - capacity := by omega
  induction tail generalizing start with
  | nil =>
    rw [cut, Journal.evict]
    by_cases h : start < bytes - capacity
    · rw [if_pos h, if_pos ((hiff start).mpr h)]
      rfl
    · rw [if_neg h, if_neg (mt (hiff start).mp h)]
      rfl
  | cons front tail ih =>
    rw [cut, Journal.evict]
    by_cases h : start < bytes - capacity
    · have hcount : bytes - start - capacity = bytes - capacity - start := Nat.sub_right_comm ..
      rw [if_pos h, if_pos ((hiff start).mpr h), hcount]
      dsimp only
      split_ifs with hall
      · rw [Nat.sub_sub, ih]
      · rw [Nat.sub_sub]
        rfl
    · rw [if_neg h, if_neg (mt (hiff start).mp h)]
      rfl

/-- Capturing to the tail. -/
theorem Holds.appendTail (hbytes : s.tailBytes = (chunkBytes s.tail).length)
    (htail : chunkBytes s.tail = output.rtake s.tailCapacity) (stream : OutputStream)
    (data : List UInt8) :
    ∃ s', s.appendTail stream data = some s' ∧ s'.tailBytes = (chunkBytes s'.tail).length ∧
      chunkBytes s'.tail =
        (output ++ (OutputChunk.mk stream data).bytes).rtake s'.tailCapacity ∧
      s' = { s with tailBytes := s'.tailBytes, tail := s'.tail } := by
  rw [OutputSpool.appendTail]
  by_cases hzero : s.tailCapacity = 0
  · rw [if_pos hzero]
    refine ⟨s, rfl, hbytes, ?_, rfl⟩
    rw [htail, hzero, List.rtake_zero, List.rtake_zero]
  · have hlen : (chunkBytes (s.tail ++ [⟨stream, data⟩])).length = s.tailBytes + data.length := by
      rw [chunkBytes_append, chunkBytes_cons, chunkBytes_nil, List.append_nil, List.length_append,
        OutputChunk.length_bytes, hbytes]
    obtain ⟨kept, hkept, hdrop⟩ :=
      @Journal.evict_eq_some (s.tailBytes + data.length - s.tailCapacity) 0
        (s.tail ++ [⟨stream, data⟩]) (Nat.zero_le _) (by omega)
    have hcut := @cut_eq_map_evict s.tailCapacity 0 (s.tailBytes + data.length)
      (s.tail ++ [⟨stream, data⟩])
    rw [hkept, Nat.sub_zero] at hcut
    rw [if_neg hzero, hcut]
    refine ⟨_, rfl, ?_, ?_, rfl⟩
    · dsimp only
      rw [hdrop, List.length_drop, hlen, Nat.sub_zero]
    · -- What was dropped before lies in front of what is dropped now.
      dsimp only
      rw [hdrop, Nat.sub_zero, ← hlen, chunkBytes_append, chunkBytes_cons, chunkBytes_nil,
        List.append_nil, htail]
      simp only [List.rtake, List.length_append, List.length_drop, List.drop_append, List.drop_drop]
      congr 2 <;> omega

theorem holds_congr {s' : OutputSpool} (h : s.Holds output)
    (hcaptured : s'.capturedBytes = s.capturedBytes) (hbytes : s'.tailBytes = s.tailBytes)
    (htail : s'.tail = s.tail) (hcapacity : s'.tailCapacity = s.tailCapacity) :
    s'.Holds output :=
  ⟨hcaptured ▸ h.captured, by rw [hbytes, htail, h.bytes], by rw [htail, hcapacity, h.tail]⟩

/-- Writing to the file does not concern the tail. -/
theorem Holds.write (h : s.Holds output) (outcomes : List WriteOutcome) (data : List UInt8) :
    (s.write outcomes data).Holds output := by
  fun_induction OutputSpool.write s outcomes data with
  | case1 => exact h
  | case2 => exact holds_congr h rfl rfl rfl rfl
  | case3 => exact holds_congr h rfl rfl rfl rfl
  | case4 _ _ _ _ _ _ ih => exact ih (holds_congr h rfl rfl rfl rfl)
  | case5 => exact holds_congr h rfl rfl rfl rfl

/-- **Capturing output.** It never fails, whatever the calls on the file return, and the tail is
then the end of the output with the new bytes. -/
theorem Holds.append (h : s.Holds output) (outcomes : List WriteOutcome) (stream : OutputStream)
    (data : List UInt8) :
    ∃ s', s.append outcomes stream data = some s' ∧
      s'.Holds (output ++ (OutputChunk.mk stream data).bytes) := by
  obtain ⟨s', hs', hbytes, htail, heq⟩ :=
    @Holds.appendTail { s with capturedBytes := s.capturedBytes + data.length } output
      h.bytes h.tail stream data
  have hholds : s'.Holds (output ++ (OutputChunk.mk stream data).bytes) := by
    refine ⟨?_, hbytes, htail⟩
    rw [heq, List.length_append, OutputChunk.length_bytes, h.captured]
  rw [OutputSpool.append, hs']
  refine ⟨_, rfl, ?_⟩
  dsimp only
  split_ifs
  · exact hholds.write outcomes data
  · exact hholds

theorem Holds.finalize (h : s.Holds output) (sha256 : List UInt8 → String)
    (closeError : Option String) : (s.finalize sha256 closeError).Holds output :=
  holds_congr h rfl rfl rfl rfl

theorem chunkBytes_skip (n : ℕ) (tail : List OutputChunk) :
    chunkBytes (skip n tail) = (chunkBytes tail).drop n := by
  induction tail generalizing n with
  | nil => rw [skip, chunkBytes_nil, List.drop_nil]
  | cons chunk tail ih =>
    rw [skip, chunkBytes_cons, List.drop_append, OutputChunk.length_bytes]
    by_cases hle : chunk.data.length ≤ n
    · have hnil : chunk.bytes.drop n = [] :=
        List.drop_eq_nil_of_le (by rwa [OutputChunk.length_bytes])
      rw [if_pos hle, ih, hnil, List.nil_append]
    · rw [if_neg hle, chunkBytes_cons, ih, Nat.sub_eq_zero_of_le (Nat.le_of_not_le hle)]
      congr 1
      exact List.map_drop

/-- **The preview of a run.** It is the end of the output, up to the given number of bytes. -/
theorem Holds.preview (h : s.Holds output) {limit : ℕ} (hlimit : limit ≤ s.tailCapacity) :
    chunkBytes (s.preview limit) = output.rtake limit := by
  rw [OutputSpool.preview, chunkBytes_skip, h.bytes, h.tail, List.rtake, List.rtake,
    List.length_drop, List.drop_drop]
  congr 1
  omega

/-! ### What is in the file -/

/-- The file holds the beginning of some bytes, all of them if nothing has failed, and the size and
the hash are those of what it holds. -/
structure Stores (s : OutputSpool) (bytes : List UInt8) : Prop where
  hashed : s.hashed = s.stored
  size : s.sizeBytes = s.stored.length
  begins : s.stored <+: bytes
  whole : s.error = none → s.stored = bytes

/-- The file is open as long as nothing has failed. -/
def Live (s : OutputSpool) : Prop := s.isOpen = s.error.isNone

variable {bytes : List UInt8}

theorem stores_create (artifactId : Uuid) (path : String) (tailCapacity : ℕ) :
    (create artifactId path tailCapacity).Stores [] := ⟨rfl, rfl, List.prefix_rfl, fun _ => rfl⟩

theorem Stores.wrote (h : s.Stores bytes) (hopen : s.error = none) (data : List UInt8) :
    (s.wrote data).Stores (bytes ++ data) := by
  have hstored : s.stored ++ data = bytes ++ data := by rw [h.whole hopen]
  refine ⟨?_, ?_, ?_, fun _ => hstored⟩
  · rw [OutputSpool.wrote, h.hashed]
  · rw [OutputSpool.wrote, h.size, List.length_append]
  · exact hstored ▸ List.prefix_rfl

theorem Stores.fail (h : s.Stores bytes) (message : String) (data : List UInt8) :
    (s.fail message).Stores (bytes ++ data) ∧ (s.fail message).Live :=
  ⟨⟨h.hashed, h.size, h.begins.trans (List.prefix_append _ _), nofun⟩, rfl⟩

/-- Writing to an open file. -/
theorem Stores.write (h : s.Stores bytes) (hlive : s.Live) (hopen : s.isOpen = true)
    (outcomes : List WriteOutcome) (data : List UInt8) :
    (s.write outcomes data).Stores (bytes ++ data) ∧ (s.write outcomes data).Live := by
  have herror (s : OutputSpool) (hlive : s.Live) (hopen : s.isOpen = true) : s.error = none :=
    Option.isNone_iff_eq_none.mp (hlive.symm.trans hopen)
  fun_induction OutputSpool.write s outcomes data generalizing bytes with
  | case1 => exact ⟨by rwa [List.append_nil], hlive⟩
  | case2 s data => exact ⟨h.wrote (herror s hlive hopen) data, hlive⟩
  | case3 => exact h.fail _ _
  | case4 s count outcomes data _ _ ih =>
    have hrest := ih (h.wrote (herror s hlive hopen) (data.take count)) hlive hopen
    rwa [List.append_assoc, List.take_append_drop] at hrest
  | case5 => exact h.fail _ _

theorem stores_congr {s' : OutputSpool} (h : s.Stores bytes) (hhashed : s'.hashed = s.hashed)
    (hsize : s'.sizeBytes = s.sizeBytes) (hstored : s'.stored = s.stored)
    (herror : s'.error = s.error) : s'.Stores bytes :=
  ⟨by rw [hhashed, hstored, h.hashed], by rw [hsize, hstored, h.size], hstored ▸ h.begins,
    fun hnone => hstored.trans (h.whole (herror ▸ hnone))⟩

/-- **Writing output to the file.** It and its hash stop at the first failure. -/
theorem Stores.append {s' : OutputSpool} (h : s.Stores bytes) (hlive : s.Live)
    {outcomes : List WriteOutcome} {stream : OutputStream} {data : List UInt8}
    (hs' : s.append outcomes stream data = some s') : s'.Stores (bytes ++ data) ∧ s'.Live := by
  obtain ⟨t, ht, rfl⟩ := Option.map_eq_some_iff.mp hs'
  -- The tail has nothing to do with the file.
  have htail : t.hashed = s.hashed ∧ t.sizeBytes = s.sizeBytes ∧ t.stored = s.stored ∧
      t.error = s.error ∧ t.isOpen = s.isOpen := by
    rw [OutputSpool.appendTail] at ht
    split_ifs at ht
    · cases ht
      exact ⟨rfl, rfl, rfl, rfl, rfl⟩
    · obtain ⟨r, -, rfl⟩ := Option.map_eq_some_iff.mp ht
      exact ⟨rfl, rfl, rfl, rfl, rfl⟩
  obtain ⟨hhashed, hsize, hstored, herror, hopen⟩ := htail
  have hstores := stores_congr h hhashed hsize hstored herror
  have hlive' : t.Live := by rw [Live, hopen, herror]; exact hlive
  split_ifs with ht
  · exact hstores.write hlive' ht outcomes data
  · refine ⟨⟨hstores.hashed, hstores.size, hstores.begins.trans (List.prefix_append _ _), ?_⟩,
      hlive'⟩
    intro hnone
    rw [hlive', hnone] at ht
    exact absurd rfl ht

theorem Stores.finalize (h : s.Stores bytes) (hlive : s.Live) (sha256 : List UInt8 → String)
    (closeError : Option String) : (s.finalize sha256 closeError).Stores bytes ∧
      (s.finalize sha256 closeError).sha256 = some (sha256 s.stored) := by
  refine ⟨⟨h.hashed, h.size, h.begins, fun hnone => h.whole ?_⟩, ?_⟩
  · rw [OutputSpool.finalize] at hnone
    dsimp only at hnone
    split_ifs at hnone with hopen
    · exact Option.isNone_iff_eq_none.mp (hlive.symm.trans hopen)
    · exact hnone
  · rw [OutputSpool.finalize, h.hashed]

end OutputSpool

end ExecutionProvider.Runtime
