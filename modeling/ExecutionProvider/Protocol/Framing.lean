import ExecutionProvider.Foundation.Occurrences
import ExecutionProvider.Protocol.Messages

/-!
# Frames on a local stream

On a local stream a frame is followed by a newline, and a frame is read up to the next newline.
The bytes of the stream arrive in pieces.

## Main definitions

* `validate`, `write`: which frames are accepted, and writing one.
* `readUntil`, `read`: reading one frame.
* `writes`, `reads`: writing and reading one frame after another.

## Main results

* `read_of_flatten_eq`: a frame is read however its bytes arrive.
* `reads_of_writes`: what was written is read.
-/

namespace ExecutionProvider.Protocol.Framing

/-- The byte behind a frame. -/
def newline : UInt8 := 10

/-- The kinds of failures. -/
inductive ErrorKind
  | unexpectedEof
  | invalidData
deriving DecidableEq

/-- A failure of a stream. -/
structure IoError where
  kind : ErrorKind
  message : String
deriving DecidableEq

/-- What is still to arrive, in pieces. An empty piece brings nothing. -/
abbrev Reader := List (List UInt8)

/-- The bytes up to a newline, at most so many of them. -/
def readUntil : ℕ → Reader → List UInt8 × Reader
  | _, [] => ([], [])
  | limit, piece :: reader =>
    match (piece.take limit).idxOf? newline with
    | some i => (piece.take (i + 1), piece.drop (i + 1) :: reader)
    | none =>
      if piece.length < limit then
        let (frame, reader) := readUntil (limit - piece.length) reader
        (piece ++ frame, reader)
      else (piece.take limit, piece.drop limit :: reader)

/-- Whether a frame is accepted. -/
def validate (frame : List UInt8) : Except IoError Unit :=
  if frame = [] then .error ⟨.unexpectedEof, "no RPC frame received"⟩
  else if maxFrameBytes < frame.length then .error ⟨.invalidData, "RPC frame exceeds 8 MiB"⟩
  else .ok ()

/-- Reading a frame, with its newline. -/
def read (reader : Reader) : Except IoError (List UInt8) × Reader :=
  let (frame, reader) := readUntil (maxFrameBytes + 1) reader
  ((validate frame).map fun () => frame, reader)

/-- Writing a frame behind what was written. -/
def write (stream frame : List UInt8) : Except IoError (List UInt8) :=
  if maxFrameBytes ≤ frame.length then .error ⟨.invalidData, "RPC frame exceeds 8 MiB"⟩
  else .ok (stream ++ frame ++ [newline])

/-- Writing one frame after another. -/
def writes (stream : List UInt8) : List (List UInt8) → Except IoError (List UInt8)
  | [] => .ok stream
  | frame :: frames =>
    match write stream frame with
    | .error e => .error e
    | .ok stream => writes stream frames

/-- Reading one frame after another. -/
def reads : ℕ → Reader → List (Except IoError (List UInt8))
  | 0, _ => []
  | n + 1, reader => (read reader).1 :: reads n (read reader).2

/-- The end of the input. -/
def endOfInput : IoError := ⟨.unexpectedEof, "no RPC frame received"⟩

variable {limit : ℕ} {frame rest stream written : List UInt8} {frames : List (List UInt8)}
  {reader : Reader}

/-! ### Reading -/

/-- A piece without a newline is read as a whole where there is room for it. -/
theorem readUntil_cons_of_notMem {piece : List UInt8} (hpiece : newline ∉ piece)
    (hlimit : piece.length < limit) (reader : Reader) :
    readUntil limit (piece :: reader) =
      (piece ++ (readUntil (limit - piece.length) reader).1,
        (readUntil (limit - piece.length) reader).2) := by
  rw [readUntil, List.take_of_length_le (Nat.le_of_lt hlimit), List.idxOf?_eq_none_iff.mpr hpiece]
  exact if_pos hlimit

/-- A piece is read up to its newline. -/
theorem readUntil_cons_append (hframe : newline ∉ frame) (hlimit : frame.length < limit)
    (rest : List UInt8) (reader : Reader) :
    readUntil limit ((frame ++ newline :: rest) :: reader) =
      (frame ++ [newline], rest :: reader) := by
  obtain ⟨room, rfl⟩ := Nat.exists_eq_add_of_lt hlimit
  have htake : (frame ++ newline :: rest).take (frame.length + room + 1) =
      frame ++ newline :: rest.take room := by
    rw [List.take_append, List.take_of_length_le (by omega),
      show frame.length + room + 1 - frame.length = room + 1 by omega, List.take_succ_cons]
  have hline : (frame ++ newline :: rest).take (frame.length + 1) = frame ++ [newline] := by
    simp [List.take_append]
  have hbehind : (frame ++ newline :: rest).drop (frame.length + 1) = rest := by
    simp [List.drop_append]
  rw [readUntil, htake, List.idxOf?_append_cons hframe]
  dsimp only
  rw [hline, hbehind]

/-- A line that fits is read up to its newline, however its bytes arrive. -/
theorem readUntil_of_flatten_eq (h : reader.flatten = frame ++ newline :: rest)
    (hframe : newline ∉ frame) (hlimit : frame.length < limit) :
    (readUntil limit reader).1 = frame ++ [newline] ∧
      (readUntil limit reader).2.flatten = rest := by
  induction reader generalizing limit frame with
  | nil => simp at h
  | cons piece reader ih =>
    -- The newline is in another piece, or in this one.
    rcases List.append_eq_append_iff.mp h with ⟨later, rfl, hreader⟩ | ⟨inside, rfl, hinside⟩
    · obtain ⟨hpiece, hlater⟩ := not_or.mp (List.mem_append.not.mp hframe)
      rw [List.length_append] at hlimit
      obtain ⟨hline, hrest⟩ := ih hreader hlater (by omega : _ < limit - piece.length)
      rw [readUntil_cons_of_notMem hpiece (by omega), hline, List.append_assoc]
      exact ⟨rfl, hrest⟩
    · rcases List.cons_eq_append_iff.mp hinside with ⟨rfl, hreader⟩ | ⟨inside, rfl, rfl⟩
      · rw [List.append_nil]
        have hreader : reader.flatten = [] ++ newline :: rest := hreader
        obtain ⟨hline, hrest⟩ := ih hreader List.not_mem_nil (Nat.sub_pos_of_lt hlimit)
        rw [readUntil_cons_of_notMem hframe hlimit, hline]
        exact ⟨rfl, hrest⟩
      · rw [readUntil_cons_append hframe hlimit]
        exact ⟨rfl, rfl⟩

theorem readUntil_of_flatten_eq_nil (h : reader.flatten = []) (hlimit : 0 < limit) :
    (readUntil limit reader).1 = [] ∧ (readUntil limit reader).2.flatten = [] := by
  induction reader with
  | nil => exact ⟨rfl, rfl⟩
  | cons piece reader ih =>
    obtain ⟨rfl, h⟩ := List.append_eq_nil_iff.mp h
    rw [readUntil_cons_of_notMem List.not_mem_nil hlimit]
    exact ih h

/-- A frame that was accepted is read, with its newline. -/
theorem read_of_flatten_eq (h : reader.flatten = frame ++ newline :: rest)
    (hframe : newline ∉ frame) (hsize : frame.length < maxFrameBytes) :
    (read reader).1 = .ok (frame ++ [newline]) ∧ (read reader).2.flatten = rest := by
  obtain ⟨hline, hrest⟩ := readUntil_of_flatten_eq h hframe
    (by omega : frame.length < maxFrameBytes + 1)
  refine ⟨?_, hrest⟩
  have hvalid : validate (frame ++ [newline]) = .ok () := by
    rw [validate, if_neg (List.append_ne_nil_of_right_ne_nil _ (List.cons_ne_nil _ _)), if_neg]
    rw [List.length_append, List.length_singleton]
    omega
  show (validate (readUntil (maxFrameBytes + 1) reader).1).map _ = _
  rw [hline, hvalid]
  rfl

theorem read_of_flatten_eq_nil (h : reader.flatten = []) :
    (read reader).1 = .error endOfInput := by
  show (validate (readUntil (maxFrameBytes + 1) reader).1).map _ = _
  rw [(readUntil_of_flatten_eq_nil h (Nat.succ_pos _)).1]
  rfl

/-! ### Reading what was written -/

theorem write_eq_ok : write stream frame = .ok written ↔
    frame.length < maxFrameBytes ∧ stream ++ frame ++ [newline] = written := by
  rw [write]
  split_ifs with h
  · exact ⟨nofun, fun hsize => absurd hsize.1 (Nat.not_lt.mpr h)⟩
  · exact ⟨fun heq => ⟨Nat.lt_of_not_le h, Except.ok.inj heq⟩, fun heq => congrArg _ heq.2⟩

/-- What is written are the accepted frames, each with its newline. -/
theorem writes_eq_ok (h : writes stream frames = .ok written) :
    (∀ frame ∈ frames, frame.length < maxFrameBytes) ∧
      written = stream ++ frames.flatMap (· ++ [newline]) := by
  induction frames generalizing stream with
  | nil => exact ⟨nofun, by simpa [writes] using h.symm⟩
  | cons frame frames ih =>
    rw [writes] at h
    cases hwrite : write stream frame with
    | error e => simp [hwrite] at h
    | ok next =>
      rw [hwrite] at h
      obtain ⟨hall, rfl⟩ := ih h
      obtain ⟨hsize, rfl⟩ := write_eq_ok.mp hwrite
      refine ⟨List.forall_mem_cons.mpr ⟨hsize, hall⟩, ?_⟩
      simp only [List.flatMap_cons, List.append_assoc]

/-- What was written is read, and then the end of the input. -/
theorem reads_of_flatten_eq (h : reader.flatten = frames.flatMap (· ++ [newline]))
    (hsizes : ∀ frame ∈ frames, frame.length < maxFrameBytes)
    (hframes : ∀ frame ∈ frames, newline ∉ frame) :
    reads (frames.length + 1) reader =
      frames.map (fun frame => .ok (frame ++ [newline])) ++ [.error endOfInput] := by
  induction frames generalizing reader with
  | nil =>
    show [(read reader).1] = _
    rw [read_of_flatten_eq_nil h]
    rfl
  | cons frame frames ih =>
    rw [List.flatMap_cons, List.append_assoc, List.singleton_append] at h
    obtain ⟨hframe, hrest⟩ := read_of_flatten_eq h (hframes frame List.mem_cons_self)
      (hsizes frame List.mem_cons_self)
    rw [List.length_cons, reads, hframe, ih hrest (fun f hf => hsizes f (List.mem_cons_of_mem _ hf))
      fun f hf => hframes f (List.mem_cons_of_mem _ hf)]
    rfl

/-- **What was written is read.** Frames that were accepted and contain no newline are read in
their order, each with its newline, and behind them is the end of the input, however the bytes
arrive. -/
theorem reads_of_writes (hwritten : writes [] frames = .ok written)
    (hframes : ∀ frame ∈ frames, newline ∉ frame) (harrive : reader.flatten = written) :
    reads (frames.length + 1) reader =
      frames.map (fun frame => .ok (frame ++ [newline])) ++ [.error endOfInput] := by
  obtain ⟨hsizes, rfl⟩ := writes_eq_ok hwritten
  exact reads_of_flatten_eq harrive hsizes hframes

end ExecutionProvider.Protocol.Framing
