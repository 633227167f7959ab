import ExecutionProvider.Protocol.Codec
import ExecutionProvider.Protocol.Framing
import ExecutionProvider.Protocol.JsonValue

/-!
# How responses travel

A response travels on a local stream as a frame, and to a gateway inside a message of the host. A
response that does not fit is replaced by an error, in either envelope.

Texts are read by a library, which is a parameter.

## Main definitions

* `encodeResponse`, `responseText`: a response in its two envelopes.
* `Response.read`, `readMessage`: reading a response out of them.
* `Response.Portable`: the responses that travel.
* `Response.AnsweredBy`: what may arrive instead of a response.

## Main results

* `encodeResponse_spec`, `responseText_spec`: what travels fits, and can be read.
* `transport_sizes`: both transports agree with the limit of a frame.
-/

namespace ExecutionProvider

open Codec

namespace Protocol

/-! ### Writing -/

/-- A response that says that another one is too large. -/
def Response.tooLarge (r : Response) (message : String) : Response :=
  .new r.requestId r.generationId (.error ⟨.resourceLimit, message⟩)

/-- What is said of a response that is larger than a frame. -/
def tooLargeMessage : String := "response exceeds 8 MiB; reduce output, batch, or page size"

/-- What is said of a response that is larger than a message to a gateway. -/
def gatewayTooLargeMessage : String := "gateway response exceeds 8 MiB"

/-- A response as a frame. -/
def encodeResponse (r : Response) : List UInt8 :=
  let frame := (Json.obj r.members).text.utf8
  if frame.length < maxFrameBytes then frame
  else (Json.obj (r.tooLarge tooLargeMessage).members).text.utf8

/-- A message of a host with a response. -/
def responseMessage (response : Json) : Json :=
  .mkObj [("type", .str "response"), ("response", response)]

/-- A response as it is sent to a gateway. -/
def responseText (fromSlice : List UInt8 → Option Json) (r : Response) : Option String :=
  (fromSlice (encodeResponse r)).map fun value =>
    let text := (responseMessage value).text
    if maxFrameBytes ≤ text.utf8ByteSize then
      (responseMessage (.mkObj (r.tooLarge gatewayTooLargeMessage).members)).text
    else text

/-! ### Reading -/

/-- What came of a request. -/
def Outcome.ofMembers (m : Members) : Option Outcome :=
  match m.required "status" text with
  | none => none
  | some status =>
    if status = "ok" then (m.get "result").map .ok
    else if status = "error" then (m.required "error" Error.codec).map .error
    else none

/-- A response. -/
def Response.read (value : Json) : Option Response := do
  let m ← value.namedMembers
  let protocolVersion ← m.required "protocol_version" uint32
  let requestId ← m.optional "request_id" text
  let generationId ← m.required "generation_id" Uuid.codec
  let outcome ← Outcome.ofMembers m
  return { protocolVersion, requestId, generationId, outcome }

/-- The response in a message of a host. -/
def readMessage (value : Json) : Option Response := do
  let m ← value.namedMembers
  let type ← m.required "type" text
  if type = "response" then (m.get "response").bind Response.read else none

namespace Response

variable {r r' : Response}

theorem nodup_members (r : Response) : (r.members.map Prod.fst).Nodup := by
  obtain ⟨_, _, _, outcome⟩ := r
  cases outcome with
  | ok result =>
    exact (by decide :
      ["protocol_version", "request_id", "generation_id", "status", "result"].Nodup)
  | error error =>
    exact (by decide :
      ["protocol_version", "request_id", "generation_id", "status", "error"].Nodup)

/-- A response that was written is read. -/
theorem read_members (r : Response) : read (.mkObj r.members) = some r := by
  have hmembers : (Json.mkObj r.members).namedMembers =
      some ⟨fun name => r.members.lookup name, false⟩ := by
    have hget : (Json.mkObj r.members).get = fun name => r.members.lookup name :=
      funext (Json.get_mkObj_eq_lookup r.nodup_members)
    exact congrArg (fun get => some (Members.mk get false)) hget
  rw [read, hmembers]
  obtain ⟨version, id, generation, outcome⟩ := r
  have hversion : Json.num (toString version) = uint32.write version := rfl
  have hid : Json.ofOption (id.map .str) = text.nullable id := by cases id <;> rfl
  have hgeneration : Json.str generation.text = Uuid.codec.write generation := rfl
  have hstatus (status : String) : text.readRequired (some (.str status)) = some status := rfl
  cases outcome with
  | ok result =>
    simp [members, Json.lookup_cons_eq_ite, hversion, hid, hgeneration, hstatus,
      Outcome.ofMembers]
  | error error =>
    have herror : errorValue error.code.text error.message = Error.codec.write error := rfl
    simp [members, Json.lookup_cons_eq_ite, hversion, hid, hgeneration, hstatus, herror,
      Outcome.ofMembers]

/-! ### Responses that travel -/

/-- Whether a response travels: its identity is one that the transports accept, and its result is a
value that is not too deep for the library. -/
structure Portable (r : Response) : Prop where
  requestId_le : ∀ id ∈ r.requestId, id.utf8ByteSize ≤ 256
  isValue_result : ∀ result, r.outcome = .ok result → Json.IsValue 125 result

/-- Whether a response says that another one is too large, if it is not that response. -/
structure AnsweredBy (r r' : Response) : Prop where
  requestId_eq : r'.requestId = r.requestId
  generationId_eq : r'.generationId = r.generationId
  outcome_eq : r' = r ∨ ∃ message, r'.outcome = .error ⟨.resourceLimit, message⟩

theorem AnsweredBy.refl (r : Response) : r.AnsweredBy r := ⟨rfl, rfl, Or.inl rfl⟩

theorem Portable.requestId_tooLarge (h : r.Portable) (message : String) :
    (r.tooLarge message).requestId = r.requestId := by
  rw [tooLarge, new]
  cases hid : r.requestId with
  | none => rfl
  | some id => simp [Option.filter, h.requestId_le id hid]

theorem Portable.answeredBy_tooLarge (h : r.Portable) (message : String) :
    r.AnsweredBy (r.tooLarge message) :=
  ⟨h.requestId_tooLarge message, rfl, Or.inr ⟨message, rfl⟩⟩

theorem Portable.tooLarge (h : r.Portable) (message : String) : (r.tooLarge message).Portable :=
  ⟨fun id hid => h.requestId_le id (h.requestId_tooLarge message ▸ hid), nofun⟩

/-- The members of a response that travels are values. -/
theorem Portable.isValue_members (h : r.Portable) : ∀ f ∈ r.members, Json.IsValue 125 f.2 := by
  have hversion : Json.IsValue 125 (.num (toString r.protocolVersion)) :=
    (Json.isValue_num_toNat (by have := r.protocolVersion.toNat_lt; omega)).mono (Nat.zero_le _)
  have hid : Json.IsValue 125 (.ofOption (r.requestId.map .str)) := by
    cases r.requestId with
    | none => exact Json.isValue_null.mono (Nat.zero_le _)
    | some id => exact (Json.isValue_str id).mono (Nat.zero_le _)
  have hstr (s : String) : Json.IsValue 125 (.str s) := (Json.isValue_str s).mono (Nat.zero_le _)
  have herror (e : Error) : Json.IsValue 125 (errorValue e.code.text e.message) := by
    have hfields : ∀ f ∈ [("code", Json.str e.code.text), ("message", .str e.message)],
        Json.IsValue 0 f.2 := by
      simp [Json.isValue_str]
    exact (Json.IsValue.mkObj (by simp) hfields).mono (by decide)
  intro f hf
  rw [members, List.mem_append] at hf
  rcases hf with hf | hf
  · simp only [List.mem_cons, List.not_mem_nil, or_false] at hf
    rcases hf with rfl | rfl | rfl
    · exact hversion
    · exact hid
    · exact hstr _
  · cases houtcome : r.outcome with
    | ok result =>
      simp only [houtcome, List.mem_cons, List.not_mem_nil, or_false] at hf
      rcases hf with rfl | rfl
      · exact hstr _
      · exact h.isValue_result result houtcome
    | error error =>
      simp only [houtcome, List.mem_cons, List.not_mem_nil, or_false] at hf
      rcases hf with rfl | rfl
      · exact hstr _
      · exact herror error

theorem size_errorValue_le (e : Error) :
    (errorValue e.code.text e.message).size ≤ 6 * e.message.length + 300 := by
  have hcode := Json.memberSize_le "code" (.str e.code.text)
  have hmessage := Json.memberSize_le "message" (.str e.message)
  have hnames : "code".length = 4 ∧ "message".length = 7 := by decide
  have htext := Json.size_str_le e.code.text
  have hlength : e.code.text.length ≤ 21 := by cases e.code <;> decide
  have hstr := Json.size_str_le e.message
  refine (Json.size_mkObj_le (by simp)).trans ?_
  simp only [List.map_cons, List.map_nil, List.sum_cons, List.sum_nil]
  omega

/-- An error about the size is small. -/
theorem Portable.sum_tooLarge_le (h : r.Portable) {message : String}
    (hmessage : message.length ≤ 100) :
    ((r.tooLarge message).members.map Json.memberSize).sum ≤ 4000 := by
  have hid : (Json.ofOption ((r.tooLarge message).requestId.map .str)).size ≤ 1538 := by
    rw [h.requestId_tooLarge]
    cases hid : r.requestId with
    | none => decide
    | some id =>
      have hsize := Json.size_str_le id
      have hlength := String.length_le_utf8ByteSize id
      have hle := h.requestId_le id hid
      show (Json.str id).size ≤ 1538
      omega
  have hgeneration := Json.size_str_le r.generationId.text
  rw [r.generationId.length_text] at hgeneration
  have herror : (errorValue ErrorCode.resourceLimit.text message).size ≤
      6 * message.length + 300 := size_errorValue_le ⟨.resourceLimit, message⟩
  have hversion : (Json.num (toString version)).size = 1 := by decide
  have hstatus : (Json.str "error").size = 7 := by decide
  have h1 := Json.memberSize_le "protocol_version" (.num (toString version))
  have h2 := Json.memberSize_le "request_id" (.ofOption ((r.tooLarge message).requestId.map .str))
  have h3 := Json.memberSize_le "generation_id" (.str r.generationId.text)
  have h4 := Json.memberSize_le "status" (.str "error")
  have h5 := Json.memberSize_le "error" (errorValue ErrorCode.resourceLimit.text message)
  have hnames : "protocol_version".length = 16 ∧ "request_id".length = 10 ∧
      "generation_id".length = 13 ∧ "status".length = 6 ∧ "error".length = 5 := by decide
  have hmembers : (r.tooLarge message).members.map Json.memberSize =
      [Json.memberSize ("protocol_version", .num (toString version)),
        Json.memberSize ("request_id", .ofOption ((r.tooLarge message).requestId.map .str)),
        Json.memberSize ("generation_id", .str r.generationId.text),
        Json.memberSize ("status", .str "error"),
        Json.memberSize ("error", errorValue ErrorCode.resourceLimit.text message)] := rfl
  rw [hmembers]
  simp only [List.sum_cons, List.sum_nil]
  omega

end Response

/-! ### The two transports -/

variable {fromSlice : List UInt8 → Option Json} {r : Response}

theorem length_utf8_text (value : Json) : value.text.utf8.length = value.size := by
  rw [String.length_utf8, Json.utf8ByteSize_text]

/-- A frame is that of the response or of an error about its size, and fits. -/
theorem encodeResponse_spec (h : r.Portable) :
    ∃ r', encodeResponse r = (Json.obj r'.members).text.utf8 ∧ r'.Portable ∧ r.AnsweredBy r' ∧
      (encodeResponse r).length < maxFrameBytes := by
  rw [encodeResponse]
  split_ifs with hfits
  · exact ⟨r, rfl, h, .refl r, hfits⟩
  · refine ⟨_, rfl, h.tooLarge _, h.answeredBy_tooLarge _, ?_⟩
    rw [length_utf8_text]
    have hsize := Json.size_obj_le (r.tooLarge tooLargeMessage).members
    have hsum := h.sum_tooLarge_le (by decide : tooLargeMessage.length ≤ 100)
    have hlimit : 5000 < maxFrameBytes := by decide
    omega

/-- A frame has one line. -/
theorem newline_notMem_encodeResponse (h : r.Portable) :
    Framing.newline ∉ encodeResponse r := by
  obtain ⟨r', hframe, -⟩ := encodeResponse_spec h
  rw [hframe]
  intro hmem
  have hchar := (String.mem_utf8_iff (c := '\n') (by decide)).mp hmem
  rw [Json.text, String.toList_ofList] at hchar
  exact Json.newline_notMem_chars _ hchar

/-- A response is read out of a message of a host. -/
theorem read_responseMessage (hread : ReadsJson fromSlice) (h : r.Portable) :
    (fromSlice (responseMessage (.mkObj r.members)).text.utf8).bind readMessage = some r := by
  have hmembers : Json.IsValue 126 (.mkObj r.members) :=
    Json.IsValue.mkObj r.nodup_members h.isValue_members
  have htype : Json.IsValue 126 (.str "response") := (Json.isValue_str _).mono (Nat.zero_le _)
  have hmessage : Json.IsValue 127 (responseMessage (.mkObj r.members)) :=
    Json.IsValue.mkObj (by simp) (by simp [hmembers, htype])
  rw [hread.read_value hmessage, Option.bind_some]
  have hget : (responseMessage (.mkObj r.members)).get =
      fun name => [("type", .str "response"), ("response", .mkObj r.members)].lookup name :=
    funext (Json.get_mkObj_eq_lookup (by simp))
  have hnamed : (responseMessage (.mkObj r.members)).namedMembers =
      some ⟨(responseMessage (.mkObj r.members)).get, false⟩ := rfl
  rw [readMessage, hnamed, hget]
  exact r.read_members

theorem size_responseMessage_le (response : Json) :
    (responseMessage response).size ≤ response.size + 200 := by
  have htype := Json.memberSize_le "type" (.str "response")
  have hresponse := Json.memberSize_le "response" response
  have hsize : (Json.str "response").size = 10 := by decide
  have hnames : "type".length = 4 ∧ "response".length = 8 := by decide
  refine (Json.size_mkObj_le (by simp)).trans ?_
  simp only [List.map_cons, List.map_nil, List.sum_cons, List.sum_nil]
  omega

/-- The text for a gateway fits, too. -/
theorem responseText_spec (hread : ReadsJson fromSlice) (h : r.Portable) :
    ∃ text r', responseText fromSlice r = some text ∧ text.utf8ByteSize < maxFrameBytes ∧
      r.AnsweredBy r' ∧ (fromSlice text.utf8).bind readMessage = some r' := by
  obtain ⟨r', hframe, hportable, hanswered, -⟩ := encodeResponse_spec h
  have hvalue : fromSlice (encodeResponse r) = some (.mkObj r'.members) := by
    have hmembers := hread.read_obj
      (fun f hf => (hportable.isValue_members f hf).mono (by decide)) 0
    rwa [List.replicate_zero, List.append_nil, ← hframe] at hmembers
  rw [responseText, hvalue, Option.map_some]
  dsimp only
  split_ifs with hlarge
  · refine ⟨_, _, rfl, ?_, h.answeredBy_tooLarge _, read_responseMessage hread (h.tooLarge _)⟩
    rw [Json.utf8ByteSize_text]
    have hmessage := size_responseMessage_le (.mkObj (r.tooLarge gatewayTooLargeMessage).members)
    have hsize := Json.size_mkObj_le (r.tooLarge gatewayTooLargeMessage).nodup_members
    have hsum := h.sum_tooLarge_le (by decide : gatewayTooLargeMessage.length ≤ 100)
    have hlimit : 5000 < maxFrameBytes := by decide
    omega
  · exact ⟨_, r', rfl, Nat.lt_of_not_le hlarge, hanswered, read_responseMessage hread hportable⟩

/-- A frame is read as the response or an error about its size, with its newline or without. -/
theorem read_encodeResponse (hread : ReadsJson fromSlice) (h : r.Portable) (lines : ℕ) :
    ∃ r', (fromSlice (encodeResponse r ++ List.replicate lines Framing.newline)).bind
      Response.read = some r' ∧ r.AnsweredBy r' := by
  obtain ⟨r', hframe, hportable, hanswered, -⟩ := encodeResponse_spec h
  have hmembers := hread.read_obj
    (fun f hf => (hportable.isValue_members f hf).mono (by decide)) lines
  rw [← hframe] at hmembers
  exact ⟨r', by rw [Framing.newline, hmembers]; exact r'.read_members, hanswered⟩

/-- **The transports agree on sizes.** A frame with a response is accepted by a local stream, the
text for a gateway is smaller than the largest frame, and out of both a response with the same
identities is read: the response itself, or an error about its size. Frames of one line that were
accepted are read from a local stream in their order, and then the end of the input, however the
bytes arrive. -/
theorem transport_sizes (hread : ReadsJson fromSlice) :
    (∀ r : Response, r.Portable →
      ((encodeResponse r).length < maxFrameBytes ∧ Framing.newline ∉ encodeResponse r ∧
        (∀ stream, Framing.write stream (encodeResponse r) =
          .ok (stream ++ encodeResponse r ++ [Framing.newline])) ∧
        ∀ lines, ∃ r', (fromSlice (encodeResponse r ++ List.replicate lines Framing.newline)).bind
          Response.read = some r' ∧ r.AnsweredBy r') ∧
      ∃ text r', responseText fromSlice r = some text ∧ text.utf8ByteSize < maxFrameBytes ∧
        r.AnsweredBy r' ∧ (fromSlice text.utf8).bind readMessage = some r') ∧
    ∀ frames written reader, Framing.writes [] frames = .ok written →
      (∀ frame ∈ frames, Framing.newline ∉ frame) → reader.flatten = written →
        Framing.reads (frames.length + 1) reader =
          frames.map (fun frame => .ok (frame ++ [Framing.newline])) ++
            [.error Framing.endOfInput] := by
  refine ⟨fun r h => ⟨?_, responseText_spec hread h⟩,
    fun _ _ _ hwritten hframes harrive => Framing.reads_of_writes hwritten hframes harrive⟩
  obtain ⟨_, -, -, -, hsize⟩ := encodeResponse_spec h
  exact ⟨hsize, newline_notMem_encodeResponse h,
    fun stream => Framing.write_eq_ok.mpr ⟨hsize, rfl⟩, read_encodeResponse hread h⟩

/-- A response travels on a stream, and two frames are read from it although they arrive in two
pieces, the first of which ends inside the second frame. -/
theorem transport_sizes_two :
    (∃ text r', responseText ReadsJson.undoWriting (.new (some "a") (.numbered 1) (.ok .null)) =
      some text ∧ (ReadsJson.undoWriting text.utf8).bind readMessage = some r' ∧
        r'.requestId = some "a") ∧
    Framing.reads 3 [[97, 10, 98], [10]] =
      [.ok [97, 10], .ok [98, 10], .error Framing.endOfInput] := by
  have h := transport_sizes ReadsJson.readsJson_undoWriting
  have hportable : (Response.new (some "a") (.numbered 1) (.ok .null)).Portable := by
    constructor
    · intro id hid
      obtain rfl := Option.some.inj hid
      decide
    · intro result hresult
      obtain rfl := Outcome.ok.inj hresult
      exact Json.isValue_null.mono (Nat.zero_le _)
  obtain ⟨-, text, r', htext, -, hanswered, hread⟩ := h.1 _ hportable
  refine ⟨⟨text, r', htext, hread, hanswered.requestId_eq⟩, ?_⟩
  exact h.2 [[97], [98]] [97, 10, 98, 10] [[97, 10, 98], [10]] rfl (by decide) rfl

/-- A frame of two lines is accepted, and read as two. -/
theorem not_forall_reads_of_writes :
    ¬∀ frames written reader, Framing.writes [] frames = .ok written → reader.flatten = written →
      Framing.reads (frames.length + 1) reader =
        frames.map (fun frame => .ok (frame ++ [Framing.newline])) ++
          [.error Framing.endOfInput] := by
  intro hall
  have htwo := hall [[97, 10, 98]] [97, 10, 98, 10] [[97, 10, 98, 10]] rfl rfl
  have hfirst := (List.cons.inj htwo).1
  have hline : (Framing.read [[97, 10, 98, 10]]).1 = .ok [97, 10] := rfl
  rw [hline] at hfirst
  cases hfirst

end Protocol

end ExecutionProvider
