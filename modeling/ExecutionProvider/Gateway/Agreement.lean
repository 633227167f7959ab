import ExecutionProvider.Gateway.Requests
import ExecutionProvider.Protocol.Dispatcher
import ExecutionProvider.Protocol.JsonSize

/-!
# What the gateway admits, a host accepts

The gateway judges a request when it is submitted, a host when it arrives. Between the two the
request is brought into a normal form, gets its identity and the generation of the host, and
travels as the text of a message whose size is limited. The normal form leaves room for all that.

## Main definitions

* `requestPlatform`: the requests of the protocol, and JSON as it is written.
* `requestMessage`, `readRequestMessage`, `encode`: the message that carries a request.

## Main results

* `normalize_eq_ok_iff`: what is admitted, and its normal form.
* `admission_agrees`: what is admitted is its own normal form, fits into a message, is read from it
  and is accepted by the host; and what no host accepts is not admitted.
-/

namespace ExecutionProvider.Gateway

open Protocol
open String (utf8Len)

/-! ### Messages -/

/-- The message that carries a request. -/
def requestMessage (request : Request Payload) : Json :=
  .record [("type", some (.str "request")), ("request", some request.write)]

/-- The request that a message carries. -/
def readRequestMessage (message : Json) : Option (Request Payload) :=
  (message.tagged "type").bind fun t =>
    if t.1 = "request" then
      (t.2.members ["request"]).bind fun m => (m.get "request").bind Request.read
    else none

/-- The text of a message, if it is not too long. -/
def encode (message : Json) : Except GatewayError String :=
  if maxFrameBytes ≤ message.text.utf8ByteSize then
    .error (.invalid "message exceeds transport limit")
  else .ok message.text

/-- The request is read from its message. -/
theorem readRequestMessage_requestMessage (request : Request Payload) :
    readRequestMessage (requestMessage request) = some request := by
  obtain ⟨content, htag, hmembers, -⟩ :=
    Json.exists_tagged_record "type" "request" [("request", some request.write)] (by simp)
  rw [readRequestMessage, requestMessage, htag, Option.bind_some, if_pos rfl, hmembers,
    Option.bind_some]
  exact Request.read_write request

/-! ### Reading requests -/

/-- A request is read from any object with its members. -/
theorem read_eq_some {fields : List (String × Json)} {request : Request Payload}
    (hversion : fields.lookup "protocol_version" =
      some (Codec.uint32.write request.protocolVersion))
    (hid : fields.lookup "request_id" = some (.str request.requestId))
    (hgeneration : fields.lookup "expected_generation_id" =
      request.expectedGenerationId.map Uuid.codec.write)
    (hpayload : ∀ name ∉ envelopeFields,
      fields.lookup name = (request.payload.members.lookup name).join)
    (hmem : ∀ f ∈ fields, f.1 ∈ envelopeFields ∨ f.1 ∈ request.payload.members.map Prod.fst) :
    Request.read (.obj fields) = some request := by
  have hnames : ∀ name ∈ envelopeFields, (request.payload.members.lookup name).join = none := by
    intro name hname
    have hn := request.nodup_members
    rw [List.map_append] at hn
    have hnot : name ∉ request.payload.members.map Prod.fst :=
      List.disjoint_of_nodup_append hn hname
    rw [List.lookup_eq_none_iff.mpr]
    · rfl
    · intro m hm
      simpa using fun heq => hnot (List.mem_map.mpr ⟨m, hm, Eq.symm heq⟩)
  have hread : Payload.ofFields (Json.without envelopeFields fields) = some request.payload := by
    refine Payload.ofFields_members (fun name => ?_) fun f hf => ?_
    · rw [Json.lookup_without]
      split_ifs with h
      · exact (hnames name h).symm
      · exact hpayload name h
    · obtain ⟨hf, hne⟩ := List.mem_filter.mp hf
      have hne : f.1 ∉ envelopeFields := by simpa using hne
      exact (hmem f hf).resolve_left hne
  rw [Request.read]
  simp only [Members.required, Members.skippable, hversion, hid, hgeneration, hread,
    Codec.readRequired_write, Codec.readSkippable_map]
  rfl

theorem mem_insertField {f : String × Json} {name : String} {value : Json}
    {fields : List (String × Json)} (h : f ∈ Json.insertField name value fields) :
    f.1 = name ∨ f ∈ fields := by
  induction fields with
  | nil => exact Or.inl (congrArg Prod.fst (List.mem_singleton.mp h))
  | cons g fields ih =>
    obtain ⟨n, v⟩ := g
    rw [Json.insertField] at h
    split_ifs at h with hlt heq
    · rcases List.mem_cons.mp h with rfl | h
      · exact Or.inl rfl
      · exact Or.inr h
    · rcases List.mem_cons.mp h with rfl | h
      · exact Or.inl rfl
      · exact Or.inr (List.mem_cons_of_mem _ h)
    · rcases List.mem_cons.mp h with rfl | h
      · exact Or.inr List.mem_cons_self
      · exact (ih h).imp_right (List.mem_cons_of_mem _)

theorem without_insertField {names : List String} {name : String} (h : name ∈ names)
    (value : Json) (fields : List (String × Json)) :
    Json.without names (Json.insertField name value fields) = Json.without names fields := by
  have hcontains : names.contains name = true := List.contains_iff_mem.mpr h
  induction fields with
  | nil => simp [Json.insertField, Json.without, h]
  | cons f fields ih =>
    obtain ⟨n, v⟩ := f
    rw [Json.insertField]
    split_ifs with hlt heq
    · simp [Json.without, h]
    · simp [Json.without, h, ← heq]
    · rw [Json.without, List.filter_cons, ← Json.without, ih, Json.without, Json.without,
        List.filter_cons]

/-! ### The platform of the gateway -/

section Platform

variable (sha256 : String → String) (timestamp : ℕ → String) (retentionDays : ℕ)

/-- What the gateway takes from its libraries: the requests of the protocol, and JSON as it is
written. -/
def requestPlatform : Platform Payload where
  kind := Payload.kind
  decodePayload
    | .obj fields => Payload.ofFields (Json.without envelopeFields fields)
    | _ => none
  encodePayload payload := Json.present payload.members
  jsonText := Json.text
  sha256 := sha256
  timestamp := timestamp
  retentionDays := retentionDays

theorem readSkippable_uuid (value : Option Json) :
    Uuid.codec.readSkippable value = readGeneration value := by
  match value with
  | none => rfl
  | some .null => rfl
  | some (.bool _) => rfl
  | some (.num _) => rfl
  | some (.str _) => rfl
  | some (.arr _) => rfl
  | some (.obj _) => rfl

/-- The gateway reads requests as hosts do. -/
theorem decodeRequest_eq (value : Json) :
    decodeRequest (requestPlatform sha256 timestamp retentionDays) value = Request.read value := by
  cases value with
  | obj fields =>
    unfold decodeRequest
    split
    · next n id generation payload hn hid hg hp =>
      have hn : fields.lookup "protocol_version" = some (.num n) := hn
      have hid : fields.lookup "request_id" = some (.str id) := hid
      have hg : Uuid.codec.readSkippable (fields.lookup "expected_generation_id") =
          some generation := (readSkippable_uuid _).trans hg
      have hp : Payload.ofFields (Json.without envelopeFields fields) = some payload := hp
      simp only [Request.read, Members.required, Members.skippable, hn, hid, hg, hp]
      cases hnat : Json.natOfLiteral n with
      | none => simp [Codec.readRequired, Codec.uint32, Codec.ofNat, hnat]
      | some k =>
        by_cases hlt : k < UInt32.size
        · simp [Codec.readRequired, Codec.uint32, Codec.ofNat, Codec.text, Json.asStr, hnat, hlt]
        · simp [Codec.readRequired, Codec.uint32, Codec.ofNat, hnat, hlt]
    · next hnone =>
      -- What a host reads as a request has the members that the gateway looks for.
      symm
      by_contra hsome
      obtain ⟨r, hr⟩ := Option.ne_none_iff_exists'.mp hsome
      obtain ⟨version, hversion, hr⟩ := Option.bind_eq_some_iff.mp hr
      obtain ⟨id, hid, hr⟩ := Option.bind_eq_some_iff.mp hr
      obtain ⟨generation, hgeneration, hr⟩ := Option.bind_eq_some_iff.mp hr
      obtain ⟨payload, hpayload, -⟩ := Option.bind_eq_some_iff.mp hr
      obtain ⟨version, hlookup, hversion⟩ := Option.bind_eq_some_iff.mp hversion
      obtain ⟨id, hlookup', hid⟩ := Option.bind_eq_some_iff.mp hid
      cases version with
      | num n =>
        cases id with
        | str id =>
          exact hnone n id generation payload hlookup hlookup'
            ((readSkippable_uuid _).symm.trans hgeneration) hpayload
        | null | bool | num | arr | obj => cases hid
      | null | bool | str | arr | obj => cases hversion
  | null | bool | num | str | arr => rfl

/-! ### Normal forms -/

/-- The normal form of a request. -/
def normalForm (request : Request Payload) : Json :=
  .record (.skippable "expected_generation_id" Uuid.codec request.expectedGenerationId ::
    request.payload.members)

theorem nodup_normalForm (request : Request Payload) :
    (((.skippable "expected_generation_id" Uuid.codec request.expectedGenerationId ::
      request.payload.members : List Member)).map Prod.fst).Nodup := by
  have hn := request.nodup_members
  rw [Request.envelope, List.cons_append, List.cons_append, List.map_cons, List.map_cons] at hn
  exact (List.nodup_cons.mp (List.nodup_cons.mp hn).2).2

theorem encodeNormal_eq (request : Request Payload) :
    encodeNormal (requestPlatform sha256 timestamp retentionDays) request = normalForm request := by
  cases h : request.expectedGenerationId with
  | none => simp [encodeNormal, normalForm, requestPlatform, Json.record, Json.present, h]
  | some g =>
    simp [encodeNormal, normalForm, requestPlatform, Json.record, Json.present, h, Uuid.codec]

/-- A request is read from its normal form with the members of a dispatch. -/
theorem read_normalForm (request : Request Payload) {fields extended : List (String × Json)}
    {id : String} {generation : Option Uuid} (hfields : normalForm request = .obj fields)
    (hversion : extended.lookup "protocol_version" = some (.num (toString Protocol.version)))
    (hid : extended.lookup "request_id" = some (.str id))
    (hgeneration : extended.lookup "expected_generation_id" = generation.map Uuid.codec.write)
    (hlookup : ∀ name ∉ envelopeFields, extended.lookup name = fields.lookup name)
    (hmem : ∀ f ∈ extended, f.1 ∈ envelopeFields ∨ f ∈ fields) :
    Request.read (.obj extended) = some ⟨Protocol.version, id, generation, request.payload⟩ := by
  obtain ⟨fields', hfields', hlookup', hmem'⟩ := Json.exists_record (nodup_normalForm request)
  rw [show normalForm request = .obj fields' from hfields', Json.obj.injEq] at hfields
  subst hfields
  refine read_eq_some hversion hid hgeneration (fun name hname => ?_) fun f hf => ?_
  · rw [hlookup name hname, hlookup', Member.skippable, List.lookup_cons]
    rw [beq_eq_false_iff_ne.mpr fun heq => hname (by simp [envelopeFields, heq])]
  · rcases hmem f hf with h | h
    · exact Or.inl h
    · rcases List.mem_cons.mp (hmem' f h) with heq | h
      · exact Or.inl (by simp [envelopeFields, heq])
      · exact Or.inr h

/-- The request that is submitted in the form of a value, with the identity of no request. -/
def submitted (value : Json) : Option (Request Payload) :=
  value.asObject.bind fun fields =>
    if fields.any fun f => !requestFields.contains f.1 then none
    else Request.read (.obj (Json.insertField "request_id" (.str nilText)
      (Json.insertField "protocol_version" (.num (toString Protocol.version)) fields)))

/-- What is admitted: a request whose operations are available and whose normal form is not too
large. -/
theorem normalize_eq_ok_iff {value normal : Json} :
    normalize (requestPlatform sha256 timestamp retentionDays) value = .ok normal ↔
      ∃ request, submitted value = some request ∧
        validatePayload request.payload.kind = .ok () ∧
        (normalForm request).size ≤ maxFrameBytes - 1024 ∧ normal = normalForm request := by
  unfold normalize submitted
  cases hobject : value.asObject with
  | none => simp
  | some fields =>
    dsimp only
    rw [Option.bind_some]
    by_cases hforeign : (fields.any fun f => !requestFields.contains f.1) = true
    · simp only [hforeign, if_true, reduceCtorEq, false_and, exists_false]
    · rw [if_neg hforeign, if_neg hforeign, decodeRequest_eq]
      cases Request.read (.obj (Json.insertField "request_id" (.str nilText)
        (Json.insertField "protocol_version" (.num (toString Protocol.version)) fields))) with
      | none => simp
      | some request =>
        dsimp only
        rw [encodeNormal_eq]
        simp only [Option.some.injEq, exists_eq_left']
        cases hvalid : validatePayload request.payload.kind with
        | error e => simp [requestPlatform, hvalid]
        | ok u =>
          have htext : ((requestPlatform sha256 timestamp retentionDays).jsonText
              (normalForm request)).utf8ByteSize = (normalForm request).size :=
            Json.utf8ByteSize_text _
          rw [show (requestPlatform sha256 timestamp retentionDays).kind request.payload =
            request.payload.kind from rfl, hvalid]
          dsimp only
          rw [htext]
          split_ifs with hsize
          · simp only [false_iff, not_and]
            exact fun _ hle => absurd hle (Nat.not_le.mpr hsize)
          · rw [Except.ok.injEq, eq_comm]
            exact ⟨fun h => ⟨rfl, Nat.le_of_not_lt hsize, h⟩, fun h => h.2.2⟩

/-- The normal form of a request is submitted as that request. -/
theorem submitted_normalForm (request : Request Payload) :
    submitted (normalForm request) =
      some ⟨Protocol.version, nilText, request.expectedGenerationId, request.payload⟩ := by
  obtain ⟨fields, hfields, hlookup, hmem⟩ := Json.exists_record (nodup_normalForm request)
  have hfields : normalForm request = .obj fields := hfields
  have hallowed : (fields.any fun f => !requestFields.contains f.1) = false := by
    refine List.any_eq_false.mpr fun f hf => ?_
    have hname : f.1 ∈ requestFields := by
      rcases List.mem_cons.mp (hmem f hf) with heq | hname
      · simp [requestFields, heq]
      · cases h : request.payload with
        | single operation =>
          simp only [h, Payload.members, Operation.members, Member.required, List.map_cons,
            List.map_nil, List.mem_cons, List.not_mem_nil, or_false] at hname
          rcases hname with hname | hname <;> simp [requestFields, hname]
        | batch b =>
          simp only [h, Payload.members, Batch.members, Member.required, Member.unlessDefault,
            List.map_cons, List.map_nil, List.mem_cons, List.not_mem_nil, or_false] at hname
          rcases hname with hname | hname | hname <;> simp [requestFields, hname]
    simp [hname]
  rw [submitted, hfields, Json.asObject, Option.bind_some, if_neg (by simpa using hallowed)]
  refine read_normalForm request hfields ?_ ?_ ?_ (fun name hname => ?_) fun f hf => ?_
  · rw [Json.lookup_insertField, if_neg (by decide), Json.lookup_insertField, if_pos rfl]
  · rw [Json.lookup_insertField, if_pos rfl]
  · rw [Json.lookup_insertField, if_neg (by decide), Json.lookup_insertField, if_neg (by decide),
      hlookup, Member.skippable, List.lookup_cons_self]
    cases request.expectedGenerationId <;> rfl
  · simp only [envelopeFields, List.mem_cons, List.not_mem_nil, or_false, not_or] at hname
    rw [Json.lookup_insertField, if_neg hname.2.1, Json.lookup_insertField, if_neg hname.1]
  · rcases mem_insertField hf with heq | hf
    · exact Or.inl (by simp [envelopeFields, heq])
    · rcases mem_insertField hf with heq | hf
      · exact Or.inl (by simp [envelopeFields, heq])
      · exact Or.inr hf

/-- Whether a request that expects some generation, if any, may go to a host. -/
theorem checkGeneration_write (generation : Uuid) (expected : Option Uuid) :
    checkGeneration generation (expected.map Uuid.codec.write) =
      if expected.all (· = generation) then .ok ()
      else .error (.conflict "generation_mismatch" "machine runtime generation changed") := by
  cases expected with
  | none => rfl
  | some g => simp [checkGeneration, Uuid.codec]

/-- The request of a job that was admitted, for a host of the generation that it expects. -/
theorem wireRequest_normalForm (request : Request Payload) (id generation : Uuid) :
    wireRequest (requestPlatform sha256 timestamp retentionDays) (normalForm request) id
        generation =
      if request.expectedGenerationId.all (· = generation) then
        .ok ⟨Protocol.version, id.text, some generation, request.payload⟩
      else .error (.conflict "generation_mismatch" "machine runtime generation changed") := by
  obtain ⟨fields, hfields, hlookup, -⟩ := Json.exists_record (nodup_normalForm request)
  have hfields : normalForm request = .obj fields := hfields
  have hexpected : (Json.obj fields).get "expected_generation_id" =
      request.expectedGenerationId.map Uuid.codec.write := by
    rw [Json.get, hlookup, Member.skippable, List.lookup_cons_self]
    cases request.expectedGenerationId <;> rfl
  have hread := @read_normalForm request fields
    (Json.insertField "expected_generation_id" (.str generation.text)
      (Json.insertField "request_id" (.str id.text)
        (Json.insertField "protocol_version" (.num (toString Protocol.version)) fields)))
    id.text (some generation) hfields
  rw [wireRequest, hfields, Json.asObject]
  dsimp only
  rw [hexpected, checkGeneration_write, decodeRequest_eq, hread]
  · split_ifs <;> rfl
  · rw [Json.lookup_insertField, if_neg (by decide), Json.lookup_insertField,
      if_neg (by decide), Json.lookup_insertField, if_pos rfl]
  · rw [Json.lookup_insertField, if_neg (by decide), Json.lookup_insertField, if_pos rfl]
  · rw [Json.lookup_insertField, if_pos rfl]
    rfl
  · intro name hname
    simp only [envelopeFields, List.mem_cons, List.not_mem_nil, or_false, not_or] at hname
    rw [Json.lookup_insertField, if_neg hname.2.2, Json.lookup_insertField, if_neg hname.2.1,
      Json.lookup_insertField, if_neg hname.1]
  · intro f hf
    rcases mem_insertField hf with heq | hf
    · exact Or.inl (by simp [envelopeFields, heq])
    · rcases mem_insertField hf with heq | hf
      · exact Or.inl (by simp [envelopeFields, heq])
      · rcases mem_insertField hf with heq | hf
        · exact Or.inl (by simp [envelopeFields, heq])
        · exact Or.inr hf

/-! ### The room for a dispatch -/

/-- What a dispatch adds to a request. -/
theorem membersSize_envelope_le (id generation : Uuid) (payload : Payload) :
    Json.membersSize (Request.envelope ⟨Protocol.version, id.text, some generation, payload⟩) ≤
      501 := by
  have hid := Json.size_str_le id.text
  have hgeneration := Json.size_str_le generation.text
  rw [Uuid.length_text] at hid hgeneration
  have hversion : (Codec.uint32.write Protocol.version).size = 1 := by decide
  have hnames : utf8Len (Json.quote "protocol_version") = 18 ∧
      utf8Len (Json.quote "request_id") = 12 ∧
      utf8Len (Json.quote "expected_generation_id") = 24 := by decide
  simp only [Request.envelope, Member.required, Member.skippable, Option.map_some,
    Json.membersSize_cons_some, Json.membersSize_nil, Json.memberSize, Codec.text, Uuid.codec,
    hversion, hnames]
  omega

/-- The message of a request is hardly larger than its normal form. -/
theorem size_requestMessage_lt {request wired : Request Payload} {id generation : Uuid}
    (h : wired = ⟨Protocol.version, id.text, some generation, request.payload⟩) :
    (requestMessage wired).size < (normalForm request).size + 1024 := by
  have hpayload : wired.payload = request.payload := by rw [h]
  have henvelope : Json.membersSize wired.envelope ≤ 501 :=
    h ▸ membersSize_envelope_le id generation request.payload
  have hnormal : Json.membersSize request.payload.members < (normalForm request).size := by
    have hlt := Json.membersSize_lt_size_record (nodup_normalForm request)
    rw [← List.singleton_append, Json.membersSize_append] at hlt
    exact Nat.lt_of_le_of_lt (Nat.le_add_left _ _) hlt
  have hwire : wired.write.size ≤
      Json.membersSize wired.envelope + Json.membersSize request.payload.members + 2 := by
    rw [← hpayload, ← Json.membersSize_append]
    exact Json.size_record_le wired.nodup_members
  have hmessage : (requestMessage wired).size ≤ 17 + (9 + wired.write.size + 2) + 2 := by
    have hnames : Json.memberSize ("type", .str "request") = 17 ∧
        utf8Len (Json.quote "request") = 9 := by decide
    have hle := @Json.size_record_le [("type", some (.str "request")),
      ("request", some wired.write)] (by simp)
    rw [Json.membersSize_cons_some, Json.membersSize_cons_some, Json.membersSize_nil, hnames.1,
      Json.memberSize, hnames.2] at hle
    exact hle
  omega

/-! ### The two sides agree -/

/-- What a value asks for, if it is a request. -/
def submittedPayload (value : Json) : Option Payload :=
  value.asObject.bind fun fields => Payload.ofFields (Json.without envelopeFields fields)

theorem submittedPayload_eq {value : Json} {request : Request Payload}
    (h : submitted value = some request) : submittedPayload value = some request.payload := by
  obtain ⟨fields, hfields, h⟩ := Option.bind_eq_some_iff.mp h
  split_ifs at h with hforeign
  obtain ⟨version, -, h⟩ := Option.bind_eq_some_iff.mp h
  obtain ⟨id, -, h⟩ := Option.bind_eq_some_iff.mp h
  obtain ⟨generation, -, h⟩ := Option.bind_eq_some_iff.mp h
  obtain ⟨payload, hpayload, h⟩ := Option.bind_eq_some_iff.mp h
  rw [without_insertField (by decide), without_insertField (by decide)] at hpayload
  rw [submittedPayload, hfields, Option.bind_some, hpayload, ← Option.some.inj h]

/-- The items of a batch that the gateway admits are accepted. -/
theorem validateItems_eq_ok {items : List BatchOperation} {ids : List String}
    (h : validateItems ids (items.map fun item => (item.requestId, item.operation.kind)) =
      .ok ()) : Dispatcher.validateItems ids items = .ok () := by
  induction items generalizing ids with
  | nil => rfl
  | cons item items ih =>
    obtain ⟨id, operation⟩ := item
    rw [List.map_cons, validateItems] at h
    split_ifs at h with hid hterminate
    · split at h <;> cases h
    · rw [not_or, not_or] at hid
      have hvalid : Dispatcher.validateId id = .ok () :=
        if_neg fun hor => hor.elim hid.1 hid.2.1
      split at h
      · cases h
      · next u hoperation =>
        rw [Dispatcher.validateItems, hvalid]
        dsimp only
        rw [if_neg hid.2.2]
        split
        · cases hoperation
        · exact absurd rfl hterminate
        · exact ih h

/-- A payload that the gateway admits is accepted. -/
theorem validateContent_eq_ok (d : Dispatcher) {payload : Payload}
    (h : validatePayload payload.kind = .ok ()) : d.validateContent payload = .ok () := by
  cases payload with
  | single operation =>
    cases operation with
    | shutdown => cases h
    | info | start | run | terminateRun | get | observe | writeInput | closeInput | interrupt
    | terminate | resize | list | getFileMetadata | readFile | writeFile | removeFile
    | applyPatch => rfl
  | batch b =>
    rw [Payload.kind, validatePayload] at h
    split_ifs at h with hlength
    rw [List.map_eq_nil_iff, List.length_map] at hlength
    rw [Dispatcher.validateContent, if_neg hlength]
    exact validateItems_eq_ok h

/-- The request of a job is addressed to the host whose generation it got. -/
theorem addressed_gateway (id generation : Uuid) (payload : Payload) :
    (Dispatcher.gateway generation).Addressed
      ⟨Protocol.version, id.text, some generation, payload⟩ := by
  have hlength := id.length_text
  refine ⟨rfl, fun hempty => ?_, ?_, fun g hg => (Option.some.inj hg).symm⟩
  · have hempty : id.text = "" := hempty
    rw [hempty] at hlength
    exact absurd hlength (by decide)
  · have hle := Json.utf8ByteSize_le id.text
    rw [hlength] at hle
    exact hle.trans (by decide)

/-- **Admission and validation agree.** What the gateway admits is its own normal form. The request
that it becomes fits into a message, is read from the text of the message as the same request with
the operations that were submitted, and is accepted by the host. And no value is admitted that asks
for what a host would refuse. -/
theorem admission_agrees :
    (∀ value normal id generation request,
      normalize (requestPlatform sha256 timestamp retentionDays) value = .ok normal →
      wireRequest (requestPlatform sha256 timestamp retentionDays) normal id generation =
        .ok request →
      normalize (requestPlatform sha256 timestamp retentionDays) normal = .ok normal ∧
      (∃ frame, encode (requestMessage request) = .ok frame ∧
        frame.utf8ByteSize < maxFrameBytes ∧
        ∀ message, message.text = frame → readRequestMessage message = some request) ∧
      submittedPayload value = some request.payload ∧
      (Dispatcher.gateway generation).validate request = .ok ()) ∧
    ∀ (d : Dispatcher) (request : Request Payload) (e : Error),
      d.Addressed request → d.validate request = .error e →
      ∀ value, submittedPayload value = some request.payload →
        ∃ e', normalize (requestPlatform sha256 timestamp retentionDays) value = .error e' := by
  refine ⟨fun value normal id generation wired hnormal hwire => ?_,
    fun d request e haddressed hrefused value hvalue => ?_⟩
  · obtain ⟨request, hsubmitted, hvalid, hsize, rfl⟩ :=
      (normalize_eq_ok_iff sha256 timestamp retentionDays).mp hnormal
    rw [wireRequest_normalForm] at hwire
    split_ifs at hwire with hgeneration
    obtain rfl := Except.ok.inj hwire
    have hpayload := submittedPayload_eq hsubmitted
    have hlt : (requestMessage ⟨Protocol.version, id.text, some generation,
        request.payload⟩).text.utf8ByteSize < maxFrameBytes := by
      have hroom := @size_requestMessage_lt request _ id generation rfl
      rw [Json.utf8ByteSize_text]
      have hmax : maxFrameBytes = 8388608 := rfl
      omega
    refine ⟨?_, ⟨_, if_neg (Nat.not_le.mpr hlt), hlt, fun message htext => ?_⟩, hpayload, ?_⟩
    · exact (normalize_eq_ok_iff sha256 timestamp retentionDays).mpr
        ⟨_, submitted_normalForm request, hvalid, hsize, rfl⟩
    · rw [Json.text_injective htext]
      exact readRequestMessage_requestMessage _
    · rw [(addressed_gateway id generation request.payload).validate_eq]
      exact validateContent_eq_ok _ hvalid
  · by_contra hnone
    cases hnormal : normalize (requestPlatform sha256 timestamp retentionDays) value with
    | error e' => exact hnone ⟨e', hnormal⟩
    | ok normal =>
      obtain ⟨submitted, hsubmitted, hvalid, -, -⟩ :=
        (normalize_eq_ok_iff sha256 timestamp retentionDays).mp hnormal
      have hpayload := (submittedPayload_eq hsubmitted).symm.trans hvalue
      rw [haddressed.validate_eq, ← Option.some.inj hpayload,
        validateContent_eq_ok d hvalid] at hrefused
      cases hrefused

/-- A batch as it may be submitted: a file is written, and then read. -/
def submittedBatch : Json :=
  .obj [("mode", .str "sequential"), ("operations", .arr [
    .obj [("request_id", .str "write"), ("operation", .str "filesystem.write_file"),
      ("params", .obj [("mutation_id", .str "m"), ("path", .str "/a"), ("data_base64", .str "aGk="),
        ("mode", .str "overwrite")])],
    .obj [("request_id", .str "read"), ("operation", .str "filesystem.read_file"),
      ("params", .obj [("path", .str "/a"), ("max_bytes", .num "16")])]])]

/-- What the batch asks for. -/
def batchPayload : Payload :=
  .batch ⟨.sequential, [],
    [⟨"write", .writeFile ⟨"m", none, "/a", "aGk=", false, .overwrite, none⟩⟩,
      ⟨"read", .readFile ⟨none, "/a", some 16⟩⟩]⟩

/-- A batch is admitted and accepted; a request to shut a runtime down is not admitted. -/
theorem admission_agrees_batch :
    (∃ normal request,
      normalize (requestPlatform id toString 30) submittedBatch = .ok normal ∧
      wireRequest (requestPlatform id toString 30) normal (.numbered 1) (.numbered 2) =
        .ok request ∧
      request.payload = batchPayload ∧
      (Dispatcher.gateway (.numbered 2)).validate request = .ok ()) ∧
    ∃ e, normalize (requestPlatform id toString 30)
      (.obj [("operation", .str "runtime.shutdown")]) = .error e := by
  obtain ⟨haccepted, hrefused⟩ := admission_agrees id toString 30
  have hbatch : submitted submittedBatch =
      some ⟨Protocol.version, nilText, none, batchPayload⟩ := rfl
  have hnormal := (normalize_eq_ok_iff id toString 30).mpr
    ⟨_, hbatch, by decide +kernel, by decide +kernel, rfl⟩
  have hwire := wireRequest_normalForm id toString 30
    ⟨Protocol.version, nilText, none, batchPayload⟩ (.numbered 1) (.numbered 2)
  refine ⟨⟨_, _, hnormal, hwire, rfl, (haccepted _ _ _ _ _ hnormal hwire).2.2.2⟩, ?_⟩
  exact hrefused (.gateway (.numbered 2))
    ⟨Protocol.version, Uuid.text (.numbered 1), none, .single .shutdown⟩ _
    ⟨rfl, by decide, by decide, fun g hg => by cases hg⟩ rfl _ rfl

end Platform

end ExecutionProvider.Gateway
