import ExecutionProvider.Gateway.Database

/-!
# Requests and responses of a job

A job is submitted with a request in the form of JSON. The gateway brings it into a normal form,
without the identities that belong to a dispatch, and adds those when it dispatches the request.

## Main definitions

* `normalize`: the normal form of a submitted request.
* `wireRequest`: the request that is sent to a host of some generation.
* `storedResponse`: the form in which a response is kept.
-/

namespace ExecutionProvider.Gateway

open Protocol

variable {π : Type} (p : Platform π)

/-! ### Reading and writing requests -/

/-- The generation that a request expects, if it expects one. -/
def readGeneration : Option Json → Option (Option Uuid)
  | none | some .null => some none
  | some (.str s) => (Uuid.parse s).map some
  | some _ => none

/-- A request read from JSON. -/
def decodeRequest (value : Json) : Option (Request π) :=
  match value.get "protocol_version", value.get "request_id",
      readGeneration (value.get "expected_generation_id"), p.decodePayload value with
  | some (.num n), some (.str id), some generation, some payload =>
    match Json.natOfLiteral n with
    | some n =>
      if h : n < UInt32.size then some ⟨.ofNatLT n h, id, generation, payload⟩ else none
    | none => none
  | _, _, _, _ => none

/-- The members of a request that do not belong to its dispatch. -/
def encodeNormal (r : Request π) : Json :=
  .mkObj <| (r.expectedGenerationId.toList.map fun g => ("expected_generation_id", .str g.text)) ++
    p.encodePayload r.payload

/-! ### Normal form -/

/-- The members that a submitted request may have. -/
def requestFields : List String :=
  ["operation", "params", "mode", "accepted_error_codes", "operations", "expected_generation_id"]

/-- The operations that are not available to the users of the gateway. -/
def validateOperation : OperationKind → Except GatewayError Unit
  | .shutdown => .error (.invalid "runtime.shutdown is unavailable remotely")
  | .writeFile false => .error (.invalid "invalid file write mode and precondition")
  | _ => .ok ()

/-- The items of a batch, given the identities of those before. -/
def validateItems (ids : List String) : List (String × OperationKind) → Except GatewayError Unit
  | [] => .ok ()
  | (id, operation) :: items =>
    if id = "" ∨ 256 < id.utf8ByteSize ∨ id ∈ ids then
      .error (.invalid "batch request IDs must be unique and contain 1 to 256 bytes")
    else
      match validateOperation operation with
      | .error e => .error e
      | .ok () =>
        if operation = .terminateRun then
          .error (.invalid "execution.terminate_run cannot be batched")
        else validateItems (id :: ids) items

/-- The operations of a payload. -/
def validatePayload : PayloadKind → Except GatewayError Unit
  | .single operation => validateOperation operation
  | .batch operations =>
    if operations = [] ∨ maxBatchOperations < operations.length then
      .error (.invalid "batches require 1 to 32 operations")
    else validateItems [] operations

/-- The text of the identifier of no request. -/
def nilText : String := "00000000-0000-0000-0000-000000000000"

/-- The normal form of a submitted request. -/
def normalize (value : Json) : Except GatewayError Json :=
  match value.asObject with
  | none => .error (.invalid "request must be an object")
  | some fields =>
    if fields.any fun f => !requestFields.contains f.1 then
      .error (.invalid "unexpected request fields")
    else
      let fields := Json.insertField "protocol_version" (.num (toString Protocol.version)) fields
      match decodeRequest p (.obj (Json.insertField "request_id" (.str nilText) fields)) with
      | none => .error .invalidJson
      | some request =>
        match validatePayload (p.kind request.payload) with
        | .error e => .error e
        | .ok () =>
          let value := encodeNormal p request
          -- Room is left for the members that a dispatch adds and for the envelope.
          if maxFrameBytes - 1024 < (p.jsonText value).utf8ByteSize then
            .error ⟨413, "payload_too_large", "request exceeds transport limit"⟩
          else .ok value

/-! ### Dispatch -/

/-- Whether a request may go to a host of some generation. -/
def checkGeneration (generation : Uuid) : Option Json → Except GatewayError Unit
  | none | some .null => .ok ()
  | some (.str s) =>
    match Uuid.parse s with
    | none => .error .invalidJson
    | some expected =>
      if expected = generation then .ok ()
      else .error (.conflict "generation_mismatch" "machine runtime generation changed")
  | some _ => .error .invalidJson

/-- The request of a job, for a host of some generation. -/
def wireRequest (value : Json) (id generation : Uuid) : Except GatewayError (Request π) :=
  match value.asObject with
  | none => .error .internal
  | some fields =>
    match checkGeneration generation (value.get "expected_generation_id") with
    | .error e => .error e
    | .ok () =>
      let fields := Json.insertField "protocol_version" (.num (toString Protocol.version)) fields
      let fields := Json.insertField "request_id" (.str id.text) fields
      let fields := Json.insertField "expected_generation_id" (.str generation.text) fields
      match decodeRequest p (.obj fields) with
      | none => .error .invalidJson
      | some request => .ok request

variable {p} in
/-- The request of a job carries the identity of the job. -/
theorem requestId_wireRequest {value : Json} {id generation : Uuid} {request : Request π}
    (h : wireRequest p value id generation = .ok request) : request.requestId = id.text := by
  unfold wireRequest at h
  split at h
  · cases h
  · next fields hfields =>
    split at h
    · cases h
    · dsimp only at h
      split at h
      · cases h
      · next r hr =>
        obtain rfl := Except.ok.inj h
        unfold decodeRequest at hr
        split at hr
        · next n id' g payload hn hid hg hp =>
          rw [Json.get, Json.lookup_insertField, if_neg (by decide), Json.lookup_insertField,
            if_pos rfl, Option.some.injEq, Json.str.injEq] at hid
          split at hr
          · split_ifs at hr
            rw [← Option.some.inj hr, ← hid]
          · cases hr
        · cases hr

variable {p} in
/-- Why a request cannot be sent. -/
theorem code_of_wireRequest {value : Json} {id generation : Uuid} {e : GatewayError}
    (h : wireRequest p value id generation = .error e) :
    e.code ∈ ["internal_error", "invalid_argument", "generation_mismatch"] := by
  unfold wireRequest at h
  split at h
  · obtain rfl := Except.error.inj h
    simp [GatewayError.internal]
  · split at h
    · next e' he =>
      obtain rfl := Except.error.inj h
      unfold checkGeneration at he
      split at he
      · cases he
      · cases he
      · split at he
        · obtain rfl := Except.error.inj he
          simp [GatewayError.invalidJson, GatewayError.invalid]
        · split at he
          · cases he
          · obtain rfl := Except.error.inj he
            simp [GatewayError.conflict]
      · obtain rfl := Except.error.inj he
        simp [GatewayError.invalidJson, GatewayError.invalid]
    · dsimp only at h
      split at h
      · obtain rfl := Except.error.inj h
        simp [GatewayError.invalidJson, GatewayError.invalid]
      · cases h

/-! ### Responses -/

mutual

/-- A value without the commands of the executions in it. Whether the value is an execution
itself is known where it is a member. -/
def stripCommands (execution : Bool) : Json → Json
  | .obj fields => .obj (stripFields execution fields)
  | .arr items => .arr (stripItems items)
  | value => value

/-- The members of an object without the commands of the executions in it. -/
def stripFields (execution : Bool) : List (String × Json) → List (String × Json)
  | [] => []
  | (name, value) :: fields =>
    if execution && name == "command" then stripFields execution fields
    else (name, stripCommands (name == "execution") value) :: stripFields execution fields

/-- The items of an array without the commands of the executions in them. -/
def stripItems : List Json → List Json
  | [] => []
  | value :: items => stripCommands false value :: stripItems items

end

/-- The form in which a response is kept: its result without the commands of the executions in
it, which are kept with the request. -/
def storedResponse (r : Response) : Json :=
  match r.toJson with
  | .obj fields => .obj <| fields.map fun f =>
    if f.1 = "result" then (f.1, stripCommands false f.2) else f
  | value => value

end ExecutionProvider.Gateway
