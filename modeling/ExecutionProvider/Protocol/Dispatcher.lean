import ExecutionProvider.Protocol.Codec

/-!
# What a host accepts

Before a host performs a request it looks at the protocol version, the identity and the expected
generation of the request, and at the operations that the request asks for.

## Main definitions

* `Dispatcher`: a host that performs requests, local ones or those of a gateway.
* `Dispatcher.validate`: whether a request is performed.

## Main results

* `Dispatcher.Addressed.validate_eq`: a request that is addressed to a dispatcher is judged by its
  content.
-/

namespace ExecutionProvider.Protocol

/-- What performs the requests to a runtime of some generation. Requests to shut down are left to
local administration. -/
structure Dispatcher where
  generationId : Uuid
  allowShutdown : Bool

namespace Dispatcher

/-- The dispatcher of the requests of a gateway. -/
def gateway (generationId : Uuid) : Dispatcher := ⟨generationId, false⟩

/-- Whether a text is the identity of a request. -/
def validateId (id : String) : Result Unit :=
  if id = "" ∨ 256 < id.utf8ByteSize then
    .error (.invalid "request_id must contain 1 to 256 bytes")
  else .ok ()

/-- The operations of a batch, given the identities of those before. -/
def validateItems (ids : List String) : List BatchOperation → Result Unit
  | [] => .ok ()
  | item :: items =>
    match validateId item.requestId with
    | .error e => .error e
    | .ok () =>
      if item.requestId ∈ ids then .error (.invalid "batch request IDs must be unique")
      else
        match item.operation with
        | .shutdown => .error (.invalid "runtime.shutdown cannot be batched")
        | .terminateRun _ _ => .error (.invalid "execution.terminate_run cannot be batched")
        | _ => validateItems (item.requestId :: ids) items

variable (d : Dispatcher)

/-- Whether the operations of a payload are performed. -/
def validateContent : Payload → Result Unit
  | .single .shutdown =>
    if d.allowShutdown then .ok ()
    else .error (.invalid "runtime.shutdown is a local administration operation")
  | .single _ => .ok ()
  | .batch b =>
    if b.operations = [] ∨ maxBatchOperations < b.operations.length then
      .error (.invalid "batches require 1 to 32 operations")
    else validateItems [] b.operations

/-- Whether a request is performed. -/
def validate (request : Request Payload) : Result Unit :=
  if request.protocolVersion ≠ version then
    .error (.invalid s!"unsupported protocol version {request.protocolVersion}; expected {version}")
  else
    match validateId request.requestId with
    | .error e => .error e
    | .ok () =>
      if request.expectedGenerationId.any (· ≠ d.generationId) then
        .error ⟨.generationMismatch, "supervisor generation changed"⟩
      else d.validateContent request.payload

/-- Whether a request is addressed to a dispatcher: its version is spoken, its identity is one,
and it expects the generation of the dispatcher, or none. -/
structure Addressed (request : Request Payload) : Prop where
  version_eq : request.protocolVersion = version
  requestId_ne : request.requestId ≠ ""
  requestId_le : request.requestId.utf8ByteSize ≤ 256
  generation_eq : ∀ g ∈ request.expectedGenerationId, g = d.generationId

variable {d}

/-- A request that is addressed to a dispatcher is judged by its content. -/
theorem Addressed.validate_eq {request : Request Payload} (h : d.Addressed request) :
    d.validate request = d.validateContent request.payload := by
  have hid : validateId request.requestId = .ok () := by
    rw [validateId, if_neg]
    exact fun hid => hid.elim h.requestId_ne fun hlt => absurd h.requestId_le (Nat.not_le.mpr hlt)
  have hgeneration : request.expectedGenerationId.any (· ≠ d.generationId) = false := by
    rw [Option.any_eq_false]
    intro g hg
    simpa using h.generation_eq g hg
  rw [validate, if_neg (fun hne => hne h.version_eq), hid]
  dsimp only
  rw [hgeneration, if_neg Bool.false_ne_true]

end Dispatcher

end ExecutionProvider.Protocol
