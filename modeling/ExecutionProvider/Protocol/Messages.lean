import ExecutionProvider.Core.Error
import ExecutionProvider.Protocol.Json
import ExecutionProvider.Protocol.Uuid

/-!
# Messages between the gateway and a host

The gateway sends requests to a host and the host answers with responses. A session that has
negotiated recovery adds messages about receipts: a host says that it has accepted a request or
that it has no receipt for it, a gateway asks for the receipt of a request or releases it. What
a request asks for is its payload; nothing here depends on it.

## Main definitions

* `PayloadKind`: the kinds of the operations that a payload consists of.
* `Request`, `Response`: what the gateway asks for and what the host answers.
* `Response.succeeded`: whether a response counts as success.
* `Response.toJson`: how a response is written.
* `GatewayMessage`, `HostMessage`: the frames of the two directions.
-/

namespace ExecutionProvider.Protocol

/-- The protocol version of a host. -/
def version : UInt32 := 5

/-- The largest frame in bytes. -/
def maxFrameBytes : ℕ := 8 * 1024 * 1024

/-- The largest number of operations in a batch. -/
def maxBatchOperations : ℕ := 32

/-- The kinds of operations that are told apart outside the core. A file is written
conditionally, with a precondition, or overwritten, without one. -/
inductive OperationKind
  | shutdown
  | terminateRun
  | writeFile (modeAgrees : Bool)
  | other
deriving DecidableEq

/-- The kinds of the operations that a payload consists of: one operation, or a batch of
operations with identities. -/
inductive PayloadKind
  | single (operation : OperationKind)
  | batch (operations : List (String × OperationKind))

/-- Whether a payload is a single operation that terminates a run. -/
def PayloadKind.terminatesRun : PayloadKind → Bool
  | single .terminateRun => true
  | _ => false

/-- A request to a host. -/
structure Request (π : Type) where
  protocolVersion : UInt32
  requestId : String
  expectedGenerationId : Option Uuid
  payload : π

/-- How an error is written. -/
def errorValue (code message : String) : Json :=
  .mkObj [("code", .str code), ("message", .str message)]

/-- What came of a request. -/
inductive Outcome
  | ok (result : Json)
  | error (error : Error)

/-- The response to a request. -/
structure Response where
  protocolVersion : UInt32
  requestId : Option String
  generationId : Uuid
  outcome : Outcome

namespace Response

/-- A response of a host of the given generation. An identity of more than 256 bytes is left
out. -/
def new (requestId : Option String) (generationId : Uuid) (result : Result Json) : Response where
  protocolVersion := version
  requestId := requestId.filter fun id => id.utf8ByteSize ≤ 256
  generationId := generationId
  outcome :=
    match result with
    | .ok result => .ok result
    | .error error => .error error

@[simp] theorem generationId_new (id : Option String) (g : Uuid) (r : Result Json) :
    (new id g r).generationId = g := rfl

/-- Whether a response counts as success: a batch may come back with failed operations, and a
patch rejected or half applied. -/
def succeeded (r : Response) : Bool :=
  match r.outcome with
  | .error _ => false
  | .ok result =>
    !(match result.get "succeeded" with
      | some (.bool false) => true
      | _ => false) &&
    !(match (result.get "status").bind Json.asStr with
      | some s => s == "rejected" || s == "partial"
      | none => false)

/-- The members of a response, in the order in which they are written. -/
def members (r : Response) : List (String × Json) :=
  [("protocol_version", .num (toString r.protocolVersion)),
    ("request_id", .ofOption (r.requestId.map .str)),
    ("generation_id", .str r.generationId.text)] ++
  match r.outcome with
  | .ok result => [("status", .str "ok"), ("result", result)]
  | .error error => [("status", .str "error"), ("error", errorValue error.code.text error.message)]

/-- How a response is written. -/
def toJson (r : Response) : Json := .mkObj r.members

end Response

/-- Why the gateway ends a connection. -/
inductive DisconnectCode
  | reconnect
  | revoked
  | replaced
  | incompatibleProtocol
deriving DecidableEq

/-- The frames that the gateway sends. -/
inductive GatewayMessage (π : Type)
  | welcome (requestRecovery : Bool)
  | request (request : Request π)
  | recover (requestId : String) (generationId : Uuid)
  | acknowledge (requestId : String) (generationId : Uuid)
  | disconnect (code : DisconnectCode)

/-- The frames that a host sends once its connection is open. -/
inductive HostMessage
  | accepted (requestId : String) (generationId : Uuid)
  | missing (requestId : String) (generationId : Uuid)
  | response (response : Response)

end ExecutionProvider.Protocol
