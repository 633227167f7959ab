import ExecutionProvider.Daemon.Receipts

/-!
# The host process

A host process owns a receipt store and the tasks of the requests it has accepted; both outlive
any one connection to the gateway. On a connection it reads frames one at a time, and sends the
responses of its receipts.

A task that was accepted with a receipt leaves its response there. One that was accepted on a
session without recovery sends its response on the connection it came from.

## Main definitions

* `Codec`: what the host takes from its libraries.
* `Host`: the state of a host process.
* `Host.receive`, `Host.accept`: the reaction to a frame.
* `Host.step`: everything a host process does.
* `Effect`: what a step does to the receipts and tasks, and which frames it may send.

## Main results

* `effect_of_step`: every step has one of these effects.
-/

namespace ExecutionProvider.Daemon

open Protocol

/-- The number of requests that may run. -/
def maxRequests : ℕ := 32

/-- The number of further requests that may run when they terminate a run. -/
def maxControlRequests : ℕ := 4

/-- What the host takes from its libraries: the kinds of the operations of a payload, the digest
of a request, and the lengths of encoded responses. -/
structure Codec (π φ : Type) where
  kind : π → PayloadKind
  fingerprint : Request π → φ
  frameBytes : Response → ℕ
  textBytes : Response → ℕ

/-- Whether a payload is a single operation that terminates a run. -/
def Codec.terminatesRun {π φ : Type} (c : Codec π φ) (payload : π) : Bool :=
  (c.kind payload).terminatesRun

/-- Where a task leaves its response. -/
inductive Reply
  | receipt
  | connection (id : Uuid)
deriving DecidableEq

/-- The task of an accepted request, which stays in its set until it is joined. -/
structure Task (π : Type) where
  request : Request π
  reply : Reply
  finished : Bool

/-- A connection of a host: whether it negotiated recovery, once the gateway has welcomed it, and
the responses that were sent on it. -/
structure Connection where
  id : Uuid
  recovery : Option Bool
  sent : List String

/-- A host process. -/
structure Host (π φ : Type) where
  generation : Uuid
  receipts : Receipts φ Response
  requests : List (Task π)
  connection : Option Connection

/-- What happens to a request at a host. A request is admitted when it gets a receipt; it may be
one that terminates a run. -/
inductive Event
  | admitted (generation : Uuid) (id : String) (terminatesRun : Bool)
  | started (generation : Uuid) (id : String)
  | finished (generation : Uuid) (id : String) (response : Response)
  | rejected (generation : Uuid) (id : String) (response : Response)
  | removed (generation : Uuid) (id : String)

/-- What a host does with a frame: the state after it, a frame to be sent, what happens to the
request, and whether the connection goes on. -/
structure Reaction (π φ : Type) where
  host : Host π φ
  frame : Option HostMessage
  events : List Event
  stays : Bool

section

variable {π φ : Type} (c : Codec π φ)

/-! ### Responses -/

/-- A response in a frame of its own, or an error in its place when it is too large. -/
def encodeResponse (r : Response) : Response :=
  if c.frameBytes r < maxFrameBytes then r
  else .new r.requestId r.generationId
    (.error ⟨.resourceLimit, "response exceeds 8 MiB; reduce output, batch, or page size"⟩)

/-- A response in the envelope of a host message, or an error in its place when it is too
large. -/
def responseText (r : Response) : Response :=
  if c.textBytes (encodeResponse c r) < maxFrameBytes then encodeResponse c r
  else .new r.requestId r.generationId
    (.error ⟨.resourceLimit, "gateway response exceeds 8 MiB"⟩)

namespace Host

/-- A host process that starts. -/
def init (generation : Uuid) : Host π φ := ⟨generation, .empty, [], none⟩

/-- The response for a request that the host has no room for. -/
def capacityResponse (h : Host π φ) (id message : String) : Response :=
  responseText c (.new (some id) h.generation (.error ⟨.resourceLimit, message⟩))

/-- What a host says about the receipt of a request. -/
def receiptMessage (h : Host π φ) (id : String) (generation : Uuid) : HostMessage :=
  if generation = h.generation ∧ h.receipts.contains id then
    match h.receipts.response id with
    | some response => .response response
    | none => .accepted id generation
  else
    .missing id h.generation

/-- Whether as many tasks are there as requests of this kind may run. -/
def busy (h : Host π φ) (request : Request π) : Bool :=
  maxRequests + (if c.terminatesRun request.payload then maxControlRequests else 0) ≤
    h.requests.length

/-- A request on a session with recovery. -/
def accept [DecidableEq φ] (h : Host π φ) (request : Request π) : Reaction π φ :=
  let id := request.requestId
  if id = "" ∨ 256 < id.utf8ByteSize then ⟨h, none, [], false⟩
  else
    match h.receipts.accept id (c.fingerprint request) (h.busy c request) with
    | (.new, receipts) =>
      ⟨{ h with receipts := receipts, requests := h.requests ++ [⟨request, .receipt, false⟩] },
        some (.accepted id h.generation),
        [.admitted h.generation id (c.terminatesRun request.payload), .started h.generation id],
        true⟩
    | (.existing, _) => ⟨h, some (h.receiptMessage id h.generation), [], true⟩
    | (.conflict, _) => ⟨h, none, [], false⟩
    | (.full, _) =>
      let response := h.capacityResponse c id "host request or receipt capacity reached"
      ⟨h, some (.response response), [.rejected h.generation id response], true⟩

/-- A request on a session without recovery. -/
def acceptDirect (h : Host π φ) (connection : Uuid) (request : Request π) : Reaction π φ :=
  let id := request.requestId
  if h.busy c request then
    let response := h.capacityResponse c id "host request capacity reached"
    ⟨h, some (.response response), [.rejected h.generation id response], true⟩
  else
    ⟨{ h with requests := h.requests ++ [⟨request, .connection connection, false⟩] }, none,
      [.started h.generation id], true⟩

/-- The gateway releases a receipt. -/
def acknowledge (h : Host π φ) (connection : Connection) (id : String) : Reaction π φ :=
  ⟨{ h with
      receipts := h.receipts.acknowledge c.textBytes id
      connection := some { connection with sent := connection.sent.erase id } }, none,
    if (h.receipts.response id).isSome then [.removed h.generation id] else [], true⟩

/-- A frame on a connection that the gateway has not welcomed yet. -/
def receiveFirst (h : Host π φ) (connection : Connection) : GatewayMessage π → Reaction π φ
  | .welcome recovery =>
    ⟨{ h with connection := some { connection with recovery := some recovery } }, none, [], true⟩
  | _ => ⟨h, none, [], false⟩

/-- A frame on a connection with or without recovery. -/
def receiveNext [DecidableEq φ] (h : Host π φ) (connection : Connection) (recovery : Bool) :
    GatewayMessage π → Reaction π φ
  | .request request =>
    if recovery then h.accept c request else h.acceptDirect c connection.id request
  | .recover id generation =>
    if recovery then
      ⟨{ h with connection := some { connection with sent := connection.sent.erase id } },
        some (h.receiptMessage id generation), [], true⟩
    else ⟨h, none, [], false⟩
  | .acknowledge id generation =>
    if recovery then
      if generation = h.generation then h.acknowledge c connection id else ⟨h, none, [], true⟩
    else ⟨h, none, [], false⟩
  | .welcome _ | .disconnect _ => ⟨h, none, [], false⟩

/-- The reaction to a frame. -/
def receive [DecidableEq φ] (h : Host π φ) (connection : Connection) (m : GatewayMessage π) :
    Reaction π φ :=
  match connection.recovery with
  | none => h.receiveFirst connection m
  | some recovery => h.receiveNext c connection recovery m

/-- The connection is lost. What was accepted goes on. -/
def drop (h : Host π φ) : Host π φ := { h with connection := none }

end Host

/-- What a host process does: it opens a connection, reads a frame (when its output queue is full,
the answer cannot be sent and the connection ends), finishes a task with some result (whose
frame may get lost with the connection), joins a finished task, sends the response of a
receipt, or loses its connection. -/
inductive Action (π : Type)
  | connect (id : Uuid)
  | receive (m : GatewayMessage π) (full : Bool)
  | finish (i : ℕ) (result : Result Json) (lost : Bool)
  | join (i : ℕ)
  | respond (id : String) (full : Bool)
  | disconnect

namespace Host

/-- A frame is read, and answered unless the output queue is full. -/
def read [DecidableEq φ] (h : Host π φ) (m : GatewayMessage π) (full : Bool) :
    Option (Host π φ × List HostMessage × List Event) :=
  match h.connection with
  | none => none
  | some connection =>
    let r := h.receive c connection m
    if full ∧ r.frame.isSome then some (r.host.drop, [], r.events)
    else some (if r.stays then r.host else r.host.drop, r.frame.toList, r.events)

/-- A task is done. -/
def finish (h : Host π φ) (i : ℕ) (result : Result Json) (lost : Bool) :
    Option (Host π φ × List HostMessage × List Event) :=
  match h.requests[i]? with
  | none => none
  | some task =>
    if task.finished then none
    else
      let id := task.request.requestId
      let response := responseText c (.new (some id) h.generation result)
      let requests := h.requests.set i { task with finished := true }
      match task.reply with
      | .receipt =>
        match h.receipts.complete c.textBytes id response with
        | none => none
        | some receipts =>
          some ({ h with receipts := receipts, requests := requests }, [],
            [.finished h.generation id response])
      | .connection connection =>
        let frames :=
          if ¬lost ∧ h.connection.any (·.id = connection) then [.response response] else []
        some ({ h with requests := requests }, frames, [.finished h.generation id response])

/-- A finished task is taken from the set. -/
def join (h : Host π φ) (i : ℕ) : Option (Host π φ × List HostMessage × List Event) :=
  match h.requests[i]? with
  | none => none
  | some task => if task.finished then some ({ h with requests := h.requests.eraseIdx i }, [], [])
    else none

/-- The response of a receipt is sent, unless the output queue is full. -/
def respond (h : Host π φ) (id : String) (full : Bool) :
    Option (Host π φ × List HostMessage × List Event) :=
  match h.connection, h.receipts.response id with
  | some connection, some response =>
    if connection.recovery = some true ∧ h.receipts.isNextResponse connection.sent id then
      if full then some (h.drop, [], [])
      else some ({ h with connection := some { connection with sent := id :: connection.sent } },
        [.response response], [])
    else none
  | _, _ => none

/-- A step of a host process, with the frames it sends and what happens to requests. -/
def step [DecidableEq φ] (h : Host π φ) :
    Action π → Option (Host π φ × List HostMessage × List Event)
  | .connect id =>
    if h.connection.isNone then some ({ h with connection := some ⟨id, none, []⟩ }, [], [])
    else none
  | .receive m full => h.read c m full
  | .finish i result lost => h.finish c i result lost
  | .join i => h.join i
  | .respond id full => h.respond id full
  | .disconnect => if h.connection.isSome then some (h.drop, [], []) else none

end Host

/-! ### The effects of a step -/

/-- Two states of a host that differ in its connection only. -/
structure SameStore (h h' : Host π φ) : Prop where
  generation : h'.generation = h.generation
  receipts : h'.receipts = h.receipts
  requests : h'.requests = h.requests

/-- The frames that a host may send without doing anything: the response of a receipt, that it
has one, or, when it is asked, that it has none. -/
inductive Says (h : Host π φ) : Action π → HostMessage → Prop
  | response {a : Action π} {id : String} {response : Response}
      (hr : h.receipts.response id = some response) : Says h a (.response response)
  | accepted {a : Action π} {id : String} {generation : Uuid} :
      Says h a (.accepted id generation)
  | missing {id : String} {generation : Uuid} {full : Bool}
      (hr : ¬(generation = h.generation ∧ h.receipts.contains id)) :
      Says h (.receive (.recover id generation) full) (.missing id h.generation)

/-- What a step does to the receipts and tasks of a host, the frames it sends, and what happens to
requests. -/
inductive Effect (h h' : Host π φ) : Action π → List HostMessage → List Event → Prop
  | idle {a : Action π} {frames : List HostMessage} (hs : SameStore h h')
      (hf : ∀ f ∈ frames, Says h a f) : Effect h h' a frames []
  | accept {request : Request π} {full : Bool} {frames : List HostMessage}
      (hid : request.requestId ∉ h.receipts.entries)
      (hg : h'.generation = h.generation)
      (hr : h'.receipts = ⟨h.receipts.entries.insert request.requestId
        ⟨c.fingerprint request, none⟩, h.receipts.bytes + maxFrameBytes⟩)
      (hq : h'.requests = h.requests ++ [⟨request, .receipt, false⟩])
      (hf : ∀ f ∈ frames, f = .accepted request.requestId h.generation) :
      Effect h h' (.receive (.request request) full) frames
        [.admitted h.generation request.requestId (c.terminatesRun request.payload),
          .started h.generation request.requestId]
  | start {request : Request π} {full : Bool} {connection : Uuid}
      (hg : h'.generation = h.generation) (hr : h'.receipts = h.receipts)
      (hq : h'.requests = h.requests ++ [⟨request, .connection connection, false⟩]) :
      Effect h h' (.receive (.request request) full) [] [.started h.generation request.requestId]
  | reject {request : Request π} {full : Bool} {message : String} {frames : List HostMessage}
      (hs : SameStore h h')
      (hf : ∀ f ∈ frames, f = .response (h.capacityResponse c request.requestId message)) :
      Effect h h' (.receive (.request request) full) frames
        [.rejected h.generation request.requestId
          (h.capacityResponse c request.requestId message)]
  | remove {id : String} {full : Bool} {response : Response}
      (hresp : h.receipts.response id = some response)
      (hg : h'.generation = h.generation)
      (hr : h'.receipts = h.receipts.acknowledge c.textBytes id)
      (hq : h'.requests = h.requests) :
      Effect h h' (.receive (.acknowledge id h.generation) full) []
        [.removed h.generation id]
  | complete {i : ℕ} {result : Result Json} {lost : Bool} {task : Task π}
      {response : Response} (hi : h.requests[i]? = some task) (hfin : task.finished = false)
      (hreply : task.reply = .receipt)
      (hresp : response = responseText c (.new (some task.request.requestId) h.generation result))
      (hg : h'.generation = h.generation)
      (hr : h.receipts.complete c.textBytes task.request.requestId response = some h'.receipts)
      (hq : h'.requests = h.requests.set i { task with finished := true }) :
      Effect h h' (.finish i result lost) []
        [.finished h.generation task.request.requestId response]
  | reply {i : ℕ} {result : Result Json} {lost : Bool} {task : Task π} {connection : Uuid}
      {response : Response} {frames : List HostMessage} (hi : h.requests[i]? = some task)
      (hfin : task.finished = false) (hreply : task.reply = .connection connection)
      (hresp : response = responseText c (.new (some task.request.requestId) h.generation result))
      (hg : h'.generation = h.generation) (hr : h'.receipts = h.receipts)
      (hq : h'.requests = h.requests.set i { task with finished := true })
      (hf : ∀ f ∈ frames, f = .response response) :
      Effect h h' (.finish i result lost) frames
        [.finished h.generation task.request.requestId response]
  | join {i : ℕ} {task : Task π} (hi : h.requests[i]? = some task) (hfin : task.finished = true)
      (hg : h'.generation = h.generation) (hr : h'.receipts = h.receipts)
      (hq : h'.requests = h.requests.eraseIdx i) : Effect h h' (.join i) [] []

section

variable {c} {h h' : Host π φ}

theorem SameStore.refl (h : Host π φ) : SameStore h h := ⟨rfl, rfl, rfl⟩

/-- Dropping the connection, or keeping frames back, is no effect of its own. -/
theorem Effect.drop {a : Action π} {frames frames' : List HostMessage} {es : List Event}
    (he : Effect c h h' a frames es) (hsub : frames' ⊆ frames) :
    Effect c h h'.drop a frames' es := by
  cases he with
  | idle hs hf => exact .idle ⟨hs.1, hs.2, hs.3⟩ fun f h => hf f (hsub h)
  | accept hid hg hr hq hf => exact .accept hid hg hr hq fun f h => hf f (hsub h)
  | start hg hr hq =>
    rw [List.subset_nil.mp hsub]
    exact .start hg hr hq
  | reject hs hf => exact .reject ⟨hs.1, hs.2, hs.3⟩ fun f h => hf f (hsub h)
  | remove hresp hg hr hq =>
    rw [List.subset_nil.mp hsub]
    exact .remove hresp hg hr hq
  | complete hi hfin hreply hresp hg hr hq =>
    rw [List.subset_nil.mp hsub]
    exact .complete hi hfin hreply hresp hg hr hq
  | reply hi hfin hreply hresp hg hr hq hf =>
    exact .reply hi hfin hreply hresp hg hr hq fun f h => hf f (hsub h)
  | join hi hfin hg hr hq =>
    rw [List.subset_nil.mp hsub]
    exact .join hi hfin hg hr hq

theorem says_receiptMessage (h : Host π φ) (id : String) (generation : Uuid) {a : Action π}
    (ha : generation = h.generation ∧ h.receipts.contains id ∨
      ∃ full, a = .receive (.recover id generation) full) :
    Says h a (h.receiptMessage id generation) := by
  rw [Host.receiptMessage]
  split_ifs with hr
  · split
    · next response hresp => exact .response hresp
    · exact .accepted
  · obtain ⟨full, rfl⟩ := ha.resolve_left hr
    exact .missing hr

theorem effect_acceptDirect (h : Host π φ) (connection : Uuid) (request : Request π)
    (full : Bool) :
    Effect c h (h.acceptDirect c connection request).host (.receive (.request request) full)
      (h.acceptDirect c connection request).frame.toList
      (h.acceptDirect c connection request).events := by
  rw [Host.acceptDirect]
  dsimp only
  split_ifs
  · exact .reject (.refl h) (by simp)
  · exact .start rfl rfl rfl

theorem effect_acknowledge (h : Host π φ) (connection : Connection) (id : String) (full : Bool) :
    Effect c h (h.acknowledge c connection id).host
      (.receive (.acknowledge id h.generation) full)
      (h.acknowledge c connection id).frame.toList (h.acknowledge c connection id).events := by
  rw [Host.acknowledge]
  cases hresp : h.receipts.response id with
  | none =>
    have hsame : h.receipts.acknowledge c.textBytes id = h.receipts := by
      rw [Receipts.acknowledge, hresp]
    exact .idle ⟨rfl, hsame, rfl⟩ (by simp)
  | some response => exact .remove hresp rfl rfl rfl

variable [DecidableEq φ]

theorem effect_accept (h : Host π φ) (request : Request π) (full : Bool) :
    Effect c h (h.accept c request).host (.receive (.request request) full)
      (h.accept c request).frame.toList (h.accept c request).events := by
  rw [Host.accept]
  dsimp only
  split_ifs with hlen
  · exact .idle (.refl h) (by simp)
  · rcases Receipts.accept_cases h.receipts request.requestId (c.fingerprint request)
      (h.busy c request) with
      ⟨hid, heq⟩ | ⟨a, ha, heq⟩
    · rw [heq]
      exact .accept hid rfl rfl rfl (by simp)
    · have hexisting (he : a = .existing) : h.receipts.contains request.requestId = true :=
        Receipts.contains_of_accept_eq_existing ((congrArg Prod.fst heq).trans he)
      rw [heq]
      cases a with
      | new => exact absurd rfl ha
      | existing =>
        refine .idle (.refl h) fun f hf => ?_
        obtain rfl : f = h.receiptMessage request.requestId h.generation := by simpa using hf
        exact says_receiptMessage h _ _ (Or.inl ⟨rfl, hexisting rfl⟩)
      | conflict => exact .idle (.refl h) (by simp)
      | full => exact .reject (.refl h) (by simp)

theorem effect_receive (h : Host π φ) (connection : Connection) (m : GatewayMessage π)
    (full : Bool) :
    Effect c h (h.receive c connection m).host (.receive m full)
      (h.receive c connection m).frame.toList (h.receive c connection m).events := by
  have hidle : Effect c h h (.receive m full) [] [] := .idle (.refl h) (by simp)
  rw [Host.receive]
  cases connection.recovery with
  | none =>
    cases m with
    | welcome recovery => exact .idle ⟨rfl, rfl, rfl⟩ (by simp [Host.receiveFirst])
    | _ => exact hidle
  | some recovery =>
    cases m with
    | request request =>
      dsimp only [Host.receiveNext]
      split_ifs
      · exact effect_accept h request full
      · exact effect_acceptDirect h connection.id request full
    | recover id generation =>
      dsimp only [Host.receiveNext]
      split_ifs
      · refine .idle ⟨rfl, rfl, rfl⟩ fun f hf => ?_
        obtain rfl : f = h.receiptMessage id generation := by simpa using hf
        exact says_receiptMessage h _ _ (Or.inr ⟨full, rfl⟩)
      · exact hidle
    | acknowledge id generation =>
      dsimp only [Host.receiveNext]
      split_ifs with _ hg
      · subst hg
        exact effect_acknowledge h connection id full
      · exact hidle
      · exact hidle
    | welcome recovery => exact hidle
    | disconnect code => exact hidle

/-- Every step of a host has one of the effects. -/
theorem effect_of_step {a : Action π} {frames : List HostMessage} {es : List Event}
    (hs : h.step c a = some (h', frames, es)) : Effect c h h' a frames es := by
  cases a with
  | connect id =>
    simp only [Host.step, Option.ite_none_right_eq_some, Option.some.injEq, Prod.mk.injEq] at hs
    obtain ⟨-, rfl, rfl, rfl⟩ := hs
    exact .idle ⟨rfl, rfl, rfl⟩ (by simp)
  | receive m full =>
    simp only [Host.step, Host.read] at hs
    split at hs
    · cases hs
    · next conn hconn =>
      have he := effect_receive (c := c) h conn m full
      split_ifs at hs with hfull hstays
      · simp only [Option.some.injEq, Prod.mk.injEq] at hs
        obtain ⟨rfl, rfl, rfl⟩ := hs
        exact he.drop (by simp)
      · simp only [Option.some.injEq, Prod.mk.injEq] at hs
        obtain ⟨rfl, rfl, rfl⟩ := hs
        exact he
      · simp only [Option.some.injEq, Prod.mk.injEq] at hs
        obtain ⟨rfl, rfl, rfl⟩ := hs
        exact he.drop (fun _ hf => hf)
  | finish i result lost =>
    simp only [Host.step, Host.finish] at hs
    split at hs
    · cases hs
    · next task hi =>
      split_ifs at hs with hfin
      have hfin : task.finished = false := by simpa using hfin
      split at hs
      · next hreply =>
        split at hs
        · cases hs
        · next receipts hcomplete =>
          simp only [Option.some.injEq, Prod.mk.injEq] at hs
          obtain ⟨rfl, rfl, rfl⟩ := hs
          exact .complete hi hfin hreply rfl rfl hcomplete rfl
      · next connection hreply =>
        simp only [Option.some.injEq, Prod.mk.injEq] at hs
        obtain ⟨rfl, rfl, rfl⟩ := hs
        exact .reply hi hfin hreply rfl rfl rfl rfl (by split_ifs <;> simp)
  | join i =>
    simp only [Host.step, Host.join] at hs
    split at hs
    · cases hs
    · next task hi =>
      split_ifs at hs with hfin
      simp only [Option.some.injEq, Prod.mk.injEq] at hs
      obtain ⟨rfl, rfl, rfl⟩ := hs
      exact .join hi hfin rfl rfl rfl
  | respond id full =>
    simp only [Host.step, Host.respond] at hs
    split at hs
    · next conn response hconn hresp =>
      split_ifs at hs
      · simp only [Option.some.injEq, Prod.mk.injEq] at hs
        obtain ⟨rfl, rfl, rfl⟩ := hs
        exact .idle ⟨rfl, rfl, rfl⟩ (by simp)
      · simp only [Option.some.injEq, Prod.mk.injEq] at hs
        obtain ⟨rfl, rfl, rfl⟩ := hs
        refine .idle ⟨rfl, rfl, rfl⟩ fun f hf => ?_
        obtain rfl : f = .response response := by simpa using hf
        exact .response hresp
    · cases hs
  | disconnect =>
    simp only [Host.step, Option.ite_none_right_eq_some, Option.some.injEq, Prod.mk.injEq] at hs
    obtain ⟨-, rfl, rfl, rfl⟩ := hs
    exact .idle ⟨rfl, rfl, rfl⟩ (by simp)

/-- A reaction keeps the connection. -/
theorem connection_receive {connection : Connection} (hc : h.connection = some connection)
    (m : GatewayMessage π) :
    ((h.receive c connection m).host.connection.map Connection.id) = some connection.id := by
  have hkeep : h.connection.map Connection.id = some connection.id := by rw [hc]; rfl
  rw [Host.receive]
  cases connection.recovery with
  | none => cases m <;> first | rfl | exact hkeep
  | some recovery =>
    cases m with
    | request request =>
      dsimp only [Host.receiveNext]
      split_ifs
      · rw [Host.accept]
        dsimp only
        split_ifs
        · exact hkeep
        · split <;> exact hkeep
      · rw [Host.acceptDirect]
        dsimp only
        split_ifs <;> exact hkeep
    | recover id generation =>
      dsimp only [Host.receiveNext]
      split_ifs
      · rfl
      · exact hkeep
    | acknowledge id generation =>
      dsimp only [Host.receiveNext]
      split_ifs
      · rfl
      · exact hkeep
      · exact hkeep
    | welcome recovery => exact hkeep
    | disconnect code => exact hkeep

/-- After a step a host has no connection, a new one that it has opened, or the same. -/
theorem connection_of_step {a : Action π} {frames : List HostMessage} {es : List Event}
    (hs : h.step c a = some (h', frames, es)) :
    (∃ id, a = .connect id ∧ frames = [] ∧ h.connection = none ∧
      h'.connection = some ⟨id, none, []⟩) ∨
    ∀ conn', h'.connection = some conn' →
      ∃ conn, h.connection = some conn ∧ conn'.id = conn.id := by
  have hsame {x : Host π φ} (heq : x.connection = h.connection) (conn' : Connection)
      (hconn' : x.connection = some conn') : ∃ conn, h.connection = some conn ∧
        conn'.id = conn.id :=
    ⟨conn', heq ▸ hconn', rfl⟩
  cases a with
  | connect id =>
    simp only [Host.step, Option.ite_none_right_eq_some, Option.some.injEq, Prod.mk.injEq] at hs
    obtain ⟨hnone, rfl, rfl, rfl⟩ := hs
    exact Or.inl ⟨id, rfl, rfl, Option.isNone_iff_eq_none.mp hnone, rfl⟩
  | receive m full =>
    refine Or.inr fun conn' hconn' => ?_
    simp only [Host.step, Host.read] at hs
    split at hs
    · cases hs
    · next conn hconn =>
      have hkeep := connection_receive (c := c) hconn m
      split_ifs at hs
      · simp only [Option.some.injEq, Prod.mk.injEq] at hs
        obtain ⟨rfl, -, -⟩ := hs
        cases hconn'
      · simp only [Option.some.injEq, Prod.mk.injEq] at hs
        obtain ⟨rfl, -, -⟩ := hs
        rw [hconn', Option.map_some] at hkeep
        exact ⟨conn, hconn, Option.some.inj hkeep⟩
      · simp only [Option.some.injEq, Prod.mk.injEq] at hs
        obtain ⟨rfl, -, -⟩ := hs
        cases hconn'
  | finish i result lost =>
    simp only [Host.step, Host.finish] at hs
    split at hs
    · cases hs
    · split_ifs at hs
      split at hs
      · split at hs
        · cases hs
        · simp only [Option.some.injEq, Prod.mk.injEq] at hs
          obtain ⟨rfl, -, -⟩ := hs
          exact Or.inr (hsame rfl)
      · simp only [Option.some.injEq, Prod.mk.injEq] at hs
        obtain ⟨rfl, -, -⟩ := hs
        exact Or.inr (hsame rfl)
  | join i =>
    simp only [Host.step, Host.join] at hs
    split at hs
    · cases hs
    · split_ifs at hs
      simp only [Option.some.injEq, Prod.mk.injEq] at hs
      obtain ⟨rfl, -, -⟩ := hs
      exact Or.inr (hsame rfl)
  | respond id full =>
    refine Or.inr fun conn' hconn' => ?_
    simp only [Host.step, Host.respond] at hs
    split at hs
    · next conn response hconn hresp =>
      split_ifs at hs
      · simp only [Option.some.injEq, Prod.mk.injEq] at hs
        obtain ⟨rfl, -, -⟩ := hs
        cases hconn'
      · simp only [Option.some.injEq, Prod.mk.injEq] at hs
        obtain ⟨rfl, -, -⟩ := hs
        obtain rfl := Option.some.inj hconn'
        exact ⟨conn, hconn, rfl⟩
    · cases hs
  | disconnect =>
    simp only [Host.step, Option.ite_none_right_eq_some, Option.some.injEq, Prod.mk.injEq] at hs
    obtain ⟨-, rfl, -, -⟩ := hs
    exact Or.inr fun conn' hconn' => by cases hconn'

omit [DecidableEq φ] in
/-- A host stays the process that it is. -/
theorem Effect.generation {a : Action π} {frames : List HostMessage} {es : List Event}
    (he : Effect c h h' a frames es) : h'.generation = h.generation := by
  cases he with
  | idle hs => exact hs.generation
  | accept _ hg => exact hg
  | start hg => exact hg
  | reject hs => exact hs.generation
  | remove _ hg => exact hg
  | complete _ _ _ _ hg => exact hg
  | reply _ _ _ _ hg => exact hg
  | join _ _ hg => exact hg

end

end

end ExecutionProvider.Daemon
