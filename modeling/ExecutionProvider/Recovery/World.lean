import ExecutionProvider.Daemon.Host
import ExecutionProvider.Gateway.Dispatch

/-!
# A gateway and its hosts

A gateway, any number of host processes, and the connections between them. A host has one
connection at a time, and opens the next one when it has lost the last. The frames of a connection
are read in the order in which they were put on it; whatever was not read when the connection is
lost is lost with it. The two ends notice that at different times: a host may still read what a
gateway has sent that is gone, and a session may read on while its host has a new connection.

## Main definitions

* `Wire`: a connection with the frames on it.
* `World`: a gateway, its hosts and the connections.
* `World.step`, `worldSystem`: the runs of all of them together.
* `Effect`: what a step of the world consists of.

## Main results

* `effect_of_step`: every step is one of the gateway, of a host, or of neither.
* `gateway_run`: what the gateway does in a run of the world is a run of the gateway.
-/

namespace ExecutionProvider.Recovery

open Protocol

/-- A connection of the host of some generation, the frames on it that were not read, in both
directions, and whether the gateway has accepted it. -/
structure Wire (π : Type) where
  generation : Uuid
  taken : Bool
  down : List (GatewayMessage π)
  up : List HostMessage

/-- A gateway, its hosts and the connections. A host process that has ended leaves nothing. -/
structure World (π φ : Type) where
  gateway : Gateway.AppState π
  hosts : Table Uuid (Option (Daemon.Host π φ))
  wires : Table Uuid (Wire π)

/-- What happens at the gateway or at a host. -/
inductive Event (π : Type)
  | gateway (e : Gateway.Event π)
  | host (e : Daemon.Event)

/-- A step of the gateway or of a host on its own, a step in the life of a connection, or the
start or the end of a host process. A connection that is lost keeps the frames that still arrive. -/
inductive Action (π : Type)
  | gateway (a : Gateway.Action)
  | start (generation : Uuid)
  | stop (generation : Uuid)
  | host (generation : Uuid) (a : Daemon.Action π)
  | dial (connection generation : Uuid)
  | upgrade (connection machine : Uuid) (credential : String)
  | hello (connection : Uuid) (protocolVersion : UInt32) (installation host : Uuid)
      (recovery : Bool)
  | read (machine event : Uuid)
  | receive (generation : Uuid) (full : Bool)
  | lose (connection : Uuid) (down up : ℕ)

section

variable {π φ : Type}

/-- What a gateway does on its own. -/
def gatewayAlone : Gateway.Action → Bool
  | .upgrade .. | .hello .. | .session _ (.read ..) => false
  | _ => true

/-- What a host does on its own. -/
def hostAlone : Daemon.Action π → Bool
  | .connect _ | .receive .. => false
  | _ => true

/-- The frames that a gateway sends are put on their connections. -/
def deliver (wires : Table Uuid (Wire π)) : List (Gateway.Event π) → Table Uuid (Wire π)
  | [] => wires
  | .sent connection frame :: es =>
    deliver (wires.modify connection fun w => { w with down := w.down ++ [frame] }) es
  | .settled _ :: es => deliver wires es

/-- The frames that a host sends are put on its connection. -/
def emit (wires : Table Uuid (Wire π)) (connection : Option Daemon.Connection)
    (frames : List HostMessage) : Table Uuid (Wire π) :=
  match connection with
  | none => wires
  | some c => wires.modify c.id fun w => { w with up := w.up ++ frames }

namespace World

/-- The host process of a generation, while it runs. -/
def host (W : World π φ) (generation : Uuid) : Option (Daemon.Host π φ) :=
  (W.hosts.lookup generation).join

variable (p : Gateway.Platform π) (c : Daemon.Codec π φ) (W : World π φ)

/-- A step of the gateway, after which connections are as given and its frames on them. -/
def gatewayStep (wires : Table Uuid (Wire π)) (a : Gateway.Action) :
    Option (World π φ × List (Event π)) :=
  (W.gateway.step p a).map fun r =>
    ({ W with gateway := r.1, wires := deliver wires r.2 }, r.2.map .gateway)

/-- A step of a host, after which connections are as given and its frames on them. -/
def hostStep [DecidableEq φ] (generation : Uuid) (h : Daemon.Host π φ)
    (wires : Table Uuid (Wire π)) (a : Daemon.Action π) : Option (World π φ × List (Event π)) :=
  (h.step c a).map fun r =>
    ({ W with
      hosts := W.hosts.modify generation fun _ => some r.1
      wires := emit wires h.connection r.2.1 }, r.2.2.map .host)

/-- The first message of a host, which says what it is, and whether it wants recovery. -/
def hello (connection : Uuid) (protocolVersion : UInt32) (installation host : Uuid)
    (recovery : Bool) : Option (World π φ × List (Event π)) :=
  match W.wires.lookup connection with
  | none => none
  | some w => W.gatewayStep p W.wires
      (.hello connection ⟨protocolVersion, installation, host, w.generation, recovery⟩)

/-- The session of a machine reads the next frame on its connection. -/
def read (machine event : Uuid) : Option (World π φ × List (Event π)) :=
  match W.gateway.live.lookup machine with
  | none => none
  | some s =>
    match (W.wires.lookup s.id).map Wire.up with
    | some (frame :: up) =>
      W.gatewayStep p (W.wires.modify s.id fun w => { w with up := up })
        (.session machine (.read event frame))
    | _ => none

/-- A host reads the next frame on its connection. -/
def receive [DecidableEq φ] (generation : Uuid) (full : Bool) :
    Option (World π φ × List (Event π)) :=
  match W.host generation with
  | none => none
  | some h =>
    match h.connection with
    | none => none
    | some connection =>
      match (W.wires.lookup connection.id).map Wire.down with
      | some (frame :: down) =>
        W.hostStep c generation h (W.wires.modify connection.id fun w => { w with down := down })
          (.receive frame full)
      | _ => none

/-- A host opens a connection. -/
def dial [DecidableEq φ] (connection generation : Uuid) : Option (World π φ × List (Event π)) :=
  match W.host generation with
  | none => none
  | some h =>
    if connection ∈ W.wires then none
    else W.hostStep c generation h (W.wires.insert connection ⟨generation, false, [], []⟩)
      (.connect connection)

/-- The gateway accepts a connection on which a credential is presented. -/
def upgrade (connection machine : Uuid) (credential : String) :
    Option (World π φ × List (Event π)) :=
  match W.wires.lookup connection with
  | none => none
  | some w =>
    if w.taken then none
    else W.gatewayStep p (W.wires.modify connection fun w => { w with taken := true })
      (.upgrade connection machine credential)

/-- A step of the world. -/
def step [DecidableEq φ] : Action π → Option (World π φ × List (Event π))
  | .gateway a => if gatewayAlone a then W.gatewayStep p W.wires a else none
  | .start generation =>
    if generation ∈ W.hosts then none
    else some ({ W with hosts := W.hosts.insert generation (some (.init generation)) }, [])
  | .stop generation =>
    some ({ W with hosts := W.hosts.modify generation fun _ => none }, [])
  | .host generation a =>
    match W.host generation with
    | none => none
    | some h => if hostAlone a then W.hostStep c generation h W.wires a else none
  | .dial connection generation => W.dial c connection generation
  | .upgrade connection machine credential => W.upgrade p connection machine credential
  | .hello connection protocolVersion installation host recovery =>
    W.hello p connection protocolVersion installation host recovery
  | .read machine event => W.read p machine event
  | .receive generation full => W.receive c generation full
  | .lose connection down up =>
    some ({ W with wires := W.wires.modify connection fun w =>
      { w with down := w.down.take down, up := w.up.take up } }, [])

/-- A new installation, without hosts. -/
def init : World π φ := ⟨.init, ∅, ∅⟩

end World

/-- The runs of a gateway with its hosts. -/
def worldSystem [DecidableEq φ] (p : Gateway.Platform π) (c : Daemon.Codec π φ) :
    System (World π φ) (Action π) (Event π) where
  start W := W = .init
  step W a := W.step p c a

/-! ### The effects of a step -/

/-- What the gateway takes from the connections for an action, and the connections after that. -/
inductive GatewayReads (W : World π φ) : Gateway.Action → Table Uuid (Wire π) → Prop
  | alone {a : Gateway.Action} (ha : gatewayAlone a = true) : GatewayReads W a W.wires
  | upgrade {connection machine : Uuid} {credential : String} {w : Wire π}
      (hw : W.wires.lookup connection = some w) (hnew : w.taken = false) :
      GatewayReads W (.upgrade connection machine credential)
        (W.wires.modify connection fun w => { w with taken := true })
  | hello {connection : Uuid} {hello : Gateway.Hello} {w : Wire π}
      (hw : W.wires.lookup connection = some w) (hgeneration : hello.generation = w.generation) :
      GatewayReads W (.hello connection hello) W.wires
  | read {machine event : Uuid} {s : Gateway.Session π} {w : Wire π} {frame : HostMessage}
      {up : List HostMessage} (hs : W.gateway.live.lookup machine = some s)
      (hw : W.wires.lookup s.id = some w) (hup : w.up = frame :: up) :
      GatewayReads W (.session machine (.read event frame))
        (W.wires.modify s.id fun w => { w with up := up })

/-- What a host takes from the connections for an action, and the connections after that. -/
inductive HostReads (W : World π φ) (generation : Uuid) (h : Daemon.Host π φ) :
    Daemon.Action π → Table Uuid (Wire π) → Prop
  | alone {a : Daemon.Action π} (ha : hostAlone a = true) : HostReads W generation h a W.wires
  | dial {connection : Uuid} (hnew : connection ∉ W.wires) :
      HostReads W generation h (.connect connection)
        (W.wires.insert connection ⟨generation, false, [], []⟩)
  | receive {connection : Daemon.Connection} {w : Wire π} {frame : GatewayMessage π} {full : Bool}
      {down : List (GatewayMessage π)} (hconnection : h.connection = some connection)
      (hw : W.wires.lookup connection.id = some w) (hdown : w.down = frame :: down) :
      HostReads W generation h (.receive frame full)
        (W.wires.modify connection.id fun w => { w with down := down })

/-- A step of the world is one of the gateway, one of a host, or the start or the end of a host
process, or frames are lost. -/
inductive Effect [DecidableEq φ] (p : Gateway.Platform π) (c : Daemon.Codec π φ)
    (W W' : World π φ) : List (Event π) → Prop
  | gateway {a : Gateway.Action} {wires : Table Uuid (Wire π)} {es : List (Gateway.Event π)}
      (hr : GatewayReads W a wires) (hstep : W.gateway.step p a = some (W'.gateway, es))
      (hh : W'.hosts = W.hosts) (hw : W'.wires = deliver wires es) :
      Effect p c W W' (es.map .gateway)
  | host {generation : Uuid} {h h' : Daemon.Host π φ} {a : Daemon.Action π}
      {wires : Table Uuid (Wire π)} {frames : List HostMessage} {es : List Daemon.Event}
      (hhost : W.hosts.lookup generation = some (some h)) (hr : HostReads W generation h a wires)
      (hstep : h.step c a = some (h', frames, es)) (hg : W'.gateway = W.gateway)
      (hh : W'.hosts = W.hosts.modify generation fun _ => some h')
      (hw : W'.wires = emit wires h.connection frames) : Effect p c W W' (es.map .host)
  | start {generation : Uuid} (hnew : generation ∉ W.hosts) (hg : W'.gateway = W.gateway)
      (hh : W'.hosts = W.hosts.insert generation (some (.init generation)))
      (hw : W'.wires = W.wires) : Effect p c W W' []
  | stop {generation : Uuid} (hg : W'.gateway = W.gateway)
      (hh : W'.hosts = W.hosts.modify generation fun _ => none) (hw : W'.wires = W.wires) :
      Effect p c W W' []
  | lose {connection : Uuid} {down up : ℕ} (hg : W'.gateway = W.gateway)
      (hh : W'.hosts = W.hosts) (hw : W'.wires = W.wires.modify connection fun w =>
        { w with down := w.down.take down, up := w.up.take up }) : Effect p c W W' []

variable [DecidableEq φ] {p : Gateway.Platform π} {c : Daemon.Codec π φ} {W W' : World π φ}
  {es log : List (Event π)}

omit [DecidableEq φ] in
theorem World.lookup_of_host {generation : Uuid} {h : Daemon.Host π φ}
    (hh : W.host generation = some h) : W.hosts.lookup generation = some (some h) :=
  Option.join_eq_some_iff.mp hh

theorem Effect.of_gatewayStep {a : Gateway.Action} {wires : Table Uuid (Wire π)}
    (hr : GatewayReads W a wires) (h : W.gatewayStep p wires a = some (W', es)) :
    Effect p c W W' es := by
  obtain ⟨r, hstep, heq⟩ := Option.map_eq_some_iff.mp h
  obtain ⟨rfl, rfl⟩ := Prod.mk.inj heq
  exact .gateway hr hstep rfl rfl

theorem Effect.of_hostStep {generation : Uuid} {h : Daemon.Host π φ} {a : Daemon.Action π}
    {wires : Table Uuid (Wire π)} (hh : W.host generation = some h)
    (hr : HostReads W generation h a wires)
    (hs : W.hostStep c generation h wires a = some (W', es)) : Effect p c W W' es := by
  obtain ⟨r, hstep, heq⟩ := Option.map_eq_some_iff.mp hs
  obtain ⟨rfl, rfl⟩ := Prod.mk.inj heq
  exact .host (World.lookup_of_host hh) hr hstep rfl rfl rfl

/-- Every step of the world has one of the effects. -/
theorem effect_of_step {a : Action π} (h : W.step p c a = some (W', es)) :
    Effect p c W W' es := by
  cases a with
  | gateway a =>
    simp only [World.step] at h
    split_ifs at h with ha
    exact .of_gatewayStep (.alone ha) h
  | start generation =>
    simp only [World.step] at h
    split_ifs at h with hnew
    obtain ⟨rfl, rfl⟩ := Prod.mk.inj (Option.some.inj h)
    exact .start hnew rfl rfl rfl
  | stop generation =>
    obtain ⟨rfl, rfl⟩ := Prod.mk.inj (Option.some.inj h)
    exact .stop rfl rfl rfl
  | host generation a =>
    simp only [World.step] at h
    split at h
    · cases h
    · next host hhost =>
      split_ifs at h with ha
      exact .of_hostStep hhost (.alone ha) h
  | dial connection generation =>
    simp only [World.step, World.dial] at h
    split at h
    · cases h
    · next host hhost =>
      split_ifs at h with hnew
      exact .of_hostStep hhost (.dial hnew) h
  | upgrade connection machine credential =>
    simp only [World.step, World.upgrade] at h
    split at h
    · cases h
    · next w hw =>
      split_ifs at h with hnew
      exact .of_gatewayStep (.upgrade hw (by simpa using hnew)) h
  | hello connection protocolVersion installation host recovery =>
    simp only [World.step, World.hello] at h
    split at h
    · cases h
    · next w hw => exact .of_gatewayStep (.hello hw rfl) h
  | read machine event =>
    simp only [World.step, World.read] at h
    split at h
    · cases h
    · next s hs =>
      split at h
      · next frame up hup =>
        obtain ⟨w, hw, hup⟩ := Option.map_eq_some_iff.mp hup
        exact .of_gatewayStep (.read hs hw hup) h
      · cases h
  | receive generation full =>
    simp only [World.step, World.receive] at h
    split at h
    · cases h
    · next host hhost =>
      split at h
      · cases h
      · next connection hconnection =>
        split at h
        · next frame down hdown =>
          obtain ⟨w, hw, hdown⟩ := Option.map_eq_some_iff.mp hdown
          exact .of_hostStep hhost (.receive hconnection hw hdown) h
        · cases h
  | lose connection down up =>
    obtain ⟨rfl, rfl⟩ := Prod.mk.inj (Option.some.inj h)
    exact .lose rfl rfl rfl

/-! ### The gateway in the world -/

/-- What happens at the gateway. -/
def Event.atGateway : Event π → Option (Gateway.Event π)
  | gateway e => some e
  | host _ => none

/-- What happens at the gateway in a run. -/
def gatewayLog (log : List (Event π)) : List (Gateway.Event π) := log.filterMap Event.atGateway

theorem gatewayLog_append (log es : List (Event π)) :
    gatewayLog (log ++ es) = gatewayLog log ++ gatewayLog es :=
  List.filterMap_append

@[simp] theorem gatewayLog_map_gateway (es : List (Gateway.Event π)) :
    gatewayLog (es.map Event.gateway) = es := by
  rw [gatewayLog, List.filterMap_map]
  exact List.filterMap_some

@[simp] theorem gatewayLog_map_host (es : List Daemon.Event) :
    gatewayLog (es.map Event.host : List (Event π)) = [] := by
  rw [gatewayLog, List.filterMap_map]
  exact List.filterMap_none es

theorem mem_gatewayLog {e : Gateway.Event π} : e ∈ gatewayLog log ↔ .gateway e ∈ log := by
  rw [gatewayLog, List.mem_filterMap]
  constructor
  · rintro ⟨e', hmem, he⟩
    cases e' with
    | gateway e' => exact Option.some.inj he ▸ hmem
    | host e' => cases he
  · exact fun hmem => ⟨_, hmem, rfl⟩

/-- What the gateway does in a run of the world is a run of the gateway. -/
theorem gateway_run (h : (worldSystem p c).Run log W) :
    (Gateway.gatewaySystem p).Run (gatewayLog log) W.gateway := by
  refine h.invariant (I := fun log W =>
    (Gateway.gatewaySystem p).Run (gatewayLog log) W.gateway) ?_ ?_
  · rintro _ rfl
    exact .start rfl
  · intro log W a W' es _ ih hstep
    rw [gatewayLog_append]
    cases effect_of_step hstep with
    | gateway _ hgateway =>
      rw [gatewayLog_map_gateway]
      exact ih.tail hgateway
    | host _ _ _ hg => simpa [hg] using ih
    | start _ hg => simpa [hg, gatewayLog] using ih
    | stop hg => simpa [hg, gatewayLog] using ih
    | lose hg => simpa [hg, gatewayLog] using ih

end

/-! ### An installation with one host -/

/-- Requests without content, whose responses have no length. -/
def plainCodec : Daemon.Codec Unit Unit :=
  ⟨fun _ => .single .other, fun _ => (), fun _ => 0, fun _ => 0⟩

/-- User 1 creates machine 2, and a host of runtime 3 connects as this machine, by connection 4. -/
def connectActions : List (Action Unit) :=
  (Gateway.connectActions.take 7).map .gateway ++
    [.start (.numbered 3), .dial (.numbered 4) (.numbered 3),
      .upgrade (.numbered 4) (.numbered 2) "credential",
      .hello (.numbered 4) 5 (.numbered 0) (.numbered 2) true] ++
    List.replicate 3 (.gateway (.session (.numbered 2) (.proceed (.numbered 0) false))) ++
    [.receive (.numbered 3) false]

/-- The user submits job 5, whose request is dispatched, sent and read. -/
def startActions : List (Action Unit) :=
  [.gateway Gateway.submitAction,
    .gateway (.session (.numbered 2) (.dispatch (.numbered 0) false [])),
    .gateway (.session (.numbered 2) (.proceed (.numbered 0) false)),
    .receive (.numbered 3) false]

end ExecutionProvider.Recovery
