import ExecutionProvider.Gateway.Promises
import ExecutionProvider.Gateway.Rows

/-!
# Slots and the tasks of sessions

For every connection that has said hello the process runs a task. The task takes the slot of its
machine, unless another task owns it, runs the session, tears it down, and then gives the slot up.
Here the tasks exist on their own, whether they own a slot or not, and the table of slots says
which connection owns the slot of a machine. It is the calls of the teardown that are assumed to
succeed.

## Main definitions

* `Task`, `Slots`: the tasks of a gateway process and the slots of the machines.
* `Slots.step`, `slotSystem`: the runs of the tasks with the rest of the gateway.
* `SlotEffect`: what a step consists of.

## Main results

* `slotEffect_of_step`: every step has one of the effects.
-/

namespace ExecutionProvider.Gateway

open Protocol

/-! ### Tasks -/

/-- The task of a connection that has said hello: it is about to take the slot of its machine, or
runs the session. -/
inductive Stage (π : Type)
  | contending (version : ℕ) (hello : Hello)
  | running (s : Session π)

/-- The task of a connection, and its machine. -/
structure Task (π : Type) where
  machine : Uuid
  stage : Stage π

/-- A gateway process with its database, the tasks of its connections and the slots of the
machines, and the identities of all connections that there were. -/
structure Slots (π : Type) where
  clock : ℕ
  database : Database
  process : Process
  handshakes : Table Uuid Handshake
  maintenance : Maintenance
  revocations : List Uuid
  slots : Table Uuid Uuid
  tasks : Table Uuid (Task π)
  drawn : List Uuid

/-- What happens: an event of the gateway; a task takes a slot, reads or settles the jobs that are
under way when its machine connects, dispatches a job, processes in time that the host has the
request of a job, has torn its session down, or dies with the process. -/
inductive SlotEvent (π : Type)
  | gateway (e : Event π)
  | took (connection machine : Uuid)
  | reconnected (connection machine : Uuid)
  | dispatched (connection job : Uuid)
  | accepted (connection job : Uuid)
  | tornDown (connection : Uuid)
  | lost (connection : Uuid)

/-- A step of the gateway outside the tasks, or of a task. -/
inductive SlotAction
  | gateway (a : Action)
  | crash
  | revoke (machine : Uuid)
  | hello (connection : Uuid) (hello : Hello)
  | take (connection : Uuid)
  | session (connection : Uuid) (a : SessionAction)

/-- What the gateway does outside the tasks. -/
def Action.alone : Action → Bool
  | .crash | .revoke _ | .hello .. | .session .. => false
  | _ => true

/-- The connection that an action draws. -/
def Action.drawn : Action → List Uuid
  | .upgrade connection _ _ => [connection]
  | _ => []

section

variable {π : Type} (p : Platform π)

/-- The session of a task. -/
def Task.session (t : Task π) : Option (Session π) :=
  match t.stage with
  | .running s => some s
  | .contending .. => none

/-- The task of a session that is revoked. -/
def Task.revoke (t : Task π) : Task π :=
  match t.stage with
  | .running s => ⟨t.machine, .running { s with revoked := true }⟩
  | .contending .. => t

/-- A job whose frame of acceptance a session processes before its recovery window has closed. -/
def Session.acceptsInTime (s : Session π) (now : ℕ) (db : Database) (id : String)
    (generation : Uuid) : Option Uuid :=
  if s.recovery ∧ generation = s.generation then
    (Uuid.parse id).filter fun job => s.pending.contains job &&
      (db.jobs.lookup job).any fun row => !row.recoveryExpired now
  else none

/-- What a step of a session is remembered by. -/
def Session.marks (s : Session π) (now : ℕ) (db : Database) (connection machine : Uuid)
    (next : Session π) : SessionAction → List (SlotEvent π)
  | .proceed .. =>
    match s.phase with
    | .checked | .reconnecting (_ :: _) _ => [.reconnected connection machine]
    | .closing => if s.recovery ∧ !s.revoked then [.tornDown connection] else []
    | .losing [] => [.tornDown connection]
    | _ => []
  | .dispatch .. =>
    match next.phase with
    | .dispatched job _ => [.dispatched connection job]
    | _ => []
  | .read _ (.accepted id generation) =>
    match s.phase with
    | .serving _ =>
      ((s.acceptsInTime now db id generation).map fun job => .accepted connection job).toList
    | _ => []
  | _ => []

/-- Whether a call of the teardown fails. -/
def Session.teardownFails (s : Session π) (now : ℕ) (db : Database) : SessionAction → Bool
  | .skip => true
  | .proceed event _ =>
    match s.phase with
    | .losing (job :: _) =>
      match finishLost p now event db job with
      | .error _ => true
      | .ok _ => false
    | _ => false
  | _ => false

namespace Slots

variable (S : Slots π)

/-- A new installation. -/
def init : Slots π := ⟨0, .empty, .down, ∅, .idle, [], ∅, ∅, []⟩

/-- The sessions that own slots. -/
def live : Table Uuid (Session π) :=
  S.slots.filterMapRows fun _ connection => (S.tasks.lookup connection).bind Task.session

/-- The gateway as the rest of its code sees it. -/
def gateway : AppState π :=
  ⟨S.clock, S.database, S.process, S.handshakes, S.live, S.maintenance, S.revocations⟩

/-- A step of the gateway outside the tasks. A connection gets an identity of its own. -/
def gatewayStep (a : Action) : Option (Slots π × List (SlotEvent π)) :=
  if a.alone ∧ a.drawn.all fun connection => !S.drawn.contains connection then
    (S.gateway.step p a).map fun r =>
      ({ S with
        clock := r.1.clock, database := r.1.database, process := r.1.process
        handshakes := r.1.handshakes, maintenance := r.1.maintenance
        revocations := r.1.revocations, drawn := a.drawn ++ S.drawn }, r.2.map .gateway)
  else none

/-- The process ends, and with it all of its tasks. -/
def crash : Slots π × List (SlotEvent π) :=
  ({ S with
    process := .down, handshakes := ∅, maintenance := .idle, revocations := [], slots := ∅
    tasks := ∅ }, S.tasks.keys.map .lost)

/-- The session that owns the slot of a machine is revoked. -/
def revoke (machine : Uuid) : Option (Slots π × List (SlotEvent π)) :=
  if machine ∈ S.revocations then
    some ({ S with
      revocations := S.revocations.erase machine
      tasks := match S.slots.lookup machine with
        | none => S.tasks
        | some connection => S.tasks.modify connection Task.revoke }, [])
  else none

/-- The first message of a host. -/
def hello (connection : Uuid) (hello : Hello) : Option (Slots π × List (SlotEvent π)) :=
  match S.handshakes.lookup connection with
  | none => none
  | some h =>
    let S := { S with handshakes := S.handshakes.erase connection }
    if hello.protocolVersion ≠ Protocol.version then
      some (S, [.gateway (.sent connection (.disconnect .incompatibleProtocol))])
    else if hello.installationId ≠ h.installation ∨ hello.hostId ≠ h.machine then some (S, [])
    else some ({ S with
      tasks := S.tasks.insert connection ⟨h.machine, .contending h.version hello⟩ }, [])

/-- A task takes the slot of its machine, or ends because there is an owner. -/
def take (connection : Uuid) : Option (Slots π × List (SlotEvent π)) :=
  match S.tasks.lookup connection with
  | some ⟨machine, .contending version hello⟩ =>
    if machine ∈ S.slots then some ({ S with tasks := S.tasks.erase connection }, [])
    else some ({ S with
      slots := S.slots.insert machine connection
      tasks := S.tasks.insert connection
        ⟨machine, .running (.init connection version hello)⟩ }, [.took connection machine])
  | _ => none

/-- A task that has torn its session down gives up the slot of its machine, if it is its own, and
ends. -/
def release (connection machine : Uuid) : Slots π :=
  { S with
    slots := if S.slots.lookup machine = some connection then S.slots.erase machine else S.slots
    tasks := S.tasks.erase connection }

/-- A step of the session of a task. -/
def sessionStep (connection : Uuid) (a : SessionAction) :
    Option (Slots π × List (SlotEvent π)) :=
  match S.tasks.lookup connection with
  | some ⟨machine, .running s⟩ =>
    match s.phase, a with
    | .closed, .proceed .. => some (S.release connection machine, [])
    | _, _ =>
      if s.teardownFails p S.clock S.database a then none
      else
        (s.step p S.clock S.database machine a).map fun t =>
          ({ S with
            database := t.database
            tasks := S.tasks.insert connection ⟨machine, .running t.session⟩ },
            t.events.map .gateway ++ s.marks S.clock S.database connection machine t.session a)
  | _ => none

/-- A step. The tasks run while the process serves. -/
def step : SlotAction → Option (Slots π × List (SlotEvent π))
  | .gateway a => S.gatewayStep p a
  | .crash => some S.crash
  | a =>
    if S.process.serves then
      match a with
      | .revoke machine => S.revoke machine
      | .hello connection hello => S.hello connection hello
      | .take connection => S.take connection
      | .session connection a =>
        if a.event.any fun event => event ∈ S.database.webhookDeliveries then none
        else S.sessionStep p connection a
      | _ => none
    else none

end Slots

/-- The runs of the tasks of a gateway. -/
def slotSystem : System (Slots π) SlotAction (SlotEvent π) where
  start S := S = .init
  step S a := S.step p a

/-! ### What a step consists of -/

/-- What a step consists of. -/
inductive SlotEffect (S S' : Slots π) : List (SlotEvent π) → Prop
  | gateway {es : List (Event π)} (hs : S'.slots = S.slots) (ht : S'.tasks = S.tasks)
      (hd : ∀ c ∈ S.drawn, c ∈ S'.drawn)
      (hh : ∀ c ∈ S'.handshakes, c ∈ S.handshakes ∨ c ∉ S.drawn ∧ c ∈ S'.drawn)
      (hp : S.process.serves = true → S'.process.serves = true)
      (hdb : Calm S.database S'.database ∨
        S.process.serves = false ∧ ∃ now, S'.database = markInflight now S.database) :
      SlotEffect S S' (es.map .gateway)
  | crash (hs : S'.slots = ∅) (ht : S'.tasks = ∅) (hd : S'.drawn = S.drawn)
      (hh : S'.handshakes = ∅) (hdb : S'.database = S.database) :
      SlotEffect S S' (S.tasks.keys.map .lost)
  | revoke {connection : Uuid} (hp : S.process.serves = true) (hs : S'.slots = S.slots)
      (ht : S'.tasks = S.tasks ∨ S'.tasks = S.tasks.modify connection Task.revoke)
      (hd : S'.drawn = S.drawn) (hh : S'.handshakes = S.handshakes)
      (hp' : S'.process = S.process) (hdb : S'.database = S.database) : SlotEffect S S' []
  | hello {connection : Uuid} {es : List (Event π)} {t : Task π} (hp : S.process.serves = true)
      (hc : connection ∈ S.handshakes) (hs : S'.slots = S.slots)
      (ht : S'.tasks = S.tasks ∨
        S'.tasks = S.tasks.insert connection t ∧ t.session = none)
      (hd : S'.drawn = S.drawn) (hh : S'.handshakes = S.handshakes.erase connection)
      (hp' : S'.process = S.process) (hdb : S'.database = S.database) :
      SlotEffect S S' (es.map .gateway)
  | refuse {connection : Uuid} {t : Task π} (hp : S.process.serves = true)
      (hc : S.tasks.lookup connection = some t) (hnone : t.session = none)
      (hs : S'.slots = S.slots) (ht : S'.tasks = S.tasks.erase connection)
      (hd : S'.drawn = S.drawn) (hh : S'.handshakes = S.handshakes)
      (hp' : S'.process = S.process) (hdb : S'.database = S.database) : SlotEffect S S' []
  | take {connection machine : Uuid} {version : ℕ} {hello : Hello}
      (hp : S.process.serves = true)
      (hc : S.tasks.lookup connection = some ⟨machine, .contending version hello⟩)
      (hfree : machine ∉ S.slots) (hs : S'.slots = S.slots.insert machine connection)
      (ht : S'.tasks = S.tasks.insert connection
        ⟨machine, .running (.init connection version hello)⟩)
      (hd : S'.drawn = S.drawn) (hh : S'.handshakes = S.handshakes)
      (hp' : S'.process = S.process) (hdb : S'.database = S.database) :
      SlotEffect S S' [.took connection machine]
  | turn {connection machine : Uuid} {s : Session π} {a : SessionAction} {t : Turn π}
      (hp : S.process.serves = true)
      (hc : S.tasks.lookup connection = some ⟨machine, .running s⟩)
      (hfails : s.teardownFails p S.clock S.database a = false)
      (hstep : s.step p S.clock S.database machine a = some t)
      (hs : S'.slots = S.slots)
      (ht : S'.tasks = S.tasks.insert connection ⟨machine, .running t.session⟩)
      (hd : S'.drawn = S.drawn) (hh : S'.handshakes = S.handshakes)
      (hp' : S'.process = S.process) (hdb : S'.database = t.database) :
      SlotEffect S S' (t.events.map .gateway ++
        s.marks S.clock S.database connection machine t.session a)
  | release {connection machine : Uuid} {s : Session π} (hp : S.process.serves = true)
      (hc : S.tasks.lookup connection = some ⟨machine, .running s⟩) (hphase : s.phase = .closed)
      (hs : S'.slots = if S.slots.lookup machine = some connection then S.slots.erase machine
        else S.slots) (ht : S'.tasks = S.tasks.erase connection)
      (hd : S'.drawn = S.drawn) (hh : S'.handshakes = S.handshakes)
      (hp' : S'.process = S.process) (hdb : S'.database = S.database) : SlotEffect S S' []

variable {p} {S S' : Slots π} {es : List (SlotEvent π)}

theorem handshakes_commit {α : Type} (g : AppState π) (t : Transaction α) :
    (g.commit t).1.handshakes = g.handshakes ∧ (g.commit t).1.process = g.process := by
  unfold AppState.commit
  split <;> exact ⟨rfl, rfl⟩

theorem handshakes_commitRevoking (g : AppState π) (machine : Uuid) (t : Transaction Unit) :
    (g.commitRevoking machine t).1.handshakes = g.handshakes ∧
      (g.commitRevoking machine t).1.process = g.process := by
  unfold AppState.commitRevoking
  split <;> exact ⟨rfl, rfl⟩

theorem handshakes_api (g : AppState π) (a : ApiAction) :
    (g.api p a).1.handshakes = g.handshakes ∧ (g.api p a).1.process = g.process := by
  cases a <;> exact handshakes_commit g _

theorem handshakes_maintain (g : AppState π) (event : Uuid) :
    (g.maintain p event).1.handshakes = g.handshakes ∧
      (g.maintain p event).1.process = g.process := by
  unfold AppState.maintain
  split
  · exact ⟨rfl, rfl⟩
  · exact ⟨rfl, rfl⟩
  · split <;> exact ⟨rfl, rfl⟩
  · exact ⟨rfl, rfl⟩
  · split <;> exact ⟨rfl, rfl⟩

theorem handshakes_boot {g g' : AppState π} {event : Uuid} {es : List (Event π)}
    (h : g.boot p event = some (g', es)) :
    g'.handshakes = g.handshakes ∧ g.process.serves = false := by
  unfold AppState.boot at h
  split at h
  · next hp =>
    obtain ⟨rfl, -⟩ := Prod.mk.inj (Option.some.inj h)
    exact ⟨rfl, by rw [hp]; rfl⟩
  · next hp =>
    obtain ⟨rfl, -⟩ := Prod.mk.inj (Option.some.inj h)
    exact ⟨rfl, by rw [hp]; rfl⟩
  · next hp =>
    split at h
    · obtain ⟨rfl, -⟩ := Prod.mk.inj (Option.some.inj h)
      exact ⟨rfl, by rw [hp]; rfl⟩
    · obtain ⟨rfl, -⟩ := Prod.mk.inj (Option.some.inj h)
      exact ⟨rfl, by rw [hp]; rfl⟩
  · cases h
  · cases h

theorem handshakes_serve {g g' : AppState π} {a : Action} {es : List (Event π)}
    (ha : a.alone = true) (h : g.serve p a = some (g', es)) :
    (∀ c ∈ g'.handshakes, c ∈ g.handshakes ∨ c ∈ a.drawn) ∧ g'.process = g.process := by
  have hsame (hg : g'.handshakes = g.handshakes ∧ g'.process = g.process) :
      (∀ c ∈ g'.handshakes, c ∈ g.handshakes ∨ c ∈ a.drawn) ∧ g'.process = g.process := by
    rw [hg.1]
    exact ⟨fun c hc => Or.inl hc, hg.2⟩
  cases a with
  | maintain event =>
    obtain ⟨rfl, -⟩ := Prod.mk.inj (Option.some.inj h)
    exact hsame (handshakes_maintain g event)
  | maintenanceFails =>
    obtain ⟨rfl, -⟩ := Prod.mk.inj (Option.some.inj h)
    exact hsame ⟨rfl, rfl⟩
  | api b =>
    obtain ⟨rfl, -⟩ := Prod.mk.inj (Option.some.inj h)
    exact hsame (handshakes_api g b)
  | register machine token installation credential =>
    obtain ⟨rfl, -⟩ := Prod.mk.inj (Option.some.inj h)
    exact hsame (handshakes_commitRevoking g _ _)
  | remove user machine =>
    obtain ⟨rfl, -⟩ := Prod.mk.inj (Option.some.inj h)
    exact hsame (handshakes_commitRevoking g _ _)
  | upgrade connection machine credential =>
    simp only [AppState.serve, AppState.upgrade] at h
    split_ifs at h
    split at h
    · cases h
    · obtain ⟨rfl, -⟩ := Prod.mk.inj (Option.some.inj h)
      refine ⟨fun c hc => ?_, rfl⟩
      rcases (AList.mem_insert _).mp hc with rfl | hc
      · exact Or.inr (List.mem_singleton_self c)
      · exact Or.inl hc
  | tick | start | boot => cases h
  | crash | revoke | hello | session => cases ha

/-- What a step of the gateway outside the tasks does to the connections and the process. -/
theorem handshakes_of_step {g g' : AppState π} {a : Action} {es : List (Event π)}
    (ha : a.alone = true) (h : g.step p a = some (g', es)) :
    (∀ c ∈ g'.handshakes, c ∈ g.handshakes ∨ c ∈ a.drawn) ∧
      (g.process.serves = true → g'.process.serves = true) := by
  unfold AppState.step at h
  split_ifs at h
  split at h
  · obtain ⟨rfl, -⟩ := Prod.mk.inj (Option.some.inj h)
    exact ⟨fun c hc => Or.inl hc, fun hp => hp⟩
  · next _ hdown _ =>
    obtain ⟨rfl, -⟩ := Prod.mk.inj (Option.some.inj h)
    refine ⟨fun c hc => Or.inl hc, fun hp => ?_⟩
    rw [hdown] at hp
    cases hp
  · cases ha
  · obtain ⟨hhand, hnot⟩ := handshakes_boot h
    rw [hhand]
    exact ⟨fun c hc => Or.inl hc, fun hp => (by cases hnot.symm.trans hp)⟩
  · obtain ⟨hhand, hprocess⟩ := handshakes_serve ha h
    rw [hprocess]
    exact ⟨hhand, fun hp => hp⟩
  · cases h

theorem slotEffect_of_gatewayStep {a : Action} (h : S.gatewayStep p a = some (S', es)) :
    SlotEffect p S S' es := by
  unfold Slots.gatewayStep at h
  split_ifs at h with ha
  obtain ⟨halone, hdrawn⟩ := ha
  obtain ⟨⟨g', es'⟩, hstep, heq⟩ := Option.map_eq_some_iff.mp h
  obtain ⟨rfl, rfl⟩ := Prod.mk.inj heq
  obtain ⟨hhand, hserves⟩ := handshakes_of_step halone hstep
  refine .gateway rfl rfl (fun c hc => List.mem_append_right _ hc) (fun c hc => ?_) hserves ?_
  · rcases hhand c hc with hold | hnew
    · exact Or.inl hold
    · refine Or.inr ⟨?_, List.mem_append_left _ hnew⟩
      simpa using List.all_eq_true.mp hdrawn c hnew
  · rcases rows_of_step hstep with hcalm | hopens
    · exact Or.inl hcalm
    · cases hopens with
      | boot hp hdb =>
        refine Or.inr ⟨?_, _, hdb⟩
        show S.gateway.process.serves = false
        rw [hp]
        rfl
      | teardown => cases halone

theorem slotEffect_of_revoke {machine : Uuid} (hp : S.process.serves = true)
    (h : S.revoke machine = some (S', es)) : SlotEffect p S S' es := by
  unfold Slots.revoke at h
  split_ifs at h
  obtain ⟨rfl, rfl⟩ := Prod.mk.inj (Option.some.inj h)
  cases hm : S.slots.lookup machine with
  | none => exact @SlotEffect.revoke _ _ _ _ machine hp rfl (Or.inl rfl) rfl rfl rfl rfl
  | some connection => exact .revoke hp rfl (Or.inr rfl) rfl rfl rfl rfl

theorem slotEffect_of_hello {connection : Uuid} {hello : Hello} (hp : S.process.serves = true)
    (h : S.hello connection hello = some (S', es)) : SlotEffect p S S' es := by
  unfold Slots.hello at h
  split at h
  · cases h
  · next k hk =>
    have hc := Table.mem_of_lookup hk
    dsimp only at h
    split_ifs at h
    · obtain ⟨rfl, rfl⟩ := Prod.mk.inj (Option.some.inj h)
      exact @SlotEffect.hello _ _ _ _ _
        [.sent connection (.disconnect .incompatibleProtocol)] ⟨k.machine, .contending 0 hello⟩
        hp hc rfl (Or.inl rfl) rfl rfl rfl rfl
    · obtain ⟨rfl, rfl⟩ := Prod.mk.inj (Option.some.inj h)
      exact @SlotEffect.hello _ _ _ _ _ [] ⟨k.machine, .contending 0 hello⟩
        hp hc rfl (Or.inl rfl) rfl rfl rfl rfl
    · obtain ⟨rfl, rfl⟩ := Prod.mk.inj (Option.some.inj h)
      exact @SlotEffect.hello _ _ _ _ _ [] _ hp hc rfl (Or.inr ⟨rfl, rfl⟩) rfl rfl rfl rfl

theorem slotEffect_of_take {connection : Uuid} (hp : S.process.serves = true)
    (h : S.take connection = some (S', es)) : SlotEffect p S S' es := by
  unfold Slots.take at h
  split at h
  · next machine version hello hc =>
    split_ifs at h with hfree
    · obtain ⟨rfl, rfl⟩ := Prod.mk.inj (Option.some.inj h)
      exact .refuse hp hc rfl rfl rfl rfl rfl rfl rfl
    · obtain ⟨rfl, rfl⟩ := Prod.mk.inj (Option.some.inj h)
      exact .take hp hc hfree rfl rfl rfl rfl rfl rfl
  · cases h

theorem slotEffect_of_sessionStep {connection : Uuid} {a : SessionAction}
    (hp : S.process.serves = true) (h : S.sessionStep p connection a = some (S', es)) :
    SlotEffect p S S' es := by
  unfold Slots.sessionStep at h
  split at h
  · next machine s hc =>
    split at h
    · next hphase =>
      obtain ⟨rfl, rfl⟩ := Prod.mk.inj (Option.some.inj h)
      exact .release hp hc hphase rfl rfl rfl rfl rfl rfl
    · split_ifs at h with hfails
      obtain ⟨t, ht, heq⟩ := Option.map_eq_some_iff.mp h
      obtain ⟨rfl, rfl⟩ := Prod.mk.inj heq
      exact .turn hp hc (by simpa using hfails) ht rfl rfl rfl rfl rfl rfl
  · cases h

/-- Every step has one of the effects. -/
theorem slotEffect_of_step {a : SlotAction} (h : S.step p a = some (S', es)) :
    SlotEffect p S S' es := by
  unfold Slots.step at h
  split at h
  · exact slotEffect_of_gatewayStep h
  · obtain ⟨rfl, rfl⟩ := Prod.mk.inj (Option.some.inj h)
    exact .crash rfl rfl rfl rfl rfl
  · split_ifs at h with hp
    split at h
    · exact slotEffect_of_revoke hp h
    · exact slotEffect_of_hello hp h
    · exact slotEffect_of_take hp h
    · split_ifs at h
      exact slotEffect_of_sessionStep hp h
    · cases h

end

end ExecutionProvider.Gateway
