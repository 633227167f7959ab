import ExecutionProvider.Foundation.Runs
import ExecutionProvider.Foundation.Table

/-!
# The endpoint of a supervisor

Supervisors that are given the same endpoint agree on one of them by a lock. The one that has it
removes a socket that an earlier one has left behind, binds its own, and takes this one away when it
is done, if it is still there. Supervisors are killed at any moment, calls fail, and other programs
of the system put something at the endpoint or take away what stands there, whoever has made it.

## Main definitions

* `World`: what the system knows about an endpoint, and the stages of its supervisors.
* `World.proceed`: the next call of a supervisor in `bind`, or of one whose listener is dropped.
* `endpointSystem`: the runs of any number of supervisors.
* `Undisturbed`, `Calm`: what other programs have left alone.
* `Stage.Holds`: what a supervisor may rely on.

## Main results

* `Agreed.step`: every step keeps this.
* `endpoint_exclusive`: one supervisor serves, at the endpoint, and removes nothing that is in use.
* `endpoint_recovers`: a supervisor that starts after others were killed comes to serve.
-/

namespace ExecutionProvider.Transport

/-! ### The system -/

/-- The device and the number of a file. -/
structure FileId where
  device : ℕ
  inode : ℕ
deriving DecidableEq

/-- A supervisor, or any other program. -/
inductive Party
  | supervisor (pid : ℕ)
  | other
deriving DecidableEq

/-- What stands at the endpoint. Only specifications look at who has made it. -/
structure Node where
  id : FileId
  isSocket : Bool
  uid : ℕ
  maker : Party
deriving DecidableEq

/-- How far a supervisor has come: it has the lock; an owned socket stands at the endpoint, which
has refused a connection; nothing stands there; its own socket is bound, is listening, is known to
the guard, and is served. After that the listener is closed and the guard is dropped, or the guard
first when the socket could not be made private, and the lock is released last, or before the
listener is closed. -/
inductive Stage
  | locked
  | probing
  | refused
  | vacant
  | bound (id : FileId)
  | listening (id : FileId)
  | guarded (id guard : FileId)
  | serving (id guard : FileId)
  | closing (id : FileId) (guard : Option FileId)
  | guarding (id guard : FileId)
  | unlocking
  | abandoned (id guard : FileId)
  | disowned (id : FileId)
  | orphaned (id : FileId)
deriving DecidableEq

/-- The process that has locked the lock file, what stands at the endpoint, who listens to which
sockets, and the supervisors that are running. -/
structure World where
  lock : Option ℕ
  node : Option Node
  listeners : Table FileId Party
  stages : Table ℕ Stage

/-- How a connection to the endpoint ends. -/
inductive Connection
  | accepted (party : Party)
  | refused
  | missing
deriving DecidableEq

/-- What has happened: a supervisor serves, has failed to, or is done; its guard has noted which
file stands at the endpoint; it has cleared the endpoint of a socket to which someone or nobody was
listening, or has removed the file that it had noted; or another program has withdrawn what stood
there. -/
inductive Event
  | serving (pid : ℕ)
  | failed (pid : ℕ)
  | noted (pid : ℕ) (id : FileId)
  | cleared (pid : ℕ) (node : Node) (listener : Option Party)
  | removed (pid : ℕ) (node : Node)
  | ended (pid : ℕ)
  | withdrawn (node : Node)
deriving DecidableEq

/-- What happens at an endpoint: a supervisor starts, does its next call, which may fail, stops
serving, or is killed, and then the system takes back what it had; another program makes something
at the endpoint in the place of what stood there, withdraws what stands there, or closes a socket of
its own. -/
inductive Action
  | start (pid : ℕ)
  | proceed (pid : ℕ) (fails : Bool) (id : FileId)
  | stop (pid : ℕ)
  | kill (pid : ℕ)
  | reapLock
  | reapListener (id : FileId)
  | place (id : FileId) (isSocket : Bool) (uid : ℕ) (listens : Bool)
  | withdraw
  | close (id : FileId)

namespace World

/-- An endpoint that was never used. -/
def init : World := ⟨none, none, ∅, ∅⟩

/-- A connection to what stands at the endpoint. -/
def connect (w : World) : Connection :=
  match w.node with
  | none => .missing
  | some node =>
    match w.listeners.lookup node.id with
    | some party => .accepted party
    | none => .refused

/-- A supervisor goes on to a stage. -/
def enter (w : World) (pid : ℕ) (stage : Stage) : World :=
  { w with stages := w.stages.insert pid stage }

/-- A supervisor returns an error while it has nothing but the lock. -/
def fail (w : World) (pid : ℕ) : World × List Event :=
  (w.enter pid .unlocking, [.failed pid])

/-- The guard of a socket is dropped: what stands at the endpoint is removed when it is still that
socket. -/
def dropGuard (w : World) (pid : ℕ) (guard : FileId) (fails : Bool) : World × List Event :=
  match w.node with
  | none => (w, [])
  | some node =>
    if fails = false ∧ node.id = guard then
      ({ w with node := none }, [.removed pid node])
    else (w, [])

/-- The lock is released. -/
def unlock (w : World) : World := { w with lock := none }

/-- A listener is closed. -/
def hangUp (w : World) (id : FileId) : World := { w with listeners := w.listeners.erase id }

/-- A supervisor is done. -/
def leave (w : World) (pid : ℕ) : World := { w with stages := w.stages.erase pid }

/-- The socket of a supervisor. -/
def socket (euid pid : ℕ) (id : FileId) : Node := ⟨id, true, euid, .supervisor pid⟩

/-- A supervisor serves, with a new socket. -/
def served (w : World) (euid pid : ℕ) (id : FileId) : World where
  lock := some pid
  node := some (socket euid pid id)
  listeners := w.listeners.insert id (.supervisor pid)
  stages := w.stages.insert pid (.serving id id)

/-- What is withdrawn when something else stands at the endpoint, or nothing. -/
def withdrawals (w : World) : List Event := (w.node.map Event.withdrawn).toList

/-- The socket that the supervisor with the lock has bound, which is not listening yet. -/
def binding (w : World) (id : FileId) : Prop := w.lock.bind w.stages.lookup = some (.bound id)

instance (w : World) (id : FileId) : Decidable (w.binding id) := inferInstanceAs (Decidable (_ = _))

/-- Another program makes something at the endpoint, and may listen to it. -/
def place (w : World) (node : Node) (listens : Bool) : World :=
  { w with
    node := some node
    listeners :=
      if node.isSocket ∧ listens then w.listeners.insert node.id node.maker else w.listeners }

/-- The next call of a supervisor. The system chooses the number of a new socket, which is not that
of a socket that is open. -/
def proceed (euid : ℕ) (w : World) (pid : ℕ) (fails : Bool) (id : FileId) :
    Stage → Option (World × List Event)
  | .locked =>
    if fails then some (w.fail pid)
    else match w.node with
    | none => some (w.enter pid .vacant, [])
    | some node =>
      -- the endpoint exists and is not an owned socket
      if node.isSocket = false ∨ node.uid ≠ euid then some (w.fail pid)
      else some (w.enter pid .probing, [])
  | .probing =>
    if fails then some (w.fail pid)
    else match w.connect with
    | .refused => some (w.enter pid .refused, [])
    | _ => some (w.fail pid)
  | .refused =>
    if fails then some (w.fail pid)
    else match w.node with
    | none => some (w.fail pid)
    | some node => some ({ w with node := none }.enter pid .vacant,
        [.cleared pid node (w.listeners.lookup node.id)])
  | .vacant =>
    if fails ∨ w.node.isSome then some (w.fail pid)
    else if id ∈ w.listeners then none
    else some ({ w with node := some (socket euid pid id) }.enter pid (.bound id), [])
  | .bound id =>
    if fails then some (w.fail pid)
    else some ({ w with listeners := w.listeners.insert id (.supervisor pid) }.enter pid
      (.listening id), [])
  | .listening id =>
    match if fails then none else w.node with
    | none => some (w.enter pid (.closing id none), [.failed pid])
    | some node => some (w.enter pid (.guarded id node.id), [.noted pid node.id])
  | .guarded id guard =>
    if fails ∨ w.node = none then some (w.enter pid (.abandoned id guard), [.failed pid])
    else some (w.enter pid (.serving id guard), [.serving pid])
  | .serving _ _ => none
  | .closing id guard =>
    match guard with
    | none => some ((w.hangUp id).enter pid .unlocking, [])
    | some guard => some ((w.hangUp id).enter pid (.guarding id guard), [])
  | .guarding _ guard =>
    let r := w.dropGuard pid guard fails
    some (r.1.enter pid .unlocking, r.2)
  | .unlocking => some (w.unlock.leave pid, [.ended pid])
  | .abandoned id guard =>
    let r := w.dropGuard pid guard fails
    some (r.1.enter pid (.disowned id), r.2)
  | .disowned id => some (w.unlock.enter pid (.orphaned id), [])
  | .orphaned id => some ((w.hangUp id).leave pid, [.ended pid])

/-- What happens at an endpoint. -/
def step (euid : ℕ) (w : World) : Action → Option (World × List Event)
  | .start pid =>
    if pid ∈ w.stages then none
    else if w.lock = none then some ({ w with lock := some pid }.enter pid .locked, [])
    else some (w, [.failed pid])
  | .proceed pid fails id => (w.stages.lookup pid).bind (w.proceed euid pid fails id)
  | .stop pid =>
    match w.stages.lookup pid with
    | some (.serving id guard) => some (w.enter pid (.closing id (some guard)), [])
    | _ => none
  | .kill pid => if pid ∈ w.stages then some (w.leave pid, []) else none
  | .reapLock =>
    if w.lock.any fun pid => pid ∉ w.stages then some (w.unlock, []) else none
  | .reapListener id =>
    match w.listeners.lookup id with
    | some (.supervisor pid) => if pid ∈ w.stages then none else some (w.hangUp id, [])
    | _ => none
  | .place id isSocket uid listens =>
    -- a new file is not a socket that is open
    if id ∈ w.listeners ∨ w.binding id then none
    else some (w.place ⟨id, isSocket, uid, .other⟩ listens, w.withdrawals)
  | .withdraw => some ({ w with node := none }, w.withdrawals)
  | .close id =>
    if w.listeners.lookup id = some .other then some (w.hangUp id, []) else none

end World

/-- The runs of any number of supervisors of one user at an endpoint. -/
def endpointSystem (euid : ℕ) : System World Action Event where
  start w := w = .init
  step := World.step euid

/-! ### What other programs leave alone -/

/-- The file that the guard of a supervisor notes in an event. -/
def Event.notes (pid : ℕ) : Event → Option FileId
  | .noted q id => if q = pid then some id else none
  | _ => none

/-- The file that the guard of a supervisor has noted last. -/
def lastNoted (log : List Event) (pid : ℕ) : Option FileId :=
  log.reverse.findSome? (Event.notes pid)

/-- No socket of a supervisor was withdrawn. -/
def Undisturbed (log : List Event) (pid : ℕ) : Prop :=
  ∀ node, .withdrawn node ∈ log → node.maker ≠ .supervisor pid

/-- Nothing was withdrawn. -/
def Calm (log : List Event) : Prop := ∀ node, .withdrawn node ∉ log

section Later

variable {log log' es : List Event} {pid : ℕ} {id : FileId}

theorem Undisturbed.of_append (h : Undisturbed (log ++ es) pid) : Undisturbed log pid :=
  fun node hmem => h node (List.mem_append_left _ hmem)

theorem Calm.of_append (h : Calm (log ++ es)) : Calm log :=
  fun node hmem => h node (List.mem_append_left _ hmem)

theorem lastNoted_append (h : ∀ e ∈ es, e.notes pid = none) :
    lastNoted (log ++ es) pid = lastNoted log pid := by
  have hnone : es.reverse.findSome? (Event.notes pid) = none :=
    List.findSome?_eq_none_iff.mpr fun e he => h e (List.mem_reverse.mp he)
  rw [lastNoted, List.reverse_append, List.findSome?_append, hnone, Option.none_or, lastNoted]

theorem lastNoted_noted : lastNoted (log ++ [.noted pid id]) pid = some id := by
  simp [lastNoted, Event.notes]

/-- More has happened, but the guard of a supervisor has noted nothing. -/
structure Later (pid : ℕ) (log log' : List Event) : Prop where
  undisturbed : Undisturbed log' pid → Undisturbed log pid
  calm : Calm log' → Calm log
  noted : lastNoted log' pid = lastNoted log pid

theorem later_append (h : ∀ e ∈ es, e.notes pid = none) : Later pid log (log ++ es) :=
  ⟨Undisturbed.of_append, Calm.of_append, lastNoted_append h⟩

end Later

/-! ### What a supervisor may rely on -/

namespace Stage

/-- Whether a supervisor has the lock. -/
def locks : Stage → Bool
  | orphaned _ => false
  | _ => true

/-- The socket to which a supervisor is listening. -/
def opened : Stage → Option FileId
  | listening id | guarded id _ | serving id _ | closing id _ | abandoned id _ | disowned id
  | orphaned id => some id
  | _ => none

/-- The socket that a supervisor has put at the endpoint. -/
def own : Stage → Option FileId
  | bound id | listening id | guarded id _ | serving id _ | closing id _ | abandoned id _
  | guarding id _ => some id
  | _ => none

/-- The file that the guard of a supervisor knows. -/
def guard : Stage → Option FileId
  | guarded _ guard | serving _ guard | abandoned _ guard | guarding _ guard => some guard
  | closing _ guard => guard
  | _ => none

/-- What a supervisor may rely on. It has the lock, listens to its socket, and its guard knows what
it has noted. Unless the socket was withdrawn, it stands at the endpoint and is what was noted; and
unless anything was withdrawn, what has been probed is still there. -/
structure Holds (euid : ℕ) (log : List Event) (w : World) (pid : ℕ) (s : Stage) : Prop where
  locks : s.locks = true → w.lock = some pid
  opened : ∀ id, s.opened = some id → w.listeners.lookup id = some (.supervisor pid)
  stands : Undisturbed log pid → ∀ id, s.own = some id → w.node = some (World.socket euid pid id)
  noted : ∀ guard, s.guard = some guard → lastNoted log pid = some guard
  guard : Undisturbed log pid → ∀ guard, s.guard = some guard → s.own = some guard
  probed : Calm log → s = probing ∨ s = refused →
    ∃ node, w.node = some node ∧ node.isSocket = true ∧ node.uid = euid
  unused : Calm log → s = refused → ∀ node, w.node = some node →
    w.listeners.lookup node.id = none
  fresh : ∀ id, s = bound id → w.listeners.lookup id = none

end Stage

/-- Every supervisor may rely on its stage, and the sockets of supervisors are theirs. -/
structure Agreed (euid : ℕ) (log : List Event) (w : World) : Prop where
  stages : ∀ pid s, w.stages.lookup pid = some s → s.Holds euid log w pid
  made : ∀ node, w.node = some node → node.maker ≠ .other →
    node.isSocket = true ∧ node.uid = euid

/-- A supervisor removes the file that its guard has noted, which is its own socket unless that was
withdrawn; and it clears the endpoint of a socket of its user that nobody was using, unless
something was withdrawn. -/
def Event.Harmless (euid : ℕ) (before : List Event) : Event → Prop
  | .removed pid node => lastNoted before pid = some node.id ∧
      (Undisturbed before pid → node = World.socket euid pid node.id)
  | .cleared _ node listener =>
      Calm before → node.isSocket = true ∧ node.uid = euid ∧ listener = none
  | _ => True

variable {euid : ℕ} {log log' : List Event} {w w' : World} {pid q : ℕ} {s s' : Stage}
  {es : List Event}

/-! ### Other supervisors -/

/-- While a supervisor has the lock, all that others have is a socket. -/
theorem Stage.Holds.locks_eq_false (h : s.Holds euid log w q) (hlock : w.lock = some pid)
    (hne : q ≠ pid) : s.locks = false := by
  refine Bool.eq_false_iff.mpr fun hlocks => hne ?_
  exact Option.some.inj ((h.locks hlocks).symm.trans hlock)

/-- A supervisor that does not have the lock relies only on its socket. -/
theorem Stage.Holds.of_unlocked (h : s.Holds euid log w q) (hs : s.locks = false)
    (hlisteners : ∀ id, w.listeners.lookup id = some (.supervisor q) →
      w'.listeners.lookup id = some (.supervisor q)) : s.Holds euid log' w' q := by
  cases s with
  | orphaned id =>
    exact {
      locks := fun hl => absurd hl (by simp [Stage.locks])
      opened := fun i hi => hlisteners i (h.opened i hi)
      stands := fun _ i hi => by cases hi
      noted := fun i hi => by cases hi
      guard := fun _ i hi => by cases hi
      probed := fun _ hp => by simp at hp
      unused := fun _ hp => by cases hp
      fresh := fun i hi => by cases hi }
  | _ => cases hs

/-- What a supervisor relies on is not changed, unless it is another program that takes something
away. -/
theorem Stage.Holds.frame (h : s.Holds euid log w q) (hlater : Later q log log')
    (hlock : w'.lock = w.lock) (hnode : w'.node = w.node)
    (hlisteners : ∀ id, w.listeners.lookup id = some (.supervisor q) →
      w'.listeners.lookup id = some (.supervisor q))
    (hnone : ∀ id, w.listeners.lookup id = none → w'.listeners.lookup id = none) :
    s.Holds euid log' w' q where
  locks hs := hlock ▸ h.locks hs
  opened id hid := hlisteners id (h.opened id hid)
  stands hu id hid := hnode ▸ h.stands (hlater.undisturbed hu) id hid
  noted guard hg := hlater.noted.trans (h.noted guard hg)
  guard hu := h.guard (hlater.undisturbed hu)
  probed hc hs := hnode ▸ h.probed (hlater.calm hc) hs
  unused hc hs node hn := hnone _ (h.unused (hlater.calm hc) hs node (hnode ▸ hn))
  fresh id hs := hnone _ (h.fresh id hs)

theorem Stage.Holds.append (h : s.Holds euid log w pid) (hes : ∀ e ∈ es, e.notes pid = none) :
    s.Holds euid (log ++ es) w pid :=
  h.frame (later_append hes) rfl rfl (fun _ hl => hl) fun _ hl => hl

/-- A supervisor that has the lock does a call: it goes on to a stage of which this holds, and the
others keep their sockets. -/
theorem Agreed.enter (h : Agreed euid log w) (hlock : w.lock = some pid)
    (hs' : s'.Holds euid log' w' pid)
    (hstages : w'.stages = w.stages.insert pid s')
    (hlisteners : ∀ q id, q ≠ pid → w.listeners.lookup id = some (.supervisor q) →
      w'.listeners.lookup id = some (.supervisor q))
    (hmade : ∀ node, w'.node = some node → node.maker ≠ .other →
      node.isSocket = true ∧ node.uid = euid) : Agreed euid log' w' where
  stages q t ht := by
    rw [hstages] at ht
    rcases Table.lookup_insert_eq_some.mp ht with ⟨rfl, rfl⟩ | ⟨hne, ht⟩
    · exact hs'
    · have hold := h.stages q t ht
      exact hold.of_unlocked (hold.locks_eq_false hlock hne) fun id => hlisteners q id hne
  made := hmade

/-- A supervisor that has not probed the endpoint. -/
theorem Stage.holds_of (hs : s ≠ .probing ∧ s ≠ .refused)
    (hlock : s.locks = true → w.lock = some pid)
    (hopened : ∀ id, s.opened = some id → w.listeners.lookup id = some (.supervisor pid))
    (hstands : Undisturbed log pid → ∀ id, s.own = some id →
      w.node = some (World.socket euid pid id))
    (hnoted : ∀ guard, s.guard = some guard → lastNoted log pid = some guard)
    (hguard : Undisturbed log pid → ∀ guard, s.guard = some guard → s.own = some guard)
    (hfresh : ∀ id, s = .bound id → w.listeners.lookup id = none) : s.Holds euid log w pid :=
  ⟨hlock, hopened, hstands, hnoted, hguard, fun _ hp => (hp.elim hs.1 hs.2).elim,
    fun _ hp => (hs.2 hp).elim, hfresh⟩

/-- A supervisor that has nothing but the lock. -/
theorem Stage.holds_locked (hs : s = .locked ∨ s = .vacant ∨ s = .unlocking)
    (hlock : w.lock = some pid) : s.Holds euid log w pid := by
  refine Stage.holds_of ?_ (fun _ => hlock) (fun i hi => ?_) (fun _ i hi => ?_) (fun i hi => ?_)
    (fun _ i hi => ?_) fun i hi => ?_
  · rcases hs with rfl | rfl | rfl <;> simp
  all_goals rcases hs with rfl | rfl | rfl <;> cases hi

/-! ### The calls of a supervisor -/

section Proceed

variable {id : FileId} {fails : Bool}

/-- What a call leaves. -/
def After (euid : ℕ) (log : List Event) (r : World × List Event) : Prop :=
  Agreed euid (log ++ r.2) r.1 ∧ System.Along (Event.Harmless euid) log r.2

/-- A supervisor returns an error. -/
theorem Agreed.after_fail (h : Agreed euid log w) (hlock : w.lock = some pid) :
    After euid log (w.fail pid) :=
  ⟨h.enter hlock (Stage.holds_locked (.inr (.inr rfl)) hlock) rfl (fun _ _ _ hl => hl) h.made,
    System.along_singleton trivial⟩

theorem Agreed.after_locked (h : Agreed euid log w) (hs : Stage.locked.Holds euid log w pid)
    {r : World × List Event} (hr : w.proceed euid pid fails id .locked = some r) :
    After euid log r := by
  have hlock := hs.locks rfl
  rw [World.proceed] at hr
  split_ifs at hr
  · exact Option.some.inj hr ▸ h.after_fail hlock
  · split at hr
    · obtain rfl := Option.some.inj hr
      exact ⟨h.enter hlock (Stage.holds_locked (.inr (.inl rfl)) hlock) rfl (fun _ _ _ hl => hl)
        h.made, trivial⟩
    · next node hnode =>
      split_ifs at hr with howned
      · exact Option.some.inj hr ▸ h.after_fail hlock
      · obtain rfl := Option.some.inj hr
        simp only [not_or, Bool.not_eq_false, not_not] at howned
        have hprobing : Stage.probing.Holds euid (log ++ []) (w.enter pid .probing) pid := {
          locks := fun _ => hlock
          opened := fun i hi => by cases hi
          stands := fun _ i hi => by cases hi
          noted := fun i hi => by cases hi
          guard := fun _ i hi => by cases hi
          probed := fun _ _ => ⟨node, hnode, howned⟩
          unused := fun _ hp => by cases hp
          fresh := fun i hi => by cases hi }
        exact ⟨h.enter hlock hprobing rfl (fun _ _ _ hl => hl) h.made, trivial⟩

theorem World.connect_eq_refused (h : w.connect = .refused) :
    ∀ node, w.node = some node → w.listeners.lookup node.id = none := by
  intro node hnode
  rw [World.connect, hnode] at h
  dsimp only at h
  split at h
  · cases h
  · next hnone => exact hnone

theorem Agreed.after_probing (h : Agreed euid log w) (hs : Stage.probing.Holds euid log w pid)
    {r : World × List Event} (hr : w.proceed euid pid fails id .probing = some r) :
    After euid log r := by
  have hlock := hs.locks rfl
  rw [World.proceed] at hr
  split_ifs at hr
  · exact Option.some.inj hr ▸ h.after_fail hlock
  · split at hr
    · next hrefused =>
      obtain rfl := Option.some.inj hr
      have hnew : Stage.refused.Holds euid (log ++ []) (w.enter pid .refused) pid := {
        locks := fun _ => hlock
        opened := fun i hi => by cases hi
        stands := fun _ i hi => by cases hi
        noted := fun i hi => by cases hi
        guard := fun _ i hi => by cases hi
        probed := fun hc _ => hs.probed hc.of_append (.inl rfl)
        unused := fun _ _ => World.connect_eq_refused hrefused
        fresh := fun i hi => by cases hi }
      exact ⟨h.enter hlock hnew rfl (fun _ _ _ hl => hl) h.made, trivial⟩
    · exact Option.some.inj hr ▸ h.after_fail hlock

theorem Agreed.after_refused (h : Agreed euid log w) (hs : Stage.refused.Holds euid log w pid)
    {r : World × List Event} (hr : w.proceed euid pid fails id .refused = some r) :
    After euid log r := by
  have hlock := hs.locks rfl
  rw [World.proceed] at hr
  split_ifs at hr
  · exact Option.some.inj hr ▸ h.after_fail hlock
  · split at hr
    · exact Option.some.inj hr ▸ h.after_fail hlock
    · next node hnode =>
      obtain rfl := Option.some.inj hr
      refine ⟨h.enter hlock (Stage.holds_locked (.inr (.inl rfl)) hlock) rfl (fun _ _ _ hl => hl)
        (fun n hn => by cases hn), System.along_singleton fun hc => ?_⟩
      obtain ⟨n, hn, hsocket, huid⟩ := hs.probed hc (.inr rfl)
      obtain rfl : node = n := Option.some.inj (hnode.symm.trans hn)
      exact ⟨hsocket, huid, hs.unused hc rfl node hnode⟩

/-- The socket of a supervisor that is bound stands at the endpoint. -/
theorem Agreed.after_vacant (h : Agreed euid log w) (hs : Stage.vacant.Holds euid log w pid)
    {r : World × List Event} (hr : w.proceed euid pid fails id .vacant = some r) :
    After euid log r := by
  have hlock := hs.locks rfl
  rw [World.proceed] at hr
  split_ifs at hr with hfails hmem
  · exact Option.some.inj hr ▸ h.after_fail hlock
  · obtain rfl := Option.some.inj hr
    have hnew : (Stage.bound id).Holds euid (log ++ [])
        ({ w with node := some (World.socket euid pid id) }.enter pid (.bound id)) pid :=
      Stage.holds_of (by simp) (fun _ => hlock) (fun _ hi => by cases hi)
        (fun _ i hi => by rw [← Option.some.inj hi]; rfl) (fun _ hi => by cases hi)
        (fun _ _ hi => by cases hi) fun i hi => by
          cases hi
          exact AList.lookup_eq_none.mpr hmem
    refine ⟨h.enter hlock hnew rfl (fun _ _ _ hl => hl) fun n hn _ => ?_, trivial⟩
    obtain rfl := Option.some.inj hn
    exact ⟨rfl, rfl⟩

/-- The socket of a supervisor that is listening. -/
theorem Agreed.after_bound (h : Agreed euid log w) {file : FileId}
    (hs : (Stage.bound file).Holds euid log w pid) {r : World × List Event}
    (hr : w.proceed euid pid fails id (.bound file) = some r) : After euid log r := by
  have hlock := hs.locks rfl
  rw [World.proceed] at hr
  split_ifs at hr
  · exact Option.some.inj hr ▸ h.after_fail hlock
  · obtain rfl := Option.some.inj hr
    refine ⟨h.enter hlock (Stage.holds_of (by simp) (fun _ => hlock) (fun i hi => ?_)
      (fun hu i hi => ?_) (fun _ hi => by cases hi) (fun _ _ hi => by cases hi)
      fun _ hi => by cases hi) rfl (fun q i hne hl => ?_) h.made, trivial⟩
    · obtain rfl := Option.some.inj hi
      exact AList.lookup_insert _
    · exact hs.stands hu.of_append i hi
    · have hi : i ≠ file := fun heq => by
        rw [heq, hs.fresh file rfl] at hl
        cases hl
      exact (AList.lookup_insert_ne hi).trans hl

/-- The guard notes what stands at the endpoint. -/
theorem Agreed.after_listening (h : Agreed euid log w) {file : FileId}
    (hs : (Stage.listening file).Holds euid log w pid) {r : World × List Event}
    (hr : w.proceed euid pid fails id (.listening file) = some r) : After euid log r := by
  have hlock := hs.locks rfl
  rw [World.proceed] at hr
  split at hr
  · obtain rfl := Option.some.inj hr
    have hnew : (Stage.closing file none).Holds euid (log ++ [.failed pid])
        (w.enter pid (.closing file none)) pid :=
      Stage.holds_of (by simp) (fun _ => hlock) hs.opened (fun hu => hs.stands hu.of_append)
        (fun _ hi => by cases hi) (fun _ _ hi => by cases hi) fun _ hi => by cases hi
    exact ⟨h.enter hlock hnew rfl (fun _ _ _ hl => hl) h.made, System.along_singleton trivial⟩
  · next node hfound =>
    have hnode : w.node = some node := by
      cases fails with
      | false => rwa [if_neg Bool.false_ne_true] at hfound
      | true => cases hfound
    obtain rfl := Option.some.inj hr
    have hnew : (Stage.guarded file node.id).Holds euid (log ++ [.noted pid node.id])
        (w.enter pid (.guarded file node.id)) pid := by
      refine Stage.holds_of (by simp) (fun _ => hlock) hs.opened (fun hu => hs.stands hu.of_append)
        (fun i hi => ?_) (fun hu i hi => ?_) fun _ hi => by cases hi
      · exact Option.some.inj hi ▸ lastNoted_noted
      · have hsocket := hnode.symm.trans (hs.stands hu.of_append file rfl)
        rw [← Option.some.inj hi, Option.some.inj hsocket]
        rfl
    exact ⟨h.enter hlock hnew rfl (fun _ _ _ hl => hl) h.made, System.along_singleton trivial⟩

theorem Agreed.after_guarded (h : Agreed euid log w) {file guard : FileId}
    (hs : (Stage.guarded file guard).Holds euid log w pid) {r : World × List Event}
    (hr : w.proceed euid pid fails id (.guarded file guard) = some r) : After euid log r := by
  have hlock := hs.locks rfl
  have hnew (s' : Stage) (hs' : s' = .abandoned file guard ∨ s' = .serving file guard) {e : Event}
      (he : e.notes pid = none) : Agreed euid (log ++ [e]) (w.enter pid s') := by
    have hquiet : ∀ e' ∈ [e], e'.notes pid = none := fun e' he' => List.mem_singleton.mp he' ▸ he
    have hsame := hs.append hquiet
    refine h.enter hlock (Stage.holds_of ?_ (fun _ => hlock) (fun i hi => hs.opened i ?_)
      (fun hu i hi => hsame.stands hu i ?_) (fun i hi => hsame.noted i ?_)
      (fun hu i hi => ?_) fun i hi => ?_) rfl (fun _ _ _ hl => hl) h.made
    · rcases hs' with rfl | rfl <;> simp
    · rcases hs' with rfl | rfl <;> exact hi
    · rcases hs' with rfl | rfl <;> exact hi
    · rcases hs' with rfl | rfl <;> exact hi
    · rcases hs' with rfl | rfl <;> exact hsame.guard hu i hi
    · rcases hs' with rfl | rfl <;> cases hi
  rw [World.proceed] at hr
  split_ifs at hr
  · obtain rfl := Option.some.inj hr
    exact ⟨hnew _ (.inl rfl) rfl, System.along_singleton trivial⟩
  · obtain rfl := Option.some.inj hr
    exact ⟨hnew _ (.inr rfl) rfl, System.along_singleton trivial⟩

/-- Closing a listener concerns no other supervisor. -/
theorem World.lookup_hangUp {file i : FileId} (hfile : w.listeners.lookup file =
    some (.supervisor pid)) (hne : q ≠ pid) (hl : w.listeners.lookup i = some (.supervisor q)) :
    (w.hangUp file).listeners.lookup i = some (.supervisor q) := by
  have hi : i ≠ file := fun heq => by
    rw [heq, hfile] at hl
    exact hne (Party.supervisor.inj (Option.some.inj hl)).symm
  exact (AList.lookup_erase_ne hi).trans hl

theorem Agreed.after_closing (h : Agreed euid log w) {file : FileId} {guard : Option FileId}
    (hs : (Stage.closing file guard).Holds euid log w pid) {r : World × List Event}
    (hr : w.proceed euid pid fails id (.closing file guard) = some r) : After euid log r := by
  have hlock := hs.locks rfl
  have hopened := hs.opened file rfl
  cases guard with
  | none =>
    obtain rfl := Option.some.inj hr
    exact ⟨h.enter hlock (Stage.holds_locked (.inr (.inr rfl)) hlock) rfl
      (fun q i hne => World.lookup_hangUp hopened hne) h.made, trivial⟩
  | some guard =>
    obtain rfl := Option.some.inj hr
    have hsame : (Stage.closing file (some guard)).Holds euid (log ++ []) w pid :=
      hs.append fun e he => by cases he
    have hnew : (Stage.guarding file guard).Holds euid (log ++ [])
        ((w.hangUp file).enter pid (.guarding file guard)) pid :=
      Stage.holds_of (by simp) (fun _ => hlock) (fun _ hi => by cases hi) hsame.stands hsame.noted
        hsame.guard fun _ hi => by cases hi
    exact ⟨h.enter hlock hnew rfl (fun q i hne => World.lookup_hangUp hopened hne) h.made, trivial⟩

/-- A guard is dropped, and the supervisor goes on to a stage that needs no socket at the
endpoint. What is removed is what the guard has noted. -/
theorem Agreed.after_dropGuard (h : Agreed euid log w) (hs : s.Holds euid log w pid)
    {guard : FileId} (hguard : s.guard = some guard) (hlock : w.lock = some pid)
    (hs' : ∀ w' log', w'.lock = w.lock → w'.listeners = w.listeners →
      s'.Holds euid log' w' pid) :
    After euid log ((w.dropGuard pid guard fails).1.enter pid s',
      (w.dropGuard pid guard fails).2) := by
  have hstays : After euid log (w.enter pid s', []) :=
    ⟨h.enter hlock (hs' _ _ rfl rfl) rfl (fun _ _ _ hl => hl) h.made, trivial⟩
  rw [World.dropGuard]
  split
  · exact hstays
  · next node hnode =>
    split_ifs with hremoves
    · refine ⟨h.enter hlock (hs' _ _ rfl rfl) rfl (fun _ _ _ hl => hl) (fun n hn => by cases hn),
        System.along_singleton ⟨?_, fun hu => ?_⟩⟩
      · rw [hs.noted guard hguard, hremoves.2]
      · have hsocket := hs.stands hu guard (hs.guard hu guard hguard)
        rw [hremoves.2]
        exact Option.some.inj (hnode.symm.trans hsocket)
    · exact hstays

theorem Agreed.after_guarding (h : Agreed euid log w) {file guard : FileId}
    (hs : (Stage.guarding file guard).Holds euid log w pid) {r : World × List Event}
    (hr : w.proceed euid pid fails id (.guarding file guard) = some r) : After euid log r := by
  obtain rfl := Option.some.inj hr
  refine h.after_dropGuard hs rfl (hs.locks rfl) fun w' _ hl _ => ?_
  exact Stage.holds_locked (.inr (.inr rfl)) (hl.trans (hs.locks rfl))

theorem Agreed.after_abandoned (h : Agreed euid log w) {file guard : FileId}
    (hs : (Stage.abandoned file guard).Holds euid log w pid) {r : World × List Event}
    (hr : w.proceed euid pid fails id (.abandoned file guard) = some r) : After euid log r := by
  obtain rfl := Option.some.inj hr
  refine h.after_dropGuard hs rfl (hs.locks rfl) fun w' _ hl hlisteners => ?_
  refine Stage.holds_of (by simp) (fun _ => hl.trans (hs.locks rfl)) (fun i hi => ?_)
    (fun _ _ hi => by cases hi) (fun _ hi => by cases hi) (fun _ _ hi => by cases hi)
    fun _ hi => by cases hi
  rw [hlisteners]
  exact hs.opened i hi

/-- The lock is released. -/
theorem Agreed.after_unlock (h : Agreed euid log w) (hlock : w.lock = some pid)
    (hstages : ∀ q t, w'.stages.lookup q = some t → q = pid ∧ t.Holds euid log' w' pid ∨
      q ≠ pid ∧ w.stages.lookup q = some t) (hnode : w'.node = w.node)
    (hlisteners : w'.listeners = w.listeners) : Agreed euid log' w' where
  stages q t ht := by
    rcases hstages q t ht with ⟨rfl, hnew⟩ | ⟨hne, hold⟩
    · exact hnew
    · have hq := h.stages q t hold
      exact hq.of_unlocked (hq.locks_eq_false hlock hne) fun i hi => by rw [hlisteners]; exact hi
  made n hn := h.made n (hnode ▸ hn)

theorem Agreed.after_unlocking (h : Agreed euid log w)
    (hs : Stage.unlocking.Holds euid log w pid) {r : World × List Event}
    (hr : w.proceed euid pid fails id .unlocking = some r) : After euid log r := by
  obtain rfl := Option.some.inj hr
  refine ⟨h.after_unlock (hs.locks rfl) (fun q t ht => Or.inr ?_) rfl rfl,
    System.along_singleton trivial⟩
  rcases eq_or_ne q pid with rfl | hne
  · simp [World.leave, World.unlock] at ht
  · exact ⟨hne, (AList.lookup_erase_ne hne).symm.trans ht⟩

theorem Agreed.after_disowned (h : Agreed euid log w) {file : FileId}
    (hs : (Stage.disowned file).Holds euid log w pid) {r : World × List Event}
    (hr : w.proceed euid pid fails id (.disowned file) = some r) : After euid log r := by
  obtain rfl := Option.some.inj hr
  refine ⟨h.after_unlock (hs.locks rfl) (fun q t ht => ?_) rfl rfl, trivial⟩
  rcases Table.lookup_insert_eq_some.mp ht with ⟨rfl, rfl⟩ | ⟨hne, hold⟩
  · refine Or.inl ⟨rfl, Stage.holds_of (by simp) (fun hl => by cases hl) (fun i hi => ?_)
      (fun _ _ hi => by cases hi) (fun _ hi => by cases hi) (fun _ _ hi => by cases hi)
      fun _ hi => by cases hi⟩
    exact hs.opened i hi
  · exact Or.inr ⟨hne, hold⟩

/-- A supervisor that has released the lock closes its listener. -/
theorem Agreed.after_orphaned (h : Agreed euid log w) {file : FileId}
    (hs : (Stage.orphaned file).Holds euid log w pid) {r : World × List Event}
    (hr : w.proceed euid pid fails id (.orphaned file) = some r) : After euid log r := by
  obtain rfl := Option.some.inj hr
  refine ⟨⟨fun q t ht => ?_, h.made⟩, System.along_singleton trivial⟩
  rcases eq_or_ne q pid with rfl | hne
  · simp [World.leave, World.hangUp] at ht
  · have hold := (AList.lookup_erase_ne hne).symm.trans ht
    refine (h.stages q t hold).frame (later_append ?_) rfl rfl (fun i hi => ?_) fun i hi => ?_
    · intro e he
      rw [List.mem_singleton.mp he]
      rfl
    · exact World.lookup_hangUp (hs.opened file rfl) hne hi
    · rw [World.leave, World.hangUp]
      rcases eq_or_ne i file with rfl | hi'
      · exact AList.lookup_erase _ _
      · exact (AList.lookup_erase_ne hi').trans hi

/-- What a call of a supervisor leaves. -/
theorem Agreed.after_proceed (h : Agreed euid log w) (hs : s.Holds euid log w pid)
    {r : World × List Event} (hr : w.proceed euid pid fails id s = some r) :
    After euid log r := by
  cases s with
  | locked => exact h.after_locked hs hr
  | probing => exact h.after_probing hs hr
  | refused => exact h.after_refused hs hr
  | vacant => exact h.after_vacant hs hr
  | bound file => exact h.after_bound hs hr
  | listening file => exact h.after_listening hs hr
  | guarded file guard => exact h.after_guarded hs hr
  | serving file guard => cases hr
  | closing file guard => exact h.after_closing hs hr
  | guarding file guard => exact h.after_guarding hs hr
  | unlocking => exact h.after_unlocking hs hr
  | abandoned file guard => exact h.after_abandoned hs hr
  | disowned file => exact h.after_disowned hs hr
  | orphaned file => exact h.after_orphaned hs hr

end Proceed

/-! ### Every step -/

/-- What holds is not changed by what happens to sockets of supervisors that are gone and of other
programs. -/
theorem Agreed.frame (h : Agreed euid log w) (hes : ∀ q, ∀ e ∈ es, e.notes q = none)
    (hlock : w'.lock = w.lock) (hnode : w'.node = w.node)
    (hstages : ∀ q t, w'.stages.lookup q = some t → w.stages.lookup q = some t)
    (hlisteners : ∀ q id, q ∈ w'.stages → w.listeners.lookup id = some (.supervisor q) →
      w'.listeners.lookup id = some (.supervisor q))
    (hnone : ∀ id, w.listeners.lookup id = none → w'.listeners.lookup id = none) :
    Agreed euid (log ++ es) w' where
  stages q t ht := (h.stages q t (hstages q t ht)).frame (later_append (hes q)) hlock hnode
    (fun id => hlisteners q id (Table.mem_of_lookup ht)) hnone
  made n hn := h.made n (hnode ▸ hn)

/-- A socket is closed that belongs to no supervisor that is running. -/
theorem Agreed.hangUp (h : Agreed euid log w) {file : FileId}
    (hfile : ∀ q ∈ w.stages, w.listeners.lookup file ≠ some (.supervisor q)) :
    Agreed euid (log ++ []) (w.hangUp file) := by
  refine h.frame (fun _ _ he => by cases he) rfl rfl (fun _ _ ht => ht) (fun q id hq hid => ?_)
    fun id hid => ?_
  · have hne : id ≠ file := fun heq => hfile q hq (heq ▸ hid)
    exact (AList.lookup_erase_ne hne).trans hid
  · rcases eq_or_ne id file with rfl | hne
    · exact AList.lookup_erase _ _
    · exact (AList.lookup_erase_ne hne).trans hid

theorem World.notes_withdrawals (w : World) (q : ℕ) : ∀ e ∈ w.withdrawals, e.notes q = none := by
  intro e he
  obtain ⟨node, -, rfl⟩ := Option.map_eq_some_iff.mp (Option.mem_toList.mp he)
  rfl

theorem World.mem_withdrawals {node : Node} (h : w.node = some node) :
    .withdrawn node ∈ w.withdrawals := by
  rw [World.withdrawals, h]
  exact List.mem_singleton_self _

theorem World.along_withdrawals (w : World) :
    System.Along (Event.Harmless euid) log w.withdrawals := by
  rw [World.withdrawals]
  cases w.node with
  | none => trivial
  | some node => exact System.along_singleton trivial

/-- When another program withdraws what stands at the endpoint, and perhaps puts something in its
place, a supervisor whose socket it was, or that has probed it, can no longer rely on it. -/
theorem Agreed.replace (h : Agreed euid log w) (hlock : w'.lock = w.lock)
    (hstages : w'.stages = w.stages)
    (hlisteners : ∀ q id, w.listeners.lookup id = some (.supervisor q) →
      w'.listeners.lookup id = some (.supervisor q))
    (hfresh : ∀ q id, w.lock = some q → w.stages.lookup q = some (.bound id) →
      w.listeners.lookup id = none → w'.listeners.lookup id = none)
    (hmade : ∀ n, w'.node = some n → n.maker = .other) :
    Agreed euid (log ++ w.withdrawals) w' where
  stages q t ht := by
    rw [hstages] at ht
    have hq := h.stages q t ht
    have hlater : Later q log (log ++ w.withdrawals) := later_append (w.notes_withdrawals q)
    have hnot (hc : Calm (log ++ w.withdrawals)) (ht' : t = .probing ∨ t = .refused) : False := by
      obtain ⟨n, hn, -⟩ := hq.probed (hlater.calm hc) ht'
      exact hc n (List.mem_append_right _ (World.mem_withdrawals hn))
    have hown (hu : Undisturbed (log ++ w.withdrawals) q) (id : FileId) (hid : t.own = some id) :
        False := by
      have hnode := hq.stands (hlater.undisturbed hu) id hid
      exact hu _ (List.mem_append_right _ (World.mem_withdrawals hnode)) rfl
    exact {
      locks := fun hl => hlock ▸ hq.locks hl
      opened := fun id hid => hlisteners q id (hq.opened id hid)
      stands := fun hu id hid => (hown hu id hid).elim
      noted := fun g hg => hlater.noted.trans (hq.noted g hg)
      guard := fun hu => hq.guard (hlater.undisturbed hu)
      probed := fun hc ht' => (hnot hc ht').elim
      unused := fun hc ht' => (hnot hc (.inr ht')).elim
      fresh := fun id ht' => hfresh q id (hq.locks (ht' ▸ rfl)) (ht' ▸ ht) (hq.fresh id ht') }
  made n hn hmaker := absurd (hmade n hn) hmaker

/-- A supervisor starts and finds the lock free. -/
theorem Agreed.take (h : Agreed euid log w) (hlock : w.lock = none) (pid : ℕ) :
    Agreed euid (log ++ []) (World.enter { w with lock := some pid } pid .locked) := by
  refine ⟨fun q t ht => ?_, h.made⟩
  rcases Table.lookup_insert_eq_some.mp ht with ⟨rfl, rfl⟩ | ⟨-, hold⟩
  · exact Stage.holds_locked (.inl rfl) rfl
  · have hq := h.stages q t hold
    refine hq.of_unlocked (Bool.eq_false_iff.mpr fun hl => ?_) fun _ hl => hl
    cases hlock.symm.trans (hq.locks hl)

/-- Another program puts a new file at the endpoint, in the place of what stood there. -/
theorem Agreed.place (h : Agreed euid log w) {node : Node} (hnode : node.maker = .other)
    (hopen : node.id ∉ w.listeners) (hbinding : ¬w.binding node.id) (listens : Bool) :
    Agreed euid (log ++ w.withdrawals) (w.place node listens) := by
  refine h.replace rfl rfl (fun q id hl => ?_) (fun q id hlock hbound hl => ?_) fun n hn => by
    rwa [← Option.some.inj hn]
  · rw [World.place]
    split_ifs
    · have hne : id ≠ node.id := fun heq => hopen (heq ▸ Table.mem_of_lookup hl)
      exact (AList.lookup_insert_ne hne).trans hl
    · exact hl
  · rw [World.place]
    split_ifs
    · have hne : id ≠ node.id := by
        rintro rfl
        exact hbinding (Option.bind_eq_some_iff.mpr ⟨q, hlock, hbound⟩)
      exact (AList.lookup_insert_ne hne).trans hl
    · exact hl

/-- Whatever happens, it stays agreed whose the endpoint is. -/
theorem Agreed.step {a : Action} (h : Agreed euid log w)
    (hstep : w.step euid a = some (w', es)) : After euid log (w', es) := by
  have hnil (w' : World) (hw' : Agreed euid (log ++ []) w') : After euid log (w', []) :=
    ⟨hw', trivial⟩
  cases a with
  | start pid =>
    rw [World.step] at hstep
    split_ifs at hstep with hmem hlock
    · obtain ⟨rfl, rfl⟩ := Prod.mk.inj (Option.some.inj hstep)
      exact hnil _ (h.take hlock pid)
    · obtain ⟨rfl, rfl⟩ := Prod.mk.inj (Option.some.inj hstep)
      refine ⟨h.frame (fun q e he => ?_) rfl rfl (fun _ _ ht => ht) (fun _ _ _ hl => hl)
        fun _ hl => hl, System.along_singleton trivial⟩
      rw [List.mem_singleton.mp he]
      rfl
  | proceed pid fails id =>
    obtain ⟨s, hs, hproceed⟩ := Option.bind_eq_some_iff.mp hstep
    exact h.after_proceed (h.stages pid s hs) hproceed
  | stop pid =>
    rw [World.step] at hstep
    split at hstep
    · next file guard hserving =>
      obtain ⟨rfl, rfl⟩ := Prod.mk.inj (Option.some.inj hstep)
      have hs : (Stage.serving file guard).Holds euid (log ++ []) w pid :=
        (h.stages pid _ hserving).append fun e he => by cases he
      have hnew : (Stage.closing file (some guard)).Holds euid (log ++ [])
          (w.enter pid (.closing file (some guard))) pid :=
        Stage.holds_of (by simp) (fun _ => hs.locks rfl) hs.opened hs.stands hs.noted hs.guard
          fun _ hi => by cases hi
      exact hnil _ (h.enter (hs.locks rfl) hnew rfl (fun _ _ _ hl => hl) h.made)
    · cases hstep
  | kill pid =>
    rw [World.step] at hstep
    split_ifs at hstep
    obtain ⟨rfl, rfl⟩ := Prod.mk.inj (Option.some.inj hstep)
    refine hnil _ (h.frame (fun _ _ he => by cases he) rfl rfl (fun q t ht => ?_)
      (fun _ _ _ hl => hl) fun _ hl => hl)
    rcases eq_or_ne q pid with rfl | hne
    · simp [World.leave] at ht
    · exact (AList.lookup_erase_ne hne).symm.trans ht
  | reapLock =>
    rw [World.step] at hstep
    split_ifs at hstep with hgone
    obtain ⟨rfl, rfl⟩ := Prod.mk.inj (Option.some.inj hstep)
    obtain ⟨pid, hlock, hpid⟩ := (Option.any_eq_true _ _).mp hgone
    refine hnil _ (h.after_unlock hlock (fun q t ht => Or.inr ⟨?_, ht⟩) rfl rfl)
    rintro rfl
    exact absurd (Table.mem_of_lookup ht) (of_decide_eq_true hpid)
  | reapListener file =>
    rw [World.step] at hstep
    split at hstep
    · next pid hfile =>
      split_ifs at hstep with hmem
      obtain ⟨rfl, rfl⟩ := Prod.mk.inj (Option.some.inj hstep)
      refine hnil _ (h.hangUp fun q hq heq => ?_)
      obtain rfl := Party.supervisor.inj (Option.some.inj (hfile.symm.trans heq))
      exact hmem hq
    · cases hstep
  | place file isSocket uid listens =>
    rw [World.step] at hstep
    split_ifs at hstep with hopen
    obtain ⟨rfl, rfl⟩ := Prod.mk.inj (Option.some.inj hstep)
    obtain ⟨hfile, hbinding⟩ := not_or.mp hopen
    exact ⟨h.place rfl hfile hbinding listens, w.along_withdrawals⟩
  | withdraw =>
    obtain ⟨rfl, rfl⟩ := Prod.mk.inj (Option.some.inj hstep)
    exact ⟨h.replace rfl rfl (fun _ _ hl => hl) (fun _ _ _ _ hl => hl) (fun n hn => by cases hn),
      w.along_withdrawals⟩
  | close file =>
    rw [World.step] at hstep
    split_ifs at hstep with hfile
    obtain ⟨rfl, rfl⟩ := Prod.mk.inj (Option.some.inj hstep)
    refine hnil _ (h.hangUp fun q _ heq => ?_)
    cases hfile.symm.trans heq

section Runs

theorem agreed_of_run (h : (endpointSystem euid).Run log w) : Agreed euid log w := by
  refine h.invariant (I := fun log w => Agreed euid log w) ?_ ?_
  · rintro _ rfl
    exact ⟨fun _ _ h => by simp [World.init] at h, fun _ h => by cases h⟩
  · intro log w a w' es _ ih hstep
    exact (ih.step hstep).1

/-- **No supervisor leaves an endpoint unusable.** When the lock is free and nothing stands at the
endpoint, or a socket of a supervisor that is gone, a supervisor that starts and whose calls succeed
comes to serve. -/
theorem endpoint_recovers (hrun : (endpointSystem euid).Run log w) (hlock : w.lock = none)
    (hnode : ∀ node, w.node = some node →
      node.maker ≠ .other ∧ w.listeners.lookup node.id = none)
    {id : FileId} (hpid : pid ∉ w.stages) (hid : id ∉ w.listeners) :
    ∃ n w' es, (endpointSystem euid).exec w
        (.start pid :: List.replicate n (.proceed pid false id)) = some (w', es) ∧
      w'.stages.lookup pid = some (.serving id id) ∧
      w'.connect = .accepted (.supervisor pid) := by
  have hserved : (w.served euid pid id).stages.lookup pid = some (.serving id id) ∧
      (w.served euid pid id).connect = .accepted (.supervisor pid) := by
    simp [World.served, World.connect, World.socket]
  cases hfound : w.node with
  | none =>
    refine ⟨5, w.served euid pid id, [.noted pid id, .serving pid], ?_, hserved⟩
    simp [endpointSystem, System.exec, World.step, hpid, hlock, hfound, List.replicate,
      World.enter, World.proceed, hid, World.socket, World.served]
  | some node =>
    obtain ⟨hmaker, hrefuses⟩ := hnode node hfound
    obtain ⟨hsocket, huid⟩ := (agreed_of_run hrun).made node hfound hmaker
    refine ⟨7, w.served euid pid id, [.cleared pid node none, .noted pid id, .serving pid], ?_,
      hserved⟩
    simp [endpointSystem, System.exec, World.step, hpid, hlock, hfound, List.replicate,
      World.enter, World.proceed, hid, World.socket, hsocket, huid, World.connect, hrefuses,
      World.served]

end Runs

/-- A supervisor whose socket was replaced leaves alone what took its place. -/
example : ((endpointSystem 7).exec .init (.start 1 :: List.replicate 5 (.proceed 1 false ⟨0, 3⟩) ++
    [.place ⟨0, 4⟩ false 0 false, .stop 1] ++ List.replicate 3 (.proceed 1 false ⟨0, 3⟩))).map
      (fun r => r.1.node) = some (some ⟨⟨0, 4⟩, false, 0, .other⟩) := rfl

/-- A supervisor that starts after another one was killed comes to serve. -/
theorem endpoint_recovers_killed :
    ∃ (w : World) (n : ℕ) (w' : World) (es : List Event),
      w.node = some (World.socket 7 1 ⟨0, 3⟩) ∧
      (endpointSystem 7).exec w (.start 2 :: List.replicate n (.proceed 2 false ⟨0, 4⟩)) =
        some (w', es) ∧ w'.connect = .accepted (.supervisor 2) := by
  have hexec : ∃ w log, (endpointSystem 7).exec .init
      (.start 1 :: List.replicate 5 (.proceed 1 false ⟨0, 3⟩) ++ [.kill 1, .reapLock,
        .reapListener ⟨0, 3⟩]) = some (w, log) ∧ w.lock = none ∧
      w.node = some (World.socket 7 1 ⟨0, 3⟩) ∧ w.listeners = ∅ ∧ w.stages = ∅ :=
    ⟨_, _, rfl, rfl, rfl, rfl, rfl⟩
  obtain ⟨w, log, hexec, hlock, hnode, hlisteners, hstages⟩ := hexec
  obtain ⟨n, w', es, hn, -, hconnect⟩ := endpoint_recovers ⟨_, rfl, .of_exec hexec⟩ hlock
    (fun node h => by
      rw [hnode] at h
      obtain rfl := Option.some.inj h
      exact ⟨by simp [World.socket], by rw [hlisteners]; rfl⟩)
    (by rw [hstages]; exact AList.notMem_empty 2)
    (by rw [hlisteners]; exact AList.notMem_empty (⟨0, 4⟩ : FileId))
  exact ⟨w, n, w', es, hnode, hn, hconnect⟩

end ExecutionProvider.Transport
