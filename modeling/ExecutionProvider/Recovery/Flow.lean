import ExecutionProvider.Recovery.World

/-!
# A job is started at most once

The request of a job is sent at most once. On its connection it is read at most once, and when a
host reads it, it either starts the job or rejects it.

## Main definitions

* `requestsSent`, `starts`, `rejections`, `completions`: how often this happens to a job in a run.
* `World.inFlight`: the requests of a job on all connections.
* `World.running`: the tasks of a job at all hosts that are not done.

## Main results

* `flow_of_run`: what is on its way and what was read was sent, and what runs and what is done was
  started.
* `dispatched_once`: the request of a job is sent at most once, the job is started at most once,
  and not at all when it fails with an error.
-/

namespace ExecutionProvider.Recovery

open Protocol

variable {π φ : Type}

/-! ### Counting -/

/-- Whether a frame is the request of a job. -/
def isRequestFrame (id : Uuid) : GatewayMessage π → Bool
  | .request r => r.requestId = id.text
  | _ => false

/-- The requests of a job on all connections. -/
def World.inFlight (W : World π φ) (id : Uuid) : ℕ :=
  Table.weight (fun _ w => w.down.countP (isRequestFrame id)) W.wires

/-- Whether a task is of a job, and not done. -/
def isRunning (id : Uuid) (t : Daemon.Task π) : Bool :=
  !t.finished && t.request.requestId = id.text

/-- The tasks of a job at all hosts that are not done. -/
def World.running (W : World π φ) (id : Uuid) : ℕ :=
  Table.weight (fun _ h => h.elim 0 fun h => h.requests.countP (isRunning id)) W.hosts

/-- Whether a host starts a job. -/
def startsJob (id : Uuid) : Daemon.Event → Bool
  | .started _ text => text = id.text
  | _ => false

/-- Whether a host rejects a job. -/
def rejectsJob (id : Uuid) : Daemon.Event → Bool
  | .rejected _ text _ => text = id.text
  | _ => false

/-- Whether a host is done with a job. -/
def completesJob (id : Uuid) : Daemon.Event → Bool
  | .finished _ text _ => text = id.text
  | _ => false

/-- What happens at a host. -/
def Event.atHost : Event π → Option Daemon.Event
  | .gateway _ => none
  | .host e => some e

/-- What happens at the hosts in a run. -/
def hostLog (log : List (Event π)) : List Daemon.Event := log.filterMap Event.atHost

/-- How often something has happened at the hosts in a run. -/
def occurrences (q : Daemon.Event → Bool) (log : List (Event π)) : ℕ := (hostLog log).countP q

variable (id : Uuid) (log : List (Event π))

/-- How often the request of a job was sent in a run. -/
def requestsSent : ℕ := Gateway.requestsSent id (gatewayLog log)

/-- How often a host has started a job in a run. -/
abbrev starts : ℕ := occurrences (startsJob id) log

/-- How often a host has rejected a job in a run. -/
abbrev rejections : ℕ := occurrences (rejectsJob id) log

/-- How often a host was done with a job in a run. -/
abbrev completions : ℕ := occurrences (completesJob id) log

section

variable {id log} {es : List (Event π)}

theorem hostLog_append (log es : List (Event π)) :
    hostLog (log ++ es) = hostLog log ++ hostLog es :=
  List.filterMap_append

@[simp] theorem hostLog_map_host (es : List Daemon.Event) :
    hostLog (es.map Event.host : List (Event π)) = es := by
  rw [hostLog, List.filterMap_map]
  exact List.filterMap_some

@[simp] theorem hostLog_map_gateway (es : List (Gateway.Event π)) :
    hostLog (es.map Event.gateway) = [] := by
  rw [hostLog, List.filterMap_map]
  exact List.filterMap_none es

theorem mem_hostLog {e : Daemon.Event} : e ∈ hostLog log ↔ .host e ∈ log := by
  rw [hostLog, List.mem_filterMap]
  constructor
  · rintro ⟨e', hmem, he⟩
    cases e' with
    | gateway e' => cases he
    | host e' => exact Option.some.inj he ▸ hmem
  · exact fun hmem => ⟨_, hmem, rfl⟩

theorem requestsSent_append :
    requestsSent id (log ++ es) = requestsSent id log + requestsSent id es := by
  rw [requestsSent, gatewayLog_append, Gateway.requestsSent_append, requestsSent, requestsSent]

@[simp] theorem requestsSent_map_gateway (es : List (Gateway.Event π)) :
    requestsSent id (es.map Event.gateway) = Gateway.requestsSent id es := by
  rw [requestsSent, gatewayLog_map_gateway]

@[simp] theorem requestsSent_map_host (es : List Daemon.Event) :
    requestsSent id (es.map Event.host : List (Event π)) = 0 := by
  rw [requestsSent, gatewayLog_map_host]
  rfl

theorem occurrences_append (q : Daemon.Event → Bool) :
    occurrences q (log ++ es) = occurrences q log + occurrences q es := by
  rw [occurrences, hostLog_append, List.countP_append, occurrences, occurrences]

@[simp] theorem occurrences_map_gateway (q : Daemon.Event → Bool) (es : List (Gateway.Event π)) :
    occurrences q (es.map Event.gateway) = 0 := by
  rw [occurrences, hostLog_map_gateway]
  rfl

@[simp] theorem occurrences_map_host (q : Daemon.Event → Bool) (es : List Daemon.Event) :
    occurrences q (es.map Event.host : List (Event π)) = es.countP q := by
  rw [occurrences, hostLog_map_host]

end

/-! ### Frames -/

section

variable {id} {W : World π φ} {wires wires' : Table Uuid (Wire π)}

/-- The requests of a job on the given connections. -/
def carried (id : Uuid) (wires : Table Uuid (Wire π)) : ℕ :=
  Table.weight (fun _ w => w.down.countP (isRequestFrame id)) wires

variable (id wires) in
/-- The frames that a gateway sends add as many requests as it sends. -/
theorem carried_deliver (es : List (Gateway.Event π)) :
    carried id (deliver wires es) ≤ carried id wires + Gateway.requestsSent id es := by
  induction es generalizing wires with
  | nil => exact Nat.le_add_right _ _
  | cons e es ih =>
    cases e with
    | settled σ =>
      rw [deliver, Gateway.requestsSent,
        List.countP_cons_of_neg (by simp [Gateway.Event.isRequest])]
      exact ih _
    | sent connection frame =>
      rw [deliver]
      refine (ih _).trans ?_
      have hone : (if isRequestFrame id frame then 1 else 0) + Gateway.requestsSent id es =
          Gateway.requestsSent id (.sent connection frame :: es) := by
        rw [Gateway.requestsSent, Gateway.requestsSent, List.countP_cons, Nat.add_comm]
        cases frame <;> rfl
      have hle : carried id (wires.modify connection fun w =>
          { w with down := w.down ++ [frame] }) ≤
          carried id wires + if isRequestFrame id frame then 1 else 0 := by
        refine Table.weight_modify_le fun w _ => ?_
        rw [List.countP_append, List.countP_singleton]
      omega

variable (id wires) in
/-- The frames that a host sends are no requests. -/
theorem carried_emit (connection : Option Daemon.Connection) (frames : List HostMessage) :
    carried id (emit wires connection frames) ≤ carried id wires := by
  cases connection with
  | none => exact le_rfl
  | some c => exact Table.weight_modify_le (d := 0) fun w _ => le_rfl

variable (id) in
theorem GatewayReads.carried_le {a : Gateway.Action} (h : GatewayReads W a wires) :
    carried id wires ≤ W.inFlight id := by
  cases h with
  | alone => exact le_rfl
  | upgrade => exact Table.weight_modify_le (d := 0) fun w _ => le_rfl
  | hello => exact le_rfl
  | read => exact Table.weight_modify_le (d := 0) fun w _ => le_rfl

/-- The requests of a job that a host reads for an action. -/
def requestsRead (id : Uuid) : Daemon.Action π → ℕ
  | .receive frame _ => if isRequestFrame id frame then 1 else 0
  | _ => 0

variable (id) in
/-- A request that is read is no longer on its connection. -/
theorem HostReads.carried_le {generation : Uuid} {h : Daemon.Host π φ} {a : Daemon.Action π}
    (hr : HostReads W generation h a wires) :
    carried id wires + requestsRead id a ≤ W.inFlight id := by
  cases hr with
  | alone ha =>
    cases a with
    | receive => cases ha
    | connect | finish | join | respond | disconnect => exact le_rfl
  | dial hnew =>
    rw [carried, Table.weight_insert hnew]
    exact (Nat.zero_add _).le
  | @receive connection w frame full down hconnection hw hdown =>
    have hw := Table.weight_modify (w := fun _ (w : Wire π) => w.down.countP (isRequestFrame id))
      (f := fun w => { w with down := down }) hw
    simp only [hdown, List.countP_cons] at hw
    rw [carried, World.inFlight, requestsRead]
    omega

end

/-! ### Hosts -/

section

variable {id} {c : Daemon.Codec π φ} {h h' : Daemon.Host π φ} {a : Daemon.Action π}
  {frames : List HostMessage} {es : List Daemon.Event}

variable (id) in
/-- A host starts or rejects a job once for a request that it reads. -/
theorem starts_le_requestsRead (he : Daemon.Effect c h h' a frames es) :
    es.countP (startsJob id) + es.countP (rejectsJob id) ≤ requestsRead id a := by
  cases he with
  | idle => exact Nat.zero_le _
  | accept =>
    simp only [requestsRead, isRequestFrame, List.countP_cons, List.countP_nil, startsJob,
      rejectsJob]
    split_ifs <;> simp_all
  | start =>
    simp only [requestsRead, isRequestFrame, List.countP_cons, List.countP_nil, startsJob,
      rejectsJob]
    split_ifs <;> simp_all
  | reject =>
    simp only [requestsRead, isRequestFrame, List.countP_cons, List.countP_nil, startsJob,
      rejectsJob]
    split_ifs <;> simp_all
  | remove => exact Nat.zero_le _
  | complete => exact Nat.zero_le _
  | reply => exact Nat.zero_le _
  | join => exact Nat.zero_le _

variable (id) in
/-- A task that is done no longer runs. -/
theorem countP_isRunning_set {l : List (Daemon.Task π)} {i : ℕ} {t : Daemon.Task π}
    (hi : l[i]? = some t) (hfin : t.finished = false) :
    (l.set i { t with finished := true }).countP (isRunning id) +
      (if t.request.requestId = id.text then 1 else 0) = l.countP (isRunning id) := by
  obtain ⟨hlt, rfl⟩ := List.getElem?_eq_some_iff.mp hi
  have hpos : isRunning id l[i] = true → 0 < l.countP (isRunning id) := fun hrun =>
    List.countP_pos_iff.mpr ⟨_, List.getElem_mem hlt, hrun⟩
  rw [List.countP_set hlt]
  by_cases hid : l[i].request.requestId = id.text
  · have hrun : isRunning id l[i] = true := by simp [isRunning, hfin, hid]
    have hle := hpos hrun
    have hdone : isRunning id { l[i] with finished := true } = false := rfl
    rw [if_pos hrun, if_pos hid, hdone]
    simp only [Bool.false_eq_true, if_false]
    omega
  · have hrun : isRunning id l[i] = false := by simp [isRunning, hid]
    have hdone : isRunning id { l[i] with finished := true } = false := rfl
    rw [hrun, hdone, if_neg hid]
    simp

variable (id) in
/-- The tasks of a host that run, and those that get done, were started. -/
theorem running_le_starts (he : Daemon.Effect c h h' a frames es) :
    h'.requests.countP (isRunning id) + es.countP (completesJob id) ≤
      h.requests.countP (isRunning id) + es.countP (startsJob id) := by
  cases he with
  | idle hs =>
    rw [hs.requests]
    exact le_rfl
  | accept _ _ _ hq =>
    rw [hq, List.countP_append]
    simp only [List.countP_cons, List.countP_nil, startsJob, completesJob, isRunning]
    simp
  | start _ _ hq =>
    rw [hq, List.countP_append]
    simp only [List.countP_cons, List.countP_nil, startsJob, completesJob, isRunning]
    simp
  | reject hs =>
    rw [hs.requests]
    exact le_rfl
  | remove _ _ _ hq =>
    rw [hq]
    exact le_rfl
  | complete hi hfin _ _ _ _ hq =>
    have hset := countP_isRunning_set id hi hfin
    rw [hq]
    simp only [List.countP_cons, List.countP_nil, startsJob, completesJob, decide_eq_true_eq]
    omega
  | reply hi hfin _ _ _ _ hq =>
    have hset := countP_isRunning_set id hi hfin
    rw [hq]
    simp only [List.countP_cons, List.countP_nil, startsJob, completesJob, decide_eq_true_eq]
    omega
  | join _ _ _ _ hq =>
    rw [hq]
    exact Nat.add_le_add_right (List.eraseIdx_sublist _ _).countP_le _

end

/-! ### Runs -/

/-- What is on its way and what hosts have started or rejected was sent, and what runs and what is
done was started. -/
structure Flow (log : List (Event π)) (W : World π φ) (id : Uuid) : Prop where
  sent : W.inFlight id + starts id log + rejections id log ≤ requestsSent id log
  started : W.running id + completions id log ≤ starts id log

section

variable {id log} [DecidableEq φ] {p : Gateway.Platform π} {c : Daemon.Codec π φ}
  {W W' : World π φ} {es : List (Event π)}

theorem Flow.step (hf : Flow log W id) (he : Effect p c W W' es) : Flow (log ++ es) W' id := by
  have hsent := hf.sent
  have hstarted := hf.started
  rw [World.inFlight, ← carried, starts, rejections] at hsent
  rw [starts, completions] at hstarted
  constructor
  · rw [starts, rejections, occurrences_append, occurrences_append, requestsSent_append,
      World.inFlight, ← carried]
    cases he with
    | @gateway a wires es hr _ _ hw =>
      have hread := hr.carried_le id
      have hdeliver := carried_deliver id wires es
      rw [World.inFlight, ← carried] at hread
      rw [hw, requestsSent_map_gateway, occurrences_map_gateway, occurrences_map_gateway]
      omega
    | @host generation h h' a wires frames es _ hr hstep _ _ hw =>
      have hread := hr.carried_le id
      have hemit := carried_emit id wires h.connection frames
      have hone := starts_le_requestsRead id (Daemon.effect_of_step hstep)
      rw [World.inFlight, ← carried] at hread
      rw [hw, requestsSent_map_host, occurrences_map_host, occurrences_map_host]
      omega
    | start _ _ _ hw =>
      rw [hw]
      exact hsent
    | stop _ _ hw =>
      rw [hw]
      exact hsent
    | @lose connection down up _ _ hw =>
      have hle : carried id (W.wires.modify connection fun w =>
          { w with down := w.down.take down, up := w.up.take up }) ≤ carried id W.wires + 0 :=
        Table.weight_modify_le fun w _ => (List.take_sublist _ _).countP_le
      rw [hw]
      exact (Nat.add_le_add_right (Nat.add_le_add_right hle _) _).trans hsent
  · rw [starts, completions, occurrences_append, occurrences_append, World.running]
    rw [World.running] at hstarted
    cases he with
    | gateway _ _ hh =>
      rw [hh, occurrences_map_gateway, occurrences_map_gateway]
      exact hstarted
    | @host generation h h' a wires frames es hhost _ hstep _ hh =>
      have hrun := running_le_starts id (Daemon.effect_of_step hstep)
      have hw := Table.weight_modify (w := fun _ (h : Option (Daemon.Host π φ)) =>
        h.elim 0 fun h => h.requests.countP (isRunning id)) (f := fun _ => some h') hhost
      simp only [Option.elim_some] at hw
      rw [hh, occurrences_map_host, occurrences_map_host]
      omega
    | start hnew _ hh =>
      rw [hh, Table.weight_insert hnew]
      exact (Nat.zero_add _).symm ▸ hstarted
    | @stop generation _ hh =>
      have hle : Table.weight (fun _ (h : Option (Daemon.Host π φ)) =>
          h.elim 0 fun h => h.requests.countP (isRunning id))
          (W.hosts.modify generation fun _ => none) ≤ _ + 0 :=
        Table.weight_modify_le fun _ _ => Nat.zero_le _
      rw [hh]
      exact (Nat.add_le_add_right hle _).trans hstarted
    | lose _ hh =>
      rw [hh]
      exact hstarted

variable (id) in
/-- What is on its way and what was read was sent, and what runs and what is done was started. -/
theorem flow_of_run (h : (worldSystem p c).Run log W) : Flow log W id := by
  refine h.invariant (I := fun log W => Flow log W id) ?_ ?_
  · rintro _ rfl
    exact ⟨le_rfl, le_rfl⟩
  · intro log W a W' es _ ih hstep
    exact ih.step (effect_of_step hstep)

/-- **At-most-once dispatch.** In a run of a gateway with its hosts, the request of a job is put on
a socket at most once, and a host starts the job at most once. A job that is settled as failed
with an error is never put on a socket, neither before nor after that. -/
theorem dispatched_once (h : (worldSystem p c).Run log W) :
    requestsSent id log ≤ 1 ∧ starts id log ≤ 1 ∧
      ((∃ σ, .gateway (.settled σ) ∈ log ∧ σ.job = id ∧ σ.status = .failed ∧ σ.error ≠ none) →
        requestsSent id log = 0) := by
  obtain ⟨-, hcredit⟩ := Gateway.credit_of_run id (gateway_run h)
  have hflow := (flow_of_run id h).sent
  have hsent : requestsSent id log ≤ 1 := hcredit.once
  refine ⟨hsent, by omega, ?_⟩
  rintro ⟨σ, hmem, hσ⟩
  exact (hcredit.failed ⟨σ, mem_gatewayLog.mpr hmem, hσ⟩).1

/-- A job that is sent and started. -/
theorem dispatched_once_started :
    ∃ (log : List (Event Unit)) (W : World Unit Unit),
      (worldSystem Gateway.plainPlatform plainCodec).Run log W ∧
        requestsSent (.numbered 5) log = 1 ∧ starts (.numbered 5) log = 1 := by
  obtain ⟨r, hr⟩ : ∃ r, (worldSystem Gateway.plainPlatform plainCodec).exec .init
      (connectActions ++ startActions) = some r := ⟨_, rfl⟩
  have hdone : ((worldSystem Gateway.plainPlatform plainCodec).exec .init
      (connectActions ++ startActions)).any (fun r => 1 ≤ requestsSent (.numbered 5) r.2 ∧
        1 ≤ starts (.numbered 5) r.2) = true := by
    decide
  rw [hr, Option.any_some, decide_eq_true_eq] at hdone
  have hrun : (worldSystem Gateway.plainPlatform plainCodec).Run r.2 r.1 := ⟨_, rfl, .of_exec hr⟩
  obtain ⟨hsent, hstarts, -⟩ : requestsSent (.numbered 5) r.2 ≤ 1 ∧
      starts (.numbered 5) r.2 ≤ 1 ∧ _ := dispatched_once hrun
  exact ⟨r.2, r.1, hrun, by omega, by omega⟩

end

end ExecutionProvider.Recovery
