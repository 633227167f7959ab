import ExecutionProvider.Daemon.Host
import ExecutionProvider.Foundation.Runs

/-!
# Room for requests that terminate a run

A host admits 32 requests, and 4 more when they terminate a run. Its receipt store admits at most
128 receipts and at most 256 MiB of reserved or occupied bytes. The two limits do not fit
together: 32 receipts without a response reserve all bytes there are.

## Main definitions

* `hostSystem`: the runs of one host process.
* `outstanding`: the requests that were admitted and not yet acknowledged.
* `Host.Valid`: the bytes are counted right, and a running task has a receipt without response.

## Main results

* `Host.Valid.effect`: every step of a host keeps it valid.
* `control_admitted_iff`: when a request that terminates a run is admitted.
-/

namespace ExecutionProvider.Daemon

open Protocol

/-! ### Replacing one element of a list -/

section FilterMap

variable {α β : Type*} {f : α → Option β} {l : List α} {a a' : α} {b : β} {i : ℕ}

/-- Replacing an element takes the value it stood for away. -/
theorem perm_filterMap_set (hi : l[i]? = some a) (ha : f a = some b) (ha' : f a' = none) :
    (l.filterMap f).Perm (b :: (l.set i a').filterMap f) := by
  induction l generalizing i with
  | nil => simp at hi
  | cons x l ih =>
    cases i with
    | zero =>
      obtain rfl : x = a := by simpa using hi
      rw [List.filterMap_cons_some ha, List.set_cons_zero, List.filterMap_cons_none ha']
    | succ i =>
      have hperm := ih (by simpa using hi)
      rw [List.set_cons_succ]
      cases hx : f x with
      | none => rwa [List.filterMap_cons_none hx, List.filterMap_cons_none hx]
      | some y =>
        rw [List.filterMap_cons_some hx, List.filterMap_cons_some hx]
        exact (hperm.cons y).trans (List.Perm.swap b y _)

/-- Replacing an element that stands for nothing by another such element changes nothing. -/
theorem filterMap_set_of_none (hi : l[i]? = some a) (ha : f a = none) (ha' : f a' = none) :
    (l.set i a').filterMap f = l.filterMap f := by
  induction l generalizing i with
  | nil => rfl
  | cons x l ih =>
    cases i with
    | zero =>
      obtain rfl : x = a := by simpa using hi
      rw [List.set_cons_zero, List.filterMap_cons_none ha, List.filterMap_cons_none ha']
    | succ i => rw [List.set_cons_succ, List.filterMap_cons, ih (by simpa using hi),
        List.filterMap_cons]

/-- Erasing an element that stands for nothing changes nothing. -/
theorem filterMap_eraseIdx_of_none (hi : l[i]? = some a) (ha : f a = none) :
    (l.eraseIdx i).filterMap f = l.filterMap f := by
  induction l generalizing i with
  | nil => rfl
  | cons x l ih =>
    cases i with
    | zero =>
      obtain rfl : x = a := by simpa using hi
      rw [List.eraseIdx_cons_zero, List.filterMap_cons_none ha]
    | succ i => rw [List.eraseIdx_cons_succ, List.filterMap_cons, ih (by simpa using hi),
        List.filterMap_cons]

end FilterMap

variable {π φ : Type} {c : Codec π φ} {h h' : Host π φ}

/-! ### Valid hosts -/

/-- The request of a task that still runs and will leave its response in a receipt. -/
def Task.pending (t : Task π) : Option String :=
  if t.finished = false ∧ t.reply = .receipt then some t.request.requestId else none

/-- The requests that run and will leave their response in a receipt. -/
def Host.pending (h : Host π φ) : List String := h.requests.filterMap Task.pending

/-- The bytes are counted right, no request runs twice, and the receipt of a running request
holds no response. -/
structure Host.Valid (c : Codec π φ) (h : Host π φ) : Prop where
  accounted : h.receipts.Accounted c.textBytes
  nodup : h.pending.Nodup
  noResponse : ∀ id ∈ h.pending, id ∈ h.receipts.entries ∧ h.receipts.response id = none

theorem Host.valid_init (g : Uuid) : (Host.init g : Host π φ).Valid c :=
  ⟨Receipts.accounted_empty, List.nodup_nil, by simp [Host.pending, Host.init]⟩

/-- Validity depends on the receipts and the running tasks only. -/
theorem Host.Valid.congr (hv : h.Valid c) (hr : h'.receipts = h.receipts)
    (hp : h'.pending = h.pending) : h'.Valid c :=
  ⟨hr ▸ hv.accounted, hp ▸ hv.nodup, hr ▸ hp ▸ hv.noResponse⟩

/-- Every step of a host keeps it valid. -/
theorem Host.Valid.effect {a : Action π} {frames : List HostMessage} {es : List Event}
    (hv : h.Valid c) (he : Effect c h h' a frames es) : h'.Valid c := by
  cases he with
  | idle hs => exact hv.congr hs.receipts (by rw [Host.pending, hs.requests, Host.pending])
  | @accept request full frames hid hg hr hq hf =>
    have hpend : h'.pending = h.pending ++ [request.requestId] := by
      rw [Host.pending, hq, List.filterMap_append, Host.pending]
      rfl
    have hnot : request.requestId ∉ h.pending := fun hmem => hid (hv.noResponse _ hmem).1
    refine ⟨hr ▸ hv.accounted.insert hid, ?_, fun id hmem => ?_⟩
    · rw [hpend]
      exact hv.nodup.append (List.nodup_singleton _) (by simpa using hnot)
    · rw [hpend, List.mem_append, List.mem_singleton] at hmem
      rw [hr, Receipts.response]
      rcases eq_or_ne id request.requestId with rfl | hne
      · exact ⟨(AList.mem_insert _).mpr (Or.inl rfl), by simp⟩
      · obtain ⟨hin, hnone⟩ := hv.noResponse id (hmem.resolve_right hne)
        refine ⟨(AList.mem_insert _).mpr (Or.inr hin), ?_⟩
        rwa [AList.lookup_insert_ne hne]
  | start hg hr hq =>
    refine hv.congr hr ?_
    rw [Host.pending, hq, List.filterMap_append, Host.pending]
    exact List.append_nil _
  | reject hs => exact hv.congr hs.receipts (by rw [Host.pending, hs.requests, Host.pending])
  | @remove id full response hresp hg hr hq =>
    have hpend : h'.pending = h.pending := by rw [Host.pending, hq, Host.pending]
    refine ⟨hr ▸ hv.accounted.acknowledge, hpend ▸ hv.nodup, fun id' hmem => ?_⟩
    obtain ⟨hin, hnone⟩ := hv.noResponse id' (hpend ▸ hmem)
    have hne : id' ≠ id := by
      rintro rfl
      rw [hresp] at hnone
      cases hnone
    rw [hr, Receipts.acknowledge, hresp]
    refine ⟨AList.mem_erase.mpr ⟨hne, hin⟩, ?_⟩
    rwa [Receipts.response, AList.lookup_erase_ne hne]
  | @complete i result lost task response hi hfin hreply hresp hg hr hq =>
    have hperm : h.pending.Perm (task.request.requestId :: h'.pending) := by
      rw [Host.pending, Host.pending, hq]
      exact perm_filterMap_set hi (by simp [Task.pending, hfin, hreply]) (by simp [Task.pending])
    have hmem : task.request.requestId ∈ h.pending := hperm.mem_iff.mpr List.mem_cons_self
    obtain ⟨hnot, hnodup⟩ := List.nodup_cons.mp (hperm.nodup_iff.mp hv.nodup)
    refine ⟨hv.accounted.complete (hv.noResponse _ hmem).2 hr, hnodup, fun id hid => ?_⟩
    obtain ⟨hin, hnone⟩ := hv.noResponse id (hperm.mem_iff.mpr (List.mem_cons_of_mem _ hid))
    have hne : id ≠ task.request.requestId := by
      rintro rfl
      exact hnot hid
    rw [Receipts.complete] at hr
    split at hr
    · cases hr
    · rw [← Option.some.inj hr]
      refine ⟨Table.mem_modify.mpr hin, ?_⟩
      rwa [Receipts.response, Table.lookup_modify_of_ne hne]
  | reply hi hfin hreply hresp hg hr hq hf =>
    refine hv.congr hr ?_
    rw [Host.pending, Host.pending, hq]
    exact filterMap_set_of_none hi (by simp [Task.pending, hreply]) (by simp [Task.pending])
  | join hi hfin hg hr hq =>
    refine hv.congr hr ?_
    rw [Host.pending, Host.pending, hq]
    exact filterMap_eraseIdx_of_none hi (by simp [Task.pending, hfin])

/-! ### Runs of a host process -/

variable [DecidableEq φ]

variable (c) in
/-- The runs of one host process, with what happens to requests. -/
def hostSystem : System (Host π φ) (Action π) Event where
  start h := ∃ g, h = Host.init g
  step h a := (h.step c a).map fun r => (r.1, r.2.2)

theorem effect_of_hostSystem_step {a : Action π} {es : List Event}
    (hs : (hostSystem c).step h a = some (h', es)) : ∃ frames, Effect c h h' a frames es := by
  obtain ⟨⟨h₁, frames, es₁⟩, hstep, heq⟩ := Option.map_eq_some_iff.mp hs
  obtain ⟨rfl, rfl⟩ : h₁ = h' ∧ es₁ = es := by simpa using heq
  exact ⟨frames, effect_of_step hstep⟩

theorem Host.Valid.of_reachable (hr : (hostSystem c).Reachable h) : h.Valid c := by
  refine hr.invariant (I := fun h => h.Valid c) ?_ fun _ hv hs => ?_
  · rintro _ ⟨g, rfl⟩
    exact Host.valid_init g
  · obtain ⟨frames, he⟩ := effect_of_hostSystem_step hs
    exact hv.effect he

/-- What an event does to the outstanding requests. -/
def outstandingStep (requests : List (String × Bool)) : Event → List (String × Bool)
  | .admitted _ id terminatesRun => (id, terminatesRun) :: requests
  | .removed _ id => requests.filter fun r => r.1 ≠ id
  | .started .. | .finished .. | .rejected .. => requests

/-- The requests that were admitted and not yet acknowledged, and whether they terminate a run. -/
def outstanding (log : List Event) : List (String × Bool) := log.foldl outstandingStep []

omit [DecidableEq φ] in
private theorem keys_acknowledge {size : Response → ℕ} {r : Receipts φ Response} {id : String}
    {response : Response} (hr : r.response id = some response) :
    (r.acknowledge size id).entries.keys = r.entries.keys.erase id := by
  rw [Receipts.acknowledge, hr]
  exact AList.keys_erase id r.entries

/-- There is a receipt for every outstanding request and for no other. -/
theorem outstanding_perm_keys {log : List Event} (hr : (hostSystem c).Run log h) :
    ((outstanding log).map Prod.fst).Perm h.receipts.entries.keys := by
  refine hr.invariant (I := fun log h => ((outstanding log).map Prod.fst).Perm
    h.receipts.entries.keys) ?_ fun {log t a u es} _ hp hs => ?_
  · rintro _ ⟨g, rfl⟩
    exact .refl _
  obtain ⟨frames, he⟩ := effect_of_hostSystem_step hs
  rw [outstanding, List.foldl_append, ← outstanding]
  cases he with
  | idle hsame => rwa [hsame.receipts]
  | @accept request full frames hid hg hr hq hf =>
    have hkeys : u.receipts.entries.keys = request.requestId :: t.receipts.entries.keys := by
      rw [hr, AList.keys_insert, List.erase_of_not_mem (AList.mem_keys.not.mp hid)]
    rw [hkeys]
    exact hp.cons _
  | start hg hr hq => rwa [hr]
  | reject hsame => rwa [hsame.receipts]
  | @remove id full response hresp hg hr hq =>
    rw [hr, keys_acknowledge hresp, t.receipts.entries.keys_nodup.erase_eq_filter]
    have hfilter := hp.filter fun k => k != id
    rw [List.filter_map] at hfilter
    refine Eq.mp (congrArg (fun l => List.Perm (List.map Prod.fst l) _) ?_) hfilter
    refine List.filter_congr fun r _ => ?_
    by_cases hr : r.1 = id <;> simp [hr]
  | complete hi hfin hreply hresp hg hr hq =>
    rw [Receipts.complete] at hr
    split at hr
    · cases hr
    · rwa [← Option.some.inj hr, Table.modify, Table.keys_mapRows]
  | reply hi hfin hreply hresp hg hr => rwa [hr]
  | join hi hfin hg hr => rwa [hr]

/-- **Room for a request that terminates a run.** While at most 32 ordinary requests and fewer
than 4 that terminate a run are outstanding, a new request that terminates a run is admitted and
started exactly when fewer than 36 tasks are there and the receipts leave room for another
response of the largest size. -/
theorem control_admitted_iff {log : List Event} (hrun : (hostSystem c).Run log h)
    {request : Request π} (hcontrol : c.terminatesRun request.payload = true)
    (hid : request.requestId ≠ "" ∧ request.requestId.utf8ByteSize ≤ 256)
    (hnew : request.requestId ∉ h.receipts.entries)
    (hordinary : (outstanding log).countP (fun r => !r.2) ≤ maxRequests)
    (hreserved : (outstanding log).countP (fun r => r.2) < maxControlRequests) :
    ((h.receipts.accept request.requestId (c.fingerprint request) (h.busy c request)).1 = .new ∧
      .started h.generation request.requestId ∈ (h.accept c request).events) ↔
      h.requests.length < maxRequests + maxControlRequests ∧
        h.receipts.reserved c.textBytes + maxFrameBytes ≤ maxBytes := by
  have hvalid := Host.Valid.of_reachable ⟨log, hrun⟩
  have hlength : h.receipts.entries.entries.length < maxReceipts := by
    have hperm := (outstanding_perm_keys hrun).length_eq
    have hsplit := List.length_eq_countP_add_countP (fun r : String × Bool => r.2)
      (l := outstanding log)
    have hneg : (outstanding log).countP (fun r => decide ¬r.2 = true) =
        (outstanding log).countP fun r => !r.2 := by
      refine List.countP_congr fun r _ => ?_
      simp
    rw [hneg] at hsplit
    rw [List.length_map, AList.keys, List.keys, List.length_map] at hperm
    simp only [maxRequests, maxControlRequests, maxReceipts] at *
    omega
  have hbytes : h.receipts.bytes = h.receipts.reserved c.textBytes := hvalid.accounted
  have hbusy : h.busy c request = false ↔ h.requests.length < maxRequests + maxControlRequests := by
    rw [Host.busy, if_pos hcontrol, decide_eq_false_iff_not, not_le]
  have hadmitted := Receipts.accept_eq_new_iff (c.fingerprint request) (h.busy c request) hnew
  rw [hbusy, hbytes] at hadmitted
  constructor
  · rintro ⟨hacc, -⟩
    obtain ⟨htasks, -, hroom⟩ := hadmitted.mp hacc
    exact ⟨htasks, hroom⟩
  · rintro ⟨htasks, hroom⟩
    have hacc := hadmitted.mpr ⟨htasks, hlength, hroom⟩
    refine ⟨hacc, ?_⟩
    rcases Receipts.accept_cases h.receipts request.requestId (c.fingerprint request)
      (h.busy c request) with
      ⟨-, heq⟩ | ⟨a, ha, heq⟩
    · simp [Host.accept, hid.1, not_lt.mpr hid.2, heq]
    · rw [heq] at hacc
      exact absurd hacc ha

/-! ### The reservation of 32 ordinary requests -/

/-- Payloads that only say whether they terminate a run, and responses of no length. -/
def plainCodec : Codec Bool Unit :=
  ⟨fun terminatesRun => .single (if terminatesRun then .terminateRun else .other), fun _ => (),
    fun _ => 0, fun _ => 0⟩

/-- An ordinary request for every number, and a request that terminates a run. -/
def numberedRequest (n : ℕ) (terminatesRun : Bool) : Request Bool :=
  ⟨version, String.ofList (List.replicate (n + 1) 'r'), none, terminatesRun⟩

/-- The generation of the host in the examples. -/
def someGeneration : Uuid := ⟨"00000000-0000-4000-8000-000000000001", by decide⟩

/-- A connection with recovery, and the given number of ordinary requests on it. -/
def ordinaryRequests (n : ℕ) : List (Action Bool) :=
  .connect someGeneration :: .receive (.welcome true) false ::
    (List.range n).map fun i => .receive (.request (numberedRequest i false)) false

/-- The same payloads, and responses of a thousand bytes. -/
def weighingCodec : Codec Bool Unit :=
  { plainCodec with frameBytes := fun _ => 1000, textBytes := fun _ => 1000 }

/-- Thirty ordinary requests and one that terminates a run, the response to the first of them, which
is not acknowledged, and a new connection. -/
def busyActions : List (Action Bool) :=
  ordinaryRequests 30 ++ [.receive (.request (numberedRequest 30 true)) false,
    .finish 0 (.ok .null) false, .join 0, .disconnect, .connect someGeneration,
    .receive (.welcome true) false]

/-- On this host there is still room for a request that terminates a run. -/
theorem control_admitted_iff_busy :
    ∃ (log : List Event) (h : Host Bool Unit), (hostSystem weighingCodec).Run log h ∧
      (outstanding log).countP (fun r => !r.2) = 30 ∧ (outstanding log).countP (fun r => r.2) = 1 ∧
      h.receipts.bytes = 30 * maxFrameBytes + 1000 ∧
      (h.receipts.accept (numberedRequest 31 true).requestId
        (weighingCodec.fingerprint (numberedRequest 31 true))
        (h.busy weighingCodec (numberedRequest 31 true))).1 = .new ∧
      .started h.generation (numberedRequest 31 true).requestId ∈
        (h.accept weighingCodec (numberedRequest 31 true)).events := by
  have hexec : ((hostSystem weighingCodec).exec (Host.init someGeneration) busyActions).any
      (fun r => decide ((numberedRequest 31 true).requestId ∉ r.1.receipts.entries ∧
        (outstanding r.2).countP (fun r => !r.2) = 30 ∧
        (outstanding r.2).countP (fun r => r.2) = 1 ∧
        r.1.receipts.bytes = 30 * maxFrameBytes + 1000 ∧
        r.1.requests.length < maxRequests + maxControlRequests ∧
        r.1.receipts.reserved weighingCodec.textBytes + maxFrameBytes ≤ maxBytes)) = true := by
    decide
  obtain ⟨⟨h, log⟩, hr, hstate⟩ := (Option.any_eq_true _ _).mp hexec
  obtain ⟨hnew, hordinary, hcontrol, hbytes, htasks, hroom⟩ := of_decide_eq_true hstate
  have hrun : (hostSystem weighingCodec).Run log h := ⟨_, ⟨_, rfl⟩, .of_exec hr⟩
  obtain ⟨hadmitted, hstarted⟩ := (control_admitted_iff hrun rfl (by decide)
    hnew (by rw [hordinary]; decide) (by rw [hcontrol]; decide)).mpr ⟨htasks, hroom⟩
  exact ⟨log, h, hrun, hordinary, hcontrol, hbytes, hadmitted, hstarted⟩

/-- After 32 ordinary requests the store is full for a request that terminates a run. -/
theorem not_forall_control_admitted :
    ¬ ∀ (c : Codec Bool Unit) (log : List Event) (h : Host Bool Unit) (request : Request Bool),
      (hostSystem c).Run log h → c.terminatesRun request.payload = true →
      request.requestId ≠ "" ∧ request.requestId.utf8ByteSize ≤ 256 →
      request.requestId ∉ h.receipts.entries →
      (outstanding log).countP (fun r => !r.2) ≤ maxRequests →
      (outstanding log).countP (fun r => r.2) < maxControlRequests →
      (h.receipts.accept request.requestId (c.fingerprint request) (h.busy c request)).1 ≠
        .full := by
  intro hall
  have hexec : (((hostSystem plainCodec).exec (Host.init someGeneration)
      (ordinaryRequests 32)).all fun r =>
        decide (((numberedRequest 32 true).requestId ∉ r.1.receipts.entries) ∧
          (outstanding r.2).countP (fun r => !r.2) ≤ maxRequests ∧
          (outstanding r.2).countP (fun r => r.2) < maxControlRequests ∧
          (r.1.receipts.accept (numberedRequest 32 true).requestId () (r.1.busy plainCodec
            (numberedRequest 32 true))).1 = .full)) = true := by
    decide
  have hsome : ((hostSystem plainCodec).exec (Host.init someGeneration)
      (ordinaryRequests 32)).isSome = true := by
    decide
  obtain ⟨⟨h, log⟩, hr⟩ := Option.isSome_iff_exists.mp hsome
  rw [hr] at hexec
  obtain ⟨hnew, hordinary, hreserved, hfull⟩ := of_decide_eq_true hexec
  exact hall plainCodec log h (numberedRequest 32 true) ⟨_, ⟨_, rfl⟩, .of_exec hr⟩ rfl (by decide)
    hnew hordinary hreserved hfull

end ExecutionProvider.Daemon
