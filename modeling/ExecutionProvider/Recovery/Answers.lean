import ExecutionProvider.Recovery.Flow
import ExecutionProvider.Recovery.Transit

/-!
# Whose answer is stored

The response that a gateway stores for a job is one that the host has issued for this job: the
outcome of the task that the host has started for it, or the rejection of its request. There is no
other such response, since the request is read at most once.

## Main definitions

* `Issued`: a host has issued a response for a request.
* `Answered`: the responses that hosts keep, those on the connections and those that are stored
  were issued.

## Main results

* `Answered.step`: every step keeps this.
* `removed_after_settled`: a host removes a receipt after its job was settled.
* `stored_unique`: a stored response is the only one that was issued for its job.
-/

namespace ExecutionProvider.Recovery

open Protocol

variable {π φ : Type}

/-- A host has issued a response for a request. -/
def Issued (log : List (Event π)) (generation : Uuid) (text : String) (r : Response) : Prop :=
  ∃ e, .host e ∈ log ∧ e.Issues generation text r

/-- The responses that hosts keep, those on the connections and those that are stored were issued,
each for the job that its host was given and that it names. -/
structure Answered (log : List (Event π)) (W : World π φ) : Prop where
  task : ∀ g h t, W.hosts.lookup g = some (some h) → t ∈ h.requests →
    ∃ id m, t.request.requestId = id.text ∧ W.gateway.database.DispatchedTo id m g
  receipt : ∀ g h text r, W.hosts.lookup g = some (some h) →
    h.receipts.response text = some r → Issued log g text r
  frame : ∀ k w r, W.wires.lookup k = some w → .response r ∈ w.up →
    ∃ text, Issued log w.generation text r
  named : ∀ g text r, Issued log g text r → (∀ t, r.requestId = some t → t = text) ∧
    ∃ id m, text = id.text ∧ W.gateway.database.DispatchedTo id m g
  stored : ∀ σ v, .gateway (.settled σ) ∈ log → σ.response = some v →
    ∃ g m r, W.gateway.database.DispatchedTo σ.job m g ∧ v = Gateway.storedResponse r ∧
      Issued log g σ.job.text r

section

variable {log es : List (Event π)} {g : Uuid} {text : String} {r : Response}

theorem Issued.append (h : Issued log g text r) (es : List (Event π)) :
    Issued (log ++ es) g text r := by
  obtain ⟨e, hmem, he⟩ := h
  exact ⟨e, List.mem_append_left _ hmem, he⟩

theorem issued_of_mem {hes : List Daemon.Event} (log : List (Event π))
    (h : ∃ e ∈ hes, e.Issues g text r) : Issued (log ++ hes.map .host) g text r := by
  obtain ⟨e, hmem, he⟩ := h
  exact ⟨e, List.mem_append_right _ (List.mem_map_of_mem hmem), he⟩

variable [DecidableEq φ] {p : Gateway.Platform π} {c : Daemon.Codec π φ} {W W' : World π φ}

omit [DecidableEq φ] in
/-- A host reads a request on its connection, which the gateway has given to it. -/
theorem Transit.read_request (ht : Transit log W) (hl : Linked W) {h : Daemon.Host π φ}
    {request : Request π} {full : Bool} {wires : Table Uuid (Wire π)}
    (hhost : W.hosts.lookup g = some (some h))
    (hr : HostReads W g h (.receive (.request request) full) wires) :
    ∃ id m, request.requestId = id.text ∧ W.gateway.database.DispatchedTo id m g := by
  cases hr with
  | alone hown => cases hown
  | receive hconn hw hdown =>
    obtain ⟨w₁, hw₁, hwg⟩ := (hl.host g h hhost).2 _ hconn
    rw [hw] at hw₁
    obtain rfl := Option.some.inj hw₁
    obtain ⟨id, m, hid, hto⟩ := ht.request _ _ _ hw (hdown ▸ List.mem_cons_self)
    exact ⟨id, m, hid, hwg ▸ hto⟩

namespace Answered

theorem task_step (hi : Answered log W) (ht : Transit log W) (hl : Linked W)
    (he : Effect p c W W' es) {h' : Daemon.Host π φ} {t : Daemon.Task π}
    (hh' : W'.hosts.lookup g = some (some h')) (hmem : t ∈ h'.requests) :
    ∃ id m, t.request.requestId = id.text ∧ W'.gateway.database.DispatchedTo id m g := by
  obtain ⟨σs, hc⟩ := he.change
  suffices h : ∃ id m, t.request.requestId = id.text ∧ W.gateway.database.DispatchedTo id m g by
    obtain ⟨id, m, hid, hto⟩ := h
    exact ⟨id, m, hid, hto.change hc⟩
  rcases he.host_origin hh' with ⟨-, rfl⟩ | ⟨h, hh, rfl | ⟨a, wires, frames, hes, hr, hstep, -⟩⟩
  · cases hmem
  · exact hi.task g h' t hh hmem
  · rcases (Daemon.effect_of_step hstep).task_origin hmem with ⟨t₀, hold, heq⟩ | ⟨full, rfl⟩
    · exact heq ▸ hi.task g h t₀ hh hold
    · exact ht.read_request hl hh hr

theorem receipt_step (hi : Answered log W) (hl : Linked W) (he : Effect p c W W' es)
    {h' : Daemon.Host π φ} (hh' : W'.hosts.lookup g = some (some h'))
    (hr' : h'.receipts.response text = some r) : Issued (log ++ es) g text r := by
  rcases he.host_origin hh' with ⟨-, rfl⟩ | ⟨h, hh, rfl | ⟨a, wires, frames, hes, -, hstep, rfl, -⟩⟩
  · cases hr'
  · exact (hi.receipt g h' text r hh hr').append es
  · rcases (Daemon.effect_of_step hstep).response_origin hr' with hold | hnew
    · exact (hi.receipt g h text r hh hold).append _
    · rw [(hl.host g h hh).1] at hnew
      exact issued_of_mem log hnew

theorem frame_step (hi : Answered log W) (hl : Linked W) (he : Effect p c W W' es) {k : Uuid}
    {w' : Wire π} (hw' : W'.wires.lookup k = some w') (hmem : .response r ∈ w'.up) :
    ∃ text, Issued (log ++ es) w'.generation text r := by
  rcases he.wire_origin hw' with ⟨-, -, -, hu, -⟩ | ⟨w, hw, hfrom⟩
  · rw [hu] at hmem
    cases hmem
  · rw [hfrom.generation]
    rcases hfrom.up _ hmem with hold | ⟨g, h, h', a, wires, frames, hes, conn, hhost, -, hstep,
      hconn, rfl, hf, rfl⟩
    · obtain ⟨text, hissued⟩ := hi.frame k w r hw hold
      exact ⟨text, hissued.append es⟩
    · obtain ⟨hg, hconnection⟩ := hl.host g h hhost
      obtain ⟨w₁, hw₁, hwg⟩ := hconnection conn hconn
      rw [hw] at hw₁
      obtain rfl := Option.some.inj hw₁
      rw [hwg]
      obtain ⟨text, hold | hnew⟩ := (Daemon.effect_of_step hstep).said_origin hf
      · exact ⟨text, (hi.receipt g h text r hhost hold).append _⟩
      · rw [hg] at hnew
        exact ⟨text, issued_of_mem log hnew⟩

theorem named_step (hi : Answered log W) (ht : Transit log W) (hl : Linked W)
    (he : Effect p c W W' es) (hissued : Issued (log ++ es) g text r) :
    (∀ t, r.requestId = some t → t = text) ∧
      ∃ id m, text = id.text ∧ W'.gateway.database.DispatchedTo id m g := by
  obtain ⟨σs, hc⟩ := he.change
  obtain ⟨e, hmem, hissues⟩ := hissued
  rcases List.mem_append.mp hmem with hold | hnew
  · obtain ⟨hname, id, m, hid, hto⟩ := hi.named g text r ⟨e, hold, hissues⟩
    exact ⟨hname, id, m, hid, hto.change hc⟩
  · suffices h : (∀ t, r.requestId = some t → t = text) ∧
        ∃ id m, text = id.text ∧ W.gateway.database.DispatchedTo id m g by
      obtain ⟨hname, id, m, hid, hto⟩ := h
      exact ⟨hname, id, m, hid, hto.change hc⟩
    cases he with
    | gateway => simp at hnew
    | start => cases hnew
    | stop => cases hnew
    | lose => cases hnew
    | @host generation h h' a wires frames hes hhost hr hstep hg hh hw =>
      obtain ⟨e', hmem', heq⟩ := List.mem_map.mp hnew
      obtain rfl := Event.host.inj heq
      obtain ⟨rfl, hname, ⟨t, htask, rfl⟩ | ⟨request, full, rfl, rfl⟩⟩ :=
        (Daemon.effect_of_step hstep).issues_origin hmem' hissues
      · rw [(hl.host generation h hhost).1]
        exact ⟨hname, hi.task generation h t hhost htask⟩
      · rw [(hl.host generation h hhost).1]
        exact ⟨hname, ht.read_request hl hhost hr⟩

theorem stored_step (hi : Answered log W) (hl : Linked W) (he : Effect p c W W' es)
    {σ : Gateway.Settlement} {v : Json} (hmem : .gateway (.settled σ) ∈ log ++ es)
    (hv : σ.response = some v) :
    ∃ g m r, W'.gateway.database.DispatchedTo σ.job m g ∧ v = Gateway.storedResponse r ∧
      Issued (log ++ es) g σ.job.text r := by
  obtain ⟨σs, hc⟩ := he.change
  rcases List.mem_append.mp hmem with hold | hnew
  · obtain ⟨g, m, r, hto, hr, hissued⟩ := hi.stored σ v hold hv
    exact ⟨g, m, r, hto.change hc, hr, hissued.append es⟩
  · rcases he.gateway_cases with ⟨-, hnone⟩ | ⟨a, wires, ges, hr, hstep, rfl, -, -⟩
    · exact absurd hnew (hnone _)
    · cases (Gateway.effect_of_step hstep).settlement_origin (mem_map_gateway.mp hnew) with
      | plain h =>
        rw [h.response] at hv
        cases hv
      | @answer machine event id s r job ha hs hid hjob hstatus hgeneration hσ hresponse =>
        subst ha
        rw [hresponse] at hv
        obtain rfl := Option.some.inj hv
        cases hr with
        | alone hown => cases hown
        | read hs₁ hw hup =>
          rw [hs] at hs₁
          obtain rfl := Option.some.inj hs₁
          obtain ⟨w₁, hw₁, -, hg, -⟩ := hl.session machine s hs
          rw [hw] at hw₁
          obtain rfl := Option.some.inj hw₁
          obtain ⟨text, hissued⟩ := hi.frame _ _ r hw (hup ▸ List.mem_cons_self)
          obtain ⟨hname, id', m, rfl, hto⟩ := hi.named _ _ _ hissued
          -- The text that the response names is that of the job itself.
          obtain ⟨t, ht, hparse⟩ := Option.bind_eq_some_iff.mp hid
          rw [hname t ht, Uuid.parse_text] at hparse
          obtain rfl := Option.some.inj hparse
          subst hσ
          exact ⟨_, m, r, hto.change hc, rfl, hissued.append _⟩
      | lost _ _ _ hresponse =>
        rw [hresponse] at hv
        cases hv

omit [DecidableEq φ] in
theorem init : Answered ([] : List (Event π)) (World.init : World π φ) := by
  refine ⟨fun _ _ _ h => ?_, fun _ _ _ _ h => ?_, fun _ _ _ h => ?_, fun _ _ _ h => ?_,
    fun _ _ h => ?_⟩
  · cases h
  · cases h
  · cases h
  · obtain ⟨e, hmem, -⟩ := h
    cases hmem
  · cases h

/-- Every step keeps this. -/
theorem step (hi : Answered log W) (ht : Transit log W) (hl : Linked W)
    (he : Effect p c W W' es) : Answered (log ++ es) W' :=
  ⟨fun _ _ _ hh hmem => hi.task_step ht hl he hh hmem,
    fun _ _ _ _ hh hr => hi.receipt_step hl he hh hr, fun _ _ _ hw h => hi.frame_step hl he hw h,
    fun _ _ _ h => hi.named_step ht hl he h, fun _ _ h hv => hi.stored_step hl he h hv⟩

end Answered

/-! ### Runs -/

/-- What holds in every run of a gateway with its hosts. -/
structure Sound (log : List (Event π)) (W : World π φ) : Prop where
  linked : Linked W
  named : W.gateway.Named
  transit : Transit log W
  answered : Answered log W

theorem Sound.step (h : Sound log W) (he : Effect p c W W' es) : Sound (log ++ es) W' := by
  refine ⟨h.linked.step he, ?_, h.transit.step h.linked h.named he,
    h.answered.step h.transit h.linked he⟩
  rcases he.gateway_cases with ⟨hsame, -⟩ | ⟨a, wires, ges, -, hstep, -⟩
  · exact hsame ▸ h.named
  · exact h.named.step (Gateway.effect_of_step hstep)

theorem sound_of_run (h : (worldSystem p c).Run log W) : Sound log W := by
  refine h.invariant (I := fun log W => Sound log W) ?_ ?_
  · rintro _ rfl
    refine ⟨.init, fun _ _ _ _ h => ?_, .init, .init⟩
    cases h
  · intro log W a W' es _ ih hstep
    exact ih.step (effect_of_step hstep)

/-- A job that has ended was settled. -/
theorem settled_of_ended (h : (worldSystem p c).Run log W) {id : Uuid}
    (hended : W.gateway.database.Ended id) :
    ∃ σ, .gateway (.settled σ) ∈ log ∧ σ.job = id := by
  obtain ⟨job, hjob, hfinal⟩ := hended
  obtain ⟨σ, hσ, -⟩ := (Gateway.accounted_of_run (gateway_run h)).settled job hjob hfinal
  obtain ⟨hmem, hid⟩ := Gateway.mem_settlementsOf (hσ ▸ List.mem_singleton_self σ)
  exact ⟨σ, mem_gatewayLog.mp hmem, hid⟩

/-- **No receipt is released early.** Whenever a host removes the receipt of a request, the gateway
has settled the job of this request before. -/
theorem removed_after_settled (hrun : (worldSystem p c).Run log W) {pre post : List (Event π)}
    (hlog : log = pre ++ .host (.removed g text) :: post) :
    ∃ σ, .gateway (.settled σ) ∈ pre ∧ text = σ.job.text := by
  refine hrun.each (L := fun pre e => e = .host (.removed g text) →
    ∃ σ, .gateway (.settled σ) ∈ pre ∧ text = σ.job.text) ?_ hlog rfl
  rintro log W a W' es pre e post hrun hstep hes rfl
  have hmem : .host (.removed g text) ∈ es := hes ▸ List.mem_append_right _ List.mem_cons_self
  suffices h : ∃ id, text = id.text ∧ W.gateway.database.Ended id by
    obtain ⟨id, rfl, hended⟩ := h
    obtain ⟨σ, hσ, rfl⟩ := settled_of_ended hrun hended
    exact ⟨σ, List.mem_append_left _ hσ, rfl⟩
  cases effect_of_step hstep with
  | gateway => simp at hmem
  | start => cases hmem
  | stop => cases hmem
  | lose => cases hmem
  | host hhost hr hhoststep =>
    obtain ⟨e, he, heq⟩ := List.mem_map.mp hmem
    obtain rfl := Event.host.inj heq
    cases Daemon.effect_of_step hhoststep with
    | remove =>
      obtain ⟨-, rfl⟩ : g = _ ∧ text = _ := by simpa using he
      cases hr with
      | alone hown => cases hown
      | receive _ hw hdown =>
        exact (sound_of_run hrun).transit.acknowledge _ _ _ _ hw (hdown ▸ List.mem_cons_self)
    | idle | accept | start | reject | complete | reply | join => simp at he

/-! ### A job that is answered -/

/-- The host is done with job 5, and its answer is sent, stored and released. -/
def answerActions : List (Action Unit) :=
  [.host (.numbered 3) (.finish 0 (.ok (.obj [])) false),
    .host (.numbered 3) (.respond (Uuid.numbered 5).text false),
    .read (.numbered 2) (.numbered 8), .read (.numbered 2) (.numbered 9),
    .gateway (.session (.numbered 2) (.proceed (.numbered 10) false)),
    .receive (.numbered 3) false]

/-- Whether a host removes a receipt. -/
def Event.removes : Event π → Bool
  | .host (.removed ..) => true
  | _ => false

/-- Whether a gateway stores a response. -/
def Event.stores : Event π → Bool
  | .gateway (.settled σ) => σ.response.isSome
  | _ => false

omit [DecidableEq φ] in
theorem Event.exists_of_removes {e : Event π} (h : e.removes = true) :
    ∃ g text, e = .host (.removed g text) := by
  unfold Event.removes at h
  split at h
  · exact ⟨_, _, rfl⟩
  · cases h

theorem Event.exists_of_stores {e : Event π} (h : e.stores = true) :
    ∃ σ v, e = .gateway (.settled σ) ∧ σ.response = some v := by
  unfold Event.stores at h
  split at h
  · exact ⟨_, _, rfl, (Option.some_get h).symm⟩
  · cases h

/-- The answer to a job is stored before its receipt is removed. -/
theorem removed_after_settled_answered :
    ∃ (log : List (Event Unit)) (W : World Unit Unit) (pre post : List (Event Unit)) (g : Uuid)
      (text : String), (worldSystem Gateway.plainPlatform plainCodec).Run log W ∧
        log = pre ++ .host (.removed g text) :: post ∧
        ∃ σ, .gateway (.settled σ) ∈ pre ∧ text = σ.job.text := by
  obtain ⟨r, hr⟩ : ∃ r, (worldSystem Gateway.plainPlatform plainCodec).exec .init
      (connectActions ++ startActions ++ answerActions) = some r := ⟨_, rfl⟩
  have hdone : ((worldSystem Gateway.plainPlatform plainCodec).exec .init
      (connectActions ++ startActions ++ answerActions)).any (fun r => r.2.any Event.removes) =
      true := by
    decide
  rw [hr, Option.any_some, List.any_eq_true] at hdone
  obtain ⟨e, hmem, he⟩ := hdone
  obtain ⟨g, text, rfl⟩ := Event.exists_of_removes he
  obtain ⟨pre, post, hlog⟩ := List.append_of_mem hmem
  have hrun : (worldSystem Gateway.plainPlatform plainCodec).Run r.2 r.1 := ⟨_, rfl, .of_exec hr⟩
  exact ⟨r.2, r.1, pre, post, g, text, hrun, hlog, removed_after_settled hrun hlog⟩

/-- Whether a response is issued for a job. -/
def answersJob (id : Uuid) (e : Daemon.Event) : Bool := completesJob id e || rejectsJob id e

omit [DecidableEq φ] in
theorem answersJob_of_issues {id : Uuid} {e : Daemon.Event} (h : e.Issues g id.text r) :
    answersJob id e = true := by
  cases h <;> simp [answersJob, completesJob, rejectsJob]

/-- Two members of a list are equal when a predicate counts them, and at most one. -/
theorem eq_of_countP_le_one {α : Type} {q : α → Bool} {l : List α} (h : l.countP q ≤ 1) {a b : α}
    (ha : a ∈ l) (hb : b ∈ l) (hqa : q a = true) (hqb : q b = true) : a = b := by
  rw [List.countP_eq_length_filter] at h
  have ha : a ∈ l.filter q := List.mem_filter.mpr ⟨ha, hqa⟩
  have hb : b ∈ l.filter q := List.mem_filter.mpr ⟨hb, hqb⟩
  generalize l.filter q = l' at h ha hb
  match l' with
  | [] => cases ha
  | [x] => exact (List.mem_singleton.mp ha).trans (List.mem_singleton.mp hb).symm
  | x :: y :: rest => simp at h

theorem countP_or_le {α : Type} (q q' : α → Bool) (l : List α) :
    l.countP (fun a => q a || q' a) ≤ l.countP q + l.countP q' := by
  induction l with
  | nil => exact le_rfl
  | cons a l ih =>
    simp only [List.countP_cons, Bool.or_eq_true]
    split_ifs <;> grind

/-- At most one response is issued for a job. -/
theorem issued_unique (hrun : (worldSystem p c).Run log W) {id : Uuid} {g' : Uuid} {r' : Response}
    (h : Issued log g id.text r) (h' : Issued log g' id.text r') : g = g' ∧ r = r' := by
  obtain ⟨e, hmem, he⟩ := h
  obtain ⟨e', hmem', he'⟩ := h'
  have hflow := flow_of_run id hrun
  have hsent := hflow.sent
  have hstarted := hflow.started
  have honce : requestsSent id log ≤ 1 := (Gateway.credit_of_run id (gateway_run hrun)).2.once
  have hcount : (hostLog log).countP (answersJob id) ≤ 1 := by
    have hle : (hostLog log).countP (answersJob id) ≤ completions id log + rejections id log :=
      countP_or_le _ _ _
    omega
  have heq : e = e' := eq_of_countP_le_one hcount (mem_hostLog.mpr hmem) (mem_hostLog.mpr hmem')
    (answersJob_of_issues he) (answersJob_of_issues he')
  subst heq
  cases he <;> cases he' <;> exact ⟨rfl, rfl⟩

/-- **No result is invented.** A response that the gateway has stored for a job is the one that
the host to which this job was dispatched has issued for it, as the outcome of the task that it
has started or the rejection of the request. It is the only response that any host has issued. -/
theorem stored_unique (hrun : (worldSystem p c).Run log W) {σ : Gateway.Settlement} {v : Json}
    (hσ : .gateway (.settled σ) ∈ log) (hv : σ.response = some v) :
    ∃ g m r, W.gateway.database.DispatchedTo σ.job m g ∧ v = Gateway.storedResponse r ∧
      Issued log g σ.job.text r ∧
      ∀ g' r', Issued log g' σ.job.text r' → g' = g ∧ r' = r := by
  obtain ⟨g, m, r, hto, hr, hissued⟩ := (sound_of_run hrun).answered.stored σ v hσ hv
  exact ⟨g, m, r, hto, hr, hissued, fun g' r' h => issued_unique hrun h hissued⟩

/-- The answer to a job is the only response that was issued for it. -/
theorem stored_unique_answered :
    ∃ (log : List (Event Unit)) (W : World Unit Unit) (σ : Gateway.Settlement) (g : Uuid)
      (r : Response), (worldSystem Gateway.plainPlatform plainCodec).Run log W ∧
        .gateway (.settled σ) ∈ log ∧ σ.response = some (Gateway.storedResponse r) ∧
        Issued log g σ.job.text r ∧ ∀ g' r', Issued log g' σ.job.text r' → g' = g ∧ r' = r := by
  obtain ⟨x, hx⟩ : ∃ x, (worldSystem Gateway.plainPlatform plainCodec).exec .init
      (connectActions ++ startActions ++ answerActions) = some x := ⟨_, rfl⟩
  have hdone : ((worldSystem Gateway.plainPlatform plainCodec).exec .init
      (connectActions ++ startActions ++ answerActions)).any (fun x => x.2.any Event.stores) =
      true := by
    decide
  rw [hx, Option.any_some, List.any_eq_true] at hdone
  obtain ⟨e, hmem, he⟩ := hdone
  obtain ⟨σ, v, rfl, hv⟩ := Event.exists_of_stores he
  have hrun : (worldSystem Gateway.plainPlatform plainCodec).Run x.2 x.1 := ⟨_, rfl, .of_exec hx⟩
  obtain ⟨g, m, r, -, rfl, hissued, hunique⟩ := stored_unique hrun hmem hv
  exact ⟨x.2, x.1, σ, g, r, hrun, hmem, hv, hissued, hunique⟩

end

end ExecutionProvider.Recovery
