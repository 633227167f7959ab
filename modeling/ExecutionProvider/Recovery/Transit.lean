import ExecutionProvider.Daemon.Responses
import ExecutionProvider.Recovery.Links

/-!
# What is on its way

Requests, questions for receipts, releases and the news that a receipt is missing cross on the
wire. Each of them says something about its job for as long as it is on its way, and the promises
of a session say it before. A question is asked only when the request cannot be read any more on
the connection on which it is asked; so a host that has no receipt then will never get one.

## Main definitions

* `World.Absent`: a request is not on a connection and will not be put there.
* `World.Dead`: no host can read a request any more.
* `Lost`: a job that has ended, or was never admitted, whose request no host can read any more.
* `Transit`: what everything that is on its way says about its job.

## Main results

* `Transit.step`: every step keeps what is said.
-/

namespace ExecutionProvider.Recovery

open Protocol

variable {π φ : Type}

/-! ### Requests that are not read any more -/

/-- No session is about to send the request of a job. -/
def World.Unsending (W : World π φ) (id : Uuid) : Prop :=
  ∀ m s, W.gateway.live.lookup m = some s → ¬s.Sends id

/-- A connection carries the request of a job. -/
def Wire.Carries (w : Wire π) (id : Uuid) : Prop :=
  ∃ r, .request r ∈ w.down ∧ r.requestId = id.text

/-- The request of a job is not on a connection, and will not be put there. -/
def World.Absent (W : World π φ) (connection id : Uuid) : Prop :=
  W.Unsending id ∧ ∀ w, W.wires.lookup connection = some w → ¬w.Carries id

/-- No host can read the request of a job any more. -/
structure World.Dead (W : World π φ) (id : Uuid) : Prop where
  dispatched : W.gateway.database.Dispatched id
  unsending : W.Unsending id
  unread : ∀ g h conn w, W.hosts.lookup g = some (some h) → h.connection = some conn →
    W.wires.lookup conn.id = some w → ¬w.Carries id

/-- No host has admitted a job. -/
def NeverAdmitted (log : List (Event π)) (id : Uuid) : Prop :=
  ∀ g b, .host (.admitted g id.text b) ∉ log

/-- A job that has ended, or was never admitted, and whose request no host can read any more. -/
def Lost (log : List (Event π)) (W : World π φ) (id : Uuid) : Prop :=
  W.Dead id ∧ (W.gateway.database.Ended id ∨ NeverAdmitted log id)

/-- What everything that is on its way says about its job. -/
structure Transit (log : List (Event π)) (W : World π φ) : Prop where
  sending : ∀ m s id, W.gateway.live.lookup m = some s → s.Sends id →
    W.gateway.database.DispatchedTo id m s.generation
  request : ∀ k w r, W.wires.lookup k = some w → .request r ∈ w.down →
    ∃ id m, r.requestId = id.text ∧ W.gateway.database.DispatchedTo id m w.generation
  asking : ∀ m s id, W.gateway.live.lookup m = some s → id ∈ s.asking →
    W.gateway.database.DispatchedTo id m s.generation ∧ W.Absent s.id id
  recover : ∀ k w text g, W.wires.lookup k = some w → .recover text g ∈ w.down →
    g = w.generation ∧ ∃ id m, text = id.text ∧
      W.gateway.database.DispatchedTo id m w.generation ∧ W.Absent k id
  releasing : ∀ m s id, W.gateway.live.lookup m = some s → s.releasing = some id →
    W.gateway.database.Ended id
  acknowledge : ∀ k w text g, W.wires.lookup k = some w → .acknowledge text g ∈ w.down →
    ∃ id, text = id.text ∧ W.gateway.database.Ended id
  admitted : ∀ g text b, .host (.admitted g text b) ∈ log → g ∈ W.hosts ∧
    ∃ id m, text = id.text ∧ W.gateway.database.DispatchedTo id m g ∧
      (W.gateway.database.Ended id ∨
        ∀ h, W.hosts.lookup g = some (some h) → h.receipts.contains text = true)
  missing : ∀ m s id, W.gateway.live.lookup m = some s → s.missing = some id → Lost log W id
  missed : ∀ k w text g, W.wires.lookup k = some w → .missing text g ∈ w.up →
    ∃ id, text = id.text ∧ Lost log W id
  lost : ∀ σ, .gateway (.settled σ) ∈ log → σ.reports "receipt_missing" →
    W.Dead σ.job ∧ NeverAdmitted log σ.job

/-! ### What lasts -/

section

variable [DecidableEq φ] {p : Gateway.Platform π} {c : Daemon.Codec π φ} {W W' : World π φ}
  {log es : List (Event π)} {id k : Uuid}

theorem Effect.change (he : Effect p c W W' es) :
    ∃ σs, Gateway.Change p W.gateway.database W'.gateway.database σs := by
  rcases he.gateway_cases with ⟨hsame, -⟩ | ⟨a, wires, ges, -, hstep, -⟩
  · exact ⟨[], hsame ▸ .keep rfl rfl⟩
  · obtain ⟨σs, hc, -⟩ := (Gateway.effect_of_step hstep).change
    exact ⟨σs, hc⟩

theorem World.Unsending.step (he : Effect p c W W' es)
    (hd : W.gateway.database.Dispatched id) (h : W.Unsending id) : W'.Unsending id := by
  intro m s' hs' hsends
  rcases he.gateway_cases with ⟨hsame, -⟩ | ⟨a, wires, ges, -, hstep, -⟩
  · exact h m s' (hsame ▸ hs') hsends
  · rcases (Gateway.effect_of_step hstep).sends_origin hs' hsends with ⟨s, hs, hold⟩ | ⟨hnot, -⟩
    · exact h m s hs hold
    · exact hnot hd

/-- A connection carries a request because it did so before, or a session has just sent it. -/
theorem Effect.carries_origin (he : Effect p c W W' es) (hn : W.gateway.Named) {w' : Wire π}
    (hw' : W'.wires.lookup k = some w') (hcarries : w'.Carries id) :
    (∃ w, W.wires.lookup k = some w ∧ w.Carries id) ∨ ¬W.Unsending id := by
  obtain ⟨r, hmem, hid⟩ := hcarries
  rcases he.wire_origin hw' with ⟨-, -, hd, -⟩ | ⟨w, hw, hfrom⟩
  · rw [hd] at hmem
    cases hmem
  · rcases hfrom.down _ hmem with hold | hsent
    · exact Or.inl ⟨w, hw, r, hold, hid⟩
    · refine Or.inr fun hun => ?_
      rcases he.gateway_cases with ⟨-, hnone⟩ | ⟨a, wires, ges, -, hstep, rfl, -, -⟩
      · exact hnone _ hsent
      · have hrequest : Gateway.requestsSent id ges ≠ 0 := by
          refine Nat.pos_iff_ne_zero.mp (List.countP_pos_iff.mpr ⟨_, mem_map_gateway.mp hsent, ?_⟩)
          simpa [Gateway.Event.isRequest] using hid
        obtain ⟨-, m, s, -, hs, hsends, -⟩ :=
          (Gateway.effect_of_step hstep).request_origin hn hrequest
        exact hun m s hs hsends

theorem World.Absent.step (he : Effect p c W W' es) (hn : W.gateway.Named)
    (hd : W.gateway.database.Dispatched id) (h : W.Absent k id) : W'.Absent k id := by
  refine ⟨h.1.step he hd, fun w' hw' hcarries => ?_⟩
  rcases he.carries_origin hn hw' hcarries with ⟨w, hw, hold⟩ | hnot
  · exact h.2 w hw hold
  · exact hnot h.1

theorem World.Dead.step (he : Effect p c W W' es) (hn : W.gateway.Named) (h : W.Dead id) :
    W'.Dead id := by
  obtain ⟨σs, hc⟩ := he.change
  refine ⟨hc.dispatched h.dispatched, h.unsending.step he h.dispatched,
    fun g h' conn' w' hh' hconn' hw' hcarries => ?_⟩
  obtain ⟨w, hw, hold⟩ := (he.carries_origin hn hw' hcarries).resolve_right fun hnot =>
    hnot h.unsending
  rcases he.host_origin hh' with ⟨-, rfl⟩ | ⟨h₀, hh, rfl | ⟨a, wires, frames, hes, hr, hstep, -, -⟩⟩
  · cases hconn'
  · exact h.unread g h' conn' w hh hconn' hw hold
  · rcases Daemon.connection_of_step hstep with ⟨new, rfl, -, -, hnew⟩ | hsame
    · rw [hconn'] at hnew
      obtain rfl := Option.some.inj hnew
      cases hr with
      | alone hown => cases hown
      | dial hfresh => exact hfresh (Table.mem_of_lookup hw)
    · obtain ⟨conn, hconn, hid⟩ := hsame conn' hconn'
      exact h.unread g h₀ conn w hh hconn (hid ▸ hw) hold

/-- A job is admitted when its request is read. -/
theorem Effect.admitted_origin (he : Effect p c W W' es) {g : Uuid} {text : String} {b : Bool}
    (hmem : .host (.admitted g text b) ∈ es) :
    ∃ generation h conn w r, W.hosts.lookup generation = some (some h) ∧ h.generation = g ∧
      h.connection = some conn ∧ W.wires.lookup conn.id = some w ∧ .request r ∈ w.down ∧
      r.requestId = text ∧ generation ∈ W'.hosts ∧
      ∀ h', W'.hosts.lookup generation = some (some h') → h'.receipts.contains text = true := by
  cases he with
  | gateway => simp at hmem
  | start => cases hmem
  | stop => cases hmem
  | lose => cases hmem
  | @host generation h h' a wires frames es hhost hr hstep hg hh hw =>
    obtain ⟨e, he, heq⟩ := List.mem_map.mp hmem
    obtain rfl := Event.host.inj heq
    cases Daemon.effect_of_step hstep with
    | idle => cases he
    | start => simp at he
    | reject => simp at he
    | remove => simp at he
    | complete => simp at he
    | reply => simp at he
    | join => cases he
    | @accept request full frames hnew hgen hreceipts =>
      obtain ⟨rfl, rfl, rfl⟩ : g = h.generation ∧ text = request.requestId ∧
          b = c.terminatesRun request.payload := by
        simpa using he
      cases hr with
      | alone hown => cases hown
      | receive hconnection hwire hdown =>
        refine ⟨generation, h, _, _, request, hhost, rfl, hconnection, hwire,
          hdown ▸ List.mem_cons_self, rfl, ?_, fun x hx => ?_⟩
        · rw [hh]
          exact Table.mem_modify.mpr (Table.mem_of_lookup hhost)
        · rw [hh, Table.lookup_modify, hhost] at hx
          obtain rfl := Option.some.inj (Option.some.inj hx)
          rw [Daemon.Receipts.contains, hreceipts, AList.lookup_insert]
          rfl

theorem NeverAdmitted.step (he : Effect p c W W' es) (hdead : W.Dead id)
    (h : NeverAdmitted log id) : NeverAdmitted (log ++ es) id := by
  intro g b hmem
  rcases List.mem_append.mp hmem with hold | hnew
  · exact h g b hold
  · obtain ⟨generation, h₀, conn, w, r, hhost, -, hconn, hw, hr, hid, -⟩ := he.admitted_origin hnew
    exact hdead.unread generation h₀ conn w hhost hconn hw ⟨r, hr, hid⟩

theorem Lost.step (he : Effect p c W W' es) (hn : W.gateway.Named) (h : Lost log W id) :
    Lost (log ++ es) W' id := by
  obtain ⟨hdead, hor⟩ := h
  obtain ⟨σs, hc⟩ := he.change
  exact ⟨hdead.step he hn, hor.imp (fun hended => hended.change hc) fun hnever =>
    hnever.step he hdead⟩

/-! ### Where it comes from -/

/-- A session of the world comes from where a session of the gateway comes from. -/
theorem Effect.session_origin (he : Effect p c W W' es) {m : Uuid} {s' : Gateway.Session π}
    (hs' : W'.gateway.live.lookup m = some s') :
    (∃ s, W.gateway.live.lookup m = some s ∧ s'.Within s) ∨
    ∃ a wires ges, GatewayReads W a wires ∧ s'.Origin W.gateway W'.gateway a ges m := by
  rcases he.gateway_cases with ⟨hsame, -⟩ | ⟨a, wires, ges, hr, hstep, -⟩
  · exact Or.inl ⟨s', hsame ▸ hs', .refl s'⟩
  · exact Or.inr ⟨a, wires, ges, hr, (Gateway.effect_of_step hstep).session_origin hs'⟩

/-- A frame on a connection was there before, its session has said it, or it refuses the
connection. -/
theorem Effect.frame_origin (he : Effect p c W W' es) (hl : Linked W) {w' : Wire π}
    {f : GatewayMessage π} (hw' : W'.wires.lookup k = some w') (hf : f ∈ w'.down) :
    (∃ w, W.wires.lookup k = some w ∧ w'.generation = w.generation ∧ f ∈ w.down) ∨
    (∃ m s s', W.gateway.live.lookup m = some s ∧ s.id = k ∧ w'.generation = s.generation ∧
      s.Speaks s' f) ∨
    ∃ code, f = .disconnect code := by
  rcases he.wire_origin hw' with ⟨-, -, hd, -⟩ | ⟨w, hw, hfrom⟩
  · rw [hd] at hf
    cases hf
  · rcases hfrom.down f hf with hold | hsent
    · exact Or.inl ⟨w, hw, hfrom.generation, hold⟩
    · rcases he.gateway_cases with ⟨-, hnone⟩ | ⟨a, wires, ges, -, hstep, rfl, -, -⟩
      · exact absurd hsent (hnone _)
      · obtain ⟨horigin, -⟩ := (Gateway.effect_of_step hstep).speaks (mem_map_gateway.mp hsent)
        refine Or.inr ?_
        cases horigin with
        | session hs _ _ _ _ hspeaks =>
          obtain ⟨w₁, hw₁, -, hg, -⟩ := hl.session _ _ hs
          rw [hw] at hw₁
          obtain rfl := Option.some.inj hw₁
          exact Or.inl ⟨_, _, _, hs, rfl, hfrom.generation.trans hg, hspeaks⟩
        | refused => exact Or.inr ⟨_, rfl⟩

theorem Effect.host_remains (he : Effect p c W W' es) {g : Uuid} (hg : g ∈ W.hosts) :
    g ∈ W'.hosts := by
  cases he with
  | gateway _ _ hh => exact hh ▸ hg
  | host _ _ _ _ hh => exact hh ▸ Table.mem_modify.mpr hg
  | start _ _ hh => exact hh ▸ (AList.mem_insert _).mpr (Or.inr hg)
  | stop _ hh => exact hh ▸ Table.mem_modify.mpr hg
  | lose _ hh => exact hh ▸ hg

/-- A job that was just dispatched. -/
theorem dispatchedTo_dispatch {db : Gateway.Database} {job : Gateway.Job} {now : ℕ}
    {m generation : Uuid} {recovery : Bool}
    (hjob : db.jobs.lookup id = some (job.dispatch now generation recovery))
    (hm : job.machineId = m) : db.DispatchedTo id m generation :=
  ⟨_, hjob, fun h => (by cases h), hm, rfl⟩

/-! ### Every step -/

namespace Transit

omit [DecidableEq φ] in
/-- A session that has surveyed its jobs asks for those that were dispatched to its host, and
none of them is on its connection. -/
theorem surveyed (ht : Transit log W) (hl : Linked W) {m : Uuid} {s : Gateway.Session π}
    (hs : W.gateway.live.lookup m = some s) (hphase : s.phase = .checked)
    {row : Gateway.InflightRow}
    (hrow : row ∈ Gateway.reconnectRows W.gateway.clock W.gateway.database m)
    (hrecoverable : row.recoverable s.generation s.recovery = true) :
    W.gateway.database.DispatchedTo row.id m s.generation ∧ W.Absent s.id row.id := by
  obtain ⟨job, hjob, hstatus, hm, hprevious⟩ := Gateway.lookup_of_reconnectRows hrow
  simp only [Gateway.InflightRow.recoverable, Bool.and_eq_true, beq_iff_eq] at hrecoverable
  have hto : W.gateway.database.DispatchedTo row.id m s.generation :=
    ⟨job, hjob, Gateway.JobStatus.ne_queued_of_isInflight hstatus, hm,
      hprevious.trans hrecoverable.2⟩
  refine ⟨hto, fun m' s₁ hs₁ hsends => ?_, fun w hw hcarries => ?_⟩
  · -- Only a session of the same machine could send it, and that is this one.
    obtain ⟨rfl, -⟩ := hto.unique (ht.sending m' s₁ row.id hs₁ hsends)
    rw [hs] at hs₁
    obtain rfl := Option.some.inj hs₁
    obtain ⟨r, hsending⟩ := hsends
    rw [Gateway.Session.sending, hphase] at hsending
    cases hsending
  · obtain ⟨w₁, hw₁, -, -, hfresh⟩ := hl.session m s hs
    rw [hw] at hw₁
    obtain rfl := Option.some.inj hw₁
    obtain ⟨r, hr, -⟩ := hcarries
    rw [hfresh (by rw [Gateway.Session.fresh, hphase])] at hr
    cases hr

theorem sending_step (ht : Transit log W) (he : Effect p c W W' es) {m : Uuid}
    {s' : Gateway.Session π} (hs' : W'.gateway.live.lookup m = some s') (hsends : s'.Sends id) :
    W'.gateway.database.DispatchedTo id m s'.generation := by
  obtain ⟨σs, hc⟩ := he.change
  obtain ⟨r, hsending⟩ := hsends
  have hwithin {s : Gateway.Session π} (hs : W.gateway.live.lookup m = some s)
      (hw : s'.Within s) : W'.gateway.database.DispatchedTo id m s'.generation := by
    rcases hw.sending with hnone | hsame
    · rw [hnone] at hsending
      cases hsending
    · rw [hw.generation]
      exact (ht.sending m s id hs ⟨r, hsame ▸ hsending⟩).change hc
  rcases he.session_origin hs' with ⟨s, hs, hw⟩ | ⟨a, wires, ges, -, horigin⟩
  · exact hwithin hs hw
  · cases horigin with
    | kept hs hw => exact hwithin hs hw
    | opened _ _ _ _ _ heq => subst heq; cases hsending
    | surveyed _ _ heq => subst heq; cases hsending
    | dispatched _ _ _ _ hmachine _ hjob' _ heq =>
      subst heq
      obtain ⟨rfl, rfl⟩ := Prod.mk.inj (Option.some.inj hsending)
      exact dispatchedTo_dispatch hjob' hmachine
    | responded _ _ _ heq => subst heq; cases hsending
    | missed _ _ _ _ heq => subst heq; cases hsending

theorem asking_step (ht : Transit log W) (hl : Linked W) (hn : W.gateway.Named)
    (he : Effect p c W W' es) {m : Uuid} {s' : Gateway.Session π}
    (hs' : W'.gateway.live.lookup m = some s') (hid : id ∈ s'.asking) :
    W'.gateway.database.DispatchedTo id m s'.generation ∧ W'.Absent s'.id id := by
  obtain ⟨σs, hc⟩ := he.change
  have hlasts {s : Gateway.Session π} (hsid : s'.id = s.id) (hg : s'.generation = s.generation)
      (h : W.gateway.database.DispatchedTo id m s.generation ∧ W.Absent s.id id) :
      W'.gateway.database.DispatchedTo id m s'.generation ∧ W'.Absent s'.id id := by
    rw [hsid, hg]
    exact ⟨h.1.change hc, h.2.step he hn h.1.dispatched⟩
  rcases he.session_origin hs' with ⟨s, hs, hw⟩ | ⟨a, wires, ges, -, horigin⟩
  · exact hlasts hw.id hw.generation (ht.asking m s id hs (hw.asking hid))
  · cases horigin with
    | kept hs hw => exact hlasts hw.id hw.generation (ht.asking m _ id hs (hw.asking hid))
    | opened _ _ _ _ _ heq => subst heq; cases hid
    | surveyed hs hphase heq =>
      subst heq
      obtain ⟨row, hrow, rfl⟩ := List.mem_map.mp hid
      obtain ⟨hmem, hrecoverable⟩ := List.mem_filter.mp hrow
      exact hlasts rfl rfl (ht.surveyed hl hs hphase hmem hrecoverable)
    | dispatched _ _ _ _ _ _ _ _ heq => subst heq; cases hid
    | @responded s recovering _ hs hphase _ heq =>
      subst heq
      have hold : id ∈ s.asking := by rwa [Gateway.Session.asking, hphase]
      exact hlasts rfl rfl (ht.asking m s id hs hold)
    | @missed s recovering _ _ _ _ hs hphase _ heq =>
      subst heq
      have hold : id ∈ s.asking := by rwa [Gateway.Session.asking, hphase]
      exact hlasts rfl rfl (ht.asking m s id hs hold)

theorem releasing_step (ht : Transit log W) (he : Effect p c W W' es) {m : Uuid}
    {s' : Gateway.Session π} (hs' : W'.gateway.live.lookup m = some s')
    (hid : s'.releasing = some id) : W'.gateway.database.Ended id := by
  obtain ⟨σs, hc⟩ := he.change
  have hwithin {s : Gateway.Session π} (hs : W.gateway.live.lookup m = some s)
      (hw : s'.Within s) : W'.gateway.database.Ended id := by
    rcases hw.releasing with hnone | hsame
    · rw [hnone] at hid
      cases hid
    · exact (ht.releasing m s id hs (hsame ▸ hid)).change hc
  rcases he.session_origin hs' with ⟨s, hs, hw⟩ | ⟨a, wires, ges, -, horigin⟩
  · exact hwithin hs hw
  · cases horigin with
    | kept hs hw => exact hwithin hs hw
    | opened _ _ _ _ _ heq => subst heq; cases hid
    | surveyed _ _ heq => subst heq; cases hid
    | dispatched _ _ _ _ _ _ _ _ heq => subst heq; cases hid
    | responded _ _ hended heq =>
      subst heq
      obtain rfl := Option.some.inj hid
      exact hended
    | missed _ _ _ _ heq => subst heq; cases hid

theorem missing_step (ht : Transit log W) (hn : W.gateway.Named) (he : Effect p c W W' es)
    {m : Uuid} {s' : Gateway.Session π} (hs' : W'.gateway.live.lookup m = some s')
    (hid : s'.missing = some id) : Lost (log ++ es) W' id := by
  have hwithin {s : Gateway.Session π} (hs : W.gateway.live.lookup m = some s)
      (hw : s'.Within s) : Lost (log ++ es) W' id := by
    rcases hw.missing with hnone | hsame
    · rw [hnone] at hid
      cases hid
    · exact (ht.missing m s id hs (hsame ▸ hid)).step he hn
  rcases he.session_origin hs' with ⟨s, hs, hw⟩ | ⟨a, wires, ges, hr, horigin⟩
  · exact hwithin hs hw
  · cases horigin with
    | kept hs hw => exact hwithin hs hw
    | opened _ _ _ _ _ heq => subst heq; cases hid
    | surveyed _ _ heq => subst heq; cases hid
    | dispatched _ _ _ _ _ _ _ _ heq => subst heq; cases hid
    | responded _ _ _ heq => subst heq; cases hid
    | missed ha hs hphase hparse heq =>
      subst heq ha
      obtain rfl := Option.some.inj hid
      cases hr with
      | alone hown => cases hown
      | read _ hw hup =>
        obtain ⟨id', rfl, hlost⟩ := ht.missed _ _ _ _ hw (hup ▸ List.mem_cons_self)
        rw [Uuid.parse_text] at hparse
        obtain rfl := Option.some.inj hparse
        exact hlost.step he hn

omit [DecidableEq φ] in
/-- A host that has no receipt for a job of which it was told on this connection will never
admit it, or the job has ended. -/
theorem lost_of_recover (ht : Transit log W) (hl : Linked W) {g generation : Uuid}
    {text : String} {h : Daemon.Host π φ} {conn : Daemon.Connection} {w : Wire π}
    (hhost : W.hosts.lookup g = some (some h)) (hconn : h.connection = some conn)
    (hw : W.wires.lookup conn.id = some w) (hmem : .recover text generation ∈ w.down)
    (hr : ¬(generation = h.generation ∧ h.receipts.contains text)) :
    ∃ id, text = id.text ∧ Lost log W id := by
  obtain ⟨hg, hconnection⟩ := hl.host g h hhost
  obtain ⟨w₁, hw₁, hwg⟩ := hconnection conn hconn
  rw [hw] at hw₁
  obtain rfl := Option.some.inj hw₁
  obtain ⟨rfl, id, m, rfl, hto, habsent⟩ := ht.recover _ _ _ _ hw hmem
  have hnone : h.receipts.contains id.text = false := by
    by_contra htrue
    exact hr ⟨hwg.trans hg.symm, by simpa using htrue⟩
  refine ⟨id, rfl, ⟨hto.dispatched, habsent.1, fun g' h' conn' w' hhost' hconn' hw' hcarries => ?_⟩,
    or_iff_not_imp_right.mpr fun hadmitted => ?_⟩
  · -- The request was put on a connection of this very host, which reads only this one.
    obtain ⟨r, hr', hid⟩ := hcarries
    obtain ⟨id', m', hid', hto'⟩ := ht.request _ _ _ hw' hr'
    obtain rfl := Uuid.text_injective (hid.symm.trans hid')
    obtain ⟨-, hsame⟩ := hto.unique hto'
    obtain ⟨-, hconnection'⟩ := hl.host g' h' hhost'
    obtain ⟨w₂, hw₂, hwg'⟩ := hconnection' conn' hconn'
    rw [hw'] at hw₂
    obtain rfl := Option.some.inj hw₂
    obtain rfl : g = g' := hwg.symm.trans (hsame.trans hwg')
    rw [hhost] at hhost'
    obtain rfl := Option.some.inj (Option.some.inj hhost')
    rw [hconn] at hconn'
    obtain rfl := Option.some.inj hconn'
    rw [hw] at hw'
    obtain rfl := Option.some.inj hw'
    exact habsent.2 _ hw ⟨r, hr', hid⟩
  · simp only [NeverAdmitted, not_forall, not_not] at hadmitted
    obtain ⟨g', b, hadmitted⟩ := hadmitted
    obtain ⟨-, id', m', hid', hto', hor⟩ := ht.admitted g' _ b hadmitted
    obtain rfl := Uuid.text_injective hid'
    obtain ⟨-, hsame⟩ := hto.unique hto'
    refine hor.resolve_right fun hreceipt => ?_
    rw [hreceipt h (by rw [← hsame, hwg, hhost])] at hnone
    cases hnone

theorem missed_step (ht : Transit log W) (hl : Linked W) (hn : W.gateway.Named)
    (he : Effect p c W W' es) {text : String} {generation : Uuid} {w' : Wire π}
    (hw' : W'.wires.lookup k = some w') (hmem : .missing text generation ∈ w'.up) :
    ∃ id, text = id.text ∧ Lost (log ++ es) W' id := by
  suffices h : ∃ id, text = id.text ∧ Lost log W id by
    obtain ⟨id, hid, hlost⟩ := h
    exact ⟨id, hid, hlost.step he hn⟩
  rcases he.wire_origin hw' with ⟨-, -, -, hu, -⟩ | ⟨w, hw, hfrom⟩
  · rw [hu] at hmem
    cases hmem
  · rcases hfrom.up _ hmem with hold | ⟨g, h, h', a, wires, frames, hes, conn, hhost, hr, hstep,
      hconn, rfl, hf, -⟩
    · exact ht.missed k w text generation hw hold
    · cases Daemon.effect_of_step hstep with
      | idle _ hsays =>
        cases hsays _ hf with
        | missing hnot =>
          cases hr with
          | alone hown => cases hown
          | receive hconn' hw₁ hdown =>
            exact ht.lost_of_recover hl hhost hconn' hw₁ (hdown ▸ List.mem_cons_self) hnot
      | accept _ _ _ _ hsays => cases hsays _ hf
      | start => cases hf
      | reject _ hsays => cases hsays _ hf
      | remove => cases hf
      | complete => cases hf
      | reply _ _ _ _ _ _ _ hsays => cases hsays _ hf
      | join => cases hf

/-- A receipt is removed when the acknowledgement for an ended job is read. -/
theorem receipt_step (ht : Transit log W) (he : Effect p c W W' es) {g : Uuid}
    (hg : g ∈ W.hosts) {h' : Daemon.Host π φ} (hh' : W'.hosts.lookup g = some (some h'))
    (hold : ∀ h, W.hosts.lookup g = some (some h) → h.receipts.contains id.text = true) :
    W.gateway.database.Ended id ∨ h'.receipts.contains id.text = true := by
  rcases he.host_origin hh' with ⟨hnew, -⟩ | ⟨h, hh, rfl | ⟨a, wires, frames, hes, hr, hstep, -⟩⟩
  · exact absurd hg hnew
  · exact Or.inr (hold h' hh)
  · refine ((Daemon.effect_of_step hstep).contains_or_acknowledge (hold h hh)).symm.imp_left ?_
    rintro ⟨full, rfl⟩
    cases hr with
    | alone hown => cases hown
    | receive _ hw hdown =>
      obtain ⟨id', hid, hended⟩ := ht.acknowledge _ _ _ _ hw (hdown ▸ List.mem_cons_self)
      rwa [Uuid.text_injective hid]

theorem admitted_step (ht : Transit log W) (hl : Linked W) (he : Effect p c W W' es) {g : Uuid}
    {text : String} {b : Bool} (hmem : .host (.admitted g text b) ∈ log ++ es) :
    g ∈ W'.hosts ∧ ∃ id m, text = id.text ∧ W'.gateway.database.DispatchedTo id m g ∧
      (W'.gateway.database.Ended id ∨
        ∀ h, W'.hosts.lookup g = some (some h) → h.receipts.contains text = true) := by
  obtain ⟨σs, hc⟩ := he.change
  rcases List.mem_append.mp hmem with hold | hnew
  · obtain ⟨hg, id, m, rfl, hto, hor⟩ := ht.admitted g text b hold
    refine ⟨he.host_remains hg, id, m, rfl, hto.change hc, ?_⟩
    rcases hor with hended | hreceipt
    · exact Or.inl (hended.change hc)
    · by_cases hended : W.gateway.database.Ended id
      · exact Or.inl (hended.change hc)
      · exact Or.inr fun h' hh' => (ht.receipt_step he hg hh' hreceipt).resolve_left hended
  · obtain ⟨generation, h, conn, w, r, hhost, rfl, hconn, hw, hr, rfl, hg', hreceipt⟩ :=
      he.admitted_origin hnew
    obtain ⟨hg, hconnection⟩ := hl.host generation h hhost
    obtain ⟨w₁, hw₁, hwg⟩ := hconnection conn hconn
    rw [hw] at hw₁
    obtain rfl := Option.some.inj hw₁
    obtain ⟨id, m, hid, hto⟩ := ht.request _ _ _ hw hr
    rw [hg]
    exact ⟨hg', id, m, hid, (hwg ▸ hto).change hc, Or.inr hreceipt⟩

theorem lost_step (ht : Transit log W) (hn : W.gateway.Named) (he : Effect p c W W' es)
    {σ : Gateway.Settlement} (hmem : .gateway (.settled σ) ∈ log ++ es)
    (hreports : σ.reports "receipt_missing") :
    W'.Dead σ.job ∧ NeverAdmitted (log ++ es) σ.job := by
  suffices h : W.Dead σ.job ∧ NeverAdmitted log σ.job from
    ⟨h.1.step he hn, h.2.step he h.1⟩
  rcases List.mem_append.mp hmem with hold | hnew
  · exact ht.lost σ hold hreports
  · rcases he.gateway_cases with ⟨-, hnone⟩ | ⟨a, wires, ges, -, hstep, rfl, -, -⟩
    · exact absurd hnew (hnone _)
    · have hsettled := mem_map_gateway.mp hnew
      have hge := Gateway.effect_of_step hstep
      cases hge.settlement_origin hsettled with
      | plain h => exact absurd hreports h.notMissing
      | answer _ _ _ _ _ _ _ _ hnone =>
        obtain ⟨error, herror, -⟩ := hreports
        rw [hnone] at herror
        cases herror
      | lost hs hmissing =>
        obtain ⟨hdead, hor⟩ := ht.missing _ _ _ hs hmissing
        exact ⟨hdead, hor.resolve_left (hge.not_ended_of_settled hsettled)⟩

omit [DecidableEq φ] in
theorem init : Transit ([] : List (Event π)) (World.init : World π φ) := by
  refine ⟨fun _ _ _ h => ?_, fun _ _ _ h => ?_, fun _ _ _ h => ?_, fun _ _ _ _ h => ?_,
    fun _ _ _ h => ?_, fun _ _ _ _ h => ?_, fun _ _ _ h => ?_, fun _ _ _ h => ?_,
    fun _ _ _ _ h => ?_, fun _ h => ?_⟩ <;> cases h

/-- Every step keeps what is said. -/
theorem step (ht : Transit log W) (hl : Linked W) (hn : W.gateway.Named)
    (he : Effect p c W W' es) : Transit (log ++ es) W' := by
  obtain ⟨σs, hc⟩ := he.change
  refine ⟨fun m s id hs hsends => ht.sending_step he hs hsends, fun k w r hw hr => ?_,
    fun m s id hs hid => ht.asking_step hl hn he hs hid, fun k w text g hw hr => ?_,
    fun m s id hs hid => ht.releasing_step he hs hid, fun k w text g hw hr => ?_,
    fun g text b h => ht.admitted_step hl he h, fun m s id hs hid => ht.missing_step hn he hs hid,
    fun k w text g hw h => ht.missed_step hl hn he hw h, fun σ h hσ => ht.lost_step hn he h hσ⟩
  · rcases he.frame_origin hl hw hr with ⟨w₀, hw₀, hg, hold⟩ |
      ⟨m, s, s', hs, rfl, hg, hspeaks⟩ | ⟨code, heq⟩
    · obtain ⟨id, m, hid, hto⟩ := ht.request k w₀ r hw₀ hold
      exact ⟨id, m, hid, hg ▸ hto.change hc⟩
    · cases hspeaks with
      | @request id _ hsending =>
        exact ⟨id, m, hn m s id r hs hsending,
          hg ▸ (ht.sending m s id hs ⟨r, hsending⟩).change hc⟩
    · cases heq
  · rcases he.frame_origin hl hw hr with ⟨w₀, hw₀, hg, hold⟩ |
      ⟨m, s, s', hs, rfl, hg, hspeaks⟩ | ⟨code, heq⟩
    · obtain ⟨hgen, id, m, htext, hto, habsent⟩ := ht.recover k w₀ text g hw₀ hold
      exact ⟨hgen.trans hg.symm, id, m, htext, hg ▸ hto.change hc,
        habsent.step he hn hto.dispatched⟩
    · cases hspeaks with
      | @recover id hid =>
        obtain ⟨hto, habsent⟩ := ht.asking m s id hs hid
        exact ⟨hg.symm, id, m, rfl, hg ▸ hto.change hc, habsent.step he hn hto.dispatched⟩
    · cases heq
  · rcases he.frame_origin hl hw hr with ⟨w₀, hw₀, hg, hold⟩ |
      ⟨m, s, s', hs, rfl, hg, hspeaks⟩ | ⟨code, heq⟩
    · obtain ⟨id, htext, hended⟩ := ht.acknowledge k w₀ text g hw₀ hold
      exact ⟨id, htext, hended.change hc⟩
    · cases hspeaks with
      | @acknowledge id hid => exact ⟨id, rfl, (ht.releasing m s id hs hid).change hc⟩
    · cases heq

end Transit

end

end ExecutionProvider.Recovery
