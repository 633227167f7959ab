import ExecutionProvider.Recovery.Answers

/-!
# What a host retains

A daemon asks for recovery in every hello, so that its sessions have it. Then a host starts a job
only with a receipt for it, and keeps the receipt, with the response once there is one, until the
job was settled. A job that is settled for a missing receipt was never started.

## Main definitions

* `Action.negotiates`: a hello asks for recovery.
* `recoverySystem`: the runs in which every hello does.
* `Retained`: sessions, connections and tasks have recovery, and what was started has a receipt.

## Main results

* `Retained.step`: every step keeps this.
* `missing_never_started`: a job that is settled for a missing receipt was never started.
* `outcome_retained`: the outcome of a job is kept until the job was settled.
-/

namespace ExecutionProvider.Recovery

open Protocol

variable {π φ : Type}

/-- Whether a hello asks for recovery, as that of the daemon does. -/
def Action.negotiates : Action π → Bool
  | .hello _ _ _ _ recovery => recovery
  | _ => true

/-- The runs of a gateway with its hosts in which every hello asks for recovery. -/
def recoverySystem [DecidableEq φ] (p : Gateway.Platform π) (c : Daemon.Codec π φ) :
    System (World π φ) (Action π) (Event π) where
  start W := W = .init
  step W a := if a.negotiates then W.step p c a else none

/-- Sessions, connections and tasks have recovery, and what was started has a receipt. -/
structure Retained (log : List (Event π)) (W : World π φ) : Prop where
  session : ∀ m s, W.gateway.live.lookup m = some s → s.recovery = true
  welcome : ∀ k w b, W.wires.lookup k = some w → .welcome b ∈ w.down → b = true
  connection : ∀ g h, W.hosts.lookup g = some (some h) → h.Recovers
  task : ∀ g h t, W.hosts.lookup g = some (some h) → t ∈ h.requests → t.reply = .receipt
  started : ∀ g text, .host (.started g text) ∈ log → ∃ b, .host (.admitted g text b) ∈ log
  finished : ∀ g text r, .host (.finished g text r) ∈ log → g ∈ W.hosts ∧
    ((∃ id, text = id.text ∧ W.gateway.database.Ended id) ∨
      ∀ h, W.hosts.lookup g = some (some h) → h.receipts.response text = some r)

section

variable [DecidableEq φ] {p : Gateway.Platform π} {c : Daemon.Codec π φ} {W W' : World π φ}
  {log es : List (Event π)} {a : Action π}

/-! ### Sessions -/

/-- A session after a step of the gateway negotiated what it did before, or was opened by a
hello. -/
theorem recovery_of_gateway_step {g g' : Gateway.AppState π} {b : Gateway.Action}
    {ges : List (Gateway.Event π)} (h : g.step p b = some (g', ges)) {m : Uuid}
    {s' : Gateway.Session π} (hs' : g'.live.lookup m = some s') :
    (∃ s, g.live.lookup m = some s ∧ s'.recovery = s.recovery) ∨
      ∃ connection hello, b = .hello connection hello ∧ s'.recovery = hello.requestRecovery := by
  cases (Gateway.effect_of_step h).session_origin hs' with
  | kept hs hw => exact Or.inl ⟨_, hs, hw.recovery⟩
  | opened hb _ _ _ _ heq => exact Or.inr ⟨_, _, hb, heq ▸ rfl⟩
  | surveyed hs _ heq => exact Or.inl ⟨_, hs, heq ▸ rfl⟩
  | dispatched hs _ _ _ _ _ _ _ heq => exact Or.inl ⟨_, hs, heq ▸ rfl⟩
  | responded hs _ _ heq => exact Or.inl ⟨_, hs, heq ▸ rfl⟩
  | missed _ hs _ _ heq => exact Or.inl ⟨_, hs, heq ▸ rfl⟩

/-- What the gateway does in a step of the world; a hello is that of the host. -/
theorem gateway_of_step (h : W.step p c a = some (W', es)) :
    W'.gateway = W.gateway ∨ ∃ b ges, W.gateway.step p b = some (W'.gateway, ges) ∧
      ∀ connection hello, b = .hello connection hello → hello.requestRecovery = a.negotiates := by
  have hgateway {b : Gateway.Action} {wires : Table Uuid (Wire π)}
      (hs : W.gatewayStep p wires b = some (W', es)) :
      ∃ ges, W.gateway.step p b = some (W'.gateway, ges) := by
    obtain ⟨r, hstep, heq⟩ := Option.map_eq_some_iff.mp hs
    obtain ⟨rfl, rfl⟩ := Prod.mk.inj heq
    exact ⟨_, hstep⟩
  have hhost {g : Uuid} {x : Daemon.Host π φ} {wires : Table Uuid (Wire π)} {b : Daemon.Action π}
      (hs : W.hostStep c g x wires b = some (W', es)) : W'.gateway = W.gateway := by
    obtain ⟨r, -, heq⟩ := Option.map_eq_some_iff.mp hs
    obtain ⟨rfl, rfl⟩ := Prod.mk.inj heq
    rfl
  cases a with
  | gateway b =>
    simp only [World.step] at h
    split_ifs at h with halone
    obtain ⟨ges, hstep⟩ := hgateway h
    refine Or.inr ⟨b, ges, hstep, ?_⟩
    rintro connection hello rfl
    cases halone
  | start generation =>
    simp only [World.step] at h
    split_ifs at h
    obtain ⟨rfl, rfl⟩ := Prod.mk.inj (Option.some.inj h)
    exact Or.inl rfl
  | stop generation =>
    obtain ⟨rfl, rfl⟩ := Prod.mk.inj (Option.some.inj h)
    exact Or.inl rfl
  | host generation b =>
    simp only [World.step] at h
    split at h
    · cases h
    · split_ifs at h
      exact Or.inl (hhost h)
  | dial connection generation =>
    simp only [World.step, World.dial] at h
    split at h
    · cases h
    · split_ifs at h
      exact Or.inl (hhost h)
  | upgrade connection machine credential =>
    simp only [World.step, World.upgrade] at h
    split at h
    · cases h
    · split_ifs at h
      obtain ⟨ges, hstep⟩ := hgateway h
      exact Or.inr ⟨_, ges, hstep, fun _ _ heq => by cases heq⟩
  | hello connection protocolVersion installation host recovery =>
    simp only [World.step, World.hello] at h
    split at h
    · cases h
    · obtain ⟨ges, hstep⟩ := hgateway h
      refine Or.inr ⟨_, ges, hstep, ?_⟩
      rintro connection' hello heq
      obtain ⟨-, rfl⟩ := Gateway.Action.hello.inj heq
      rfl
  | read machine event =>
    simp only [World.step, World.read] at h
    split at h
    · cases h
    · split at h
      · obtain ⟨ges, hstep⟩ := hgateway h
        exact Or.inr ⟨_, ges, hstep, fun _ _ heq => by cases heq⟩
      · cases h
  | receive generation full =>
    simp only [World.step, World.receive] at h
    split at h
    · cases h
    · split at h
      · cases h
      · split at h
        · exact Or.inl (hhost h)
        · cases h
  | lose connection down up =>
    obtain ⟨rfl, rfl⟩ := Prod.mk.inj (Option.some.inj h)
    exact Or.inl rfl

/-! ### Every step -/

namespace Retained

theorem session_step (hi : Retained log W) (h : W.step p c a = some (W', es))
    (hneg : a.negotiates = true) {m : Uuid} {s' : Gateway.Session π}
    (hs' : W'.gateway.live.lookup m = some s') : s'.recovery = true := by
  rcases gateway_of_step h with hsame | ⟨b, ges, hstep, hhello⟩
  · exact hi.session m s' (hsame ▸ hs')
  · rcases recovery_of_gateway_step hstep hs' with ⟨s, hs, heq⟩ | ⟨connection, hello, rfl, heq⟩
    · exact heq.trans (hi.session m s hs)
    · exact heq.trans ((hhello connection hello rfl).trans hneg)

theorem welcome_step (hi : Retained log W) (hl : Linked W) (he : Effect p c W W' es) {k : Uuid}
    {w' : Wire π} {b : Bool} (hw' : W'.wires.lookup k = some w')
    (hmem : .welcome b ∈ w'.down) : b = true := by
  rcases he.frame_origin hl hw' hmem with ⟨w, hw, -, hold⟩ | ⟨m, s, s', hs, -, -, hspeaks⟩ |
    ⟨code, heq⟩
  · exact hi.welcome k w b hw hold
  · cases hspeaks with
    | welcome => exact hi.session m s hs
  · cases heq

omit [DecidableEq φ] in
/-- A host is only ever welcomed with recovery. -/
theorem welcomed (hi : Retained log W) {g : Uuid} {h : Daemon.Host π φ} {b full : Bool}
    {x : Daemon.Action π} {wires : Table Uuid (Wire π)} (hr : HostReads W g h x wires)
    (hx : x = .receive (.welcome b) full) : b = true := by
  subst hx
  cases hr with
  | alone hown => cases hown
  | receive _ hw hdown => exact hi.welcome _ _ b hw (hdown ▸ List.mem_cons_self)

theorem connection_step (hi : Retained log W) (he : Effect p c W W' es) {g : Uuid}
    {h' : Daemon.Host π φ} (hh' : W'.hosts.lookup g = some (some h')) : h'.Recovers := by
  rcases he.host_origin hh' with ⟨-, rfl⟩ | ⟨h, hh, rfl | ⟨x, wires, frames, hes, hr, hstep, -⟩⟩
  · intro conn hconn
    cases hconn
  · exact hi.connection g h' hh
  · exact (hi.connection g h hh).step hstep fun b full hx => hi.welcomed hr hx

theorem task_step (hi : Retained log W) (he : Effect p c W W' es) {g : Uuid}
    {h' : Daemon.Host π φ} {t : Daemon.Task π} (hh' : W'.hosts.lookup g = some (some h'))
    (hmem : t ∈ h'.requests) : t.reply = .receipt := by
  rcases he.host_origin hh' with ⟨-, rfl⟩ | ⟨h, hh, rfl | ⟨x, wires, frames, hes, hr, hstep, -⟩⟩
  · cases hmem
  · exact hi.task g h' t hh hmem
  · cases Daemon.effect_of_step hstep with
    | idle hs => exact hi.task g h t hh (hs.requests ▸ hmem)
    | accept _ _ _ hq =>
      rw [hq] at hmem
      rcases List.mem_append.mp hmem with hold | hlast
      · exact hi.task g h t hh hold
      · rw [List.mem_singleton.mp hlast]
    | start _ _ hq => exact absurd hq (Daemon.not_start_of_step (hi.connection g h hh) hstep _)
    | reject hs => exact hi.task g h t hh (hs.requests ▸ hmem)
    | remove _ _ _ hq => exact hi.task g h t hh (hq ▸ hmem)
    | complete hget _ hreply _ _ _ hq =>
      rw [hq] at hmem
      rcases List.mem_or_eq_of_mem_set hmem with hold | rfl
      · exact hi.task g h t hh hold
      · exact hreply
    | reply hget _ hreply _ _ _ hq =>
      have hreceipt := hi.task g h _ hh (List.mem_of_getElem? hget)
      rw [hreply] at hreceipt
      cases hreceipt
    | join _ _ _ _ hq =>
      rw [hq] at hmem
      exact hi.task g h t hh (List.mem_of_mem_eraseIdx hmem)

theorem started_step (hi : Retained log W) (he : Effect p c W W' es) {g : Uuid} {text : String}
    (hmem : .host (.started g text) ∈ log ++ es) : ∃ b, .host (.admitted g text b) ∈ log ++ es := by
  rcases List.mem_append.mp hmem with hold | hnew
  · obtain ⟨b, hb⟩ := hi.started g text hold
    exact ⟨b, List.mem_append_left _ hb⟩
  · cases he with
    | gateway => simp at hnew
    | start => cases hnew
    | stop => cases hnew
    | lose => cases hnew
    | host hhost hr hstep =>
      obtain ⟨e, hemem, heq⟩ := List.mem_map.mp hnew
      obtain rfl := Event.host.inj heq
      cases Daemon.effect_of_step hstep with
      | accept =>
        obtain ⟨rfl, rfl⟩ : g = _ ∧ text = _ := by simpa using hemem
        exact ⟨_, List.mem_append_right _ (List.mem_map_of_mem List.mem_cons_self)⟩
      | start _ _ hq =>
        exact absurd hq (Daemon.not_start_of_step (hi.connection _ _ hhost) hstep _)
      | idle | reject | remove | complete | reply | join => simp at hemem

/-- An outcome stays in its receipt until the acknowledgement for an ended job is read. -/
theorem response_step (ht : Transit log W) (hl : Linked W) (he : Effect p c W W' es) {g : Uuid}
    {text : String} {r : Response}
    (honce : ∀ r', .host (.finished g text r') ∉ es) {h h' : Daemon.Host π φ}
    (hh : W.hosts.lookup g = some (some h)) (hh' : W'.hosts.lookup g = some (some h'))
    (hr : h.receipts.response text = some r) :
    (∃ id, text = id.text ∧ W.gateway.database.Ended id) ∨
      h'.receipts.response text = some r := by
  rcases he.host_origin hh' with ⟨hnew, -⟩ | ⟨h₁, hh₁, rfl | ⟨x, wires, frames, hes, hreads, hstep,
    rfl, -⟩⟩
  · exact absurd (Table.mem_of_lookup hh) hnew
  · rw [hh] at hh₁
    obtain rfl := Option.some.inj (Option.some.inj hh₁)
    exact Or.inr hr
  · rw [hh] at hh₁
    obtain rfl := Option.some.inj (Option.some.inj hh₁)
    rcases (Daemon.effect_of_step hstep).response_kept hr with hkept | ⟨full, rfl⟩ | ⟨r', hdone⟩
    · exact Or.inr hkept
    · cases hreads with
      | alone hown => cases hown
      | receive _ hw hdown =>
        exact Or.inl (ht.acknowledge _ _ _ _ hw (hdown ▸ List.mem_cons_self))
    · rw [(hl.host g h hh).1] at hdone
      exact absurd (List.mem_map_of_mem hdone) (honce r')

theorem finished_step (hi : Retained log W) (hs : Sound log W) (he : Effect p c W W' es)
    (honce : ∀ id, completions id (log ++ es) ≤ 1) {g : Uuid} {text : String} {r : Response}
    (hmem : .host (.finished g text r) ∈ log ++ es) : g ∈ W'.hosts ∧
    ((∃ id, text = id.text ∧ W'.gateway.database.Ended id) ∨
      ∀ h, W'.hosts.lookup g = some (some h) → h.receipts.response text = some r) := by
  obtain ⟨σs, hc⟩ := he.change
  rcases List.mem_append.mp hmem with hold | hnew
  · obtain ⟨hg, hor⟩ := hi.finished g text r hold
    obtain ⟨-, id, -, rfl, -⟩ := hs.answered.named g text r ⟨_, hold, .finished⟩
    have hnot (r' : Response) : .host (.finished g id.text r') ∉ es := by
      intro hagain
      have hlog : 0 < occurrences (completesJob id) log :=
        List.countP_pos_iff.mpr ⟨_, mem_hostLog.mpr hold, by simp [completesJob]⟩
      have hes : 0 < occurrences (completesJob id) es :=
        List.countP_pos_iff.mpr ⟨_, mem_hostLog.mpr hagain, by simp [completesJob]⟩
      have hle := honce id
      rw [completions, occurrences_append] at hle
      omega
    refine ⟨he.host_remains hg, ?_⟩
    by_cases hended : ∃ id', id.text = id'.text ∧ W.gateway.database.Ended id'
    · obtain ⟨id', hid, hended⟩ := hended
      exact Or.inl ⟨id', hid, hended.change hc⟩
    · refine Or.inr fun h' hh' => ?_
      rcases he.host_origin hh' with ⟨hfresh, -⟩ | ⟨h, hh, -⟩
      · exact absurd hg hfresh
      · exact (response_step hs.transit hs.linked he hnot hh hh'
          (hor.resolve_left hended h hh)).resolve_left hended
  · cases he with
    | gateway => simp at hnew
    | start => cases hnew
    | stop => cases hnew
    | lose => cases hnew
    | @host generation h h' x wires frames hes hhost hr hstep hg hh hw =>
      have hgeneration := (hs.linked.host generation h hhost).1
      obtain ⟨e, hemem, heq⟩ := List.mem_map.mp hnew
      obtain rfl := Event.host.inj heq
      cases Daemon.effect_of_step hstep with
      | @complete i result lost task response hget _ _ _ _ hcomplete =>
        obtain ⟨rfl, rfl, rfl⟩ : g = h.generation ∧ text = task.request.requestId ∧
            r = response := by
          simpa using hemem
        rw [hgeneration]
        refine ⟨hh ▸ Table.mem_modify.mpr (Table.mem_of_lookup hhost), Or.inr fun x hx => ?_⟩
        rw [hh, Table.lookup_modify, hhost] at hx
        obtain rfl := Option.some.inj (Option.some.inj hx)
        exact Daemon.Receipts.response_complete hcomplete
      | reply hget _ hreply =>
        have hreceipt := hi.task generation h _ hhost (List.mem_of_getElem? hget)
        rw [hreply] at hreceipt
        cases hreceipt
      | idle | accept | start | reject | remove | join => simp at hemem

omit [DecidableEq φ] in
theorem init : Retained ([] : List (Event π)) (World.init : World π φ) := by
  refine ⟨fun _ _ h => ?_, fun _ _ _ h => ?_, fun _ _ h => ?_, fun _ _ _ h => ?_,
    fun _ _ h => ?_, fun _ _ _ h => ?_⟩ <;> cases h

/-- Every step keeps this, when a hello asks for recovery. -/
theorem step (hi : Retained log W) (hs : Sound log W) (h : W.step p c a = some (W', es))
    (hneg : a.negotiates = true) (honce : ∀ id, completions id (log ++ es) ≤ 1) :
    Retained (log ++ es) W' :=
  ⟨fun _ _ hs' => hi.session_step h hneg hs',
    fun _ _ _ hw hmem => hi.welcome_step hs.linked (effect_of_step h) hw hmem,
    fun _ _ hh => hi.connection_step (effect_of_step h) hh,
    fun _ _ _ hh hmem => hi.task_step (effect_of_step h) hh hmem,
    fun _ _ hmem => hi.started_step (effect_of_step h) hmem,
    fun _ _ _ hmem => hi.finished_step hs (effect_of_step h) honce hmem⟩

end Retained

/-! ### Runs with recovery -/

/-- A run in which every hello asks for recovery is a run. -/
theorem run_of_recovery (h : (recoverySystem p c).Run log W) : (worldSystem p c).Run log W := by
  refine h.invariant (I := fun log W => (worldSystem p c).Run log W) ?_ ?_
  · rintro _ rfl
    exact .start rfl
  · intro log W a W' es _ ih hstep
    simp only [recoverySystem, Option.ite_none_right_eq_some] at hstep
    exact ih.tail hstep.2

theorem completions_le_one (h : (worldSystem p c).Run log W) (id : Uuid) :
    completions id log ≤ 1 := by
  have hflow := flow_of_run id h
  have hsent := hflow.sent
  have hstarted := hflow.started
  have honce : requestsSent id log ≤ 1 := (Gateway.credit_of_run id (gateway_run h)).2.once
  omega

theorem retained_of_run (h : (recoverySystem p c).Run log W) : Retained log W := by
  refine h.invariant (I := fun log W => Retained log W) ?_ ?_
  · rintro _ rfl
    exact .init
  · intro log W a W' es hrun ih hstep
    have hnext := run_of_recovery (hrun.tail hstep)
    simp only [recoverySystem, Option.ite_none_right_eq_some] at hstep
    exact ih.step (sound_of_run (run_of_recovery hrun)) hstep.2 hstep.1
      (completions_le_one hnext)

/-- **A missing receipt means that nothing ran.** When all sessions have recovery, a job that the
gateway settles for a missing receipt is started by no host, neither before nor after that. -/
theorem missing_never_started (hrun : (recoverySystem p c).Run log W) {σ : Gateway.Settlement}
    (hσ : .gateway (.settled σ) ∈ log) (hmissing : σ.reports "receipt_missing") (g : Uuid) :
    .host (.started g σ.job.text) ∉ log := by
  intro hstarted
  obtain ⟨b, hadmitted⟩ := (retained_of_run hrun).started g _ hstarted
  exact ((sound_of_run (run_of_recovery hrun)).transit.lost σ hσ hmissing).2 g b hadmitted

/-- **No outcome is lost.** When all sessions have recovery, a job that a host has started, and
that the gateway has not settled, has a receipt at this host while its process lives, with the
outcome once there is one. -/
theorem outcome_retained (hrun : (recoverySystem p c).Run log W) {g id : Uuid}
    (hstarted : .host (.started g id.text) ∈ log)
    (hopen : ∀ σ, .gateway (.settled σ) ∈ log → σ.job ≠ id) {h : Daemon.Host π φ}
    (hh : W.hosts.lookup g = some (some h)) :
    h.receipts.contains id.text = true ∧
      ∀ r, .host (.finished g id.text r) ∈ log → h.receipts.response id.text = some r := by
  have hsound := sound_of_run (run_of_recovery hrun)
  have hnot (id' : Uuid) (hid : id.text = id'.text) : ¬W.gateway.database.Ended id' := by
    rintro hended
    obtain ⟨σ, hσ, rfl⟩ := settled_of_ended (run_of_recovery hrun) hended
    exact hopen σ hσ (Uuid.text_injective hid.symm)
  obtain ⟨b, hadmitted⟩ := (retained_of_run hrun).started g _ hstarted
  obtain ⟨-, id', m, hid, -, hor⟩ := hsound.transit.admitted g _ b hadmitted
  refine ⟨hor.resolve_left (hnot id' hid) h hh, fun r hfinished => ?_⟩
  obtain ⟨-, hor'⟩ := (retained_of_run hrun).finished g _ r hfinished
  refine hor'.resolve_left ?_ h hh
  rintro ⟨id', hid, hended⟩
  exact hnot id' hid hended

/-- The request of job 5 is lost with its connection. On the next one the gateway asks for the
receipt, and settles the job since there is none. -/
def lossActions : List (Action Unit) :=
  startActions.take 3 ++
    [.lose (.numbered 4) 0 0, .host (.numbered 3) .disconnect,
      .gateway (.session (.numbered 2) .fail)] ++
    List.replicate 2 (.gateway (.session (.numbered 2) (.proceed (.numbered 0) false))) ++
    [.dial (.numbered 6) (.numbered 3), .upgrade (.numbered 6) (.numbered 2) "credential",
      .hello (.numbered 6) 5 (.numbered 0) (.numbered 2) true] ++
    List.replicate 4 (.gateway (.session (.numbered 2) (.proceed (.numbered 0) false))) ++
    [.receive (.numbered 3) false,
      .gateway (.session (.numbered 2) (.dispatch (.numbered 0) false [])),
      .receive (.numbered 3) false, .read (.numbered 2) (.numbered 8),
      .gateway (.session (.numbered 2) (.proceed (.numbered 9) false))]

/-- Whether a job is settled for a missing receipt. -/
def Event.misses : Event π → Bool
  | .gateway (.settled σ) => (σ.error.bind fun e => (e.get "code").bind Json.asStr) =
      some "receipt_missing"
  | _ => false

theorem Event.exists_of_misses {e : Event π} (h : e.misses = true) :
    ∃ σ, e = .gateway (.settled σ) ∧ σ.reports "receipt_missing" := by
  unfold Event.misses at h
  split at h
  · next σ =>
    obtain ⟨error, herror, hcode⟩ := Option.bind_eq_some_iff.mp (of_decide_eq_true h)
    obtain ⟨v, hv, hstr⟩ := Option.bind_eq_some_iff.mp hcode
    cases v with
    | str s =>
      obtain rfl := Option.some.inj hstr
      exact ⟨σ, rfl, error, herror, hv⟩
    | _ => cases hstr
  · cases h

/-- A job whose request was lost never starts. -/
theorem missing_never_started_lost :
    ∃ (log : List (Event Unit)) (W : World Unit Unit) (σ : Gateway.Settlement),
      (recoverySystem Gateway.plainPlatform plainCodec).Run log W ∧
        .gateway (.settled σ) ∈ log ∧ σ.reports "receipt_missing" ∧
        ∀ g, .host (.started g σ.job.text) ∉ log := by
  obtain ⟨r, hr⟩ : ∃ r, (recoverySystem Gateway.plainPlatform plainCodec).exec .init
      (connectActions ++ lossActions) = some r := ⟨_, rfl⟩
  have hdone : ((recoverySystem Gateway.plainPlatform plainCodec).exec .init
      (connectActions ++ lossActions)).any (fun r => r.2.any Event.misses) = true := by
    decide
  rw [hr, Option.any_some, List.any_eq_true] at hdone
  obtain ⟨e, hmem, he⟩ := hdone
  obtain ⟨σ, rfl, hreports⟩ := Event.exists_of_misses he
  have hrun : (recoverySystem Gateway.plainPlatform plainCodec).Run r.2 r.1 :=
    ⟨_, rfl, .of_exec hr⟩
  exact ⟨r.2, r.1, σ, hrun, hmem, hreports, missing_never_started hrun hmem hreports⟩

/-- Whether nothing is settled. -/
def Event.unsettling : Event π → Bool
  | .gateway (.settled _) => false
  | _ => true

/-- Whether a host starts a job. -/
def Event.startsAt (g id : Uuid) : Event π → Bool
  | .host (.started g' text) => g' = g && text = id.text
  | _ => false

/-- Whether a host is done with a job. -/
def Event.finishesAt (g id : Uuid) : Event π → Bool
  | .host (.finished g' text _) => g' = g && text = id.text
  | _ => false

theorem Event.eq_of_startsAt {g id : Uuid} {e : Event π} (h : e.startsAt g id = true) :
    e = .host (.started g id.text) := by
  unfold Event.startsAt at h
  split at h
  · simp only [Bool.and_eq_true, decide_eq_true_eq] at h
    rw [h.1, h.2]
  · cases h

theorem Event.exists_of_finishesAt {g id : Uuid} {e : Event π} (h : e.finishesAt g id = true) :
    ∃ r, e = .host (.finished g id.text r) := by
  unfold Event.finishesAt at h
  split at h
  · simp only [Bool.and_eq_true, decide_eq_true_eq] at h
    exact ⟨_, by rw [h.1, h.2]⟩
  · cases h

/-- The outcome of job 5 is kept before it is sent. -/
theorem outcome_retained_finished :
    ∃ (log : List (Event Unit)) (W : World Unit Unit) (h : Daemon.Host Unit Unit) (r : Response),
      (recoverySystem Gateway.plainPlatform plainCodec).Run log W ∧
        W.hosts.lookup (.numbered 3) = some (some h) ∧
        .host (.finished (.numbered 3) (Uuid.numbered 5).text r) ∈ log ∧
        h.receipts.response (Uuid.numbered 5).text = some r := by
  obtain ⟨x, hx⟩ : ∃ x, (recoverySystem Gateway.plainPlatform plainCodec).exec .init
      (connectActions ++ startActions ++ answerActions.take 1) = some x := ⟨_, rfl⟩
  have hdone : ((recoverySystem Gateway.plainPlatform plainCodec).exec .init
      (connectActions ++ startActions ++ answerActions.take 1)).any (fun x =>
        x.2.all Event.unsettling && (x.1.host (.numbered 3)).isSome &&
          x.2.any (Event.startsAt (.numbered 3) (.numbered 5)) &&
          x.2.any (Event.finishesAt (.numbered 3) (.numbered 5))) = true := by
    decide
  rw [hx, Option.any_some] at hdone
  simp only [Bool.and_eq_true, List.all_eq_true, List.any_eq_true] at hdone
  obtain ⟨⟨⟨hopen, hhost⟩, e, hstarted, he⟩, e', hfinished, he'⟩ := hdone
  obtain rfl := Event.eq_of_startsAt he
  obtain ⟨r, rfl⟩ := Event.exists_of_finishesAt he'
  obtain ⟨h, hh⟩ := Option.isSome_iff_exists.mp hhost
  have hrun : (recoverySystem Gateway.plainPlatform plainCodec).Run x.2 x.1 :=
    ⟨_, rfl, .of_exec hx⟩
  have hunsettled (σ : Gateway.Settlement) (hσ : .gateway (.settled σ) ∈ x.2) :
      σ.job ≠ .numbered 5 := by
    have hfalse := hopen _ hσ
    cases hfalse
  have hlookup := World.lookup_of_host hh
  obtain ⟨-, hkept⟩ := outcome_retained hrun hstarted hunsettled hlookup
  exact ⟨x.2, x.1, h, r, hrun, hlookup, hfinished, hkept r hfinished⟩

end

end ExecutionProvider.Recovery
