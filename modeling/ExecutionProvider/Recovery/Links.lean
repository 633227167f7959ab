import ExecutionProvider.Recovery.World

/-!
# Sessions, hosts and their connections

A session has a connection of its own, with the host of its generation at the other end, and
nothing was sent on it while the session is fresh. A host reads the connection that it has opened
last.

## Main definitions

* `Wire.From`: what a connection carries after a step.
* `Linked`: sessions, handshakes and hosts have the connections that they should have.

## Main results

* `Effect.wire_origin`, `Effect.host_origin`: where the frames of a connection and the state of a
  host come from.
* `Linked.step`: every step keeps the links.
-/

namespace ExecutionProvider.Recovery

open Protocol

variable {π φ : Type}

/-! ### What a connection carries -/

/-- A connection after a step carries what it has carried, what the gateway has sent and what the
host has said. -/
structure Wire.From (w' w : Wire π) (sent : GatewayMessage π → Prop) (said : HostMessage → Prop) :
    Prop where
  generation : w'.generation = w.generation
  taken : w.taken = true → w'.taken = true
  down : ∀ f ∈ w'.down, f ∈ w.down ∨ sent f
  up : ∀ f ∈ w'.up, f ∈ w.up ∨ said f

/-- A host says something on a connection in a step. -/
def HostSays [DecidableEq φ] (c : Daemon.Codec π φ) (W : World π φ) (connection : Uuid)
    (es : List (Event π)) (f : HostMessage) : Prop :=
  ∃ generation h h' a wires frames hes conn, W.hosts.lookup generation = some (some h) ∧
    HostReads W generation h a wires ∧ Daemon.Host.step c h a = some (h', frames, hes) ∧
    h.connection = some conn ∧ conn.id = connection ∧ f ∈ frames ∧ es = hes.map .host

section

variable {wires : Table Uuid (Wire π)} {k : Uuid} {w w' : Wire π}

theorem Wire.From.refl {sent : GatewayMessage π → Prop} {said : HostMessage → Prop}
    (w : Wire π) : w.From w sent said :=
  ⟨rfl, id, fun _ h => Or.inl h, fun _ h => Or.inl h⟩

/-- What a connection carries after frames were sent. -/
theorem lookup_deliver {es : List (Gateway.Event π)}
    (h : (deliver wires es).lookup k = some w') :
    ∃ w, wires.lookup k = some w ∧ w'.generation = w.generation ∧ w'.taken = w.taken ∧
      w'.up = w.up ∧ ∀ f ∈ w'.down, f ∈ w.down ∨ .sent k f ∈ es := by
  induction es generalizing wires with
  | nil => exact ⟨w', h, rfl, rfl, rfl, fun f hf => Or.inl hf⟩
  | cons e es ih =>
    cases e with
    | settled σ =>
      obtain ⟨w, hw, hg, ht, hu, hd⟩ := ih h
      exact ⟨w, hw, hg, ht, hu, fun f hf => (hd f hf).imp id (List.mem_cons_of_mem _)⟩
    | sent connection frame =>
      obtain ⟨w₁, hw₁, hg, ht, hu, hd⟩ := ih h
      rcases eq_or_ne k connection with rfl | hne
      · rw [Table.lookup_modify] at hw₁
        obtain ⟨w, hw, rfl⟩ := Option.map_eq_some_iff.mp hw₁
        refine ⟨w, hw, hg, ht, hu, fun f hf => ?_⟩
        rcases hd f hf with hold | hnew
        · rcases List.mem_append.mp hold with hold | hlast
          · exact Or.inl hold
          · rw [List.mem_singleton.mp hlast]
            exact Or.inr List.mem_cons_self
        · exact Or.inr (List.mem_cons_of_mem _ hnew)
      · rw [Table.lookup_modify_of_ne hne] at hw₁
        exact ⟨w₁, hw₁, hg, ht, hu, fun f hf => (hd f hf).imp id (List.mem_cons_of_mem _)⟩

/-- What a connection carries after a host has sent frames. -/
theorem lookup_emit {connection : Option Daemon.Connection} {frames : List HostMessage}
    (h : (emit wires connection frames).lookup k = some w') :
    ∃ w, wires.lookup k = some w ∧ w'.generation = w.generation ∧ w'.taken = w.taken ∧
      w'.down = w.down ∧ ∀ f ∈ w'.up, f ∈ w.up ∨
        ∃ conn, connection = some conn ∧ conn.id = k ∧ f ∈ frames := by
  cases connection with
  | none => exact ⟨w', h, rfl, rfl, rfl, fun f hf => Or.inl hf⟩
  | some conn =>
    rcases eq_or_ne k conn.id with rfl | hne
    · rw [emit, Table.lookup_modify] at h
      obtain ⟨w, hw, rfl⟩ := Option.map_eq_some_iff.mp h
      refine ⟨w, hw, rfl, rfl, rfl, fun f hf => ?_⟩
      exact (List.mem_append.mp hf).imp id fun hnew => ⟨conn, rfl, rfl, hnew⟩
    · rw [emit, Table.lookup_modify_of_ne hne] at h
      exact ⟨w', h, rfl, rfl, rfl, fun f hf => Or.inl hf⟩

theorem mem_deliver {es : List (Gateway.Event π)} : k ∈ deliver wires es ↔ k ∈ wires := by
  induction es generalizing wires with
  | nil => exact Iff.rfl
  | cons e es ih =>
    cases e with
    | settled σ => exact ih
    | sent connection frame => exact ih.trans Table.mem_modify

theorem mem_emit {connection : Option Daemon.Connection} {frames : List HostMessage} :
    k ∈ emit wires connection frames ↔ k ∈ wires := by
  cases connection with
  | none => exact Iff.rfl
  | some conn => exact Table.mem_modify

end

/-! ### Origins -/

section

variable {W W' : World π φ} {wires : Table Uuid (Wire π)} {k : Uuid} {w w' : Wire π}

/-- What a gateway reads leaves the connections as they are, but for what it has read. -/
theorem GatewayReads.lookup {a : Gateway.Action} (h : GatewayReads W a wires)
    (hw' : wires.lookup k = some w') : ∃ w, W.wires.lookup k = some w ∧
      w'.generation = w.generation ∧ (w.taken = true → w'.taken = true) ∧ w'.down = w.down ∧
      (∀ f ∈ w'.up, f ∈ w.up) ∧
      (w'.taken = true → w.taken = true ∨
        ∃ machine credential, a = .upgrade k machine credential) := by
  cases h with
  | alone => exact ⟨w', hw', rfl, id, rfl, fun _ h => h, Or.inl⟩
  | @upgrade connection machine credential w hw hnew =>
    rcases eq_or_ne k connection with rfl | hne
    · rw [Table.lookup_modify] at hw'
      obtain ⟨w, hw, rfl⟩ := Option.map_eq_some_iff.mp hw'
      exact ⟨w, hw, rfl, fun _ => rfl, rfl, fun _ h => h, fun _ => Or.inr ⟨_, _, rfl⟩⟩
    · rw [Table.lookup_modify_of_ne hne] at hw'
      exact ⟨w', hw', rfl, id, rfl, fun _ h => h, Or.inl⟩
  | hello => exact ⟨w', hw', rfl, id, rfl, fun _ h => h, Or.inl⟩
  | @read machine event s w frame up hs hw hup =>
    rcases eq_or_ne k s.id with rfl | hne
    · rw [Table.lookup_modify, hw] at hw'
      obtain rfl := Option.some.inj hw'
      exact ⟨w, hw, rfl, id, rfl, fun f hf => hup ▸ List.mem_cons_of_mem _ hf, Or.inl⟩
    · rw [Table.lookup_modify_of_ne hne] at hw'
      exact ⟨w', hw', rfl, id, rfl, fun _ h => h, Or.inl⟩

/-- What a host reads leaves the connections as they are, but for what it has read, and the
connection that it has opened. -/
theorem HostReads.lookup {generation : Uuid} {h : Daemon.Host π φ} {a : Daemon.Action π}
    (hr : HostReads W generation h a wires) (hw' : wires.lookup k = some w') :
    (k ∉ W.wires ∧ a = .connect k ∧ w' = ⟨generation, false, [], []⟩) ∨
    ∃ w, W.wires.lookup k = some w ∧ w'.generation = w.generation ∧ w'.taken = w.taken ∧
      (∀ f ∈ w'.down, f ∈ w.down) ∧ w'.up = w.up := by
  cases hr with
  | alone => exact Or.inr ⟨w', hw', rfl, rfl, fun _ h => h, rfl⟩
  | @dial connection hnew =>
    rcases eq_or_ne k connection with rfl | hne
    · rw [AList.lookup_insert] at hw'
      exact Or.inl ⟨hnew, rfl, (Option.some.inj hw').symm⟩
    · rw [AList.lookup_insert_ne hne] at hw'
      exact Or.inr ⟨w', hw', rfl, rfl, fun _ h => h, rfl⟩
  | @receive connection w frame full down hconnection hw hdown =>
    rcases eq_or_ne k connection.id with rfl | hne
    · rw [Table.lookup_modify, hw] at hw'
      obtain rfl := Option.some.inj hw'
      exact Or.inr ⟨w, hw, rfl, rfl, fun f hf => hdown ▸ List.mem_cons_of_mem _ hf, rfl⟩
    · rw [Table.lookup_modify_of_ne hne] at hw'
      exact Or.inr ⟨w', hw', rfl, rfl, fun _ h => h, rfl⟩

variable [DecidableEq φ] {p : Gateway.Platform π} {c : Daemon.Codec π φ} {es : List (Event π)}

theorem mem_map_gateway {e : Gateway.Event π} {es : List (Gateway.Event π)} :
    .gateway e ∈ es.map Event.gateway ↔ e ∈ es := by
  rw [← mem_gatewayLog, gatewayLog_map_gateway]

/-- Where the frames of a connection come from. -/
theorem Effect.wire_origin (he : Effect p c W W' es) (hw' : W'.wires.lookup k = some w') :
    (k ∉ W.wires ∧ w'.taken = false ∧ w'.down = [] ∧ w'.up = [] ∧
      ∃ h' : Daemon.Host π φ, W'.hosts.lookup w'.generation = some (some h')) ∨
    ∃ w, W.wires.lookup k = some w ∧
      w'.From w (fun f => .gateway (.sent k f) ∈ es) (HostSays c W k es) := by
  cases he with
  | gateway hr _ _ hw =>
    rw [hw] at hw'
    obtain ⟨w₁, hw₁, hg, ht, hu, hd⟩ := lookup_deliver hw'
    obtain ⟨w, hlookup, hg₁, ht₁, hd₁, hu₁, -⟩ := hr.lookup hw₁
    refine Or.inr ⟨w, hlookup, hg.trans hg₁, fun h => ht ▸ ht₁ h, fun f hf => ?_, fun f hf => ?_⟩
    · exact (hd f hf).imp (fun h => hd₁ ▸ h) mem_map_gateway.mpr
    · exact Or.inl (hu₁ f (hu ▸ hf))
  | @host generation h h' a wires frames es hhost hr hstep hg hh hw =>
    rw [hw] at hw'
    obtain ⟨w₁, hw₁, hg₁, ht, hd, hu⟩ := lookup_emit hw'
    rcases hr.lookup hw₁ with ⟨hnew, rfl, rfl⟩ | ⟨w, hlookup, hg₂, ht₂, hd₂, hu₂⟩
    · refine Or.inl ⟨hnew, ht, hd, ?_, h', ?_⟩
      · rcases Daemon.connection_of_step hstep with ⟨id, -, -, hnone, -⟩ | hsame
        · refine List.eq_nil_iff_forall_not_mem.mpr fun f hf => ?_
          rcases hu f hf with hf | ⟨conn, hconn, -⟩
          · cases hf
          · rw [hnone] at hconn
            cases hconn
        · simp only [Daemon.Host.step, Option.ite_none_right_eq_some] at hstep
          obtain ⟨hnone, -⟩ := hstep
          refine List.eq_nil_iff_forall_not_mem.mpr fun f hf => ?_
          rcases hu f hf with hf | ⟨conn, hconn, -⟩
          · cases hf
          · rw [hconn] at hnone
            cases hnone
      · rw [hg₁, hh, Table.lookup_modify, hhost]
        rfl
    · refine Or.inr ⟨w, hlookup, hg₁.trans hg₂, fun h => by rw [ht, ht₂, h],
        fun f hf => Or.inl (hd₂ f (hd ▸ hf)), fun f hf => ?_⟩
      rcases hu f hf with hold | ⟨conn, hconn, hid, hmem⟩
      · exact Or.inl (hu₂ ▸ hold)
      · exact Or.inr ⟨generation, h, h', a, wires, frames, es, conn, hhost, hr, hstep, hconn, hid,
          hmem, rfl⟩
  | start _ _ _ hw => exact Or.inr ⟨w', hw ▸ hw', .refl w'⟩
  | stop _ _ hw => exact Or.inr ⟨w', hw ▸ hw', .refl w'⟩
  | @lose connection down up _ _ hw =>
    rw [hw] at hw'
    rcases eq_or_ne k connection with rfl | hne
    · rw [Table.lookup_modify] at hw'
      obtain ⟨w, hlookup, rfl⟩ := Option.map_eq_some_iff.mp hw'
      exact Or.inr ⟨w, hlookup, rfl, id, fun f hf => Or.inl (List.mem_of_mem_take hf),
        fun f hf => Or.inl (List.mem_of_mem_take hf)⟩
    · rw [Table.lookup_modify_of_ne hne] at hw'
      exact Or.inr ⟨w', hw', .refl w'⟩

/-- A connection that there is remains. -/
theorem Effect.wire_remains (he : Effect p c W W' es) (hw : W.wires.lookup k = some w) :
    ∃ w', W'.wires.lookup k = some w' ∧
      w'.From w (fun f => .gateway (.sent k f) ∈ es) (HostSays c W k es) := by
  have hmem : k ∈ W.wires := Table.mem_of_lookup hw
  have hmem' : k ∈ W'.wires := by
    cases he with
    | gateway hr _ _ hw' =>
      rw [hw', mem_deliver]
      cases hr with
      | alone => exact hmem
      | upgrade => exact Table.mem_modify.mpr hmem
      | hello => exact hmem
      | read => exact Table.mem_modify.mpr hmem
    | host _ hr _ _ _ hw' =>
      rw [hw', mem_emit]
      cases hr with
      | alone => exact hmem
      | dial => exact (AList.mem_insert _).mpr (Or.inr hmem)
      | receive => exact Table.mem_modify.mpr hmem
    | start _ _ _ hw' => exact hw' ▸ hmem
    | stop _ _ hw' => exact hw' ▸ hmem
    | lose _ _ hw' => exact hw' ▸ Table.mem_modify.mpr hmem
  obtain ⟨w', hw'⟩ := Option.isSome_iff_exists.mp (AList.lookup_isSome.mpr hmem')
  rcases he.wire_origin hw' with ⟨hnot, -⟩ | ⟨w₁, hw₁, hfrom⟩
  · exact absurd hmem hnot
  · rw [hw] at hw₁
    obtain rfl := Option.some.inj hw₁
    exact ⟨w', hw', hfrom⟩

/-- Where the state of a host comes from: it has started, nothing has happened, or it has taken a
step. -/
theorem Effect.host_origin {generation : Uuid} {h' : Daemon.Host π φ} (he : Effect p c W W' es)
    (hh' : W'.hosts.lookup generation = some (some h')) :
    (generation ∉ W.hosts ∧ h' = .init generation) ∨
    ∃ h, W.hosts.lookup generation = some (some h) ∧
      (h' = h ∨ ∃ a wires frames hes, HostReads W generation h a wires ∧
        h.step c a = some (h', frames, hes) ∧ es = hes.map .host ∧
        W'.wires = emit wires h.connection frames) := by
  cases he with
  | gateway _ _ hh => exact Or.inr ⟨h', hh ▸ hh', Or.inl rfl⟩
  | @host g h h₁ a wires frames es hhost hr hstep hg hh hw =>
    rw [hh] at hh'
    rcases eq_or_ne generation g with rfl | hne
    · rw [Table.lookup_modify, hhost] at hh'
      obtain rfl := Option.some.inj (Option.some.inj hh')
      exact Or.inr ⟨h, hhost, Or.inr ⟨a, wires, frames, es, hr, hstep, rfl, hw⟩⟩
    · rw [Table.lookup_modify_of_ne hne] at hh'
      exact Or.inr ⟨h', hh', Or.inl rfl⟩
  | @start g hnew _ hh =>
    rw [hh] at hh'
    rcases eq_or_ne generation g with rfl | hne
    · rw [AList.lookup_insert] at hh'
      exact Or.inl ⟨hnew, (Option.some.inj (Option.some.inj hh')).symm⟩
    · rw [AList.lookup_insert_ne hne] at hh'
      exact Or.inr ⟨h', hh', Or.inl rfl⟩
  | @stop g _ hh =>
    rw [hh] at hh'
    rcases eq_or_ne generation g with rfl | hne
    · rw [Table.lookup_modify] at hh'
      obtain ⟨x, -, hx⟩ := Option.map_eq_some_iff.mp hh'
      cases hx
    · rw [Table.lookup_modify_of_ne hne] at hh'
      exact Or.inr ⟨h', hh', Or.inl rfl⟩
  | lose _ hh => exact Or.inr ⟨h', hh ▸ hh', Or.inl rfl⟩

/-- A step of the world is one of the gateway, or leaves the gateway alone. -/
theorem Effect.gateway_cases (he : Effect p c W W' es) :
    (W'.gateway = W.gateway ∧ ∀ e, .gateway e ∉ es) ∨
    ∃ a wires ges, GatewayReads W a wires ∧ W.gateway.step p a = some (W'.gateway, ges) ∧
      es = ges.map .gateway ∧ W'.wires = deliver wires ges ∧ W'.hosts = W.hosts := by
  cases he with
  | gateway hr hstep hh hw => exact Or.inr ⟨_, _, _, hr, hstep, rfl, hw, hh⟩
  | host _ _ _ hg => exact Or.inl ⟨hg, fun e he => by simp at he⟩
  | start _ hg => exact Or.inl ⟨hg, fun e he => by cases he⟩
  | stop hg => exact Or.inl ⟨hg, fun e he => by cases he⟩
  | lose hg => exact Or.inl ⟨hg, fun e he => by cases he⟩

end

/-! ### Links -/

/-- Sessions, handshakes and hosts have the connections that they should have. -/
structure Linked (W : World π φ) : Prop where
  session : ∀ m s, W.gateway.live.lookup m = some s → ∃ w, W.wires.lookup s.id = some w ∧
    w.taken = true ∧ w.generation = s.generation ∧ (s.fresh = true → w.down = [])
  handshake : ∀ k ∈ W.gateway.handshakes, ∃ w, W.wires.lookup k = some w ∧ w.taken = true ∧
    w.down = []
  untaken : ∀ k w, W.wires.lookup k = some w → w.taken = false → w.down = []
  apart : ∀ m s, W.gateway.live.lookup m = some s → s.id ∉ W.gateway.handshakes
  distinct : ∀ m m' s s', W.gateway.live.lookup m = some s → W.gateway.live.lookup m' = some s' →
    s.id = s'.id → m = m'
  host : ∀ g h, W.hosts.lookup g = some (some h) → h.generation = g ∧
    ∀ conn, h.connection = some conn → ∃ w, W.wires.lookup conn.id = some w ∧ w.generation = g

theorem Linked.init : Linked (World.init : World π φ) := by
  refine ⟨fun _ _ h => ?_, fun _ h => ?_, fun _ _ h => ?_, fun _ _ h => ?_, fun _ _ _ _ h => ?_,
    fun _ _ h => ?_⟩
  · cases h
  · cases h
  · cases h
  · cases h
  · cases h
  · cases h

section

variable {p : Gateway.Platform π} {W W' : World π φ} {es : List (Event π)}
  {ges : List (Gateway.Event π)} {a : Gateway.Action}

/-- On the connection of a session that is fresh after a step, nothing is sent in it. -/
theorem Linked.not_sent_of_fresh (hl : Linked W) {m : Uuid} {s s' : Gateway.Session π}
    {f : GatewayMessage π} (he : Gateway.Effect p W.gateway W'.gateway a ges)
    (hs : W.gateway.live.lookup m = some s) (hs' : W'.gateway.live.lookup m = some s')
    (hfresh : s'.fresh = true) : .sent s.id f ∉ ges := by
  intro hmem
  obtain ⟨horigin, -⟩ := he.speaks hmem
  generalize hk : s.id = k at horigin
  cases horigin with
  | @session m₁ s₁ s₁' _ hs₁ hs₁' _ _ hfresh₁ _ =>
    obtain rfl := hl.distinct m₁ m s₁ s hs₁ hs hk.symm
    rw [hs'] at hs₁'
    obtain rfl := Option.some.inj hs₁'
    rw [hfresh] at hfresh₁
    cases hfresh₁
  | refused hc => exact hl.apart m s hs (hk ▸ hc)

/-- On a connection that is in its handshake after a step, nothing is sent in it. -/
theorem Linked.not_sent_of_handshake (hl : Linked W) {k : Uuid} {f : GatewayMessage π}
    (he : Gateway.Effect p W.gateway W'.gateway a ges) (hk : k ∈ W.gateway.handshakes)
    (hk' : k ∈ W'.gateway.handshakes) : .sent k f ∉ ges := by
  intro hmem
  obtain ⟨horigin, -⟩ := he.speaks hmem
  cases horigin with
  | session hs => exact hl.apart _ _ hs hk
  | refused _ hgone => exact hgone hk'

/-- A session whose connection was there before the step is the one that had it, or has just been
opened on it. -/
theorem session_step {m : Uuid} {s' : Gateway.Session π}
    {wires : Table Uuid (Wire π)} (hr : GatewayReads W a wires)
    (he : Gateway.Effect p W.gateway W'.gateway a ges)
    (hs' : W'.gateway.live.lookup m = some s') :
    (∃ s, W.gateway.live.lookup m = some s ∧ s'.id = s.id ∧ s'.generation = s.generation ∧
      (s'.fresh = true → s.fresh = true)) ∨
    (s'.id ∈ W.gateway.handshakes ∧ s'.id ∉ W'.gateway.handshakes ∧ ges = [] ∧
      (∃ w, W.wires.lookup s'.id = some w ∧ w.generation = s'.generation) ∧
      ∃ hello, a = .hello s'.id hello ∧
        ∃ h, W.gateway.handshakes.lookup s'.id = some h ∧ h.machine = m) := by
  cases he.session_origin hs' with
  | kept hs hw => exact Or.inl ⟨_, hs, hw.id, hw.generation, hw.fresh⟩
  | opened ha hh hmachine hgone hes heq =>
    subst heq ha
    refine Or.inr ⟨Table.mem_of_lookup hh, hgone, hes, ?_, _, rfl, _, hh, hmachine⟩
    cases hr with
    | alone hown => cases hown
    | hello hw hgeneration => exact ⟨_, hw, hgeneration.symm⟩
  | surveyed hs hphase heq =>
    subst heq
    exact Or.inl ⟨_, hs, rfl, rfl, fun _ => by rw [Gateway.Session.fresh, hphase]⟩
  | dispatched hs _ _ _ _ _ _ _ heq =>
    subst heq
    exact Or.inl ⟨_, hs, rfl, rfl, fun h => by cases h⟩
  | responded hs _ _ heq =>
    subst heq
    exact Or.inl ⟨_, hs, rfl, rfl, fun h => by cases h⟩
  | missed _ hs _ _ heq =>
    subst heq
    exact Or.inl ⟨_, hs, rfl, rfl, fun h => by cases h⟩

/-- A connection that the gateway has not accepted is accepted once. -/
theorem GatewayReads.untaken_of_upgrade {wires : Table Uuid (Wire π)} {k machine : Uuid}
    {credential : String} (hr : GatewayReads W (.upgrade k machine credential) wires) :
    ∃ w, W.wires.lookup k = some w ∧ w.taken = false := by
  cases hr with
  | alone hown => cases hown
  | upgrade hw hnew => exact ⟨_, hw, hnew⟩

/-- On a connection that the gateway has not accepted, nothing is sent. -/
theorem Linked.not_sent_of_untaken (hl : Linked W) {k : Uuid} {w : Wire π}
    {f : GatewayMessage π} (he : Gateway.Effect p W.gateway W'.gateway a ges)
    (hw : W.wires.lookup k = some w) (hnew : w.taken = false) : .sent k f ∉ ges := by
  intro hmem
  have htaken (h : ∃ w, W.wires.lookup k = some w ∧ w.taken = true) : False := by
    obtain ⟨w₁, hw₁, ht⟩ := h
    rw [hw] at hw₁
    rw [← Option.some.inj hw₁, hnew] at ht
    cases ht
  obtain ⟨horigin, -⟩ := he.speaks hmem
  cases horigin with
  | session hs =>
    obtain ⟨w₁, hw₁, ht, -⟩ := hl.session _ _ hs
    exact htaken ⟨w₁, hw₁, ht⟩
  | refused hc =>
    obtain ⟨w₁, hw₁, ht, -⟩ := hl.handshake _ hc
    exact htaken ⟨w₁, hw₁, ht⟩

variable [DecidableEq φ] {c : Daemon.Codec π φ}

theorem Linked.host_step (hl : Linked W) (he : Effect p c W W' es) (g : Uuid)
    (h' : Daemon.Host π φ) (hh' : W'.hosts.lookup g = some (some h')) :
    h'.generation = g ∧ ∀ conn, h'.connection = some conn →
      ∃ w, W'.wires.lookup conn.id = some w ∧ w.generation = g := by
  have hremains {h : Daemon.Host π φ} (hh : W.hosts.lookup g = some (some h))
      {conn : Daemon.Connection} (hconn : h.connection = some conn) :
      ∃ w, W'.wires.lookup conn.id = some w ∧ w.generation = g := by
    obtain ⟨w, hw, hg⟩ := (hl.host g h hh).2 conn hconn
    obtain ⟨w', hw', hfrom⟩ := he.wire_remains hw
    exact ⟨w', hw', hfrom.generation.trans hg⟩
  rcases he.host_origin hh' with ⟨-, rfl⟩ | ⟨h, hh, rfl | ⟨a, wires, frames, hes, hr, hstep, -, hw⟩⟩
  · exact ⟨rfl, nofun⟩
  · exact ⟨(hl.host g h' hh).1, fun conn hconn => hremains hh hconn⟩
  · refine ⟨(Daemon.effect_of_step hstep).generation.trans (hl.host g h hh).1,
      fun conn' hconn' => ?_⟩
    rcases Daemon.connection_of_step hstep with ⟨id, rfl, rfl, hnone, hnew⟩ | hsame
    · rw [hconn'] at hnew
      obtain rfl := Option.some.inj hnew
      cases hr with
      | alone hown => cases hown
      | dial => exact ⟨_, by rw [hw, hnone, emit, AList.lookup_insert], rfl⟩
    · obtain ⟨conn, hconn, hid⟩ := hsame conn' hconn'
      rw [hid]
      exact hremains hh hconn

/-- Every step keeps the links. -/
theorem Linked.step (hl : Linked W) (he : Effect p c W W' es) : Linked W' := by
  have huntaken (k : Uuid) (w' : Wire π) (hw' : W'.wires.lookup k = some w')
      (ht : w'.taken = false) : w'.down = [] := by
    rcases he.wire_origin hw' with ⟨-, -, hd, -⟩ | ⟨w, hw, hfrom⟩
    · exact hd
    · have htw : w.taken = false := by
        by_contra h
        rw [hfrom.taken (by simpa using h)] at ht
        cases ht
      have hd := hl.untaken k w hw htw
      refine List.eq_nil_iff_forall_not_mem.mpr fun f hf => ?_
      rcases hfrom.down f hf with hold | hsent
      · rw [hd] at hold
        cases hold
      · rcases he.gateway_cases with ⟨-, hnone⟩ | ⟨a, wires, ges, hr, hstep, rfl, -, -⟩
        · exact hnone _ hsent
        · exact hl.not_sent_of_untaken (Gateway.effect_of_step hstep) hw htw
            (mem_map_gateway.mp hsent)
  -- A connection on which nothing is sent in the step carries nothing if it carried nothing.
  have hempty {k : Uuid} {w : Wire π} (hw : W.wires.lookup k = some w) (hd : w.down = [])
      (hnot : ∀ f, .gateway (.sent k f) ∉ es) : ∃ w', W'.wires.lookup k = some w' ∧
        (w.taken = true → w'.taken = true) ∧ w'.generation = w.generation ∧ w'.down = [] := by
    obtain ⟨w', hw', hfrom⟩ := he.wire_remains hw
    refine ⟨w', hw', hfrom.taken, hfrom.generation, List.eq_nil_iff_forall_not_mem.mpr ?_⟩
    intro f hf
    rcases hfrom.down f hf with hold | hsent
    · rw [hd] at hold
      cases hold
    · exact hnot f hsent
  rcases he.gateway_cases with ⟨hsame, hnone⟩ | ⟨a, wires, ges, hr, hstep, rfl, hwires, hhosts⟩
  · refine ⟨fun m s hs => ?_, fun k hk => ?_, huntaken, fun m s hs => ?_,
      fun m m' s s' hs hs' => ?_, hl.host_step he⟩
    · rw [hsame] at hs
      obtain ⟨w, hw, ht, hg, hfresh⟩ := hl.session m s hs
      obtain ⟨w', hw', hfrom⟩ := he.wire_remains hw
      refine ⟨w', hw', hfrom.taken ht, hfrom.generation.trans hg, fun hf => ?_⟩
      obtain ⟨w₁, hw₁, -, -, hd⟩ := hempty hw (hfresh hf) fun f => hnone _
      rw [hw'] at hw₁
      rw [Option.some.inj hw₁, hd]
    · rw [hsame] at hk
      obtain ⟨w, hw, ht, hd⟩ := hl.handshake k hk
      obtain ⟨w', hw', ht', -, hd'⟩ := hempty hw hd fun f => hnone _
      exact ⟨w', hw', ht' ht, hd'⟩
    · rw [hsame] at hs ⊢
      exact hl.apart m s hs
    · rw [hsame] at hs hs'
      exact hl.distinct m m' s s' hs hs'
  · have hge := Gateway.effect_of_step hstep
    have hsent {k : Uuid} {f : GatewayMessage π} : .gateway (.sent k f) ∈ ges.map Event.gateway ↔
        .sent k f ∈ ges := mem_map_gateway
    refine ⟨fun m s' hs' => ?_, fun k hk' => ?_, huntaken, fun m s' hs' hmem => ?_,
      fun m m' s s' hs hs' hid => ?_, hl.host_step he⟩
    · rcases session_step hr hge hs' with ⟨s, hs, hid, hg, hfresh⟩ |
        ⟨hin, hgone, rfl, ⟨w, hw, hg⟩, -⟩
      · obtain ⟨w, hw, ht, hgw, hd⟩ := hl.session m s hs
        obtain ⟨w', hw', hfrom⟩ := he.wire_remains hw
        refine ⟨w', hid ▸ hw', hfrom.taken ht, (hfrom.generation.trans hgw).trans hg.symm,
          fun hf => ?_⟩
        obtain ⟨w₁, hw₁, -, -, hd₁⟩ := hempty hw (hd (hfresh hf)) fun f hmem =>
          hl.not_sent_of_fresh hge hs hs' hf (hsent.mp hmem)
        rw [hw'] at hw₁
        rw [Option.some.inj hw₁, hd₁]
      · obtain ⟨w₁, hw₁, ht, hd⟩ := hl.handshake _ hin
        rw [hw] at hw₁
        obtain rfl := Option.some.inj hw₁
        obtain ⟨w', hw', ht', hg', hd'⟩ := hempty hw hd fun f hmem => by cases hmem
        exact ⟨w', hw', ht' ht, hg'.trans hg, fun _ => hd'⟩
    · rcases hge.handshake_origin hk' with hk | ⟨machine, credential, rfl⟩
      · obtain ⟨w, hw, ht, hd⟩ := hl.handshake k hk
        obtain ⟨w', hw', ht', -, hd'⟩ := hempty hw hd fun f hmem =>
          hl.not_sent_of_handshake hge hk hk' (hsent.mp hmem)
        exact ⟨w', hw', ht' ht, hd'⟩
      · obtain ⟨w, hw, hnew⟩ := hr.untaken_of_upgrade
        obtain ⟨w', hw', -, -, hd'⟩ := hempty hw (hl.untaken k w hw hnew) fun f hmem =>
          hl.not_sent_of_untaken hge hw hnew (hsent.mp hmem)
        refine ⟨w', hw', ?_, hd'⟩
        rw [hwires] at hw'
        obtain ⟨w₁, hw₁, -, ht, -⟩ := lookup_deliver hw'
        rw [ht]
        cases hr with
        | alone hown => cases hown
        | upgrade =>
          rw [Table.lookup_modify] at hw₁
          obtain ⟨w₂, -, rfl⟩ := Option.map_eq_some_iff.mp hw₁
          rfl
    · rcases session_step hr hge hs' with ⟨s, hs, hid, -⟩ | ⟨-, hgone, -⟩
      · rw [hid] at hmem
        rcases hge.handshake_origin hmem with hin | ⟨machine, credential, rfl⟩
        · exact hl.apart m s hs hin
        · obtain ⟨w, hw, hnew⟩ := hr.untaken_of_upgrade
          obtain ⟨w₁, hw₁, ht, -⟩ := hl.session m s hs
          rw [hw] at hw₁
          rw [← Option.some.inj hw₁, hnew] at ht
          cases ht
      · exact hgone hmem
    · rcases session_step hr hge hs with ⟨t, ht, hidt, -⟩ | ⟨hin, -, -, -, x, hx, k, hk, hkm⟩ <;>
        rcases session_step hr hge hs' with
          ⟨t', ht', hidt', -⟩ | ⟨hin', -, -, -, x', hx', k', hk', hkm'⟩
      · exact hl.distinct m m' t t' ht ht' (hidt.symm.trans (hid.trans hidt'))
      · rw [← hid, hidt] at hin'
        exact absurd hin' (hl.apart m t ht)
      · rw [hid, hidt'] at hin
        exact absurd hin (hl.apart m' t' ht')
      · rw [hid, hk'] at hk
        rw [← hkm, ← hkm', Option.some.inj hk]

end

end ExecutionProvider.Recovery
