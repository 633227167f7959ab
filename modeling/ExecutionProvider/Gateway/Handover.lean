import ExecutionProvider.Gateway.Slots
import ExecutionProvider.Gateway.Validity

/-!
# One session per machine

At most one task runs a session for a machine, and it owns the slot of the machine. A task that
took a slot runs its session until it has torn it down in the database, or until its process dies.

## Main definitions

* `Slots.Owned`: who owns the slots, and what has become of the tasks that took them.

## Main results

* `marks_cases`: what a step of a session is remembered by.
* `torn_of_proceed`, `torn_of_other`: only the teardown closes a session.
* `Owned.step`, `Owned.of_run`: who owns the slots, along every run.
-/

namespace ExecutionProvider.Gateway

open Protocol

variable {π : Type} {p : Platform π}

/-- The connection that an event is about. -/
def SlotEvent.connection : SlotEvent π → Option Uuid
  | gateway _ => none
  | took connection _ | reconnected connection _ | dispatched connection _
  | accepted connection _ | tornDown connection | lost connection => some connection

/-! ### Owners -/

/-- Who owns the slots: exactly the tasks that run a session. A task that took a slot still runs
its session, or has torn it down, or has died with its process. A connection whose task has not
taken a slot has not been heard of. -/
structure Slots.Owned (log : List (SlotEvent π)) (S : Slots π) : Prop where
  down : S.process.serves = false → S.tasks = ∅
  held : ∀ m c, S.slots.lookup m = some c → ∃ s, S.tasks.lookup c = some ⟨m, .running s⟩
  owner : ∀ c m s, S.tasks.lookup c = some ⟨m, .running s⟩ → S.slots.lookup m = some c
  closed : ∀ c m s, S.tasks.lookup c = some ⟨m, .running s⟩ → s.phase = .closed →
    .tornDown c ∈ log
  took : ∀ c m, .took c m ∈ log →
    (∃ s, S.tasks.lookup c = some ⟨m, .running s⟩) ∨ .tornDown c ∈ log ∨ .lost c ∈ log
  drawn : ∀ c, c ∈ S.handshakes ∨ c ∈ S.tasks ∨ (∃ e ∈ log, e.connection = some c) → c ∈ S.drawn
  apart : ∀ c ∈ S.handshakes, c ∉ S.tasks ∧ ∀ e ∈ log, e.connection ≠ some c
  silent : ∀ c t, S.tasks.lookup c = some t → t.session = none →
    ∀ e ∈ log, e.connection ≠ some c

section

variable {S S' : Slots π} {log es : List (SlotEvent π)} {now : ℕ} {db : Database}
  {connection machine c m : Uuid} {s : Session π} {a : SessionAction} {t : Turn π}

/-- What a step of a session is remembered by. -/
theorem marks_cases {next : Session π} {e : SlotEvent π}
    (he : e ∈ s.marks now db connection machine next a) :
    (∃ event full, a = .proceed event full) ∧
        (e = .reconnected connection machine ∨ e = .tornDown connection) ∨
      (∃ event full locked, a = .dispatch event full locked) ∧
        (∃ job request, next.phase = .dispatched job request ∧ e = .dispatched connection job) ∨
      ∃ event text generation recovering job, a = .read event (.accepted text generation) ∧
        s.phase = .serving recovering ∧ s.acceptsInTime now db text generation = some job ∧
        e = .accepted connection job := by
  unfold Session.marks at he
  split at he
  · refine Or.inl ⟨⟨_, _, rfl⟩, ?_⟩
    split at he
    · exact Or.inl (List.mem_singleton.mp he)
    · exact Or.inl (List.mem_singleton.mp he)
    · split_ifs at he
      · exact Or.inr (List.mem_singleton.mp he)
      · cases he
    · exact Or.inr (List.mem_singleton.mp he)
    · cases he
  · refine Or.inr (Or.inl ⟨⟨_, _, _, rfl⟩, ?_⟩)
    split at he
    · next job request hphase => exact ⟨job, request, hphase, List.mem_singleton.mp he⟩
    · cases he
  · split at he
    · next recovering hphase =>
      obtain ⟨job, hjob, rfl⟩ := Option.map_eq_some_iff.mp (Option.mem_toList.mp he)
      exact Or.inr (Or.inr ⟨_, _, _, recovering, job, rfl, hphase, hjob, rfl⟩)
    · cases he
  · cases he

theorem connection_of_mem_marks {next : Session π} {e : SlotEvent π}
    (he : e ∈ s.marks now db connection machine next a) :
    e.connection = some connection ∧ ∀ c m, e ≠ .took c m := by
  rcases marks_cases he with ⟨-, rfl | rfl⟩ | ⟨-, job, request, -, rfl⟩ |
    ⟨_, _, _, _, job, -, -, -, rfl⟩
  · exact ⟨rfl, by simp⟩
  · exact ⟨rfl, by simp⟩
  · exact ⟨rfl, by simp⟩
  · exact ⟨rfl, by simp⟩

/-- The step in which a session reads or settles the jobs under way. -/
theorem reconnected_of_marks {next : Session π}
    (he : .reconnected c m ∈ s.marks now db connection machine next a) :
    c = connection ∧ m = machine := by
  rcases marks_cases he with ⟨-, heq | heq⟩ | ⟨-, job, request, -, heq⟩ |
    ⟨_, _, _, _, job, -, -, -, heq⟩
  · exact SlotEvent.reconnected.inj heq
  · cases heq
  · cases heq
  · cases heq

/-- Where a session stands after a transaction, or after a frame. -/
theorem phase_commit {α : Type} {s₀ : Session π} {T : Transaction α} {next : α → Session π}
    {P : Phase π → Prop} (hclosing : P .closing) (hok : ∀ c, T = .ok c → P (next c.value).phase) :
    P (s₀.commit db T next).session.phase := by
  unfold Session.commit
  split
  · exact hclosing
  · next c => exact hok c rfl

theorem phase_send {s₀ : Session π} {full : Bool} {frame : GatewayMessage π} {next : Phase π}
    {P : Phase π → Prop} (hclosing : P .closing) (hnext : P next) :
    P (s₀.send full db frame next).session.phase := by
  unfold Session.send
  split_ifs
  · exact hclosing
  · exact hnext

/-- Whether the teardown of a session has begun in the database. -/
def Phase.torn : Phase π → Bool
  | .losing _ | .closed => true
  | _ => false

/-- Only the teardown leads a session to where it is torn down, and to its end. -/
theorem torn_of_proceed {event : Uuid} {full : Bool}
    (h : s.proceed p now event full db machine = some t) (htorn : t.session.phase.torn = true) :
    s.phase = .closing ∧
        (s.recovery = true ∧ s.revoked = false ∨ t.session.phase = .losing s.pending) ∨
      s.phase.torn = true ∧ (t.session.phase = .closed → s.phase = .losing []) := by
  unfold Session.proceed at h
  split at h
  · obtain rfl := Option.some.inj h
    exfalso
    revert htorn
    simp only [Session.turn, Session.go]
    split_ifs <;> exact Bool.false_ne_true
  · obtain rfl := Option.some.inj h
    exfalso
    revert htorn
    simp only [Session.turn, Session.go]
    split_ifs <;> exact Bool.false_ne_true
  · obtain rfl := Option.some.inj h
    cases (phase_commit (P := fun phase => phase.torn = false) rfl fun _ _ => rfl).symm.trans htorn
  · obtain rfl := Option.some.inj h
    cases (phase_send (P := fun phase => phase.torn = false) rfl rfl).symm.trans htorn
  · obtain rfl := Option.some.inj h
    cases (phase_send (P := fun phase => phase.torn = false) rfl rfl).symm.trans htorn
  · obtain rfl := Option.some.inj h
    exfalso
    revert htorn
    dsimp only
    split_ifs
    · rw [phase_send (P := fun phase => phase.torn = false) rfl rfl]
      exact Bool.false_ne_true
    · exact Bool.false_ne_true
  · obtain rfl := Option.some.inj h
    cases (phase_commit (P := fun phase => phase.torn = false) rfl fun _ _ => rfl).symm.trans htorn
  · next hphase =>
    obtain rfl := Option.some.inj h
    refine Or.inl ⟨hphase, ?_⟩
    dsimp only
    split_ifs with hcond
    · exact Or.inl ⟨hcond.1, by simpa using hcond.2⟩
    · exact Or.inr rfl
  · next hphase =>
    refine Or.inr ⟨by rw [hphase]; rfl, fun hclosed => ?_⟩
    split at h
    · obtain rfl := Option.some.inj h
      cases hclosed
    · obtain rfl := Option.some.inj h
      cases hclosed
  · next hphase => exact Or.inr ⟨by rw [hphase]; rfl, fun _ => hphase⟩
  · cases h
  · cases h

/-- What a session does outside of its next step keeps it from being torn down. -/
theorem torn_of_other (h : s.step p now db machine a = some t)
    (hfails : s.teardownFails p now db a = false) (ha : ∀ event full, a ≠ .proceed event full) :
    t.session.phase.torn = false := by
  cases a with
  | proceed event full => exact absurd rfl (ha event full)
  | dispatch event full locked =>
    simp only [Session.step, Session.dispatch] at h
    split at h
    · obtain rfl := Option.some.inj h
      split_ifs
      · exact phase_send (P := fun phase => phase.torn = false) rfl rfl
      · rfl
    · next hphase =>
      split_ifs at h
      · obtain rfl := Option.some.inj h
        refine phase_commit (P := fun phase => phase.torn = false) rfl fun c _ => ?_
        split
        · rw [hphase]
          rfl
        · rfl
      · obtain rfl := Option.some.inj h
        show s.phase.torn = false
        rw [hphase]
        rfl
    · cases h
  | read event frame =>
    simp only [Session.step, Session.read] at h
    split at h
    · next hphase =>
      have hstay : s.phase.torn = false := by rw [hphase]; rfl
      obtain rfl := Option.some.inj h
      cases frame with
      | response r =>
        dsimp only
        split
        · rfl
        · split_ifs
          · exact phase_commit (P := fun phase => phase.torn = false) rfl fun _ _ => rfl
          · rfl
      | accepted id generation =>
        dsimp only
        split_ifs
        · split
          · rfl
          · split_ifs
            · exact hstay
            · exact hstay
        · rfl
      | missing id generation =>
        dsimp only
        split_ifs
        · split
          · rfl
          · split_ifs
            · rfl
            · exact hstay
        · rfl
    · cases h
  | heartbeat =>
    simp only [Session.step, Session.heartbeat] at h
    split at h
    · next hphase =>
      obtain rfl := Option.some.inj h
      show s.phase.torn = false
      rw [hphase]
      rfl
    · cases h
  | leave full =>
    simp only [Session.step, Session.leave] at h
    split at h
    · split_ifs at h
      obtain rfl := Option.some.inj h
      exact phase_send (P := fun phase => phase.torn = false) rfl rfl
    · cases h
  | fail =>
    simp only [Session.step, Session.fail] at h
    split at h
    · cases h
    · cases h
    · cases h
    · obtain rfl := Option.some.inj h
      rfl
  | skip => cases hfails

/-- A session that is not torn down after a step was not torn down before. -/
theorem torn_of_step (h : s.step p now db machine a = some t)
    (hnot : t.session.phase.torn = false) : s.phase.torn = false := by
  cases hphase : s.phase with
  | losing jobs =>
    exfalso
    cases a with
    | proceed event full =>
      simp only [Session.step, Session.proceed, hphase] at h
      cases jobs with
      | nil =>
        obtain rfl := Option.some.inj h
        cases hnot
      | cons job jobs =>
        dsimp only at h
        split at h
        · obtain rfl := Option.some.inj h
          cases hnot
        · obtain rfl := Option.some.inj h
          cases hnot
    | dispatch event full locked => simp [Session.step, Session.dispatch, hphase] at h
    | read event frame => simp [Session.step, Session.read, hphase] at h
    | heartbeat => simp [Session.step, Session.heartbeat, hphase] at h
    | leave full => simp [Session.step, Session.leave, hphase] at h
    | fail => simp [Session.step, Session.fail, hphase] at h
    | skip =>
      simp only [Session.step, Session.skip, hphase] at h
      cases jobs with
      | nil => cases h
      | cons job jobs =>
        obtain rfl := Option.some.inj h
        cases hnot
  | closed =>
    exfalso
    cases a with
    | proceed event full => simp [Session.step, Session.proceed, hphase] at h
    | dispatch event full locked => simp [Session.step, Session.dispatch, hphase] at h
    | read event frame => simp [Session.step, Session.read, hphase] at h
    | heartbeat => simp [Session.step, Session.heartbeat, hphase] at h
    | leave full => simp [Session.step, Session.leave, hphase] at h
    | fail => simp [Session.step, Session.fail, hphase] at h
    | skip => simp [Session.step, Session.skip, hphase] at h
  | _ => rfl

/-- A session is closed by its teardown only. -/
theorem tornDown_of_closed (h : s.step p now db machine a = some t)
    (hfails : s.teardownFails p now db a = false) (hclosed : t.session.phase = .closed) :
    .tornDown connection ∈ s.marks now db connection machine t.session a := by
  have htorn : t.session.phase.torn = true := by rw [hclosed]; rfl
  by_cases ha : ∃ event full, a = .proceed event full
  · obtain ⟨event, full, rfl⟩ := ha
    rcases torn_of_proceed h htorn with ⟨hphase, ⟨hrecovery, hrevoked⟩ | hlosing⟩ | ⟨-, hlosing⟩
    · simp [Session.marks, hphase, hrecovery, hrevoked]
    · rw [hclosed] at hlosing
      cases hlosing
    · simp [Session.marks, hlosing hclosed]
  · have hnot := torn_of_other h hfails fun event full heq => ha ⟨event, full, heq⟩
    cases hnot.symm.trans htorn

theorem connection_of_mem_map {es : List (Event π)} {e : SlotEvent π}
    (he : e ∈ es.map SlotEvent.gateway) : e.connection = none := by
  obtain ⟨_, -, rfl⟩ := List.mem_map.mp he
  rfl

namespace Slots.Owned

theorem init : (Slots.init : Slots π).Owned [] := by
  refine ⟨fun _ => rfl, fun m c hc => ?_, fun c m s hc => ?_, fun c m s hc => ?_, fun c m hm => ?_,
    fun c hc => ?_, fun c hc => ?_, fun c t hc => ?_⟩
  · cases hc
  · cases hc
  · cases hc
  · cases hm
  · rcases hc with hc | hc | ⟨e, he, -⟩
    · cases hc
    · cases hc
    · cases he
  · cases hc
  · cases hc

/-- A step that leaves the slots and the sessions alone and is remembered by nothing. -/
theorem of_sessions (h : S.Owned log) (hs : S'.slots = S.slots) (hd : ∀ c ∈ S.drawn, c ∈ S'.drawn)
    (hp : S.process.serves = true → S'.process.serves = true)
    (hes : ∀ e ∈ es, e.connection = none)
    (hnew : ∀ c m s', S'.tasks.lookup c = some ⟨m, .running s'⟩ →
      ∃ s, S.tasks.lookup c = some ⟨m, .running s⟩ ∧ s'.phase = s.phase)
    (hold : ∀ c m s, S.tasks.lookup c = some ⟨m, .running s⟩ →
      ∃ s', S'.tasks.lookup c = some ⟨m, .running s'⟩)
    (hdown : S'.process.serves = false → S.tasks = ∅ → S'.tasks = ∅)
    (hdrawn : ∀ c, c ∈ S'.handshakes ∨ c ∈ S'.tasks → c ∈ S'.drawn)
    (hapart : ∀ c ∈ S'.handshakes, c ∉ S'.tasks ∧ ∀ e ∈ log, e.connection ≠ some c)
    (hsilent : ∀ c t, S'.tasks.lookup c = some t → t.session = none →
      ∀ e ∈ log, e.connection ≠ some c) : S'.Owned (log ++ es) := by
  have hlog {e : SlotEvent π} {c : Uuid} (he : e ∈ log ++ es) (hc : e.connection = some c) :
      e ∈ log := by
    refine (List.mem_append.mp he).resolve_right fun hmem => ?_
    rw [hes e hmem] at hc
    cases hc
  refine ⟨fun hnot => hdown hnot (h.down ?_), fun m c hc => ?_, fun c m s' hc => ?_,
    fun c m s' hc hclosed => ?_, fun c m hm => ?_, fun c hc => ?_, fun c hc => ?_,
    fun c t hc hnone e he hconn => hsilent c t hc hnone e (hlog he hconn) hconn⟩
  · by_contra hserves
    rw [hp (by simpa using hserves)] at hnot
    cases hnot
  · obtain ⟨s, hc⟩ := h.held m c (hs ▸ hc)
    exact hold c m s hc
  · obtain ⟨s, hc, -⟩ := hnew c m s' hc
    exact hs ▸ h.owner c m s hc
  · obtain ⟨s, hc, hphase⟩ := hnew c m s' hc
    exact List.mem_append_left _ (h.closed c m s hc (hphase ▸ hclosed))
  · rcases h.took c m (hlog hm rfl) with ⟨s, hc⟩ | htorn | hlost
    · exact Or.inl (hold c m s hc)
    · exact Or.inr (Or.inl (List.mem_append_left _ htorn))
    · exact Or.inr (Or.inr (List.mem_append_left _ hlost))
  · rcases hc with hc | hc | ⟨e, he, hconn⟩
    · exact hdrawn c (Or.inl hc)
    · exact hdrawn c (Or.inr hc)
    · exact hd c (h.drawn c (Or.inr (Or.inr ⟨e, hlog he hconn, hconn⟩)))
  · exact ⟨(hapart c hc).1, fun e he hconn => (hapart c hc).2 e (hlog he hconn) hconn⟩

theorem crash (h : S.Owned log) (hs : S'.slots = ∅) (ht : S'.tasks = ∅)
    (hd : S'.drawn = S.drawn) (hh : S'.handshakes = ∅) :
    S'.Owned (log ++ S.tasks.keys.map .lost) := by
  have hlog {e : SlotEvent π} (he : e ∈ log ++ S.tasks.keys.map .lost) :
      e ∈ log ∨ ∃ c ∈ S.tasks, e = .lost c := by
    rcases List.mem_append.mp he with he | he
    · exact Or.inl he
    · obtain ⟨c, hc, rfl⟩ := List.mem_map.mp he
      exact Or.inr ⟨c, hc, rfl⟩
  refine ⟨fun _ => ht, fun m c hc => ?_, fun c m s hc => ?_, fun c m s hc => ?_, fun c m hm => ?_,
    fun c hc => ?_, fun c hc => ?_, fun c t hc => ?_⟩
  · rw [hs] at hc
    cases hc
  · rw [ht] at hc
    cases hc
  · rw [ht] at hc
    cases hc
  · rcases hlog hm with hm | ⟨_, _, heq⟩
    · rcases h.took c m hm with ⟨s, hc⟩ | htorn | hlost
      · exact Or.inr (Or.inr (List.mem_append_right _
          (List.mem_map.mpr ⟨c, Table.mem_of_lookup hc, rfl⟩)))
      · exact Or.inr (Or.inl (List.mem_append_left _ htorn))
      · exact Or.inr (Or.inr (List.mem_append_left _ hlost))
    · cases heq
  · rw [hh, ht] at hc
    rw [hd]
    rcases hc with hc | hc | ⟨e, he, hconn⟩
    · cases hc
    · cases hc
    · rcases hlog he with he | ⟨c', hc', rfl⟩
      · exact h.drawn c (Or.inr (Or.inr ⟨e, he, hconn⟩))
      · obtain rfl := Option.some.inj hconn
        exact h.drawn c' (Or.inr (Or.inl hc'))
  · rw [hh] at hc
    cases hc
  · rw [ht] at hc
    cases hc

theorem revoke (h : S.Owned log) (hs : S'.slots = S.slots)
    (ht : S'.tasks = S.tasks ∨ S'.tasks = S.tasks.modify connection Task.revoke)
    (hd : S'.drawn = S.drawn) (hh : S'.handshakes = S.handshakes)
    (hp : S'.process = S.process) : S'.Owned (log ++ []) := by
  have hmem (c : Uuid) : c ∈ S'.tasks ↔ c ∈ S.tasks := by
    rcases ht with ht | ht <;> simp [ht]
  have hback {c : Uuid} {k' : Task π} (hc : S'.tasks.lookup c = some k') :
      S.tasks.lookup c = some k' ∨ ∃ k, S.tasks.lookup c = some k ∧ k' = k.revoke := by
    rcases ht with ht | ht
    · exact Or.inl (ht ▸ hc)
    · rw [ht] at hc
      by_cases hcc : c = connection
      · subst hcc
        rw [Table.lookup_modify] at hc
        obtain ⟨k, hk, rfl⟩ := Option.map_eq_some_iff.mp hc
        exact Or.inr ⟨k, hk, rfl⟩
      · rw [Table.lookup_modify_of_ne hcc] at hc
        exact Or.inl hc
  refine h.of_sessions hs (fun c hc => hd ▸ hc) (fun hserves => hp ▸ hserves) (by simp)
    (fun c m s' hc => ?_) (fun c m s hc => ?_) (fun _ hempty => ?_) (fun c hc => ?_)
    (fun c hc => ?_) (fun c k hc hnone => ?_)
  · rcases hback hc with hc | ⟨⟨m', stage⟩, hk, heq⟩
    · exact ⟨s', hc, rfl⟩
    · cases stage with
      | running s =>
        obtain ⟨rfl, hst⟩ := Task.mk.inj heq
        obtain rfl := Stage.running.inj hst
        exact ⟨s, hk, rfl⟩
      | contending => cases heq
  · rcases ht with ht | ht
    · exact ⟨s, ht ▸ hc⟩
    · rw [ht]
      by_cases hcc : c = connection
      · subst hcc
        rw [Table.lookup_modify, hc]
        exact ⟨_, rfl⟩
      · rw [Table.lookup_modify_of_ne hcc]
        exact ⟨s, hc⟩
  · rcases ht with ht | ht
    · rw [ht, hempty]
    · rw [ht, hempty]
      rfl
  · rw [hmem, hh] at hc
    exact hd ▸ h.drawn c (hc.imp_right Or.inl)
  · rw [hmem]
    exact h.apart c (hh ▸ hc)
  · rcases hback hc with hc | ⟨⟨m', stage⟩, hk, rfl⟩
    · exact h.silent c k hc hnone
    · cases stage with
      | running s => cases hnone
      | contending => exact h.silent c _ hk rfl

theorem hello {es : List (Event π)} {k : Task π} (h : S.Owned log)
    (hserves : S.process.serves = true) (hc : connection ∈ S.handshakes)
    (hs : S'.slots = S.slots)
    (ht : S'.tasks = S.tasks ∨ S'.tasks = S.tasks.insert connection k ∧ k.session = none)
    (hd : S'.drawn = S.drawn) (hh : S'.handshakes = S.handshakes.erase connection)
    (hp : S'.process = S.process) : S'.Owned (log ++ es.map .gateway) := by
  have hback {c : Uuid} {k' : Task π} (hk : S'.tasks.lookup c = some k') :
      S.tasks.lookup c = some k' ∨ c = connection ∧ k'.session = none := by
    rcases ht with ht | ⟨ht, hnone⟩
    · exact Or.inl (ht ▸ hk)
    · rw [ht] at hk
      by_cases hcc : c = connection
      · subst hcc
        rw [AList.lookup_insert] at hk
        obtain rfl := Option.some.inj hk
        exact Or.inr ⟨rfl, hnone⟩
      · rw [AList.lookup_insert_ne hcc] at hk
        exact Or.inl hk
  have hmem {c : Uuid} (hmem : c ∈ S'.tasks) : c ∈ S.tasks ∨ c = connection := by
    obtain ⟨k', hk⟩ := Option.isSome_iff_exists.mp (AList.lookup_isSome.mpr hmem)
    rcases hback hk with hk | ⟨rfl, -⟩
    · exact Or.inl (Table.mem_of_lookup hk)
    · exact Or.inr rfl
  refine h.of_sessions hs (fun c hc => hd ▸ hc) (fun hserves => hp ▸ hserves)
    (fun e he => connection_of_mem_map he) (fun c m s' hk => ?_) (fun c m s hk => ?_)
    (fun hnot => ?_) (fun c hc' => ?_) (fun c hc' => ?_) (fun c k' hk hnone => ?_)
  · rcases hback hk with hk | ⟨-, hnone⟩
    · exact ⟨s', hk, rfl⟩
    · cases hnone
  · rcases ht with ht | ⟨ht, -⟩
    · exact ⟨s, ht ▸ hk⟩
    · have hcc : c ≠ connection := by
        rintro rfl
        exact (h.apart c hc).1 (Table.mem_of_lookup hk)
      rw [ht, AList.lookup_insert_ne hcc]
      exact ⟨s, hk⟩
  · rw [hp, hserves] at hnot
    cases hnot
  · rw [hd]
    rw [hh, AList.mem_erase] at hc'
    rcases hc' with ⟨-, hold⟩ | hc'
    · exact h.drawn c (Or.inl hold)
    · rcases hmem hc' with hold | rfl
      · exact h.drawn c (Or.inr (Or.inl hold))
      · exact h.drawn c (Or.inl hc)
  · rw [hh, AList.mem_erase] at hc'
    refine ⟨fun hin => ?_, (h.apart c hc'.2).2⟩
    rcases hmem hin with hold | rfl
    · exact (h.apart c hc'.2).1 hold
    · exact hc'.1 rfl
  · rcases hback hk with hk | ⟨rfl, -⟩
    · exact h.silent c k' hk hnone
    · exact (h.apart c hc).2

theorem refuse {k : Task π} (h : S.Owned log) (hc : S.tasks.lookup connection = some k)
    (hnone : k.session = none) (hs : S'.slots = S.slots)
    (ht : S'.tasks = S.tasks.erase connection) (hd : S'.drawn = S.drawn)
    (hh : S'.handshakes = S.handshakes) (hp : S'.process = S.process) :
    S'.Owned (log ++ []) := by
  have hback {c : Uuid} {k' : Task π} (hk : S'.tasks.lookup c = some k') :
      S.tasks.lookup c = some k' := by
    rw [ht] at hk
    by_cases hcc : c = connection
    · subst hcc
      rw [AList.lookup_erase] at hk
      cases hk
    · rwa [AList.lookup_erase_ne hcc] at hk
  have hmem {c : Uuid} (hmem : c ∈ S'.tasks) : c ∈ S.tasks := by
    rw [ht, AList.mem_erase] at hmem
    exact hmem.2
  refine h.of_sessions hs (fun c hc => hd ▸ hc) (fun hserves => hp ▸ hserves) (by simp)
    (fun c m s' hk => ⟨s', hback hk, rfl⟩) (fun c m s hk => ⟨s, ?_⟩) (fun _ hempty => ?_)
    (fun c hc' => ?_) (fun c hc' => ?_) fun c k' hk => h.silent c k' (hback hk)
  · have hcc : c ≠ connection := by
      rintro rfl
      obtain rfl := Option.some.inj (hk.symm.trans hc)
      cases hnone
    rw [ht, AList.lookup_erase_ne hcc, hk]
  · rw [hempty] at hc
    cases hc
  · rw [hd]
    rw [hh] at hc'
    exact h.drawn c (hc'.imp_right fun hin => Or.inl (hmem hin))
  · exact ⟨fun hin => (h.apart c (hh ▸ hc')).1 (hmem hin), (h.apart c (hh ▸ hc')).2⟩

/-- A task takes the slot of its machine. -/
theorem take {version : ℕ} {hello : Hello} (h : S.Owned log)
    (hserves : S.process.serves = true)
    (hc : S.tasks.lookup connection = some ⟨machine, .contending version hello⟩)
    (hfree : machine ∉ S.slots) (hs : S'.slots = S.slots.insert machine connection)
    (ht : S'.tasks = S.tasks.insert connection
      ⟨machine, .running (.init connection version hello)⟩)
    (hd : S'.drawn = S.drawn) (hh : S'.handshakes = S.handshakes)
    (hp : S'.process = S.process) : S'.Owned (log ++ [.took connection machine]) := by
  have hback {c : Uuid} {k : Task π} (hk : S'.tasks.lookup c = some k) :
      c = connection ∧ k = ⟨machine, .running (.init connection version hello)⟩ ∨
        c ≠ connection ∧ S.tasks.lookup c = some k := by
    rw [ht] at hk
    by_cases hcc : c = connection
    · subst hcc
      rw [AList.lookup_insert] at hk
      exact Or.inl ⟨rfl, (Option.some.inj hk).symm⟩
    · rw [AList.lookup_insert_ne hcc] at hk
      exact Or.inr ⟨hcc, hk⟩
  have hkeep {c m : Uuid} {s : Session π} (hk : S.tasks.lookup c = some ⟨m, .running s⟩) :
      S'.tasks.lookup c = some ⟨m, .running s⟩ := by
    have hcc : c ≠ connection := by
      rintro rfl
      cases hk.symm.trans hc
    rw [ht, AList.lookup_insert_ne hcc, hk]
  refine ⟨fun hnot => ?_, fun m c hc' => ?_, fun c m s hk => ?_, fun c m s hk hclosed => ?_,
    fun c m hm => ?_, fun c hc' => ?_, fun c hc' => ?_, fun c k hk hnone => ?_⟩
  · rw [hp, hserves] at hnot
    cases hnot
  · rw [hs] at hc'
    by_cases hmm : m = machine
    · subst hmm
      rw [AList.lookup_insert] at hc'
      obtain rfl := Option.some.inj hc'
      exact ⟨_, by rw [ht, AList.lookup_insert]⟩
    · rw [AList.lookup_insert_ne hmm] at hc'
      obtain ⟨s, hk⟩ := h.held m c hc'
      exact ⟨s, hkeep hk⟩
  · rw [hs]
    rcases hback hk with ⟨rfl, heq⟩ | ⟨-, hk⟩
    · obtain ⟨rfl, -⟩ := Task.mk.inj heq
      rw [AList.lookup_insert]
    · have hown := h.owner c m s hk
      have hmm : m ≠ machine := by
        rintro rfl
        exact hfree (Table.mem_of_lookup hown)
      rw [AList.lookup_insert_ne hmm, hown]
  · rcases hback hk with ⟨-, heq⟩ | ⟨-, hk⟩
    · obtain ⟨-, hst⟩ := Task.mk.inj heq
      obtain rfl := Stage.running.inj hst
      cases hclosed
    · exact List.mem_append_left _ (h.closed c m s hk hclosed)
  · rcases List.mem_append.mp hm with hm | hm
    · rcases h.took c m hm with ⟨s, hk⟩ | htorn | hlost
      · exact Or.inl ⟨s, hkeep hk⟩
      · exact Or.inr (Or.inl (List.mem_append_left _ htorn))
      · exact Or.inr (Or.inr (List.mem_append_left _ hlost))
    · obtain ⟨rfl, rfl⟩ := SlotEvent.took.inj (List.mem_singleton.mp hm)
      exact Or.inl ⟨_, by rw [ht, AList.lookup_insert]⟩
  · rw [hd]
    have hin : connection ∈ S.drawn := h.drawn _ (Or.inr (Or.inl (Table.mem_of_lookup hc)))
    rcases hc' with hc' | hc' | ⟨e, he, hconn⟩
    · exact h.drawn c (Or.inl (hh ▸ hc'))
    · rw [ht, AList.mem_insert] at hc'
      rcases hc' with rfl | hc'
      · exact hin
      · exact h.drawn c (Or.inr (Or.inl hc'))
    · rcases List.mem_append.mp he with he | he
      · exact h.drawn c (Or.inr (Or.inr ⟨e, he, hconn⟩))
      · obtain rfl := List.mem_singleton.mp he
        obtain rfl := Option.some.inj hconn
        exact hin
  · have hold := h.apart c (hh ▸ hc')
    have hcc : c ≠ connection := by
      rintro rfl
      exact hold.1 (Table.mem_of_lookup hc)
    refine ⟨fun hin => ?_, fun e he hconn => ?_⟩
    · rw [ht, AList.mem_insert] at hin
      exact hold.1 (hin.resolve_left hcc)
    · rcases List.mem_append.mp he with he | he
      · exact hold.2 e he hconn
      · obtain rfl := List.mem_singleton.mp he
        exact hcc (Option.some.inj hconn).symm
  · rcases hback hk with ⟨-, rfl⟩ | ⟨hcc, hk⟩
    · cases hnone
    · intro e he hconn
      rcases List.mem_append.mp he with he | he
      · exact h.silent c k hk hnone e he hconn
      · obtain rfl := List.mem_singleton.mp he
        exact hcc (Option.some.inj hconn).symm

/-- A step of the session of a task. -/
theorem turn (h : S.Owned log) (hserves : S.process.serves = true)
    (hc : S.tasks.lookup connection = some ⟨machine, .running s⟩)
    (hfails : s.teardownFails p now db a = false)
    (hstep : s.step p now db machine a = some t) (hs : S'.slots = S.slots)
    (ht : S'.tasks = S.tasks.insert connection ⟨machine, .running t.session⟩)
    (hd : S'.drawn = S.drawn) (hh : S'.handshakes = S.handshakes)
    (hp : S'.process = S.process) :
    S'.Owned (log ++ (t.events.map .gateway ++
      s.marks now db connection machine t.session a)) := by
  have hlog {e : SlotEvent π} (he : e ∈ log ++ (t.events.map .gateway ++
      s.marks now db connection machine t.session a)) :
      e ∈ log ∨ e.connection = none ∨ e.connection = some connection ∧ ∀ c m, e ≠ .took c m := by
    rcases List.mem_append.mp he with he | he
    · exact Or.inl he
    · rcases List.mem_append.mp he with he | he
      · exact Or.inr (Or.inl (connection_of_mem_map he))
      · exact Or.inr (Or.inr (connection_of_mem_marks he))
  have hback {c : Uuid} {k : Task π} (hk : S'.tasks.lookup c = some k) :
      c = connection ∧ k = ⟨machine, .running t.session⟩ ∨
        c ≠ connection ∧ S.tasks.lookup c = some k := by
    rw [ht] at hk
    by_cases hcc : c = connection
    · subst hcc
      rw [AList.lookup_insert] at hk
      exact Or.inl ⟨rfl, (Option.some.inj hk).symm⟩
    · rw [AList.lookup_insert_ne hcc] at hk
      exact Or.inr ⟨hcc, hk⟩
  have hkeep {c m : Uuid} {s' : Session π} (hk : S.tasks.lookup c = some ⟨m, .running s'⟩) :
      ∃ s', S'.tasks.lookup c = some ⟨m, .running s'⟩ := by
    rw [ht]
    by_cases hcc : c = connection
    · subst hcc
      obtain ⟨rfl, -⟩ := Task.mk.inj (Option.some.inj (hk.symm.trans hc))
      exact ⟨_, AList.lookup_insert _⟩
    · exact ⟨s', by rw [AList.lookup_insert_ne hcc, hk]⟩
  refine ⟨fun hnot => ?_, fun m c hc' => ?_, fun c m s' hk => ?_, fun c m s' hk hclosed => ?_,
    fun c m hm => ?_, fun c hc' => ?_, fun c hc' => ?_, fun c k hk hnone => ?_⟩
  · rw [hp, hserves] at hnot
    cases hnot
  · obtain ⟨s', hk⟩ := h.held m c (hs ▸ hc')
    exact hkeep hk
  · rw [hs]
    rcases hback hk with ⟨rfl, heq⟩ | ⟨-, hk⟩
    · obtain ⟨rfl, -⟩ := Task.mk.inj heq
      exact h.owner c m s hc
    · exact h.owner c m s' hk
  · rcases hback hk with ⟨rfl, heq⟩ | ⟨-, hk⟩
    · obtain ⟨-, hst⟩ := Task.mk.inj heq
      obtain rfl := Stage.running.inj hst
      exact List.mem_append_right _ (List.mem_append_right _
        (tornDown_of_closed hstep hfails hclosed))
    · exact List.mem_append_left _ (h.closed c m s' hk hclosed)
  · rcases hlog hm with hm | hnone | ⟨-, hnot⟩
    · rcases h.took c m hm with ⟨s', hk⟩ | htorn | hlost
      · exact Or.inl (hkeep hk)
      · exact Or.inr (Or.inl (List.mem_append_left _ htorn))
      · exact Or.inr (Or.inr (List.mem_append_left _ hlost))
    · cases hnone
    · exact absurd rfl (hnot c m)
  · rw [hd]
    have hin : connection ∈ S.drawn := h.drawn _ (Or.inr (Or.inl (Table.mem_of_lookup hc)))
    rcases hc' with hc' | hc' | ⟨e, he, hconn⟩
    · exact h.drawn c (Or.inl (hh ▸ hc'))
    · rw [ht, AList.mem_insert] at hc'
      rcases hc' with rfl | hc'
      · exact hin
      · exact h.drawn c (Or.inr (Or.inl hc'))
    · rcases hlog he with he | hnone | ⟨hsome, -⟩
      · exact h.drawn c (Or.inr (Or.inr ⟨e, he, hconn⟩))
      · cases hnone.symm.trans hconn
      · obtain rfl := Option.some.inj (hsome.symm.trans hconn)
        exact hin
  · have hold := h.apart c (hh ▸ hc')
    have hcc : c ≠ connection := by
      rintro rfl
      exact hold.1 (Table.mem_of_lookup hc)
    refine ⟨fun hin => ?_, fun e he hconn => ?_⟩
    · rw [ht, AList.mem_insert] at hin
      exact hold.1 (hin.resolve_left hcc)
    · rcases hlog he with he | hnone | ⟨hsome, -⟩
      · exact hold.2 e he hconn
      · cases hnone.symm.trans hconn
      · exact hcc (Option.some.inj (hsome.symm.trans hconn)).symm
  · rcases hback hk with ⟨-, rfl⟩ | ⟨hcc, hk⟩
    · cases hnone
    · intro e he hconn
      rcases hlog he with he | hnil | ⟨hsome, -⟩
      · exact h.silent c k hk hnone e he hconn
      · cases hnil.symm.trans hconn
      · exact hcc (Option.some.inj (hsome.symm.trans hconn)).symm

/-- A task whose session is closed gives up the slot of its machine, and ends. -/
theorem release (h : S.Owned log) (hserves : S.process.serves = true)
    (hc : S.tasks.lookup connection = some ⟨machine, .running s⟩) (hphase : s.phase = .closed)
    (hs : S'.slots = if S.slots.lookup machine = some connection then S.slots.erase machine
      else S.slots) (ht : S'.tasks = S.tasks.erase connection) (hd : S'.drawn = S.drawn)
    (hh : S'.handshakes = S.handshakes) (hp : S'.process = S.process) :
    S'.Owned (log ++ []) := by
  have hown := h.owner connection machine s hc
  rw [if_pos hown] at hs
  rw [List.append_nil]
  have hback {c : Uuid} {k : Task π} (hk : S'.tasks.lookup c = some k) :
      c ≠ connection ∧ S.tasks.lookup c = some k := by
    rw [ht] at hk
    by_cases hcc : c = connection
    · subst hcc
      rw [AList.lookup_erase] at hk
      cases hk
    · rw [AList.lookup_erase_ne hcc] at hk
      exact ⟨hcc, hk⟩
  have hmem {c : Uuid} (hin : c ∈ S'.tasks) : c ∈ S.tasks := by
    rw [ht, AList.mem_erase] at hin
    exact hin.2
  refine ⟨fun hnot => ?_, fun m c hc' => ?_, fun c m s' hk => ?_, fun c m s' hk => ?_,
    fun c m hm => ?_, fun c hc' => ?_, fun c hc' => ?_, fun c k hk => ?_⟩
  · rw [hp, hserves] at hnot
    cases hnot
  · rw [hs] at hc'
    by_cases hmm : m = machine
    · subst hmm
      rw [AList.lookup_erase] at hc'
      cases hc'
    · rw [AList.lookup_erase_ne hmm] at hc'
      obtain ⟨s', hk⟩ := h.held m c hc'
      have hcc : c ≠ connection := by
        rintro rfl
        exact hmm (Task.mk.inj (Option.some.inj (hk.symm.trans hc))).1
      exact ⟨s', by rw [ht, AList.lookup_erase_ne hcc, hk]⟩
  · obtain ⟨hcc, hk⟩ := hback hk
    have hm := h.owner c m s' hk
    have hmm : m ≠ machine := by
      rintro rfl
      exact hcc (Option.some.inj (hm.symm.trans hown))
    rw [hs, AList.lookup_erase_ne hmm, hm]
  · exact h.closed c m s' (hback hk).2
  · by_cases hcc : c = connection
    · subst hcc
      exact Or.inr (Or.inl (h.closed c machine s hc hphase))
    · rcases h.took c m hm with ⟨s', hk⟩ | hended
      · exact Or.inl ⟨s', by rw [ht, AList.lookup_erase_ne hcc, hk]⟩
      · exact Or.inr hended
  · rw [hd]
    rw [hh] at hc'
    rcases hc' with hc' | hc' | hc'
    · exact h.drawn c (Or.inl hc')
    · exact h.drawn c (Or.inr (Or.inl (hmem hc')))
    · exact h.drawn c (Or.inr (Or.inr hc'))
  · have hold := h.apart c (hh ▸ hc')
    exact ⟨fun hin => hold.1 (hmem hin), hold.2⟩
  · exact h.silent c k (hback hk).2

/-- Every step keeps the owners in order. -/
theorem step {a : SlotAction} (h : S.Owned log) (hstep : S.step p a = some (S', es)) :
    S'.Owned (log ++ es) := by
  have heff := slotEffect_of_step hstep
  cases heff with
  | @gateway es hs ht hd hh hp hdb =>
    refine h.of_sessions hs hd hp (fun e he => connection_of_mem_map he)
      (fun c m s' hc => ⟨s', ht ▸ hc, rfl⟩) (fun c m s hc => ⟨s, ht ▸ hc⟩)
      (fun _ hempty => ht ▸ hempty) (fun c hc => ?_) (fun c hc => ?_)
      fun c t hc => h.silent c t (ht ▸ hc)
    · rcases hc with hc | hc
      · rcases hh c hc with hold | ⟨-, hnew⟩
        · exact hd c (h.drawn c (Or.inl hold))
        · exact hnew
      · exact hd c (h.drawn c (Or.inr (Or.inl (ht ▸ hc))))
    · rw [ht]
      rcases hh c hc with hold | ⟨hfresh, -⟩
      · exact h.apart c hold
      · exact ⟨fun hmem => hfresh (h.drawn c (Or.inr (Or.inl hmem))),
          fun e he hconn => hfresh (h.drawn c (Or.inr (Or.inr ⟨e, he, hconn⟩)))⟩
  | crash hs ht hd hh hdb => exact h.crash hs ht hd hh
  | revoke hp hs ht hd hh hp' hdb => exact h.revoke hs ht hd hh hp'
  | hello hp hc hs ht hd hh hp' hdb => exact h.hello hp hc hs ht hd hh hp'
  | refuse hp hc hnone hs ht hd hh hp' hdb => exact h.refuse hc hnone hs ht hd hh hp'
  | take hp hc hfree hs ht hd hh hp' hdb => exact h.take hp hc hfree hs ht hd hh hp'
  | turn hp hc hfails hturn hs ht hd hh hp' hdb =>
    exact h.turn hp hc hfails hturn hs ht hd hh hp'
  | release hp hc hphase hs ht hd hh hp' hdb => exact h.release hp hc hphase hs ht hd hh hp'

/-- Who owns the slots, along every run. -/
theorem of_run (h : (slotSystem p).Run log S) : S.Owned log := by
  refine h.invariant (I := fun log S => S.Owned log) (fun S hS => ?_)
    fun _ howned hstep => howned.step hstep
  obtain rfl : S = .init := hS
  exact init

end Slots.Owned

end

end ExecutionProvider.Gateway
