import ExecutionProvider.Daemon.Capacity

/-!
# Accounting in the receipt store

The receipt store is used by several tasks: the connection admits requests, sends responses and
releases receipts, and each request that was admitted leaves its response once. The counter of
bytes follows each of these, whatever their order, and every host uses its store like this.

## Main definitions

* `Store`: a receipt store with the requests whose responses are still to come.
* `storeSystem`: everything that happens to a receipt store.
* `Store.Sound`: the counter and the limits of a store.

## Main results

* `store_of_hostSystem`: the store of a host is used as `storeSystem` says.
* `store_sound`: in every run the count is right and within the limits, no operation fails, and
  a receipt is there until it is acknowledged with its response.
-/

namespace ExecutionProvider.Daemon

open Protocol System

variable {φ τ : Type}

/-- A receipt store, and the requests that were admitted and are not yet done. -/
structure Store (φ τ : Type) where
  receipts : Receipts φ τ
  owed : List String

/-- A call to the receipt store: a request arrives, a request that was admitted is done, a response
is chosen to be sent, a receipt is looked up again, or a receipt is released. -/
inductive StoreAction (φ τ : Type)
  | accept (id : String) (fingerprint : φ) (busy : Bool)
  | complete (id : String) (response : τ)
  | nextResponse (sent : List String) (id : String)
  | retry (id : String)
  | acknowledge (id : String)

/-- What the calls to a receipt store come to. A call panics when it does not find the receipt it
expects, or when the counter would fall below zero. -/
inductive StoreEvent (τ : Type)
  | answered (id : String) (admission : Admission)
  | completed (id : String)
  | offered (id : String) (response : Option τ)
  | released (id : String)
  | panicked

namespace Store

variable [DecidableEq φ] (size : τ → ℕ)

/-- A request that was admitted is done. -/
def complete (s : Store φ τ) (id : String) (response : τ) : Store φ τ × List (StoreEvent τ) :=
  match s.receipts.entries.lookup id with
  | some ⟨_, none⟩ =>
    if s.receipts.bytes < maxFrameBytes then (s, [.panicked])
    else
      match s.receipts.complete size id response with
      | none => (s, [.panicked])
      | some receipts => (⟨receipts, s.owed.erase id⟩, [.completed id])
  | _ => (s, [.panicked])

/-- A receipt is released. -/
def acknowledge (s : Store φ τ) (id : String) : Store φ τ × List (StoreEvent τ) :=
  match s.receipts.response id with
  | none => (s, [])
  | some response =>
    if s.receipts.bytes < size response then (s, [.panicked])
    else ({ s with receipts := s.receipts.acknowledge size id }, [.released id])

/-- A call to the receipt store. A request that was admitted is done once, with a response that is
smaller than a frame. -/
def step (s : Store φ τ) : StoreAction φ τ → Option (Store φ τ × List (StoreEvent τ))
  | .accept id fingerprint busy =>
    let (admission, receipts) := s.receipts.accept id fingerprint busy
    some (⟨receipts, if admission = .new then id :: s.owed else s.owed⟩, [.answered id admission])
  | .complete id response =>
    if id ∈ s.owed ∧ size response < maxFrameBytes then some (s.complete size id response)
    else none
  | .nextResponse sent id =>
    if s.receipts.isNextResponse sent id then some (s, [.offered id (s.receipts.response id)])
    else none
  | .retry id => some (s, [.offered id (s.receipts.response id)])
  | .acknowledge id => some (s.acknowledge size id)

end Store

/-- The runs of a receipt store. -/
def storeSystem [DecidableEq φ] (size : τ → ℕ) :
    System (Store φ τ) (StoreAction φ τ) (StoreEvent τ) where
  start s := s = ⟨.empty, []⟩
  step := Store.step size

/-! ### Valid stores -/

/-- The counter of a store is right, and the store is within its limits. -/
structure Store.Sound (size : τ → ℕ) (s : Store φ τ) : Prop where
  accounted : s.receipts.bytes = s.receipts.reserved size
  bytes_le : s.receipts.bytes ≤ maxBytes
  length_le : s.receipts.entries.entries.length ≤ maxReceipts

/-- The store is sound, and the requests that are not yet done have a receipt without
response. -/
structure Store.Valid (size : τ → ℕ) (s : Store φ τ) : Prop where
  sound : s.Sound size
  nodup : s.owed.Nodup
  pending : ∀ id ∈ s.owed, ∃ fingerprint, s.receipts.entries.lookup id = some ⟨fingerprint, none⟩

/-- From one state to the next, the receipt of a request stays as it is but for a response that
it lacked, or is released with its response. -/
def Store.Holds (id : String) (s s' : Store φ τ) (a : StoreAction φ τ) : Prop :=
  ∀ receipt, s.receipts.entries.lookup id = some receipt →
    (∃ response, s'.receipts.entries.lookup id = some ⟨receipt.fingerprint, response⟩ ∧
      (receipt.response.isSome → response = receipt.response)) ∨
    a = .acknowledge id ∧ receipt.response.isSome

namespace Receipts

variable {size : τ → ℕ} {r : Receipts φ τ} {id : String}

/-- What a receipt reserves or occupies is part of what all of them do. -/
theorem receiptBytes_le {receipt : Receipt φ τ} (h : Accounted size r)
    (hl : r.entries.lookup id = some receipt) : receiptBytes size receipt ≤ r.bytes := by
  have hw := Table.weight_erase (w := fun _ => receiptBytes size) hl
  rw [Accounted, reserved] at h
  omega

end Receipts

section Valid

variable {size : τ → ℕ} {s s' : Store φ τ} {es : List (StoreEvent τ)}

theorem Store.valid_init : (⟨.empty, []⟩ : Store φ τ).Valid size :=
  ⟨⟨rfl, Nat.zero_le _, Nat.zero_le _⟩, List.nodup_nil, by simp⟩

/-- A call that leaves the store as it is. -/
theorem Store.Holds.refl (id : String) (s : Store φ τ) (a : StoreAction φ τ) :
    Store.Holds id s s a :=
  fun receipt hl => Or.inl ⟨receipt.response, hl, fun _ => rfl⟩

variable [DecidableEq φ]

/-- A request that was admitted finds its receipt when it is done, and what was reserved for it is
on the counter. -/
theorem Store.Valid.step_complete (hv : s.Valid size) {id : String} {response : τ}
    {receipts : Receipts φ τ} (hid : id ∈ s.owed) (hsize : size response < maxFrameBytes)
    (hr : s.receipts.complete size id response = some receipts) :
    s.step size (.complete id response) =
      some (⟨receipts, s.owed.erase id⟩, [.completed id]) := by
  obtain ⟨f, hl⟩ := hv.pending id hid
  have hle : maxFrameBytes ≤ s.receipts.bytes := Receipts.receiptBytes_le hv.sound.accounted hl
  simp [Store.step, Store.complete, hid, hsize, hl, hr, not_lt.mpr hle]

/-- What a receipt with a response occupies is on the counter when it is released. -/
theorem Store.Valid.step_acknowledge (hv : s.Valid size) {id : String} {response : τ}
    (hresp : s.receipts.response id = some response) :
    s.step size (.acknowledge id) =
      some ({ s with receipts := s.receipts.acknowledge size id }, [.released id]) := by
  obtain ⟨receipt, hl, hr⟩ := Option.bind_eq_some_iff.mp hresp
  have hle := Receipts.receiptBytes_le hv.sound.accounted hl
  rw [Receipts.receiptBytes, hr] at hle
  simp [Store.step, Store.acknowledge, hresp, not_lt.mpr hle]

/-- A request arrives. -/
theorem Store.Valid.accept (hv : s.Valid size) {id : String} {fingerprint : φ} {busy : Bool}
    (hs : s.step size (.accept id fingerprint busy) = some (s', es)) :
    s'.Valid size ∧ .panicked ∉ es ∧
      ∀ id', Store.Holds id' s s' (.accept id fingerprint busy) := by
  rw [Store.step] at hs
  by_cases hnew : (s.receipts.accept id fingerprint busy).1 = .new
  · rcases s.receipts.accept_cases id fingerprint busy with ⟨hid, heq⟩ | ⟨a, ha, heq⟩
    · obtain ⟨-, hlen, hbytes⟩ := (Receipts.accept_eq_new_iff fingerprint busy hid).mp hnew
      simp only [heq, if_true, Option.some.injEq, Prod.mk.injEq] at hs
      obtain ⟨rfl, rfl⟩ := hs
      have hold {id' : String} {receipt : Receipt φ τ}
          (hl : s.receipts.entries.lookup id' = some receipt) :
          (s.receipts.entries.insert id ⟨fingerprint, none⟩).lookup id' = some receipt := by
        have hne : id' ≠ id := fun h => hid (h ▸ Table.mem_of_lookup hl)
        rwa [AList.lookup_insert_ne hne]
      refine ⟨⟨⟨?_, hbytes, ?_⟩, ?_, ?_⟩, by simp, ?_⟩
      · exact Receipts.Accounted.insert hv.sound.accounted hid
      · dsimp only
        rw [AList.entries_insert_of_notMem hid, List.length_cons]
        exact hlen
      · refine List.nodup_cons.mpr ⟨fun hmem => ?_, hv.nodup⟩
        obtain ⟨f, hl⟩ := hv.pending id hmem
        exact hid (Table.mem_of_lookup hl)
      · intro id' hmem
        rcases List.mem_cons.mp hmem with rfl | hmem
        · exact ⟨fingerprint, AList.lookup_insert _⟩
        · obtain ⟨f, hl⟩ := hv.pending id' hmem
          exact ⟨f, hold hl⟩
      · exact fun id' receipt hl => Or.inl ⟨receipt.response, hold hl, fun _ => rfl⟩
    · rw [heq] at hnew
      exact absurd hnew ha
  · rcases s.receipts.accept_cases id fingerprint busy with ⟨hid, heq⟩ | ⟨a, ha, heq⟩
    · rw [heq] at hnew
      exact absurd rfl hnew
    · simp only [heq, if_neg ha, Option.some.injEq, Prod.mk.injEq] at hs
      obtain ⟨rfl, rfl⟩ := hs
      exact ⟨hv, by simp, fun id' => .refl id' s _⟩

/-- A request that was admitted is done. -/
theorem Store.Valid.complete (hv : s.Valid size) {id : String} {response : τ}
    (hs : s.step size (.complete id response) = some (s', es)) :
    s'.Valid size ∧ .panicked ∉ es ∧ ∀ id', Store.Holds id' s s' (.complete id response) := by
  by_cases howed : id ∈ s.owed ∧ size response < maxFrameBytes
  · obtain ⟨f, hl⟩ := hv.pending id howed.1
    have hnone : s.receipts.response id = none := by rw [Receipts.response, hl]; rfl
    have hle : maxFrameBytes ≤ s.receipts.bytes := Receipts.receiptBytes_le hv.sound.accounted hl
    have hdone : s.receipts.complete size id response = some
        ⟨s.receipts.entries.modify id fun receipt => { receipt with response := some response },
          s.receipts.bytes - maxFrameBytes + size response⟩ := by
      rw [Receipts.complete, hl]
    rw [hv.step_complete howed.1 howed.2 hdone] at hs
    simp only [Option.some.injEq, Prod.mk.injEq] at hs
    obtain ⟨rfl, rfl⟩ := hs
    refine ⟨⟨⟨?_, ?_, ?_⟩, hv.nodup.erase id, ?_⟩, by simp, ?_⟩
    · exact Receipts.Accounted.complete hv.sound.accounted hnone hdone
    · have hmax := hv.sound.bytes_le
      have hsize := howed.2
      dsimp only
      omega
    · simpa [Table.modify, Table.mapRows] using hv.sound.length_le
    · intro id' hmem
      obtain ⟨hne, hmem⟩ := (hv.nodup.mem_erase_iff).mp hmem
      obtain ⟨f', hl'⟩ := hv.pending id' hmem
      exact ⟨f', by rwa [Table.lookup_modify_of_ne hne]⟩
    · intro id' receipt hl'
      refine Or.inl ?_
      rcases eq_or_ne id' id with rfl | hne
      · rw [hl] at hl'
        obtain rfl := Option.some.inj hl'
        exact ⟨some response, by simp [hl], by simp⟩
      · exact ⟨receipt.response, by rwa [Table.lookup_modify_of_ne hne], fun _ => rfl⟩
  · rw [Store.step, if_neg howed] at hs
    cases hs

/-- A receipt is released. -/
theorem Store.Valid.acknowledge (hv : s.Valid size) {id : String}
    (hs : s.step size (.acknowledge id) = some (s', es)) :
    s'.Valid size ∧ .panicked ∉ es ∧ ∀ id', Store.Holds id' s s' (.acknowledge id) := by
  cases hresp : s.receipts.response id with
  | none =>
    simp only [Store.step, Store.acknowledge, hresp, Option.some.injEq, Prod.mk.injEq] at hs
    obtain ⟨rfl, rfl⟩ := hs
    exact ⟨hv, by simp, fun id' => .refl id' s _⟩
  | some response =>
    obtain ⟨receipt, hl, hr⟩ := Option.bind_eq_some_iff.mp hresp
    have heq : s.receipts.acknowledge size id =
        ⟨s.receipts.entries.erase id, s.receipts.bytes - size response⟩ := by
      rw [Receipts.acknowledge, hresp]
    rw [hv.step_acknowledge hresp] at hs
    simp only [Option.some.injEq, Prod.mk.injEq] at hs
    obtain ⟨rfl, rfl⟩ := hs
    refine ⟨⟨⟨?_, ?_, ?_⟩, hv.nodup, ?_⟩, by simp, ?_⟩
    · exact Receipts.Accounted.acknowledge hv.sound.accounted
    · rw [heq]
      exact le_trans (Nat.sub_le _ _) hv.sound.bytes_le
    · rw [heq]
      exact le_trans (List.kerase_sublist _ _).length_le hv.sound.length_le
    · intro id' hmem
      obtain ⟨f, hl'⟩ := hv.pending id' hmem
      have hne : id' ≠ id := by
        rintro rfl
        rw [hl] at hl'
        rw [Option.some.inj hl'] at hr
        cases hr
      rw [heq]
      exact ⟨f, by rwa [AList.lookup_erase_ne hne]⟩
    · intro id' receipt' hl'
      rcases eq_or_ne id' id with rfl | hne
      · rw [hl] at hl'
        exact Or.inr ⟨rfl, by rw [← Option.some.inj hl', hr]; rfl⟩
      · refine Or.inl ⟨receipt'.response, ?_, fun _ => rfl⟩
        rw [heq]
        rwa [AList.lookup_erase_ne hne]

/-- Every call keeps a store valid, does not panic, and keeps every receipt that it does not
release with its response. -/
theorem Store.Valid.step (hv : s.Valid size) {a : StoreAction φ τ}
    (hs : s.step size a = some (s', es)) :
    s'.Valid size ∧ .panicked ∉ es ∧ ∀ id, Store.Holds id s s' a := by
  cases a with
  | accept id fingerprint busy => exact hv.accept hs
  | complete id response => exact hv.complete hs
  | nextResponse sent id =>
    rw [Store.step] at hs
    split at hs
    · simp only [Option.some.injEq, Prod.mk.injEq] at hs
      obtain ⟨rfl, rfl⟩ := hs
      exact ⟨hv, by simp, fun id' => .refl id' s _⟩
    · cases hs
  | retry id =>
    simp only [Store.step, Option.some.injEq, Prod.mk.injEq] at hs
    obtain ⟨rfl, rfl⟩ := hs
    exact ⟨hv, by simp, fun id' => .refl id' s _⟩
  | acknowledge id => exact hv.acknowledge hs

theorem Store.Valid.of_run {log : List (StoreEvent τ)} (h : (storeSystem size).Run log s) :
    s.Valid size ∧ .panicked ∉ log := by
  refine h.invariant (I := fun log s => s.Valid size ∧ .panicked ∉ log) ?_ fun _ hI hs => ?_
  · rintro _ rfl
    exact ⟨Store.valid_init, List.not_mem_nil⟩
  · obtain ⟨hv, hnone, -⟩ := hI.1.step hs
    exact ⟨hv, by simp [hI.2, hnone]⟩

/-- **Accounting.** In every run of a receipt store the counter is what the receipts reserve and
occupy, the store is within its limits, no call panics, a request that was admitted finds its
receipt when it is done, a receipt that is held is not admitted again, and the next call releases
a receipt only with its response. -/
theorem store_sound {log : List (StoreEvent τ)} (h : (storeSystem size).Run log s) :
    s.Sound size ∧ .panicked ∉ log ∧
      (∀ id ∈ s.owed, ∀ response, size response < maxFrameBytes →
        ∃ s', s.step size (.complete id response) = some (s', [.completed id])) ∧
      (∀ id ∈ s.receipts.entries, ∀ fingerprint busy,
        (s.receipts.accept id fingerprint busy).1 ≠ .new) ∧
      ∀ a s' es, s.step size a = some (s', es) → ∀ id, Store.Holds id s s' a := by
  obtain ⟨hv, hnone⟩ := Store.Valid.of_run h
  refine ⟨hv.sound, hnone, ?_, ?_, ?_⟩
  · intro id hid response hsize
    obtain ⟨f, hl⟩ := hv.pending id hid
    exact ⟨_, hv.step_complete hid hsize (by rw [Receipts.complete, hl])⟩
  · intro id hid fingerprint busy hnew
    rcases s.receipts.accept_cases id fingerprint busy with ⟨hnot, -⟩ | ⟨a, ha, heq⟩
    · exact hnot hid
    · rw [heq] at hnew
      exact ha hnew
  · exact fun a s' es hs => (hv.step hs).2.2

/-- A request is admitted, refused under another digest, and done. -/
theorem store_sound_completed :
    ∃ s : Store ℕ String, s.owed = [] ∧ s.receipts.response "one" = some "response" ∧
      s.Sound String.utf8ByteSize := by
  have hexec : ∃ (s : Store ℕ String) (log : List (StoreEvent String)),
      (storeSystem String.utf8ByteSize).exec ⟨.empty, []⟩
        [.accept "one" 1 false, .accept "one" 2 false, .complete "one" "response"] =
          some (s, log) ∧ s.owed = [] ∧ s.receipts.response "one" = some "response" :=
    ⟨_, _, rfl, rfl, rfl⟩
  obtain ⟨s, log, hrun, howed, hresp⟩ := hexec
  exact ⟨s, howed, hresp, (store_sound ⟨_, rfl, .of_exec hrun⟩).1⟩

end Valid

/-! ### The store of a host -/

section Host

variable {π : Type} [DecidableEq φ] {c : Codec π φ} {h h' : Host π φ}

/-- A host admits a request as its receipt store says. -/
theorem accept_of_admitted {request : Request π} {full : Bool} {frames : List HostMessage}
    {es : List Event} (hs : h.step c (.receive (.request request) full) = some (h', frames, es))
    {g : Uuid} {id : String} {terminatesRun : Bool} (he : .admitted g id terminatesRun ∈ es) :
    h.receipts.accept request.requestId (c.fingerprint request) (h.busy c request) =
      (.new, h'.receipts) := by
  have key : ∀ connection : Connection,
      .admitted g id terminatesRun ∈ (h.receive c connection (.request request)).events →
      h.receipts.accept request.requestId (c.fingerprint request) (h.busy c request) =
        (.new, (h.receive c connection (.request request)).host.receipts) := by
    intro connection hmem
    rw [Host.receive] at hmem ⊢
    cases hrec : connection.recovery with
    | none =>
      rw [hrec] at hmem
      exact absurd hmem List.not_mem_nil
    | some recovery =>
      cases recovery with
      | false =>
        by_cases hbusy : h.busy c request = true
        · simp [hrec, Host.receiveNext, Host.acceptDirect, hbusy] at hmem
        · simp [hrec, Host.receiveNext, Host.acceptDirect, hbusy] at hmem
      | true =>
        simp only [hrec, Host.receiveNext, if_true, Host.accept] at hmem ⊢
        by_cases hid : request.requestId = "" ∨ 256 < request.requestId.utf8ByteSize
        · simp [if_pos hid] at hmem
        · rw [if_neg hid] at hmem ⊢
          split at hmem
          · next receipts heq => rw [heq]
          · simp at hmem
          · simp at hmem
          · simp at hmem
  simp only [Host.step, Host.read] at hs
  split at hs
  · cases hs
  · next connection _ =>
    split at hs
    · simp only [Option.some.injEq, Prod.mk.injEq] at hs
      obtain ⟨rfl, -, rfl⟩ := hs
      exact key connection he
    · simp only [Option.some.injEq, Prod.mk.injEq] at hs
      obtain ⟨rfl, -, rfl⟩ := hs
      rw [key connection he]
      split <;> rfl

/-- A store that is that of a host. -/
structure StoreOf (h : Host π φ) (s : Store φ Response) : Prop where
  receipts : s.receipts = h.receipts
  owed : h.pending.Perm s.owed

/-- **The store of a host.** Whatever a host does, it uses its receipt store as `storeSystem`
says, when a response is always smaller than a frame. -/
theorem store_of_hostSystem (hbound : ∀ r, c.textBytes (responseText c r) < maxFrameBytes)
    (hr : (hostSystem c).Reachable h) :
    ∃ s, (storeSystem c.textBytes).Reachable s ∧ StoreOf h s := by
  refine (hr.invariant (I := fun h => h.Valid c ∧ ∃ s, (storeSystem c.textBytes).Reachable s ∧
    StoreOf h s) ?_ ?_).2
  · rintro _ ⟨g, rfl⟩
    exact ⟨Host.valid_init g, _, .start rfl, rfl, .refl _⟩
  · rintro t a u es _ ⟨hvalid, s, hs, hreceipts, howed⟩ hstep
    obtain ⟨⟨u', frames, es'⟩, hhost, heq⟩ := Option.map_eq_some_iff.mp hstep
    obtain ⟨rfl, rfl⟩ : u' = u ∧ es' = es := by simpa using heq
    have he := effect_of_step hhost
    refine ⟨hvalid.effect he, ?_⟩
    cases he with
    | idle hsame =>
      exact ⟨s, hs, by rw [hreceipts, hsame.receipts],
        by rwa [Host.pending, hsame.requests, ← Host.pending]⟩
    | @accept request full frames hid hg hr hq hf =>
      have hacc := accept_of_admitted hhost List.mem_cons_self
      have hstep : (storeSystem c.textBytes).step s
          (.accept request.requestId (c.fingerprint request) (t.busy c request)) =
            some (⟨u'.receipts, request.requestId :: s.owed⟩,
              [.answered request.requestId .new]) := by
        simp [storeSystem, Store.step, hreceipts, hacc]
      refine ⟨⟨u'.receipts, request.requestId :: s.owed⟩, hs.tail hstep, rfl, ?_⟩
      · rw [Host.pending, hq, List.filterMap_append, ← Host.pending]
        exact (List.perm_append_singleton _ _).trans (howed.cons _)
    | start hg hr hq =>
      refine ⟨s, hs, by rw [hreceipts, hr], ?_⟩
      rw [Host.pending, hq, List.filterMap_append, ← Host.pending]
      simpa [Task.pending] using howed
    | reject hsame =>
      exact ⟨s, hs, by rw [hreceipts, hsame.receipts],
        by rwa [Host.pending, hsame.requests, ← Host.pending]⟩
    | @remove id full response hresp hg hr hq =>
      obtain ⟨log, hlog⟩ := hs
      obtain ⟨hv, -⟩ := Store.Valid.of_run hlog
      refine ⟨⟨s.receipts.acknowledge c.textBytes id, s.owed⟩, Reachable.tail ⟨log, hlog⟩
        (a := .acknowledge id) (hv.step_acknowledge (hreceipts ▸ hresp)), by rw [hr, hreceipts], ?_⟩
      rwa [Host.pending, hq, ← Host.pending]
    | @complete i result lost task response hi hfin hreply hresp hg hr hq =>
      have hperm : t.pending.Perm (task.request.requestId :: u'.pending) := by
        rw [Host.pending, Host.pending, hq]
        exact perm_filterMap_set hi (by simp [Task.pending, hfin, hreply]) (by simp [Task.pending])
      have hmem : task.request.requestId ∈ s.owed :=
        howed.mem_iff.mp (hperm.mem_iff.mpr List.mem_cons_self)
      obtain ⟨log, hlog⟩ := hs
      obtain ⟨hv, -⟩ := Store.Valid.of_run hlog
      refine ⟨⟨u'.receipts, s.owed.erase task.request.requestId⟩, Reachable.tail ⟨log, hlog⟩
        (a := .complete task.request.requestId response)
        (hv.step_complete hmem (hresp ▸ hbound _) (hreceipts ▸ hr)), rfl, ?_⟩
      exact (List.cons_perm_iff_perm_erase.mp (hperm.symm.trans howed)).2
    | reply hi hfin hreply hresp hg hr hq hf =>
      refine ⟨s, hs, by rw [hreceipts, hr], ?_⟩
      rw [Host.pending, hq, filterMap_set_of_none hi (by simp [Task.pending, hreply])
        (by simp [Task.pending]), ← Host.pending]
      exact howed
    | join hi hfin hg hr hq =>
      refine ⟨s, hs, by rw [hreceipts, hr], ?_⟩
      rw [Host.pending, hq, filterMap_eraseIdx_of_none hi (by simp [Task.pending, hfin]),
        ← Host.pending]
      exact howed

end Host

end ExecutionProvider.Daemon
