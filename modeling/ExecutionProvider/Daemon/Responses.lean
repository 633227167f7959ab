import ExecutionProvider.Daemon.Host

/-!
# What a host answers

A host keeps a receipt until the gateway acknowledges its response, and a response that it sends
is the outcome of a task it has finished, or the rejection of a request it had no room for.

## Main definitions

* `Event.Issues`: a response is issued for a request.

## Main results

* `Effect.contains_or_acknowledge`: only an acknowledgement removes a receipt.
* `Effect.response_origin`, `Effect.said_origin`: where the responses of the receipts and those on
  the connection come from.
-/

namespace ExecutionProvider.Daemon

open Protocol

variable {π φ : Type}

/-- A response is issued for a request: its task is done, or the request is rejected. -/
inductive Event.Issues (generation : Uuid) (id : String) (r : Response) : Event → Prop
  | finished : Issues generation id r (.finished generation id r)
  | rejected : Issues generation id r (.rejected generation id r)

/-! ### Receipts and their responses -/

section

variable {size : Response → ℕ} {r r' : Receipts φ Response} {id k : String}
  {response : Response}

theorem Receipts.contains_of_complete (h : r.complete size k response = some r')
    (hid : r.contains id = true) : r'.contains id = true := by
  unfold Receipts.complete at h
  split at h
  · cases h
  · obtain rfl := Option.some.inj h
    exact Receipts.contains_iff.mpr (Table.mem_modify.mpr (Receipts.contains_iff.mp hid))

/-- A receipt is released once it has a response. -/
theorem Receipts.contains_acknowledge (hid : r.contains id = true) :
    (r.acknowledge size k).contains id = true ∨ id = k := by
  unfold Receipts.acknowledge
  split
  · exact Or.inl hid
  · rcases eq_or_ne id k with heq | hne
    · exact Or.inr heq
    · refine Or.inl ?_
      rw [Receipts.contains, AList.lookup_erase_ne hne]
      exact hid

theorem Receipts.response_of_complete (h : r.complete size k response = some r') {x : Response}
    (hx : r'.response id = some x) : r.response id = some x ∨ id = k ∧ x = response := by
  unfold Receipts.complete at h
  split at h
  · cases h
  · next receipt hreceipt =>
    obtain rfl := Option.some.inj h
    rcases eq_or_ne id k with rfl | hne
    · rw [Receipts.response, Table.lookup_modify, hreceipt] at hx
      exact Or.inr ⟨rfl, (Option.some.inj hx).symm⟩
    · rw [Receipts.response, Table.lookup_modify_of_ne hne] at hx
      exact Or.inl hx

theorem Receipts.response_complete (h : r.complete size k response = some r') :
    r'.response k = some response := by
  unfold Receipts.complete at h
  split at h
  · cases h
  · next receipt hreceipt =>
    obtain rfl := Option.some.inj h
    rw [Receipts.response, Table.lookup_modify, hreceipt]
    rfl

theorem Receipts.response_of_acknowledge {x : Response}
    (hx : (r.acknowledge size k).response id = some x) : r.response id = some x := by
  unfold Receipts.acknowledge at hx
  split at hx
  · exact hx
  · rcases eq_or_ne id k with rfl | hne
    · rw [Receipts.response, AList.lookup_erase] at hx
      cases hx
    · rwa [Receipts.response, AList.lookup_erase_ne hne] at hx

end

/-! ### Steps -/

section

variable {c : Codec π φ} {h h' : Host π φ} {a : Action π} {frames : List HostMessage}
  {es : List Event} {id : String} {r : Response}

/-- A receipt stays until an acknowledgement for it is read. -/
theorem Effect.contains_or_acknowledge (he : Effect c h h' a frames es)
    (hid : h.receipts.contains id = true) : h'.receipts.contains id = true ∨
      ∃ full, a = .receive (.acknowledge id h.generation) full := by
  cases he with
  | idle hs => exact Or.inl (hs.receipts ▸ hid)
  | @accept request full frames hnew hg hr =>
    refine Or.inl (hr ▸ Receipts.contains_iff.mpr ((AList.mem_insert _).mpr (Or.inr ?_)))
    exact Receipts.contains_iff.mp hid
  | start _ hr => exact Or.inl (hr ▸ hid)
  | reject hs => exact Or.inl (hs.receipts ▸ hid)
  | @remove k full response hresp hg hr =>
    rcases Receipts.contains_acknowledge (k := k) hid with hkept | rfl
    · exact Or.inl (hr ▸ hkept)
    · exact Or.inr ⟨full, rfl⟩
  | complete _ _ _ _ _ hr => exact Or.inl (Receipts.contains_of_complete hr hid)
  | reply _ _ _ _ _ hr => exact Or.inl (hr ▸ hid)
  | join _ _ _ hr => exact Or.inl (hr ▸ hid)

/-- The response of a receipt was there before, or its task is done in the step. -/
theorem Effect.response_origin (he : Effect c h h' a frames es)
    (hr' : h'.receipts.response id = some r) :
    h.receipts.response id = some r ∨ ∃ e ∈ es, e.Issues h.generation id r := by
  cases he with
  | idle hs => exact Or.inl (hs.receipts ▸ hr')
  | @accept request full frames hnew hg hr =>
    rw [hr] at hr'
    rcases eq_or_ne id request.requestId with rfl | hne
    · rw [Receipts.response, AList.lookup_insert] at hr'
      cases hr'
    · rw [Receipts.response, AList.lookup_insert_ne hne] at hr'
      exact Or.inl hr'
  | start _ hr => exact Or.inl (hr ▸ hr')
  | reject hs => exact Or.inl (hs.receipts ▸ hr')
  | remove _ _ hr => exact Or.inl (Receipts.response_of_acknowledge (hr ▸ hr'))
  | complete _ _ _ _ _ hr =>
    rcases Receipts.response_of_complete hr hr' with hold | ⟨rfl, rfl⟩
    · exact Or.inl hold
    · exact Or.inr ⟨_, List.mem_singleton_self _, .finished⟩
  | reply _ _ _ _ _ hr => exact Or.inl (hr ▸ hr')
  | join _ _ _ hr => exact Or.inl (hr ▸ hr')

/-- A response that is sent is that of a receipt, or is issued in the step. -/
theorem Effect.said_origin (he : Effect c h h' a frames es) (hmem : .response r ∈ frames) :
    ∃ id, h.receipts.response id = some r ∨ ∃ e ∈ es, e.Issues h.generation id r := by
  cases he with
  | idle _ hf =>
    cases hf _ hmem with
    | response hr => exact ⟨_, Or.inl hr⟩
  | accept _ _ _ _ hf => cases hf _ hmem
  | start => cases hmem
  | reject _ hf =>
    obtain rfl := HostMessage.response.inj (hf _ hmem)
    exact ⟨_, Or.inr ⟨_, List.mem_singleton_self _, .rejected⟩⟩
  | remove => cases hmem
  | complete => cases hmem
  | reply _ _ _ _ _ _ _ hf =>
    obtain rfl := HostMessage.response.inj (hf _ hmem)
    exact ⟨_, Or.inr ⟨_, List.mem_singleton_self _, .finished⟩⟩
  | join => cases hmem

theorem requestId_of_new {g : Uuid} {x : Result Json} {i : Option String} {text : String}
    (h : (Response.new i g x).requestId = some text) : i = some text :=
  (Option.filter_eq_some_iff.mp h).1

/-- A response that is written names no other request, whether it fits or not. -/
theorem requestId_of_responseText {text : String}
    (h : (responseText c r).requestId = some text) : r.requestId = some text := by
  have hencode (hx : (encodeResponse c r).requestId = some text) : r.requestId = some text := by
    unfold encodeResponse at hx
    split_ifs at hx
    · exact hx
    · exact requestId_of_new hx
  unfold responseText at h
  split_ifs at h
  · exact hencode h
  · exact requestId_of_new h

/-- A response names the request for which it is issued, unless its identity is too long. -/
theorem requestId_of_issued {g : Uuid} {x : Result Json} {text : String}
    (h : (responseText c (.new (some id) g x)).requestId = some text) : text = id :=
  (Option.some.inj (requestId_of_new (requestId_of_responseText h))).symm

/-- A task of a host was there before, or its request is read in the step. -/
theorem Effect.task_origin (he : Effect c h h' a frames es) {t : Task π} (ht : t ∈ h'.requests) :
    (∃ t₀ ∈ h.requests, t.request = t₀.request) ∨
      ∃ full, a = .receive (.request t.request) full := by
  cases he with
  | idle hs => exact Or.inl ⟨t, hs.requests ▸ ht, rfl⟩
  | accept _ _ _ hq =>
    rw [hq] at ht
    rcases List.mem_append.mp ht with hold | hlast
    · exact Or.inl ⟨t, hold, rfl⟩
    · obtain rfl := List.mem_singleton.mp hlast
      exact Or.inr ⟨_, rfl⟩
  | start _ _ hq =>
    rw [hq] at ht
    rcases List.mem_append.mp ht with hold | hlast
    · exact Or.inl ⟨t, hold, rfl⟩
    · obtain rfl := List.mem_singleton.mp hlast
      exact Or.inr ⟨_, rfl⟩
  | reject hs => exact Or.inl ⟨t, hs.requests ▸ ht, rfl⟩
  | remove _ _ _ hq => exact Or.inl ⟨t, hq ▸ ht, rfl⟩
  | complete hi _ _ _ _ _ hq =>
    rw [hq] at ht
    rcases List.mem_or_eq_of_mem_set ht with hold | rfl
    · exact Or.inl ⟨t, hold, rfl⟩
    · exact Or.inl ⟨_, List.mem_of_getElem? hi, rfl⟩
  | reply hi _ _ _ _ _ hq =>
    rw [hq] at ht
    rcases List.mem_or_eq_of_mem_set ht with hold | rfl
    · exact Or.inl ⟨t, hold, rfl⟩
    · exact Or.inl ⟨_, List.mem_of_getElem? hi, rfl⟩
  | join _ _ _ _ hq =>
    rw [hq] at ht
    exact Or.inl ⟨t, List.mem_of_mem_eraseIdx ht, rfl⟩

/-- A response is issued for a task, or for a request that is read, and names no other request. -/
theorem Effect.issues_origin (he : Effect c h h' a frames es) {e : Event} {g : Uuid} (hmem : e ∈ es)
    (hissues : e.Issues g id r) : g = h.generation ∧
      (∀ text, r.requestId = some text → text = id) ∧
      ((∃ t ∈ h.requests, t.request.requestId = id) ∨
        ∃ request full, a = .receive (.request request) full ∧ request.requestId = id) := by
  cases he with
  | idle => cases hmem
  | accept => cases hissues <;> simp at hmem
  | start => cases hissues <;> simp at hmem
  | reject =>
    obtain rfl := List.mem_singleton.mp hmem
    cases hissues
    exact ⟨rfl, fun text h => requestId_of_issued h, Or.inr ⟨_, _, rfl, rfl⟩⟩
  | remove => cases hissues <;> simp at hmem
  | complete hi _ _ hresp =>
    obtain rfl := List.mem_singleton.mp hmem
    cases hissues
    exact ⟨rfl, fun text h => requestId_of_issued (hresp ▸ h),
      Or.inl ⟨_, List.mem_of_getElem? hi, rfl⟩⟩
  | reply hi _ _ hresp =>
    obtain rfl := List.mem_singleton.mp hmem
    cases hissues
    exact ⟨rfl, fun text h => requestId_of_issued (hresp ▸ h),
      Or.inl ⟨_, List.mem_of_getElem? hi, rfl⟩⟩
  | join => cases hmem

/-- The response of a receipt stays until an acknowledgement is read, or its task is done again. -/
theorem Effect.response_kept (he : Effect c h h' a frames es)
    (hr : h.receipts.response id = some r) : h'.receipts.response id = some r ∨
      (∃ full, a = .receive (.acknowledge id h.generation) full) ∨
      ∃ r', .finished h.generation id r' ∈ es := by
  cases he with
  | idle hs => exact Or.inl (hs.receipts ▸ hr)
  | @accept request full frames hnew hg hr' =>
    refine Or.inl ?_
    have hne : id ≠ request.requestId := by
      rintro rfl
      rw [Receipts.response, AList.lookup_eq_none.mpr hnew] at hr
      cases hr
    rwa [hr', Receipts.response, AList.lookup_insert_ne hne]
  | start _ hr' => exact Or.inl (hr' ▸ hr)
  | reject hs => exact Or.inl (hs.receipts ▸ hr)
  | @remove k full response hresp hg hr' =>
    rcases eq_or_ne id k with rfl | hne
    · exact Or.inr (Or.inl ⟨full, rfl⟩)
    · refine Or.inl ?_
      rwa [hr', Receipts.acknowledge, hresp, Receipts.response, AList.lookup_erase_ne hne]
  | @complete i result lost task response hi hfin hreply hresp hg hr' =>
    rcases eq_or_ne id task.request.requestId with rfl | hne
    · exact Or.inr (Or.inr ⟨_, List.mem_singleton_self _⟩)
    · refine Or.inl ?_
      unfold Receipts.complete at hr'
      split at hr'
      · cases hr'
      · rw [← Option.some.inj hr', Receipts.response, Table.lookup_modify_of_ne hne]
        exact hr
  | reply _ _ _ _ _ hr' => exact Or.inl (hr' ▸ hr)
  | join _ _ _ hr' => exact Or.inl (hr' ▸ hr)

/-! ### Connections with recovery -/

/-- A host whose connection has not been welcomed without recovery. -/
def Host.Recovers (h : Host π φ) : Prop :=
  ∀ conn, h.connection = some conn → conn.recovery ≠ some false

/-- On a connection with recovery, no task is to answer on the connection. -/
theorem Host.requests_accept [DecidableEq φ] (h : Host π φ) (request : Request π) :
    (h.accept c request).host.requests = h.requests ∨
      (h.accept c request).host.requests = h.requests ++ [⟨request, .receipt, false⟩] := by
  rw [Host.accept]
  dsimp only
  split_ifs
  · exact Or.inl rfl
  · split
    · exact Or.inr rfl
    · exact Or.inl rfl
    · exact Or.inl rfl
    · exact Or.inl rfl

/-- A host with recovery starts no task that is to answer on the connection. -/
theorem not_start_of_step [DecidableEq φ] (hrec : h.Recovers) {request : Request π} {full : Bool}
    (hs : h.step c (.receive (.request request) full) = some (h', frames, es))
    (connection : Uuid) :
    h'.requests ≠ h.requests ++ [⟨request, .connection connection, false⟩] := by
  intro heq
  have hother {host : Host π φ} (hhost : h'.requests = host.requests)
      (hor : host.requests = h.requests ∨
        host.requests = h.requests ++ [⟨request, .receipt, false⟩]) : False := by
    rcases hor with hsame | hmore
    · rw [hhost, hsame] at heq
      simp at heq
    · rw [hhost, hmore] at heq
      simp at heq
  simp only [Host.step, Host.read] at hs
  split at hs
  · cases hs
  · next conn hconn =>
    have hcases : (h.receive c conn (.request request)).host.requests = h.requests ∨
        (h.receive c conn (.request request)).host.requests =
          h.requests ++ [⟨request, .receipt, false⟩] := by
      rw [Host.receive]
      cases hrecovery : conn.recovery with
      | none => exact Or.inl rfl
      | some recovery =>
        cases recovery with
        | false => exact absurd hrecovery (hrec conn hconn)
        | true => exact h.requests_accept request
    split_ifs at hs
    · exact hother (congrArg (fun x => x.1.requests) (Option.some.inj hs)).symm hcases
    · exact hother (congrArg (fun x => x.1.requests) (Option.some.inj hs)).symm hcases
    · exact hother (congrArg (fun x => x.1.requests) (Option.some.inj hs)).symm hcases

/-- A reaction keeps what was negotiated, unless it is the reaction to the welcome. -/
theorem recovery_receive [DecidableEq φ] {conn conn' : Connection}
    (hconn : h.connection = some conn) {m : GatewayMessage π}
    (hconn' : (h.receive c conn m).host.connection = some conn') :
    conn'.recovery = conn.recovery ∨ ∃ b, m = .welcome b ∧ conn'.recovery = some b := by
  have hsame {host : Host π φ} (heq : host.connection = h.connection)
      (h' : host.connection = some conn') : conn'.recovery = conn.recovery := by
    rw [heq, hconn] at h'
    rw [Option.some.inj h']
  rw [Host.receive] at hconn'
  cases hrecovery : conn.recovery with
  | none =>
    rw [hrecovery] at hconn'
    cases m with
    | welcome recovery =>
      obtain rfl := Option.some.inj hconn'
      exact Or.inr ⟨recovery, rfl, rfl⟩
    | _ => exact Or.inl ((hsame rfl hconn').trans hrecovery)
  | some recovery =>
    rw [hrecovery] at hconn'
    rw [← hrecovery]
    cases m with
    | request request =>
      dsimp only [Host.receiveNext] at hconn'
      split_ifs at hconn'
      · rw [Host.accept] at hconn'
        dsimp only at hconn'
        split_ifs at hconn'
        · exact Or.inl (hsame rfl hconn')
        · split at hconn' <;> exact Or.inl (hsame rfl hconn')
      · rw [Host.acceptDirect] at hconn'
        dsimp only at hconn'
        split_ifs at hconn' <;> exact Or.inl (hsame rfl hconn')
    | recover id generation =>
      dsimp only [Host.receiveNext] at hconn'
      split_ifs at hconn'
      · rw [← Option.some.inj hconn']
        exact Or.inl rfl
      · exact Or.inl (hsame rfl hconn')
    | acknowledge id generation =>
      dsimp only [Host.receiveNext] at hconn'
      split_ifs at hconn'
      · rw [← Option.some.inj hconn']
        exact Or.inl rfl
      · exact Or.inl (hsame rfl hconn')
      · exact Or.inl (hsame rfl hconn')
    | welcome recovery => exact Or.inl (hsame rfl hconn')
    | disconnect code => exact Or.inl (hsame rfl hconn')

/-- A host that is only ever welcomed with recovery has connections with recovery. -/
theorem Host.Recovers.step [DecidableEq φ] (hrec : h.Recovers)
    (hs : h.step c a = some (h', frames, es))
    (hwelcome : ∀ b full, a = .receive (.welcome b) full → b = true) : h'.Recovers := by
  intro conn' hconn'
  cases a with
  | connect id =>
    simp only [Host.step, Option.ite_none_right_eq_some, Option.some.injEq, Prod.mk.injEq] at hs
    obtain ⟨-, rfl, -, -⟩ := hs
    rw [← Option.some.inj hconn']
    exact fun h => by cases h
  | receive m full =>
    simp only [Host.step, Host.read] at hs
    split at hs
    · cases hs
    · next conn hconn =>
      have hreceive (h₁ : (h.receive c conn m).host.connection = some conn') :
          conn'.recovery ≠ some false := by
        rcases recovery_receive hconn h₁ with heq | ⟨b, rfl, heq⟩
        · rw [heq]
          exact hrec conn hconn
        · rw [heq, hwelcome b full rfl]
          exact fun h => by cases h
      split_ifs at hs
      · simp only [Option.some.injEq, Prod.mk.injEq] at hs
        obtain ⟨rfl, -, -⟩ := hs
        cases hconn'
      · simp only [Option.some.injEq, Prod.mk.injEq] at hs
        obtain ⟨rfl, -, -⟩ := hs
        exact hreceive hconn'
      · simp only [Option.some.injEq, Prod.mk.injEq] at hs
        obtain ⟨rfl, -, -⟩ := hs
        cases hconn'
  | finish i result lost =>
    simp only [Host.step, Host.finish] at hs
    split at hs
    · cases hs
    · split_ifs at hs
      split at hs
      · split at hs
        · cases hs
        · simp only [Option.some.injEq, Prod.mk.injEq] at hs
          obtain ⟨rfl, -, -⟩ := hs
          exact hrec conn' hconn'
      · simp only [Option.some.injEq, Prod.mk.injEq] at hs
        obtain ⟨rfl, -, -⟩ := hs
        exact hrec conn' hconn'
  | join i =>
    simp only [Host.step, Host.join] at hs
    split at hs
    · cases hs
    · split_ifs at hs
      simp only [Option.some.injEq, Prod.mk.injEq] at hs
      obtain ⟨rfl, -, -⟩ := hs
      exact hrec conn' hconn'
  | respond id full =>
    simp only [Host.step, Host.respond] at hs
    split at hs
    · next conn response hconn hresp =>
      split_ifs at hs
      · simp only [Option.some.injEq, Prod.mk.injEq] at hs
        obtain ⟨rfl, -, -⟩ := hs
        cases hconn'
      · simp only [Option.some.injEq, Prod.mk.injEq] at hs
        obtain ⟨rfl, -, -⟩ := hs
        rw [← Option.some.inj hconn']
        exact hrec conn hconn
    · cases hs
  | disconnect =>
    simp only [Host.step, Option.ite_none_right_eq_some, Option.some.injEq, Prod.mk.injEq] at hs
    obtain ⟨-, rfl, -, -⟩ := hs
    cases hconn'

end

end ExecutionProvider.Daemon
