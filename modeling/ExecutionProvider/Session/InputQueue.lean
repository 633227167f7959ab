import ExecutionProvider.Session.Steps

/-!
# The input queue

Bytes that are accepted for the input of a process hold a permit each, from the moment they are
sent to the input task until it has written them or has failed to. The task receives what was sent
in its order, and stops at a request to close the input.

## Main definitions

* `accepted`, `acceptedIds`, `written`: what was sent, under which identities, and what was written.
* `World.unwritten`: the bytes in the queue and those that are being written.
* `Flows`: what holds of the input along a run.

## Main results

* `input_queue`: what is written is the beginning of what was accepted before a request to close,
  and what waits to be written is bounded.
-/

namespace ExecutionProvider.Session

open ExecutionProvider.Runtime (StopReason WriteOutcome)

/-! ### What was accepted and written -/

/-- The items that were sent to the input task. -/
def accepted (log : List Event) : List Input :=
  log.filterMap fun
    | .sent _ input => some input
    | _ => none

/-- The identities under which items were sent. -/
def acceptedIds (log : List Event) : List String :=
  log.filterMap fun
    | .sent inputId _ => inputId
    | _ => none

/-- The bytes that were written to the process. -/
def written (log : List Event) : List UInt8 :=
  log.flatMap fun
    | .wrote bytes => bytes
    | _ => []

/-- The bytes of some items. -/
def payload (items : List Input) : List UInt8 := items.flatMap Input.data

/-- The items before a request to close the input. -/
def beforeClose (items : List Input) : List Input := items.takeWhile fun input => input ≠ .close

/-- The bytes that are queued or being written. -/
def World.unwritten (w : World) : List UInt8 := w.inputTask.left ++ w.queue.bytes

/-- The task neither has failed nor is about to end. -/
def InputTask.flows : InputTask → Bool
  | absent => true
  | unspawned => true
  | receiving => true
  | writing .. => true
  | flushing _ => true
  | _ => false

section Lists

variable (log log' : List Event) (items items' : List Input)

@[simp] theorem accepted_append : accepted (log ++ log') = accepted log ++ accepted log' :=
  List.filterMap_append

@[simp] theorem acceptedIds_append :
    acceptedIds (log ++ log') = acceptedIds log ++ acceptedIds log' := List.filterMap_append

@[simp] theorem written_append : written (log ++ log') = written log ++ written log' :=
  List.flatMap_append

@[simp] theorem payload_append : payload (items ++ items') = payload items ++ payload items' :=
  List.flatMap_append

/-- Before a request to close come all items if there is none. -/
theorem beforeClose_append {items : List Input} (h : Input.close ∉ items) :
    beforeClose (items ++ items') = items ++ beforeClose items' := by
  refine List.takeWhile_append_of_pos fun input hmem => ?_
  simp only [decide_eq_true_eq, ne_eq]
  rintro rfl
  exact h hmem

/-- What comes before a request to close stays when more is accepted. -/
theorem beforeClose_isPrefix :
    payload (beforeClose items) <+: payload (beforeClose (items ++ items')) := by
  have hitems : beforeClose items <+: beforeClose (items ++ items') := by
    rw [beforeClose, beforeClose, List.takeWhile_append]
    split_ifs
    · exact (List.takeWhile_prefix _).trans (List.prefix_append _ _)
    · exact List.prefix_rfl
  obtain ⟨rest, hrest⟩ := hitems
  rw [← hrest, payload_append]
  exact List.prefix_append _ _

@[simp] theorem written_sent (inputId : Option String) (input : Input) :
    written [.sent inputId input] = [] := rfl

end Lists

/-- The bytes of the items that go give their permits back. -/
theorem Queue.room_disconnect (q : Queue) :
    q.disconnect.available + q.disconnect.bytes.length = q.available + q.bytes.length := rfl

/-! ### Steps -/

/-- Before the readers and the input task are spawned. -/
def RunTask.early : RunTask → Bool
  | .cancelled => true
  | .spawning => true
  | .spawned _ => true
  | .launched _ => true
  | _ => false

/-- What holds of the input along a run. There is a permit for each byte that is queued or being
written. While the input flows, what was accepted is what was taken, without any request to close,
and what is queued; of what was taken, all but what is left was written. Afterwards what was
written stays the beginning of what was accepted before a request to close. -/
structure Flows (S : Setup) (log : List Event) (w : World) : Prop where
  early : w.task.early = true → w.inputTask = .absent ∨ w.inputTask = .unspawned
  permits : w.queue.available + w.queue.bytes.length + w.inputTask.permits =
    S.limits.maxQueuedInputBytes
  left : w.inputTask.left.length ≤ w.inputTask.permits
  flows : w.inputTask.flows = true → ∃ taken, Input.close ∉ taken ∧
    accepted log = taken ++ w.queue.items ∧ payload taken = written log ++ w.inputTask.left
  begins : written log <+: payload (beforeClose (accepted log))
  nodup : (acceptedIds log).Nodup
  receipts : ∀ inputId ∈ acceptedIds log, inputId ∈ w.data.inputReceipts

variable {S : Setup} {w u : World} {log es : List Event}

/-- A step that has nothing to do with the input. -/
theorem Flows.other (h : Flows S log w) (hearly : u.task.early = true → w.task.early = true)
    (hqueue : u.queue = w.queue) (hinput : u.inputTask = w.inputTask)
    (hreceipts : u.data.inputReceipts = w.data.inputReceipts)
    (haccepted : accepted es = []) (hids : acceptedIds es = []) (hwritten : written es = []) :
    Flows S (log ++ es) u where
  early he := hinput ▸ h.early (hearly he)
  permits := by rw [hqueue, hinput]; exact h.permits
  left := by rw [hinput]; exact h.left
  flows hf := by
    obtain ⟨taken, hclose, hacc, hpay⟩ := h.flows (hinput ▸ hf)
    refine ⟨taken, hclose, ?_, ?_⟩
    · rw [accepted_append, haccepted, List.append_nil, hqueue, hacc]
    · rw [written_append, hwritten, List.append_nil, hinput, hpay]
  begins := by
    rw [written_append, hwritten, List.append_nil, accepted_append, haccepted, List.append_nil]
    exact h.begins
  nodup := by
    rw [acceptedIds_append, hids, List.append_nil]
    exact h.nodup
  receipts inputId hid := by
    rw [acceptedIds_append, hids, List.append_nil] at hid
    rw [hreceipts]
    exact h.receipts inputId hid

/-- An item is sent. -/
theorem Flows.send {input : Input} {inputId : Option String} (h : Flows S log w)
    (hearly : u.task.early = true → w.task.early = true)
    (hitems : u.queue.items = w.queue.items ++ [input])
    (havailable : u.queue.available + input.data.length = w.queue.available)
    (hinput : u.inputTask = w.inputTask)
    (hnew : ∀ i ∈ inputId, i ∉ w.data.inputReceipts ∧ i ∈ u.data.inputReceipts)
    (hreceipts : ∀ i ∈ w.data.inputReceipts, i ∈ u.data.inputReceipts) :
    Flows S (log ++ [.sent inputId input]) u where
  early he := hinput ▸ h.early (hearly he)
  permits := by
    have hp := h.permits
    rw [Queue.bytes] at hp ⊢
    rw [hitems, List.flatMap_append, List.length_append, hinput, List.flatMap_singleton]
    omega
  left := by rw [hinput]; exact h.left
  flows hf := by
    obtain ⟨taken, hclose, hacc, hpay⟩ := h.flows (hinput ▸ hf)
    refine ⟨taken, hclose, ?_, ?_⟩
    · rw [accepted_append, hacc, hitems, List.append_assoc]
      rfl
    · rw [written_append, hinput, hpay, written_sent, List.append_nil]
  begins := by
    rw [written_append, written_sent, List.append_nil, accepted_append]
    exact h.begins.trans (beforeClose_isPrefix ..)
  nodup := by
    rw [acceptedIds_append]
    cases inputId with
    | none =>
      have hnone : acceptedIds [Event.sent none input] = [] := rfl
      rw [hnone, List.append_nil]
      exact h.nodup
    | some i =>
      have hsome : acceptedIds [Event.sent (some i) input] = [i] := rfl
      rw [hsome, List.nodup_append_comm, List.singleton_append, List.nodup_cons]
      exact ⟨fun hmem => (hnew i rfl).1 (h.receipts i hmem), h.nodup⟩
  receipts i hi := by
    rw [acceptedIds_append, List.mem_append] at hi
    obtain hold | hlast := hi
    · exact hreceipts i (h.receipts i hold)
    · cases inputId with
      | none => cases hlast
      | some j =>
        obtain rfl := List.mem_singleton.mp hlast
        exact (hnew i rfl).2

/-- The input flows no longer. -/
theorem Flows.end (h : Flows S log w) (hearly : u.task.early = true → w.task.early = true)
    (hnot : w.inputTask ≠ .absent ∧ w.inputTask ≠ .unspawned)
    (hends : u.inputTask.flows = false)
    (hpermits : u.queue.available + u.queue.bytes.length + u.inputTask.permits =
      S.limits.maxQueuedInputBytes)
    (hreceipts : u.data.inputReceipts = w.data.inputReceipts) : Flows S log u where
  early he := by
    obtain habsent | hunspawned := h.early (hearly he)
    · exact absurd habsent hnot.1
    · exact absurd hunspawned hnot.2
  permits := hpermits
  left := by
    cases hi : u.inputTask with
    | writing => rw [hi] at hends; cases hends
    | _ => exact Nat.zero_le _
  flows hf := by
    rw [hends] at hf
    cases hf
  begins := h.begins
  nodup := h.nodup
  receipts i hi := hreceipts ▸ h.receipts i hi

/-! ### Receipts are kept -/

theorem inputReceipts_terminate (d : Data) (now grace : ℕ) (reason : StopReason) :
    (d.terminate now grace reason).inputReceipts = d.inputReceipts := by
  rw [Data.terminate]
  split_ifs <;> rfl

theorem inputReceipts_noteSpool (d : Data) : d.noteSpool.inputReceipts = d.inputReceipts := by
  rw [Data.noteSpool]
  split_ifs <;> rfl

theorem inputReceipts_append {d d' : Data} {outcomes : List WriteOutcome} {stream : OutputStream}
    {data : List UInt8} (h : d.append outcomes stream data = some d') :
    d'.inputReceipts = d.inputReceipts := by
  rw [Data.append] at h
  split at h
  · obtain rfl := Option.some.inj h
    exact inputReceipts_noteSpool _
  · cases h

theorem inputReceipts_leaveInput (d : Data) (error : Option String) :
    (d.leaveInput error).inputReceipts = d.inputReceipts := by
  cases error <;> rfl

/-! ### Every step -/

/-- The steps of the run task that nobody sees. -/
theorem Silent.input {task : RunTask} (hs : Silent S w task es) :
    (task.early = true → w.task.early = true) ∧ accepted es = [] ∧ acceptedIds es = [] ∧
      written es = [] := by
  cases hs with
  | spawned _ htask => exact ⟨fun _ => by rw [htask]; rfl, rfl, rfl, rfl⟩
  | _ => exact ⟨nofun, rfl, rfl, rfl⟩

/-- The process is launched, or the input task is spawned. -/
theorem Flows.start (h : Flows S log w) (hw : w.task.early = true)
    (hitems : u.queue.items = w.queue.items) (havailable : u.queue.available = w.queue.available)
    (hleft : u.inputTask.left = []) (hpermits : u.inputTask.permits = 0)
    (hearly : u.task.early = true → u.inputTask = .absent ∨ u.inputTask = .unspawned)
    (hreceipts : u.data.inputReceipts = w.data.inputReceipts) : Flows S log u where
  early := hearly
  permits := by
    have hp := h.permits
    rw [Queue.bytes] at hp ⊢
    rw [hitems, havailable, hpermits]
    obtain hi | hi := h.early hw
    · rwa [hi] at hp
    · rwa [hi] at hp
  left := by rw [hleft, hpermits, List.length_nil]
  flows _ := by
    rw [hitems, hleft]
    obtain hi | hi := h.early hw
    · have hflows := h.flows (by rw [hi]; rfl)
      rwa [hi] at hflows
    · have hflows := h.flows (by rw [hi]; rfl)
      rwa [hi] at hflows
  begins := h.begins
  nodup := h.nodup
  receipts i hi := hreceipts ▸ h.receipts i hi

/-- The task that drives the process. -/
theorem Flows.run (h : Flows S log w) (hs : RunStep S w u es) : Flows S (log ++ es) u := by
  cases hs with
  | silent hs =>
    obtain ⟨hearly, hacc, hids, hwritten⟩ := hs.input
    exact h.other hearly rfl rfl rfl hacc hids hwritten
  | @launch p startedAt htask =>
    rw [List.append_nil]
    refine h.start (by rw [htask]; rfl) rfl rfl ?_ ?_ (fun _ => ?_) rfl
    · cases p.writer <;> rfl
    · cases p.writer <;> rfl
    · cases p.writer
      · exact .inl rfl
      · exact .inr rfl
  | @spawn p htask =>
    rw [List.append_nil]
    refine h.start (by rw [htask]; rfl) rfl rfl ?_ ?_ nofun rfl
    · dsimp only
      cases p.writer <;> rfl
    · dsimp only
      cases p.writer <;> rfl
  | @enqueue l deadline kill htask =>
    obtain ⟨e, he⟩ | ⟨q, hq, he⟩ := enqueue_cases w.data w.queue [3]
    · rw [he]
      dsimp only
      rw [sent_self]
      exact h.other nofun rfl rfl rfl rfl rfl rfl
    · rw [he]
      dsimp only
      rw [sent_append none (congrArg Queue.items hq.queue)]
      exact h.send nofun (congrArg Queue.items hq.queue) hq.available rfl nofun fun _ => id
  | finish =>
    exact h.other nofun rfl rfl (inputReceipts_noteSpool _) rfl rfl rfl
  | terminate => exact h.other nofun rfl rfl (inputReceipts_terminate ..) rfl rfl rfl
  | panic => exact h.other id rfl rfl rfl rfl rfl rfl
  | @drain l exit deadline reader ok =>
    refine h.other id rfl rfl ?_ rfl rfl rfl
    cases ok with
    | false => rfl
    | true => rfl
  | join => exact h.other id rfl rfl rfl rfl rfl rfl
  | tell htask htells => cases htells <;> exact h.other nofun rfl rfl rfl rfl rfl rfl
  | stop | permit | rootExit | dropControl | loseOutput =>
    exact h.other nofun rfl rfl rfl rfl rfl rfl

/-- The input task. -/
theorem Flows.input (h : Flows S log w) (hs : InputStep w u es) : Flows S (log ++ es) u := by
  have hp := h.permits
  have hnot {i : InputTask} (hi : w.inputTask = i) (hi' : i ≠ .absent ∧ i ≠ .unspawned) :
      w.inputTask ≠ .absent ∧ w.inputTask ≠ .unspawned := hi ▸ hi'
  cases hs with
  | @take data items hi hitems =>
    rw [List.append_nil]
    obtain ⟨taken, hclose, hacc, hpay⟩ := h.flows (by rw [hi]; rfl)
    rw [hi] at hp hpay
    refine ⟨fun he => ?_, ?_, le_rfl, fun _ => ⟨taken ++ [.bytes data], ?_, ?_, ?_⟩, h.begins,
      h.nodup, h.receipts⟩
    · exact absurd (h.early he) (by simp [hi])
    · rw [Queue.bytes, hitems, List.flatMap_cons, List.length_append] at hp
      dsimp only [Queue.bytes, InputTask.permits, Input.data] at hp ⊢
      omega
    · simp [hclose]
    · rw [hacc, hitems, List.append_assoc, List.singleton_append]
    · have hempty : InputTask.receiving.left = [] := rfl
      rw [payload_append, hpay, hempty, List.append_nil]
      exact congrArg _ (List.flatMap_singleton ..)
  | @takeClose items hi hitems =>
    rw [List.append_nil]
    refine h.end id (hnot hi (by simp)) rfl ?_ rfl
    rw [hi] at hp
    rw [Queue.bytes, hitems, List.flatMap_cons] at hp
    exact hp
  | hangUp hi =>
    rw [List.append_nil]
    refine h.end id (hnot hi (by simp)) rfl ?_ rfl
    rwa [hi] at hp
  | @write left permits count hi =>
    obtain ⟨taken, hclose, hacc, hpay⟩ := h.flows (by rw [hi]; rfl)
    have hleft := h.left
    rw [hi] at hp hpay hleft
    have hpay' : payload taken = (written log ++ left.take count) ++ left.drop count := by
      rw [hpay, List.append_assoc, List.take_append_drop]
      rfl
    have hacc' : accepted (log ++ [.wrote (left.take count)]) = accepted log := by
      rw [accepted_append]
      exact List.append_nil _
    have hwritten : written (log ++ [.wrote (left.take count)]) =
        written log ++ left.take count := by
      rw [written_append]
      exact congrArg _ (List.flatMap_singleton ..)
    refine ⟨fun he => ?_, hp, ?_, fun _ => ⟨taken, hclose, ?_, ?_⟩, ?_, ?_, ?_⟩
    · exact absurd (h.early he) (by simp [hi])
    · exact (List.length_drop ▸ Nat.sub_le _ _).trans hleft
    · rw [hacc', hacc]
    · rw [hwritten, hpay']
      rfl
    · rw [hacc', hwritten, hacc, beforeClose_append _ hclose, payload_append, hpay',
        List.append_assoc]
      exact List.prefix_append _ _
    · rw [acceptedIds_append]
      exact (List.append_nil (acceptedIds log)).symm ▸ h.nodup
    · intro i hmem
      rw [acceptedIds_append] at hmem
      exact h.receipts i ((List.append_nil (acceptedIds log)) ▸ hmem)
  | @written permits hi =>
    rw [List.append_nil]
    have hflows := h.flows (by rw [hi]; rfl)
    rw [hi] at hp hflows
    exact ⟨fun he => absurd (h.early he) (by simp [hi]), hp, Nat.zero_le _, fun _ => hflows,
      h.begins, h.nodup, h.receipts⟩
  | fail message hawaits hne =>
    rw [List.append_nil]
    refine h.end id ?_ rfl ?_ rfl
    · constructor
      · intro hi
        rw [hi] at hawaits
        cases hawaits
      · intro hi
        rw [hi] at hawaits
        cases hawaits
    · dsimp only [Queue.release, Queue.bytes, InputTask.permits] at hp ⊢
      omega
  | @flushed permits hi =>
    rw [List.append_nil]
    have hflows := h.flows (by rw [hi]; rfl)
    rw [hi] at hp hflows
    refine ⟨fun he => absurd (h.early he) (by simp [hi]), ?_, le_rfl, fun _ => hflows, h.begins,
      h.nodup, h.receipts⟩
    dsimp only [Queue.release, Queue.bytes, InputTask.permits] at hp ⊢
    omega
  | shut hi =>
    rw [List.append_nil]
    refine h.end id (hnot hi (by simp)) rfl ?_ rfl
    rwa [hi] at hp
  | @leave error hi =>
    rw [List.append_nil]
    refine h.end id (hnot hi (by simp)) rfl ?_ (inputReceipts_leaveInput ..)
    rwa [hi] at hp
  | tell hi =>
    rw [List.append_nil]
    refine h.end id (hnot hi (by simp)) rfl ?_ rfl
    rwa [hi] at hp
  | close hi =>
    rw [List.append_nil]
    refine h.end id (hnot hi (by simp)) rfl ?_ rfl
    rw [hi] at hp
    dsimp only [Queue.disconnect, InputTask.permits] at hp ⊢
    exact hp
  | abort htask hawaits =>
    rw [List.append_nil]
    refine h.end id ?_ rfl ?_ rfl
    · constructor
      · intro hi
        rw [hi] at hawaits
        cases hawaits
      · intro hi
        rw [hi] at hawaits
        cases hawaits
    · change (w.queue.release w.inputTask.permits).disconnect.available +
        (w.queue.release w.inputTask.permits).disconnect.bytes.length + 0 = _
      rw [Queue.room_disconnect, Nat.add_zero, ← hp]
      exact Nat.add_right_comm ..

/-- Readers and callers. -/
theorem Flows.caller (h : Flows S log w) (hs : CallerStep S w u es) : Flows S (log ++ es) u := by
  cases hs with
  | terminate => exact h.other id rfl rfl (inputReceipts_terminate ..) rfl rfl rfl
  | @receipt inputId receipt hnew =>
    rw [List.append_nil]
    refine ⟨h.early, h.permits, h.left, h.flows, h.begins, h.nodup, fun i hi => ?_⟩
    exact (AList.mem_insert _).mpr (.inr (h.receipts i hi))
  | @write inputId bytes q receipt hnew hopen hq =>
    refine h.send id (congrArg Queue.items hq.queue) hq.available rfl ?_ fun i hi => ?_
    · rintro i ⟨⟩
      exact ⟨hnew, (AList.mem_insert _).mpr (.inl rfl)⟩
    · exact (AList.mem_insert _).mpr (.inr hi)
  | close => exact h.send id rfl rfl rfl nofun fun _ => id
  | signal receipts hq =>
    exact h.send id (congrArg Queue.items hq.queue) hq.available rfl nofun fun _ => id
  | _ => exact h.other id rfl rfl rfl rfl rfl rfl

/-- The readers. -/
theorem Flows.reader (h : Flows S log w) (hs : ReaderStep w u es) : Flows S (log ++ es) u := by
  cases hs with
  | read hreader hdata hd => exact h.other id rfl rfl (inputReceipts_append hd) rfl rfl rfl
  | _ => exact h.other id rfl rfl rfl rfl rfl rfl

/-- What holds of the input holds along a run. -/
theorem flows (hrun : (sessionSystem S).Run log w) : Flows S log w := by
  refine hrun.invariant (I := Flows S) ?_ fun _ h hstep => ?_
  · rintro w ⟨execution, spool, cancelled, shutdown, now, rfl, -⟩
    exact ⟨fun _ => .inl rfl, rfl, le_rfl, fun _ => ⟨[], List.not_mem_nil, rfl, rfl⟩,
      List.prefix_rfl, List.nodup_nil, nofun⟩
  · cases step_cases hstep with
    | run hs => exact h.run hs
    | input hs => exact h.input hs
    | reader hs => exact h.reader hs
    | caller hs => exact h.caller hs

/-- **The input queue.** What is written to the process is the beginning of what was accepted
before a request to close its input, in this order, and nothing is accepted twice under one
identity. While the input flows, what is queued or being written is all that was accepted and not
written, and there is never more of it than the queue has room for. A write that fails changes
nothing. -/
theorem input_queue (hrun : (sessionSystem S).Run log w) :
    written log <+: payload (beforeClose (accepted log)) ∧ (acceptedIds log).Nodup ∧
      (w.inputTask.flows = true → payload (accepted log) = written log ++ w.unwritten) ∧
      w.unwritten.length ≤ S.limits.maxQueuedInputBytes ∧
      ∀ inputId bytes e,
        (Session.write S.digest S.limits w.data w.queue inputId bytes).1 = .error e →
          w.write S inputId bytes = (w, []) := by
  have h := flows hrun
  refine ⟨h.begins, h.nodup, fun hf => ?_, ?_, fun inputId bytes e he => ?_⟩
  · obtain ⟨taken, -, hacc, hpay⟩ := h.flows hf
    rw [hacc, payload_append, hpay, World.unwritten, List.append_assoc]
    rfl
  · rw [World.unwritten, List.length_append]
    have hp := h.permits
    have hleft := h.left
    omega
  · have hsame := write_error he
    unfold World.write
    dsimp only
    rw [hsame, sent_self]

/-- A writer fails while its item holds all permits, and another item is accepted before the input
task has recorded its end. -/
theorem input_queue_failed : ∃ log w, (sessionSystem someSetup).Run log w ∧
    someSetup.limits.maxQueuedInputBytes = 4 ∧
    (payload (accepted log)).length = 8 ∧ written log = [] ∧ w.unwritten.length ≤ 4 := by
  obtain ⟨w, log, hexec, hacc, hwritten⟩ : ∃ w log,
      (sessionSystem someSetup).exec someSession [.run { spawned := .ok ⟨[], true⟩ }, .run {},
        .run {}, .write "a" [1, 2, 3, 4], .input (.ok 0), .input (.error "broken pipe"),
        .write "b" [5, 6, 7, 8]] = some (w, log) ∧
      (payload (accepted log)).length = 8 ∧ written log = [] := ⟨_, _, rfl, rfl, rfl⟩
  have hrun : (sessionSystem someSetup).Run log w :=
    ⟨someSession, someSession_start, .of_exec hexec⟩
  exact ⟨log, w, hrun, rfl, hacc, hwritten, (input_queue hrun).2.2.2.1⟩

/-- More bytes that were accepted are not written than the queue has room for. -/
theorem exceeds_queue : ¬∀ (S : Setup) (log : List Event) (w : World),
    (sessionSystem S).Run log w →
      (payload (accepted log)).length - (written log).length ≤ S.limits.maxQueuedInputBytes := by
  intro h
  obtain ⟨w, log, hexec, hacc, hwritten⟩ : ∃ w log,
      (sessionSystem someSetup).exec someSession [.run { spawned := .ok ⟨[], true⟩ }, .run {},
        .run {}, .write "a" [1, 2, 3, 4], .input (.ok 0), .input (.error "broken pipe"),
        .write "b" [5, 6, 7, 8]] = some (w, log) ∧
      (payload (accepted log)).length = 8 ∧ written log = [] := ⟨_, _, rfl, rfl, rfl⟩
  have hle := h someSetup log w ⟨someSession, someSession_start, .of_exec hexec⟩
  rw [hacc, hwritten] at hle
  exact absurd hle (by decide)

end ExecutionProvider.Session
