import ExecutionProvider.Gateway.Jobs
import ExecutionProvider.Protocol.Results

/-!
# What stored responses tell of commands

The gateway removes the command of an execution from a response before it keeps the response. It
finds executions by the name of the member that holds them. An execution that is a result by itself,
or an item of a list, is not found.

## Main definitions

* `HostResponse.redact`: a response without its commands.
* `HostResponse.exposed`: the commands of the executions that are not found.

## Main results

* `stored_iff_exposed`: two responses that differ only in commands are kept as the same response if
  and only if the executions that are not found have the same commands.
-/

namespace ExecutionProvider

/-! ### Members one by one -/

namespace Json

/-- Every member of an object put through a function. -/
def mapFields (g : String → Json → Json) (fields : List (String × Json)) : List (String × Json) :=
  fields.map fun f => (f.1, g f.1 f.2)

variable (g : String → Json → Json)

@[simp] theorem mapFields_nil : mapFields g [] = [] := rfl

@[simp] theorem mapFields_cons (name : String) (value : Json) (fields : List (String × Json)) :
    mapFields g ((name, value) :: fields) = (name, g name value) :: mapFields g fields := rfl

theorem mapFields_insertField (name : String) (value : Json) (fields : List (String × Json)) :
    mapFields g (insertField name value fields) =
      insertField name (g name value) (mapFields g fields) := by
  induction fields with
  | nil => rfl
  | cons f fields ih =>
    obtain ⟨n, v⟩ := f
    simp only [mapFields_cons, insertField]
    split_ifs
    · rfl
    · rfl
    · rw [mapFields_cons, ih]

/-- The members of an object that is made of members put through a function. -/
theorem mapFields_foldl (fields acc : List (String × Json)) :
    mapFields g (fields.foldl (fun acc f => insertField f.1 f.2 acc) acc) =
      (mapFields g fields).foldl (fun acc f => insertField f.1 f.2 acc) (mapFields g acc) := by
  induction fields generalizing acc with
  | nil => rfl
  | cons f fields ih =>
    rw [List.foldl_cons, ih, mapFields_insertField]
    rfl

theorem lookup_mapFields (fields : List (String × Json)) (name : String) :
    (mapFields g fields).lookup name = (fields.lookup name).map (g name) := by
  induction fields with
  | nil => rfl
  | cons f fields ih =>
    obtain ⟨n, v⟩ := f
    rw [mapFields_cons, lookup_cons_eq_ite, lookup_cons_eq_ite, ih]
    split_ifs with h
    · rw [h, Option.map_some]
    · rfl

variable {g} {fields fields' : List (String × Json)}

/-- Members with the same names that agree under a function, one by one. -/
theorem mapFields_eq_of_lookup (hnames : fields.map Prod.fst = fields'.map Prod.fst)
    (hn : (fields.map Prod.fst).Nodup)
    (h : ∀ name value value', fields.lookup name = some value →
      fields'.lookup name = some value' → g name value = g name value') :
    mapFields g fields = mapFields g fields' := by
  induction fields generalizing fields' with
  | nil =>
    rw [List.map_nil, eq_comm, List.map_eq_nil_iff] at hnames
    rw [hnames]
  | cons f fields ih =>
    obtain ⟨n, v⟩ := f
    match fields' with
    | [] => cases hnames
    | (n', v') :: fields' =>
      obtain ⟨hname, hrests⟩ := List.cons.inj hnames
      obtain rfl : n = n' := hname
      rw [List.map_cons, List.nodup_cons] at hn
      have hvalue : g n v = g n v' := h n v v' List.lookup_cons_self List.lookup_cons_self
      have htail := ih hrests hn.2 fun name value value' hvalue hvalue' => by
        have hne : name ≠ n := fun heq => by
          obtain ⟨before, after, hsplit, -⟩ := List.lookup_eq_some_iff.mp (heq ▸ hvalue)
          exact hn.1 (List.mem_map.mpr ⟨(n, value), by simp [hsplit], rfl⟩)
        refine h name value value' ?_ ?_
        · rw [lookup_cons_eq_ite, if_neg hne, hvalue]
        · rw [lookup_cons_eq_ite, if_neg hne, hvalue']
      rw [mapFields_cons, mapFields_cons, hvalue, htail]

/-- Two objects agree under a function if and only if their members do. -/
theorem mapFields_foldl_eq_iff (hnames : fields.map Prod.fst = fields'.map Prod.fst)
    (hn : (fields.map Prod.fst).Nodup) :
    mapFields g (fields.foldl (fun acc f => insertField f.1 f.2 acc) []) =
        mapFields g (fields'.foldl (fun acc f => insertField f.1 f.2 acc) []) ↔
      mapFields g fields = mapFields g fields' := by
  constructor
  · intro h
    refine mapFields_eq_of_lookup hnames hn fun name value value' hvalue hvalue' => ?_
    rw [← get_mkObj_eq_lookup hn] at hvalue
    rw [← get_mkObj_eq_lookup (hnames ▸ hn)] at hvalue'
    have hlookup := congrArg (List.lookup name) h
    rw [lookup_mapFields, lookup_mapFields, show List.lookup name _ = some value from hvalue,
      show List.lookup name _ = some value' from hvalue'] at hlookup
    exact Option.some.inj hlookup
  · intro h
    rw [mapFields_foldl, mapFields_foldl, h]

end Json

/-! ### Objects without commands -/

namespace Gateway

open Protocol

/-- What is kept of a member. Nothing is kept of the command of an execution. -/
def stripMember (execution : Bool) (name : String) (value : Json) : Json :=
  if execution && name == "command" then .null else stripCommands (name == "execution") value

theorem stripFields_eq (execution : Bool) (fields : List (String × Json)) :
    stripFields execution fields = (Json.mapFields (stripMember execution) fields).filter
      fun f => !(execution && f.1 == "command") := by
  induction fields with
  | nil => rfl
  | cons f fields ih =>
    obtain ⟨name, value⟩ := f
    rw [stripFields, ih, Json.mapFields_cons, List.filter_cons, stripMember]
    cases execution && name == "command" <;> rfl

theorem stripItems_eq (items : List Json) : stripItems items = items.map (stripCommands false) := by
  induction items with
  | nil => rfl
  | cons item items ih => rw [stripItems, ih, List.map_cons]

theorem lookup_stripFields (execution : Bool) (fields : List (String × Json)) (name : String) :
    (stripFields execution fields).lookup name =
      if execution && name == "command" then none
      else (fields.lookup name).map (stripCommands (name == "execution")) := by
  induction fields with
  | nil =>
    split_ifs <;> rfl
  | cons f fields ih =>
    obtain ⟨n, v⟩ := f
    rw [stripFields, Json.lookup_cons_eq_ite]
    by_cases hdrop : (execution && n == "command") = true
    · rw [if_pos hdrop, ih]
      by_cases hname : name = n
      · rw [hname, if_pos hdrop, if_pos hdrop]
      · rw [if_neg hname]
    · rw [if_neg hdrop, Json.lookup_cons_eq_ite, ih]
      by_cases hname : name = n
      · rw [if_pos hname, if_pos hname, hname, if_neg hdrop, Option.map_some]
      · rw [if_neg hname, if_neg hname]

/-- Two objects are the same without commands if and only if their members are. -/
theorem stripCommands_mkObj_eq_iff {execution : Bool} {fields fields' : List (String × Json)}
    (hnames : fields.map Prod.fst = fields'.map Prod.fst) (hn : (fields.map Prod.fst).Nodup) :
    stripCommands execution (.mkObj fields) = stripCommands execution (.mkObj fields') ↔
      Json.mapFields (stripMember execution) fields =
        Json.mapFields (stripMember execution) fields' := by
  rw [Json.mkObj, Json.mkObj, stripCommands, stripCommands, Json.obj.injEq]
  constructor
  · intro h
    refine Json.mapFields_eq_of_lookup hnames hn fun name value value' hvalue hvalue' => ?_
    rw [← Json.get_mkObj_eq_lookup hn] at hvalue
    rw [← Json.get_mkObj_eq_lookup (hnames ▸ hn)] at hvalue'
    have hlookup := congrArg (List.lookup name) h
    rw [lookup_stripFields, lookup_stripFields, show List.lookup name _ = some value from hvalue,
      show List.lookup name _ = some value' from hvalue'] at hlookup
    unfold stripMember
    split_ifs at hlookup ⊢ with hdrop
    · rfl
    · exact Option.some.inj hlookup
  · intro h
    rw [stripFields_eq, stripFields_eq, (Json.mapFields_foldl_eq_iff hnames hn).mpr h]

/-- A record that holds no execution is kept as it is. -/
theorem stripCommands_record {members : List Member} (hn : (members.map Prod.fst).Nodup)
    (h : ∀ m ∈ members, m.1 ≠ "execution" ∧ ∀ value, m.2 = some value →
      stripCommands false value = value) :
    stripCommands false (.record members) = .record members := by
  obtain ⟨sorted, hsorted, hperm⟩ :=
    Json.exists_perm_mkObj (hn.sublist (Json.sublist_present members))
  have hmap : Json.mapFields (stripMember false) sorted = sorted := by
    refine (List.map_congr_left fun f hf => ?_).trans (List.map_id sorted)
    obtain ⟨m, hm, hmf⟩ := List.mem_filterMap.mp (hperm.subset hf)
    obtain ⟨value, hvalue, rfl⟩ := Option.map_eq_some_iff.mp hmf
    obtain ⟨hname, hstrip⟩ := h m hm
    rw [stripMember, Bool.false_and, if_neg Bool.false_ne_true, beq_eq_false_iff_ne.mpr hname,
      hstrip value hvalue]
    rfl
  rw [Json.record, hsorted, stripCommands, stripFields_eq, hmap, Json.obj.injEq]
  exact List.filter_eq_self.mpr fun f _ => rfl

/-- The command of an execution that is not found is kept as it is. -/
theorem stripCommands_command (command : Command) :
    stripCommands false (Command.codec.write command) = Command.codec.write command := by
  have htext (s : String) : stripCommands false (.str s) = .str s := by simp [stripCommands]
  cases command with
  | program executable args =>
    have hargs : stripCommands false ((Codec.list Codec.text).write args) =
        (Codec.list Codec.text).write args := by
      simp only [Codec.list, Codec.text, stripCommands, stripItems_eq, List.map_map,
        Json.arr.injEq]
      exact List.map_congr_left fun s _ => htext s
    refine stripCommands_record (by simp) fun m hm => ?_
    rcases hm with _ | ⟨_, _ | ⟨_, _ | ⟨_, _ | ⟨_, hm⟩⟩⟩⟩
    · exact ⟨by simp, fun value hvalue => Option.some.inj hvalue ▸ htext _⟩
    · exact ⟨by simp, fun value hvalue => Option.some.inj hvalue ▸ htext _⟩
    · exact ⟨by simp, fun value hvalue => Option.some.inj hvalue ▸ hargs⟩
  | shell script shell' login =>
    have hshell : stripCommands false (Shell.codec.nullable shell') =
        Shell.codec.nullable shell' := by
      cases shell' with
      | none => simp [Codec.nullable, stripCommands]
      | some shell' =>
        refine stripCommands_record (by simp) fun m hm => ?_
        rcases hm with _ | ⟨_, _ | ⟨_, hm⟩⟩
        · exact ⟨by simp, fun value hvalue => Option.some.inj hvalue ▸ htext _⟩
        · exact ⟨by simp, fun value hvalue => Option.some.inj hvalue ▸ htext _⟩
        · cases hm
    refine stripCommands_record (by simp) fun m hm => ?_
    rcases hm with _ | ⟨_, _ | ⟨_, _ | ⟨_, _ | ⟨_, hm⟩⟩⟩⟩
    · exact ⟨by simp, fun value hvalue => Option.some.inj hvalue ▸ htext _⟩
    · exact ⟨by simp, fun value hvalue => Option.some.inj hvalue ▸ htext _⟩
    · exact ⟨by simp, fun value hvalue => Option.some.inj hvalue ▸ hshell⟩
    · exact ⟨by simp, fun value hvalue => Option.some.inj hvalue ▸ by
        simp [Codec.bool, stripCommands]⟩
    · cases hm

end Gateway

/-! ### Responses that differ only in commands -/

/-- An execution without its command. -/
def ExecutionSnapshot.redact (e : ExecutionSnapshot) : ExecutionSnapshot :=
  { e with command := .program "" [] }

/-- An observation without the command. -/
def Observation.redact (o : Observation) : Observation :=
  { o with execution := o.execution.redact }

/-- A run without its command. -/
def RunResult.redact (r : RunResult) : RunResult := { r with execution := r.execution.redact }

/-- The receipt of a run that is terminated, without the command. -/
def TerminateRunReceipt.redact (r : TerminateRunReceipt) : TerminateRunReceipt :=
  { r with execution := r.execution.map ExecutionSnapshot.redact }

/-- A page without commands. -/
def ExecutionPage.redact (p : ExecutionPage) : ExecutionPage :=
  { p with executions := p.executions.map ExecutionSnapshot.redact }

namespace Protocol

/-- A result without commands. -/
def OperationResult.redact : OperationResult → OperationResult
  | observation result => .observation result.redact
  | run result => .run result.redact
  | terminateRun receipt => .terminateRun receipt.redact
  | execution snapshot => .execution snapshot.redact
  | list page => .list page.redact
  | other result => .other result

/-- What came of an operation, without commands. -/
def OperationOutcome.redact : OperationOutcome → OperationOutcome
  | ok result => .ok result.redact
  | error e => .error e
  | skipped reason => .skipped reason

/-- What came of an operation of a batch, without commands. -/
def OperationResponse.redact (r : OperationResponse) : OperationResponse :=
  { r with outcome := r.outcome.redact }

/-- What came of a payload, without commands. -/
def PayloadResult.redact : PayloadResult → PayloadResult
  | single result => .single result.redact
  | batch succeeded results => .batch succeeded (results.map OperationResponse.redact)

/-- A response without commands. -/
def HostResponse.redact (r : HostResponse) : HostResponse :=
  { r with outcome := r.outcome.map PayloadResult.redact }

/-- The commands of the executions that are a result by themselves, or items of a list. -/
def OperationResult.exposed : OperationResult → List Command
  | execution snapshot => [snapshot.command]
  | list page => page.executions.map ExecutionSnapshot.command
  | observation _ | run _ | terminateRun _ | other _ => []

/-- The exposed commands of an operation of a batch. -/
def OperationResponse.exposed (r : OperationResponse) : List Command :=
  match r.outcome with
  | .ok result => result.exposed
  | .error _ | .skipped _ => []

/-- The exposed commands, for each operation. -/
def PayloadResult.exposed : PayloadResult → List (List Command)
  | single result => [result.exposed]
  | batch _ results => results.map OperationResponse.exposed

/-- The exposed commands, for each operation. -/
def HostResponse.exposed (r : HostResponse) : List (List Command) :=
  match r.outcome with
  | .ok result => result.exposed
  | .error _ => []

end Protocol

namespace Gateway

open Protocol

variable {c : TextEncoding}

/-- A function and another that tell the same values apart do so for lists of values. -/
theorem map_eq_map_iff_of {α ρ β γ : Type} {r : α → ρ} {f : α → β} {g : α → γ}
    (h : ∀ a b, r a = r b → (f a = f b ↔ g a = g b)) {xs ys : List α}
    (hxs : xs.map r = ys.map r) : xs.map f = ys.map f ↔ xs.map g = ys.map g := by
  induction xs generalizing ys with
  | nil =>
    rw [List.map_nil, eq_comm, List.map_eq_nil_iff] at hxs
    rw [hxs, List.map_nil, List.map_nil]
    exact Iff.of_eq (by simp)
  | cons x xs ih =>
    match ys with
    | [] => cases hxs
    | y :: ys =>
      obtain ⟨hx, hxs⟩ := List.cons.inj hxs
      rw [List.map_cons, List.map_cons, List.map_cons, List.map_cons, List.cons.injEq,
        List.cons.injEq, h x y hx, ih hxs]

/-- The members of executions that differ only in their commands. -/
theorem otherFields_eq {e e' : ExecutionSnapshot} (h : e.redact = e'.redact) :
    e.otherFields = e'.otherFields := by
  have hredact (e : ExecutionSnapshot) : e.redact.otherFields = e.otherFields := rfl
  rw [← hredact e, h, hredact]

theorem nodup_otherFields (e : ExecutionSnapshot) (command : Json) :
    (((("command", command) :: e.otherFields) : List (String × Json)).map Prod.fst).Nodup := by
  simp [ExecutionSnapshot.otherFields]

/-- Executions that differ only in their commands are kept as the same if and only if the members
with the commands are. -/
theorem stripCommands_value_eq_iff (execution : Bool) {e e' : ExecutionSnapshot}
    (h : e.redact = e'.redact) :
    stripCommands execution e.value = stripCommands execution e'.value ↔
      stripMember execution "command" (Command.codec.write e.command) =
        stripMember execution "command" (Command.codec.write e'.command) := by
  rw [ExecutionSnapshot.value, ExecutionSnapshot.value, otherFields_eq h]
  refine (stripCommands_mkObj_eq_iff (by rw [List.map_cons, List.map_cons])
    (nodup_otherFields e' _)).trans ?_
  rw [Json.mapFields_cons, Json.mapFields_cons, List.cons.injEq, Prod.mk.injEq]
  simp only [true_and, and_true]

/-- Nothing is kept of the command of an execution that is found. -/
theorem stripCommands_execution {e e' : ExecutionSnapshot} (h : e.redact = e'.redact) :
    stripCommands true e.value = stripCommands true e'.value := by
  rw [stripCommands_value_eq_iff true h]
  rfl

/-- The command of an execution that is not found is kept. -/
theorem stripCommands_exposed {e e' : ExecutionSnapshot} (h : e.redact = e'.redact) :
    stripCommands false e.value = stripCommands false e'.value ↔ e.command = e'.command := by
  have hmember (command : Command) :
      stripMember false "command" (Command.codec.write command) = Command.codec.write command := by
    rw [stripMember, Bool.false_and, if_neg Bool.false_ne_true]
    exact stripCommands_command command
  rw [stripCommands_value_eq_iff false h, hmember, hmember]
  constructor
  · intro heq
    have hread := congrArg Command.codec.read heq
    rw [Command.codec.read_write, Command.codec.read_write] at hread
    exact Option.some.inj hread
  · exact congrArg _

theorem stripCommands_arr (execution : Bool) (items : List Json) :
    stripCommands execution (.arr items) = .arr (items.map (stripCommands false)) := by
  rw [stripCommands, stripItems_eq]

/-- A member that holds an execution. -/
theorem stripMember_execution {execution : Bool} {e e' : ExecutionSnapshot}
    (h : e.redact = e'.redact) :
    stripMember execution "execution" e.value = stripMember execution "execution" e'.value := by
  have hname : (execution && "execution" == "command") = false := by
    cases execution <;> decide
  rw [stripMember, stripMember, hname, if_neg Bool.false_ne_true, if_neg Bool.false_ne_true]
  exact stripCommands_execution h

theorem stripCommands_observation {o o' : Observation} (h : o.redact = o'.redact) :
    stripCommands false (observation c o) = stripCommands false (observation c o') := by
  obtain ⟨e, output, cursor, hasMore, gap, reason⟩ := o
  obtain ⟨e', output', cursor', hasMore', gap', reason'⟩ := o'
  obtain ⟨he, rfl, rfl, rfl, rfl, rfl⟩ := Observation.mk.inj h
  refine (stripCommands_mkObj_eq_iff (by simp) (by simp)).mpr ?_
  rw [Json.mapFields_cons, Json.mapFields_cons, stripMember_execution he]
  rfl

theorem stripCommands_runResult {r r' : RunResult} (h : r.redact = r'.redact) :
    stripCommands false (runResult c r) = stripCommands false (runResult c r') := by
  obtain ⟨id, e, file, output, truncated⟩ := r
  obtain ⟨id', e', file', output', truncated'⟩ := r'
  obtain ⟨rfl, he, rfl, rfl, rfl⟩ := RunResult.mk.inj h
  refine (stripCommands_mkObj_eq_iff (by simp) (by simp)).mpr ?_
  rw [Json.mapFields_cons, Json.mapFields_cons, Json.mapFields_cons, Json.mapFields_cons,
    stripMember_execution he]
  rfl

theorem stripCommands_receipt {r r' : TerminateRunReceipt} (h : r.redact = r'.redact) :
    stripCommands false r.value = stripCommands false r'.value := by
  obtain ⟨id, state, e⟩ := r
  obtain ⟨id', state', e'⟩ := r'
  obtain ⟨rfl, rfl, he⟩ := TerminateRunReceipt.mk.inj h
  have he : e.map ExecutionSnapshot.redact = e'.map ExecutionSnapshot.redact := he
  refine (stripCommands_mkObj_eq_iff (by simp) (by simp)).mpr ?_
  have hmember : stripMember false "execution" (.ofOption (e.map ExecutionSnapshot.value)) =
      stripMember false "execution" (.ofOption (e'.map ExecutionSnapshot.value)) := by
    cases e with
    | none =>
      rw [Option.map_eq_none_iff.mp he.symm]
    | some e =>
      cases e' with
      | none => cases he
      | some e' => exact stripMember_execution (Option.some.inj he)
  simp only [Json.mapFields_cons, hmember]

theorem stripCommands_page {p p' : ExecutionPage} (h : p.redact = p'.redact) :
    stripCommands false (pageValue c p) = stripCommands false (pageValue c p') ↔
      p.executions.map ExecutionSnapshot.command = p'.executions.map ExecutionSnapshot.command := by
  obtain ⟨es, cursor⟩ := p
  obtain ⟨es', cursor'⟩ := p'
  obtain ⟨hes, rfl⟩ := ExecutionPage.mk.inj h
  refine (stripCommands_mkObj_eq_iff (by simp) (by simp)).trans ?_
  have hmember (es : List ExecutionSnapshot) :
      stripMember false "executions" (.arr (es.map ExecutionSnapshot.value)) =
        .arr (es.map fun e => stripCommands false e.value) := by
    rw [stripMember, Bool.false_and, if_neg Bool.false_ne_true, stripCommands_arr, List.map_map]
    rfl
  simp only [Json.mapFields_cons, hmember, List.cons.injEq, Prod.mk.injEq, Json.arr.injEq,
    true_and, and_true]
  exact map_eq_map_iff_of (fun _ _ => stripCommands_exposed) hes

/-- Results that differ only in commands are kept as the same if and only if the exposed commands
are the same. -/
theorem stripCommands_result {r r' : OperationResult} (h : r.redact = r'.redact) :
    stripCommands false (r.value c) = stripCommands false (r'.value c) ↔
      r.exposed = r'.exposed := by
  cases r <;> cases r' <;> simp only [OperationResult.redact, reduceCtorEq] at h
  case observation.observation o o' =>
    exact iff_of_true (stripCommands_observation (OperationResult.observation.inj h)) rfl
  case run.run r r' => exact iff_of_true (stripCommands_runResult (OperationResult.run.inj h)) rfl
  case terminateRun.terminateRun r r' =>
    exact iff_of_true (stripCommands_receipt (OperationResult.terminateRun.inj h)) rfl
  case execution.execution e e' =>
    rw [OperationResult.exposed, OperationResult.exposed, List.singleton_inj]
    exact stripCommands_exposed (OperationResult.execution.inj h)
  case list.list p p' => exact stripCommands_page (OperationResult.list.inj h)
  case other.other v v' =>
    rw [OperationResult.other.inj h]
    exact iff_of_true rfl rfl

/-- What came of an operation of a batch, in a response that is kept. -/
theorem stripCommands_item {r r' : OperationResponse} (h : r.redact = r'.redact) :
    stripCommands false (r.value c) = stripCommands false (r'.value c) ↔
      r.exposed = r'.exposed := by
  obtain ⟨id, outcome⟩ := r
  obtain ⟨id', outcome'⟩ := r'
  obtain ⟨rfl, h⟩ := OperationResponse.mk.inj h
  cases outcome <;> cases outcome' <;> simp only [OperationOutcome.redact, reduceCtorEq] at h
  case ok.ok r r' =>
    refine (stripCommands_mkObj_eq_iff (by simp) (by simp)).trans ?_
    have hmember (value : Json) :
        stripMember false "result" value = stripCommands false value := by
      rw [stripMember, Bool.false_and, if_neg Bool.false_ne_true]
      rfl
    simp only [Json.mapFields_cons, Json.mapFields_nil, hmember, List.cons.injEq, Prod.mk.injEq,
      true_and, and_true]
    exact stripCommands_result (OperationOutcome.ok.inj h)
  case error.error e e' =>
    rw [OperationOutcome.error.inj h]
    exact iff_of_true rfl rfl
  case skipped.skipped reason reason' =>
    rw [OperationOutcome.skipped.inj h]
    exact iff_of_true rfl rfl

/-- What came of a payload, in a response that is kept. -/
theorem stripCommands_payloadResult {r r' : PayloadResult} (h : r.redact = r'.redact) :
    stripCommands false (r.value c) = stripCommands false (r'.value c) ↔
      r.exposed = r'.exposed := by
  cases r <;> cases r' <;> simp only [PayloadResult.redact, reduceCtorEq] at h
  case single.single r r' =>
    rw [PayloadResult.exposed, PayloadResult.exposed, List.singleton_inj]
    exact stripCommands_result (PayloadResult.single.inj h)
  case batch.batch succeeded results succeeded' results' =>
    obtain ⟨rfl, hresults⟩ := PayloadResult.batch.inj h
    refine (stripCommands_mkObj_eq_iff (by simp) (by simp)).trans ?_
    have hmember (results : List OperationResponse) :
        stripMember false "results" (.arr (results.map (OperationResponse.value c))) =
          .arr (results.map fun r => stripCommands false (r.value c)) := by
      rw [stripMember, Bool.false_and, if_neg Bool.false_ne_true, stripCommands_arr, List.map_map]
      rfl
    simp only [Json.mapFields_cons, Json.mapFields_nil, hmember, List.cons.injEq, Prod.mk.injEq,
      Json.arr.injEq, true_and, and_true]
    exact map_eq_map_iff_of (fun _ _ => stripCommands_item) hresults

/-! ### Stored responses -/

/-- What is kept of a member of a response. -/
def storedMember (name : String) (value : Json) : Json :=
  if name = "result" then stripCommands false value else value

theorem storedResponse_eq (r : Response) : storedResponse r = .obj (Json.mapFields storedMember
      (r.members.foldl (fun acc f => Json.insertField f.1 f.2 acc) [])) := by
  rw [storedResponse, Response.toJson, Json.mkObj]
  dsimp only
  rw [Json.obj.injEq]
  refine List.map_congr_left fun f _ => ?_
  rw [storedMember]
  split_ifs <;> rfl

/-- Two responses that differ only in commands are kept as the same response if and only if their
exposed commands are the same. -/
theorem storedResponse_eq_iff {r r' : HostResponse} (h : r.redact = r'.redact) :
    storedResponse (r.toResponse c) = storedResponse (r'.toResponse c) ↔
      r.exposed = r'.exposed := by
  obtain ⟨version, id, generation, outcome⟩ := r
  obtain ⟨version', id', generation', outcome'⟩ := r'
  obtain ⟨rfl, rfl, rfl, houtcome⟩ := HostResponse.mk.inj h
  have houtcome : outcome.map PayloadResult.redact = outcome'.map PayloadResult.redact := houtcome
  match outcome, outcome' with
  | .ok result, .ok result' =>
    rw [storedResponse_eq, storedResponse_eq, Json.obj.injEq,
      Json.mapFields_foldl_eq_iff (by simp [HostResponse.toResponse, Response.members]) (by
        simp [HostResponse.toResponse, Response.members])]
    simp only [HostResponse.toResponse, Response.members, List.cons_append, List.nil_append,
      Json.mapFields_cons, Json.mapFields_nil, List.cons.injEq, Prod.mk.injEq, true_and, and_true]
    rw [storedMember, storedMember, if_pos rfl, if_pos rfl]
    exact stripCommands_payloadResult (Except.ok.inj houtcome)
  | .error e, .error e' =>
    rw [Except.error.inj houtcome]
    exact iff_of_true rfl rfl
  | .ok _, .error _ => cases houtcome
  | .error _, .ok _ => cases houtcome

/-- Results that differ only in commands say the same about success. -/
theorem get_result {r r' : OperationResult} (h : r.redact = r'.redact) {name : String}
    (hname : name = "succeeded" ∨ name = "status") :
    (r.value c).get name = (r'.value c).get name := by
  have hnone {fields : List (String × Json)} (h : name ∉ fields.map Prod.fst) :
      (Json.mkObj fields).get name = none := Json.get_mkObj_of_notMem h
  cases r <;> cases r' <;> simp only [OperationResult.redact, reduceCtorEq] at h
  case other.other v v' => rw [OperationResult.other.inj h]
  case execution.execution e e' =>
    rw [OperationResult.value, OperationResult.value, ExecutionSnapshot.value,
      ExecutionSnapshot.value, hnone, hnone]
    · rcases hname with rfl | rfl <;> simp [ExecutionSnapshot.otherFields]
    · rcases hname with rfl | rfl <;> simp [ExecutionSnapshot.otherFields]
  all_goals
    refine (hnone ?_).trans (hnone ?_).symm
    · rcases hname with rfl | rfl <;> simp
    · rcases hname with rfl | rfl <;> simp

theorem get_payloadResult {r r' : PayloadResult} (h : r.redact = r'.redact) {name : String}
    (hname : name = "succeeded" ∨ name = "status") :
    (r.value c).get name = (r'.value c).get name := by
  cases r <;> cases r' <;> simp only [PayloadResult.redact, reduceCtorEq] at h
  case single.single r r' => exact get_result (PayloadResult.single.inj h) hname
  case batch.batch succeeded results succeeded' results' =>
    obtain ⟨rfl, -⟩ := PayloadResult.batch.inj h
    rw [PayloadResult.value, PayloadResult.value, Json.get_mkObj_eq_lookup (by simp),
      Json.get_mkObj_eq_lookup (by simp)]
    rcases hname with rfl | rfl <;> rfl

/-- Commands have no part in whether a response counts as success. -/
theorem responseStatus_eq {r r' : HostResponse} (h : r.redact = r'.redact) :
    responseStatus (r.toResponse c) = responseStatus (r'.toResponse c) := by
  obtain ⟨version, id, generation, outcome⟩ := r
  obtain ⟨version', id', generation', outcome'⟩ := r'
  obtain ⟨rfl, rfl, rfl, houtcome⟩ := HostResponse.mk.inj h
  have houtcome : outcome.map PayloadResult.redact = outcome'.map PayloadResult.redact := houtcome
  match outcome, outcome' with
  | .ok result, .ok result' =>
    have hresult := Except.ok.inj houtcome
    simp only [responseStatus, Response.succeeded, HostResponse.toResponse,
      get_payloadResult hresult (Or.inl rfl), get_payloadResult hresult (Or.inr rfl)]
    rfl
  | .error _, .error _ => rfl
  | .ok _, .error _ => cases houtcome
  | .error _, .ok _ => cases houtcome

/-- **Commands in stored responses.** Take two responses that differ only in the commands of the
executions in them. The gateway keeps the same response for both if and only if the executions that
are a result by themselves or items of a list have the same commands; then it does the same
with the job and delivers the same. -/
theorem stored_iff_exposed (c : TextEncoding) {r r' : HostResponse} (h : r.redact = r'.redact) :
    (storedResponse (r.toResponse c) = storedResponse (r'.toResponse c) ↔
      r.exposed = r'.exposed) ∧
    (r.exposed = r'.exposed → ∀ {π : Type} (p : Platform π) (now : ℕ) (event : Uuid)
      (db : Database) (machine generation id : Uuid),
      response p now event db machine generation id (r.toResponse c) =
        response p now event db machine generation id (r'.toResponse c)) := by
  refine ⟨storedResponse_eq_iff h, fun hexposed π p now event db machine generation id => ?_⟩
  rw [response, response, responseStatus_eq h, (storedResponse_eq_iff h).mpr hexposed]

/-! ### A command that is kept -/

/-- The response to a request for an execution with a command. -/
def plainResponse (command : Command) : HostResponse :=
  ⟨Protocol.version, some nilText, .numbered 1, .ok (.single (.execution
    ⟨⟨.numbered 2, .numbered 1⟩, command, none, "/", .default, .empty, .running, none, ⟨0, 0⟩, none,
      none, false, none⟩))⟩

/-- The response to a request to start an execution with a command. -/
def startedResponse (command : Command) : HostResponse :=
  ⟨Protocol.version, some nilText, .numbered 1, .ok (.single (.observation
    ⟨⟨⟨.numbered 2, .numbered 1⟩, command, none, "/", .default, .empty, .running, none, ⟨0, 0⟩,
      none, none, false, none⟩, [], ⟨⟨.numbered 2, .numbered 1⟩, 0, 0⟩, false, false,
      .waitElapsed⟩))⟩

/-- An encoding, for examples. -/
def plainEncoding : TextEncoding := ⟨fun _ => "", fun _ => "", fun _ => ""⟩

/-- The command is not kept with an execution that was started, and is kept with one that was asked
for. -/
theorem stored_iff_exposed_login :
    storedResponse ((startedResponse (.program "login" ["--password=a"])).toResponse
        plainEncoding) =
      storedResponse ((startedResponse (.program "login" ["--password=b"])).toResponse
        plainEncoding) ∧
    storedResponse ((plainResponse (.program "login" ["--password=a"])).toResponse
        plainEncoding) ≠
      storedResponse ((plainResponse (.program "login" ["--password=b"])).toResponse
        plainEncoding) := by
  have hstarted := @stored_iff_exposed plainEncoding
    (startedResponse (.program "login" ["--password=a"]))
    (startedResponse (.program "login" ["--password=b"])) rfl
  have hplain := @stored_iff_exposed plainEncoding
    (plainResponse (.program "login" ["--password=a"]))
    (plainResponse (.program "login" ["--password=b"])) rfl
  exact ⟨hstarted.1.mpr rfl, fun h => absurd (hplain.1.mp h) (by decide)⟩

/-- Responses that differ only in commands are not always kept as the same response. -/
theorem not_forall_storedResponse_eq :
    ¬∀ (c : TextEncoding) (r r' : HostResponse), r.redact = r'.redact →
      storedResponse (r.toResponse c) = storedResponse (r'.toResponse c) := by
  intro h
  have hredact : (plainResponse (.program "login" ["--password=a"])).redact =
      (plainResponse (.program "login" ["--password=b"])).redact := rfl
  have hstored := h plainEncoding _ _ hredact
  exact absurd ((storedResponse_eq_iff hredact).mp hstored) (by decide)

end Gateway

end ExecutionProvider
