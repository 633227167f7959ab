import Mathlib.Data.Prod.Lex
import Mathlib.Data.List.Sort
import Mathlib.Data.String.Basic
import ExecutionProvider.Foundation.Paging
import ExecutionProvider.Gateway.Jobs
import ExecutionProvider.Protocol.JsonText
import ExecutionProvider.Protocol.Serde

/-!
# Lists by pages

The lists of the gateway are read page by page, the rows that were created last first. A cursor says
where a page ended: it holds the creation time and the identifier of the last row, as they were
written into the page, and is itself a text that means nothing to its reader.

## Main definitions

* `CursorFormat`: what the gateway takes from its libraries to write and read cursors.
* `RowKind`: the rows of a list, and how they are written.
* `page`: a page of the rows that a query selects.
* `listJobs`: a page of the jobs of a user.
* `Pages`: the pages of a list, each with the table that it was made of.

## Main results

* `decodeCursor_encodeCursor`: a cursor is read as it was written.
* `page_eq`: what is on a page.
* `pages_enumerate`: the pages of a list enumerate its rows.
-/

namespace ExecutionProvider.Gateway

/-! ### Cursors -/

/-- What the gateway takes from its libraries: the text of an instant, which has nanoseconds, the
reading of JSON, and the encoding of bytes as text. -/
structure CursorFormat where
  instantText : ℕ → String
  readInstant : String → Option ℕ
  readJson : ByteArray → Option Json
  encode : ByteArray → String
  decode : String → Option ByteArray

/-- The place where a page ended. -/
structure Cursor where
  instant : ℕ
  id : Uuid
deriving DecidableEq

/-- The instant of a time that is stored. -/
def instantOf (stored : ℕ) : ℕ := stored * 1000

/-- The time as which an instant is compared with stored ones. -/
def storedTime (instant : ℕ) : ℕ := instant / 1000

/-- How a cursor is written. -/
def Cursor.value (format : CursorFormat) (c : Cursor) : Json :=
  .mkObj [("at", .str (format.instantText c.instant)), ("id", .str c.id.text)]

/-- A member of a cursor that is an instant. -/
def readTime (format : CursorFormat) (value : Json) : Option ℕ :=
  value.asStr.bind format.readInstant

/-- A member of a cursor that is an identifier. -/
def readId (value : Json) : Option Uuid := value.asStr.bind Uuid.parse

/-- The members of a cursor, by name or in order. -/
def Cursor.read (format : CursorFormat) (value : Json) : Option Cursor :=
  let members := match value with
    | .arr [instant, id] => some (instant, id)
    | value => (value.get "at").bind fun instant => (value.get "id").map fun id => (instant, id)
  members.bind fun m =>
    (readTime format m.1).bind fun instant => (readId m.2).map fun id => ⟨instant, id⟩

/-- The text of a cursor. -/
def encodeCursor (format : CursorFormat) (c : Cursor) : String :=
  format.encode (c.value format).text.toUTF8

/-- The cursor that a text stands for. -/
def decodeCursor (format : CursorFormat) (text : String) : Option Cursor :=
  ((format.decode text).bind format.readJson).bind (Cursor.read format)

/-! ### Pages -/

/-- The rows of a list: each has an identifier and the time at which it was created, and is written
with both. -/
structure RowKind (format : CursorFormat) (α : Type) where
  id : α → Uuid
  createdAt : α → ℕ
  value : α → Json
  value_id : ∀ r, (value r).get "id" = some (.str (id r).text)
  value_createdAt : ∀ r, (value r).get "createdAt" =
    some (.str (format.instantText (instantOf (createdAt r))))

/-- What is asked of a list. -/
structure PageRequest where
  limit : Option ℤ
  cursor : Option String

/-- A page, and where the next one begins. -/
structure PageAnswer (α : Type) where
  data : List α
  nextCursor : Option String

section Page

variable {format : CursorFormat} {α : Type} (kind : RowKind format α)

/-- The place of a row in the order of a list. Identifiers are compared by their texts. -/
def RowKind.key (r : α) : ℕ ×ₗ String := toLex (kind.createdAt r, (kind.id r).text)

/-- The place that a cursor stands for. -/
def Cursor.key (c : Cursor) : ℕ ×ₗ String := toLex (storedTime c.instant, c.id.text)

/-- The cursor of a page that ends with a row, made of what was written of it. -/
def cursorOf (format : CursorFormat) (value : Json) : Except GatewayError Cursor :=
  match readTime format ((value.get "createdAt").getD .null),
      readId ((value.get "id").getD .null) with
  | some instant, some id => .ok ⟨instant, id⟩
  | _, _ => .error .invalidJson

/-- The cursor of a request. -/
def readCursor (format : CursorFormat) : Option String → Except GatewayError (Option Cursor)
  | none => .ok none
  | some text =>
    match decodeCursor format text with
    | none => .error (.invalid "invalid cursor")
    | some c => .ok (some c)

/-- The rows behind a cursor, the last created first. -/
def ordered (rows : List α) (cursor : Option Cursor) : List α :=
  (rows.filter fun r => cursor.all fun c => kind.key r < c.key).insertionSort
    fun r r' => kind.key r' ≤ kind.key r

/-- A page of the rows that a query selects. -/
def page (rows : List α) (request : PageRequest) : Except GatewayError (PageAnswer α) :=
  let limit := request.limit.getD 50
  if ¬(1 ≤ limit ∧ limit ≤ 100) then .error (.invalid "limit must be between 1 and 100")
  else
    match readCursor format request.cursor with
    | .error e => .error e
    | .ok cursor =>
      let values := (ordered kind rows cursor).take (limit.toNat + 1)
      let more := limit.toNat < values.length
      let values := values.take limit.toNat
      if more then
        match values.getLast? with
        | none => .error .internal
        | some last =>
          match cursorOf format (kind.value last) with
          | .error e => .error e
          | .ok cursor => .ok ⟨values, some (encodeCursor format cursor)⟩
      else .ok ⟨values, none⟩

/-- How a page is written. -/
def PageAnswer.value (answer : PageAnswer α) : Json :=
  .mkObj [("data", .arr (answer.data.map kind.value)),
    ("nextCursor", .ofOption (answer.nextCursor.map .str))]

/-! ### The list of jobs -/

/-- How the status of a job is written. -/
def JobStatus.text : JobStatus → String
  | queued => "queued"
  | dispatching => "dispatching"
  | waitingResponse => "waiting_response"
  | final status => status.text

/-- The members of a job on a list. -/
def Job.members (format : CursorFormat) (id : Uuid) (job : Job) : List (String × Json) :=
  let time (stored : ℕ) : Json := .str (format.instantText (instantOf stored))
  [("id", .str id.text), ("userId", .str job.userId.text), ("machineId", .str job.machineId.text),
    ("idempotencyKey", .str job.idempotencyKey), ("status", .str job.status.text),
    ("runtimeGenerationId", .ofOption (job.runtimeGenerationId.map fun g => .str g.text)),
    ("createdAt", time job.createdAt), ("dispatchedAt", .ofOption (job.dispatchedAt.map time)),
    ("finishedAt", .ofOption (job.finishedAt.map time)), ("updatedAt", time job.updatedAt)]

theorem Job.nodup_members (format : CursorFormat) (id : Uuid) (job : Job) :
    ((job.members format id).map Prod.fst).Nodup := by
  have hnames : (job.members format id).map Prod.fst = ["id", "userId", "machineId",
      "idempotencyKey", "status", "runtimeGenerationId", "createdAt", "dispatchedAt",
      "finishedAt", "updatedAt"] := rfl
  rw [hnames]
  decide

/-- The jobs, as the rows of a list. -/
def jobKind (format : CursorFormat) : RowKind format (Uuid × Job) where
  id r := r.1
  createdAt r := r.2.createdAt
  value r := .mkObj (r.2.members format r.1)
  value_id r := Json.get_mkObj (Job.nodup_members format r.1 r.2) (by simp [Job.members])
  value_createdAt r := Json.get_mkObj (Job.nodup_members format r.1 r.2) (by simp [Job.members])

/-- Which jobs are listed. -/
structure JobFilter where
  machineId : Option Uuid
  status : Option String
  idempotencyKey : Option String
  limit : Option ℤ
  cursor : Option String

/-- Whether a job is listed. -/
def JobFilter.selects (filter : JobFilter) (user : Uuid) (job : Job) : Bool :=
  job.userId = user && filter.machineId.all (job.machineId = ·) &&
    filter.status.all (job.status.text = ·) && filter.idempotencyKey.all (job.idempotencyKey = ·)

/-- A page of the jobs of a user. -/
def listJobs (format : CursorFormat) (db : Database) (user : Uuid) (filter : JobFilter) :
    Except GatewayError (PageAnswer (Uuid × Job)) :=
  let statuses :=
    ["queued", "dispatching", "waiting_response", "succeeded", "failed", "unknown"]
  if filter.status.any fun status => !statuses.contains status then
    .error (.invalid "invalid job status")
  else page (jobKind format) (db.jobs.select fun _ job => filter.selects user job)
    ⟨filter.limit, filter.cursor⟩

end Page

/-! ### Reading cursors -/

/-- What the libraries promise: an instant that was written is read, an object of two texts that was
written is read, and bytes that were encoded are decoded. -/
structure CursorFormat.Lawful (format : CursorFormat) : Prop where
  readInstant : ∀ instant, format.readInstant (format.instantText instant) = some instant
  readJson : ∀ s t, format.readJson (Json.mkObj [("at", .str s), ("id", .str t)]).text.toUTF8 =
    some (.mkObj [("at", .str s), ("id", .str t)])
  decode : ∀ bytes, format.decode (format.encode bytes) = some bytes

variable {format : CursorFormat} {α : Type} {kind : RowKind format α}

/-- An object of two texts. -/
theorem mkObj_pair (s t : String) :
    Json.mkObj [("at", .str s), ("id", .str t)] = .obj [("at", .str s), ("id", .str t)] := by
  rw [Json.mkObj, List.foldl_cons, List.foldl_cons, List.foldl_nil, Json.insertField,
    Json.insertField, if_neg (show ¬"id" < "at" by decide), if_neg (show ¬"id" = "at" by decide),
    Json.insertField]

theorem Cursor.read_value (hformat : format.Lawful) (c : Cursor) :
    Cursor.read format (c.value format) = some c := by
  have hinstant : readTime format (.str (format.instantText c.instant)) = some c.instant :=
    hformat.readInstant c.instant
  have hid : readId (.str c.id.text) = some c.id := Uuid.parse_text c.id
  rw [Cursor.value, mkObj_pair]
  change (readTime format (.str (format.instantText c.instant))).bind _ = _
  rw [hinstant, hid]
  rfl

/-- **A cursor is read as it was written.** -/
theorem decodeCursor_encodeCursor (hformat : format.Lawful) (c : Cursor) :
    decodeCursor format (encodeCursor format c) = some c := by
  rw [decodeCursor, encodeCursor, hformat.decode, Option.bind_some, Cursor.value,
    hformat.readJson, Option.bind_some]
  exact Cursor.read_value hformat c

/-- A time that is stored is the same after it was an instant. -/
theorem storedTime_instantOf (stored : ℕ) : storedTime (instantOf stored) = stored :=
  Nat.mul_div_cancel stored (by decide)

/-- The cursor of a page is the place of its last row. -/
theorem cursorOf_value (hformat : format.Lawful) (kind : RowKind format α) (r : α) :
    cursorOf format (kind.value r) = .ok ⟨instantOf (kind.createdAt r), kind.id r⟩ := by
  have hinstant : readTime format (.str (format.instantText (instantOf (kind.createdAt r)))) =
      some (instantOf (kind.createdAt r)) := hformat.readInstant _
  have hid : readId (.str (kind.id r).text) = some (kind.id r) := Uuid.parse_text _
  rw [cursorOf, kind.value_createdAt, kind.value_id, Option.getD_some, Option.getD_some, hinstant,
    hid]

theorem Cursor.key_row (kind : RowKind format α) (r : α) :
    Cursor.key ⟨instantOf (kind.createdAt r), kind.id r⟩ = kind.key r := by
  rw [Cursor.key, RowKind.key, storedTime_instantOf]

/-! ### What is on a page -/

variable {rows : List α} {request : PageRequest} {answer : PageAnswer α} {cursor : Option Cursor}

theorem mem_ordered {r : α} :
    r ∈ ordered kind rows cursor ↔ r ∈ rows ∧ ∀ c ∈ cursor, kind.key r < c.key := by
  rw [ordered, List.mem_insertionSort, List.mem_filter, Option.all_eq_true]
  simp only [decide_eq_true_eq, Option.mem_def]

theorem RowKind.id_eq_of_key_eq {r r' : α} (h : kind.key r = kind.key r') :
    kind.id r = kind.id r' :=
  Uuid.text_injective (Prod.mk.inj (toLex.injective h)).2

/-- Rows with distinct identifiers stand in the order of their places. -/
theorem pairwise_ordered (hrows : (rows.map kind.id).Nodup) :
    (ordered kind rows cursor).Pairwise fun r r' => kind.key r' < kind.key r := by
  have hsorted : (ordered kind rows cursor).Pairwise fun r r' => kind.key r' ≤ kind.key r := by
    have htotal : Std.Total fun r r' : α => kind.key r' ≤ kind.key r :=
      ⟨fun r r' => le_total (kind.key r') (kind.key r)⟩
    have htrans : IsTrans α fun r r' => kind.key r' ≤ kind.key r := ⟨fun _ _ _ h h' => h'.trans h⟩
    exact List.pairwise_insertionSort _ _
  have hids : (ordered kind rows cursor).Pairwise fun r r' => kind.id r ≠ kind.id r' := by
    rw [← List.pairwise_map, ← List.nodup_iff_pairwise_ne]
    rw [ordered, ((List.perm_insertionSort _ _).map kind.id).nodup_iff]
    exact hrows.sublist (List.filter_sublist.map kind.id)
  exact (hsorted.and hids).imp fun h =>
    lt_of_le_of_ne h.1 fun heq => h.2 (RowKind.id_eq_of_key_eq heq.symm)

/-- **What is on a page.** The rows behind the cursor of the request, as many as were asked for;
when there are more of them, the page has a cursor, which is the place of its last row. -/
theorem page_eq (hformat : format.Lawful)
    (hlimit : 1 ≤ request.limit.getD 50 ∧ request.limit.getD 50 ≤ 100)
    (hcursor : readCursor format request.cursor = .ok cursor) :
    page kind rows request =
      .ok ⟨(ordered kind rows cursor).take (request.limit.getD 50).toNat,
        if (request.limit.getD 50).toNat < (ordered kind rows cursor).length then
          ((ordered kind rows cursor).take (request.limit.getD 50).toNat).getLast?.map fun last =>
            encodeCursor format ⟨instantOf (kind.createdAt last), kind.id last⟩
        else none⟩ := by
  unfold page
  rw [if_neg (not_not.mpr hlimit), hcursor]
  dsimp only
  rw [List.take_take, Nat.min_eq_left (Nat.le_succ _), List.length_take]
  by_cases hmore : (request.limit.getD 50).toNat < (ordered kind rows cursor).length
  · have hne : (ordered kind rows cursor).take (request.limit.getD 50).toNat ≠ [] := by
      rw [← List.length_pos_iff, List.length_take]
      omega
    rw [if_pos (by omega), if_pos hmore, List.getLast?_eq_some_getLast hne]
    dsimp only
    rw [cursorOf_value hformat, Option.map_some]
  · rw [if_neg (by omega), if_neg hmore]

/-- A page is the rest of the rows, or the first of them with a cursor behind them. -/
theorem page_split (hformat : format.Lawful) (h : page kind rows request = .ok answer) :
    ∃ (n : ℕ) (cursor : Option Cursor), readCursor format request.cursor = .ok cursor ∧
      ((answer.data = ordered kind rows cursor ∧ answer.nextCursor = none) ∨
        ∃ last, ((ordered kind rows cursor).take n).getLast? = some last ∧
          answer.data = (ordered kind rows cursor).take n ∧ answer.nextCursor =
            some (encodeCursor format ⟨instantOf (kind.createdAt last), kind.id last⟩)) := by
  by_cases hlimit : 1 ≤ request.limit.getD 50 ∧ request.limit.getD 50 ≤ 100
  · cases hcursor : readCursor format request.cursor with
    | error e =>
      unfold page at h
      rw [if_neg (not_not.mpr hlimit), hcursor] at h
      cases h
    | ok cursor =>
      rw [page_eq hformat hlimit hcursor] at h
      obtain rfl := Except.ok.inj h
      refine ⟨(request.limit.getD 50).toNat, cursor, rfl, ?_⟩
      dsimp only
      split_ifs with hmore
      · have hne : (ordered kind rows cursor).take (request.limit.getD 50).toNat ≠ [] := by
          rw [← List.length_pos_iff, List.length_take]
          omega
        have hlast := List.getLast?_eq_some_getLast hne
        refine Or.inr ⟨_, hlast, rfl, ?_⟩
        rw [hlast, Option.map_some]
      · exact Or.inl ⟨List.take_of_length_le (Nat.not_lt.mp hmore), rfl⟩
  · unfold page at h
    rw [if_pos hlimit] at h
    cases h

/-! ### Following the cursors -/

/-- The pages of a list from a cursor on, each with the table that it was made of. The table may
change between two pages. -/
inductive Pages (kind : RowKind format α) (selects : α → Bool) :
    Option String → List (List α × PageAnswer α) → Prop
  | last {table : List α} {cursor : Option String} {limit : Option ℤ} {answer : PageAnswer α}
      (hpage : page kind (table.filter selects) ⟨limit, cursor⟩ = .ok answer) :
      Pages kind selects cursor [(table, answer)]
  | next {table : List α} {cursor : Option String} {limit : Option ℤ} {answer : PageAnswer α}
      {text : String} {rest : List (List α × PageAnswer α)}
      (hpage : page kind (table.filter selects) ⟨limit, cursor⟩ = .ok answer)
      (hnext : answer.nextCursor = some text) (hrest : Pages kind selects (some text) rest) :
      Pages kind selects cursor ((table, answer) :: rest)

/-- Whether the last of the pages has no cursor. -/
def ended (pages : List (List α × PageAnswer α)) : Bool :=
  pages.getLast?.any fun p => p.2.nextCursor.isNone

/-- A table some time after another one: the rows that are still there were created when they were,
and the new rows were created later than all that were there. -/
structure Evolved (kind : RowKind format α) (first table : List α) : Prop where
  distinct : (table.map kind.id).Nodup
  kept : ∀ r ∈ table, ∀ r₀ ∈ first, kind.id r = kind.id r₀ → kind.createdAt r = kind.createdAt r₀
  new : ∀ r ∈ table, kind.id r ∉ first.map kind.id →
    ∀ r₀ ∈ first, kind.createdAt r₀ < kind.createdAt r

/-- A row, as an element of a list. -/
def RowKind.place (kind : RowKind format α) (r : α) : (ℕ ×ₗ String)ᵒᵈ := .toDual (kind.key r)

variable {selects : α → Bool} {pages : List (List α × PageAnswer α)} {text : Option String}

theorem readCursor_encodeCursor (hformat : format.Lawful) (c : Cursor) :
    readCursor format (some (encodeCursor format c)) = .ok (some c) := by
  rw [readCursor, decodeCursor_encodeCursor hformat]

/-- The pages are those of a list that changes. -/
theorem Pages.listing (hformat : format.Lawful) (h : Pages kind selects text pages)
    (hcursor : readCursor format text = .ok cursor)
    (hids : ∀ p ∈ pages, (p.1.map kind.id).Nodup) :
    Listing (cursor.map fun c => .toDual c.key) (pages.map fun p =>
      ({k | ∃ r ∈ p.1, selects r = true ∧ kind.place r = k}, p.2.data.map kind.place))
      (ended pages) := by
  have hsorted {table : List α} {cursor : Option Cursor} (hids : (table.map kind.id).Nodup) :
      ((ordered kind (table.filter selects) cursor).map kind.place).Pairwise (· < ·) :=
    List.pairwise_map.mpr (pairwise_ordered (hids.sublist (List.filter_sublist.map kind.id)))
  have hmem {table : List α} {cursor : Option Cursor} (k : (ℕ ×ₗ String)ᵒᵈ) :
      k ∈ (ordered kind (table.filter selects) cursor).map kind.place ↔
        k ∈ {k | ∃ r ∈ table, selects r = true ∧ kind.place r = k} ∧
          ∀ a ∈ cursor.map fun c => .toDual c.key, a < k := by
    rw [List.mem_map]
    constructor
    · rintro ⟨r, hr, rfl⟩
      obtain ⟨hr, hbelow⟩ := mem_ordered.mp hr
      obtain ⟨hr, hselects⟩ := List.mem_filter.mp hr
      refine ⟨⟨r, hr, hselects, rfl⟩, fun a ha => ?_⟩
      obtain ⟨c, hc, rfl⟩ := Option.map_eq_some_iff.mp ha
      exact hbelow c hc
    · rintro ⟨⟨r, hr, hselects, rfl⟩, hbelow⟩
      exact ⟨r, mem_ordered.mpr ⟨List.mem_filter.mpr ⟨hr, hselects⟩, fun c hc =>
        hbelow _ (Option.map_eq_some_iff.mpr ⟨c, hc, rfl⟩)⟩, rfl⟩
  have hlast {l : List α} {n : ℕ} {r : α} (h : (l.take n).getLast? = some r) :
      ((l.map kind.place).take n).getLast? = some (kind.place r) := by
    rw [← List.map_take, List.getLast?_map, h, Option.map_some]
  induction h generalizing cursor with
  | @last table text limit answer hpage =>
    obtain ⟨n, cursor', hcursor', hcases⟩ := page_split hformat hpage
    obtain rfl := Except.ok.inj (hcursor.symm.trans hcursor')
    rcases hcases with ⟨hdata, hend⟩ | ⟨r, hr, hdata, hnext⟩
    · rw [show ended [(table, answer)] = true from congrArg Option.isNone hend, List.map_singleton,
        hdata]
      exact .last (hsorted (hids _ (List.mem_singleton_self _))) hmem
    · rw [show ended [(table, answer)] = false from congrArg Option.isNone hnext,
        List.map_singleton, hdata, List.map_take]
      exact .next (hsorted (hids _ (List.mem_singleton_self _))) hmem (hlast hr) (.stopped _)
  | @next table text limit answer text' rest hpage hnext hrest ih =>
    obtain ⟨n, cursor', hcursor', hcases⟩ := page_split hformat hpage
    obtain rfl := Except.ok.inj (hcursor.symm.trans hcursor')
    rcases hcases with ⟨-, hend⟩ | ⟨r, hr, hdata, hnext'⟩
    · cases hend.symm.trans hnext
    · have hended : ended ((table, answer) :: rest) = ended rest := by
        cases hrest <;> rfl
      obtain rfl := Option.some.inj (hnext.symm.trans hnext')
      have hlisting := ih (readCursor_encodeCursor hformat _)
        fun p hp => hids p (List.mem_cons_of_mem _ hp)
      rw [Option.map_some, Cursor.key_row] at hlisting
      rw [hended, List.map_cons, hdata, List.map_take]
      exact .next (hsorted (hids _ List.mem_cons_self)) hmem (hlast hr) hlisting

/-- A page with a cursor has rows, and the cursor leads to another page, whatever the table then
is. -/
theorem Pages.continues (hformat : format.Lawful) (h : Pages kind selects text pages)
    {p : List α × PageAnswer α} (hp : p ∈ pages) {next : String}
    (hnext : p.2.nextCursor = some next) :
    p.2.data ≠ [] ∧ ∀ (table : List α) (limit : Option ℤ),
      1 ≤ limit.getD 50 ∧ limit.getD 50 ≤ 100 →
        ∃ answer, page kind (table.filter selects) ⟨limit, some next⟩ = .ok answer := by
  have hpage {table : List α} {request : PageRequest} {answer : PageAnswer α}
      (hpage : page kind (table.filter selects) request = .ok answer)
      (hnext : answer.nextCursor = some next) : answer.data ≠ [] ∧
        ∃ c, readCursor format (some next) = .ok c := by
    obtain ⟨n, cursor, -, ⟨-, hend⟩ | ⟨r, hr, hdata, hnext'⟩⟩ := page_split hformat hpage
    · cases hend.symm.trans hnext
    · obtain rfl := Option.some.inj (hnext.symm.trans hnext')
      rw [hdata]
      exact ⟨List.ne_nil_of_mem (List.mem_of_getLast? hr), _, readCursor_encodeCursor hformat _⟩
  have hcontinues : p.2.data ≠ [] ∧ ∃ c, readCursor format (some next) = .ok c := by
    induction h with
    | last h =>
      obtain rfl := List.mem_singleton.mp hp
      exact hpage h hnext
    | next h _ _ ih =>
      rcases List.mem_cons.mp hp with rfl | hp
      · exact hpage h hnext
      · exact ih hp
  obtain ⟨hne, c, hc⟩ := hcontinues
  exact ⟨hne, fun table limit hlimit => ⟨_, page_eq hformat hlimit hc⟩⟩

/-! ### The list -/

section Enumerate

variable {first : List α} {answer : PageAnswer α}

/-- A row on a page was in the table, and is one of those that are listed. -/
theorem Pages.sound (hformat : format.Lawful) (h : Pages kind selects text pages)
    {p : List α × PageAnswer α} (hp : p ∈ pages) {r : α} (hr : r ∈ p.2.data) :
    r ∈ p.1 ∧ selects r = true := by
  have hpage {table : List α} {request : PageRequest} {answer : PageAnswer α}
      (hpage : page kind (table.filter selects) request = .ok answer) (hr : r ∈ answer.data) :
      r ∈ table ∧ selects r = true := by
    obtain ⟨n, cursor, -, ⟨hdata, -⟩ | ⟨last, -, hdata, -⟩⟩ := page_split hformat hpage
    · exact List.mem_filter.mp (mem_ordered.mp (hdata ▸ hr)).1
    · exact List.mem_filter.mp (mem_ordered.mp (List.mem_of_mem_take (hdata ▸ hr))).1
  induction h with
  | last h =>
    obtain rfl := List.mem_singleton.mp hp
    exact hpage h hr
  | next h _ _ ih =>
    rcases List.mem_cons.mp hp with rfl | hp
    · exact hpage h hr
    · exact ih hp

/-- All rows on the pages were in the table from which the first page was made: rows that are new
lie before it. -/
theorem Pages.mem_first (hformat : format.Lawful)
    (h : Pages kind selects none ((first, answer) :: pages))
    (hevolved : ∀ p ∈ (first, answer) :: pages, Evolved kind first p.1) {r : α}
    (hr : r ∈ ((first, answer) :: pages).flatMap fun p => p.2.data) :
    kind.id r ∈ first.map kind.id := by
  rw [List.flatMap_cons, List.mem_append] at hr
  rcases hr with hr | hr
  · exact List.mem_map_of_mem (h.sound hformat List.mem_cons_self hr).1
  · cases h with
    | last => exact absurd hr List.not_mem_nil
    | @next _ _ limit _ text _ hpage hnext hrest =>
      obtain ⟨n, cursor, -, ⟨-, hend⟩ | ⟨last, hlast, -, hnext'⟩⟩ := page_split hformat hpage
      · cases hend.symm.trans hnext
      obtain rfl := Option.some.inj (hnext.symm.trans hnext')
      have hin : last ∈ first := (List.mem_filter.mp (mem_ordered.mp
        (List.mem_of_mem_take (List.mem_of_getLast? hlast))).1).1
      have hids (p : List α × PageAnswer α) (hp : p ∈ pages) : (p.1.map kind.id).Nodup :=
        (hevolved p (List.mem_cons_of_mem _ hp)).distinct
      have hlisting := hrest.listing hformat (readCursor_encodeCursor hformat _) hids
      rw [Option.map_some, Cursor.key_row] at hlisting
      obtain ⟨p, hp, hr⟩ := List.mem_flatMap.mp hr
      have hbehind : kind.key r < kind.key last := by
        refine hlisting.behind (x := kind.place r) ?_ _ rfl
        rw [List.flatMap_map]
        exact List.mem_flatMap.mpr ⟨p, hp, List.mem_map_of_mem hr⟩
      by_contra hnew
      have hlater := (hevolved p (List.mem_cons_of_mem _ hp)).new r
        (hrest.sound hformat hp hr).1 hnew last hin
      rcases Prod.Lex.lt_iff.mp hbehind with hlt | ⟨heq, -⟩
      · exact lt_asymm hlater hlt
      · exact hlater.ne' heq

/-- **Keyset paging.** A table of rows with distinct identifiers changes between the pages of a
list: rows are removed, others are changed, and new rows are created later than all there were. The
rows on the pages stand in descending order of their creation times and identifiers, and none
comes twice; every row that was listed when the first page was made and in all tables of the
following pages is on a page of a list that has ended; a page with a cursor has rows, and its cursor
leads to another page; and there are only so many pages. A cursor is read as it was written, and
stands for the time that is stored. -/
theorem pages_enumerate (hformat : format.Lawful)
    (h : Pages kind selects none ((first, answer) :: pages))
    (hevolved : ∀ p ∈ (first, answer) :: pages, Evolved kind first p.1) :
    ((((first, answer) :: pages).flatMap fun p => p.2.data).Pairwise
      fun r r' => kind.key r' < kind.key r) ∧
    (ended ((first, answer) :: pages) = true → ∀ r ∈ first,
      (∀ p ∈ (first, answer) :: pages, ∃ r' ∈ p.1, kind.id r' = kind.id r ∧ selects r' = true) →
      ((((first, answer) :: pages).flatMap fun p => p.2.data).map kind.id).count (kind.id r) = 1) ∧
    (∀ p ∈ (first, answer) :: pages, ∀ r ∈ p.2.data, r ∈ p.1 ∧ selects r = true) ∧
    (∀ p ∈ (first, answer) :: pages, ∀ next, p.2.nextCursor = some next → p.2.data ≠ [] ∧
      ∀ (table : List α) (limit : Option ℤ), 1 ≤ limit.getD 50 ∧ limit.getD 50 ≤ 100 →
        ∃ answer, page kind (table.filter selects) ⟨limit, some next⟩ = .ok answer) ∧
    ((first, answer) :: pages).length ≤ first.length + 1 ∧
    (∀ c, decodeCursor format (encodeCursor format c) = some c) ∧
    ∀ stored, storedTime (instantOf stored) = stored := by
  have hlisting := h.listing hformat rfl fun p hp => (hevolved p hp).distinct
  have hsound (p : List α × PageAnswer α) (hp : p ∈ (first, answer) :: pages) (r : α)
      (hr : r ∈ p.2.data) : r ∈ p.1 ∧ selects r = true := h.sound hformat hp hr
  have hfirst (r : α) (hr : r ∈ ((first, answer) :: pages).flatMap fun p => p.2.data) :
      kind.id r ∈ first.map kind.id := h.mem_first hformat hevolved hr
  have hcontinues (p : List α × PageAnswer α) (hp : p ∈ (first, answer) :: pages) (next : String)
      (hnext : p.2.nextCursor = some next) := h.continues hformat hp hnext
  generalize (first, answer) :: pages = all at *
  have hflat : (all.map fun p => ({k | ∃ r ∈ p.1, selects r = true ∧ kind.place r = k},
      p.2.data.map kind.place)).flatMap Prod.snd =
      (all.flatMap fun p => p.2.data).map kind.place := by
    rw [List.flatMap_map, List.map_flatMap]
  have hordered : (all.flatMap fun p => p.2.data).Pairwise
      fun r r' => kind.key r' < kind.key r := by
    have hincreasing := hlisting.increasing
    rw [hflat] at hincreasing
    exact List.pairwise_map.mp hincreasing
  have hcreated {r r₀ : α} (hr : r ∈ all.flatMap fun p => p.2.data) (hr₀ : r₀ ∈ first)
      (hid : kind.id r₀ = kind.id r) : kind.createdAt r = kind.createdAt r₀ := by
    obtain ⟨p, hp, hr⟩ := List.mem_flatMap.mp hr
    exact (hevolved p hp).kept r (hsound p hp r hr).1 r₀ hr₀ hid.symm
  have hids : ((all.flatMap fun p => p.2.data).map kind.id).Nodup := by
    rw [List.nodup_iff_pairwise_ne, List.pairwise_map]
    refine hordered.imp_of_mem fun {r r'} hr hr' hlt hid => hlt.ne' ?_
    obtain ⟨r₀, hr₀, hid₀⟩ := List.mem_map.mp (hfirst r hr)
    rw [RowKind.key, RowKind.key, hid, hcreated hr hr₀ hid₀, hcreated hr' hr₀ (hid₀.trans hid)]
  refine ⟨hordered, fun hended r hr hthere => ?_, hsound, hcontinues, ?_,
    decodeCursor_encodeCursor hformat, storedTime_instantOf⟩
  · have hplace : kind.place r ∈ (all.flatMap fun p => p.2.data).map kind.place := by
      rw [← hflat]
      refine hlisting.complete hended (fun a ha => absurd ha (Option.not_mem_none a))
        fun page hpage => ?_
      obtain ⟨p, hp, rfl⟩ := List.mem_map.mp hpage
      obtain ⟨r', hr', hid, hselects⟩ := hthere p hp
      refine ⟨r', hr', hselects, ?_⟩
      rw [RowKind.place, RowKind.place, RowKind.key, RowKind.key, hid,
        (hevolved p hp).kept r' hr' r hr hid]
    obtain ⟨r', hr', heq⟩ := List.mem_map.mp hplace
    have hid : kind.id r' = kind.id r := RowKind.id_eq_of_key_eq (OrderDual.toDual.injective heq)
    exact List.count_eq_one_of_mem hids (hid ▸ List.mem_map_of_mem hr')
  · have hlength := hlisting.length_le
    rw [hflat, List.length_map, List.length_map] at hlength
    have hcard := (List.subperm_of_subset hids fun id hid => by
      obtain ⟨r, hr, rfl⟩ := List.mem_map.mp hid
      exact hfirst r hr).length_le
    rw [List.length_map, List.length_map] at hcard
    omega

end Enumerate

/-! ### Lists of jobs -/

/-- The table of jobs. -/
def jobRows (db : Database) : List (Uuid × Job) := db.jobs.select fun _ _ => true

theorem nodup_jobRows (db : Database) : ((jobRows db).map (jobKind format).id).Nodup :=
  Table.nodup_map_fst_select _ _

/-- A page of jobs is a page of the rows that the filter selects. -/
theorem listJobs_eq_page {db : Database} {user : Uuid} {filter : JobFilter}
    (hstatus : filter.status.all fun status => ["queued", "dispatching", "waiting_response",
      "succeeded", "failed", "unknown"].contains status) :
    listJobs format db user filter = page (jobKind format)
      ((jobRows db).filter fun r => filter.selects user r.2) ⟨filter.limit, filter.cursor⟩ := by
  have hrows : (jobRows db).filter (fun r => filter.selects user r.2) =
      db.jobs.select fun _ job => filter.selects user job := by
    rw [jobRows, Table.select, List.filter_map, List.filter_filter, Table.select]
    simp only [Bool.and_true]
    rfl
  unfold listJobs
  rw [hrows]
  dsimp only
  rw [if_neg]
  cases hs : filter.status with
  | none => exact Bool.false_ne_true
  | some status =>
    rw [hs, Option.all_some] at hstatus
    rw [Option.any_some, hstatus]
    exact Bool.false_ne_true

/-! ### Two jobs of one moment -/

/-- An instant, and how it is written. -/
def sampleInstant : ℕ := 1700000000123456000

def sampleText : String := "2023-11-14T22:13:20.123456Z"

/-- A cursor, and how it is written. -/
def sampleCursor : Cursor := ⟨sampleInstant, .numbered 2⟩

def sampleCursorText : String :=
  "eyJhdCI6IjIwMjMtMTEtMTRUMjI6MTM6MjAuMTIzNDU2WiIsImlkIjoiMDAwMDAwMDAtMDAw" ++
    "MC00MDAwLTgwMDAtMDAwMDAwMDAwMDAyIn0"

/-- An object of two texts, as it is written. -/
def pairBytes (m : String × String) : ByteArray :=
  (Json.mkObj [("at", .str m.1), ("id", .str m.2)]).text.toUTF8

/-- The bytes that are the text of the cursor. -/
def sampleBytes : ByteArray := pairBytes (sampleText, (Uuid.numbered 2).text)

/-- A format that writes one instant and one cursor as they really are, and all others by their
numbers and bytes. -/
noncomputable def sampleFormat : CursorFormat where
  instantText n := if n = sampleInstant then sampleText else toString n
  readInstant s := if s = sampleText then some sampleInstant else Json.natOfLiteral s
  readJson bytes := (Function.partialInv pairBytes bytes).map fun m =>
    .mkObj [("at", .str m.1), ("id", .str m.2)]
  encode bytes := if bytes.data = sampleBytes.data then sampleCursorText else
    String.ofList ('=' :: bytes.data.toList.map fun b => Char.ofNat b.toNat)
  decode text := if text = sampleCursorText then some sampleBytes else
    some ⟨(text.toList.tail.map fun c => UInt8.ofNat c.toNat).toArray⟩

theorem pairBytes_injective : Function.Injective pairBytes := by
  rintro ⟨s, t⟩ ⟨s', t'⟩ h
  have hobj := Json.text_injective (String.toByteArray_inj.mp h)
  rw [mkObj_pair, mkObj_pair] at hobj
  cases hobj
  rfl

theorem sampleFormat_lawful : sampleFormat.Lawful where
  readInstant n := by
    change (if (if n = sampleInstant then sampleText else toString n) = sampleText then
      some sampleInstant else Json.natOfLiteral _) = some n
    by_cases hn : n = sampleInstant
    · rw [if_pos hn, if_pos rfl, hn]
    · have hne : toString n ≠ sampleText := by
        intro h
        have hread := Json.natOfLiteral_toString n
        rw [h, show Json.natOfLiteral sampleText = none from rfl] at hread
        cases hread
      rw [if_neg hn, if_neg hne, show sampleFormat.instantText n = toString n from if_neg hn,
        Json.natOfLiteral_toString]
  readJson s t := by
    change (Function.partialInv pairBytes (pairBytes (s, t))).map _ = _
    rw [Function.partialInv_left pairBytes_injective]
    rfl
  decode bytes := by
    change (if (if bytes.data = sampleBytes.data then sampleCursorText else _) =
      sampleCursorText then
      some sampleBytes else _) = some bytes
    by_cases hb : bytes.data = sampleBytes.data
    · rw [if_pos hb, if_pos rfl, ByteArray.ext hb]
    · have hne : String.ofList ('=' :: bytes.data.toList.map fun b => Char.ofNat b.toNat) ≠
          sampleCursorText := by
        intro h
        have hlist := congrArg String.toList h
        rw [String.toList_ofList] at hlist
        cases hlist
      have hencode : sampleFormat.encode bytes =
          String.ofList ('=' :: bytes.data.toList.map fun b => Char.ofNat b.toNat) := if_neg hb
      have hbyte (b : UInt8) : UInt8.ofNat (Char.ofNat b.toNat).toNat = b := by
        have hlt := b.toNat_lt
        rw [Char.ofNat, dif_pos (Or.inl (by omega))]
        exact UInt8.ofNat_toNat
      have hmap : ((fun c : Char => UInt8.ofNat c.toNat) ∘ fun b : UInt8 => Char.ofNat b.toNat) =
          id := funext hbyte
      rw [if_neg hb, if_neg hne, hencode, String.toList_ofList, List.tail_cons, List.map_map, hmap,
        List.map_id]

/-- A job that was created at the instant. -/
def sampleJob : Job :=
  ⟨.numbered 0, .numbered 0, "key", "hash", none, .queued, none, false, none, none, none,
    1700000000123456, none, none, 1700000000123456⟩

/-- Two jobs of that instant. -/
def sampleRows : List (Uuid × Job) := [(.numbered 1, sampleJob), (.numbered 2, sampleJob)]

theorem sampleFormat_instantText (n : ℕ) : sampleFormat.instantText n =
    if n = sampleInstant then sampleText else toString n := rfl

theorem sampleFormat_encode (bytes : ByteArray) : sampleFormat.encode bytes =
    if bytes.data = sampleBytes.data then sampleCursorText else
      String.ofList ('=' :: bytes.data.toList.map fun b => Char.ofNat b.toNat) := rfl

theorem encodeCursor_sampleCursor : encodeCursor sampleFormat sampleCursor = sampleCursorText := by
  rw [encodeCursor, Cursor.value, sampleFormat_instantText, sampleCursor, if_pos rfl,
    sampleFormat_encode]
  exact if_pos rfl

/-- A list of two jobs that were created at once, on two pages. -/
theorem pages_enumerate_tie :
    ∃ pages : List (List (Uuid × Job) × PageAnswer (Uuid × Job)), pages.length = 2 ∧
      ((pages.flatMap fun p => p.2.data).map Prod.fst).count (.numbered 1) = 1 := by
  have hless : (jobKind sampleFormat).key (.numbered 1, sampleJob) <
      (jobKind sampleFormat).key (.numbered 2, sampleJob) :=
    Prod.Lex.lt_iff.mpr (Or.inr ⟨rfl, by decide⟩)
  have hkey : sampleCursor.key = (jobKind sampleFormat).key (.numbered 2, sampleJob) := rfl
  have hall : ordered (jobKind sampleFormat) sampleRows none =
      [(.numbered 2, sampleJob), (.numbered 1, sampleJob)] := by
    simp [ordered, sampleRows, hless.not_ge]
  have hrest : ordered (jobKind sampleFormat) sampleRows (some sampleCursor) =
      [(.numbered 1, sampleJob)] := by
    simp [ordered, sampleRows, hkey, hless]
  have hpage : page (jobKind sampleFormat) sampleRows ⟨some 1, none⟩ =
      .ok ⟨[(.numbered 2, sampleJob)], some sampleCursorText⟩ := by
    rw [page_eq sampleFormat_lawful (by decide) rfl, hall, ← encodeCursor_sampleCursor]
    rfl
  have hpage' : page (jobKind sampleFormat) sampleRows ⟨some 1, some sampleCursorText⟩ =
      .ok ⟨[(.numbered 1, sampleJob)], none⟩ := by
    rw [← encodeCursor_sampleCursor, page_eq sampleFormat_lawful (by decide)
      (readCursor_encodeCursor sampleFormat_lawful sampleCursor), hrest]
    rfl
  have hevolved : Evolved (jobKind sampleFormat) sampleRows sampleRows := by
    have hcreated (r : Uuid × Job) (hr : r ∈ sampleRows) : r.2 = sampleJob := by
      rcases List.mem_pair.mp hr with rfl | rfl <;> rfl
    refine ⟨by decide, fun r hr r₀ hr₀ _ => ?_, fun r hr hnew => ?_⟩
    · exact congrArg Job.createdAt ((hcreated r hr).trans (hcreated r₀ hr₀).symm)
    · exact absurd (List.mem_map_of_mem hr) hnew
  have hpages : Pages (jobKind sampleFormat) (fun _ => true) none
      [(sampleRows, ⟨[(.numbered 2, sampleJob)], some sampleCursorText⟩),
      (sampleRows, ⟨[(.numbered 1, sampleJob)], none⟩)] := .next hpage rfl (.last hpage')
  have hresult := pages_enumerate sampleFormat_lawful hpages fun p hp => by
    rcases List.mem_pair.mp hp with rfl | rfl <;> exact hevolved
  refine ⟨_, rfl, hresult.2.1 rfl (.numbered 1, sampleJob) List.mem_cons_self fun p hp => ?_⟩
  rcases List.mem_pair.mp hp with rfl | rfl <;>
    exact ⟨_, List.mem_cons_self, rfl, rfl⟩

end ExecutionProvider.Gateway
