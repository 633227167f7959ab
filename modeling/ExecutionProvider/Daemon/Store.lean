import ExecutionProvider.Foundation.Runs
import ExecutionProvider.Foundation.Table
import ExecutionProvider.Protocol.Codec
import ExecutionProvider.Protocol.JsonValue

/-!
# The state directory of a daemon

A daemon keeps its identity, its credential and its status in files, and replaces each of them by
renaming a new file over it. A lock keeps other daemons and the commands that configure one out of
the directory. Those that only look at the directory take the lock, too, if it is free. All of them
are killed at any moment, also between two pieces of a file, and their calls may fail.

## Main definitions

* `World`: the directory and the stages of the processes that use it.
* `World.proceed`: the next call of a process.
* `storeSystem`: the runs of any number of processes.
* `latest`: the document that a file was last replaced by.
* `Stage.Holds`: what a process may rely on.
* `openings`: the calls of a process that opens the directory.

## Main results

* `Sound.step`: every step keeps this.
* `directory_kept`: one process has the directory, its identity does not change, and what is read is
  what was written last.
* `World.opens_writing`: a file is written, whatever the pieces.
* `directory_reopens`: a directory whose lock is free is opened again.
-/

namespace ExecutionProvider.StateDirectory

/-! ### Documents -/

/-- The credential of a machine. -/
structure Credential where
  gatewayUrl : String
  hostId : Uuid
  token : String
deriving DecidableEq

/-- Credentials, as they are stored. -/
def Credential.codec : Codec Credential :=
  .strictRecord ["gateway_url", "host_id", "token"]
    (fun c => [.required "gateway_url" Codec.text c.gatewayUrl,
      .required "host_id" Uuid.codec c.hostId, .required "token" Codec.text c.token])
    (fun m => do
      let gatewayUrl ← m.required "gateway_url" Codec.text
      let hostId ← m.required "host_id" Uuid.codec
      let token ← m.required "token" Codec.text
      return { gatewayUrl, hostId, token })
    (by decide) (fun _ => rfl) fun c => by simp [Json.lookup_cons_eq_ite]

/-- What a daemon says about itself. -/
structure Status where
  state : String
  hostId : Uuid
  installationId : Uuid
  generationId : Uuid
  pid : UInt32
  detail : String
  updatedSeconds : UInt64
  updatedNanos : UInt32
deriving DecidableEq

/-- The status, as it is stored. -/
def Status.value (s : Status) : Json :=
  .mkObj [("state", .str s.state), ("host_id", .str s.hostId.text),
    ("installation_id", .str s.installationId.text), ("generation_id", .str s.generationId.text),
    ("pid", .num (toString s.pid.toNat)), ("detail", .str s.detail),
    ("updated_at", .mkObj [("secs_since_epoch", .num (toString s.updatedSeconds.toNat)),
      ("nanos_since_epoch", .num (toString s.updatedNanos.toNat))])]

/-- The files of the directory. -/
inductive FileName
  | identity
  | credential
  | status
deriving DecidableEq

/-- What is written to a file. -/
inductive Document
  | identity (id : Uuid)
  | credential (c : Credential)
  | status (s : Status)
deriving DecidableEq

namespace Document

/-- The file to which a document is written. -/
def name : Document → FileName
  | identity _ => .identity
  | credential _ => .credential
  | status _ => .status

/-- A document as a value. -/
def value : Document → Json
  | identity id => Uuid.codec.write id
  | credential c => Credential.codec.write c
  | status s => s.value

/-- Documents are read as they were written. -/
theorem isValue : ∀ d : Document, Json.IsValue 127 d.value
  | identity id => (Json.isValue_str id.text).mono (Nat.zero_le _)
  | credential c => by
    have hstr (s : String) : Json.IsValue 126 (.str s) := (Json.isValue_str s).mono (Nat.zero_le _)
    refine Json.IsValue.mkObj (by simp [Json.present]) fun f hf => ?_
    simp only [Json.present, Member.required, List.filterMap_cons, List.filterMap_nil,
      Option.map_some, List.mem_cons, List.not_mem_nil, or_false] at hf
    rcases hf with rfl | rfl | rfl
    · exact hstr _
    · exact hstr _
    · exact hstr _
  | status s => by
    have hstr (s : String) : Json.IsValue 126 (.str s) := (Json.isValue_str s).mono (Nat.zero_le _)
    have hnum {n k : ℕ} (h : n < 2 ^ 64) : Json.IsValue k (.num (toString n)) :=
      (Json.isValue_num_toNat h).mono (Nat.zero_le _)
    refine Json.IsValue.mkObj (by simp) fun f hf => ?_
    simp only [List.mem_cons, List.not_mem_nil, or_false] at hf
    rcases hf with rfl | rfl | rfl | rfl | rfl | rfl | rfl
    · exact hstr _
    · exact hstr _
    · exact hstr _
    · exact hstr _
    · exact hnum (by have := s.pid.toNat_lt; omega)
    · exact hstr _
    · refine Json.IsValue.mkObj (n := 125) (by simp) fun g hg => ?_
      simp only [List.mem_cons, List.not_mem_nil, or_false] at hg
      rcases hg with rfl | rfl
      · exact hnum s.updatedSeconds.toNat_lt
      · exact hnum (by have := s.updatedNanos.toNat_lt; omega)

end Document

/-- What a daemon takes from its library for JSON: how values are printed and read, and what is said
of bytes that cannot be read. -/
structure Format where
  pretty : Json → List UInt8
  fromSlice : List UInt8 → Option Json
  errorText : List UInt8 → String
  fromSlice_pretty : ∀ value, Json.IsValue 127 value → fromSlice (pretty value ++ [10]) = some value

namespace Format

variable (f : Format)

/-- The bytes of a document. -/
def encode (d : Document) : List UInt8 := f.pretty d.value ++ [10]

theorem fromSlice_encode (d : Document) : f.fromSlice (f.encode d) = some d.value :=
  f.fromSlice_pretty d.value d.isValue

/-- The identity in a file. -/
def identity (bytes : List UInt8) : Except String Uuid :=
  match (f.fromSlice bytes).bind Uuid.codec.read with
  | some id => .ok id
  | none => .error (f.errorText bytes)

/-- The credential in a file. -/
def credential (bytes : List UInt8) : Except String Credential :=
  match (f.fromSlice bytes).bind Credential.codec.read with
  | some c => .ok c
  | none => .error (f.errorText bytes)

theorem identity_encode (id : Uuid) : f.identity (f.encode (.identity id)) = .ok id := by
  rw [identity, fromSlice_encode, Option.bind_some, Document.value, Codec.read_write]

theorem credential_encode (c : Credential) : f.credential (f.encode (.credential c)) = .ok c := by
  rw [credential, fromSlice_encode, Option.bind_some, Document.value, Codec.read_write]

end Format

/-- Whether a token can be sent. -/
def validateToken (token : String) : Except String Unit :=
  if token = "" ∨ 8192 < token.utf8ByteSize ∨
      ¬token.toList.all fun c => 33 ≤ c.toNat && c.toNat ≤ 126 then
    .error "credential must be 1 to 8192 printable ASCII bytes with no whitespace"
  else .ok ()

/-! ### The directory -/

/-- A file, or a new one that is to replace it. -/
inductive Path
  | file (name : FileName)
  | temporary (name : FileName) (id : Uuid)
deriving DecidableEq

/-- A file that is being written by a process, which has opened the directory or is about to. -/
structure Write where
  document : Document
  installation : Uuid
  opening : Bool
deriving DecidableEq

/-- How far a process has come: it has the lock, or has opened the directory; it creates, writes,
synchronises or renames a new file, or removes it after a failure; or it looks at the directory, of
which it has the lock or not, and at the credential last. -/
inductive Stage
  | locked
  | open (installation : Uuid)
  | creating (write : Write)
  | writing (write : Write) (temporary : Uuid) (rest : List UInt8)
  | syncing (write : Write) (temporary : Uuid)
  | replacing (write : Write) (temporary : Uuid)
  | removing (write : Write) (temporary : Uuid)
  | inspecting (locked : Bool)
  | inspected (locked : Bool)

/-- The process that has the lock, the files, and the processes that are running. -/
structure World where
  lock : Option ℕ
  files : Table Path (List UInt8)
  stages : Table ℕ Stage

/-- What has happened. -/
inductive Event
  | opened (pid : ℕ) (installation : Uuid)
  | refused (pid : ℕ)
  | replaced (pid : ℕ) (document : Document)
  | failed (pid : ℕ) (document : Document)
  | read (pid : ℕ) (result : Except String Credential)
  | statusRead (pid : ℕ) (status : Option Json)
  | inspected (pid : ℕ) (configured running : Bool)

/-- What processes do: they open the directory, configure a credential, write their status, read the
credential, close the directory, look at it, do the next call of any of these, which may fail, or
are killed, and then the lock is taken back. -/
inductive Action
  | open (pid : ℕ)
  | configure (pid : ℕ) (credential : Credential)
  | status (pid : ℕ) (status : Status)
  | credential (pid : ℕ)
  | close (pid : ℕ)
  | inspect (pid : ℕ)
  | proceed (pid : ℕ) (fails : Bool) (id : Uuid) (count : ℕ)
  | kill (pid : ℕ)
  | reap

namespace World

/-- A directory that was just created. -/
def init : World := ⟨none, ∅, ∅⟩

/-- A process goes on to a stage. -/
def enter (w : World) (pid : ℕ) (stage : Stage) : World :=
  { w with stages := w.stages.insert pid stage }

/-- A process is done, or gone. -/
def leave (w : World) (pid : ℕ) : World := { w with stages := w.stages.erase pid }

/-- The lock is released. -/
def unlock (w : World) : World := { w with lock := none }

/-- A process takes the lock. -/
def take (w : World) (pid : ℕ) : World := { w with lock := some pid }

/-- The files are changed. -/
def put (w : World) (files : Table Path (List UInt8)) : World := { w with files := files }

/-- The new file of a process. -/
def temporary (write : Write) (id : Uuid) : Path := .temporary write.document.name id

/-- A file could not be replaced. A directory that was about to be opened is not. -/
def giveUp (w : World) (pid : ℕ) (write : Write) : World × List Event :=
  if write.opening then (w.unlock.leave pid, [.failed pid write.document, .refused pid])
  else (w.enter pid (.open write.installation), [.failed pid write.document])

/-- A process that has looked at the directory. -/
def look (w : World) (pid : ℕ) (locked : Bool) (es : List Event) : World × List Event :=
  ((if locked then w.unlock else w).leave pid, es)

/-- The credential that is configured. -/
def credentialOf (f : Format) (w : World) : Except String Credential :=
  match w.files.lookup (.file .credential) with
  | none => .error "machine is not configured; run register first"
  | some bytes => do
    let credential ← f.credential bytes
    validateToken credential.token
    return credential

/-- The next call of a process. The identifiers of new files, and of a directory that has none yet,
come from outside. -/
def proceed (f : Format) (w : World) (pid : ℕ) (fails : Bool) (id : Uuid) (count : ℕ) :
    Stage → Option (World × List Event)
  | .locked =>
    if fails then some (w.unlock.leave pid, [.refused pid])
    else match w.files.lookup (.file .identity) with
    | none => some (w.enter pid (.creating ⟨.identity id, id, true⟩), [])
    | some bytes =>
      match f.identity bytes with
      | .ok installation => some (w.enter pid (.open installation), [.opened pid installation])
      | .error _ => some (w.unlock.leave pid, [.refused pid])
  | .open _ => none
  | .creating write =>
    if fails ∨ temporary write id ∈ w.files then some (w.enter pid (.removing write id), [])
    else some ((w.put (w.files.insert (temporary write id) [])).enter pid
      (.writing write id (f.encode write.document)), [])
  | .writing write t rest =>
    if fails then some (w.enter pid (.removing write t), [])
    else if rest = [] then some (w.enter pid (.syncing write t), [])
    else some ((w.put (w.files.modify (temporary write t) fun bytes =>
      bytes ++ rest.take (count + 1))).enter pid (.writing write t (rest.drop (count + 1))), [])
  | .syncing write t =>
    if fails then some (w.enter pid (.removing write t), [])
    else some (w.enter pid (.replacing write t), [])
  | .replacing write t =>
    match if fails then none else w.files.lookup (temporary write t) with
    | none => some (w.enter pid (.removing write t), [])
    | some bytes => some ((w.put ((w.files.erase (temporary write t)).insert
        (.file write.document.name) bytes)).enter pid (.open write.installation),
      .replaced pid write.document ::
        if write.opening then [.opened pid write.installation] else [])
  | .removing write t =>
    some ((if fails then w else w.put (w.files.erase (temporary write t))).giveUp pid write)
  | .inspecting locked =>
    if fails then some (w.look pid locked [])
    else match w.files.lookup (.file .status) with
    | none => some (w.enter pid (.inspected locked), [.statusRead pid none])
    | some bytes =>
      match f.fromSlice bytes with
      | some status => some (w.enter pid (.inspected locked), [.statusRead pid (some status)])
      | none => some (w.look pid locked [])
  | .inspected locked =>
    some (w.look pid locked [.inspected pid (decide (.file .credential ∈ w.files)) (!locked)])

/-- A process that has opened the directory calls it. -/
def call (w : World) (pid : ℕ) (f : Uuid → World × List Event) : Option (World × List Event) :=
  match w.stages.lookup pid with
  | some (.open installation) => some (f installation)
  | _ => none

/-- What happens to a directory. -/
def step (f : Format) (w : World) : Action → Option (World × List Event)
  | .open pid =>
    if pid ∈ w.stages then none
    else if w.lock = none then some ((w.take pid).enter pid .locked, [])
    else some (w, [.refused pid])
  | .configure pid credential => w.call pid fun installation =>
    (w.enter pid (.creating ⟨.credential credential, installation, false⟩), [])
  | .status pid status => w.call pid fun installation =>
    (w.enter pid (.creating ⟨.status { status with installationId := installation },
      installation, false⟩), [])
  | .credential pid => w.call pid fun _ => (w, [.read pid (w.credentialOf f)])
  | .close pid => w.call pid fun _ => (w.unlock.leave pid, [])
  | .inspect pid =>
    if pid ∈ w.stages then none
    else if w.lock = none then some ((w.take pid).enter pid (.inspecting true), [])
    else some (w.enter pid (.inspecting false), [])
  | .proceed pid fails id count =>
    (w.stages.lookup pid).bind (w.proceed f pid fails id count)
  | .kill pid => if pid ∈ w.stages then some (w.leave pid, []) else none
  | .reap => if w.lock.any fun pid => pid ∉ w.stages then some (w.unlock, []) else none

end World

/-- The runs of any number of processes that use a directory. -/
def storeSystem (f : Format) : System World Action Event where
  start w := w = .init
  step := World.step f

/-! ### What was written -/

/-- The document by which a file was replaced. -/
def Event.replacement : Event → Option Document
  | replaced _ document => some document
  | _ => none

/-- The document by which a file was replaced last. -/
def latest (name : FileName) (log : List Event) : Option Document :=
  ((log.filterMap Event.replacement).filter fun d => d.name = name).getLast?

section

variable {name : FileName} {log es : List Event}

theorem latest_append_of_none (h : es.filterMap Event.replacement = []) :
    latest name (log ++ es) = latest name log := by
  rw [latest, latest, List.filterMap_append, h, List.append_nil]

theorem latest_append_of_single {d : Document} (h : es.filterMap Event.replacement = [d]) :
    latest name (log ++ es) = if d.name = name then some d else latest name log := by
  rw [latest, latest, List.filterMap_append, h, List.filter_append]
  split_ifs with hd
  · simp [hd]
  · simp [hd]

theorem name_of_latest {d : Document} (h : latest name log = some d) : d.name = name := by
  have hmem := List.mem_of_getLast? h
  exact of_decide_eq_true (List.mem_filter.mp hmem).2

end

/-! ### What a process may rely on -/

/-- A process that opens a directory without an identity writes a new one; one that has opened it
leaves the identity alone. -/
def Write.Valid (log : List Event) (write : Write) : Prop :=
  if write.opening then
    latest .identity log = none ∧ write.document = .identity write.installation
  else latest .identity log = some (.identity write.installation) ∧ write.document.name ≠ .identity

namespace Stage

/-- Whether a process has the lock. -/
def locks : Stage → Bool
  | inspecting l | inspected l => l
  | _ => true

/-- What a process writes. -/
def write : Stage → Option Write
  | creating write | writing write _ _ | syncing write _ | replacing write _
  | removing write _ => some write
  | _ => none

/-- The new file of a process, and what it is still to write to it. -/
def remaining : Stage → Option (Write × Uuid × List UInt8)
  | writing write t rest => some (write, t, rest)
  | syncing write t | replacing write t => some (write, t, [])
  | _ => none

/-- What a process may rely on: it has the lock, knows the identity of the directory, and its new
file has what it has written so far. -/
structure Holds (f : Format) (log : List Event) (w : World) (pid : ℕ) (s : Stage) : Prop where
  locks : s.locks = true → w.lock = some pid
  opened : ∀ id, s = .open id → latest .identity log = some (.identity id)
  write : ∀ write, s.write = some write → write.Valid log
  written : ∀ write t rest, s.remaining = some (write, t, rest) →
    ∃ done, w.files.lookup (World.temporary write t) = some done ∧
      done ++ rest = f.encode write.document

end Stage

/-- Every process may rely on its stage, the files are as they were replaced last, and all that have
opened the directory found the identity that it has. -/
structure Sound (f : Format) (log : List Event) (w : World) : Prop where
  stages : ∀ pid s, w.stages.lookup pid = some s → s.Holds f log w pid
  files : ∀ name, w.files.lookup (.file name) = (latest name log).map f.encode
  opened : ∀ pid id, .opened pid id ∈ log → latest .identity log = some (.identity id)

variable {f : Format} {log es : List Event} {w w' : World} {pid q : ℕ} {s s' : Stage}
  {fails : Bool} {id : Uuid} {count : ℕ}

theorem sound_init : Sound f [] .init where
  stages _ _ h := by simp [World.init] at h
  files name := by simp [World.init, latest]
  opened _ _ h := by cases h

/-! ### Other processes -/

/-- While a process has the lock, all that others do is look at the directory. -/
theorem Stage.Holds.locks_eq_false (h : s.Holds f log w q) (hlock : w.lock = some pid)
    (hne : q ≠ pid) : s.locks = false := by
  refine Bool.eq_false_iff.mpr fun hlocks => hne ?_
  exact Option.some.inj ((h.locks hlocks).symm.trans hlock)

/-- A process that looks at the directory without the lock relies on nothing. -/
theorem Stage.holds_of_looking (hs : s.locks = false) : s.Holds f log w q := by
  cases s with
  | inspecting locked | inspected locked =>
    exact {
      locks := fun hl => absurd hl (by simp [hs])
      opened := fun _ h => by cases h
      write := fun _ h => by cases h
      written := fun _ _ _ h => by cases h }
  | _ => cases hs

/-- A process that has the lock does a call: it goes on to a stage of which this holds, or is done,
and the files and the identity stay in order. -/
theorem Sound.advance (h : Sound f log w) (hlock : w.lock = some pid)
    (hstages : ∀ q t, w'.stages.lookup q = some t → q = pid ∧ t.Holds f (log ++ es) w' pid ∨
      q ≠ pid ∧ w.stages.lookup q = some t)
    (hfiles : ∀ name, w'.files.lookup (.file name) = (latest name (log ++ es)).map f.encode)
    (hidentity : ∀ id, latest .identity log = some (.identity id) →
      latest .identity (log ++ es) = some (.identity id))
    (hopened : ∀ pid id, .opened pid id ∈ es →
      latest .identity (log ++ es) = some (.identity id)) : Sound f (log ++ es) w' where
  stages q t ht := by
    rcases hstages q t ht with ⟨rfl, hnew⟩ | ⟨hne, hold⟩
    · exact hnew
    · exact Stage.holds_of_looking ((h.stages q t hold).locks_eq_false hlock hne)
  files := hfiles
  opened q id hmem := by
    rcases List.mem_append.mp hmem with hold | hnew
    · exact hidentity id (h.opened q id hold)
    · exact hopened q id hnew

/-- The stages after a process has gone on. -/
theorem World.stages_enter (hs' : s'.Holds f log (w.enter pid s') pid) :
    ∀ q t, (w.enter pid s').stages.lookup q = some t →
      q = pid ∧ t.Holds f log (w.enter pid s') pid ∨ q ≠ pid ∧ w.stages.lookup q = some t := by
  intro q t ht
  rcases Table.lookup_insert_eq_some.mp ht with ⟨rfl, rfl⟩ | ⟨hne, hold⟩
  · exact Or.inl ⟨rfl, hs'⟩
  · exact Or.inr ⟨hne, hold⟩

/-- The stages after a process is done. -/
theorem World.stages_leave : ∀ q t, (w.leave pid).stages.lookup q = some t →
    q ≠ pid ∧ w.stages.lookup q = some t := by
  intro q t ht
  rcases eq_or_ne q pid with rfl | hne
  · simp [World.leave] at ht
  · exact ⟨hne, (AList.lookup_erase_ne hne).symm.trans ht⟩

/-- A call that replaces no file. -/
theorem Sound.quiet (h : Sound f log w) (hlock : w.lock = some pid)
    (hes : es.filterMap Event.replacement = [])
    (hstages : ∀ q t, w'.stages.lookup q = some t → q = pid ∧ t.Holds f (log ++ es) w' pid ∨
      q ≠ pid ∧ w.stages.lookup q = some t)
    (hfiles : ∀ name, w'.files.lookup (.file name) = w.files.lookup (.file name))
    (hopened : ∀ pid id, .opened pid id ∈ es → latest .identity log = some (.identity id)) :
    Sound f (log ++ es) w' := by
  refine h.advance hlock hstages (fun name => ?_) (fun id hid => ?_) fun q id hmem => ?_
  · rw [latest_append_of_none hes, hfiles, h.files]
  · rwa [latest_append_of_none hes]
  · rw [latest_append_of_none hes]
    exact hopened q id hmem

theorem Write.Valid.append {write : Write} (h : write.Valid log)
    (hes : es.filterMap Event.replacement = []) : write.Valid (log ++ es) := by
  rwa [Write.Valid, latest_append_of_none hes]

theorem Stage.write_of_remaining {write : Write} {t : Uuid} {rest : List UInt8}
    (h : s.remaining = some (write, t, rest)) : s.write = some write := by
  cases s with
  | writing | syncing | replacing =>
    obtain ⟨rfl, -⟩ := Prod.mk.inj (Option.some.inj h)
    rfl
  | _ => cases h

/-- A process that writes a file, or has given up. -/
theorem Stage.holds_writing {write : Write} (hs : s.write = some write) (hvalid : write.Valid log)
    (hlock : w.lock = some pid)
    (hwritten : ∀ t rest, s.remaining = some (write, t, rest) →
      ∃ done, w.files.lookup (World.temporary write t) = some done ∧
        done ++ rest = f.encode write.document) : s.Holds f log w pid where
  locks _ := hlock
  opened id h := by
    rw [h] at hs
    cases hs
  write write' h := by
    obtain rfl : write = write' := Option.some.inj (hs.symm.trans h)
    exact hvalid
  written write' t rest h := by
    obtain rfl : write = write' := Option.some.inj (hs.symm.trans (Stage.write_of_remaining h))
    exact hwritten t rest h

theorem Stage.holds_open (hid : latest .identity log = some (.identity id))
    (hlock : w.lock = some pid) : (Stage.open id).Holds f log w pid where
  locks _ := hlock
  opened _ h := by
    rw [← Stage.open.inj h]
    exact hid
  write _ h := by cases h
  written _ _ _ h := by cases h

theorem Sound.latest_identity (h : Sound f log w) {bytes : List UInt8}
    (hbytes : w.files.lookup (.file .identity) = some bytes) :
    ∃ id, latest .identity log = some (.identity id) ∧ f.identity bytes = .ok id := by
  rw [h.files] at hbytes
  obtain ⟨d, hd, rfl⟩ := Option.map_eq_some_iff.mp hbytes
  have hname := name_of_latest hd
  cases d with
  | identity id => exact ⟨id, hd, f.identity_encode id⟩
  | credential c => cases hname
  | status s => cases hname

/-! ### The calls of a process -/

section Proceed

variable {r : World × List Event} {write : Write} {t : Uuid} {rest : List UInt8}

theorem Sound.after_locked (h : Sound f log w) (hs : Stage.locked.Holds f log w pid)
    (hr : w.proceed f pid fails id count .locked = some r) : Sound f (log ++ r.2) r.1 := by
  have hlock := hs.locks rfl
  have hrefused : Sound f (log ++ [.refused pid]) (w.unlock.leave pid) :=
    h.quiet hlock rfl (fun q s hs => .inr (World.stages_leave q s hs)) (fun _ => rfl)
      fun _ _ hmem => by simp at hmem
  rw [World.proceed] at hr
  split_ifs at hr
  · exact Option.some.inj hr ▸ hrefused
  · split at hr
    · next hnone =>
      obtain rfl := Option.some.inj hr
      rw [h.files, Option.map_eq_none_iff] at hnone
      refine h.quiet hlock rfl (World.stages_enter (Stage.holds_writing rfl ?_ hlock
        fun _ _ hx => by cases hx)) (fun _ => rfl) fun _ _ hmem => by cases hmem
      rw [List.append_nil]
      exact ⟨hnone, rfl⟩
    · next bytes hbytes =>
      obtain ⟨installation, hlatest, hread⟩ := h.latest_identity hbytes
      rw [hread] at hr
      obtain rfl := Option.some.inj hr
      refine h.quiet hlock rfl (World.stages_enter (Stage.holds_open ?_ hlock)) (fun _ => rfl)
        fun q id hmem => ?_
      · rwa [latest_append_of_none rfl]
      · obtain ⟨-, rfl⟩ := Event.opened.inj (List.mem_singleton.mp hmem)
        exact hlatest

/-- A new file that is being written, or is to be removed. -/
theorem Sound.after_step (h : Sound f log w) (hlock : w.lock = some pid) (hvalid : write.Valid log)
    (hs' : s'.write = some write) (hlock' : w'.lock = some pid) (hstages : w'.stages = w.stages)
    (hfiles : ∀ name, w'.files.lookup (.file name) = w.files.lookup (.file name))
    (hwritten : ∀ t rest, s'.remaining = some (write, t, rest) →
      ∃ done, w'.files.lookup (World.temporary write t) = some done ∧
        done ++ rest = f.encode write.document) : Sound f (log ++ []) (w'.enter pid s') := by
  refine h.quiet hlock rfl (fun q t ht => ?_) hfiles fun _ _ hmem => by cases hmem
  rw [← hstages]
  refine World.stages_enter (Stage.holds_writing hs' (hvalid.append rfl) hlock' hwritten) q t ht

theorem Sound.after_creating (h : Sound f log w) (hs : (Stage.creating write).Holds f log w pid)
    (hr : w.proceed f pid fails id count (.creating write) = some r) :
    Sound f (log ++ r.2) r.1 := by
  have hlock := hs.locks rfl
  have hvalid := hs.write write rfl
  rw [World.proceed] at hr
  split_ifs at hr
  · obtain rfl := Option.some.inj hr
    exact h.after_step hlock hvalid rfl hlock rfl (fun _ => rfl) fun _ _ hx => by cases hx
  · obtain rfl := Option.some.inj hr
    refine h.after_step hlock hvalid rfl hlock rfl (fun name => ?_) fun t rest hx => ?_
    · exact AList.lookup_insert_ne (by simp [World.temporary])
    · cases hx
      exact ⟨[], AList.lookup_insert _, rfl⟩

theorem Sound.after_writing (h : Sound f log w)
    (hs : (Stage.writing write t rest).Holds f log w pid)
    (hr : w.proceed f pid fails id count (.writing write t rest) = some r) :
    Sound f (log ++ r.2) r.1 := by
  have hlock := hs.locks rfl
  have hvalid := hs.write write rfl
  obtain ⟨done, hdone, hall⟩ := hs.written write t rest rfl
  rw [World.proceed] at hr
  split_ifs at hr with hfails hrest
  · obtain rfl := Option.some.inj hr
    exact h.after_step hlock hvalid rfl hlock rfl (fun _ => rfl) fun _ _ hx => by cases hx
  · obtain rfl := Option.some.inj hr
    refine h.after_step hlock hvalid rfl hlock rfl (fun _ => rfl) fun t' rest' hx => ?_
    cases hx
    exact ⟨done, hdone, hrest ▸ hall⟩
  · obtain rfl := Option.some.inj hr
    refine h.after_step hlock hvalid rfl hlock rfl (fun name => ?_) fun t' rest' hx => ?_
    · exact Table.lookup_modify_of_ne (by simp [World.temporary]) _ _
    · cases hx
      refine ⟨done ++ rest.take (count + 1), ?_, ?_⟩
      · simp [World.put, hdone]
      · rw [List.append_assoc, List.take_append_drop, hall]

theorem Sound.after_syncing (h : Sound f log w) (hs : (Stage.syncing write t).Holds f log w pid)
    (hr : w.proceed f pid fails id count (.syncing write t) = some r) :
    Sound f (log ++ r.2) r.1 := by
  have hlock := hs.locks rfl
  have hvalid := hs.write write rfl
  rw [World.proceed] at hr
  split_ifs at hr
  · obtain rfl := Option.some.inj hr
    exact h.after_step hlock hvalid rfl hlock rfl (fun _ => rfl) fun _ _ hx => by cases hx
  · obtain rfl := Option.some.inj hr
    refine h.after_step hlock hvalid rfl hlock rfl (fun _ => rfl) fun t' rest' hx => ?_
    cases hx
    exact hs.written write t [] rfl

/-- The identity of a directory after a file was replaced. -/
theorem Write.Valid.latest_replaced (h : write.Valid log)
    (hes : es.filterMap Event.replacement = [write.document]) :
    latest .identity (log ++ es) = some (.identity write.installation) := by
  rw [latest_append_of_single hes]
  rw [Write.Valid] at h
  split_ifs at h with hopening
  · rw [h.2]
    rfl
  · rw [if_neg h.2]
    exact h.1

/-- A file is replaced by what was written. -/
theorem Sound.after_replacing (h : Sound f log w)
    (hs : (Stage.replacing write t).Holds f log w pid)
    (hr : w.proceed f pid fails id count (.replacing write t) = some r) :
    Sound f (log ++ r.2) r.1 := by
  have hlock := hs.locks rfl
  have hvalid := hs.write write rfl
  obtain ⟨done, hdone, hall⟩ := hs.written write t [] rfl
  rw [List.append_nil] at hall
  rw [World.proceed] at hr
  split at hr
  · obtain rfl := Option.some.inj hr
    exact h.after_step hlock hvalid rfl hlock rfl (fun _ => rfl) fun _ _ hx => by cases hx
  · next bytes hbytes =>
    obtain rfl : done = bytes := by
      split_ifs at hbytes
      exact Option.some.inj (hdone.symm.trans hbytes)
    obtain rfl := Option.some.inj hr
    have hes : (.replaced pid write.document :: if write.opening then
        [.opened pid write.installation] else [] : List Event).filterMap Event.replacement =
          [write.document] := by
      split_ifs <;> rfl
    have hlatest := hvalid.latest_replaced hes
    refine h.advance hlock (World.stages_enter (Stage.holds_open hlatest hlock)) (fun name => ?_)
      (fun installation hold => ?_) fun q installation hmem => ?_
    · rw [latest_append_of_single hes]
      rcases eq_or_ne write.document.name name with rfl | hne
      · rw [if_pos rfl, Option.map_some, ← hall]
        exact AList.lookup_insert _
      · rw [if_neg hne, ← h.files]
        refine (AList.lookup_insert_ne ?_).trans (AList.lookup_erase_ne ?_)
        · exact fun heq => hne (Path.file.inj heq).symm
        · simp [World.temporary]
    · rw [Write.Valid] at hvalid
      split_ifs at hvalid
      · rw [hvalid.1] at hold
        cases hold
      · rw [hlatest, ← hvalid.1, hold]
    · have hopened : installation = write.installation := by
        rcases List.mem_cons.mp hmem with hx | hx
        · cases hx
        · split_ifs at hx
          · exact (Event.opened.inj (List.mem_singleton.mp hx)).2
          · cases hx
      rw [hopened, hlatest]

/-- A process gives up after it has removed its new file, or could not. -/
theorem Sound.after_giveUp (h : Sound f log w) (hlock : w.lock = some pid)
    (hvalid : write.Valid log) (hlock' : w'.lock = some pid) (hstages : w'.stages = w.stages)
    (hfiles : ∀ name, w'.files.lookup (.file name) = w.files.lookup (.file name)) :
    Sound f (log ++ (w'.giveUp pid write).2) (w'.giveUp pid write).1 := by
  rw [World.giveUp]
  split_ifs with hopening
  · refine h.quiet hlock rfl (fun q s hs => .inr ?_) hfiles fun _ _ hmem => by simp at hmem
    rw [← hstages]
    exact World.stages_leave q s hs
  · refine h.quiet hlock rfl (fun q s hs => ?_) hfiles fun _ _ hmem => by simp at hmem
    rw [← hstages]
    refine World.stages_enter (Stage.holds_open ?_ hlock') q s hs
    rw [latest_append_of_none rfl]
    rw [Write.Valid, if_neg hopening] at hvalid
    exact hvalid.1

theorem Sound.after_removing (h : Sound f log w)
    (hs : (Stage.removing write t).Holds f log w pid)
    (hr : w.proceed f pid fails id count (.removing write t) = some r) :
    Sound f (log ++ r.2) r.1 := by
  obtain rfl := Option.some.inj hr
  have hlock := hs.locks rfl
  refine h.after_giveUp hlock (hs.write write rfl) ?_ ?_ fun name => ?_
  · split_ifs <;> exact hlock
  · split_ifs <;> rfl
  · split_ifs
    · rfl
    · exact AList.lookup_erase_ne (by simp [World.temporary])

/-! ### Processes that look at the directory -/

/-- A step that replaces no file and leaves the lock to the one that has it. -/
theorem Sound.aside (h : Sound f log w) (hes : es.filterMap Event.replacement = [])
    (hlock : w'.lock = w.lock) (hfiles : w'.files = w.files)
    (hstages : ∀ q t, w'.stages.lookup q = some t → t.locks = false ∨
      w.stages.lookup q = some t)
    (hopened : ∀ pid id, .opened pid id ∉ es) : Sound f (log ++ es) w' where
  stages q t ht := by
    rcases hstages q t ht with hlooking | hold
    · exact Stage.holds_of_looking hlooking
    · have hq := h.stages q t hold
      exact {
        locks := fun hl => hlock.trans (hq.locks hl)
        opened := fun id hid => by
          rw [latest_append_of_none hes]
          exact hq.opened id hid
        write := fun write hw => (hq.write write hw).append hes
        written := fun write t' rest hw => by
          rw [hfiles]
          exact hq.written write t' rest hw }
  files name := by
    rw [latest_append_of_none hes, hfiles]
    exact h.files name
  opened q id hmem := by
    rw [latest_append_of_none hes]
    rcases List.mem_append.mp hmem with hold | hnew
    · exact h.opened q id hold
    · exact absurd hnew (hopened q id)

/-- A process that looks at the directory is done. -/
theorem Sound.after_look (h : Sound f log w) {l : Bool} (hlocks : l = true → w.lock = some pid)
    (hes : es.filterMap Event.replacement = []) (hopened : ∀ pid id, .opened pid id ∉ es) :
    Sound f (log ++ es) ((if l then w.unlock else w).leave pid) := by
  cases l with
  | true =>
    exact h.quiet (hlocks rfl) hes (fun q s hs => .inr (World.stages_leave q s hs)) (fun _ => rfl)
      fun q id hmem => absurd hmem (hopened q id)
  | false =>
    exact h.aside hes rfl rfl (fun q s hs => .inr (World.stages_leave q s hs).2) hopened

theorem Sound.after_inspecting (h : Sound f log w) {l : Bool}
    (hs : (Stage.inspecting l).Holds f log w pid)
    (hr : w.proceed f pid fails id count (.inspecting l) = some r) : Sound f (log ++ r.2) r.1 := by
  have hlook : Sound f (log ++ []) ((if l then w.unlock else w).leave pid) :=
    h.after_look (fun hl => hs.locks hl) rfl fun _ _ hmem => by cases hmem
  have hread (status : Option Json) :
      Sound f (log ++ [.statusRead pid status]) (w.enter pid (.inspected l)) := by
    cases l with
    | true =>
      have hlock := hs.locks rfl
      refine h.quiet hlock rfl (World.stages_enter ?_) (fun _ => rfl)
        fun _ _ hmem => by simp at hmem
      exact {
        locks := fun _ => hlock
        opened := fun _ hx => by cases hx
        write := fun _ hx => by cases hx
        written := fun _ _ _ hx => by cases hx }
    | false =>
      refine h.aside rfl rfl rfl (fun q s hs' => ?_) fun _ _ hmem => by simp at hmem
      rcases Table.lookup_insert_eq_some.mp hs' with ⟨-, rfl⟩ | ⟨-, hold⟩
      · exact Or.inl rfl
      · exact Or.inr hold
  rw [World.proceed] at hr
  split_ifs at hr
  · exact Option.some.inj hr ▸ hlook
  · split at hr
    · exact Option.some.inj hr ▸ hread none
    · split at hr
      · exact Option.some.inj hr ▸ hread _
      · exact Option.some.inj hr ▸ hlook

theorem Sound.after_inspected (h : Sound f log w) {l : Bool}
    (hs : (Stage.inspected l).Holds f log w pid)
    (hr : w.proceed f pid fails id count (.inspected l) = some r) : Sound f (log ++ r.2) r.1 := by
  obtain rfl := Option.some.inj hr
  exact h.after_look (fun hl => hs.locks hl) rfl fun _ _ hmem => by cases List.mem_singleton.mp hmem

theorem Sound.after_proceed (h : Sound f log w) (hs : s.Holds f log w pid)
    (hr : w.proceed f pid fails id count s = some r) : Sound f (log ++ r.2) r.1 := by
  cases s with
  | locked => exact h.after_locked hs hr
  | «open» installation => cases hr
  | creating write => exact h.after_creating hs hr
  | writing write t rest => exact h.after_writing hs hr
  | syncing write t => exact h.after_syncing hs hr
  | replacing write t => exact h.after_replacing hs hr
  | removing write t => exact h.after_removing hs hr
  | inspecting l => exact h.after_inspecting hs hr
  | inspected l => exact h.after_inspected hs hr

end Proceed

/-! ### Every step -/

/-- A process that has opened the directory calls it. -/
theorem World.call_eq_some {g : Uuid → World × List Event} {r : World × List Event}
    (h : w.call pid g = some r) : ∃ id, w.stages.lookup pid = some (.open id) ∧ g id = r := by
  rw [World.call] at h
  split at h
  · next installation hopen => exact ⟨installation, hopen, Option.some.inj h⟩
  · cases h

/-- A process that starts takes the lock. -/
theorem Sound.after_take (h : Sound f log w) (hlock : w.lock = none)
    (hother : (∀ id, s' ≠ .open id) ∧ s'.write = none) :
    Sound f (log ++ []) ((w.take pid).enter pid s') where
  stages q t ht := by
    rcases Table.lookup_insert_eq_some.mp ht with ⟨rfl, rfl⟩ | ⟨-, hold⟩
    · exact {
        locks := fun _ => rfl
        opened := fun id hx => absurd hx (hother.1 id)
        write := fun write hx => by simp [hother.2] at hx
        written := fun write t rest hx => by
          cases hother.2.symm.trans (Stage.write_of_remaining hx) }
    · refine Stage.holds_of_looking (Bool.eq_false_iff.mpr fun hl => ?_)
      cases hlock.symm.trans ((h.stages q t hold).locks hl)
  files name := by
    rw [List.append_nil]
    exact h.files name
  opened q id hmem := by
    rw [List.append_nil] at hmem ⊢
    exact h.opened q id hmem

/-- Whatever a process does, the files and the identity stay in order. -/
theorem Sound.step {a : Action} (h : Sound f log w) (hstep : w.step f a = some (w', es)) :
    Sound f (log ++ es) w' := by
  cases a with
  | «open» pid =>
    rw [World.step] at hstep
    split_ifs at hstep with hmem hlock
    · obtain ⟨rfl, rfl⟩ := Prod.mk.inj (Option.some.inj hstep)
      exact h.after_take hlock ⟨fun _ hx => (by cases hx), rfl⟩
    · obtain ⟨rfl, rfl⟩ := Prod.mk.inj (Option.some.inj hstep)
      exact h.aside rfl rfl rfl (fun _ _ hs => .inr hs) fun _ _ hmem => by simp at hmem
  | configure pid credential =>
    obtain ⟨id, hopen, heq⟩ := World.call_eq_some hstep
    obtain ⟨rfl, rfl⟩ := Prod.mk.inj heq
    have hs := h.stages pid _ hopen
    refine h.after_step (hs.locks rfl) ?_ rfl (hs.locks rfl) rfl (fun _ => rfl)
      fun _ _ hx => by cases hx
    exact ⟨hs.opened id rfl, fun hx => by cases hx⟩
  | status pid status =>
    obtain ⟨id, hopen, heq⟩ := World.call_eq_some hstep
    obtain ⟨rfl, rfl⟩ := Prod.mk.inj heq
    have hs := h.stages pid _ hopen
    refine h.after_step (hs.locks rfl) ?_ rfl (hs.locks rfl) rfl (fun _ => rfl)
      fun _ _ hx => by cases hx
    exact ⟨hs.opened id rfl, fun hx => by cases hx⟩
  | credential pid =>
    obtain ⟨id, hopen, heq⟩ := World.call_eq_some hstep
    obtain ⟨rfl, rfl⟩ := Prod.mk.inj heq
    exact h.aside rfl rfl rfl (fun _ _ hs => .inr hs) fun _ _ hmem => by simp at hmem
  | close pid =>
    obtain ⟨id, hopen, heq⟩ := World.call_eq_some hstep
    obtain ⟨rfl, rfl⟩ := Prod.mk.inj heq
    exact h.quiet ((h.stages pid _ hopen).locks rfl) rfl
      (fun q s hs => .inr (World.stages_leave q s hs)) (fun _ => rfl) fun _ _ hmem => by cases hmem
  | inspect pid =>
    rw [World.step] at hstep
    split_ifs at hstep with hmem hlock
    · obtain ⟨rfl, rfl⟩ := Prod.mk.inj (Option.some.inj hstep)
      exact h.after_take hlock ⟨fun _ hx => (by cases hx), rfl⟩
    · obtain ⟨rfl, rfl⟩ := Prod.mk.inj (Option.some.inj hstep)
      refine h.aside rfl rfl rfl (fun q s hs => ?_) fun _ _ hmem => by cases hmem
      rcases Table.lookup_insert_eq_some.mp hs with ⟨-, rfl⟩ | ⟨-, hold⟩
      · exact Or.inl rfl
      · exact Or.inr hold
  | proceed pid fails id count =>
    obtain ⟨s, hs, hproceed⟩ := Option.bind_eq_some_iff.mp hstep
    exact h.after_proceed (h.stages pid s hs) hproceed
  | kill pid =>
    rw [World.step] at hstep
    split_ifs at hstep
    obtain ⟨rfl, rfl⟩ := Prod.mk.inj (Option.some.inj hstep)
    exact h.aside rfl rfl rfl (fun q s hs => .inr (World.stages_leave q s hs).2)
      fun _ _ hmem => by cases hmem
  | reap =>
    rw [World.step] at hstep
    split_ifs at hstep with hgone
    obtain ⟨rfl, rfl⟩ := Prod.mk.inj (Option.some.inj hstep)
    obtain ⟨pid, hlock, hpid⟩ := (Option.any_eq_true _ _).mp hgone
    refine h.quiet hlock rfl (fun q s hs => .inr ⟨?_, hs⟩) (fun _ => rfl)
      fun _ _ hmem => by cases hmem
    rintro rfl
    exact absurd (Table.mem_of_lookup hs) (of_decide_eq_true hpid)

theorem sound_of_run (h : (storeSystem f).Run log w) : Sound f log w := by
  refine h.invariant (I := fun log w => Sound f log w) ?_ fun _ ih hstep => ih.step hstep
  rintro _ rfl
  exact sound_init

/-! ### What is read -/

/-- The credential that a document holds. -/
def expected : Option Document → Except String Credential
  | some (.credential c) => do
    validateToken c.token
    return c
  | _ => .error "machine is not configured; run register first"

/-- What was read was written last, and only a directory without an identity is given one. -/
def Event.Truthful (before : List Event) : Event → Prop
  | .opened _ id => latest .identity before = some (.identity id)
  | .replaced _ document => document.name = .identity → latest .identity before = none
  | .read _ result => result = expected (latest .credential before)
  | .statusRead _ status => status = (latest .status before).map Document.value
  | .inspected _ configured _ => configured = (latest .credential before).isSome
  | .refused _ | .failed _ _ => True

theorem Sound.credentialOf_eq (h : Sound f log w) :
    w.credentialOf f = expected (latest .credential log) := by
  rw [World.credentialOf, h.files]
  cases hlatest : latest .credential log with
  | none => rfl
  | some d =>
    have hname := name_of_latest hlatest
    cases d with
    | credential c =>
      rw [Option.map_some]
      dsimp only
      rw [f.credential_encode]
      rfl
    | identity id => cases hname
    | status s => cases hname

/-- A process that has opened a directory was told the identity in it. -/
theorem Sound.told_locked (h : Sound f log w)
    (hr : w.proceed f pid fails id count .locked = some (w', es)) :
    System.Along Event.Truthful log es := by
  rw [World.proceed] at hr
  split_ifs at hr
  · obtain ⟨-, rfl⟩ := Prod.mk.inj (Option.some.inj hr)
    exact System.along_singleton trivial
  · split at hr
    · obtain ⟨-, rfl⟩ := Prod.mk.inj (Option.some.inj hr)
      trivial
    · next bytes hbytes =>
      obtain ⟨installation, hlatest, hread⟩ := h.latest_identity hbytes
      rw [hread] at hr
      obtain ⟨-, rfl⟩ := Prod.mk.inj (Option.some.inj hr)
      exact System.along_singleton hlatest

/-- A process that replaces the identity found none, and has opened the directory with its own. -/
theorem told_replacing {write : Write} {t : Uuid}
    (hs : (Stage.replacing write t).Holds f log w pid)
    (hr : w.proceed f pid fails id count (.replacing write t) = some (w', es)) :
    System.Along Event.Truthful log es := by
  have hvalid := hs.write write rfl
  rw [World.proceed] at hr
  split at hr
  · obtain ⟨-, rfl⟩ := Prod.mk.inj (Option.some.inj hr)
    trivial
  · obtain ⟨-, rfl⟩ := Prod.mk.inj (Option.some.inj hr)
    have hlatest : latest .identity (log ++ [.replaced pid write.document]) =
        some (.identity write.installation) := hvalid.latest_replaced rfl
    rw [Write.Valid] at hvalid
    split_ifs at hvalid ⊢ with hopening
    · exact ⟨fun _ => hvalid.1, System.along_singleton hlatest⟩
    · exact System.along_singleton fun hname => absurd hname hvalid.2

/-- The status that is read is the one that was written last. -/
theorem Sound.told_inspecting (h : Sound f log w) {l : Bool}
    (hr : w.proceed f pid fails id count (.inspecting l) = some (w', es)) :
    System.Along Event.Truthful log es := by
  have hfile := h.files .status
  rw [World.proceed] at hr
  split_ifs at hr
  · obtain ⟨-, rfl⟩ := Prod.mk.inj (Option.some.inj hr)
    trivial
  · split at hr
    · next hnone =>
      obtain ⟨-, rfl⟩ := Prod.mk.inj (Option.some.inj hr)
      rw [hnone, eq_comm, Option.map_eq_none_iff] at hfile
      refine System.along_singleton ?_
      rw [Event.Truthful, hfile, Option.map_none]
    · next bytes hbytes =>
      rw [hbytes] at hfile
      obtain ⟨d, hd, rfl⟩ := Option.map_eq_some_iff.mp hfile.symm
      rw [f.fromSlice_encode] at hr
      obtain ⟨-, rfl⟩ := Prod.mk.inj (Option.some.inj hr)
      refine System.along_singleton ?_
      rw [Event.Truthful, hd, Option.map_some]

theorem Sound.told_inspected (h : Sound f log w) {l : Bool}
    (hr : w.proceed f pid fails id count (.inspected l) = some (w', es)) :
    System.Along Event.Truthful log es := by
  obtain ⟨-, rfl⟩ := Prod.mk.inj (Option.some.inj hr)
  refine System.along_singleton ?_
  rw [Event.Truthful, ← Option.isSome_map (f := f.encode), ← h.files]
  exact (Bool.eq_iff_iff.mpr (AList.lookup_isSome.trans decide_eq_true_iff.symm)).symm

theorem Sound.told_proceed (h : Sound f log w) (hs : s.Holds f log w pid)
    (hr : w.proceed f pid fails id count s = some (w', es)) :
    System.Along Event.Truthful log es := by
  cases s with
  | locked => exact h.told_locked hr
  | «open» installation => cases hr
  | creating write =>
    rw [World.proceed] at hr
    split_ifs at hr <;> (obtain ⟨-, rfl⟩ := Prod.mk.inj (Option.some.inj hr); trivial)
  | writing write t rest =>
    rw [World.proceed] at hr
    split_ifs at hr <;> (obtain ⟨-, rfl⟩ := Prod.mk.inj (Option.some.inj hr); trivial)
  | syncing write t =>
    rw [World.proceed] at hr
    split_ifs at hr <;> (obtain ⟨-, rfl⟩ := Prod.mk.inj (Option.some.inj hr); trivial)
  | replacing write t => exact told_replacing hs hr
  | removing write t =>
    rw [World.proceed, World.giveUp] at hr
    split_ifs at hr
    all_goals
      obtain ⟨-, rfl⟩ := Prod.mk.inj (Option.some.inj hr)
      repeat constructor
  | inspecting l => exact h.told_inspecting hr
  | inspected l => exact h.told_inspected hr

/-- Whatever a process does, what it is told is true. -/
theorem Sound.told_step {a : Action} (h : Sound f log w) (hstep : w.step f a = some (w', es)) :
    System.Along Event.Truthful log es := by
  cases a with
  | «open» pid | inspect pid =>
    rw [World.step] at hstep
    split_ifs at hstep
    all_goals
      obtain ⟨-, rfl⟩ := Prod.mk.inj (Option.some.inj hstep)
      repeat constructor
  | configure pid credential | status pid status | close pid =>
    obtain ⟨id, -, heq⟩ := World.call_eq_some hstep
    obtain ⟨-, rfl⟩ := Prod.mk.inj heq
    trivial
  | credential pid =>
    obtain ⟨id, -, heq⟩ := World.call_eq_some hstep
    obtain ⟨-, rfl⟩ := Prod.mk.inj heq
    exact System.along_singleton h.credentialOf_eq
  | proceed pid fails id count =>
    obtain ⟨s, hs, hproceed⟩ := Option.bind_eq_some_iff.mp hstep
    exact h.told_proceed (h.stages pid s hs) hproceed
  | kill pid | reap =>
    rw [World.step] at hstep
    split_ifs at hstep
    obtain ⟨-, rfl⟩ := Prod.mk.inj (Option.some.inj hstep)
    trivial

/-- **A state directory is kept.** However processes that use it start, fail and are killed: at most
one of them has the lock; all that have opened the directory found the same identity in it; every
file has a whole document, the one by which it was replaced last; and what is read from them is what
was written to them last. -/
theorem directory_kept (hrun : (storeSystem f).Run log w) :
    (∀ pid q s t, w.stages.lookup pid = some s → w.stages.lookup q = some t →
      s.locks = true → t.locks = true → pid = q) ∧
    (∀ pid q id id', .opened pid id ∈ log → .opened q id' ∈ log → id = id') ∧
    (∀ name, w.files.lookup (.file name) = (latest name log).map f.encode) ∧
    ∀ before after e, log = before ++ e :: after → e.Truthful before := by
  have hsound := sound_of_run hrun
  refine ⟨fun pid q s t hs ht hslocks htlocks => ?_, fun pid q id id' hid hid' => ?_,
    hsound.files, fun before after e hlog => ?_⟩
  · have hlock := (hsound.stages pid s hs).locks hslocks
    exact Option.some.inj (hlock.symm.trans ((hsound.stages q t ht).locks htlocks))
  · have hsame := (hsound.opened pid id hid).symm.trans (hsound.opened q id' hid')
    exact Document.identity.inj (Option.some.inj hsame)
  · exact hrun.along (fun hrun' hstep => (sound_of_run hrun').told_step hstep) hlog

/-! ### Opening a directory again -/

section Openings

variable {ids : ℕ → Uuid} {counts : ℕ → ℕ} {k : ℕ}

/-- Calls of a process none of which fails, from a given one on. The identifiers that it draws, and
how much of a new file a call writes, come from outside. -/
def calls (pid : ℕ) (ids : ℕ → Uuid) (counts : ℕ → ℕ) (k n : ℕ) : List Action :=
  (List.range' k n).map fun i => .proceed pid false (ids i) (counts i)

/-- The calls of a process that opens a directory. -/
def openings (pid : ℕ) (ids : ℕ → Uuid) (counts : ℕ → ℕ) (n : ℕ) : List Action :=
  .open pid :: calls pid ids counts 0 n

/-- A process whose calls succeed comes to have the directory open. -/
def World.Opens (f : Format) (w : World) (pid : ℕ) (ids : ℕ → Uuid) (counts : ℕ → ℕ) (k : ℕ)
    (installation : Uuid) : Prop :=
  ∃ n w' es, (storeSystem f).exec w (calls pid ids counts k n) =
      some (w', es ++ [.opened pid installation]) ∧
    w'.stages.lookup pid = some (.open installation)

theorem calls_succ (n : ℕ) : calls pid ids counts k (n + 1) =
    .proceed pid false (ids k) (counts k) :: calls pid ids counts (k + 1) n := by
  rw [calls, List.range'_succ, List.map_cons, calls]

/-- A call after which the directory is open. -/
theorem World.opens_of_open (hs : w.stages.lookup pid = some s)
    (hcall : w.proceed f pid false (ids k) (counts k) s = some (w', es ++ [.opened pid id]))
    (hopen : w'.stages.lookup pid = some (.open id)) : w.Opens f pid ids counts k id := by
  have hstep : (storeSystem f).step w (.proceed pid false (ids k) (counts k)) =
      some (w', es ++ [.opened pid id]) := Option.bind_eq_some_iff.mpr ⟨s, hs, hcall⟩
  refine ⟨1, w', es, ?_, hopen⟩
  rw [calls_succ]
  exact System.exec_cons_eq_some_iff.mpr ⟨w', _, [], hstep, rfl, List.append_nil _⟩

/-- A call after which the process comes to have the directory open. -/
theorem World.opens_of_proceed (hs : w.stages.lookup pid = some s)
    (hcall : w.proceed f pid false (ids k) (counts k) s = some (w', es))
    (h : w'.Opens f pid ids counts (k + 1) id) : w.Opens f pid ids counts k id := by
  obtain ⟨n, w'', es', hexec, hopen⟩ := h
  have hstep : (storeSystem f).step w (.proceed pid false (ids k) (counts k)) = some (w', es) :=
    Option.bind_eq_some_iff.mpr ⟨s, hs, hcall⟩
  refine ⟨n + 1, w'', es ++ es', ?_, hopen⟩
  rw [calls_succ]
  exact System.exec_cons_eq_some_iff.mpr
    ⟨w', es, _, hstep, hexec, (List.append_assoc es es' _).symm⟩

theorem World.lookup_enter (w : World) (pid : ℕ) (s : Stage) :
    (w.enter pid s).stages.lookup pid = some s := AList.lookup_insert _

section Writing

variable {write : Write} {t : Uuid}

theorem World.opens_replacing (hs : w.stages.lookup pid = some (.replacing write t))
    (hopening : write.opening = true) (hfile : temporary write t ∈ w.files) :
    w.Opens f pid ids counts k write.installation := by
  obtain ⟨bytes, hbytes⟩ := Option.isSome_iff_exists.mp (AList.lookup_isSome.mpr hfile)
  have hcall : w.proceed f pid false (ids k) (counts k) (.replacing write t) =
      some ((w.put ((w.files.erase (temporary write t)).insert (.file write.document.name)
        bytes)).enter pid (.open write.installation),
        [.replaced pid write.document] ++ [.opened pid write.installation]) := by
    simp [World.proceed, hbytes, hopening]
  exact World.opens_of_open hs hcall (lookup_enter _ _ _)

theorem World.opens_syncing (hs : w.stages.lookup pid = some (.syncing write t))
    (hopening : write.opening = true) (hfile : temporary write t ∈ w.files) :
    w.Opens f pid ids counts k write.installation :=
  World.opens_of_proceed hs rfl (World.opens_replacing (lookup_enter _ _ _) hopening hfile)

/-- Whatever the pieces in which a file is written, it is written. -/
theorem World.opens_writing {rest : List UInt8}
    (hs : w.stages.lookup pid = some (.writing write t rest)) (hopening : write.opening = true)
    (hfile : temporary write t ∈ w.files) : w.Opens f pid ids counts k write.installation := by
  -- every call writes at least one byte
  induction hlen : rest.length using Nat.strong_induction_on generalizing w k rest with
  | _ n ih =>
    by_cases hrest : rest = []
    · have hcall : w.proceed f pid false (ids k) (counts k) (.writing write t rest) =
          some (w.enter pid (.syncing write t), []) := by
        simp [World.proceed, hrest]
      exact World.opens_of_proceed hs hcall
        (World.opens_syncing (lookup_enter _ _ _) hopening hfile)
    · have hcall : w.proceed f pid false (ids k) (counts k) (.writing write t rest) =
          some ((w.put (w.files.modify (temporary write t) fun bytes =>
            bytes ++ rest.take (counts k + 1))).enter pid
              (.writing write t (rest.drop (counts k + 1))), []) := by
        simp [World.proceed, hrest]
      have hpos := List.length_pos_of_ne_nil hrest
      have hless : (rest.drop (counts k + 1)).length < n := by
        rw [List.length_drop]
        omega
      exact World.opens_of_proceed hs hcall
        (ih _ hless (lookup_enter _ _ _) (Table.mem_modify.mpr hfile) rfl)

theorem World.opens_creating (hs : w.stages.lookup pid = some (.creating write))
    (hopening : write.opening = true) (hfresh : temporary write (ids k) ∉ w.files) :
    w.Opens f pid ids counts k write.installation := by
  have hcall : w.proceed f pid false (ids k) (counts k) (.creating write) =
      some ((w.put (w.files.insert (temporary write (ids k)) [])).enter pid
        (.writing write (ids k) (f.encode write.document)), []) := by
    simp [World.proceed, hfresh]
  exact World.opens_of_proceed hs hcall
    (World.opens_writing (lookup_enter _ _ _) hopening ((AList.mem_insert _).mpr (.inl rfl)))

end Writing

/-- A directory without an identity is opened with the one that is drawn first. -/
theorem World.opens_new (hs : w.stages.lookup pid = some .locked)
    (hfile : w.files.lookup (.file .identity) = none)
    (hfresh : .temporary .identity (ids (k + 1)) ∉ w.files) :
    w.Opens f pid ids counts k (ids k) := by
  have hcall : w.proceed f pid false (ids k) (counts k) .locked =
      some (w.enter pid (.creating ⟨.identity (ids k), ids k, true⟩), []) := by
    simp [World.proceed, hfile]
  exact World.opens_of_proceed hs hcall (World.opens_creating (lookup_enter _ _ _) rfl hfresh)

theorem World.opens_old (hs : w.stages.lookup pid = some .locked)
    (hfile : w.files.lookup (.file .identity) = some (f.encode (.identity id))) :
    w.Opens f pid ids counts k id := by
  have hcall : w.proceed f pid false (ids k) (counts k) .locked =
      some (w.enter pid (.open id), [] ++ [.opened pid id]) := by
    simp [World.proceed, hfile, f.identity_encode]
  exact World.opens_of_open hs hcall (lookup_enter _ _ _)

/-- A process that finds the lock free comes to have the directory open: with the identity that is
in it, or with a new one. -/
theorem Sound.opens (h : Sound f log w) (hs : w.stages.lookup pid = some .locked)
    (hfresh : .temporary .identity (ids (k + 1)) ∉ w.files) :
    ∃ installation, w.Opens f pid ids counts k installation ∧
      ∀ id, latest .identity log = some (.identity id) → id = installation := by
  have hfile := h.files .identity
  cases hlatest : latest .identity log with
  | none =>
    rw [hlatest] at hfile
    exact ⟨ids k, World.opens_new hs hfile hfresh, fun _ hid => by cases hid⟩
  | some d =>
    rw [hlatest] at hfile
    obtain ⟨installation, hsame, -⟩ := h.latest_identity hfile
    obtain rfl : d = .identity installation := Option.some.inj (hlatest.symm.trans hsame)
    refine ⟨installation, World.opens_old hs hfile, fun id hid => ?_⟩
    exact (Document.identity.inj (Option.some.inj hid)).symm

/-- **No daemon leaves a state directory unusable.** When the lock is free, a process that opens the
directory and whose calls succeed comes to have it open, with the identity that was found in it
before. This is so whatever identity it draws, under whatever name that is not in use it writes it,
and in whatever pieces. -/
theorem directory_reopens (hrun : (storeSystem f).Run log w) (hlock : w.lock = none)
    (hpid : pid ∉ w.stages) (hfresh : .temporary .identity (ids 1) ∉ w.files) :
    ∃ n w' es installation,
      (storeSystem f).exec w (openings pid ids counts n) =
        some (w', es ++ [.opened pid installation]) ∧
      w'.stages.lookup pid = some (.open installation) ∧
      ∀ q id, .opened q id ∈ log → id = installation := by
  have hsound := sound_of_run hrun
  have hstep : w.step f (.open pid) = some ((w.take pid).enter pid .locked, []) := by
    simp [World.step, hpid, hlock]
  have htaken := hsound.step hstep
  rw [List.append_nil] at htaken
  obtain ⟨installation, ⟨n, w', es, hexec, hopen⟩, hsame⟩ : ∃ installation,
      ((w.take pid).enter pid .locked).Opens f pid ids counts 0 installation ∧
        ∀ id, latest .identity log = some (.identity id) → id = installation :=
    htaken.opens (World.lookup_enter _ _ _) hfresh
  refine ⟨n, w', es, installation, ?_, hopen, fun q id hmem => ?_⟩
  · exact System.exec_cons_eq_some_iff.mpr ⟨_, [], _, hstep, hexec, rfl⟩
  · exact hsame id (hsound.opened q id hmem)

end Openings

/-- Values are printed without blanks. -/
noncomputable def Format.compact : Format where
  pretty value := value.text.utf8
  fromSlice := ReadsJson.undoWriting
  errorText _ := "expected value"
  fromSlice_pretty value h := by
    have hread := ReadsJson.readsJson_undoWriting.read_text value h.depth_le h.integral 1
    rwa [h.normal_eq] at hread

/-- A process that draws an identity, and a name for the file in which it writes it. -/
def drawing (identity temporary : ℕ) (k : ℕ) : Uuid :=
  .numbered (if k = 0 then identity else temporary)

/-- A daemon that writes the identity of a new directory in two pieces, opens it and is killed, and
another one that opens it. -/
theorem directory_kept_restarted :
    ∃ (log : List Event) (w : World), (storeSystem .compact).Run log w ∧
      .opened 1 (.numbered 1) ∈ log ∧ ∃ id, .opened 2 id ∈ log ∧ id = .numbered 1 := by
  let identity := Format.compact.encode (.identity (.numbered 1))
  have hexec : ∃ w, (storeSystem .compact).exec .init
      (openings 1 (drawing 1 2) (fun k => if k = 2 then 0 else identity.length) 7 ++
        [.kill 1, .reap] ++ openings 2 (drawing 3 4) (fun _ => 0) 1) =
        some (w, [.replaced 1 (.identity (.numbered 1)), .opened 1 (.numbered 1),
          .opened 2 (.numbered 1)]) := by
    have hread : Format.compact.identity identity = .ok (.numbered 1) := Format.identity_encode _ _
    have hlength : 1 < identity.length := by
      have hquoted : 0 < (Uuid.codec.write (.numbered 1)).text.length := by
        simp [Json.text, Json.chars, Json.quote, Uuid.codec]
      have hbytes := hquoted.trans_le (String.length_le_utf8ByteSize _)
      rw [← String.length_utf8] at hbytes
      simpa [identity, Format.encode, Format.compact, Document.value] using hbytes
    generalize hidentity : identity = bytes at *
    obtain _ | ⟨a, _ | ⟨b, rest⟩⟩ := bytes
    · cases hlength
    · exact absurd hlength (lt_irrefl 1)
    have hall : rest.take (rest.length + 2) = rest := List.take_of_length_le (by omega)
    have hdone : rest.drop (rest.length + 2) = [] := List.drop_of_length_le (by omega)
    simp [-AList.insert_empty, openings, calls, storeSystem, System.exec, World.init, World.step,
      List.range', World.enter, World.take, World.proceed, World.temporary, Document.name, drawing,
      World.put, World.leave, World.unlock, identity, hidentity, hread, hall, hdone]
  obtain ⟨w, hexec⟩ := hexec
  have hrun : (storeSystem .compact).Run _ w := ⟨_, rfl, .of_exec hexec⟩
  refine ⟨_, w, hrun, by simp, .numbered 1, by simp, ?_⟩
  exact (directory_kept hrun).2.1 2 1 _ _ (by simp) (by simp)

/-- A directory is opened again after a daemon was killed while it wrote the identity. -/
theorem directory_reopens_killed :
    ∃ (w w' : World) (n : ℕ) (es : List Event) (id : Uuid),
      w.files.lookup (.temporary .identity (.numbered 2)) = some [] ∧
      (storeSystem .compact).exec w (openings 2 (drawing 3 4) (fun _ => 0) n) =
        some (w', es ++ [.opened 2 id]) := by
  have hne : drawing 3 4 1 ≠ Uuid.numbered 2 := by decide
  have hexec : ∃ w, (storeSystem .compact).exec .init [.open 1, .proceed 1 false (.numbered 1) 0,
        .proceed 1 false (.numbered 2) 0, .kill 1, .reap] = some (w, []) ∧
      w.lock = none ∧ 2 ∉ w.stages ∧ .temporary .identity (drawing 3 4 1) ∉ w.files ∧
      w.files.lookup (.temporary .identity (.numbered 2)) = some [] := by
    simp [-AList.insert_empty, storeSystem, System.exec, World.init, World.step, World.enter, hne,
      World.take, World.proceed, World.temporary, Document.name, World.put, World.leave,
      World.unlock]
  obtain ⟨w, hexec, hlock, hpid, hfresh, hbytes⟩ := hexec
  obtain ⟨n, w', es, id, hopens, -⟩ :=
    directory_reopens ⟨_, rfl, .of_exec hexec⟩ hlock hpid hfresh
  exact ⟨w, w', n, es, id, hbytes, hopens⟩

end ExecutionProvider.StateDirectory
