import ExecutionProvider.Foundation.Runs
import ExecutionProvider.Gateway.Machines

/-!
# Enrollment, statement by statement

Creating a machine, issuing a registration token, registering and removing are transactions of
several statements, and other calls run between them. A transaction sees its own writes over what
is committed; the others see them when it commits. From its first statement to its end it holds
the lock of the row of its machine. A connection reads the credential without a lock when it is
upgraded, and later checks the version of the credential by an update of the row.

## Main definitions

* `EnrollmentCall`, `Enrolling`: the calls, and a call with its open transaction.
* `Writes`: the rows that a transaction has written.
* `Enrollment.statement`: the next statement of a transaction.
* `enrollmentSystem`: the runs of all calls and connections.
* `EnrollmentEvent.latest`: the credential that was handed out last.
* `EnrollmentEffect`: what a step consists of.

## Main results

* `effect_of_enrollmentStep`: every step has one of the effects.
-/

namespace ExecutionProvider.Gateway

/-! ### Calls -/

/-- What is asked of the gateway, with the identifiers and secrets that it draws. -/
inductive EnrollmentCall
  | create (user machine tokenId : Uuid) (token : String)
  | issueRegistration (user machine tokenId : Uuid) (token : String)
  | register (machine : Uuid) (token : String) (installation : Uuid) (credential : String)
  | remove (user machine : Uuid)

/-- The machine that a call is about. -/
def EnrollmentCall.machine : EnrollmentCall → Uuid
  | create _ machine _ _ | issueRegistration _ machine _ _ | register machine _ _ _
  | remove _ machine => machine

/-- The token that a call draws, under its identifier. -/
def EnrollmentCall.draws : EnrollmentCall → Option (Uuid × String)
  | create _ _ tokenId token | issueRegistration _ _ tokenId token => some (tokenId, token)
  | _ => none

/-- The next statement of a transaction: it locks the row of its machine, reads the owner of the
machine, revokes tokens, inserts a token, consumes one, writes the row of the machine, commits. -/
inductive Statement
  | lock
  | owner (user : Uuid) (enabled : Bool)
  | revoke
  | insert
  | consume
  | write
  | commit
deriving DecidableEq

/-- The rows that a transaction has written. -/
structure Writes where
  machine : Option Machine
  tokens : Table Uuid RegistrationToken

/-- A call with its open transaction: when it began, its next statement, the row of its user that
it shares, and what it has written. -/
structure Enrolling where
  call : EnrollmentCall
  started : ℕ
  next : Statement
  share : Option Uuid
  writes : Writes

/-- A connection that was upgraded. -/
structure Admitted where
  machine : Uuid
  credential : String
  version : ℕ

/-- A database with the calls whose transactions are open, the connections that were upgraded, and
all tokens that were drawn. -/
structure Enrollment where
  clock : ℕ
  database : Database
  calls : Table Uuid Enrolling
  connections : Table Uuid Admitted
  drawn : Table Uuid (Uuid × String)

/-- What happens: a token is issued, a token is redeemed for a credential, a machine is removed, a
connection is upgraded, a session passes the check of its version. -/
inductive EnrollmentEvent
  | issued (machine : Uuid) (token : String)
  | redeemed (machine : Uuid) (token credential : String)
  | removed (machine : Uuid)
  | upgraded (connection machine : Uuid) (credential : String)
  | passed (connection machine : Uuid) (credential : String)

/-- A step: time passes, a user or the setting of a machine changes, a call begins, goes on or
is given up, a connection asks for its upgrade, a session checks the version. -/
inductive EnrollmentAction
  | tick (microseconds : ℕ)
  | createUser (id : Uuid) (callbackUrl : String) (payloadVersion : Option ℕ)
  | updateUser (id : Uuid) (callbackUrl : Option String) (enabled : Option Bool)
      (payloadVersion : Option ℕ)
  | updateMachine (user id : Uuid) (enabled : Option Bool)
  | begin (call : Uuid) (request : EnrollmentCall)
  | proceed (call : Uuid)
  | abort (call : Uuid)
  | upgrade (connection machine : Uuid) (credential : String)
  | check (connection : Uuid)

/-- A token that can still be used, or revoked. -/
def RegistrationToken.unused (t : RegistrationToken) : Bool :=
  t.consumedAt.isNone && t.revokedAt.isNone

/-! ### Statements -/

namespace Writes

/-- A transaction that has not written anything. -/
def empty : Writes := ⟨none, ∅⟩

variable (w : Writes) (db : Database)

/-- The database as a transaction sees it, and as it leaves it. -/
def view (machine : Uuid) : Database :=
  { db with
    machines := match w.machine with
      | none => db.machines
      | some m => db.machines.insert machine m
    registrationTokens := w.tokens ∪ db.registrationTokens }

/-- The tokens of a machine that satisfy a condition are changed. -/
def update (machine : Uuid) (which : RegistrationToken → Bool)
    (change : RegistrationToken → RegistrationToken) : Writes :=
  { w with
    tokens := ((w.view db machine).registrationTokens.filterMapRows fun _ t =>
      if which t then some (change t) else none) ∪ w.tokens }

/-- The tokens of a machine that can still be used are revoked. -/
def revoke (machine : Uuid) (now : ℕ) : Writes :=
  w.update db machine (fun t => t.machineId = machine && t.unused)
    fun t => { t with revokedAt := some now }

end Writes

namespace EnrollmentCall

/-- What the caller is told when the transaction has committed. -/
def answer : EnrollmentCall → EnrollmentEvent
  | create _ machine _ token | issueRegistration _ machine _ token => .issued machine token
  | register machine token _ credential => .redeemed machine token credential
  | remove _ machine => .removed machine

/-- What follows when the tokens of the machine are revoked. -/
def afterRevoke : EnrollmentCall → Statement
  | remove .. => .commit
  | _ => .insert

end EnrollmentCall

variable {π : Type} (p : Platform π)

namespace Enrolling

variable (e : Enrolling)

/-- Whether a transaction holds the lock of a machine. -/
def locks (machine : Uuid) : Bool := e.next ≠ .lock && e.call.machine = machine

/-- A call that has begun. -/
def init (now : ℕ) (call : EnrollmentCall) : Enrolling := ⟨call, now, .lock, none, .empty⟩

/-- A transaction that goes on with another statement. -/
def go (next : Statement) : Enrolling := { e with next := next }

variable (now : ℕ) (db : Database)

/-- The first statement of a transaction: it locks the row of its machine, or inserts it. -/
def lockRow : Option Enrolling :=
  match e.call with
  | .create user machine _ _ =>
    if user ∉ db.users ∨ machine ∈ db.machines then none
    else some { e with
      next := .revoke
      writes := { e.writes with machine := some ⟨user, true, none, none, 0, none⟩ } }
  | .issueRegistration user machine _ _ =>
    match ownMachine db user machine with
    | none => none
    | some m => if m.enabled then some (e.go .revoke) else none
  | .register machine _ _ _ =>
    ((db.machines.lookup machine).filter fun m => m.deletedAt.isNone).map fun m =>
      e.go (.owner m.userId m.enabled)
  | .remove user machine =>
    ((db.machines.lookup machine).filter fun m => m.userId = user).map fun m =>
      e.go (if m.deletedAt.isSome then .commit else .write)

/-- The tokens of the machine are revoked. -/
def revokeTokens : Option Enrolling :=
  some { e with
    writes := e.writes.revoke db e.call.machine now
    next := e.call.afterRevoke }

/-- The new token is inserted. It expires a quarter of an hour after the transaction began. -/
def insertToken : Option Enrolling :=
  match e.call.draws with
  | none => none
  | some (tokenId, token) =>
    if tokenId ∈ (e.writes.view db e.call.machine).registrationTokens then none
    else some { e with
      next := .commit
      writes := { e.writes with
        tokens := e.writes.tokens.insert tokenId
          ⟨e.call.machine, p.sha256 token, e.started + seconds 900, none, none⟩ } }

/-- The token that was sent is consumed, if there is exactly one row of it. -/
def consumeToken : Option Enrolling :=
  match e.call with
  | .register machine token _ _ =>
    let which := fun t => RegistrationToken.redeemable now t machine (p.sha256 token)
    if ((e.writes.view db machine).registrationTokens.select fun _ t => which t).length = 1 then
      some { e with
        next := .write
        writes := e.writes.update db machine which fun t => { t with consumedAt := some now } }
    else none
  | _ => none

/-- The row of the machine is written: it has a new credential, or was removed. -/
def writeRow : Option Enrolling :=
  match (e.writes.view db e.call.machine).machines.lookup e.call.machine with
  | none => none
  | some m =>
    if maxCredentialVersion ≤ m.credentialVersion then none
    else match e.call with
    | .register _ _ installation credential => some { e with
        next := .commit
        writes := { e.writes with machine := some { m with
          installationId := some installation
          credentialHash := some (p.sha256 credential)
          credentialVersion := m.credentialVersion + 1 } } }
    | .remove .. => some { e with
        next := .revoke
        writes := { e.writes with machine := some { m with
          enabled := false
          deletedAt := some now
          credentialHash := none
          credentialVersion := m.credentialVersion + 1 } } }
    | _ => none

/-- The next statement of a transaction, or none when it fails. -/
def statement : Option Enrolling :=
  match e.next with
  | .lock => e.lockRow db
  | .owner user enabled =>
    ((db.users.lookup user).filter fun u => enabled && u.enabled).map fun _ =>
      { e.go .consume with share := some user }
  | .revoke => e.revokeTokens now db
  | .insert => e.insertToken p db
  | .consume => e.consumeToken p now db
  | .write => e.writeRow p now db
  | .commit => none

end Enrolling

namespace Enrollment

variable (S : Enrollment)

/-- A new installation. -/
def init : Enrollment := ⟨0, .empty, ∅, ∅, ∅⟩

/-- Whether no transaction holds the lock of a machine. -/
def free (machine : Uuid) : Bool := S.calls.entries.all fun e => !e.2.locks machine

/-- Whether no transaction shares the row of a user. -/
def unshared (user : Uuid) : Bool := S.calls.entries.all fun e => e.2.share ≠ some user

/-- A change of the settings, in a transaction of one statement. -/
def commit (t : Transaction Unit) : Enrollment × List EnrollmentEvent :=
  match t with
  | .error _ => (S, [])
  | .ok c => ({ S with database := c.database }, [])

/-- A call begins. The token that it draws was not drawn before. -/
def begin (call : Uuid) (request : EnrollmentCall) : Option (Enrollment × List EnrollmentEvent) :=
  if call ∈ S.calls then none
  else match request.draws with
  | none => some ({ S with calls := S.calls.insert call (.init S.clock request) }, [])
  | some (tokenId, token) =>
    if tokenId ∈ S.drawn ∨ S.drawn.entries.any fun e => e.2.2 = token then none
    else some ({ S with
      calls := S.calls.insert call (.init S.clock request)
      drawn := S.drawn.insert tokenId (request.machine, token) }, [])

/-- The next statement of a call. A statement waits for the lock that it takes, one that fails
ends the call, and the last one commits what the transaction has written. -/
def proceed (call : Uuid) : Option (Enrollment × List EnrollmentEvent) :=
  match S.calls.lookup call with
  | none => none
  | some e =>
    if e.next = .lock ∧ !S.free e.call.machine then none
    else if e.next = .commit then some ({ S with
      database := e.writes.view S.database e.call.machine
      calls := S.calls.erase call }, [e.call.answer])
    else match e.statement p S.clock S.database with
    | none => some ({ S with calls := S.calls.erase call }, [])
    | some e' => some ({ S with calls := S.calls.insert call e' }, [])

/-- A connection asks for its upgrade. -/
def upgrade (connection machine : Uuid) (credential : String) :
    Option (Enrollment × List EnrollmentEvent) :=
  if connection ∈ S.connections then none
  else match authenticate p S.database machine credential with
  | .error _ => some (S, [])
  | .ok (_, version) => some ({ S with
      connections := S.connections.insert connection ⟨machine, credential, version⟩ },
      [.upgraded connection machine credential])

/-- A session checks the version of its credential, by an update that waits for the lock of the
row. -/
def check (connection : Uuid) : Option (Enrollment × List EnrollmentEvent) :=
  match S.connections.lookup connection with
  | none => none
  | some k =>
    if !S.free k.machine then none
    else if touch S.database k.machine k.version then
      some (S, [.passed connection k.machine k.credential])
    else some ({ S with connections := S.connections.erase connection }, [])

/-- A step. An update of a user waits for those that share its row. -/
def step : EnrollmentAction → Option (Enrollment × List EnrollmentEvent)
  | .tick n => some ({ S with clock := S.clock + n }, [])
  | .createUser id callbackUrl payloadVersion =>
    some (S.commit (createUser S.database id callbackUrl payloadVersion))
  | .updateUser id callbackUrl enabled payloadVersion =>
    if S.unshared id then
      some (S.commit (updateUser S.database id callbackUrl enabled payloadVersion))
    else none
  | .updateMachine user id enabled =>
    if S.free id then some (S.commit (updateMachine S.database user id enabled)) else none
  | .begin call request => S.begin call request
  | .proceed call => S.proceed p call
  | .abort call => some ({ S with calls := S.calls.erase call }, [])
  | .upgrade connection machine credential => S.upgrade p connection machine credential
  | .check connection => S.check connection

end Enrollment

/-- The runs of enrollment. -/
def enrollmentSystem : System Enrollment EnrollmentAction EnrollmentEvent where
  start S := S = .init
  step S a := S.step p a

/-- The credential that the last registration of a machine has handed out. -/
def EnrollmentEvent.latest (machine : Uuid) (log : List EnrollmentEvent) : Option String :=
  (log.filterMap fun
    | .redeemed m _ credential => if m = machine then some credential else none
    | _ => none).getLast?

/-! ### What a step consists of -/

/-- What a step consists of. -/
inductive EnrollmentEffect (S S' : Enrollment) : List EnrollmentEvent → Prop
  | settings {f : Uuid → Machine → Machine}
      (hm : S'.database.machines = S.database.machines.mapRows f)
      (ht : S'.database.registrationTokens = S.database.registrationTokens)
      (hf : ∀ m row, (f m row).installationId = row.installationId ∧
        (f m row).credentialHash = row.credentialHash ∧
        (f m row).credentialVersion = row.credentialVersion ∧ (f m row).deletedAt = row.deletedAt)
      (hfree : ∀ k e, S.calls.lookup k = some e → e.next ≠ .lock →
        ∀ row, f e.call.machine row = row)
      (hS : S' = { S with clock := S'.clock, database := S'.database }) : EnrollmentEffect S S' []
  | begin {call : Uuid} {request : EnrollmentCall} (hcall : call ∉ S.calls)
      (hdrawn : S'.drawn = S.drawn ∧ request.draws = none ∨
        ∃ tokenId token, request.draws = some (tokenId, token) ∧ tokenId ∉ S.drawn ∧
          (∀ id x, S.drawn.lookup id = some x → x.2 ≠ token) ∧
          S'.drawn = S.drawn.insert tokenId (request.machine, token))
      (hS : S' = { S with
        calls := S.calls.insert call (.init S.clock request), drawn := S'.drawn }) :
      EnrollmentEffect S S' []
  | erase {call : Uuid} (hS : S' = { S with calls := S.calls.erase call }) :
      EnrollmentEffect S S' []
  | statement {call : Uuid} {e e' : Enrolling} (he : S.calls.lookup call = some e)
      (hfree : e.next = .lock → S.free e.call.machine = true)
      (hs : e.statement p S.clock S.database = some e')
      (hS : S' = { S with calls := S.calls.insert call e' }) : EnrollmentEffect S S' []
  | commit {call : Uuid} {e : Enrolling} (he : S.calls.lookup call = some e)
      (hnext : e.next = .commit) (hS : S' = { S with
        database := e.writes.view S.database e.call.machine
        calls := S.calls.erase call }) : EnrollmentEffect S S' [e.call.answer]
  | upgrade {connection machine installation : Uuid} {credential : String} {version : ℕ}
      (hauth : authenticate p S.database machine credential = .ok (installation, version))
      (hS : S' = { S with
        connections := S.connections.insert connection ⟨machine, credential, version⟩ }) :
      EnrollmentEffect S S' [.upgraded connection machine credential]
  | pass {connection : Uuid} {k : Admitted} (hk : S.connections.lookup connection = some k)
      (htouch : touch S.database k.machine k.version = true) (hS : S' = S) :
      EnrollmentEffect S S' [.passed connection k.machine k.credential]
  | refuse {connection : Uuid}
      (hS : S' = S ∨ S' = { S with connections := S.connections.erase connection }) :
      EnrollmentEffect S S' []

section

variable {p} {S S' : Enrollment} {es : List EnrollmentEvent}

/-- Settings that are not those of machines. -/
theorem EnrollmentEffect.of_same (hm : S'.database.machines = S.database.machines)
    (ht : S'.database.registrationTokens = S.database.registrationTokens)
    (hS : S' = { S with clock := S'.clock, database := S'.database }) :
    EnrollmentEffect p S S' [] :=
  .settings (f := fun _ row => row) (hm.trans (Table.mapRows_id _).symm) ht
    (fun _ _ => ⟨rfl, rfl, rfl, rfl⟩) (fun _ _ _ _ _ => rfl) hS

theorem effect_of_commit {t : Transaction Unit}
    (hok : ∀ c, t = .ok c → EnrollmentEffect p S { S with database := c.database } [])
    (h : S.commit t = (S', es)) : EnrollmentEffect p S S' es := by
  unfold Enrollment.commit at h
  split at h
  · obtain ⟨rfl, rfl⟩ := Prod.mk.inj h
    exact .of_same rfl rfl rfl
  · next c =>
    obtain ⟨rfl, rfl⟩ := Prod.mk.inj h
    exact hok c rfl

theorem effect_of_updateMachine {user id : Uuid} {enabled : Option Bool}
    (hfree : S.free id = true)
    (h : S.commit (updateMachine S.database user id enabled) = (S', es)) :
    EnrollmentEffect p S S' es := by
  refine effect_of_commit (fun c hc => ?_) h
  unfold Gateway.updateMachine at hc
  split at hc
  · cases hc
  · obtain rfl := Except.ok.inj hc
    refine .settings (f := fun k m =>
      if k = id then { m with enabled := enabled.getD m.enabled } else m) rfl rfl
      (fun m row => ?_) (fun k e he hnext row => ?_) rfl
    · split_ifs <;> exact ⟨rfl, rfl, rfl, rfl⟩
    · have hlocks := List.all_eq_true.mp hfree ⟨k, e⟩ (AList.mem_lookup_iff.mp he)
      rw [if_neg]
      intro heq
      simp [Enrolling.locks, hnext, heq] at hlocks

theorem effect_of_begin {call : Uuid} {request : EnrollmentCall}
    (h : S.begin call request = some (S', es)) : EnrollmentEffect p S S' es := by
  unfold Enrollment.begin at h
  split_ifs at h with hcall
  split at h
  · next hdraws =>
    obtain ⟨rfl, rfl⟩ := Prod.mk.inj (Option.some.inj h)
    exact .begin hcall (Or.inl ⟨rfl, hdraws⟩) rfl
  · next tokenId token hdraws =>
    split_ifs at h with hfresh
    rw [not_or] at hfresh
    obtain ⟨rfl, rfl⟩ := Prod.mk.inj (Option.some.inj h)
    refine .begin hcall (Or.inr ⟨tokenId, token, hdraws, hfresh.1, fun id x hx heq => ?_, rfl⟩) rfl
    exact hfresh.2 (List.any_eq_true.mpr
      ⟨⟨id, x⟩, AList.mem_lookup_iff.mp hx, by simpa using heq⟩)

theorem effect_of_proceed {call : Uuid} (h : S.proceed p call = some (S', es)) :
    EnrollmentEffect p S S' es := by
  unfold Enrollment.proceed at h
  split at h
  · cases h
  · next e he =>
    split_ifs at h with hwait hcommit
    · obtain ⟨rfl, rfl⟩ := Prod.mk.inj (Option.some.inj h)
      exact .commit he hcommit rfl
    · split at h
      · obtain ⟨rfl, rfl⟩ := Prod.mk.inj (Option.some.inj h)
        exact .erase rfl
      · next e' hs =>
        obtain ⟨rfl, rfl⟩ := Prod.mk.inj (Option.some.inj h)
        refine .statement he (fun hnext => ?_) hs rfl
        by_contra hfree
        exact hwait ⟨hnext, by simpa using hfree⟩

/-- Every step has one of the effects. -/
theorem effect_of_enrollmentStep {a : EnrollmentAction} (h : S.step p a = some (S', es)) :
    EnrollmentEffect p S S' es := by
  cases a with
  | tick n =>
    obtain ⟨rfl, rfl⟩ := Prod.mk.inj (Option.some.inj h)
    exact .of_same rfl rfl rfl
  | createUser id callbackUrl payloadVersion =>
    refine effect_of_commit (fun c hc => ?_) (Option.some.inj h)
    unfold Gateway.createUser at hc
    split at hc
    · cases hc
    · split_ifs at hc
      obtain rfl := Except.ok.inj hc
      exact .of_same rfl rfl rfl
  | updateUser id callbackUrl enabled payloadVersion =>
    simp only [Enrollment.step] at h
    split_ifs at h
    refine effect_of_commit (fun c hc => ?_) (Option.some.inj h)
    unfold Gateway.updateUser at hc
    split at hc
    · cases hc
    · split_ifs at hc
      obtain rfl := Except.ok.inj hc
      exact .of_same rfl rfl rfl
  | updateMachine user id enabled =>
    simp only [Enrollment.step] at h
    split_ifs at h with hfree
    exact effect_of_updateMachine hfree (Option.some.inj h)
  | begin call request => exact effect_of_begin h
  | proceed call => exact effect_of_proceed h
  | abort call =>
    obtain ⟨rfl, rfl⟩ := Prod.mk.inj (Option.some.inj h)
    exact .erase rfl
  | upgrade connection machine credential =>
    simp only [Enrollment.step, Enrollment.upgrade] at h
    split_ifs at h
    split at h
    · obtain ⟨rfl, rfl⟩ := Prod.mk.inj (Option.some.inj h)
      exact @EnrollmentEffect.refuse _ _ _ _ connection (Or.inl rfl)
    · next installation version hauth =>
      obtain ⟨rfl, rfl⟩ := Prod.mk.inj (Option.some.inj h)
      exact .upgrade hauth rfl
  | check connection =>
    simp only [Enrollment.step, Enrollment.check] at h
    split at h
    · cases h
    · next k hk =>
      split_ifs at h with hwait htouch
      · obtain ⟨rfl, rfl⟩ := Prod.mk.inj (Option.some.inj h)
        exact .pass hk htouch rfl
      · obtain ⟨rfl, rfl⟩ := Prod.mk.inj (Option.some.inj h)
        exact .refuse (Or.inr rfl)

end

end ExecutionProvider.Gateway
