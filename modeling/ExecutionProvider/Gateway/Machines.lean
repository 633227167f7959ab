import ExecutionProvider.Gateway.Settlement

/-!
# The transactions on users and machines

A machine is registered with a token that can be used once, within a quarter of an hour.
Registering it hands out a new credential, and removing it takes the last one away; both raise
the version of the credential, by which the sessions of older credentials are told.

## Main definitions

* `createUser`, `updateUser`: the settings of users that the jobs depend on.
* `createMachine`, `updateMachine`, `issueRegistration`, `register`, `remove`: the life of a
  machine.
* `authenticate`: the credential of a machine that connects.
* `touch`: whether the credential of a session is the current one.

## Main results

* `register_cases`, `remove_cases`: a registration or removal raises the version of the
  credential of its machine and changes no other.
-/

namespace ExecutionProvider.Gateway

variable {π : Type} (p : Platform π) (now : ℕ) (db : Database)

/-! ### Users -/

/-- The versions of the payload of a delivery. -/
def webhookPayloadVersion (version : ℕ) : Except GatewayError ℕ :=
  if 1 ≤ version ∧ version ≤ 3 then .ok version
  else .error (.invalid "webhookPayloadVersion must be 1, 2, or 3")

/-- A user is created. -/
def createUser (id : Uuid) (callbackUrl : String) (payloadVersion : Option ℕ) :
    Transaction Unit :=
  match webhookPayloadVersion (payloadVersion.getD 2) with
  | .error e => .error e
  | .ok version =>
    if id ∈ db.users then .error .internal
    else .commit () { db with users := db.users.insert id ⟨true, callbackUrl, version⟩ }

/-- The settings of a user change. -/
def updateUser (id : Uuid) (callbackUrl : Option String) (enabled : Option Bool)
    (payloadVersion : Option ℕ) : Transaction Unit :=
  match payloadVersion.mapM webhookPayloadVersion with
  | .error e => .error e
  | .ok version =>
    if id ∈ db.users then
      .commit () { db with users := db.users.modify id fun user =>
        { enabled := enabled.getD user.enabled
          callbackUrl := callbackUrl.getD user.callbackUrl
          webhookPayloadVersion := version.getD user.webhookPayloadVersion } }
    else .error .missing

/-! ### Registration tokens -/

/-- The tokens of a machine that can still be used are revoked. -/
def revokeTokens (machine : Uuid) : Table Uuid RegistrationToken :=
  db.registrationTokens.mapRows fun _ t =>
    if t.machineId = machine ∧ t.consumedAt.isNone ∧ t.revokedAt.isNone then
      { t with revokedAt := some now }
    else t

/-- A new token for a machine. -/
def registration (machine tokenId : Uuid) (token : String) : Database :=
  { db with
    registrationTokens := (revokeTokens now db machine).insert tokenId
      ⟨machine, p.sha256 token, now + seconds 900, none, none⟩ }

/-- Whether a token registers a machine. -/
def RegistrationToken.redeemable (t : RegistrationToken) (machine : Uuid) (tokenHash : String) :
    Bool :=
  t.machineId = machine && t.tokenHash = tokenHash && t.consumedAt.isNone && t.revokedAt.isNone &&
    now < t.expiresAt

/-! ### Machines -/

/-- A user creates a machine. -/
def createMachine (user id tokenId : Uuid) (token : String) : Transaction Unit :=
  if user ∉ db.users ∨ id ∈ db.machines ∨ tokenId ∈ db.registrationTokens then .error .internal
  else .commit () <| registration p now
    { db with machines := db.machines.insert id ⟨user, true, none, none, 0, none⟩ } id tokenId token

/-- A machine of a user that was not removed. -/
def ownMachine (user id : Uuid) : Option Machine :=
  (db.machines.lookup id).filter fun m => m.userId = user && m.deletedAt.isNone

/-- A user enables or disables a machine. -/
def updateMachine (user id : Uuid) (enabled : Option Bool) : Transaction Unit :=
  match ownMachine db user id with
  | none => .error .missing
  | some _ => .commit () { db with machines := db.machines.modify id fun m =>
      { m with enabled := enabled.getD m.enabled } }

/-- A user asks for a token to register a machine again. -/
def issueRegistration (user id tokenId : Uuid) (token : String) : Transaction Unit :=
  match ownMachine db user id with
  | none => .error .missing
  | some m =>
    if !m.enabled then
      .error (.conflict "machine_disabled" "enable the machine before registration")
    else if tokenId ∈ db.registrationTokens then .error .internal
    else .commit () (registration p now db id tokenId token)

/-- The largest version of a credential. -/
def maxCredentialVersion : ℕ := 2 ^ 31 - 1

/-- A host registers as a machine. It is handed out a new credential. -/
def register (id : Uuid) (token : String) (installation : Uuid) (credential : String) :
    Transaction Unit :=
  match (db.machines.lookup id).filter fun m => m.deletedAt.isNone with
  | none => .error .unauthorized
  | some m =>
    match db.users.lookup m.userId with
    | none => .error .internal
    | some owner =>
      if !m.enabled ∨ !owner.enabled then .error .unauthorized
      else if (db.registrationTokens.select fun _ t =>
          t.redeemable now id (p.sha256 token)).length ≠ 1 then .error .unauthorized
      else if maxCredentialVersion ≤ m.credentialVersion then .error .internal
      else .commit () { db with
        registrationTokens := db.registrationTokens.mapRows fun _ t =>
          if t.redeemable now id (p.sha256 token) then { t with consumedAt := some now } else t
        machines := db.machines.modify id fun m => { m with
          installationId := some installation
          credentialHash := some (p.sha256 credential)
          credentialVersion := m.credentialVersion + 1 } }

/-- A user removes a machine. -/
def remove (user id : Uuid) : Transaction Unit :=
  match (db.machines.lookup id).filter fun m => m.userId = user with
  | none => .error .missing
  | some m =>
    if m.deletedAt.isSome then .commit () db
    else if maxCredentialVersion ≤ m.credentialVersion then .error .internal
    else .commit () { db with
      machines := db.machines.modify id fun m => { m with
        enabled := false
        deletedAt := some now
        credentialHash := none
        credentialVersion := m.credentialVersion + 1 }
      registrationTokens := revokeTokens now db id }

/-! ### Connecting -/

/-- The credential of a machine that connects: its installation and the version. -/
def authenticate (machine : Uuid) (credential : String) : Except GatewayError (Uuid × ℕ) :=
  match (db.machines.lookup machine).filter fun m =>
      m.credentialHash = some (p.sha256 credential) && m.deletedAt.isNone with
  | none => .error .unauthorized
  | some m =>
    match m.installationId with
    | none => .error .internal
    | some installation => .ok (installation, m.credentialVersion)

/-- Whether the credential of a session is the current one. -/
def touch (machine : Uuid) (version : ℕ) : Bool :=
  (db.machines.lookup machine).any fun m =>
    m.credentialVersion == version && m.deletedAt.isNone

/-! ### What the transactions do -/

section

variable {p now db}

/-- A transaction that has nothing to do with jobs. -/
structure Aside {α : Type} (db : Database) (c : Committed α) : Prop where
  settled : c.settled = []
  jobs : c.database.jobs = db.jobs
  webhookDeliveries : c.database.webhookDeliveries = db.webhookDeliveries
  tended : Tended db c.database

/-- The settings of users may change as long as the versions are valid. -/
theorem Tended.of_modify {id : Uuid} {f : User → User}
    (hf : ∀ user, 1 ≤ user.webhookPayloadVersion ∧ user.webhookPayloadVersion ≤ 3 →
      1 ≤ (f user).webhookPayloadVersion ∧ (f user).webhookPayloadVersion ≤ 3) :
    Tended db { db with users := db.users.modify id f } := by
  refine ⟨fun k h => Table.mem_modify.mpr h, fun h k user huser => ?_,
    fun h k machine hmachine => Table.mem_modify.mpr (h k machine hmachine),
    fun k machine hmachine => ⟨machine, hmachine, le_rfl⟩⟩
  rcases eq_or_ne k id with rfl | hne
  · rw [Table.lookup_modify] at huser
    obtain ⟨user', huser', rfl⟩ := Option.map_eq_some_iff.mp huser
    exact hf user' (h k user' huser')
  · rw [Table.lookup_modify_of_ne hne] at huser
    exact h k user huser

/-- Machines may change as long as they keep their owners and the versions of their
credentials do not fall. -/
theorem Tended.of_modify_machine {id : Uuid} {f : Machine → Machine}
    {tokens : Table Uuid RegistrationToken} (hf : ∀ machine, (f machine).userId = machine.userId)
    (hversion : ∀ machine, machine.credentialVersion ≤ (f machine).credentialVersion) :
    Tended db
      { db with machines := db.machines.modify id f, registrationTokens := tokens } := by
  refine ⟨fun k h => h, fun h => h, fun h k machine hmachine => ?_, fun k machine hmachine => ?_⟩
  · rcases eq_or_ne k id with rfl | hne
    · rw [Table.lookup_modify] at hmachine
      obtain ⟨machine', hmachine', rfl⟩ := Option.map_eq_some_iff.mp hmachine
      rw [hf]
      exact h k machine' hmachine'
    · rw [Table.lookup_modify_of_ne hne] at hmachine
      exact h k machine hmachine
  · rcases eq_or_ne k id with rfl | hne
    · exact ⟨f machine, by rw [Table.lookup_modify, hmachine]; rfl, hversion machine⟩
    · exact ⟨machine, by rwa [Table.lookup_modify_of_ne hne], le_rfl⟩

theorem webhookPayloadVersion_eq_ok {version version' : ℕ}
    (h : webhookPayloadVersion version = .ok version') : 1 ≤ version' ∧ version' ≤ 3 := by
  unfold webhookPayloadVersion at h
  split at h
  · next hv =>
    obtain rfl := Except.ok.inj h
    exact hv
  · cases h

theorem aside_createUser {id : Uuid} {callbackUrl : String} {payloadVersion : Option ℕ}
    {c : Committed Unit} (h : createUser db id callbackUrl payloadVersion = .ok c) :
    Aside db c := by
  unfold createUser at h
  split at h
  · cases h
  · next version hversion =>
    split at h
    · cases h
    · obtain rfl := Except.ok.inj h
      refine ⟨rfl, rfl, rfl, fun k hk => (AList.mem_insert _).mpr (Or.inr hk),
        fun hv k user huser => ?_, fun hv k m hm => (AList.mem_insert _).mpr (Or.inr (hv k m hm)),
        fun k m hm => ⟨m, hm, le_rfl⟩⟩
      rcases eq_or_ne k id with rfl | hne
      · rw [AList.lookup_insert] at huser
        obtain rfl := Option.some.inj huser
        exact webhookPayloadVersion_eq_ok hversion
      · rw [AList.lookup_insert_ne hne] at huser
        exact hv k user huser

theorem aside_updateUser {id : Uuid} {callbackUrl : Option String} {enabled : Option Bool}
    {payloadVersion : Option ℕ} {c : Committed Unit}
    (h : updateUser db id callbackUrl enabled payloadVersion = .ok c) : Aside db c := by
  unfold updateUser at h
  split at h
  · cases h
  · next version hversion =>
    split at h
    · obtain rfl := Except.ok.inj h
      refine ⟨rfl, rfl, rfl, .of_modify fun user huser => ?_⟩
      cases payloadVersion with
      | none =>
        obtain rfl : none = version := Except.ok.inj hversion
        exact huser
      | some v =>
        rw [Option.mapM_some] at hversion
        obtain ⟨v', hv', rfl⟩ : ∃ v', webhookPayloadVersion v = .ok v' ∧ some v' = version := by
          cases hv : webhookPayloadVersion v with
          | error e =>
            rw [hv] at hversion
            cases hversion
          | ok v' =>
            rw [hv] at hversion
            exact ⟨v', rfl, Except.ok.inj hversion⟩
        exact webhookPayloadVersion_eq_ok hv'
    · cases h

theorem aside_createMachine {user id tokenId : Uuid} {token : String} {c : Committed Unit}
    (h : createMachine p now db user id tokenId token = .ok c) : Aside db c := by
  unfold createMachine at h
  split at h
  · cases h
  · next hnew =>
    rw [not_or, not_not] at hnew
    obtain rfl := Except.ok.inj h
    refine ⟨rfl, rfl, rfl, fun _ hk => hk, fun hv => hv, fun hv k m hm => ?_, fun k m hm => ?_⟩
    · rcases eq_or_ne k id with rfl | hne
      · rw [registration, AList.lookup_insert] at hm
        obtain rfl := Option.some.inj hm
        exact hnew.1
      · rw [registration, AList.lookup_insert_ne hne] at hm
        exact hv k m hm
    · have hne : k ≠ id := fun heq =>
        hnew.2 (Or.inl (heq ▸ Table.mem_of_lookup hm))
      exact ⟨m, by rwa [registration, AList.lookup_insert_ne hne], le_rfl⟩

theorem aside_updateMachine {user id : Uuid} {enabled : Option Bool} {c : Committed Unit}
    (h : updateMachine db user id enabled = .ok c) : Aside db c := by
  unfold updateMachine at h
  split at h
  · cases h
  · obtain rfl := Except.ok.inj h
    refine ⟨rfl, rfl, rfl, .of_modify_machine ?_ ?_⟩
    · exact fun _ => rfl
    · exact fun _ => le_rfl

theorem aside_issueRegistration {user id tokenId : Uuid} {token : String} {c : Committed Unit}
    (h : issueRegistration p now db user id tokenId token = .ok c) : Aside db c := by
  unfold issueRegistration at h
  split at h
  · cases h
  · split at h
    · cases h
    · split at h
      · cases h
      · obtain rfl := Except.ok.inj h
        exact ⟨rfl, rfl, rfl, .of_same rfl rfl⟩

/-- A registration raises the version of the credential of its machine. -/
theorem register_cases {id installation : Uuid} {token credential : String} {c : Committed Unit}
    (h : register p now db id token installation credential = .ok c) :
    Aside db c ∧ c.database.users = db.users ∧ ∃ m, db.machines.lookup id = some m ∧
      c.database.machines = db.machines.modify id fun m => { m with
        installationId := some installation
        credentialHash := some (p.sha256 credential)
        credentialVersion := m.credentialVersion + 1 } := by
  unfold register at h
  split at h
  · cases h
  · next m hm =>
    obtain ⟨hm, -⟩ := Option.filter_eq_some_iff.mp hm
    split at h
    · cases h
    · split at h
      · cases h
      · split at h
        · cases h
        · split at h
          · cases h
          · obtain rfl := Except.ok.inj h
            refine ⟨⟨rfl, rfl, rfl, .of_modify_machine ?_ ?_⟩, rfl, m, hm, rfl⟩
            · exact fun _ => rfl
            · exact fun machine => Nat.le_succ machine.credentialVersion

/-- A removal raises the version of the credential of its machine, unless it was removed
before. -/
theorem remove_cases {user id : Uuid} {c : Committed Unit} (h : remove now db user id = .ok c) :
    Aside db c ∧ c.database.users = db.users ∧ ∃ m, db.machines.lookup id = some m ∧
      (c.database.machines = db.machines ∨
        c.database.machines = db.machines.modify id fun m => { m with
          enabled := false
          deletedAt := some now
          credentialHash := none
          credentialVersion := m.credentialVersion + 1 }) := by
  unfold remove at h
  split at h
  · cases h
  · next m hm =>
    obtain ⟨hm, -⟩ := Option.filter_eq_some_iff.mp hm
    split at h
    · obtain rfl := Except.ok.inj h
      exact ⟨⟨rfl, rfl, rfl, .refl db⟩, rfl, m, hm, Or.inl rfl⟩
    · split at h
      · cases h
      · obtain rfl := Except.ok.inj h
        refine ⟨⟨rfl, rfl, rfl, .of_modify_machine ?_ ?_⟩, rfl, m, hm, Or.inr rfl⟩
        · exact fun _ => rfl
        · exact fun machine => Nat.le_succ machine.credentialVersion

end

end ExecutionProvider.Gateway
