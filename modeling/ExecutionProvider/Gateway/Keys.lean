import ExecutionProvider.Gateway.Accounts

/-!
# Who is admitted

However requests interleave, a request is admitted for a user exactly when it shows a key that was
handed out for this user and not revoked since, and the user is enabled. All that changes users and
keys goes back to a request that was admitted for it, and the secret that is stored with a user is
the one that it was handed out last.

## Main definitions

* `enabledIn`, `secretIn`: what the log says of a user.
* `Usable`: whether a key can be used.
* `AccountTables.Stored`: how the tables agree with the log.
* `AccountEvent.Lawful`: what an event goes back to.
* `AccountTables.Recorded`: the rows that change, by what has happened.

## Main results

* `Sound.step`: every step keeps this.
* `Recorded.of_path`: rows change only as the events tell.
* `keys_authenticate`: who is admitted as which user.
* `changes_admitted`: what every change goes back to.
* `secret_current`: the secret that is stored with a user.
-/

namespace ExecutionProvider.Gateway

/-! ### What the log says -/

/-- Whether an event enables a user. -/
def AccountEvent.enables (user : Uuid) : AccountEvent → Option Bool
  | created _ id => if id = user then some true else none
  | changed _ id enabled => if id = user then enabled else none
  | _ => none

/-- The secret that an event hands out to a user. -/
def AccountEvent.secret (user : Uuid) : AccountEvent → Option String
  | rotated _ id secret => if id = user then some secret else none
  | _ => none

/-- Whether a user is enabled, if there is one. -/
def enabledIn (user : Uuid) (log : List AccountEvent) : Option Bool :=
  (log.filterMap (AccountEvent.enables user)).getLast?

/-- The secret that a user was handed out last. -/
def secretIn (user : Uuid) (log : List AccountEvent) : Option String :=
  (log.filterMap (AccountEvent.secret user)).getLast?

/-- A key was handed out for a user and not revoked since, and the user is enabled. -/
structure Usable (log : List AccountEvent) (user key : Uuid) (secret : String) : Prop where
  minted : ∃ call, .minted call user key secret ∈ log
  unrevoked : ∀ call, .revoked call user key ∉ log
  enabled : enabledIn user log = some true

section

variable {log : List AccountEvent} {user : Uuid} {e : AccountEvent}

theorem enabledIn_append : enabledIn user (log ++ [e]) =
    (e.enables user).or (enabledIn user log) := by
  rw [enabledIn, enabledIn, List.filterMap_append, List.getLast?_append]
  cases h : e.enables user <;> simp [h]

theorem secretIn_append : secretIn user (log ++ [e]) =
    (e.secret user).or (secretIn user log) := by
  rw [secretIn, secretIn, List.filterMap_append, List.getLast?_append]
  cases h : e.secret user <;> simp [h]

end

/-! ### The tables -/

/-- The tables agree with what has happened. -/
structure AccountTables.Stored (v : Vault) (log : List AccountEvent) (db : AccountTables) :
    Prop where
  row : ∀ key k, db.keys.lookup key = some k →
    ∃ call secret, .minted call k.userId key secret ∈ log ∧ k.keyHash = v.sha256 secret
  minted : ∀ call user key secret, .minted call user key secret ∈ log →
    validBearer secret = true ∧
      ∃ k, db.keys.lookup key = some k ∧ k.userId = user ∧ k.keyHash = v.sha256 secret
  revoked : ∀ key k, db.keys.lookup key = some k →
    (k.revokedAt.isSome = true ↔ ∃ call, .revoked call k.userId key ∈ log)
  known : ∀ call user key, .revoked call user key ∈ log → key ∈ db.keys
  distinct : ∀ key key' k k', db.keys.lookup key = some k → db.keys.lookup key' = some k' →
    k.keyHash = k'.keyHash → key = key'
  enabled : ∀ id, (db.users.lookup id).map (fun a => a.enabled) = enabledIn id log
  secret : ∀ id, (db.users.lookup id).map (fun a => decrypt v id a.webhookSecretEncrypted) =
    (secretIn id log).map .ok

/-- Events that concern a key. -/
def AccountEvent.ofKey : AccountEvent → Bool
  | minted _ _ _ _ | revoked _ _ _ => true
  | _ => false

/-- Events that leave the tables alone. -/
def AccountEvent.isPlain : AccountEvent → Bool
  | admitted _ _ | admittedUser _ _ _ | refused _ | told _ _ | failed _ _ => true
  | _ => false

variable {v : Vault} {log es : List AccountEvent} {db db' : AccountTables} {now call : ℕ}
  {id user key : Uuid} {e : AccountEvent}

namespace AccountTables.Stored

theorem init : Stored v [] ⟨∅, ∅⟩ where
  row _ _ h := by simp at h
  minted _ _ _ _ h := by cases h
  revoked _ _ h := by simp at h
  known _ _ _ h := by cases h
  distinct _ _ _ _ h := by simp at h
  enabled _ := by simp [enabledIn]
  secret _ := by simp [secretIn]

/-- Events that concern no key. -/
theorem of_keys (h : db.Stored v log) (hes : ∀ e ∈ es, e.ofKey = false)
    (hkeys : db'.keys = db.keys)
    (henabled : ∀ id, (db'.users.lookup id).map (fun a => a.enabled) = enabledIn id (log ++ es))
    (hsecret : ∀ id, (db'.users.lookup id).map (fun a => decrypt v id a.webhookSecretEncrypted) =
      (secretIn id (log ++ es)).map .ok) : db'.Stored v (log ++ es) := by
  have hold {e : AccountEvent} (he : e.ofKey = true) : e ∈ log ++ es ↔ e ∈ log := by
    refine ⟨fun hmem => ?_, List.mem_append_left _⟩
    rcases List.mem_append.mp hmem with hmem | hmem
    · exact hmem
    · cases he.symm.trans (hes e hmem)
  constructor
  case row =>
    intro key k hk
    obtain ⟨call, secret, hmem, hhash⟩ := h.row key k (hkeys ▸ hk)
    exact ⟨call, secret, List.mem_append_left _ hmem, hhash⟩
  case minted =>
    intro call user key secret hmem
    rw [hkeys]
    exact h.minted call user key secret ((hold rfl).mp hmem)
  case revoked =>
    intro key k hk
    rw [h.revoked key k (hkeys ▸ hk)]
    exact exists_congr fun call => (hold rfl).symm
  case known =>
    intro call user key hmem
    rw [hkeys]
    exact h.known call user key ((hold rfl).mp hmem)
  case distinct =>
    rw [hkeys]
    exact h.distinct
  case enabled => exact henabled
  case secret => exact hsecret

theorem plain (h : db.Stored v log) (he : e.isPlain = true) : db.Stored v (log ++ [e]) := by
  refine h.of_keys (fun e' he' => ?_) rfl (fun id => ?_) fun id => ?_
  · cases List.mem_singleton.mp he'
    cases e <;> first | rfl | cases he
  · rw [h.enabled, enabledIn_append]
    cases e <;> first | rfl | cases he
  · rw [h.secret, secretIn_append]
    cases e <;> first | rfl | cases he

/-- A new key. -/
theorem mint {name : Option String} {draw : KeyDraw} (h : db.Stored v log) (call : ℕ)
    (hmint : mintKey v now db user name draw = .ok db') :
    db'.Stored v (log ++ [.minted call user draw.id draw.token]) := by
  obtain ⟨-, hid, hhash, k, rfl, hk, hrevoked, rfl⟩ := mintKey_eq_ok hmint
  have hne {key : Uuid} {k' : ApiKey} (hold : db.keys.lookup key = some k') : key ≠ draw.id :=
    fun heq => hid (heq ▸ Table.mem_of_lookup hold)
  constructor
  case row =>
    intro key k' hk'
    rcases Table.lookup_insert_eq_some.mp hk' with ⟨rfl, rfl⟩ | ⟨-, hold⟩
    · exact ⟨call, draw.token, List.mem_append_right _ (List.mem_singleton_self _), hk⟩
    · obtain ⟨call', secret, hmem, hsecret⟩ := h.row key k' hold
      exact ⟨call', secret, List.mem_append_left _ hmem, hsecret⟩
  case minted =>
    intro call' user key secret hmem
    rcases List.mem_append.mp hmem with hold | hnew
    · obtain ⟨hvalid, k', hk', hrow⟩ := h.minted call' user key secret hold
      exact ⟨hvalid, k', (AList.lookup_insert_ne (hne hk')).trans hk', hrow⟩
    · cases List.mem_singleton.mp hnew
      have hvalid : validBearer draw.token = true :=
        validBearer_token draw.secret (by decide) (by decide)
      exact ⟨hvalid, k, AList.lookup_insert _, rfl, hk⟩
  case revoked =>
    intro key k' hk'
    have hold : (∃ call', .revoked call' k'.userId key ∈
        log ++ [AccountEvent.minted call k.userId draw.id draw.token]) ↔
          ∃ call', .revoked call' k'.userId key ∈ log := by simp
    rw [hold]
    rcases Table.lookup_insert_eq_some.mp hk' with ⟨rfl, rfl⟩ | ⟨-, hk'⟩
    · rw [hrevoked]
      exact iff_of_false (by simp) fun hmem => hid (h.known _ _ _ hmem.choose_spec)
    · exact h.revoked key k' hk'
  case known =>
    intro call' user key hmem
    refine (AList.mem_insert _).mpr (Or.inr (h.known call' user key ?_))
    simpa using hmem
  case distinct =>
    intro key key' k₁ k₂ h₁ h₂ hsame
    rcases Table.lookup_insert_eq_some.mp h₁ with ⟨rfl, rfl⟩ | ⟨-, h₁⟩
    · rcases Table.lookup_insert_eq_some.mp h₂ with ⟨rfl, rfl⟩ | ⟨-, h₂⟩
      · rfl
      · exact absurd (hsame.symm.trans hk) (hhash key' k₂ h₂)
    · rcases Table.lookup_insert_eq_some.mp h₂ with ⟨rfl, rfl⟩ | ⟨-, h₂⟩
      · exact absurd (hsame.trans hk) (hhash key k₁ h₁)
      · exact h.distinct key key' k₁ k₂ h₁ h₂ hsame
  case enabled =>
    intro id
    rw [enabledIn_append]
    exact h.enabled id
  case secret =>
    intro id
    rw [secretIn_append]
    exact h.secret id

/-- A new user, with its secret. -/
theorem create {account : Account} {secret : String} (h : db.Stored v log) (call : ℕ)
    (hid : id ∉ db.users) (henabled : account.enabled = true)
    (hsecret : decrypt v id account.webhookSecretEncrypted = .ok secret) :
    AccountTables.Stored v (log ++ [.created call id, .rotated call id secret])
      { db with users := db.users.insert id account } := by
  refine h.of_keys (fun e he => ?_) rfl (fun user => ?_) fun user => ?_
  · simp only [List.mem_cons, List.not_mem_nil, or_false] at he
    rcases he with rfl | rfl <;> rfl
  · rw [List.append_cons, enabledIn_append, enabledIn_append, ← h.enabled]
    rcases eq_or_ne user id with rfl | hne
    · simp [AccountEvent.enables, henabled]
    · simp [AccountEvent.enables, AList.lookup_insert_ne hne, hne.symm]
  · rw [List.append_cons, secretIn_append, secretIn_append]
    rcases eq_or_ne user id with rfl | hne
    · simp [AccountEvent.secret, hsecret]
    · simp [AccountEvent.secret, AList.lookup_insert_ne hne, hne.symm, h.secret]

/-- The row of a user changes. -/
theorem of_modify {f : Account → Account} (h : db.Stored v log) (he : e.ofKey = false)
    (hother : ∀ user, user ≠ id → e.enables user = none ∧ e.secret user = none)
    (henabled : ∀ a, db.users.lookup id = some a →
      some (f a).enabled = (e.enables id).or (some a.enabled))
    (hsecret : ∀ a, db.users.lookup id = some a →
      decrypt v id (f a).webhookSecretEncrypted =
        ((e.secret id).map .ok).getD (decrypt v id a.webhookSecretEncrypted))
    (hid : id ∈ db.users) :
    AccountTables.Stored v (log ++ [e]) { db with users := db.users.modify id f } := by
  obtain ⟨a, ha⟩ := Option.isSome_iff_exists.mp (AList.lookup_isSome.mpr hid)
  refine h.of_keys (fun e' he' => ?_) rfl (fun user => ?_) fun user => ?_
  · rwa [List.mem_singleton.mp he']
  · rw [enabledIn_append]
    rcases eq_or_ne user id with rfl | hne
    · have hold := h.enabled user
      rw [ha] at hold
      rw [Table.lookup_modify, ha, ← hold]
      exact henabled a ha
    · rw [Table.lookup_modify_of_ne hne, h.enabled, (hother user hne).1, Option.none_or]
  · rw [secretIn_append]
    rcases eq_or_ne user id with rfl | hne
    · have hold := h.secret user
      rw [ha] at hold
      rw [Table.lookup_modify, ha]
      refine (congrArg some (hsecret a ha)).trans ?_
      cases hs : e.secret user with
      | none => exact hold
      | some secret => rfl
    · rw [Table.lookup_modify_of_ne hne, h.secret, (hother user hne).2, Option.none_or]

/-- The settings of a user change. -/
theorem change {f : Account → Account} {enabled : Option Bool} (h : db.Stored v log)
    (hid : id ∈ db.users) (hf : ∀ a, (f a).enabled = enabled.getD a.enabled ∧
      (f a).webhookSecretEncrypted = a.webhookSecretEncrypted) :
    AccountTables.Stored v (log ++ [.changed call id enabled])
      { db with users := db.users.modify id f } := by
  refine h.of_modify rfl (fun user hne => ⟨if_neg hne.symm, rfl⟩) (fun a _ => ?_)
    (fun a _ => ?_) hid
  · rw [(hf a).1, AccountEvent.enables, if_pos rfl]
    cases enabled <;> rfl
  · rw [(hf a).2]
    rfl

/-- A user gets a new secret. -/
theorem rotate {f : Account → Account} {secret : String} (h : db.Stored v log)
    (hid : id ∈ db.users) (hf : ∀ a, (f a).enabled = a.enabled ∧
      decrypt v id (f a).webhookSecretEncrypted = .ok secret) :
    AccountTables.Stored v (log ++ [.rotated call id secret])
      { db with users := db.users.modify id f } := by
  refine h.of_modify rfl (fun user hne => ⟨rfl, if_neg hne.symm⟩) (fun a _ => ?_)
    (fun a _ => ?_) hid
  · rw [(hf a).1]
    rfl
  · rw [(hf a).2, AccountEvent.secret, if_pos rfl]
    rfl

/-- A key is revoked. -/
theorem revoke {k : ApiKey} (h : db.Stored v log) (hk : db.keys.lookup key = some k)
    (huser : k.userId = user) :
    AccountTables.Stored v (log ++ [.revoked call user key])
      { db with keys := db.keys.modify key fun k => k.revoke now } := by
  have hsame {key' : Uuid} {k' : ApiKey}
      (hk' : (db.keys.modify key fun k => k.revoke now).lookup key' = some k') :
      ∃ k₀, db.keys.lookup key' = some k₀ ∧ k₀.userId = k'.userId ∧ k₀.keyHash = k'.keyHash ∧
        (if key' = key then k'.revokedAt.isSome = true else k₀ = k') := by
    rcases eq_or_ne key' key with rfl | hne
    · rw [Table.lookup_modify, hk] at hk'
      obtain rfl := Option.some.inj hk'
      exact ⟨k, hk, rfl, rfl, by simp [ApiKey.revoke]⟩
    · rw [Table.lookup_modify_of_ne hne] at hk'
      exact ⟨k', hk', rfl, rfl, by simp [hne]⟩
  constructor
  case row =>
    intro key' k' hk'
    obtain ⟨k₀, hold, hid, hhash, -⟩ := hsame hk'
    obtain ⟨call', secret, hmem, hsecret⟩ := h.row key' k₀ hold
    exact ⟨call', secret, List.mem_append_left _ (hid ▸ hmem), hhash ▸ hsecret⟩
  case minted =>
    intro call' user' key' secret hmem
    have hmem' : .minted call' user' key' secret ∈ log := by simpa using hmem
    obtain ⟨hvalid, k', hk', hid, hhash⟩ := h.minted call' user' key' secret hmem'
    refine ⟨hvalid, ?_⟩
    rcases eq_or_ne key' key with rfl | hne
    · refine ⟨k'.revoke now, ?_, hid, hhash⟩
      rw [Table.lookup_modify, hk', Option.map_some]
    · exact ⟨k', (Table.lookup_modify_of_ne hne _ _).trans hk', hid, hhash⟩
  case revoked =>
    intro key' k' hk'
    obtain ⟨k₀, hold, hid, -, hrow⟩ := hsame hk'
    split_ifs at hrow with hkey
    · subst hkey
      obtain rfl := Option.some.inj (hold.symm.trans hk)
      refine iff_of_true hrow ⟨call, ?_⟩
      rw [← hid, huser]
      exact List.mem_append_right _ (List.mem_singleton_self _)
    · subst hrow
      rw [h.revoked key' k₀ hold]
      simp [hkey]
  case known =>
    intro call' user' key' hmem
    rw [Table.mem_modify]
    rcases List.mem_append.mp hmem with hold | hnew
    · exact h.known call' user' key' hold
    · cases List.mem_singleton.mp hnew
      exact Table.mem_of_lookup hk
  case distinct =>
    intro key₁ key₂ k₁ k₂ h₁ h₂ hhash
    obtain ⟨k₁', h₁', -, hhash₁, -⟩ := hsame h₁
    obtain ⟨k₂', h₂', -, hhash₂, -⟩ := hsame h₂
    exact h.distinct key₁ key₂ k₁' k₂' h₁' h₂' (hhash₁.trans (hhash.trans hhash₂.symm))
  case enabled =>
    intro id
    rw [enabledIn_append]
    exact h.enabled id
  case secret =>
    intro id
    rw [secretIn_append]
    exact h.secret id

end AccountTables.Stored

/-! ### What requests go back to -/

/-- A request of the administrator was admitted. -/
def AdmittedAdmin (log : List AccountEvent) (call : ℕ) : Prop :=
  ∃ authorization, .admitted call authorization ∈ log

/-- A request was admitted for a user. -/
def AdmittedUser (log : List AccountEvent) (call : ℕ) (user : Uuid) : Prop :=
  ∃ authorization, .admittedUser call user authorization ∈ log

theorem AdmittedAdmin.append (h : AdmittedAdmin log call) : AdmittedAdmin (log ++ es) call :=
  h.imp fun _ => List.mem_append_left es

theorem AdmittedUser.append (h : AdmittedUser log call user) :
    AdmittedUser (log ++ es) call user :=
  h.imp fun _ => List.mem_append_left es

/-- What an event goes back to: the administrator is admitted with its own key, and a user with one
that can be used; only the administrator creates users, hands out and revokes keys, and enables or
disables users; and whatever else changes or is told of a user, was asked for by the administrator
or by this user. -/
def AccountEvent.Lawful (v : Vault) (before : List AccountEvent) : AccountEvent → Prop
  | admitted _ authorization => authorization = authorizationOf v.adminKey
  | admittedUser _ user authorization =>
    ∃ key secret, authorization = authorizationOf secret ∧ Usable before user key secret
  | created call _ | minted call _ _ _ | revoked call _ _ => AdmittedAdmin before call
  | changed call user enabled =>
    AdmittedAdmin before call ∨ enabled = none ∧ AdmittedUser before call user
  | rotated call user _ => .created call user ∈ before ∨ AdmittedUser before call user
  | told call view => AdmittedAdmin before call ∨ AdmittedUser before call view.id
  | refused _ | failed _ _ => True

/-- A request that is being served was admitted. -/
def Serving.Admitted (log : List AccountEvent) (db : AccountTables) (call : ℕ) : Serving → Prop
  | .admin _ _ => AdmittedAdmin log call
  | .user id _ => AdmittedUser log call id ∧ id ∈ db.users

/-- What a statement does with tables that agree with the log: they agree with it again, it removes
no user, and what it does was asked for. -/
structure Does (v : Vault) (log : List AccountEvent) (db : AccountTables)
    (r : AccountTables × List AccountEvent) : Prop where
  stored : r.1.Stored v (log ++ r.2)
  users : ∀ id, id ∈ db.users → id ∈ r.1.users
  lawful : System.Along (AccountEvent.Lawful v) log r.2

theorem Does.plain (h : db.Stored v log) (he : e.isPlain = true) (hlawful : e.Lawful v log) :
    Does v log db (db, [e]) :=
  ⟨h.plain he, fun _ hid => hid, System.along_singleton hlawful⟩

theorem AccountTables.read_eq_ok {view : UserView} (h : db.read id = .ok view) : view.id = id := by
  rw [AccountTables.read] at h
  split at h
  · rw [← Except.ok.inj h]
  · cases h

/-- The requests of the administrator. -/
theorem does_admin {c : AdminCall} {r : AccountTables × List AccountEvent}
    (h : db.Stored v log) (hcall : AdmittedAdmin log call) (hr : c.run v now db call = .ok r) :
    Does v log db r := by
  cases c with
  | create id input key secret =>
    obtain ⟨db', hdb', heq⟩ := bind_eq_ok.mp hr
    obtain rfl := Except.ok.inj heq
    obtain ⟨hid, account, henabled, -, hsecret, hmint⟩ := createAccount_eq_ok hdb'
    refine ⟨?_, fun user huser => ?_, hcall, .inl (by simp), hcall.append.append, trivial⟩
    · have hminted := (h.create call hid henabled hsecret).mint call hmint
      rwa [List.append_assoc] at hminted
    · obtain ⟨-, -, -, k, -, -, -, rfl⟩ := mintKey_eq_ok hmint
      exact (AList.mem_insert _).mpr (Or.inr huser)
  | get user =>
    obtain ⟨view, -, heq⟩ := bind_eq_ok.mp hr
    obtain rfl := Except.ok.inj heq
    exact .plain h rfl (.inl hcall)
  | update user input =>
    obtain ⟨db', hdb', heq⟩ := bind_eq_ok.mp hr
    obtain rfl := Except.ok.inj heq
    obtain ⟨hid, callback, version, f, -, hf, rfl⟩ := patchUser_eq_ok hdb'
    refine ⟨h.change hid fun a => ?_, fun id hid => Table.mem_modify.mpr hid, .inl hcall, trivial⟩
    exact ⟨congrArg User.enabled (hf a).1, (hf a).2⟩
  | issueKey user name key =>
    obtain ⟨name, -, hr⟩ := bind_eq_ok.mp hr
    obtain ⟨db', hdb', heq⟩ := bind_eq_ok.mp hr
    obtain rfl := Except.ok.inj heq
    refine ⟨h.mint call hdb', fun id hid => ?_, hcall, trivial⟩
    obtain ⟨-, -, -, k, -, -, -, rfl⟩ := mintKey_eq_ok hdb'
    exact hid
  | revokeKey user key =>
    obtain ⟨db', hdb', heq⟩ := bind_eq_ok.mp hr
    obtain rfl := Except.ok.inj heq
    obtain ⟨k, hk, huser, rfl⟩ := revokeKey_eq_ok hdb'
    exact ⟨h.revoke hk huser, fun id hid => hid, hcall, trivial⟩

/-- The requests of a user. -/
theorem does_user {c : UserCall} {r : AccountTables × List AccountEvent}
    (h : db.Stored v log) (hcall : AdmittedUser log call id) (hid : id ∈ db.users)
    (hr : c.run v now db call id = .ok r) : Does v log db r := by
  cases c with
  | me =>
    obtain ⟨view, hview, heq⟩ := bind_eq_ok.mp hr
    obtain rfl := Except.ok.inj heq
    refine .plain h rfl (.inr ?_)
    rwa [AccountTables.read_eq_ok hview]
  | updateMe input =>
    obtain ⟨db', hdb', heq⟩ := bind_eq_ok.mp hr
    obtain rfl := Except.ok.inj heq
    obtain ⟨hid, callback, version, f, -, hf, rfl⟩ := patchUser_eq_ok hdb'
    refine ⟨h.change hid fun a => ?_, fun id hid => Table.mem_modify.mpr hid, .inr ⟨rfl, hcall⟩,
      trivial⟩
    exact ⟨(congrArg User.enabled (hf a).1).trans rfl, (hf a).2⟩
  | rotateSecret draw =>
    obtain ⟨db', hdb', heq⟩ := bind_eq_ok.mp hr
    obtain rfl := Except.ok.inj heq
    obtain ⟨f, hf, rfl⟩ := rotateSecret_eq_ok hdb'
    refine ⟨h.rotate hid fun a => ?_, fun id hid => Table.mem_modify.mpr hid, .inr hcall, trivial⟩
    exact ⟨congrArg User.enabled (hf a).1, (hf a).2.2⟩

/-! ### Which rows change -/

/-- The rows of users and keys change only as events tell: each that is new was created or handed
out, each whose settings differ was changed, and so on. -/
structure AccountTables.Recorded (es : List AccountEvent) (db db' : AccountTables) : Prop where
  created : ∀ id, id ∈ db'.users → id ∈ db.users ∨ ∃ call, .created call id ∈ es
  settings : Table.ChangedOnly (fun a => (a.name, a.callbackUrl, a.webhookPayloadVersion))
    (fun id => ∃ call enabled, .changed call id enabled ∈ es) db.users db'.users
  enabled : Table.ChangedOnly (fun a => a.enabled)
    (fun id => ∃ call enabled, .changed call id (some enabled) ∈ es) db.users db'.users
  secret : Table.ChangedOnly (fun a => a.webhookSecretEncrypted)
    (fun id => ∃ call secret, .rotated call id secret ∈ es) db.users db'.users
  minted : ∀ key, key ∈ db'.keys →
    key ∈ db.keys ∨ ∃ call user secret, .minted call user key secret ∈ es
  revoked : Table.ChangedOnly (fun k => k) (fun key => ∃ call user, .revoked call user key ∈ es)
    db.keys db'.keys

namespace AccountTables.Recorded

theorem refl (es : List AccountEvent) (db : AccountTables) : db.Recorded es db where
  created _ h := .inl h
  settings := .refl _ _ _
  enabled := .refl _ _ _
  secret := .refl _ _ _
  minted _ h := .inl h
  revoked := .refl _ _ _

theorem mono {es' : List AccountEvent} (h : db.Recorded es db') (hes : es ⊆ es') :
    db.Recorded es' db' where
  created id hid := (h.created id hid).imp_right (Exists.imp fun _ he => hes he)
  settings := h.settings.mono fun _ => Exists.imp fun _ => Exists.imp fun _ he => hes he
  enabled := h.enabled.mono fun _ => Exists.imp fun _ => Exists.imp fun _ he => hes he
  secret := h.secret.mono fun _ => Exists.imp fun _ => Exists.imp fun _ he => hes he
  minted key hkey := (h.minted key hkey).imp_right
    (Exists.imp fun _ => Exists.imp fun _ => Exists.imp fun _ he => hes he)
  revoked := h.revoked.mono fun _ => Exists.imp fun _ => Exists.imp fun _ he => hes he

theorem trans {db'' : AccountTables} (h : db.Recorded es db') (h' : db'.Recorded es db'') :
    db.Recorded es db'' where
  created id hid := (h'.created id hid).elim (h.created id) .inr
  settings := h.settings.trans h'.settings
  enabled := h.enabled.trans h'.enabled
  secret := h.secret.trans h'.secret
  minted key hkey := (h'.minted key hkey).elim (h.minted key) .inr
  revoked := h.revoked.trans h'.revoked

/-- A new user. -/
theorem insert_user {a : Account} (hid : id ∉ db.users) (he : .created call id ∈ es) :
    db.Recorded es { db with users := db.users.insert id a } where
  created user huser := by
    rcases (AList.mem_insert _).mp huser with rfl | hold
    · exact Or.inr ⟨call, he⟩
    · exact Or.inl hold
  settings := Table.changedOnly_insert hid
  enabled := Table.changedOnly_insert hid
  secret := Table.changedOnly_insert hid
  minted _ h := .inl h
  revoked := .refl _ _ _

/-- The row of a user changes. -/
theorem modify_user {f : Account → Account}
    (hsettings : (∀ a, ((f a).name, (f a).callbackUrl, (f a).webhookPayloadVersion) =
      (a.name, a.callbackUrl, a.webhookPayloadVersion)) ∨
        ∃ call enabled, .changed call id enabled ∈ es)
    (henabled : (∀ a, (f a).enabled = a.enabled) ∨
      ∃ call enabled, .changed call id (some enabled) ∈ es)
    (hsecret : (∀ a, (f a).webhookSecretEncrypted = a.webhookSecretEncrypted) ∨
      ∃ call secret, .rotated call id secret ∈ es) :
    db.Recorded es { db with users := db.users.modify id f } where
  created _ h := .inl (Table.mem_modify.mp h)
  settings := Table.changedOnly_modify hsettings
  enabled := Table.changedOnly_modify henabled
  secret := Table.changedOnly_modify hsecret
  minted _ h := .inl h
  revoked := .refl _ _ _

/-- A new key. -/
theorem mint {name : Option String} {draw : KeyDraw}
    (hmint : mintKey v now db user name draw = .ok db')
    (he : .minted call user draw.id draw.token ∈ es) : db.Recorded es db' := by
  obtain ⟨-, hkey, -, k, -, -, -, rfl⟩ := mintKey_eq_ok hmint
  refine ⟨fun _ h => .inl h, .refl _ _ _, .refl _ _ _, .refl _ _ _, fun key h => ?_,
    Table.changedOnly_insert hkey⟩
  rcases (AList.mem_insert _).mp h with rfl | hold
  · exact Or.inr ⟨call, user, _, he⟩
  · exact Or.inl hold

/-- New settings. -/
theorem patch {input : UpdateUser} (hpatch : patchUser v now db id input = .ok db')
    (he : .changed call id input.enabled ∈ es) : db.Recorded es db' := by
  obtain ⟨hid, callback, version, f, -, hf, rfl⟩ := patchUser_eq_ok hpatch
  refine .modify_user (.inr ⟨call, _, he⟩) ?_ (.inl fun a => (hf a).2)
  cases henabled : input.enabled with
  | none =>
    refine Or.inl fun a => ?_
    rw [(hf a).1, henabled, Option.getD_none]
  | some enabled => exact Or.inr ⟨call, enabled, henabled ▸ he⟩

/-- The requests of the administrator. -/
theorem of_admin {c : AdminCall} {r : AccountTables × List AccountEvent}
    (hr : c.run v now db call = .ok r) : db.Recorded r.2 r.1 := by
  cases c with
  | create id input key secret =>
    obtain ⟨db', hdb', heq⟩ := bind_eq_ok.mp hr
    obtain rfl := Except.ok.inj heq
    obtain ⟨hid, account, -, -, -, hmint⟩ := createAccount_eq_ok hdb'
    exact (insert_user hid (.head _)).trans (.mint hmint (.tail _ (.tail _ (.head _))))
  | get user =>
    obtain ⟨view, -, heq⟩ := bind_eq_ok.mp hr
    obtain rfl := Except.ok.inj heq
    exact .refl _ db
  | update user input =>
    obtain ⟨db', hdb', heq⟩ := bind_eq_ok.mp hr
    obtain rfl := Except.ok.inj heq
    exact .patch hdb' (List.mem_singleton_self _)
  | issueKey user name key =>
    obtain ⟨name, -, hr⟩ := bind_eq_ok.mp hr
    obtain ⟨db', hdb', heq⟩ := bind_eq_ok.mp hr
    obtain rfl := Except.ok.inj heq
    exact .mint hdb' (List.mem_singleton_self _)
  | revokeKey user key =>
    obtain ⟨db', hdb', heq⟩ := bind_eq_ok.mp hr
    obtain rfl := Except.ok.inj heq
    obtain ⟨k, -, -, rfl⟩ := revokeKey_eq_ok hdb'
    exact ⟨fun _ h => .inl h, .refl _ _ _, .refl _ _ _, .refl _ _ _,
      fun _ h => .inl (Table.mem_modify.mp h),
      Table.changedOnly_modify (.inr ⟨call, user, List.mem_singleton_self _⟩)⟩

/-- The requests of a user. -/
theorem of_user {c : UserCall} {r : AccountTables × List AccountEvent}
    (hr : c.run v now db call id = .ok r) : db.Recorded r.2 r.1 := by
  cases c with
  | me =>
    obtain ⟨view, -, heq⟩ := bind_eq_ok.mp hr
    obtain rfl := Except.ok.inj heq
    exact .refl _ db
  | updateMe input =>
    obtain ⟨db', hdb', heq⟩ := bind_eq_ok.mp hr
    obtain rfl := Except.ok.inj heq
    exact .patch hdb' (List.mem_singleton_self _)
  | rotateSecret draw =>
    obtain ⟨db', hdb', heq⟩ := bind_eq_ok.mp hr
    obtain rfl := Except.ok.inj heq
    obtain ⟨f, hf, rfl⟩ := rotateSecret_eq_ok hdb'
    refine .modify_user (.inl fun a => ?_) (.inl fun a => congrArg User.enabled (hf a).1)
      (.inr ⟨call, _, List.mem_singleton_self _⟩)
    have huser := (hf a).1
    rw [(hf a).2.1, congrArg User.callbackUrl huser, congrArg User.webhookPayloadVersion huser]

/-- A request is answered. -/
theorem of_answer {s : Accounts} {result : Except GatewayError (AccountTables × List AccountEvent)}
    (h : ∀ r, result = .ok r → s.database.Recorded r.2 r.1) :
    s.database.Recorded (s.answer call result).2 (s.answer call result).1.database := by
  cases result with
  | ok r => exact h r rfl
  | error e => exact .refl _ _

/-- A request is served. -/
theorem of_proceed (v : Vault) (s : Accounts) (call : ℕ) (x : Serving) :
    s.database.Recorded (s.proceed v call x).2 (s.proceed v call x).1.database := by
  cases x with
  | admin c read =>
    have hrun : s.database.Recorded (s.answer call (c.run v s.clock s.database call)).2
        (s.answer call (c.run v s.clock s.database call)).1.database :=
      of_answer fun r hr => of_admin hr
    cases c with
    | issueKey user name key =>
      cases read with
      | true => exact hrun
      | false =>
        rw [Accounts.proceed]
        split
        · exact .refl _ _
        · exact .refl _ _
    | create | get | update | revokeKey => exact hrun
  | user id c => exact of_answer fun r hr => of_user hr

/-- Every step. -/
theorem of_step {s s' : Accounts} {a : AccountAction} (hstep : s.step v a = some (s', es)) :
    s.database.Recorded es s'.database := by
  cases a with
  | tick n | drop call =>
    obtain ⟨rfl, rfl⟩ := Prod.mk.inj (Option.some.inj hstep)
    exact .refl _ _
  | request request authorization =>
    have hsame : (s.authorize v request authorization).1.database = s.database := by
      cases request <;> (rw [Accounts.authorize]; split <;> rfl)
    rw [Option.some.inj hstep] at hsame
    exact hsame ▸ .refl _ _
  | proceed call =>
    obtain ⟨x, -, heq⟩ := Option.map_eq_some_iff.mp hstep
    have hproceed := of_proceed v s call x
    rwa [heq] at hproceed

/-- Any number of steps. -/
theorem of_path {s s' : Accounts} (h : (accountSystem v).Path s es s') :
    s.database.Recorded es s'.database := by
  induction h with
  | refl => exact .refl _ _
  | tail _ hstep ih =>
    have hnew := of_step hstep
    exact (ih.mono (List.subset_append_left _ _)).trans (hnew.mono (List.subset_append_right _ _))

end AccountTables.Recorded

/-! ### Admission -/

/-- A request is admitted for a user when it shows a key of this user that can be used. -/
theorem userAuth_eq_ok_iff (hsha : Function.Injective v.sha256) (h : db.Stored v log)
    {authorization : Option (List UInt8)} : userAuth v db authorization = .ok user ↔
      ∃ key secret, authorization = some (authorizationOf secret) ∧ Usable log user key secret := by
  rw [userAuth, bind_eq_ok]
  constructor
  · rintro ⟨provided, hprovided, hfound⟩
    split at hfound
    · next key k hk =>
      obtain rfl := Except.ok.inj hfound
      obtain ⟨hrow, hcond⟩ := Table.mem_select_iff.mp (List.mem_of_head? hk)
      simp only [Bool.and_eq_true, decide_eq_true_eq] at hcond
      obtain ⟨⟨hhash, hunrevoked⟩, henabled⟩ := hcond
      obtain ⟨call, secret, hminted, hsecret⟩ := h.row key k hrow
      obtain rfl : secret = provided := hsha (hsecret.symm.trans hhash)
      refine ⟨key, secret, (bearer_eq_ok_iff.mp hprovided).1, ⟨call, hminted⟩,
        fun call' hmem => ?_, ?_⟩
      · have hrevoked := (h.revoked key k hrow).mpr ⟨call', hmem⟩
        rw [Option.isNone_iff_eq_none.mp hunrevoked] at hrevoked
        cases hrevoked
      · obtain ⟨a, ha, hon⟩ := (Option.any_eq_true _ _).mp henabled
        rw [← h.enabled, ha, Option.map_some, hon]
    · cases hfound
  · rintro ⟨key, secret, rfl, ⟨call, hminted⟩, hunrevoked, henabled⟩
    obtain ⟨hvalid, k, hrow, rfl, hhash⟩ := h.minted call user key secret hminted
    refine ⟨secret, bearer_eq_ok_iff.mpr ⟨rfl, hvalid⟩, ?_⟩
    have hnone : k.revokedAt.isNone = true := by
      rw [← Option.not_isSome, Bool.not_eq_true', Bool.eq_false_iff]
      intro hsome
      obtain ⟨call', hmem⟩ := (h.revoked key k hrow).mp hsome
      exact hunrevoked call' hmem
    obtain ⟨a, ha, hon⟩ := Option.map_eq_some_iff.mp ((h.enabled k.userId).trans henabled)
    have hmem : (key, k) ∈ db.keys.select fun _ k => k.keyHash = v.sha256 secret &&
        k.revokedAt.isNone && (db.users.lookup k.userId).any fun a => a.enabled := by
      rw [Table.mem_select_iff]
      simp [hrow, hhash, hnone, ha, hon]
    split
    · next key' k' hk' =>
      obtain ⟨hrow', hcond⟩ := Table.mem_select_iff.mp (List.mem_of_head? hk')
      simp only [Bool.and_eq_true, decide_eq_true_eq] at hcond
      obtain rfl := h.distinct key' key k' k hrow' hrow (hcond.1.1.trans hhash.symm)
      obtain rfl := Option.some.inj (hrow'.symm.trans hrow)
      rfl
    · next hnil =>
      rw [List.head?_eq_none_iff.mp hnil] at hmem
      cases hmem

/-- The administrator is admitted with its own key. -/
theorem adminAuth_eq_ok (hsha : Function.Injective v.sha256) {authorization : Option (List UInt8)}
    (h : adminAuth v authorization = .ok ()) :
    authorization = some (authorizationOf v.adminKey) := by
  obtain ⟨provided, hprovided, h⟩ := bind_eq_ok.mp h
  split_ifs at h with hsame
  rw [(bearer_eq_ok_iff.mp hprovided).1, hsha hsame]

/-! ### Every step -/

/-- The tables agree with what has happened, and what is being served was admitted. -/
structure Accounts.Sound (v : Vault) (log : List AccountEvent) (s : Accounts) : Prop where
  stored : s.database.Stored v log
  serving : ∀ call x, s.serving.lookup call = some x → x.Admitted log s.database call

theorem Serving.Admitted.mono {x : Serving} (h : x.Admitted log db call)
    (husers : ∀ id, id ∈ db.users → id ∈ db'.users) : x.Admitted (log ++ es) db' call := by
  cases x with
  | admin c read => exact AdmittedAdmin.append h
  | user id c => exact ⟨h.1.append, husers id h.2⟩

namespace Accounts.Sound

variable {s s' : Accounts}

theorem init : Accounts.init.Sound v [] := ⟨.init, fun _ _ h => by simp [Accounts.init] at h⟩

/-- A step after which the requests that are served were served before, but for one. -/
theorem advance (h : s.Sound v log) (hstored : s'.database.Stored v (log ++ es))
    (husers : ∀ id, id ∈ s.database.users → id ∈ s'.database.users)
    (hserving : ∀ c x, s'.serving.lookup c = some x →
      x.Admitted (log ++ es) s'.database c ∨ s.serving.lookup c = some x) :
    s'.Sound v (log ++ es) :=
  ⟨hstored, fun c x hx => (hserving c x hx).elim id fun hold => (h.serving c x hold).mono husers⟩

/-- A request is no longer served. -/
theorem lookup_erase {c : ℕ} {x : Serving} (hx : (s.serving.erase call).lookup c = some x) :
    s.serving.lookup c = some x := by
  rcases eq_or_ne c call with rfl | hne
  · simp at hx
  · exact (AList.lookup_erase_ne hne).symm.trans hx

/-- A request is answered. -/
theorem answer {result : Except GatewayError (AccountTables × List AccountEvent)}
    (h : s.Sound v log) (hdoes : ∀ r, result = .ok r → Does v log s.database r) :
    (s.answer call result).1.Sound v (log ++ (s.answer call result).2) ∧
      System.Along (AccountEvent.Lawful v) log (s.answer call result).2 := by
  cases result with
  | ok r =>
    have hr := hdoes r rfl
    exact ⟨h.advance hr.stored hr.users fun c x hx => .inr (lookup_erase hx), hr.lawful⟩
  | error e =>
    exact ⟨h.advance (h.stored.plain rfl) (fun _ hid => hid) fun c x hx => .inr (lookup_erase hx),
      System.along_singleton trivial⟩

/-- A request is admitted. -/
theorem enter {e : AccountEvent} {x : Serving} (h : s.Sound v log) (he : e.isPlain = true)
    (hx : x.Admitted (log ++ [e]) s.database call) :
    Accounts.Sound v (log ++ [e])
      { s with serving := s.serving.insert call x, next := call + 1 } := by
  refine h.advance (h.stored.plain he) (fun _ hid => hid) fun c y hy => ?_
  rcases Table.lookup_insert_eq_some.mp hy with ⟨rfl, rfl⟩ | ⟨-, hold⟩
  · exact Or.inl hx
  · exact Or.inr hold

/-- A request arrives. -/
theorem authorize (hsha : Function.Injective v.sha256) (h : s.Sound v log)
    (request : AccountRequest) (authorization : Option (List UInt8)) :
    (s.authorize v request authorization).1.Sound v
        (log ++ (s.authorize v request authorization).2) ∧
      System.Along (AccountEvent.Lawful v) log (s.authorize v request authorization).2 := by
  have hrefused (e : GatewayError) : s.Sound v (log ++ [.refused e]) ∧
      System.Along (AccountEvent.Lawful v) log [.refused e] :=
    ⟨h.advance (h.stored.plain rfl) (fun _ hid => hid) fun _ _ hx => .inr hx,
      System.along_singleton trivial⟩
  cases request with
  | admin c =>
    rw [Accounts.authorize]
    split
    · next hauth =>
      rw [adminAuth_eq_ok hsha hauth]
      exact ⟨h.enter rfl ⟨_, List.mem_append_right _ (List.mem_singleton_self _)⟩,
        System.along_singleton rfl⟩
    · next e _ => exact hrefused e
  | user c =>
    rw [Accounts.authorize]
    split
    · next id hauth =>
      obtain ⟨key, secret, rfl, husable⟩ := (userAuth_eq_ok_iff hsha h.stored).mp hauth
      have hid : id ∈ s.database.users := by
        obtain ⟨a, ha, -⟩ := Option.map_eq_some_iff.mp ((h.stored.enabled id).trans husable.enabled)
        exact Table.mem_of_lookup ha
      exact ⟨h.enter rfl ⟨⟨_, List.mem_append_right _ (List.mem_singleton_self _)⟩, hid⟩,
        System.along_singleton ⟨key, secret, rfl, husable⟩⟩
    · next e _ => exact hrefused e

/-- A request is served. -/
theorem proceed {x : Serving} (h : s.Sound v log) (hx : s.serving.lookup call = some x) :
    (s.proceed v call x).1.Sound v (log ++ (s.proceed v call x).2) ∧
      System.Along (AccountEvent.Lawful v) log (s.proceed v call x).2 := by
  have hadmitted := h.serving call x hx
  cases x with
  | admin c read =>
    have hrun : (s.answer call (c.run v s.clock s.database call)).1.Sound v
        (log ++ (s.answer call (c.run v s.clock s.database call)).2) ∧
          System.Along (AccountEvent.Lawful v) log
            (s.answer call (c.run v s.clock s.database call)).2 :=
      h.answer fun r hr => does_admin h.stored hadmitted hr
    cases c with
    | issueKey user name key =>
      cases read with
      | true => exact hrun
      | false =>
        rw [Accounts.proceed]
        split
        · rw [List.append_nil]
          refine ⟨⟨h.stored, fun c x hc => ?_⟩, trivial⟩
          rcases Table.lookup_insert_eq_some.mp hc with ⟨rfl, rfl⟩ | ⟨-, hold⟩
          · exact hadmitted
          · exact h.serving c x hold
        · exact h.answer fun r hr => by cases hr
    | create | get | update | revokeKey => exact hrun
  | user id c => exact h.answer fun r hr => does_user h.stored hadmitted.1 hadmitted.2 hr

/-- Whatever happens, the tables agree with it, and it goes back to what was admitted. -/
theorem step {a : AccountAction} (hsha : Function.Injective v.sha256) (h : s.Sound v log)
    (hstep : s.step v a = some (s', es)) :
    s'.Sound v (log ++ es) ∧ System.Along (AccountEvent.Lawful v) log es := by
  cases a with
  | tick n =>
    obtain ⟨rfl, rfl⟩ := Prod.mk.inj (Option.some.inj hstep)
    rw [List.append_nil]
    exact ⟨⟨h.stored, h.serving⟩, trivial⟩
  | request request authorization =>
    have hadmit := h.authorize hsha request authorization
    rwa [Option.some.inj hstep] at hadmit
  | proceed call =>
    obtain ⟨x, hx, heq⟩ := Option.map_eq_some_iff.mp hstep
    have hproceed := h.proceed hx
    rwa [heq] at hproceed
  | drop call =>
    obtain ⟨rfl, rfl⟩ := Prod.mk.inj (Option.some.inj hstep)
    rw [List.append_nil]
    exact ⟨⟨h.stored, fun c x hx => h.serving c x (lookup_erase hx)⟩, trivial⟩

end Accounts.Sound

section Runs

variable {s : Accounts}

theorem Accounts.Sound.of_run (hsha : Function.Injective v.sha256)
    (hrun : (accountSystem v).Run log s) : s.Sound v log := by
  refine hrun.invariant (I := fun log s => Accounts.Sound v log s) ?_
    fun _ ih hstep => (ih.step hsha hstep).1
  rintro _ rfl
  exact .init

/-- **Who is admitted.** However requests interleave, a request is admitted for a user exactly when
it shows, as it was handed out, a key of this user that was not revoked since, and the user is
enabled. No two keys are the same. -/
theorem keys_authenticate (hsha : Function.Injective v.sha256)
    (hrun : (accountSystem v).Run log s) :
    (∀ authorization user, userAuth v s.database authorization = .ok user ↔
      ∃ key secret, authorization = some (authorizationOf secret) ∧ Usable log user key secret) ∧
    ∀ call call' user user' key key' secret, .minted call user key secret ∈ log →
      .minted call' user' key' secret ∈ log → user = user' ∧ key = key' := by
  have hstored := (Accounts.Sound.of_run hsha hrun).stored
  refine ⟨fun authorization user => userAuth_eq_ok_iff hsha hstored,
    fun call call' user user' key key' secret hmem hmem' => ?_⟩
  obtain ⟨-, k, hk, rfl, hhash⟩ := hstored.minted call user key secret hmem
  obtain ⟨-, k', hk', rfl, hhash'⟩ := hstored.minted call' user' key' secret hmem'
  obtain rfl := hstored.distinct key key' k k' hk hk' (hhash.trans hhash'.symm)
  obtain rfl := Option.some.inj (hk.symm.trans hk')
  exact ⟨rfl, rfl⟩

/-- **What changes go back to.** In every run, the administrator is admitted only with its own key,
and users with keys that can be used at that moment; and whatever is done for a request, by then or
later, is what the one who was admitted with it may do. No row of a user or a key is ever lost, and
none is added, or changed in what the calls set, unless this is among what was done. -/
theorem changes_admitted (hsha : Function.Injective v.sha256)
    (hrun : (accountSystem v).Run log s) :
    (∀ before after e, log = before ++ e :: after → e.Lawful v before) ∧
    ∀ es s', (accountSystem v).Path s es s' → s.database.Recorded es s'.database := by
  refine ⟨fun before after e hlog => ?_, fun es s' hpath => .of_path hpath⟩
  exact hrun.along (fun hrun' hstep => ((Accounts.Sound.of_run hsha hrun').step hsha hstep).2) hlog

/-- **The secret of a user.** However rotations interleave, the secret with which the deliveries of
a user are signed can be decrypted, and is the one that was stored last. -/
theorem secret_current (hsha : Function.Injective v.sha256) (hrun : (accountSystem v).Run log s)
    (user : Uuid) : (s.database.users.lookup user).map
      (fun a => decrypt v user a.webhookSecretEncrypted) = (secretIn user log).map .ok :=
  (Accounts.Sound.of_run hsha hrun).stored.secret user

end Runs

/-- Digests that are the texts themselves, and encryption that appends a tag. -/
def plainVault : Vault where
  sha256 text := text
  aesEncrypt _ _ text := some (text.utf8 ++ List.replicate 16 0)
  aesDecrypt _ _ bytes := some (bytes.take (bytes.length - 16))
  parseUrl _ := none
  adminKey := "0123456789abcdef0123456789abcdef"
  aesDecrypt_encrypt nonce data text bytes h := by
    obtain rfl := Option.some.inj h
    simp

def someKey : KeyDraw := ⟨.numbered 2, Vector.replicate 32 1⟩

def someSecret : SecretDraw := ⟨Vector.replicate 32 2, Vector.replicate 12 3⟩

/-- What happens when a user is created and shows its key. -/
def createdLog : List AccountEvent :=
  [.admitted 0 (authorizationOf plainVault.adminKey), .created 0 (.numbered 1),
    .rotated 0 (.numbered 1) someSecret.token, .minted 0 (.numbered 1) someKey.id someKey.token,
    .admittedUser 1 (.numbered 1) (authorizationOf someKey.token)]

/-- A user is created and shows its key. -/
def createdActions : List AccountAction :=
  [.request (.admin (.create (.numbered 1) ⟨"a", "", none⟩ someKey someSecret))
    (some (authorizationOf plainVault.adminKey)), .proceed 0,
    .request (.user .me) (some (authorizationOf someKey.token))]

theorem run_createdLog : ∃ s, (accountSystem plainVault).Run createdLog s := by
  have hexec : ∃ s, (accountSystem plainVault).exec .init createdActions = some (s, createdLog) :=
    ⟨_, rfl⟩
  obtain ⟨s, hexec⟩ := hexec
  exact ⟨s, _, rfl, .of_exec hexec⟩

/-- A user that was created is admitted with its key. -/
theorem keys_authenticate_created :
    ∃ s, (accountSystem plainVault).Run createdLog s ∧
      userAuth plainVault s.database (some (authorizationOf someKey.token)) =
        .ok (.numbered 1) := by
  obtain ⟨s, hrun⟩ := run_createdLog
  exact ⟨s, hrun, ((keys_authenticate Function.injective_id hrun).1 _ _).mpr
    ⟨someKey.id, someKey.token, rfl, ⟨0, by simp [createdLog]⟩, by simp [createdLog], by decide⟩⟩

/-- The key that this user has shown can be used, and when its name changes later, this was asked
for. -/
theorem changes_admitted_created :
    ∃ s s' es, (accountSystem plainVault).Run createdLog s ∧
      (accountSystem plainVault).Path s es s' ∧
      (s.database.users.lookup (.numbered 1)).map Account.name = some "a" ∧
      (s'.database.users.lookup (.numbered 1)).map Account.name = some "b" ∧
      (∃ key secret, authorizationOf someKey.token = authorizationOf secret ∧
        Usable (createdLog.take 4) (.numbered 1) key secret) ∧
      ∃ call enabled, .changed call (.numbered 1) enabled ∈ es := by
  have hexec : ∃ s s' es, (accountSystem plainVault).exec .init createdActions =
      some (s, createdLog) ∧
      (accountSystem plainVault).exec s
        [.request (.user (.updateMe ⟨some "b", none, none⟩))
          (some (authorizationOf someKey.token)), .proceed 2] = some (s', es) ∧
      (s.database.users.lookup (.numbered 1)).map Account.name = some "a" ∧
      (s'.database.users.lookup (.numbered 1)).map Account.name = some "b" :=
    ⟨_, _, _, rfl, rfl, rfl, rfl⟩
  obtain ⟨s, s', es, hexec, hexec', ha, hb⟩ := hexec
  have hrun : (accountSystem plainVault).Run createdLog s := ⟨_, rfl, .of_exec hexec⟩
  have hpath := System.Path.of_exec hexec'
  have hlog : createdLog = createdLog.take 4 ++
      .admittedUser 1 (.numbered 1) (authorizationOf someKey.token) :: [] := rfl
  obtain ⟨hlawful, hrecorded⟩ := changes_admitted Function.injective_id hrun
  refine ⟨s, s', es, hrun, hpath, ha, hb, hlawful _ _ _ hlog, ?_⟩
  obtain ⟨a, hlookup, hname⟩ := Option.map_eq_some_iff.mp ha
  obtain ⟨a', hlookup', hsame | hchanged⟩ := (hrecorded es s' hpath).settings _ a hlookup
  · have hkept : a'.name = a.name := congrArg Prod.fst hsame
    rw [hlookup', Option.map_some, hkept, hname] at hb
    exact absurd (Option.some.inj hb) (by decide)
  · exact hchanged

/-- The secret of this user is the one that it was handed out. -/
theorem secret_current_created :
    ∃ s, (accountSystem plainVault).Run createdLog s ∧
      (s.database.users.lookup (.numbered 1)).map
        (fun a => decrypt plainVault (.numbered 1) a.webhookSecretEncrypted) =
          some (.ok someSecret.token) := by
  obtain ⟨s, hrun⟩ := run_createdLog
  exact ⟨s, hrun, secret_current Function.injective_id hrun (.numbered 1)⟩

end ExecutionProvider.Gateway
