import ExecutionProvider.Core.Text
import ExecutionProvider.Foundation.Runs
import ExecutionProvider.Foundation.Utf8
import ExecutionProvider.Gateway.Machines

/-!
# Users and their keys

An administrator creates users, enables and disables them, and issues and revokes their keys. A user
shows a key with every request, and may change settings of its own. The gateway stores only digests
of the keys, and encrypts the secrets with which it signs deliveries. A request is admitted by one
statement and served by others, so that the database may have changed in between.

## Main definitions

* `bearer`, `adminAuth`, `userAuth`: how a request is admitted.
* `encrypt`, `decrypt`: how secrets are stored.
* `createAccount`, `patchUser`, `rotateSecret`, `mintKey`, `revokeKey`: the statements of the calls.
* `accountSystem`: any number of requests that are served at the same time.

## Main results

* `bearer_eq_ok_iff`: what a request has to show.
* `decrypt_encrypt`: secrets are read as they were stored.
* `settings_createAccount`, `settings_patchUser`: the users as the jobs see them.
-/

namespace ExecutionProvider.Gateway

/-! ### Tokens -/

/-- A digit of base 64, in the alphabet for URLs. -/
def base64Digit (n : ℕ) : Char :=
  if n < 26 then Char.ofNat (n + 65)
  else if n < 52 then Char.ofNat (n + 71)
  else if n < 62 then Char.ofNat (n - 4)
  else if n = 62 then '-' else '_'

/-- Bytes in base 64, without padding. -/
def base64 : List UInt8 → List Char
  | a :: b :: c :: rest =>
    let n := a.toNat * 65536 + b.toNat * 256 + c.toNat
    base64Digit (n / 262144) :: base64Digit (n / 4096 % 64) :: base64Digit (n / 64 % 64) ::
      base64Digit (n % 64) :: base64 rest
  | [a, b] =>
    let n := a.toNat * 1024 + b.toNat * 4
    [base64Digit (n / 4096), base64Digit (n / 64 % 64), base64Digit (n % 64)]
  | [a] => [base64Digit (a.toNat * 16 / 64), base64Digit (a.toNat * 16 % 64)]
  | [] => []

/-- A token, of bytes that were drawn at random. -/
def token (start : String) (bytes : Vector UInt8 32) : String :=
  start ++ String.ofList (base64 bytes.toList)

/-- Whether a text can be a credential. -/
def validBearer (s : String) : Bool :=
  s ≠ "" && s.utf8ByteSize ≤ 8192 && s.toList.all fun c => 33 ≤ c.toNat && c.toNat ≤ 126

/-- The text of a header. -/
def headerText (value : List UInt8) : Option String :=
  if value.all fun b => b = 9 || 32 ≤ b && b < 127 then
    some (String.ofList (value.map fun b => Char.ofNat b.toNat))
  else none

/-- The credential that a request shows. -/
def bearer (authorization : Option (List UInt8)) : Except GatewayError String :=
  match ((authorization.bind headerText).bind (stripPrefix "Bearer ")).filter validBearer with
  | some credential => .ok credential
  | none => .error .unauthorized

/-- The header that shows a credential. -/
def authorizationOf (credential : String) : List UInt8 := ("Bearer " ++ credential).utf8

/-- The text of one-byte characters. -/
theorem utf8_of_ascii {s : String} (h : ∀ c ∈ s.toList, c.toNat < 128) :
    s.utf8 = s.toList.map fun c => UInt8.ofNat c.toNat := by
  have hall (cs : List Char) (hcs : ∀ c ∈ cs, c.toNat < 128) :
      cs.flatMap String.utf8EncodeChar = cs.map fun c => UInt8.ofNat c.toNat := by
    induction cs with
    | nil => rfl
    | cons c cs ih =>
      obtain ⟨hc, hrest⟩ := List.forall_mem_cons.mp hcs
      rw [List.flatMap_cons, String.utf8EncodeChar_of_lt hc, ih hrest]
      rfl
  exact hall s.toList h

theorem toNat_ofNat {n : ℕ} (hn : n < 128) : (Char.ofNat n).toNat = n := by
  revert n
  decide

theorem validBearer_iff {s : String} : validBearer s = true ↔
    s ≠ "" ∧ s.utf8ByteSize ≤ 8192 ∧ ∀ c ∈ s.toList, 33 ≤ c.toNat ∧ c.toNat ≤ 126 := by
  simp [validBearer, and_assoc]

/-- The bytes of a text with only printed characters and blanks are read as this text. -/
theorem headerText_eq_some_iff {value : List UInt8} {s : String} : headerText value = some s ↔
    value = s.utf8 ∧ ∀ c ∈ s.toList, c.toNat = 9 ∨ 32 ≤ c.toNat ∧ c.toNat < 127 := by
  have hbyte {b : UInt8} : (b = 9 || 32 ≤ b && b < 127) = true ↔
      b.toNat = 9 ∨ 32 ≤ b.toNat ∧ b.toNat < 127 := by
    simp [← UInt8.toNat_inj, UInt8.le_iff_toNat_le, UInt8.lt_iff_toNat_lt]
  rw [headerText]
  constructor
  · intro h
    split_ifs at h with hall
    obtain rfl := Option.some.inj h
    have hchars : ∀ c ∈ (String.ofList (value.map fun b => Char.ofNat b.toNat)).toList,
        c.toNat = 9 ∨ 32 ≤ c.toNat ∧ c.toNat < 127 := by
      intro c hc
      rw [String.toList_ofList] at hc
      obtain ⟨b, hb, rfl⟩ := List.mem_map.mp hc
      have hrange := hbyte.mp (List.all_eq_true.mp hall b hb)
      rwa [toNat_ofNat (by omega)]
    refine ⟨?_, hchars⟩
    rw [utf8_of_ascii fun c hc => by have := hchars c hc; omega, String.toList_ofList, List.map_map]
    have hsame : ∀ b ∈ value, UInt8.ofNat (Char.ofNat b.toNat).toNat = b := by
      intro b hb
      have hrange := hbyte.mp (List.all_eq_true.mp hall b hb)
      rw [toNat_ofNat (by omega), UInt8.ofNat_toNat]
    exact (List.map_congr_left hsame).trans (List.map_id value) |>.symm
  · rintro ⟨rfl, hchars⟩
    have hascii : ∀ c ∈ s.toList, c.toNat < 128 := fun c hc => by have := hchars c hc; omega
    have hnat : ∀ c ∈ s.toList, (UInt8.ofNat c.toNat).toNat = c.toNat := fun c hc => by
      rw [UInt8.toNat_ofNat', Nat.mod_eq_of_lt (by have := hascii c hc; omega)]
    have hsame : ∀ c ∈ s.toList, Char.ofNat (UInt8.ofNat c.toNat).toNat = c := fun c hc => by
      rw [hnat c hc, Char.ofNat_toNat]
    rw [utf8_of_ascii hascii, if_pos, List.map_map]
    · exact congrArg some ((congrArg String.ofList
        ((List.map_congr_left hsame).trans (List.map_id _))).trans (String.ofList_toList))
    · refine List.all_eq_true.mpr fun b hb => ?_
      obtain ⟨c, hc, rfl⟩ := List.mem_map.mp hb
      rw [hbyte, hnat c hc]
      exact hchars c hc

/-- What a request has to show. -/
theorem bearer_eq_ok_iff {authorization : Option (List UInt8)} {credential : String} :
    bearer authorization = .ok credential ↔
      authorization = some (authorizationOf credential) ∧ validBearer credential = true := by
  have hok : bearer authorization = .ok credential ↔
      ((authorization.bind headerText).bind (stripPrefix "Bearer ")).filter validBearer =
        some credential := by
    rw [bearer]
    split
    · next t ht => simp [ht]
    · next ht => simp [ht]
  rw [hok, Option.filter_eq_some_iff, Option.bind_eq_some_iff]
  refine and_congr_left fun hvalid => ⟨?_, ?_⟩
  · rintro ⟨text, htext, hstrip⟩
    obtain ⟨value, rfl, hvalue⟩ := Option.bind_eq_some_iff.mp htext
    obtain rfl := stripPrefix_eq_some.mp hstrip
    rw [authorizationOf, ← (headerText_eq_some_iff.mp hvalue).1]
  · rintro rfl
    refine ⟨"Bearer " ++ credential, headerText_eq_some_iff.mpr ⟨rfl, fun c hc => ?_⟩,
      stripPrefix_append _ _⟩
    rw [String.toList_append, List.mem_append] at hc
    rcases hc with hc | hc
    · have hprinted : "Bearer ".toList.all (fun c => 32 ≤ c.toNat && c.toNat < 127) = true := rfl
      exact Or.inr (by simpa using List.all_eq_true.mp hprinted c hc)
    · have hrange := (validBearer_iff.mp hvalid).2.2 c hc
      omega

/-- The digits of base 64 are printed. -/
theorem base64Digit_range {n : ℕ} (hn : n < 64) :
    33 ≤ (base64Digit n).toNat ∧ (base64Digit n).toNat ≤ 126 := by
  revert n
  decide

theorem base64_range (bytes : List UInt8) :
    ∀ c ∈ base64 bytes, 33 ≤ c.toNat ∧ c.toNat ≤ 126 := by
  induction bytes using base64.induct with
  | case1 a b c rest ih =>
    have ha := a.toNat_lt
    have hb := b.toNat_lt
    have hc := c.toNat_lt
    rw [base64]
    intro d hd
    simp only [List.mem_cons] at hd
    rcases hd with rfl | rfl | rfl | rfl | hd
    · exact base64Digit_range (by omega)
    · exact base64Digit_range (by omega)
    · exact base64Digit_range (by omega)
    · exact base64Digit_range (by omega)
    · exact ih d hd
  | case2 a b =>
    have ha := a.toNat_lt
    have hb := b.toNat_lt
    rw [base64]
    intro d hd
    simp only [List.mem_cons, List.not_mem_nil, or_false] at hd
    rcases hd with rfl | rfl | rfl <;> exact base64Digit_range (by omega)
  | case3 a =>
    have ha := a.toNat_lt
    rw [base64]
    intro d hd
    simp only [List.mem_cons, List.not_mem_nil, or_false] at hd
    rcases hd with rfl | rfl <;> exact base64Digit_range (by omega)
  | case4 => simp [base64]

theorem length_base64_le (bytes : List UInt8) : (base64 bytes).length ≤ 2 * bytes.length := by
  induction bytes using base64.induct with
  | case1 a b c rest ih =>
    rw [base64]
    simp only [List.length_cons]
    omega
  | case2 | case3 | case4 => simp [base64]

/-- The tokens that the gateway hands out can be shown. -/
theorem validBearer_token {start : String} (bytes : Vector UInt8 32)
    (hstart : validBearer start = true) (hsize : start.utf8ByteSize ≤ 64) :
    validBearer (token start bytes) = true := by
  obtain ⟨hne, -, hchars⟩ := validBearer_iff.mp hstart
  have hdigits := base64_range bytes.toList
  have hlength := length_base64_le bytes.toList
  have hsame : (String.ofList (base64 bytes.toList)).utf8ByteSize =
      (base64 bytes.toList).length := by
    rw [← String.length_utf8, utf8_of_ascii, List.length_map, String.toList_ofList]
    intro c hc
    rw [String.toList_ofList] at hc
    have := hdigits c hc
    omega
  rw [token, validBearer_iff]
  refine ⟨?_, ?_, fun c hc => ?_⟩
  · intro h
    have hnil := congrArg String.toList h
    rw [String.toList_append, String.toList_empty, List.append_eq_nil_iff] at hnil
    exact hne (String.toList_inj.mp (hnil.1.trans String.toList_empty.symm))
  · rw [String.utf8ByteSize_append, hsame]
    simp at hlength
    omega
  · rw [String.toList_append, List.mem_append, String.toList_ofList] at hc
    exact hc.elim (hchars c) (hdigits c)

/-! ### Secrets -/

/-- A URL, as it was read. -/
structure Url where
  text : String
  scheme : String
  host : Option String
  username : String
  password : Option String
  fragment : Option String

/-- What the gateway takes from its libraries: the digest of a text, encryption and decryption of a
text under the key of the configuration, which check that text and data belong together, and the
reading of URLs; and the key of the administrator. -/
structure Vault where
  sha256 : String → String
  aesEncrypt : List UInt8 → String → String → Option (List UInt8)
  aesDecrypt : List UInt8 → String → List UInt8 → Option (List UInt8)
  parseUrl : String → Option Url
  adminKey : String
  aesDecrypt_encrypt : ∀ nonce data text bytes, aesEncrypt nonce data text = some bytes →
    aesDecrypt nonce data bytes = some text.utf8 ∧ 16 ≤ bytes.length

/-- What a secret of a user belongs to. -/
def secretOwner (owner : Uuid) : String := "user:" ++ owner.text ++ ":webhook"

variable (v : Vault)

/-- A secret of a user, encrypted. -/
def encrypt (nonce : Vector UInt8 12) (owner : Uuid) (secret : String) :
    Except GatewayError (List UInt8) :=
  match v.aesEncrypt nonce.toList (secretOwner owner) secret with
  | some bytes => .ok (1 :: (nonce.toList ++ bytes))
  | none => .error .internal

/-- The secret of a user. -/
def decrypt (owner : Uuid) (bytes : List UInt8) : Except GatewayError String :=
  if bytes.length < 29 ∨ bytes.head? ≠ some 1 then .error .internal
  else match (v.aesDecrypt (bytes.tail.take 12) (secretOwner owner) (bytes.drop 13)).bind
      String.ofUtf8? with
    | some secret => .ok secret
    | none => .error .internal

/-- A secret is read as it was stored. -/
theorem decrypt_encrypt {nonce : Vector UInt8 12} {owner : Uuid} {secret : String}
    {bytes : List UInt8} (h : encrypt v nonce owner secret = .ok bytes) :
    decrypt v owner bytes = .ok secret := by
  rw [encrypt] at h
  split at h
  · next sealed hsealed =>
    obtain rfl := Except.ok.inj h
    obtain ⟨hclear, hlength⟩ := v.aesDecrypt_encrypt _ _ _ _ hsealed
    have hnonce : nonce.toList.length = 12 := by simp
    have hlong : ¬((1 :: (nonce.toList ++ sealed)).length < 29 ∨
        (1 :: (nonce.toList ++ sealed)).head? ≠ some 1) := by
      simp only [List.length_cons, List.length_append, hnonce, List.head?_cons, ne_eq,
        not_true_eq_false, or_false, not_lt]
      omega
    rw [decrypt, if_neg hlong, List.tail_cons, List.take_left' hnonce, List.drop_succ_cons,
      List.drop_left' hnonce, hclear, Option.bind_some, String.ofUtf8?_utf8]
  · cases h

/-! ### Settings -/

/-- The name of a user or of a key. -/
def settingName (value : String) : Except GatewayError String :=
  if trim value = "" ∨ 200 < (trim value).length ∨ '\x00' ∈ (trim value).toList then
    .error (.invalid "name must contain 1 to 200 characters")
  else .ok (trim value)

/-- The URL to which deliveries are sent. -/
def callbackUrl (value : String) : Except GatewayError Url :=
  match v.parseUrl value with
  | none => .error (.invalid "invalid callbackUrl")
  | some url =>
    if 2048 < value.utf8ByteSize ∨ url.scheme ≠ "https" ∨ url.host = none ∨ url.username ≠ "" ∨
        url.password ≠ none ∨ url.fragment ≠ none then
      .error (.invalid "callbackUrl requires HTTPS without credentials or fragment")
    else .ok url

/-- The setting of this URL, which may be empty. -/
def callbackSetting (value : String) : Except GatewayError String :=
  if value = "" then .ok "" else (callbackUrl v value).map Url.text

/-! ### Rows -/

/-- The row of a user. -/
structure Account extends User where
  name : String
  webhookSecretEncrypted : List UInt8
  createdAt : ℕ
  updatedAt : ℕ

/-- The row of a key. -/
structure ApiKey where
  userId : Uuid
  name : Option String
  keyHash : String
  keyPrefix : String
  createdAt : ℕ
  revokedAt : Option ℕ

/-- A key is revoked, unless it was. -/
def ApiKey.revoke (k : ApiKey) (now : ℕ) : ApiKey :=
  { k with revokedAt := some (k.revokedAt.getD now) }

/-- The tables of users and keys. -/
structure AccountTables where
  users : Table Uuid Account
  keys : Table Uuid ApiKey

/-- What is told of a user. -/
structure UserView where
  id : Uuid
  settings : User
  name : String
  createdAt : ℕ
  updatedAt : ℕ

/-- The users that jobs and machines depend on. -/
def AccountTables.settings (db : AccountTables) : Table Uuid User :=
  db.users.filterMapRows fun _ a => some a.toUser

/-! ### Admission -/

/-- A request of the administrator is admitted. -/
def adminAuth (authorization : Option (List UInt8)) : Except GatewayError Unit := do
  let provided ← bearer authorization
  if v.sha256 provided = v.sha256 v.adminKey then return () else .error .unauthorized

/-- A request of a user is admitted. -/
def userAuth (db : AccountTables) (authorization : Option (List UInt8)) :
    Except GatewayError Uuid := do
  let provided ← bearer authorization
  match (db.keys.select fun _ k => k.keyHash = v.sha256 provided && k.revokedAt.isNone &&
      (db.users.lookup k.userId).any fun a => a.enabled).head? with
  | some (_, k) => return k.userId
  | none => .error .unauthorized

/-! ### Calls -/

/-- What is drawn for a new key. -/
structure KeyDraw where
  id : Uuid
  secret : Vector UInt8 32

/-- What is drawn for a new secret of a user. -/
structure SecretDraw where
  secret : Vector UInt8 32
  nonce : Vector UInt8 12

/-- A new user. -/
structure CreateUser where
  name : String
  callbackUrl : String
  webhookPayloadVersion : Option ℕ

/-- New settings of a user. -/
structure UpdateUser where
  name : Option String
  callbackUrl : Option String
  enabled : Option Bool
  webhookPayloadVersion : Option ℕ

/-- New settings that a user makes for itself. -/
structure UpdateMe where
  name : Option String
  callbackUrl : Option String
  webhookPayloadVersion : Option ℕ

/-- A key that is handed out. -/
def KeyDraw.token (draw : KeyDraw) : String := Gateway.token "egw_" draw.secret

/-- A secret that is handed out. -/
def SecretDraw.token (draw : SecretDraw) : String := Gateway.token "whsec_" draw.secret

section

variable (now : ℕ) (db : AccountTables)

/-- A new key of a user. Its digest is no other key's. -/
def mintKey (user : Uuid) (name : Option String) (draw : KeyDraw) :
    Except GatewayError AccountTables :=
  if user ∉ db.users ∨ draw.id ∈ db.keys ∨
      db.keys.entries.any fun e => e.2.keyHash = v.sha256 draw.token then .error .internal
  else .ok { db with
    keys := db.keys.insert draw.id
      { userId := user
        name := name
        keyHash := v.sha256 draw.token
        keyPrefix := String.ofList (draw.token.toList.take 12)
        createdAt := now
        revokedAt := none } }

/-- A user is created, with a key and a secret. -/
def createAccount (id : Uuid) (input : CreateUser) (key : KeyDraw) (secret : SecretDraw) :
    Except GatewayError AccountTables := do
  let name ← settingName input.name
  let callback ← callbackSetting v input.callbackUrl
  let version ← webhookPayloadVersion (input.webhookPayloadVersion.getD 2)
  let encrypted ← encrypt v secret.nonce id secret.token
  if id ∈ db.users then .error .internal
  else
    let account : Account :=
      { enabled := true
        callbackUrl := callback
        webhookPayloadVersion := version
        name := name
        webhookSecretEncrypted := encrypted
        createdAt := now
        updatedAt := now }
    mintKey v now { db with users := db.users.insert id account } id none key

/-- The settings of a user change. -/
def patchUser (id : Uuid) (input : UpdateUser) : Except GatewayError AccountTables := do
  if input.name.isNone ∧ input.callbackUrl.isNone ∧ input.enabled.isNone ∧
      input.webhookPayloadVersion.isNone then
    .error (.invalid "patch must contain a setting")
  else
    let name ← input.name.mapM settingName
    let callback ← input.callbackUrl.mapM (callbackSetting v)
    let version ← input.webhookPayloadVersion.mapM webhookPayloadVersion
    if id ∉ db.users then .error .missing
    else return { db with
      users := db.users.modify id fun a => { a with
        name := name.getD a.name
        callbackUrl := callback.getD a.callbackUrl
        enabled := input.enabled.getD a.enabled
        webhookPayloadVersion := version.getD a.webhookPayloadVersion
        updatedAt := now } }

/-- A user gets a new secret. -/
def rotateSecret (id : Uuid) (draw : SecretDraw) : Except GatewayError AccountTables := do
  let encrypted ← encrypt v draw.nonce id draw.token
  return { db with
    users := db.users.modify id fun a => { a with
      webhookSecretEncrypted := encrypted
      updatedAt := now } }

/-- A key of a user is revoked. -/
def revokeKey (user key : Uuid) : Except GatewayError AccountTables :=
  if (db.keys.lookup key).any fun k => k.userId = user then
    .ok { db with keys := db.keys.modify key fun k => k.revoke now }
  else .error .missing

end

/-- The requests of the administrator, with what is drawn for them. -/
inductive AdminCall
  | create (id : Uuid) (input : CreateUser) (key : KeyDraw) (secret : SecretDraw)
  | get (user : Uuid)
  | update (user : Uuid) (input : UpdateUser)
  | issueKey (user : Uuid) (name : Option String) (key : KeyDraw)
  | revokeKey (user key : Uuid)

/-- The requests of users about themselves. -/
inductive UserCall
  | me
  | updateMe (input : UpdateMe)
  | rotateSecret (draw : SecretDraw)

/-- A request, and whom it has to be admitted for. -/
inductive AccountRequest
  | admin (call : AdminCall)
  | user (call : UserCall)

/-- A request that was admitted. The user of a new key is read before the key is stored. -/
inductive Serving
  | admin (call : AdminCall) (read : Bool)
  | user (id : Uuid) (call : UserCall)

/-- What has happened. -/
inductive AccountEvent
  | admitted (call : ℕ) (authorization : List UInt8)
  | admittedUser (call : ℕ) (user : Uuid) (authorization : List UInt8)
  | refused (error : GatewayError)
  | created (call : ℕ) (user : Uuid)
  | minted (call : ℕ) (user key : Uuid) (secret : String)
  | changed (call : ℕ) (user : Uuid) (enabled : Option Bool)
  | rotated (call : ℕ) (user : Uuid) (secret : String)
  | revoked (call : ℕ) (user key : Uuid)
  | told (call : ℕ) (user : UserView)
  | failed (call : ℕ) (error : GatewayError)

/-- The users and their keys, and the requests that are being served. -/
structure Accounts where
  clock : ℕ
  database : AccountTables
  serving : Table ℕ Serving
  next : ℕ

/-- What happens: time passes, a request arrives, one is served further, or one is dropped. -/
inductive AccountAction
  | tick (n : ℕ)
  | request (request : AccountRequest) (authorization : Option (List UInt8))
  | proceed (call : ℕ)
  | drop (call : ℕ)

/-- A user is read. -/
def AccountTables.read (db : AccountTables) (id : Uuid) : Except GatewayError UserView :=
  match db.users.lookup id with
  | some a => .ok ⟨id, a.toUser, a.name, a.createdAt, a.updatedAt⟩
  | none => .error .missing

/-- The last statement of a request. -/
def AdminCall.run (now : ℕ) (db : AccountTables) (call : ℕ) :
    AdminCall → Except GatewayError (AccountTables × List AccountEvent)
  | create id input key secret => do
    let db' ← createAccount v now db id input key secret
    return (db', [.created call id, .rotated call id secret.token,
      .minted call id key.id key.token])
  | get user => do
    let view ← db.read user
    return (db, [.told call view])
  | update user input => do
    let db' ← patchUser v now db user input
    return (db', [.changed call user input.enabled])
  | issueKey user name key => do
    let name ← name.mapM settingName
    let db' ← mintKey v now db user name key
    return (db', [.minted call user key.id key.token])
  | revokeKey user key => do
    let db' ← Gateway.revokeKey now db user key
    return (db', [.revoked call user key])

/-- The statement of a request of a user. -/
def UserCall.run (now : ℕ) (db : AccountTables) (call : ℕ) (id : Uuid) :
    UserCall → Except GatewayError (AccountTables × List AccountEvent)
  | me => do
    let view ← db.read id
    return (db, [.told call view])
  | updateMe input => do
    let db' ← patchUser v now db id
      ⟨input.name, input.callbackUrl, none, input.webhookPayloadVersion⟩
    return (db', [.changed call id none])
  | rotateSecret draw => do
    let db' ← Gateway.rotateSecret v now db id draw
    return (db', [.rotated call id draw.token])

namespace Accounts

variable (s : Accounts)

/-- A new installation. -/
def init : Accounts := ⟨0, ⟨∅, ∅⟩, ∅, 0⟩

/-- A request arrives. -/
def authorize (request : AccountRequest) (authorization : Option (List UInt8)) :
    Accounts × List AccountEvent :=
  match request with
  | .admin call =>
    match adminAuth v authorization with
    | .ok () => ({ s with
        serving := s.serving.insert s.next (.admin call false)
        next := s.next + 1 }, [.admitted s.next (authorization.getD [])])
    | .error e => (s, [.refused e])
  | .user call =>
    match userAuth v s.database authorization with
    | .ok id => ({ s with
        serving := s.serving.insert s.next (.user id call)
        next := s.next + 1 }, [.admittedUser s.next id (authorization.getD [])])
    | .error e => (s, [.refused e])

/-- A request is answered. -/
def answer (call : ℕ) (result : Except GatewayError (AccountTables × List AccountEvent)) :
    Accounts × List AccountEvent :=
  match result with
  | .ok (db, es) => ({ s with database := db, serving := s.serving.erase call }, es)
  | .error e => ({ s with serving := s.serving.erase call }, [.failed call e])

/-- The next statement of a request. -/
def proceed (call : ℕ) : Serving → Accounts × List AccountEvent
  | .admin (.issueKey user name key) false =>
    match s.database.read user with
    | .ok _ =>
      ({ s with serving := s.serving.insert call (.admin (.issueKey user name key) true) }, [])
    | .error e => s.answer call (.error e)
  | .admin c _ => s.answer call (c.run v s.clock s.database call)
  | .user id c => s.answer call (c.run v s.clock s.database call id)

/-- A step. -/
def step : AccountAction → Option (Accounts × List AccountEvent)
  | .tick n => some ({ s with clock := s.clock + n }, [])
  | .request request authorization => some (s.authorize v request authorization)
  | .proceed call => (s.serving.lookup call).map (s.proceed v call)
  | .drop call => some ({ s with serving := s.serving.erase call }, [])

end Accounts

/-- The runs of any number of requests. -/
def accountSystem : System Accounts AccountAction AccountEvent where
  start s := s = .init
  step s := s.step v

/-! ### What the statements do -/

section

variable {v} {now : ℕ} {db db' : AccountTables} {id user key : Uuid}

theorem bind_eq_ok {α β : Type} {x : Except GatewayError α} {f : α → Except GatewayError β}
    {b : β} : (x >>= f) = .ok b ↔ ∃ a, x = .ok a ∧ f a = .ok b := by
  cases x with
  | error e => simp [bind, Except.bind]
  | ok a => simp [bind, Except.bind]

/-- A key is new, and so is its digest. -/
theorem mintKey_eq_ok {name : Option String} {draw : KeyDraw}
    (h : mintKey v now db user name draw = .ok db') : user ∈ db.users ∧ draw.id ∉ db.keys ∧
      (∀ key k, db.keys.lookup key = some k → k.keyHash ≠ v.sha256 draw.token) ∧
      ∃ k : ApiKey, k.userId = user ∧ k.keyHash = v.sha256 draw.token ∧ k.revokedAt = none ∧
        db' = { db with keys := db.keys.insert draw.id k } := by
  rw [mintKey] at h
  split_ifs at h with hcond
  rw [not_or, not_or, not_not] at hcond
  obtain ⟨huser, hid, hhash⟩ := hcond
  refine ⟨huser, hid, fun key k hk heq => hhash ?_, _, rfl, rfl, rfl, (Except.ok.inj h).symm⟩
  exact List.any_eq_true.mpr ⟨⟨key, k⟩, AList.mem_lookup_iff.mp hk, decide_eq_true heq⟩

/-- A new user is enabled and has the secret and the key that were drawn. -/
theorem createAccount_eq_ok {input : CreateUser} {draw : KeyDraw} {secret : SecretDraw}
    (h : createAccount v now db id input draw secret = .ok db') :
    id ∉ db.users ∧ ∃ account : Account, account.enabled = true ∧
      webhookPayloadVersion (input.webhookPayloadVersion.getD 2) =
        .ok account.webhookPayloadVersion ∧
      decrypt v id account.webhookSecretEncrypted = .ok secret.token ∧
      mintKey v now { db with users := db.users.insert id account } id none draw = .ok db' := by
  obtain ⟨name, -, h⟩ := bind_eq_ok.mp h
  obtain ⟨callback, -, h⟩ := bind_eq_ok.mp h
  obtain ⟨version, hversion, h⟩ := bind_eq_ok.mp h
  obtain ⟨encrypted, hencrypted, h⟩ := bind_eq_ok.mp h
  split_ifs at h with hid
  exact ⟨hid, _, rfl, hversion, decrypt_encrypt v hencrypted, h⟩

/-- New settings leave the secret of a user alone. -/
theorem patchUser_eq_ok {input : UpdateUser} (h : patchUser v now db id input = .ok db') :
    id ∈ db.users ∧ ∃ (callback : Option String) (version : Option ℕ) (f : Account → Account),
      input.webhookPayloadVersion.mapM webhookPayloadVersion = .ok version ∧
      (∀ a, (f a).toUser = ⟨input.enabled.getD a.enabled, callback.getD a.callbackUrl,
        version.getD a.webhookPayloadVersion⟩ ∧
        (f a).webhookSecretEncrypted = a.webhookSecretEncrypted) ∧
      db' = { db with users := db.users.modify id f } := by
  rw [patchUser] at h
  split at h
  · cases h
  obtain ⟨name, -, h⟩ := bind_eq_ok.mp h
  obtain ⟨callback, -, h⟩ := bind_eq_ok.mp h
  obtain ⟨version, hversion, h⟩ := bind_eq_ok.mp h
  split_ifs at h with hid
  refine ⟨hid, callback, version, _, hversion, fun a => ?_, (Except.ok.inj h).symm⟩
  exact ⟨rfl, rfl⟩

/-- A new secret leaves the settings of a user alone. -/
theorem rotateSecret_eq_ok {draw : SecretDraw} (h : rotateSecret v now db id draw = .ok db') :
    ∃ f : Account → Account, (∀ a, (f a).toUser = a.toUser ∧ (f a).name = a.name ∧
      decrypt v id (f a).webhookSecretEncrypted = .ok draw.token) ∧
      db' = { db with users := db.users.modify id f } := by
  obtain ⟨encrypted, hencrypted, h⟩ := bind_eq_ok.mp h
  refine ⟨_, fun a => ?_, (Except.ok.inj h).symm⟩
  exact ⟨rfl, rfl, decrypt_encrypt v hencrypted⟩

theorem revokeKey_eq_ok (h : revokeKey now db user key = .ok db') :
    ∃ k, db.keys.lookup key = some k ∧ k.userId = user ∧
      db' = { db with keys := db.keys.modify key fun k => k.revoke now } := by
  rw [revokeKey] at h
  split_ifs at h with hcond
  obtain ⟨k, hk, huser⟩ := (Option.any_eq_true _ _).mp hcond
  exact ⟨k, hk, of_decide_eq_true huser, (Except.ok.inj h).symm⟩

end

/-! ### The settings that jobs depend on -/

section

variable {v} {now : ℕ} {db db' : AccountTables} {d : Database} {id : Uuid}

theorem mem_settings : id ∈ db.settings ↔ id ∈ db.users := by
  rw [← AList.lookup_isSome, ← AList.lookup_isSome, AccountTables.settings,
    Table.lookup_filterMapRows]
  cases db.users.lookup id <;> rfl

/-- A user is created as the jobs see it. -/
theorem settings_createAccount {input : CreateUser} {draw : KeyDraw} {secret : SecretDraw}
    (hd : d.users = db.settings) (h : createAccount v now db id input draw secret = .ok db') :
    ∃ callback, createUser d id callback input.webhookPayloadVersion =
      .commit () { d with users := db'.settings } := by
  obtain ⟨hid, account, henabled, hversion, -, hmint⟩ := createAccount_eq_ok h
  obtain ⟨-, -, -, k, -, -, -, rfl⟩ := mintKey_eq_ok hmint
  have hsettings (keys : Table Uuid ApiKey) :
      AccountTables.settings ⟨db.users.insert id account, keys⟩ =
        db.settings.insert id account.toUser := by
    refine AList.ext ?_
    rw [AList.entries_insert_of_notMem (mem_settings.not.mpr hid)]
    have hentries := AList.entries_insert_of_notMem (b := account) hid
    exact congrArg (List.filterMap fun e => some (⟨e.1, e.2.toUser⟩ : Sigma fun _ => User)) hentries
  refine ⟨account.callbackUrl, ?_⟩
  rw [createUser, hversion]
  dsimp only
  rw [if_neg (hd ▸ mem_settings.not.mpr hid), hd, hsettings, ← henabled]

/-- The settings of a user change as the jobs see them. -/
theorem settings_patchUser {input : UpdateUser} (hd : d.users = db.settings)
    (h : patchUser v now db id input = .ok db') :
    ∃ callback, updateUser d id callback input.enabled input.webhookPayloadVersion =
      .commit () { d with users := db'.settings } := by
  obtain ⟨hid, callback, version, f, hversion, hf, rfl⟩ := patchUser_eq_ok h
  have hsettings : AccountTables.settings { db with users := db.users.modify id f } =
      db.settings.modify id fun u => ⟨input.enabled.getD u.enabled, callback.getD u.callbackUrl,
        version.getD u.webhookPayloadVersion⟩ := by
    refine AList.ext ?_
    simp only [AccountTables.settings, Table.modify, Table.mapRows, Table.filterMapRows,
      List.filterMap_map, List.map_filterMap]
    refine List.filterMap_congr fun e _ => ?_
    simp only [Function.comp_apply, Option.map_some, Option.some.injEq]
    split_ifs
    · rw [(hf e.2).1]
    · rfl
  refine ⟨callback, ?_⟩
  rw [updateUser, hversion]
  dsimp only
  rw [if_pos (hd ▸ mem_settings.mpr hid), hd, hsettings]

end

end ExecutionProvider.Gateway
