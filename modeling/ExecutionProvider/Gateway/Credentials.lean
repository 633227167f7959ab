import ExecutionProvider.Gateway.Enrollment
import ExecutionProvider.Gateway.Session

/-!
# Tokens and credentials

While a transaction holds the lock of its machine, nobody else writes the rows of this machine, so
what the transaction has read still holds when it commits. A machine has at most one token that
can be used, each token is used once, and the credential of a machine is the one that its last
registration has handed out. Every change of the credential raises its version, so a connection
that was upgraded with another credential fails the check of its version.

## Main definitions

* `Database.Void`, `Database.Single`: none or at most one token of a machine can be used.
* `Enrolling.Stage`: what a transaction has read and written, statement by statement.
* `Enrollment.Sound`: how the database, the open transactions and the connections agree with what
  has happened.

## Main results

* `stage_of_statement`: what every statement preserves.
* `Sound.step`, `Sound.of_run`: what every step preserves.
* `enrollment`: tokens and credentials, along every run.
-/

namespace ExecutionProvider.Gateway

variable {π : Type} {p : Platform π}

/-! ### Tokens of a machine -/

/-- No token of a machine can be used. -/
def Database.Void (db : Database) (machine : Uuid) : Prop :=
  ∀ id t, db.registrationTokens.lookup id = some t → t.machineId = machine → t.unused = false

/-- At most one token of a machine can be used. -/
def Database.Single (db : Database) (machine : Uuid) : Prop :=
  ∀ id id' t t', db.registrationTokens.lookup id = some t →
    db.registrationTokens.lookup id' = some t' → t.machineId = machine → t'.machineId = machine →
    t.unused = true → t'.unused = true → id = id'

/-- Two databases with the same rows of a machine. -/
structure Database.SameFor (machine : Uuid) (db db' : Database) : Prop where
  machines : db'.machines.lookup machine = db.machines.lookup machine
  tokens : ∀ id t, t.machineId = machine →
    (db'.registrationTokens.lookup id = some t ↔ db.registrationTokens.lookup id = some t)

section

variable {db db' : Database} {w : Writes} {machine id : Uuid} {now : ℕ}

theorem Database.Void.single (h : db.Void machine) : db.Single machine := by
  intro id id' t t' ht _ hm _ hunused _
  cases (h id t ht hm).symm.trans hunused

@[simp] theorem lookup_view_tokens :
    (w.view db machine).registrationTokens.lookup id =
      (w.tokens.lookup id).or (db.registrationTokens.lookup id) :=
  Table.lookup_union _ _ _

/-- What a statement that changes tokens leaves. -/
theorem lookup_update {which : RegistrationToken → Bool}
    {change : RegistrationToken → RegistrationToken} :
    ((w.update db machine which change).view db machine).registrationTokens.lookup id =
      ((w.view db machine).registrationTokens.lookup id).map fun t =>
        if which t then change t else t := by
  rw [lookup_view_tokens, Writes.update, Table.lookup_union, Table.lookup_filterMapRows]
  cases ht : (w.view db machine).registrationTokens.lookup id with
  | none =>
    rw [lookup_view_tokens] at ht
    simpa using ht
  | some t =>
    rw [lookup_view_tokens] at ht
    cases hw : which t with
    | true => simp [hw]
    | false => simp [hw, ht]

/-- The rows that a statement writes: those that it changes, and those written before. -/
theorem lookup_update_tokens {which : RegistrationToken → Bool}
    {change : RegistrationToken → RegistrationToken} {t : RegistrationToken}
    (h : (w.update db machine which change).tokens.lookup id = some t) :
    w.tokens.lookup id = some t ∨ ∃ t₀, (w.view db machine).registrationTokens.lookup id = some t₀ ∧
      which t₀ = true ∧ t = change t₀ := by
  rw [Writes.update, Table.lookup_union, Table.lookup_filterMapRows] at h
  rcases Option.or_eq_some_iff.mp h with h | ⟨-, h⟩
  · obtain ⟨t₀, ht₀, h⟩ := Option.bind_eq_some_iff.mp h
    split_ifs at h with hw
    exact Or.inr ⟨t₀, ht₀, hw, (Option.some.inj h).symm⟩
  · exact Or.inl h

/-- After a revocation no token of the machine can be used. -/
theorem void_revoke : ((w.revoke db machine now).view db machine).Void machine := by
  intro id t ht hm
  rw [Writes.revoke, lookup_update] at ht
  obtain ⟨t₀, -, rfl⟩ := Option.map_eq_some_iff.mp ht
  split_ifs at hm ⊢ with hcond
  · simp [RegistrationToken.unused]
  · by_contra hunused
    exact hcond (by simpa using ⟨hm, by simpa using hunused⟩)

/-- The tokens of a machine are seen alike over databases with the same rows of the machine. -/
theorem lookup_view_congr (h : Database.SameFor machine db db') {t : RegistrationToken}
    (hm : t.machineId = machine)
    (ht : (w.view db' machine).registrationTokens.lookup id = some t) :
    (w.view db machine).registrationTokens.lookup id = some t := by
  rw [lookup_view_tokens, Option.or_eq_some_iff] at ht ⊢
  exact ht.imp_right fun ht => ⟨ht.1, (h.tokens id t hm).mp ht.2⟩

theorem Database.Void.view_congr (h : (w.view db machine).Void machine)
    (hsame : Database.SameFor machine db db') : (w.view db' machine).Void machine :=
  fun id t ht hm => h id t (lookup_view_congr hsame hm ht) hm

theorem Database.Single.view_congr (h : (w.view db machine).Single machine)
    (hsame : Database.SameFor machine db db') : (w.view db' machine).Single machine :=
  fun id id' t t' ht ht' hm hm' => h id id' t t' (lookup_view_congr hsame hm ht)
    (lookup_view_congr hsame hm' ht') hm hm'

end

/-! ### Statements -/

/-- What a transaction that issues a token does to the row of its machine: it inserts the row, or
finds it. -/
inductive EnrollmentCall.Issues (db : Database) : EnrollmentCall → Option Machine → Prop
  | create {user machine tokenId : Uuid} {token : String}
      (hnew : db.machines.lookup machine = none) :
      Issues db (.create user machine tokenId token) (some ⟨user, true, none, none, 0, none⟩)
  | issueRegistration {user machine tokenId : Uuid} {token : String} {row : Machine}
      (hrow : db.machines.lookup machine = some row) (hopen : row.deletedAt = none) :
      Issues db (.issueRegistration user machine tokenId token) none

/-- A token was consumed by a transaction, and nobody else has used it. -/
structure Writes.Redeems (drawn : Table Uuid (Uuid × String)) (db : Database) (w : Writes)
    (machine : Uuid) (token : String) : Prop where
  spent : ∀ id t, w.tokens.lookup id = some t → t.unused = false
  token : ∃ id t₀ t, drawn.lookup id = some (machine, token) ∧
    db.registrationTokens.lookup id = some t₀ ∧ t₀.machineId = machine ∧ t₀.consumedAt = none ∧
    w.tokens.lookup id = some t ∧ t.consumedAt.isSome = true

section

variable (p)

/-- What a transaction has read and written before its next statement. -/
inductive Enrolling.Stage (drawn : Table Uuid (Uuid × String)) (db : Database) :
    EnrollmentCall → Statement → Writes → Prop
  | lock {call : EnrollmentCall} : Stage drawn db call .lock .empty
  | revoke {call : EnrollmentCall} {w : Writes} (hrow : call.Issues db w.machine)
      (ht : w.tokens = ∅) : Stage drawn db call .revoke w
  | insert {call : EnrollmentCall} {w : Writes} (hrow : call.Issues db w.machine)
      (hvoid : (w.view db call.machine).Void call.machine) : Stage drawn db call .insert w
  | issue {call : EnrollmentCall} {w : Writes} (hrow : call.Issues db w.machine)
      (hsingle : (w.view db call.machine).Single call.machine) : Stage drawn db call .commit w
  | owner {machine installation user : Uuid} {token credential : String} {enabled : Bool}
      {row : Machine} (hrow : db.machines.lookup machine = some row)
      (hopen : row.deletedAt = none) :
      Stage drawn db (.register machine token installation credential) (.owner user enabled) .empty
  | consume {machine installation : Uuid} {token credential : String} {row : Machine}
      (hrow : db.machines.lookup machine = some row) (hopen : row.deletedAt = none) :
      Stage drawn db (.register machine token installation credential) .consume .empty
  | consumed {machine installation : Uuid} {token credential : String} {row : Machine}
      {w : Writes} (hrow : db.machines.lookup machine = some row) (hopen : row.deletedAt = none)
      (hm : w.machine = none) (hredeems : w.Redeems drawn db machine token) :
      Stage drawn db (.register machine token installation credential) .write w
  | register {machine installation : Uuid} {token credential : String} {row : Machine}
      {w : Writes} (hrow : db.machines.lookup machine = some row) (hopen : row.deletedAt = none)
      (hm : w.machine = some { row with
        installationId := some installation
        credentialHash := some (p.sha256 credential)
        credentialVersion := row.credentialVersion + 1 })
      (hredeems : w.Redeems drawn db machine token) :
      Stage drawn db (.register machine token installation credential) .commit w
  | remove {user machine : Uuid} {row : Machine}
      (hrow : db.machines.lookup machine = some row) (hopen : row.deletedAt = none) :
      Stage drawn db (.remove user machine) .write .empty
  | removing {user machine : Uuid} {row : Machine} {now : ℕ} {w : Writes}
      (hrow : db.machines.lookup machine = some row) (hopen : row.deletedAt = none)
      (hm : w.machine = some { row with
        enabled := false
        deletedAt := some now
        credentialHash := none
        credentialVersion := row.credentialVersion + 1 }) (ht : w.tokens = ∅) :
      Stage drawn db (.remove user machine) .revoke w
  | removed {user machine : Uuid} {row : Machine} {now : ℕ} {w : Writes}
      (hrow : db.machines.lookup machine = some row) (hopen : row.deletedAt = none)
      (hm : w.machine = some { row with
        enabled := false
        deletedAt := some now
        credentialHash := none
        credentialVersion := row.credentialVersion + 1 })
      (hvoid : (w.view db machine).Void machine) : Stage drawn db (.remove user machine) .commit w
  | gone {user machine : Uuid} {row : Machine} (hrow : db.machines.lookup machine = some row)
      (hdeleted : row.deletedAt.isSome = true) :
      Stage drawn db (.remove user machine) .commit .empty

/-- The tokens that a transaction has written are of its machine, and were drawn for it. They are
new, or could be used before. -/
def Writes.Own (drawn : Table Uuid (Uuid × String)) (db : Database) (machine : Uuid)
    (w : Writes) : Prop :=
  ∀ id t, w.tokens.lookup id = some t → t.machineId = machine ∧
    (∃ token, drawn.lookup id = some (machine, token) ∧ t.tokenHash = p.sha256 token) ∧
    ∀ t₀, db.registrationTokens.lookup id = some t₀ → t₀.unused = true

/-- The tokens of a database were drawn for their machines. -/
def Database.Drawn (drawn : Table Uuid (Uuid × String)) (db : Database) : Prop :=
  ∀ id t, db.registrationTokens.lookup id = some t →
    ∃ token, drawn.lookup id = some (t.machineId, token) ∧ t.tokenHash = p.sha256 token

/-- An open transaction in its surroundings. -/
structure Enrolling.Sound (drawn : Table Uuid (Uuid × String)) (db : Database) (e : Enrolling) :
    Prop where
  draws : ∀ id token, e.call.draws = some (id, token) →
    drawn.lookup id = some (e.call.machine, token)
  own : e.writes.Own p drawn db e.call.machine
  stage : Enrolling.Stage p drawn db e.call e.next e.writes

end

section

variable {drawn drawn' : Table Uuid (Uuid × String)} {db db' : Database} {w : Writes}
  {machine id : Uuid} {now : ℕ} {call : EnrollmentCall} {e e' : Enrolling}

theorem Enrolling.Sound.init {started : ℕ}
    (hdraws : ∀ id token, call.draws = some (id, token) →
      drawn.lookup id = some (call.machine, token)) :
    (Enrolling.init started call).Sound p drawn db :=
  ⟨hdraws, fun _ _ ht => (nomatch ht), .lock⟩

/-- A statement that changes tokens of the machine keeps the writes of its own. -/
theorem Writes.Own.update {which : RegistrationToken → Bool}
    {change : RegistrationToken → RegistrationToken} (h : w.Own p drawn db machine)
    (hdb : db.Drawn p drawn)
    (hwhich : ∀ t, which t = true → t.machineId = machine ∧ t.unused = true)
    (hchange : ∀ t, (change t).machineId = t.machineId ∧ (change t).tokenHash = t.tokenHash) :
    (w.update db machine which change).Own p drawn db machine := by
  intro id t ht
  rcases lookup_update_tokens ht with ht | ⟨t₀, ht₀, hw, rfl⟩
  · exact h id t ht
  · obtain ⟨hm, hunused⟩ := hwhich t₀ hw
    rw [(hchange t₀).1, (hchange t₀).2]
    rw [lookup_view_tokens] at ht₀
    rcases Option.or_eq_some_iff.mp ht₀ with ht₀ | ⟨-, ht₀⟩
    · exact h id t₀ ht₀
    · refine ⟨hm, hm ▸ hdb id t₀ ht₀, fun t₁ ht₁ => ?_⟩
      rwa [Option.some.inj (ht₁.symm.trans ht₀)]

theorem Writes.Own.revoke (h : w.Own p drawn db machine) (hdb : db.Drawn p drawn) :
    (w.revoke db machine now).Own p drawn db machine :=
  h.update hdb (fun t ht => by simpa using ht) fun t => ⟨rfl, rfl⟩

/-- The first statement of a transaction. -/
theorem stage_of_lock (hs : e.lockRow db = some e') (hw : e.writes = .empty) :
    e'.call = e.call ∧ e'.next ≠ .lock ∧ e'.writes.tokens = ∅ ∧
      Enrolling.Stage p drawn db e'.call e'.next e'.writes := by
  obtain ⟨call, started, next, share, writes⟩ := e
  obtain rfl : writes = .empty := hw
  unfold Enrolling.lockRow at hs
  cases call with
  | create user machine tokenId token =>
    dsimp only at hs
    split_ifs at hs with hcond
    rw [not_or] at hcond
    obtain rfl := Option.some.inj hs
    exact ⟨rfl, by simp, rfl, .revoke (.create (AList.lookup_eq_none.mpr hcond.2)) rfl⟩
  | issueRegistration user machine tokenId token =>
    dsimp only at hs
    split at hs
    · cases hs
    · next m hm =>
      split_ifs at hs
      obtain rfl := Option.some.inj hs
      obtain ⟨hm, hcond⟩ := Option.filter_eq_some_iff.mp hm
      simp only [Bool.and_eq_true, Option.isNone_iff_eq_none] at hcond
      exact ⟨rfl, by simp [Enrolling.go], rfl, .revoke (.issueRegistration hm hcond.2) rfl⟩
  | register machine token installation credential =>
    obtain ⟨m, hm, rfl⟩ := Option.map_eq_some_iff.mp hs
    obtain ⟨hm, hopen⟩ := Option.filter_eq_some_iff.mp hm
    exact ⟨rfl, by simp [Enrolling.go], rfl, .owner hm (Option.isNone_iff_eq_none.mp hopen)⟩
  | remove user machine =>
    obtain ⟨m, hm, rfl⟩ := Option.map_eq_some_iff.mp hs
    obtain ⟨hm, -⟩ := Option.filter_eq_some_iff.mp hm
    by_cases hdeleted : m.deletedAt.isSome = true
    · refine ⟨rfl, ?_, rfl, ?_⟩
      · simp [Enrolling.go, hdeleted]
      · rw [Enrolling.go, if_pos hdeleted]
        exact .gone hm hdeleted
    · refine ⟨rfl, ?_, rfl, ?_⟩
      · simp [Enrolling.go, hdeleted]
      · rw [Enrolling.go, if_neg hdeleted]
        exact .remove hm (by simpa using hdeleted)

/-- A transaction that has written no tokens sees those that are committed. -/
theorem lookup_view_of_empty (ht : w.tokens = ∅) :
    (w.view db machine).registrationTokens.lookup id = db.registrationTokens.lookup id := by
  rw [lookup_view_tokens, ht]
  rfl

theorem EnrollmentCall.Issues.afterRevoke {row : Option Machine} (h : call.Issues db row) :
    call.afterRevoke = .insert := by
  cases h <;> rfl

/-- The tokens are revoked. -/
theorem stage_of_revoke (h : e.Sound p drawn db) (hs : e.revokeTokens now db = some e')
    (hnext : e.next = .revoke) :
    Enrolling.Stage p drawn db e'.call e'.next e'.writes := by
  obtain ⟨call, started, next, share, writes⟩ := e
  obtain rfl : next = .revoke := hnext
  obtain rfl := Option.some.inj hs
  cases h.stage with
  | revoke hrow ht =>
    dsimp only
    rw [hrow.afterRevoke]
    exact .insert hrow void_revoke
  | removing hrow hopen hm ht => exact .removed hrow hopen hm void_revoke

/-- The new token is inserted. -/
theorem insert_of_statement (h : e.Sound p drawn db) (hs : e.insertToken p db = some e')
    (hnext : e.next = .insert) : e'.call = e.call ∧ e'.next ≠ .lock ∧ e'.Sound p drawn db := by
  obtain ⟨call, started, next, share, w⟩ := e
  obtain rfl : next = .insert := hnext
  unfold Enrolling.insertToken at hs
  split at hs
  · cases hs
  · next tokenId token hdraws =>
    split_ifs at hs with hnew
    obtain rfl := Option.some.inj hs
    refine ⟨rfl, by simp, h.draws, fun id t ht => ?_, ?_⟩
    · by_cases hid : id = tokenId
      · subst hid
        rw [AList.lookup_insert] at ht
        obtain rfl := Option.some.inj ht
        refine ⟨rfl, ⟨token, h.draws _ _ hdraws, rfl⟩, fun t₀ ht₀ => absurd ?_ hnew⟩
        rw [Writes.view, AList.mem_union]
        exact Or.inr (Table.mem_of_lookup ht₀)
      · rw [AList.lookup_insert_ne hid] at ht
        exact h.own id t ht
    · cases h.stage with
      | insert hrow hvoid =>
        refine .issue hrow fun id id' t t' ht ht' hm hm' hunused hunused' => ?_
        have honly {id : Uuid} {t : RegistrationToken}
            (ht : (Writes.view ⟨w.machine, w.tokens.insert tokenId ⟨call.machine, p.sha256 token,
              started + seconds 900, none, none⟩⟩ db call.machine).registrationTokens.lookup id =
              some t) (hm : t.machineId = call.machine) (hunused : t.unused = true) :
            id = tokenId := by
          by_contra hid
          rw [lookup_view_tokens, AList.lookup_insert_ne hid, ← lookup_view_tokens] at ht
          cases (hvoid id t ht hm).symm.trans hunused
        exact (honly ht hm hunused).trans (honly ht' hm' hunused').symm

/-- A token is consumed. -/
theorem consume_of_statement (h : e.Sound p drawn db) (hdb : db.Drawn p drawn)
    (hsha : Function.Injective p.sha256) (hs : e.consumeToken p now db = some e')
    (hnext : e.next = .consume) : e'.call = e.call ∧ e'.next ≠ .lock ∧ e'.Sound p drawn db := by
  obtain ⟨call, started, next, share, w⟩ := e
  obtain rfl : next = .consume := hnext
  cases h.stage with
  | @consume machine installation token credential row hrow hopen =>
    unfold Enrolling.consumeToken at hs
    dsimp only at hs
    split_ifs at hs with hone
    obtain rfl := Option.some.inj hs
    have hwhich (t : RegistrationToken)
        (ht : t.redeemable now machine (p.sha256 token) = true) :
        t.machineId = machine ∧ t.unused = true := by
      simp only [RegistrationToken.redeemable, Bool.and_eq_true, decide_eq_true_eq] at ht
      exact ⟨ht.1.1.1.1, by rw [RegistrationToken.unused, ht.1.1.2, ht.1.2]; rfl⟩
    refine ⟨rfl, by simp, h.draws, h.own.update hdb hwhich fun t => ⟨rfl, rfl⟩, ?_⟩
    refine .consumed hrow hopen rfl ⟨fun id t ht => ?_, ?_⟩
    · rcases lookup_update_tokens ht with ht | ⟨t₀, -, -, rfl⟩
      · cases ht
      · rfl
    · obtain ⟨⟨id, t₀⟩, hmem⟩ := List.exists_mem_of_length_pos (hone ▸ Nat.one_pos)
      obtain ⟨hfound, hcond⟩ := Table.mem_select_iff.mp hmem
      have hseen : (Writes.empty.view db machine).registrationTokens.lookup id = some t₀ := hfound
      have ht₀ : db.registrationTokens.lookup id = some t₀ := hseen
      obtain ⟨token', hdrawn, hhash⟩ := hdb id t₀ ht₀
      have ht : (Writes.empty.update db machine
          (fun t => t.redeemable now machine (p.sha256 token))
          fun t => { t with consumedAt := some now }).tokens.lookup id =
          some { t₀ with consumedAt := some now } := by
        rw [Writes.update, Table.lookup_union, Table.lookup_filterMapRows, hseen]
        simp [hcond]
      have hm := (hwhich t₀ hcond).1
      simp only [RegistrationToken.redeemable, Bool.and_eq_true, decide_eq_true_eq,
        Option.isNone_iff_eq_none] at hcond
      obtain rfl := hsha (hhash.symm.trans hcond.1.1.1.2)
      exact ⟨id, t₀, _, hm ▸ hdrawn, ht₀, hm, hcond.1.1.2, ht, rfl⟩

/-- The row of the machine is written. -/
theorem stage_of_write (h : e.Sound p drawn db) (hs : e.writeRow p now db = some e')
    (hnext : e.next = .write) :
    e'.call = e.call ∧ e'.next ≠ .lock ∧ e'.writes.tokens = e.writes.tokens ∧
      Enrolling.Stage p drawn db e'.call e'.next e'.writes := by
  obtain ⟨call, started, next, share, w⟩ := e
  obtain rfl : next = .write := hnext
  cases h.stage with
  | @consumed machine installation token credential row w hrow hopen hm hredeems =>
    have hseen : (w.view db machine).machines.lookup machine = some row := by
      rw [Writes.view, hm]
      exact hrow
    simp only [Enrolling.writeRow, EnrollmentCall.machine, hseen] at hs
    split_ifs at hs
    obtain rfl := Option.some.inj hs
    exact ⟨rfl, by simp, rfl, .register hrow hopen rfl ⟨hredeems.spent, hredeems.token⟩⟩
  | @remove user machine row hrow hopen =>
    have hseen : (Writes.view ⟨none, ∅⟩ db machine).machines.lookup machine = some row := hrow
    simp only [Enrolling.writeRow, EnrollmentCall.machine, hseen] at hs
    split_ifs at hs
    obtain rfl := Option.some.inj hs
    exact ⟨rfl, by simp, rfl, .removing hrow hopen rfl rfl⟩

/-- What every statement preserves. -/
theorem sound_of_statement (h : e.Sound p drawn db) (hdb : db.Drawn p drawn)
    (hsha : Function.Injective p.sha256) (hs : e.statement p now db = some e') :
    e'.call = e.call ∧ e'.next ≠ .lock ∧ e'.Sound p drawn db := by
  have hempty (htokens : e'.writes.tokens = ∅) : e'.writes.Own p drawn db e'.call.machine := by
    intro id t ht
    rw [htokens] at ht
    cases ht
  unfold Enrolling.statement at hs
  split at hs
  · next hnext =>
    have hw : e.writes = .empty := by
      obtain ⟨call, started, next, share, w⟩ := e
      obtain rfl : next = .lock := hnext
      cases h.stage
      rfl
    obtain ⟨hcall, hlock, htokens, hstage⟩ : e'.call = e.call ∧ e'.next ≠ .lock ∧
        e'.writes.tokens = ∅ ∧ Enrolling.Stage p drawn db e'.call e'.next e'.writes :=
      stage_of_lock hs hw
    exact ⟨hcall, hlock, hcall ▸ h.draws, hempty htokens, hstage⟩
  · next user enabled hnext =>
    obtain ⟨u, -, rfl⟩ := Option.map_eq_some_iff.mp hs
    obtain ⟨call, started, next, share, w⟩ := e
    obtain rfl : next = .owner user enabled := hnext
    cases h.stage with
    | owner hrow hopen => exact ⟨rfl, by simp [Enrolling.go], h.draws, h.own, .consume hrow hopen⟩
  · next hnext =>
    have hstage := stage_of_revoke h hs hnext
    obtain rfl := Option.some.inj hs
    refine ⟨rfl, ?_, h.draws, h.own.revoke hdb, hstage⟩
    dsimp only
    cases e.call <;> simp [EnrollmentCall.afterRevoke]
  · next hnext => exact insert_of_statement h hs hnext
  · next hnext => exact consume_of_statement h hdb hsha hs hnext
  · next hnext =>
    obtain ⟨hcall, hlock, htokens, hstage⟩ := stage_of_write h hs hnext
    refine ⟨hcall, hlock, hcall ▸ h.draws, ?_, hstage⟩
    rw [hcall]
    intro id t ht
    exact h.own id t (htokens ▸ ht)
  · cases hs

/-! ### Other transactions -/

theorem EnrollmentCall.Issues.congr {row : Option Machine} (h : call.Issues db row)
    (hsame : Database.SameFor call.machine db db') : call.Issues db' row := by
  cases h with
  | create hnew => exact .create (hsame.machines.trans hnew)
  | issueRegistration hrow hopen => exact .issueRegistration (hsame.machines.trans hrow) hopen

theorem Writes.Redeems.congr {token : String} (h : w.Redeems drawn db machine token)
    (hsame : Database.SameFor machine db db')
    (hdrawn : ∀ id x, drawn.lookup id = some x → drawn'.lookup id = some x) :
    w.Redeems drawn' db' machine token := by
  obtain ⟨id, t₀, t, hid, ht₀, hm, hrest⟩ := h.token
  exact ⟨h.spent, id, t₀, t, hdrawn _ _ hid, (hsame.tokens id t₀ hm).mpr ht₀, hm, hrest⟩

/-- An open transaction does not notice what happens to other machines, nor the tokens that are
drawn. -/
theorem Enrolling.Sound.congr (h : e.Sound p drawn db) (hdb' : db'.Drawn p drawn')
    (hsame : e.next ≠ .lock → Database.SameFor e.call.machine db db')
    (hdrawn : ∀ id x, drawn.lookup id = some x → drawn'.lookup id = some x) :
    e.Sound p drawn' db' := by
  obtain ⟨call, started, next, share, w⟩ := e
  refine ⟨fun id token hid => hdrawn _ _ (h.draws id token hid), fun id t ht => ?_, ?_⟩
  · obtain ⟨hm, ⟨token, hid, hhash⟩, hold⟩ := h.own id t ht
    refine ⟨hm, ⟨token, hdrawn _ _ hid, hhash⟩, fun t₀ ht₀ => hold t₀ ?_⟩
    have hlock : next ≠ .lock := by
      rintro rfl
      cases h.stage
      cases ht
    obtain ⟨token', hid', -⟩ := hdb' id t₀ ht₀
    have hm₀ := (Prod.mk.inj (Option.some.inj ((hdrawn _ _ hid).symm.trans hid'))).1
    exact ((hsame hlock).tokens id t₀ hm₀.symm).mp ht₀
  · cases h.stage with
    | lock => exact .lock
    | revoke hrow ht => exact .revoke (hrow.congr (hsame (by simp))) ht
    | insert hrow hvoid =>
      exact .insert (hrow.congr (hsame (by simp))) (hvoid.view_congr (hsame (by simp)))
    | issue hrow hsingle =>
      exact .issue (hrow.congr (hsame (by simp))) (hsingle.view_congr (hsame (by simp)))
    | owner hrow hopen => exact .owner ((hsame (by simp)).machines.trans hrow) hopen
    | consume hrow hopen => exact .consume ((hsame (by simp)).machines.trans hrow) hopen
    | consumed hrow hopen hm hredeems =>
      exact .consumed ((hsame (by simp)).machines.trans hrow) hopen hm
        (hredeems.congr (hsame (by simp)) hdrawn)
    | register hrow hopen hm hredeems =>
      exact .register ((hsame (by simp)).machines.trans hrow) hopen hm
        (hredeems.congr (hsame (by simp)) hdrawn)
    | remove hrow hopen => exact .remove ((hsame (by simp)).machines.trans hrow) hopen
    | removing hrow hopen hm ht =>
      exact .removing ((hsame (by simp)).machines.trans hrow) hopen hm ht
    | removed hrow hopen hm hvoid =>
      exact .removed ((hsame (by simp)).machines.trans hrow) hopen hm
        (hvoid.view_congr (hsame (by simp)))
    | gone hrow hdeleted => exact .gone ((hsame (by simp)).machines.trans hrow) hdeleted

/-- What a transaction writes leaves the rows of other machines alone. -/
theorem sameFor_view {machine' : Uuid} (h : w.Own p drawn db machine) (hdb : db.Drawn p drawn)
    (hne : machine' ≠ machine) : Database.SameFor machine' db (w.view db machine) := by
  constructor
  · rw [Writes.view]
    cases w.machine with
    | none => rfl
    | some m => exact AList.lookup_insert_ne hne
  · intro id t hm
    rw [lookup_view_tokens]
    constructor
    · intro ht
      rcases Option.or_eq_some_iff.mp ht with ht | ⟨-, ht⟩
      · exact absurd (hm.symm.trans (h id t ht).1) hne
      · exact ht
    · intro ht
      refine Option.or_eq_some_iff.mpr (Or.inr ⟨?_, ht⟩)
      by_contra hsome
      obtain ⟨t', ht'⟩ := Option.ne_none_iff_exists'.mp hsome
      obtain ⟨token, hid, -⟩ := (h id t' ht').2.1
      obtain ⟨token', hid', -⟩ := hdb id t ht
      have hsame := (Prod.mk.inj (Option.some.inj (hid.symm.trans hid'))).1
      exact hne (hm.symm.trans hsame.symm)

/-- The tokens that a transaction leaves were drawn. -/
theorem drawn_view (h : w.Own p drawn db machine) (hdb : db.Drawn p drawn) :
    (w.view db machine).Drawn p drawn := by
  intro id t ht
  rw [lookup_view_tokens] at ht
  rcases Option.or_eq_some_iff.mp ht with ht | ⟨-, ht⟩
  · obtain ⟨hm, htoken, -⟩ := h id t ht
    exact hm ▸ htoken
  · exact hdb id t ht

end

/-! ### Runs -/

/-- The row of a machine after its last registration handed out a credential. -/
structure Machine.Current (p : Platform π) (db : Database) (machine : Uuid)
    (credential : Option String) (row : Machine) : Prop where
  hash : row.deletedAt = none → row.credentialHash = credential.map p.sha256
  installed : row.credentialHash.isSome = true → row.installationId.isSome = true
  deleted : row.deletedAt.isSome = true → row.credentialHash = none ∧ db.Void machine

/-- The version of a connection is not from the future, and when it is the current one then so is
its credential. -/
def Admitted.Known (log : List EnrollmentEvent) (db : Database) (k : Admitted) : Prop :=
  ∃ row, db.machines.lookup k.machine = some row ∧ k.version ≤ row.credentialVersion ∧
    (k.version = row.credentialVersion → row.deletedAt = none ∧
      EnrollmentEvent.latest k.machine log = some k.credential)

/-- How the database, the open transactions and the connections agree with what has happened. -/
structure Enrollment.Sound (p : Platform π) (log : List EnrollmentEvent) (S : Enrollment) :
    Prop where
  distinct : ∀ id id' m m' token, S.drawn.lookup id = some (m, token) →
    S.drawn.lookup id' = some (m', token) → id = id'
  tokens : S.database.Drawn p S.drawn
  calls : ∀ k e, S.calls.lookup k = some e → e.Sound p S.drawn S.database
  locks : ∀ k k' e e', S.calls.lookup k = some e → S.calls.lookup k' = some e' →
    e.next ≠ .lock → e'.next ≠ .lock → e.call.machine = e'.call.machine → k = k'
  single : ∀ m, S.database.Single m
  machines : ∀ m row, S.database.machines.lookup m = some row →
    row.Current p S.database m (EnrollmentEvent.latest m log)
  connections : ∀ c k, S.connections.lookup c = some k → k.Known log S.database
  redeemed : ∀ m token credential, .redeemed m token credential ∈ log → m ∈ S.database.machines ∧
    ∃ id t, S.drawn.lookup id = some (m, token) ∧
      S.database.registrationTokens.lookup id = some t ∧ t.consumedAt.isSome = true
  removed : ∀ m, .removed m ∈ log →
    ∃ row, S.database.machines.lookup m = some row ∧ row.deletedAt.isSome = true

section

variable {S S' : Enrollment} {log : List EnrollmentEvent} {db db' : Database} {machine m : Uuid}
  {call : Uuid} {e : Enrolling}

theorem Database.Void.congr (h : db.Void m) (hsame : Database.SameFor m db db') : db'.Void m :=
  fun id t ht hm => h id t ((hsame.tokens id t hm).mp ht) hm

theorem Database.Single.congr (h : db.Single m) (hsame : Database.SameFor m db db') :
    db'.Single m :=
  fun id id' t t' ht ht' hm hm' => h id id' t t' ((hsame.tokens id t hm).mp ht)
    ((hsame.tokens id' t' hm').mp ht') hm hm'

theorem Database.Drawn.mono {drawn drawn' : Table Uuid (Uuid × String)} (h : db.Drawn p drawn)
    (hdrawn : ∀ id x, drawn.lookup id = some x → drawn'.lookup id = some x) :
    db.Drawn p drawn' := by
  intro id t ht
  obtain ⟨token, hid, hhash⟩ := h id t ht
  exact ⟨token, hdrawn _ _ hid, hhash⟩

namespace EnrollmentEvent

/-- What has to do with the past: a token that is redeemed was not redeemed before, a credential
that is accepted is the one that was handed out last, and the machine was not removed. -/
def Lawful (past : List EnrollmentEvent) : EnrollmentEvent → Prop
  | redeemed machine token _ =>
    (∀ machine' credential', .redeemed machine' token credential' ∉ past) ∧
      .removed machine ∉ past
  | upgraded _ machine credential | passed _ machine credential =>
    latest machine past = some credential ∧ .removed machine ∉ past
  | _ => True

@[simp] theorem latest_redeemed (token credential : String) :
    latest m (log ++ [.redeemed machine token credential]) =
      if machine = m then some credential else latest m log := by
  rw [latest, List.filterMap_append]
  split_ifs with hm
  · simp [hm]
  · simp [hm, latest]

/-- Only registrations hand out credentials. -/
theorem latest_append {e : EnrollmentEvent}
    (h : ∀ token credential, e ≠ .redeemed m token credential) :
    latest m (log ++ [e]) = latest m log := by
  cases e with
  | redeemed machine token credential =>
    rw [latest_redeemed, if_neg]
    rintro rfl
    exact h token credential rfl
  | _ => simp [latest]

/-- A credential was handed out by a registration. -/
theorem mem_of_latest {credential : String} (h : latest m log = some credential) :
    ∃ token, .redeemed m token credential ∈ log := by
  obtain ⟨e, he, heq⟩ := List.mem_filterMap.mp (List.mem_of_getLast? h)
  split at heq
  · next m' token credential' =>
    split_ifs at heq with hm
    obtain rfl := Option.some.inj heq
    exact ⟨token, hm ▸ he⟩
  · cases heq

end EnrollmentEvent

namespace Enrollment.Sound

theorem init : (Enrollment.init).Sound p [] := by
  refine ⟨fun id id' m m' token hid => ?_, fun id t ht => ?_, fun k e he => ?_,
    fun k k' e e' he => ?_, fun m id id' t t' ht => ?_, fun m row hrow => ?_, fun c k hc => ?_,
    fun m token credential hmem => ?_, fun m hmem => ?_⟩
  · cases hid
  · cases ht
  · cases he
  · cases he
  · cases ht
  · cases hrow
  · cases hc
  · cases hmem
  · cases hmem

/-- A step of one call that leaves the database alone. -/
theorem of_call (h : S.Sound p log) (hdb : S'.database = S.database)
    (hconn : S'.connections = S.connections)
    (hdrawn : ∀ id x, S.drawn.lookup id = some x → S'.drawn.lookup id = some x)
    (hdistinct : ∀ id id' m m' token, S'.drawn.lookup id = some (m, token) →
      S'.drawn.lookup id' = some (m', token) → id = id')
    (hother : ∀ k, k ≠ call → S'.calls.lookup k = S.calls.lookup k)
    (hcall : ∀ e', S'.calls.lookup call = some e' → e'.Sound p S'.drawn S.database ∧
      (e'.next ≠ .lock → ∀ k e, k ≠ call → S.calls.lookup k = some e → e.next ≠ .lock →
        e.call.machine ≠ e'.call.machine)) : S'.Sound p log := by
  have hback {k : Uuid} {e : Enrolling} (hk : k ≠ call) (he : S'.calls.lookup k = some e) :
      S.calls.lookup k = some e :=
    (hother k hk).symm.trans he
  refine ⟨hdistinct, hdb ▸ h.tokens.mono hdrawn, fun k e he => ?_,
    fun k k' e e' he he' hne hne' hsame => ?_, hdb ▸ h.single, hdb ▸ h.machines,
    hdb ▸ hconn ▸ h.connections, fun m token credential hmem => ?_, hdb ▸ h.removed⟩
  · rw [hdb]
    by_cases hk : k = call
    · exact (hcall e (hk ▸ he)).1
    · exact (h.calls k e (hback hk he)).congr (h.tokens.mono hdrawn)
        (fun _ => ⟨rfl, fun _ _ _ => Iff.rfl⟩) hdrawn
  · by_cases hk : k = call
    · subst hk
      by_contra hkk
      have hk' := Ne.symm hkk
      exact (hcall e he).2 hne k' e' hk' (hback hk' he') hne' hsame.symm
    · by_cases hk' : k' = call
      · subst hk'
        exact absurd hsame ((hcall e' he').2 hne' k e hk (hback hk he) hne)
      · exact h.locks k k' e e' (hback hk he) (hback hk' he') hne hne' hsame
  · obtain ⟨hm, id, t, hid, hrest⟩ := h.redeemed m token credential hmem
    exact ⟨hdb ▸ hm, id, t, hdrawn _ _ hid, hdb ▸ hrest⟩

/-- A call ends without having changed anything. -/
theorem erase (h : S.Sound p log) : { S with calls := S.calls.erase call }.Sound p log := by
  refine h.of_call rfl rfl (fun _ _ hid => hid) h.distinct
    (fun k (hk : k ≠ call) => AList.lookup_erase_ne hk) fun e' he' => ?_
  rw [AList.lookup_erase] at he'
  cases he'

/-- A statement of a call. -/
theorem statement {e' : Enrolling} (h : S.Sound p log) (hsha : Function.Injective p.sha256)
    (he : S.calls.lookup call = some e) (hfree : e.next = .lock → S.free e.call.machine = true)
    (hs : e.statement p S.clock S.database = some e') :
    { S with calls := S.calls.insert call e' }.Sound p log := by
  obtain ⟨hsame, hlock, hsound⟩ := sound_of_statement (h.calls call e he) h.tokens hsha hs
  refine h.of_call rfl rfl (fun _ _ hid => hid) h.distinct
    (fun k (hk : k ≠ call) => AList.lookup_insert_ne hk) fun e'' he'' => ?_
  rw [AList.lookup_insert] at he''
  obtain rfl := Option.some.inj he''
  refine ⟨hsound, fun _ k e₁ hk he₁ hne heq => ?_⟩
  rw [hsame] at heq
  by_cases hnext : e.next = .lock
  · have hall := List.all_eq_true.mp (hfree hnext) ⟨k, e₁⟩ (AList.mem_lookup_iff.mp he₁)
    simp [Enrolling.locks, hne, heq] at hall
  · exact hk (h.locks k call e₁ e he₁ he hne hnext heq)

/-- A call begins, and draws a token that was not drawn before. -/
theorem begin {request : EnrollmentCall} {drawn : Table Uuid (Uuid × String)} (h : S.Sound p log)
    (hdrawn : drawn = S.drawn ∧ request.draws = none ∨
      ∃ tokenId token, request.draws = some (tokenId, token) ∧ tokenId ∉ S.drawn ∧
        (∀ id x, S.drawn.lookup id = some x → x.2 ≠ token) ∧
        drawn = S.drawn.insert tokenId (request.machine, token)) :
    Enrollment.Sound p log
      { S with calls := S.calls.insert call (.init S.clock request), drawn := drawn } := by
  rcases hdrawn with ⟨rfl, hdraws⟩ | ⟨tokenId, token, hdraws, hid, htoken, rfl⟩
  · refine h.of_call rfl rfl (fun _ _ hid => hid) h.distinct
      (fun k (hk : k ≠ call) => AList.lookup_insert_ne hk) fun e' he' => ?_
    rw [AList.lookup_insert] at he'
    obtain rfl := Option.some.inj he'
    refine ⟨.init fun id token heq => ?_, fun hlock => absurd rfl hlock⟩
    rw [hdraws] at heq
    cases heq
  · have hback {id : Uuid} {x : Uuid × String}
        (hx : (S.drawn.insert tokenId (request.machine, token)).lookup id = some x) :
        id = tokenId ∧ x = (request.machine, token) ∨
          S.drawn.lookup id = some x ∧ x.2 ≠ token := by
      by_cases hsame : id = tokenId
      · subst hsame
        rw [AList.lookup_insert] at hx
        exact Or.inl ⟨rfl, (Option.some.inj hx).symm⟩
      · rw [AList.lookup_insert_ne hsame] at hx
        exact Or.inr ⟨hx, htoken id x hx⟩
    refine h.of_call rfl rfl (fun id x hx => ?_) (fun id id' m m' tok hx hx' => ?_)
      (fun k (hk : k ≠ call) => AList.lookup_insert_ne hk) fun e' he' => ?_
    · have hne : id ≠ tokenId := fun heq => hid (heq ▸ Table.mem_of_lookup hx)
      rw [AList.lookup_insert_ne hne, hx]
    · rcases hback hx with ⟨rfl, heq⟩ | ⟨hx, hne⟩
      · rcases hback hx' with ⟨rfl, -⟩ | ⟨-, hne⟩
        · rfl
        · exact absurd (Prod.mk.inj heq).2 hne
      · rcases hback hx' with ⟨rfl, heq⟩ | ⟨hx', -⟩
        · exact absurd (Prod.mk.inj heq).2 hne
        · exact h.distinct id id' m m' tok hx hx'
    · rw [AList.lookup_insert] at he'
      obtain rfl := Option.some.inj he'
      refine ⟨.init fun id token' heq => ?_, fun hlock => absurd rfl hlock⟩
      obtain ⟨rfl, rfl⟩ := Prod.mk.inj (Option.some.inj (hdraws.symm.trans heq))
      exact AList.lookup_insert _

/-- A change of the settings of users and machines. -/
theorem of_mapRows {f : Uuid → Machine → Machine} {clock : ℕ} (h : S.Sound p log)
    (hm : db'.machines = S.database.machines.mapRows f)
    (ht : db'.registrationTokens = S.database.registrationTokens)
    (hf : ∀ m row, (f m row).installationId = row.installationId ∧
      (f m row).credentialHash = row.credentialHash ∧
      (f m row).credentialVersion = row.credentialVersion ∧ (f m row).deletedAt = row.deletedAt)
    (hfree : ∀ k e, S.calls.lookup k = some e → e.next ≠ .lock →
      ∀ row, f e.call.machine row = row) :
    { S with clock := clock, database := db' }.Sound p log := by
  have hdrawn : db'.Drawn p S.drawn := fun id t htoken => h.tokens id t (ht ▸ htoken)
  have hvoid {m : Uuid} (hv : S.database.Void m) : db'.Void m :=
    fun id t htoken => hv id t (ht ▸ htoken)
  refine ⟨h.distinct, hdrawn, fun k e he => ?_, h.locks, fun m id id' t t' htoken htoken' => ?_,
    fun m row' hrow' => ?_, fun c k hc => ?_, fun m token credential hmem => ?_,
    fun m hmem => ?_⟩
  · refine (h.calls k e he).congr hdrawn (fun hnext => ⟨?_, fun id t _ => by rw [ht]⟩)
      fun _ _ hid => hid
    rw [hm, Table.lookup_mapRows]
    cases S.database.machines.lookup e.call.machine with
    | none => rfl
    | some row => exact congrArg some (hfree k e he hnext row)
  · exact h.single m id id' t t' (ht ▸ htoken) (ht ▸ htoken')
  · dsimp only at hrow'
    rw [hm, Table.lookup_mapRows] at hrow'
    obtain ⟨row, hrow, rfl⟩ := Option.map_eq_some_iff.mp hrow'
    have hcurrent := h.machines m row hrow
    obtain ⟨hinstalled, hhash, -, hdeleted⟩ := hf m row
    refine ⟨fun hopen => ?_, fun hsome => ?_, fun hsome => ?_⟩
    · rw [hhash]
      exact hcurrent.hash (hdeleted ▸ hopen)
    · rw [hinstalled]
      exact hcurrent.installed (hhash ▸ hsome)
    · rw [hhash]
      exact (hcurrent.deleted (hdeleted ▸ hsome)).imp_right hvoid
  · obtain ⟨row, hrow, hle, hcurrent⟩ := h.connections c k hc
    obtain ⟨-, -, hversion, hdeleted⟩ := hf k.machine row
    refine ⟨f k.machine row, ?_, hversion ▸ hle, ?_⟩
    · dsimp only
      rw [hm, Table.lookup_mapRows, hrow]
      rfl
    · rw [hversion, hdeleted]
      exact hcurrent
  · obtain ⟨hmem, htoken⟩ := h.redeemed m token credential hmem
    dsimp only
    rw [hm, ht, Table.mem_mapRows]
    exact ⟨hmem, htoken⟩
  · obtain ⟨row, hrow, hsome⟩ := h.removed m hmem
    refine ⟨f m row, ?_, (hf m row).2.2.2 ▸ hsome⟩
    dsimp only
    rw [hm, Table.lookup_mapRows, hrow]
    rfl

/-- A step of connections, remembered by nothing that is issued, redeemed or removed. -/
theorem of_connections {es : List EnrollmentEvent} {connections : Table Uuid Admitted}
    (h : S.Sound p log) (hlatest : ∀ m, EnrollmentEvent.latest m (log ++ es) =
      EnrollmentEvent.latest m log)
    (hes : ∀ e ∈ es, ∃ c m credential, e = .upgraded c m credential ∨ e = .passed c m credential)
    (hconn : ∀ c k, connections.lookup c = some k →
      S.connections.lookup c = some k ∨ k.Known log S.database) :
    { S with connections := connections }.Sound p (log ++ es) := by
  have hold {e : EnrollmentEvent} (he : e ∈ log ++ es)
      (hne : ∀ c m credential, e ≠ .upgraded c m credential ∧ e ≠ .passed c m credential) :
      e ∈ log := by
    refine (List.mem_append.mp he).resolve_right fun hmem => ?_
    obtain ⟨c, m, credential, heq | heq⟩ := hes e hmem
    · exact (hne c m credential).1 heq
    · exact (hne c m credential).2 heq
  refine ⟨h.distinct, h.tokens, h.calls, h.locks, h.single, fun m row hrow => ?_,
    fun c k hk => ?_, fun m token credential hmem => ?_, fun m hmem => ?_⟩
  · rw [hlatest]
    exact h.machines m row hrow
  · rw [Admitted.Known, hlatest]
    rcases hconn c k hk with hk | hknown
    · exact h.connections c k hk
    · exact hknown
  · exact h.redeemed m token credential (hold hmem (by simp))
  · exact h.removed m (hold hmem (by simp))

/-- The credential that is accepted is the one that was handed out last. -/
theorem authenticate_iff {credential : String} (h : S.Sound p log)
    (hsha : Function.Injective p.sha256) {row : Machine}
    (hrow : S.database.machines.lookup m = some row) (hopen : row.deletedAt = none) :
    (∃ x, authenticate p S.database m credential = .ok x) ↔
      EnrollmentEvent.latest m log = some credential := by
  have hcurrent := h.machines m row hrow
  have hhash : row.credentialHash = some (p.sha256 credential) ↔
      EnrollmentEvent.latest m log = some credential := by
    rw [hcurrent.hash hopen, Option.map_eq_some_iff]
    constructor
    · rintro ⟨credential', hlatest, heq⟩
      rw [hlatest, hsha heq]
    · exact fun hlatest => ⟨credential, hlatest, rfl⟩
  rw [← hhash, authenticate, hrow]
  by_cases hsame : row.credentialHash = some (p.sha256 credential)
  · obtain ⟨installation, hinstalled⟩ :=
      Option.isSome_iff_exists.mp (hcurrent.installed (by rw [hsame]; rfl))
    simp [Option.filter, hsame, hopen, hinstalled]
  · simp [Option.filter, hsame]

/-- What a machine that is accepted has to show. -/
theorem row_of_authenticate {credential : String} {x : Uuid × ℕ}
    (h : authenticate p db m credential = .ok x) :
    ∃ row, db.machines.lookup m = some row ∧ row.deletedAt = none ∧
      x.2 = row.credentialVersion := by
  unfold authenticate at h
  split at h
  · cases h
  · next row hrow =>
    obtain ⟨hrow, hcond⟩ := Option.filter_eq_some_iff.mp hrow
    rw [Bool.and_eq_true, Option.isNone_iff_eq_none] at hcond
    split at h
    · cases h
    · obtain rfl := Except.ok.inj h
      exact ⟨row, hrow, hcond.2, rfl⟩

/-- A connection is upgraded. -/
theorem upgrade {connection installation : Uuid} {credential : String} {version : ℕ}
    (h : S.Sound p log) (hsha : Function.Injective p.sha256)
    (hauth : authenticate p S.database machine credential = .ok (installation, version)) :
    Enrollment.Sound p (log ++ [.upgraded connection machine credential])
      { S with
        connections := S.connections.insert connection ⟨machine, credential, version⟩ } := by
  refine h.of_connections (fun m => EnrollmentEvent.latest_append (by simp))
    (fun e he => ⟨_, _, _, Or.inl (List.mem_singleton.mp he)⟩) fun c k hk => ?_
  by_cases hc : c = connection
  · subst hc
    rw [AList.lookup_insert] at hk
    obtain rfl := Option.some.inj hk
    obtain ⟨row, hrow, hopen, rfl⟩ := row_of_authenticate hauth
    exact Or.inr ⟨row, hrow, le_rfl, fun _ =>
      ⟨hopen, (h.authenticate_iff hsha hrow hopen).mp ⟨_, hauth⟩⟩⟩
  · rw [AList.lookup_insert_ne hc] at hk
    exact Or.inl hk

/-! ### Commits -/

/-- What a transaction leaves behind of its machine. -/
structure Settles (p : Platform π) (log : List EnrollmentEvent) (S : Enrollment) (e : Enrolling) :
    Prop where
  single : (e.writes.view S.database e.call.machine).Single e.call.machine
  current : ∀ row', (e.writes.view S.database e.call.machine).machines.lookup e.call.machine =
    some row' → row'.Current p (e.writes.view S.database e.call.machine) e.call.machine
      (EnrollmentEvent.latest e.call.machine (log ++ [e.call.answer]))
  kept : ∀ row, S.database.machines.lookup e.call.machine = some row →
    ∃ row', (e.writes.view S.database e.call.machine).machines.lookup e.call.machine = some row' ∧
      (row.deletedAt.isSome = true → row'.deletedAt.isSome = true) ∧
      (row.credentialVersion < row'.credentialVersion ∨ row' = row ∧
        EnrollmentEvent.latest e.call.machine (log ++ [e.call.answer]) =
          EnrollmentEvent.latest e.call.machine log)
  redeemed : ∀ m token credential, e.call.answer = .redeemed m token credential →
    m = e.call.machine ∧ m ∈ S.database.machines ∧
      ∃ id t, S.drawn.lookup id = some (m, token) ∧
        (e.writes.view S.database e.call.machine).registrationTokens.lookup id = some t ∧
        t.consumedAt.isSome = true
  removed : ∀ m, e.call.answer = .removed m → m = e.call.machine ∧
    ∃ row', (e.writes.view S.database e.call.machine).machines.lookup e.call.machine = some row' ∧
      row'.deletedAt.isSome = true

/-- A transaction that issues a token. -/
theorem settles_issue {c : EnrollmentCall} {started : ℕ} {share : Option Uuid} {w : Writes}
    (h : S.Sound p log) (hrow : c.Issues S.database w.machine)
    (hsingle : (w.view S.database c.machine).Single c.machine) :
    Settles p log S ⟨c, started, .commit, share, w⟩ := by
  obtain ⟨row, tokens⟩ := w
  cases hrow with
  | @create user machine tokenId token hnew =>
    refine ⟨hsingle, fun row' hrow' => ?_, fun row hrow => ?_, fun m _ _ heq => ?_,
      fun m heq => ?_⟩
    · obtain rfl := Option.some.inj ((AList.lookup_insert _).symm.trans hrow')
      refine ⟨fun _ => ?_, fun hsome => ?_, fun hsome => ?_⟩
      · rw [EnrollmentEvent.latest_append (by simp [EnrollmentCall.answer])]
        cases hlatest : EnrollmentEvent.latest machine log with
        | none =>
          show none = Option.map p.sha256 (EnrollmentEvent.latest machine log)
          rw [hlatest]
          rfl
        | some credential =>
          obtain ⟨token', hmem⟩ := EnrollmentEvent.mem_of_latest hlatest
          exact absurd (h.redeemed machine token' credential hmem).1 (AList.lookup_eq_none.mp hnew)
      · cases hsome
      · cases hsome
    · cases hnew.symm.trans hrow
    · cases heq
    · cases heq
  | @issueRegistration user machine tokenId token row hrow hopen =>
    have hlatest : EnrollmentEvent.latest machine (log ++ [.issued machine token]) =
        EnrollmentEvent.latest machine log := EnrollmentEvent.latest_append (by simp)
    refine ⟨hsingle, fun row' hrow' => ?_,
      fun row' hrow' => ⟨row', hrow', id, Or.inr ⟨rfl, hlatest⟩⟩, fun m _ _ heq => ?_,
      fun m heq => ?_⟩
    · obtain rfl : row = row' := Option.some.inj (hrow.symm.trans hrow')
      have hcurrent := h.machines machine row hrow
      refine ⟨fun _ => ?_, hcurrent.installed, fun hsome => ?_⟩
      · exact (hcurrent.hash hopen).trans (congrArg _ hlatest.symm)
      · rw [hopen] at hsome
        cases hsome
    · cases heq
    · cases heq

/-- A transaction that only has consumed tokens. -/
theorem single_of_spent {w : Writes} (h : db.Single machine)
    (hspent : ∀ id t, w.tokens.lookup id = some t → t.unused = false) :
    (w.view db machine).Single machine := by
  have hold {id : Uuid} {t : RegistrationToken}
      (ht : (w.view db machine).registrationTokens.lookup id = some t) (hunused : t.unused = true) :
      db.registrationTokens.lookup id = some t := by
    rw [lookup_view_tokens] at ht
    rcases Option.or_eq_some_iff.mp ht with ht | ⟨-, ht⟩
    · cases (hspent id t ht).symm.trans hunused
    · exact ht
  intro id id' t t' ht ht' hm hm' hunused hunused'
  exact h id id' t t' (hold ht hunused) (hold ht' hunused') hm hm' hunused hunused'

/-- What every transaction leaves behind. -/
theorem settles (h : S.Sound p log) (he : S.calls.lookup call = some e)
    (hnext : e.next = .commit) : Settles p log S e := by
  have hsound := h.calls call e he
  obtain ⟨c, started, next, share, w⟩ := e
  obtain rfl : next = .commit := hnext
  cases hsound.stage with
  | issue hrow hsingle => exact h.settles_issue hrow hsingle
  | @register machine installation token credential row w hrow hopen hm hredeems =>
    obtain ⟨wm, tokens⟩ := w
    obtain rfl := hm
    refine ⟨single_of_spent (h.single machine) hredeems.spent, fun row' hrow' => ?_,
      fun row' hrow' => ⟨_, AList.lookup_insert _, fun hsome => ?_, Or.inl ?_⟩,
      fun m token' credential' heq => ?_, fun m heq => ?_⟩
    · obtain rfl := Option.some.inj ((AList.lookup_insert _).symm.trans hrow')
      refine ⟨fun _ => ?_, fun _ => rfl, fun hsome => ?_⟩
      · simp [EnrollmentCall.answer, EnrollmentCall.machine]
      · rw [show row.deletedAt = none from hopen] at hsome
        cases hsome
    · obtain rfl : row = row' := Option.some.inj (hrow.symm.trans hrow')
      rw [hopen] at hsome
      cases hsome
    · obtain rfl : row = row' := Option.some.inj (hrow.symm.trans hrow')
      exact Nat.lt_succ_self _
    · obtain ⟨rfl, rfl, rfl⟩ := EnrollmentEvent.redeemed.inj heq
      obtain ⟨id, t₀, t, hid, -, -, -, ht, hconsumed⟩ := hredeems.token
      refine ⟨rfl, Table.mem_of_lookup hrow, id, t, hid, ?_, hconsumed⟩
      exact lookup_view_tokens.trans (by rw [ht, Option.some_or])
    · cases heq
  | @removed user machine row now w hrow hopen hm hvoid =>
    obtain ⟨wm, tokens⟩ := w
    obtain rfl := hm
    refine ⟨hvoid.single, fun row' hrow' => ?_,
      fun row' hrow' => ⟨_, AList.lookup_insert _, fun _ => rfl, Or.inl ?_⟩,
      fun m token' credential' heq => ?_, fun m heq => ?_⟩
    · obtain rfl := Option.some.inj ((AList.lookup_insert _).symm.trans hrow')
      exact ⟨fun hnone => (nomatch hnone), fun hsome => (nomatch hsome), fun _ => ⟨rfl, hvoid⟩⟩
    · obtain rfl : row = row' := Option.some.inj (hrow.symm.trans hrow')
      exact Nat.lt_succ_self _
    · cases heq
    · obtain rfl := EnrollmentEvent.removed.inj heq
      exact ⟨rfl, _, AList.lookup_insert _, rfl⟩
  | @gone user machine row hrow hdeleted =>
    have hlatest : EnrollmentEvent.latest machine (log ++ [.removed machine]) =
        EnrollmentEvent.latest machine log := EnrollmentEvent.latest_append (by simp)
    refine ⟨single_of_spent (h.single machine) fun id t ht => (nomatch ht), fun row' hrow' => ?_,
      fun row' hrow' => ⟨row', hrow', id, Or.inr ⟨rfl, hlatest⟩⟩,
      fun m token' credential' heq => ?_, fun m heq => ?_⟩
    · obtain rfl : row = row' := Option.some.inj (hrow.symm.trans hrow')
      have hcurrent := h.machines machine row hrow
      refine ⟨fun hopen => ?_, hcurrent.installed, fun _ => ⟨(hcurrent.deleted hdeleted).1, ?_⟩⟩
      · rw [hopen] at hdeleted
        cases hdeleted
      · intro id t ht
        rw [lookup_view_of_empty rfl] at ht
        exact (hcurrent.deleted hdeleted).2 id t ht
    · cases heq
    · obtain rfl := EnrollmentEvent.removed.inj heq
      exact ⟨rfl, row, hrow, hdeleted⟩

/-- A transaction commits. -/
theorem commit (h : S.Sound p log) (he : S.calls.lookup call = some e)
    (hnext : e.next = .commit) :
    { S with
      database := e.writes.view S.database e.call.machine
      calls := S.calls.erase call }.Sound p (log ++ [e.call.answer]) := by
  have hsettles := h.settles he hnext
  have hown := (h.calls call e he).own
  have hsame {m : Uuid} (hm : m ≠ e.call.machine) :
      Database.SameFor m S.database (e.writes.view S.database e.call.machine) :=
    sameFor_view hown h.tokens hm
  have hlatest {m : Uuid} (hm : m ≠ e.call.machine) :
      EnrollmentEvent.latest m (log ++ [e.call.answer]) = EnrollmentEvent.latest m log := by
    refine EnrollmentEvent.latest_append fun token credential heq => hm ?_
    exact (hsettles.redeemed m token credential heq).1
  have hdrawn := drawn_view hown h.tokens
  have hback {k : Uuid} {e' : Enrolling} (hk : (S.calls.erase call).lookup k = some e') :
      k ≠ call ∧ S.calls.lookup k = some e' := by
    by_cases hkc : k = call
    · subst hkc
      rw [AList.lookup_erase] at hk
      cases hk
    · rw [AList.lookup_erase_ne hkc] at hk
      exact ⟨hkc, hk⟩
  have hlock : e.next ≠ .lock := by simp [hnext]
  refine ⟨h.distinct, hdrawn, fun k e' hk => ?_, fun k k' e₁ e₂ hk hk' => ?_, fun m => ?_,
    fun m row' hrow' => ?_, fun c k hk => ?_, fun m token credential hmem => ?_,
    fun m hmem => ?_⟩
  · obtain ⟨hkc, hk⟩ := hback hk
    refine (h.calls k e' hk).congr hdrawn (fun hne => hsame fun heq => hkc ?_) fun _ _ hid => hid
    exact h.locks k call e' e hk he hne hlock heq
  · exact h.locks k k' e₁ e₂ (hback hk).2 (hback hk').2
  · by_cases hm : m = e.call.machine
    · exact hm ▸ hsettles.single
    · exact (h.single m).congr (hsame hm)
  · by_cases hm : m = e.call.machine
    · subst hm
      exact hsettles.current row' hrow'
    · rw [hlatest hm]
      have hcurrent := h.machines m row' ((hsame hm).machines.symm.trans hrow')
      exact ⟨hcurrent.hash, hcurrent.installed, fun hsome =>
        (hcurrent.deleted hsome).imp_right fun hvoid => hvoid.congr (hsame hm)⟩
  · obtain ⟨row, hrow, hle, hcurrent⟩ := h.connections c k hk
    by_cases hm : k.machine = e.call.machine
    · rw [hm] at hrow
      obtain ⟨row', hrow', -, hlt | ⟨rfl, hlog⟩⟩ := hsettles.kept row hrow
      · refine ⟨row', hm ▸ hrow', by omega, fun heq => ?_⟩
        omega
      · refine ⟨row', hm ▸ hrow', hle, fun heq => ?_⟩
        obtain ⟨hopen, hcredential⟩ := hcurrent heq
        rw [hm] at hcredential ⊢
        exact ⟨hopen, hlog.trans hcredential⟩
    · exact ⟨row, (hsame hm).machines.trans hrow, hle, fun heq =>
        (hcurrent heq).imp_right (hlatest hm).trans⟩
  · have hmachine {m : Uuid} (hm : m ∈ S.database.machines) :
        m ∈ (e.writes.view S.database e.call.machine).machines := by
      rw [Writes.view]
      cases e.writes.machine with
      | none => exact hm
      | some row => exact (AList.mem_insert _).mpr (Or.inr hm)
    rcases List.mem_append.mp hmem with hmem | hmem
    · obtain ⟨hm, id, t, hid, ht, hconsumed⟩ := h.redeemed m token credential hmem
      refine ⟨hmachine hm, id, t, hid, lookup_view_tokens.trans ?_, hconsumed⟩
      rw [ht, Option.or_eq_some_iff]
      refine Or.inr ⟨?_, rfl⟩
      by_contra hsome
      obtain ⟨t', ht'⟩ := Option.ne_none_iff_exists'.mp hsome
      have hunused := (hown id t' ht').2.2 t ht
      rw [RegistrationToken.unused, Bool.and_eq_true, Option.isNone_iff_eq_none] at hunused
      rw [hunused.1] at hconsumed
      cases hconsumed
    · obtain ⟨-, hm, hrest⟩ :=
        hsettles.redeemed m token credential (List.mem_singleton.mp hmem).symm
      exact ⟨hmachine hm, hrest⟩
  · rcases List.mem_append.mp hmem with hmem | hmem
    · obtain ⟨row, hrow, hdeleted⟩ := h.removed m hmem
      by_cases hm : m = e.call.machine
      · subst hm
        obtain ⟨row', hrow', hkept, -⟩ := hsettles.kept row hrow
        exact ⟨row', hrow', hkept hdeleted⟩
      · exact ⟨row, (hsame hm).machines.trans hrow, hdeleted⟩
    · obtain ⟨rfl, hrest⟩ := hsettles.removed m (List.mem_singleton.mp hmem).symm
      exact hrest

/-- Every step keeps the database, the transactions and the connections in agreement. -/
theorem step {a : EnrollmentAction} {es : List EnrollmentEvent} (h : S.Sound p log)
    (hsha : Function.Injective p.sha256) (hstep : S.step p a = some (S', es)) :
    S'.Sound p (log ++ es) := by
  have heff := effect_of_enrollmentStep hstep
  cases heff with
  | settings hm ht hf hfree hS =>
    rw [hS, List.append_nil]
    exact h.of_mapRows hm ht hf hfree
  | begin hcall hdrawn hS =>
    rw [hS, List.append_nil]
    exact h.begin hdrawn
  | erase hS =>
    rw [hS, List.append_nil]
    exact h.erase
  | statement he hfree hs hS =>
    rw [hS, List.append_nil]
    exact h.statement hsha he hfree hs
  | commit he hnext hS =>
    rw [hS]
    exact h.commit he hnext
  | upgrade hauth hS =>
    rw [hS]
    exact h.upgrade hsha hauth
  | pass hk htouch hS =>
    rw [hS]
    exact h.of_connections (fun m => EnrollmentEvent.latest_append (by simp))
      (fun e he => ⟨_, _, _, Or.inr (List.mem_singleton.mp he)⟩) fun c k hk => Or.inl hk
  | @refuse connection hS =>
    rcases hS with rfl | rfl
    · rwa [List.append_nil]
    · refine h.of_connections (fun m => by rw [List.append_nil]) (fun e he => nomatch he)
        fun c k hk => Or.inl ?_
      by_cases hc : c = connection
      · subst hc
        rw [AList.lookup_erase] at hk
        cases hk
      · rwa [AList.lookup_erase_ne hc] at hk

/-- How everything agrees, along every run. -/
theorem of_run (hsha : Function.Injective p.sha256) (h : (enrollmentSystem p).Run log S) :
    S.Sound p log := by
  refine h.invariant (I := fun log S => S.Sound p log) (fun S hS => ?_)
    fun _ hsound hstep => hsound.step hsha hstep
  obtain rfl : S = .init := hS
  exact init

/-- What a session whose version is checked has to show. -/
theorem current_of_touch {c : Uuid} {k : Admitted} (h : S.Sound p log)
    (hk : S.connections.lookup c = some k)
    (htouch : touch S.database k.machine k.version = true) :
    EnrollmentEvent.latest k.machine log = some k.credential ∧ .removed k.machine ∉ log := by
  obtain ⟨row, hrow, hle, hcurrent⟩ := h.connections c k hk
  rw [touch, hrow, Option.any_some, Bool.and_eq_true, beq_iff_eq,
    Option.isNone_iff_eq_none] at htouch
  refine ⟨(hcurrent htouch.1.symm).2, fun hmem => ?_⟩
  obtain ⟨row', hrow', hdeleted⟩ := h.removed k.machine hmem
  obtain rfl := Option.some.inj (hrow.symm.trans hrow')
  rw [htouch.2] at hdeleted
  cases hdeleted

/-- A credential whose version does not rise does not change. -/
theorem credential_of_step {a : EnrollmentAction} {es : List EnrollmentEvent} (h : S.Sound p log)
    (hstep : S.step p a = some (S', es)) {row row' : Machine}
    (hrow : S.database.machines.lookup m = some row)
    (hrow' : S'.database.machines.lookup m = some row') :
    row'.credentialHash = row.credentialHash ∨ row.credentialVersion < row'.credentialVersion := by
  have hsame (hdb : S'.database = S.database) : row'.credentialHash = row.credentialHash := by
    rw [hdb] at hrow'
    rw [Option.some.inj (hrow.symm.trans hrow')]
  have heff := effect_of_enrollmentStep hstep
  cases heff with
  | @settings f hm ht hf =>
    rw [hm, Table.lookup_mapRows, hrow] at hrow'
    rw [← Option.some.inj hrow']
    exact Or.inl (hf m row).2.1
  | begin _ _ hS => exact Or.inl (hsame (by rw [hS]))
  | erase hS => exact Or.inl (hsame (by rw [hS]))
  | statement _ _ _ hS => exact Or.inl (hsame (by rw [hS]))
  | @commit call e he hnext hS =>
    rw [hS] at hrow'
    by_cases hm : m = e.call.machine
    · subst hm
      obtain ⟨row'', hrow'', -, hlt | ⟨rfl, -⟩⟩ := (h.settles he hnext).kept row hrow
      · rw [Option.some.inj (hrow'.symm.trans hrow'')]
        exact Or.inr hlt
      · rw [Option.some.inj (hrow'.symm.trans hrow'')]
        exact Or.inl rfl
    · have hkept := (sameFor_view (h.calls call e he).own h.tokens hm).machines
      rw [Option.some.inj (hrow'.symm.trans (hkept.trans hrow))]
      exact Or.inl rfl
  | upgrade _ hS => exact Or.inl (hsame (by rw [hS]))
  | pass _ _ hS => exact Or.inl (hsame (by rw [hS]))
  | refuse hS => exact Or.inl (hsame (by rcases hS with rfl | rfl <;> rfl))

/-- A machine whose row was not deleted was not removed. -/
theorem not_removed (h : S.Sound p log) {row : Machine}
    (hrow : S.database.machines.lookup m = some row) (hopen : row.deletedAt = none) :
    .removed m ∉ log := by
  intro hmem
  obtain ⟨row', hrow', hdeleted⟩ := h.removed m hmem
  rw [Option.some.inj (hrow'.symm.trans hrow), hopen] at hdeleted
  cases hdeleted

/-- What a commit has to do with the past. -/
theorem lawful_answer (h : S.Sound p log) (he : S.calls.lookup call = some e)
    (hnext : e.next = .commit) : e.call.answer.Lawful log := by
  have hsound := h.calls call e he
  obtain ⟨c, started, next, share, w⟩ := e
  obtain rfl : next = .commit := hnext
  cases hsound.stage with
  | issue hrow hsingle =>
    cases c with
    | create => trivial
    | issueRegistration => trivial
    | register => nomatch hrow
    | remove => nomatch hrow
  | @register machine installation token credential row w hrow hopen hm hredeems =>
    refine ⟨fun machine' credential' hmem => ?_, h.not_removed hrow hopen⟩
    obtain ⟨-, id', t', hid', ht', hconsumed⟩ := h.redeemed machine' token credential' hmem
    obtain ⟨id, t₀, t, hid, ht₀, -, hnone, -⟩ := hredeems.token
    obtain rfl := h.distinct id' id machine' machine token hid' hid
    rw [Option.some.inj (ht'.symm.trans ht₀), hnone] at hconsumed
    cases hconsumed
  | removed => trivial
  | gone => trivial

/-- What every event has to do with the past. -/
theorem lawful_of_step {a : EnrollmentAction} {es : List EnrollmentEvent} (h : S.Sound p log)
    (hsha : Function.Injective p.sha256) (hstep : S.step p a = some (S', es)) :
    es = [] ∨ ∃ e, es = [e] ∧ e.Lawful log := by
  have heff := effect_of_enrollmentStep hstep
  cases heff with
  | settings => exact Or.inl rfl
  | begin => exact Or.inl rfl
  | erase => exact Or.inl rfl
  | statement => exact Or.inl rfl
  | commit he hnext => exact Or.inr ⟨_, rfl, h.lawful_answer he hnext⟩
  | upgrade hauth =>
    obtain ⟨row, hrow, hopen, -⟩ := row_of_authenticate hauth
    exact Or.inr ⟨_, rfl, (h.authenticate_iff hsha hrow hopen).mp ⟨_, hauth⟩,
      h.not_removed hrow hopen⟩
  | pass hk htouch => exact Or.inr ⟨_, rfl, h.current_of_touch hk htouch⟩
  | refuse => exact Or.inl rfl

end Enrollment.Sound

/-- **Enrollment.** A machine has at most one token that can be redeemed. A token is redeemed once.
While a machine is not deleted, the credential that is accepted is the one that its last
registration has handed out, and only connections with this credential pass the check of their
version. The version rises with every change of the credential. When a machine was removed, no
token is redeemed, no credential is accepted and no version passes. -/
theorem enrollment (hsha : Function.Injective p.sha256) (h : (enrollmentSystem p).Run log S) :
    (∀ now m id id' t t' hash hash', S.database.registrationTokens.lookup id = some t →
      S.database.registrationTokens.lookup id' = some t' → t.redeemable now m hash = true →
      t'.redeemable now m hash' = true → id = id') ∧
    (∀ past e rest, log = past ++ e :: rest → e.Lawful past) ∧
    (∀ m row credential, S.database.machines.lookup m = some row → row.deletedAt = none →
      ((∃ x, authenticate p S.database m credential = .ok x) ↔
        EnrollmentEvent.latest m log = some credential)) ∧
    (∀ c k, S.connections.lookup c = some k → touch S.database k.machine k.version = true →
      EnrollmentEvent.latest k.machine log = some k.credential ∧ .removed k.machine ∉ log) ∧
    (∀ a S' es m row row', S.step p a = some (S', es) →
      S.database.machines.lookup m = some row → S'.database.machines.lookup m = some row' →
      row'.credentialHash ≠ row.credentialHash →
      row.credentialVersion < row'.credentialVersion) ∧
    ∀ m, .removed m ∈ log → (∀ credential x, authenticate p S.database m credential ≠ .ok x) ∧
      ∀ version, touch S.database m version = false := by
  have hsound := Enrollment.Sound.of_run hsha h
  refine ⟨fun now m id id' t t' hash hash' ht ht' hr hr' => ?_, fun past e rest hlog => ?_,
    fun m row credential hrow hopen => hsound.authenticate_iff hsha hrow hopen,
    fun c k hk htouch => hsound.current_of_touch hk htouch,
    fun a S' es m row row' hstep hrow hrow' hne =>
      (hsound.credential_of_step hstep hrow hrow').resolve_left hne, fun m hmem => ?_⟩
  · simp only [RegistrationToken.redeemable, Bool.and_eq_true, decide_eq_true_eq] at hr hr'
    refine hsound.single m id id' t t' ht ht' hr.1.1.1.1 hr'.1.1.1.1 ?_ ?_
    · rw [RegistrationToken.unused, hr.1.1.2, hr.1.2]
      rfl
    · rw [RegistrationToken.unused, hr'.1.1.2, hr'.1.2]
      rfl
  · refine h.each (L := fun past e => e.Lawful past) ?_ hlog
    intro log S a S' es before e after hrun hstep hes
    rcases (Enrollment.Sound.of_run hsha hrun).lawful_of_step hsha hstep with rfl | ⟨e', rfl, hlaw⟩
    · cases before <;> cases hes
    · cases before with
      | nil =>
        obtain ⟨rfl, -⟩ := List.cons.inj hes
        rwa [List.append_nil]
      | cons x before => cases before <;> cases (List.cons.inj hes).2
  · obtain ⟨row, hrow, hdeleted⟩ := hsound.removed m hmem
    refine ⟨fun credential x hauth => ?_, fun version => ?_⟩
    · obtain ⟨row', hrow', hopen, -⟩ := Enrollment.Sound.row_of_authenticate hauth
      rw [Option.some.inj (hrow.symm.trans hrow'), hopen] at hdeleted
      cases hdeleted
    · rw [touch, hrow, Option.any_some, Option.isNone_eq_false_iff.mpr hdeleted, Bool.and_false]

end

/-! ### Two hosts with one token -/

/-- Two hosts register as machine 2 with one token, and the first one connects. -/
def raceActions : List EnrollmentAction :=
  [.createUser (.numbered 1) "https://example.com" none,
    .begin (.numbered 6) (.create (.numbered 1) (.numbered 2) (.numbered 0) "token"),
    .proceed (.numbered 6), .proceed (.numbered 6), .proceed (.numbered 6), .proceed (.numbered 6),
    .begin (.numbered 7) (.register (.numbered 2) "token" (.numbered 3) "first"),
    .begin (.numbered 8) (.register (.numbered 2) "token" (.numbered 5) "second"),
    .proceed (.numbered 7), .proceed (.numbered 7), .proceed (.numbered 7), .proceed (.numbered 7),
    .proceed (.numbered 7), .proceed (.numbered 8), .proceed (.numbered 8), .proceed (.numbered 8),
    .upgrade (.numbered 4) (.numbered 2) "first"]

/-- The second host is refused, and the credential of the first one is accepted. -/
theorem enrollment_race :
    ∃ (S : Enrollment) (log : List EnrollmentEvent),
      (enrollmentSystem plainPlatform).Run log S ∧ S.calls.lookup (.numbered 8) = none ∧
      EnrollmentEvent.latest (.numbered 2) log = some "first" ∧
      ∀ x, authenticate plainPlatform S.database (.numbered 2) "second" ≠ .ok x := by
  have hend : ((enrollmentSystem plainPlatform).exec .init raceActions).any (fun r =>
      (r.1.calls.lookup (.numbered 8)).isNone &&
        ((r.1.database.machines.lookup (.numbered 2)).any fun row => row.deletedAt.isNone) &&
        (match authenticate plainPlatform r.1.database (.numbered 2) "first" with
          | .ok _ => true
          | .error _ => false)) = true := by
    decide +kernel
  obtain ⟨r, hr, hcond⟩ := (Option.any_eq_true _ _).mp hend
  obtain ⟨hstate, hauth⟩ := (Bool.and_eq_true _ _).mp hcond
  obtain ⟨hcall, hmachine⟩ := (Bool.and_eq_true _ _).mp hstate
  obtain ⟨row, hrow, hopen⟩ := (Option.any_eq_true _ _).mp hmachine
  have hrun : (enrollmentSystem plainPlatform).Run r.2 r.1 := ⟨_, rfl, .of_exec hr⟩
  obtain ⟨-, -, hexact, -⟩ := enrollment (p := plainPlatform) (fun _ _ h => h) hrun
  have hiff (credential : String) :=
    hexact (.numbered 2) row credential hrow (Option.isNone_iff_eq_none.mp hopen)
  split at hauth
  · next x hx =>
    have hlatest := (hiff "first").mp ⟨x, hx⟩
    refine ⟨r.1, r.2, hrun, Option.isNone_iff_eq_none.mp hcall, hlatest, fun y hy => ?_⟩
    have hother := (hiff "second").mp ⟨y, hy⟩
    rw [hlatest] at hother
    simp at hother
  · cases hauth

end ExecutionProvider.Gateway
