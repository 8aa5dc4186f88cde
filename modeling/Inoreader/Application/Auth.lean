import Inoreader.Repository.Identity
import Inoreader.Lib.Except

/-!
# The authentication service (`reader-application/src/auth.rs`)

A method of the service makes one repository call after another and hashes passwords in between.
`AuthCall` says where a method is: its arguments, or what it has read and is about to use in its next
repository call. What it draws at random comes with its arguments.
-/

namespace Inoreader
open Lib

inductive AuthError
  | invalidCredentials
  | invalidToken
  | invalidUsername
  | weakPassword
  | adminRequired
  | usernameExists
  | repository (e : RepositoryError)
  | hashing
deriving DecidableEq, Repr

/-- Argon2id and SHA-256; a hash also depends on its salt. -/
structure AuthCrypto where
  hashPassword : Nat → String → Option String
  verifyPassword : String → String → Bool
  tokenHash : String → String

structure AuthPolicy where
  sessionLifetimeSeconds : Nat
  inviteLifetimeSeconds : Nat
  resetLifetimeSeconds : Nat
deriving DecidableEq, Repr

/-- Fail with `e` unless `p` holds. -/
def demand (p : Prop) [Decidable p] (e : AuthError) : Except AuthError Unit := if p then .ok () else .error e

/-- `seconds`: a duration holds whole milliseconds of 64 bits. -/
def authSeconds (value : Nat) : Except AuthError Int :=
  if value ≤ bigintMax / 1000 then .ok (value * 1000000000) else .error .invalidToken

def validateUsername (value : String) : Except AuthError Unit :=
  demand (¬ (value = "" ∨ isTrimmed value = false ∨ 254 < value.utf8ByteSize)) .invalidUsername

def validatePassword (value : String) : Except AuthError Unit :=
  demand (¬ value.length < 12) .weakPassword

inductive AuthCall
  | authenticate (raw : String) (now : DateTime)
  | authenticateAccount (session : SessionRecord) (now : DateTime)
  | signIn (username password : String) (now : DateTime) (raw : String) (id : Nat)
  | signInStore (session : SessionRecord)
  | signOut (session : SessionRecord)
  | createInvite (actor : AccountRecord) (username : String) (now : DateTime) (raw : String) (id : Nat)
  | createInviteStore (invite : InviteRecord)
  | acceptInvite (raw username password : String) (now : DateTime) (account : AccountId) (salt : Nat)
      (workspace : WorkspaceId)
  | acceptInviteUsername (invite : InviteRecord) (username password : String) (now : DateTime) (account : AccountId)
      (salt : Nat) (workspace : WorkspaceId)
  | acceptInviteStore (expected : Nat) (invite : InviteRecord) (account : AccountRecord) (workspace : Workspace)
  | changePassword (account : AccountId) (current new : String) (salt : Nat)
  | changePasswordStore (expected : Nat) (account : AccountRecord)
  | resetPassword (raw new : String) (now : DateTime) (salt : Nat)
  | resetPasswordAccount (reset : PasswordResetRecord) (new : String) (now : DateTime) (salt : Nat)
  | resetPasswordStore (resetRevision : Nat) (reset : PasswordResetRecord) (accountRevision : Nat) (account : AccountRecord)
  | createPasswordReset (actor : AccountRecord) (username : String) (now : DateTime) (raw : String) (id : Nat)
  | createPasswordResetStore (reset : PasswordResetRecord)
  | bootstrapAdmin (username password : String) (account : AccountId) (salt : Nat) (workspace : WorkspaceId)
  | bootstrapAdminStore (account : AccountRecord) (workspace : Workspace)
deriving DecidableEq, Repr

/-- What a repository call leaves of a method. -/
inductive AuthProgress
  | next (call : AuthCall)
  | finished
  | failed (e : AuthError)
deriving DecidableEq, Repr

/-- The method goes on with what the call returned, or fails. -/
def AuthProgress.of (r : Except AuthError AuthCall) : AuthProgress :=
  match r with
  | .ok call => .next call
  | .error e => .failed e

/-- The result of a call that only reads. -/
def IdentityDb.read {α : Type} (db : IdentityDb) (m : IdentityTx α) : Except RepositoryError α := (m db).map (·.1)

section
variable (crypto : AuthCrypto) (policy : AuthPolicy)

/-- A read that finds nothing is an invalid token. -/
def tokenError : RepositoryError → AuthError
  | .notFound => .invalidToken
  | e => .repository e

def credentialsError : RepositoryError → AuthError
  | .notFound => .invalidCredentials
  | e => .repository e

/-- `account_by_username` must find nothing. -/
def requireFreeUsername (r : Except RepositoryError AccountRecord) : Except AuthError Unit :=
  match r with
  | .error .notFound => .ok ()
  | .ok _ => .error .usernameExists
  | .error e => .error (.repository e)

def hashPassword (salt : Nat) (password : String) : Except AuthError String := do
  validatePassword password
  match crypto.hashPassword salt password with
  | some h => .ok h
  | none => .error .hashing

/-- What a method does with the result of a read. -/
def authRead (db : IdentityDb) : AuthCall → Except AuthError AuthCall
  | .authenticate raw now => do
    let session ← (db.read (sessionByVerifierHash (crypto.tokenHash raw))).mapError tokenError
    demand (¬ (session.expiresAt ≤ now)) .invalidToken
    pure (.authenticateAccount session now)
  | .signIn username password now raw id => do
    validateUsername username
    let account ← (db.read (accountByUsername username)).mapError credentialsError
    demand (crypto.verifyPassword password account.passwordHash) .invalidCredentials
    let lifetime ← authSeconds policy.sessionLifetimeSeconds
    pure (.signInStore
      { id, verifierHash := crypto.tokenHash raw, accountId := account.id, accountAuthRevision := account.authRevision
        expiresAt := now + lifetime, revision := 0 })
  | .createInvite actor username now raw id => do
    demand actor.admin .adminRequired
    validateUsername username
    requireFreeUsername (db.read (accountByUsername username))
    let lifetime ← authSeconds policy.inviteLifetimeSeconds
    pure (.createInviteStore
      { id, tokenHash := crypto.tokenHash raw, username, createdBy := actor.id, expiresAt := now + lifetime
        consumedAt := none, revision := 0 })
  | .acceptInvite raw username password now account salt workspace => do
    validateUsername username
    validatePassword password
    let invite ← (db.read (inviteByTokenHash (crypto.tokenHash raw))).mapError tokenError
    demand (¬ (invite.expiresAt ≤ now ∨ invite.consumedAt.isSome ∨ invite.username ≠ username)) .invalidToken
    pure (.acceptInviteUsername invite username password now account salt workspace)
  | .acceptInviteUsername invite username password now account salt workspace => do
    requireFreeUsername (db.read (accountByUsername username))
    let passwordHash ← hashPassword crypto salt password
    pure (.acceptInviteStore invite.revision { invite with consumedAt := some now, revision := invite.revision + 1 }
      { id := account, username, passwordHash, admin := false, authRevision := 0, revision := 0 }
      (.new workspace account))
  | .changePassword id current new salt => do
    validatePassword new
    let account ← (db.read (readAccount id)).mapError .repository
    demand (crypto.verifyPassword current account.passwordHash) .invalidCredentials
    let passwordHash ← hashPassword crypto salt new
    pure (.changePasswordStore account.revision
      { account with passwordHash, authRevision := account.authRevision + 1, revision := account.revision + 1 })
  | .resetPassword raw new now salt => do
    validatePassword new
    let reset ← (db.read (passwordResetByTokenHash (crypto.tokenHash raw))).mapError tokenError
    demand (¬ (reset.expiresAt ≤ now ∨ reset.consumedAt.isSome)) .invalidToken
    pure (.resetPasswordAccount reset new now salt)
  | .resetPasswordAccount reset new now salt => do
    let account ← (db.read (readAccount reset.accountId)).mapError .repository
    let passwordHash ← hashPassword crypto salt new
    pure (.resetPasswordStore reset.revision { reset with consumedAt := some now, revision := reset.revision + 1 }
      account.revision
      { account with passwordHash, authRevision := account.authRevision + 1, revision := account.revision + 1 })
  | .createPasswordReset actor username now raw id => do
    demand actor.admin .adminRequired
    validateUsername username
    let account ← (db.read (accountByUsername username)).mapError .repository
    let lifetime ← authSeconds policy.resetLifetimeSeconds
    pure (.createPasswordResetStore
      { id, tokenHash := crypto.tokenHash raw, accountId := account.id, expiresAt := now + lifetime, consumedAt := none
        revision := 0 })
  | .bootstrapAdmin username password account salt workspace => do
    validateUsername username
    validatePassword password
    requireFreeUsername (db.read (accountByUsername username))
    let passwordHash ← hashPassword crypto salt password
    pure (.bootstrapAdminStore { id := account, username, passwordHash, admin := true, authRevision := 0, revision := 0 }
      (.new workspace account))
  | call => .ok call

/-- The last repository call of a method, when it writes. -/
def authStore : AuthCall → Option (IdentityTx Unit)
  | .signInStore session => some (saveSession none session)
  | .signOut session => some (deleteSession session.verifierHash session.revision)
  | .createInviteStore invite => some (saveInvite none invite)
  | .acceptInviteStore expected invite account workspace =>
    some (consumeInviteCreateAccountAndWorkspace expected invite account workspace)
  | .changePasswordStore expected account => some (saveAccount (some expected) account)
  | .resetPasswordStore resetRevision reset accountRevision account =>
    some (consumeResetAndUpdateAccount resetRevision reset accountRevision account)
  | .createPasswordResetStore reset => some (savePasswordReset none reset)
  | .bootstrapAdminStore account workspace => some (createAccountAndWorkspace account workspace)
  | _ => none

/-- The end of `authenticate`. -/
def authenticateEnd (session : SessionRecord) (db : IdentityDb) : Except AuthError Unit := do
  let account ← (db.read (readAccount session.accountId)).mapError .repository
  demand (session.accountAuthRevision = account.authRevision) .invalidToken

/-- One repository call of a method and what the method does up to its next one. -/
def authStep (call : AuthCall) (db : IdentityDb) : AuthProgress × IdentityDb :=
  match authStore call with
  | some tx =>
    match tx db with
    | .ok (_, db') => (.finished, db')
    | .error e => (.failed (.repository e), db)
  | none =>
    match call with
    | .authenticateAccount session _ =>
      match authenticateEnd session db with
      | .ok _ => (.finished, db)
      | .error e => (.failed e, db)
    | call => (.of (authRead crypto policy db call), db)

end

/-! ## What a repository call returned -/

section
variable {db db' : IdentityDb}

theorem demand_ok {p : Prop} [Decidable p] {e : AuthError} {u : Unit} : demand p e = .ok u ↔ p := by
  unfold demand
  split
  · exact ⟨fun _ => ‹p›, fun _ => rfl⟩
  · constructor
    · intro h
      cases h
    · exact fun h => absurd h ‹¬ p›

theorem casRow_ok {κ ν : Type} [DecidableEq κ] {revision : ν → Nat} {t t' : Table κ ν} {id : κ}
    {expected : Option Nat} {v : ν} (h : casRow revision t id expected v = .ok t') :
    (t.lookup id).map revision = expected ∧ t' = t.insert id v := by
  unfold casRow at h
  split at h
  · split at h
    · rename_i hrev
      cases h
      exact ⟨hrev, rfl⟩
    · cases h
  · cases h

theorem read_orThrow_ok {α : Type} {f : IdentityDb → Option α} {e : RepositoryError} {a : α} :
    db.read (do let db ← Tx.get; Tx.orThrow (f db) e) = .ok a ↔ f db = some a := by
  unfold IdentityDb.read
  rw [except_map_ok]
  constructor
  · rintro ⟨⟨b, db'⟩, hr, rfl⟩
    rw [Tx.bind_get_ok] at hr
    cases hf : f db with
    | none =>
      rw [hf] at hr
      cases hr
    | some b =>
      rw [hf] at hr
      cases hr
      rfl
  · intro hf
    refine ⟨(a, db), ?_, rfl⟩
    rw [Tx.bind_get_ok, hf]
    rfl

theorem read_account_ok {id : AccountId} {a : AccountRecord} :
    db.read (readAccount id) = .ok a ↔ db.accounts.lookup id = some a :=
  read_orThrow_ok (f := fun db => db.accounts.lookup id)

theorem read_session_ok {h : String} {s : SessionRecord} :
    db.read (sessionByVerifierHash h) = .ok s ↔ db.sessions.lookup h = some s :=
  read_orThrow_ok (f := fun db => db.sessions.lookup h)

theorem read_invite_ok {h : String} {v : InviteRecord} :
    db.read (inviteByTokenHash h) = .ok v ↔ db.invites.lookup h = some v :=
  read_orThrow_ok (f := fun db => db.invites.lookup h)

theorem read_reset_ok {h : String} {v : PasswordResetRecord} :
    db.read (passwordResetByTokenHash h) = .ok v ↔ db.passwordResets.lookup h = some v :=
  read_orThrow_ok (f := fun db => db.passwordResets.lookup h)

theorem read_accountByUsername_ok {username : String} {a : AccountRecord}
    (h : db.read (accountByUsername username) = .ok a) :
    ∃ id, db.usernameReservations.lookup username = some id ∧ db.accounts.lookup id = some a := by
  unfold IdentityDb.read at h
  obtain ⟨⟨b, t⟩, hr, rfl⟩ := except_map_ok.1 h
  unfold accountByUsername at hr
  rw [Tx.bind_get_ok] at hr
  obtain ⟨id, hid, hr⟩ := Tx.bind_orThrow_ok.1 hr
  refine ⟨id, hid, read_account_ok.1 ?_⟩
  rw [IdentityDb.read, hr]
  rfl

/-! ## The writes -/

theorem casAccount_ok {expected : Option Nat} {v : AccountRecord} {u : Unit} (h : casAccount expected v db = .ok (u, db')) :
    (db.accounts.lookup v.id).map AccountRecord.revision = expected ∧
      db' = { db with accounts := db.accounts.insert v.id v } := by
  obtain ⟨t, ht, heq⟩ := except_map_ok.1 h
  obtain ⟨hrev, rfl⟩ := casRow_ok ht
  cases heq
  exact ⟨hrev, rfl⟩

theorem casInvite_ok {expected : Option Nat} {v : InviteRecord} {u : Unit} (h : casInvite expected v db = .ok (u, db')) :
    (db.invites.lookup v.tokenHash).map InviteRecord.revision = expected ∧
      db' = { db with invites := db.invites.insert v.tokenHash v } := by
  obtain ⟨t, ht, heq⟩ := except_map_ok.1 h
  obtain ⟨hrev, rfl⟩ := casRow_ok ht
  cases heq
  exact ⟨hrev, rfl⟩

theorem casSession_ok {expected : Option Nat} {v : SessionRecord} {u : Unit} (h : casSession expected v db = .ok (u, db')) :
    (db.sessions.lookup v.verifierHash).map SessionRecord.revision = expected ∧
      db' = { db with sessions := db.sessions.insert v.verifierHash v } := by
  obtain ⟨t, ht, heq⟩ := except_map_ok.1 h
  obtain ⟨hrev, rfl⟩ := casRow_ok ht
  cases heq
  exact ⟨hrev, rfl⟩

theorem casPasswordReset_ok {expected : Option Nat} {v : PasswordResetRecord} {u : Unit}
    (h : casPasswordReset expected v db = .ok (u, db')) :
    (db.passwordResets.lookup v.tokenHash).map PasswordResetRecord.revision = expected ∧
      db' = { db with passwordResets := db.passwordResets.insert v.tokenHash v } := by
  obtain ⟨t, ht, heq⟩ := except_map_ok.1 h
  obtain ⟨hrev, rfl⟩ := casRow_ok ht
  cases heq
  exact ⟨hrev, rfl⟩

theorem casWorkspace_ok {expected : Option Nat} {v : Workspace} {u : Unit} (h : casWorkspace expected v db = .ok (u, db')) :
    db' = { db with workspaces := db.workspaces.insert v.id v } := by
  obtain ⟨t, ht, heq⟩ := except_map_ok.1 h
  obtain ⟨-, rfl⟩ := casRow_ok ht
  cases heq
  rfl

theorem reserveUsername_ok {username : String} {id : AccountId} {u : Unit}
    (h : reserveUsername username id db = .ok (u, db')) :
    db.usernameReservations.lookup username = none ∧
      db' = { db with usernameReservations := db.usernameReservations.insert username id } := by
  unfold reserveUsername at h
  rw [Tx.bind_get_ok] at h
  obtain ⟨hfree, h⟩ := Tx.bind_require_ok.1 h
  cases h
  exact ⟨hfree, rfl⟩

theorem deleteSession_ok {hash : String} {expected : Nat} {u : Unit} (h : deleteSession hash expected db = .ok (u, db')) :
    (∃ s, db.sessions.lookup hash = some s) ∧ db' = { db with sessions := db.sessions.erase hash } := by
  unfold deleteSession at h
  rw [Tx.bind_get_ok] at h
  obtain ⟨hrow, h⟩ := Tx.bind_require_ok.1 h
  cases h
  refine ⟨?_, rfl⟩
  cases hs : db.sessions.lookup hash with
  | none =>
    rw [hs] at hrow
    cases hrow
  | some s => exact ⟨s, rfl⟩

theorem saveAccount_ok {expected : Nat} {a : AccountRecord} {u : Unit}
    (h : saveAccount (some expected) a db = .ok (u, db')) :
    (∃ cur, db.accounts.lookup a.id = some cur ∧ cur.revision = expected) ∧
      db' = { db with accounts := db.accounts.insert a.id a } := by
  unfold saveAccount at h
  obtain ⟨_, t, honly, h⟩ := Tx.bind_ok.1 h
  cases honly
  obtain ⟨hrev, rfl⟩ := casAccount_ok h
  exact ⟨Option.map_eq_some_iff.1 hrev, rfl⟩

theorem createAccountAndWorkspace_ok {a : AccountRecord} {v : Workspace} {u : Unit}
    (h : createAccountAndWorkspace a v db = .ok (u, db')) :
    db.usernameReservations.lookup a.username = none ∧ db.accounts.lookup a.id = none ∧
      db' = { db with
        usernameReservations := db.usernameReservations.insert a.username a.id
        accounts := db.accounts.insert a.id a
        workspaces := db.workspaces.insert v.id v } := by
  unfold createAccountAndWorkspace at h
  obtain ⟨-, h⟩ := Tx.bind_require_ok.1 h
  obtain ⟨_, t₁, h₁, h⟩ := Tx.bind_ok.1 h
  obtain ⟨hfree, rfl⟩ := reserveUsername_ok h₁
  obtain ⟨_, t₂, h₂, h⟩ := Tx.bind_ok.1 h
  obtain ⟨hnew, rfl⟩ := casAccount_ok h₂
  refine ⟨hfree, Option.map_eq_none_iff.1 hnew, ?_⟩
  rw [casWorkspace_ok h]

theorem consumeInvite_ok {expected : Nat} {invite : InviteRecord} {a : AccountRecord} {v : Workspace} {u : Unit}
    (h : consumeInviteCreateAccountAndWorkspace expected invite a v db = .ok (u, db')) :
    (∃ cur, db.invites.lookup invite.tokenHash = some cur ∧ cur.revision = expected) ∧
      db.usernameReservations.lookup a.username = none ∧ db.accounts.lookup a.id = none ∧
      db' = { db with
        invites := db.invites.insert invite.tokenHash invite
        usernameReservations := db.usernameReservations.insert a.username a.id
        accounts := db.accounts.insert a.id a
        workspaces := db.workspaces.insert v.id v } := by
  unfold consumeInviteCreateAccountAndWorkspace at h
  obtain ⟨-, h⟩ := Tx.bind_require_ok.1 h
  rw [Tx.bind_get_ok] at h
  obtain ⟨-, h⟩ := Tx.bind_require_ok.1 h
  obtain ⟨_, t₀, h₀, h⟩ := Tx.bind_ok.1 h
  obtain ⟨hrev, rfl⟩ := casInvite_ok h₀
  obtain ⟨_, t₁, h₁, h⟩ := Tx.bind_ok.1 h
  obtain ⟨hfree, rfl⟩ := reserveUsername_ok h₁
  obtain ⟨_, t₂, h₂, h⟩ := Tx.bind_ok.1 h
  obtain ⟨hnew, rfl⟩ := casAccount_ok h₂
  refine ⟨Option.map_eq_some_iff.1 hrev, hfree, Option.map_eq_none_iff.1 hnew, ?_⟩
  rw [casWorkspace_ok h]

theorem consumeReset_ok {expectedReset expected : Nat} {reset : PasswordResetRecord} {a : AccountRecord} {u : Unit}
    (h : consumeResetAndUpdateAccount expectedReset reset expected a db = .ok (u, db')) :
    (∃ cur, db.passwordResets.lookup reset.tokenHash = some cur ∧ cur.revision = expectedReset) ∧
      (∃ cur, db.accounts.lookup a.id = some cur ∧ cur.revision = expected) ∧
      db' = { db with
        passwordResets := db.passwordResets.insert reset.tokenHash reset
        accounts := db.accounts.insert a.id a } := by
  unfold consumeResetAndUpdateAccount at h
  obtain ⟨-, h⟩ := Tx.bind_require_ok.1 h
  obtain ⟨_, t₁, h₁, h⟩ := Tx.bind_ok.1 h
  obtain ⟨hrev, rfl⟩ := casPasswordReset_ok h₁
  obtain ⟨hcur, rfl⟩ := casAccount_ok h
  exact ⟨Option.map_eq_some_iff.1 hrev, Option.map_eq_some_iff.1 hcur, rfl⟩

end
end Inoreader
