import Inoreader.Repository.Articles

/-!
# Accounts, sessions, invites and resets (`repository/identity.rs`)

Every call is one transaction. `cas_tx` writes a row under the revision it expects, or a new row, and the
calls fail with a conflict when it wrote none. A new workspace has no history, so it validates.
-/

namespace Inoreader
open Lib

structure AccountRecord where
  id : AccountId
  username : String
  passwordHash : String
  admin : Bool
  authRevision : Nat
  revision : Nat
deriving DecidableEq, Repr

structure InviteRecord where
  id : Nat
  tokenHash : String
  username : String
  createdBy : AccountId
  expiresAt : DateTime
  consumedAt : Option DateTime
  revision : Nat
deriving DecidableEq, Repr

structure SessionRecord where
  id : Nat
  verifierHash : String
  accountId : AccountId
  accountAuthRevision : Nat
  expiresAt : DateTime
  revision : Nat
deriving DecidableEq, Repr

structure PasswordResetRecord where
  id : Nat
  tokenHash : String
  accountId : AccountId
  expiresAt : DateTime
  consumedAt : Option DateTime
  revision : Nat
deriving DecidableEq, Repr

structure IdentityDb where
  accounts : Table AccountId AccountRecord := ∅
  usernameReservations : Table String AccountId := ∅
  invites : Table String InviteRecord := ∅
  sessions : Table String SessionRecord := ∅
  passwordResets : Table String PasswordResetRecord := ∅
  workspaces : Table WorkspaceId Workspace := ∅

abbrev IdentityTx : Type → Type := Tx IdentityDb RepositoryError

/-- `Workspace::new`; the name does not matter here. -/
def Workspace.new (id : WorkspaceId) (owner : AccountId) : Workspace :=
  { id, owner, status := .active, revision := 0, history := [] }

section
variable {κ ν : Type} [DecidableEq κ]

/-- `cas_tx` on one table: the row of `id` has the expected revision, or there is none. -/
def casRow (revision : ν → Nat) (t : Table κ ν) (id : κ) (expected : Option Nat) (value : ν) :
    Except RepositoryError (Table κ ν) :=
  if revision value ≤ bigintMax ∧ expected.all (· ≤ bigintMax) then
    if (t.lookup id).map revision = expected then .ok (t.insert id value) else .error .conflict
  else .error (.storage "out of range integral type conversion attempted")

end

def casAccount (expected : Option Nat) (v : AccountRecord) : IdentityTx Unit := fun db =>
  (casRow AccountRecord.revision db.accounts v.id expected v).map fun accounts => ((), { db with accounts })

def casInvite (expected : Option Nat) (v : InviteRecord) : IdentityTx Unit := fun db =>
  (casRow InviteRecord.revision db.invites v.tokenHash expected v).map fun invites => ((), { db with invites })

def casSession (expected : Option Nat) (v : SessionRecord) : IdentityTx Unit := fun db =>
  (casRow SessionRecord.revision db.sessions v.verifierHash expected v).map fun sessions => ((), { db with sessions })

def casPasswordReset (expected : Option Nat) (v : PasswordResetRecord) : IdentityTx Unit := fun db =>
  (casRow PasswordResetRecord.revision db.passwordResets v.tokenHash expected v).map fun passwordResets =>
    ((), { db with passwordResets })

def casWorkspace (expected : Option Nat) (v : Workspace) : IdentityTx Unit := fun db =>
  (casRow Workspace.revision db.workspaces v.id expected v).map fun workspaces => ((), { db with workspaces })

/-- `INSERT INTO username_reservations`: a name that is taken is a conflict. -/
def reserveUsername (username : String) (id : AccountId) : IdentityTx Unit := do
  let db ← Tx.get
  Tx.require (db.usernameReservations.lookup username = none) .conflict
  Tx.modify fun db => { db with usernameReservations := db.usernameReservations.insert username id }

def readAccount (id : AccountId) : IdentityTx AccountRecord := do
  let db ← Tx.get
  Tx.orThrow (db.accounts.lookup id) .notFound

def accountByUsername (username : String) : IdentityTx AccountRecord := do
  let db ← Tx.get
  let id ← Tx.orThrow (db.usernameReservations.lookup username) .notFound
  readAccount id

def saveAccount (expected : Option Nat) (v : AccountRecord) : IdentityTx Unit := do
  Tx.onlyIf (expected = none) (reserveUsername v.username v.id)
  casAccount expected v

def createAccountAndWorkspace (a : AccountRecord) (w : Workspace) : IdentityTx Unit := do
  Tx.require (w.owner = a.id ∧ w.revision = 0)
    (.storage "initial workspace must belong to the new account at revision zero")
  reserveUsername a.username a.id
  casAccount none a
  casWorkspace none w

def inviteByTokenHash (h : String) : IdentityTx InviteRecord := do
  let db ← Tx.get
  Tx.orThrow (db.invites.lookup h) .notFound

def saveInvite (expected : Option Nat) (v : InviteRecord) : IdentityTx Unit := casInvite expected v

def sessionByVerifierHash (h : String) : IdentityTx SessionRecord := do
  let db ← Tx.get
  Tx.orThrow (db.sessions.lookup h) .notFound

def saveSession (expected : Option Nat) (v : SessionRecord) : IdentityTx Unit := casSession expected v

def deleteSession (h : String) (expected : Nat) : IdentityTx Unit := do
  let db ← Tx.get
  Tx.require ((db.sessions.lookup h).any (·.revision = expected)) .conflict
  Tx.modify fun db => { db with sessions := db.sessions.erase h }

def passwordResetByTokenHash (h : String) : IdentityTx PasswordResetRecord := do
  let db ← Tx.get
  Tx.orThrow (db.passwordResets.lookup h) .notFound

def savePasswordReset (expected : Option Nat) (v : PasswordResetRecord) : IdentityTx Unit := casPasswordReset expected v

def consumeInviteCreateAccountAndWorkspace (expected : Nat) (invite : InviteRecord) (account : AccountRecord)
    (workspace : Workspace) : IdentityTx Unit := do
  Tx.require (workspace.owner = account.id) (.storage "initial workspace must belong to the invited account")
  let db ← Tx.get
  Tx.require (db.usernameReservations.lookup account.username = none) .conflict
  casInvite (some expected) invite
  reserveUsername account.username account.id
  casAccount none account
  casWorkspace none workspace

def consumeResetAndUpdateAccount (expectedReset : Nat) (reset : PasswordResetRecord) (expectedAccount : Nat)
    (account : AccountRecord) : IdentityTx Unit := do
  Tx.require (reset.accountId = account.id) (.storage "password reset account does not match updated account")
  casPasswordReset (some expectedReset) reset
  casAccount (some expectedAccount) account

end Inoreader
