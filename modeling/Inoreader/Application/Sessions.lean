import Inoreader.Application.Auth
import Inoreader.Lib.Run

/-!
# Sessions and credentials under interleaving

Any number of calls of the authentication service are under way, and between two repository calls of one of
them any others take their steps. The ghosts of the world remember which sessions were stored, signed out
and asked for, and which changes of passwords committed; they are what the guarantees are about.
-/

namespace Inoreader
open Lib Tx

/-- A session that `sign_in` stored. -/
structure Issued where
  session : SessionRecord
  /-- How many changes of passwords had committed when it read the account. -/
  seen : Nat
deriving DecidableEq, Repr

/-- A call that is under way. -/
structure InFlight where
  call : AuthCall
  /-- How many changes of passwords had committed at its last read. -/
  seen : Nat
  /-- The session it authenticates, and whether that was signed out when it read it. -/
  subject : Option Issued
  signedOut : Bool
deriving DecidableEq, Repr

/-- The end of a call of `authenticate`. -/
structure AuthOutcome where
  /-- The session of the token, if one had been stored. -/
  subject : Option Issued
  now : DateTime
  /-- Signed out when the call read the session. -/
  signedOut : Bool
  /-- A change of the account's password had committed since the sign-in read the account. -/
  changed : Bool
  ok : Bool
deriving DecidableEq, Repr

structure AuthWorld where
  db : IdentityDb
  calls : Table Nat InFlight
  /-- The hashes of the session tokens that were drawn. -/
  drawn : List String
  issued : List Issued
  signedOut : List String
  /-- The changes of passwords that committed: the account and the revision that was read. -/
  changes : List (AccountId × Nat)
  /-- The invites that created an account. -/
  invited : List String
  /-- The reset tokens that changed a password. -/
  resets : List String
  outcomes : List AuthOutcome

inductive AuthOp
  | call (id : Nat) (call : AuthCall)
  /-- The next repository call of a method that is under way. -/
  | step (id : Nat)
  /-- The client or the server is gone. -/
  | drop (id : Nat)
deriving DecidableEq, Repr

/-- The methods of the service. -/
def AuthCall.isMethod : AuthCall → Bool
  | .authenticate _ _ | .signIn _ _ _ _ _ | .signOut _ | .createInvite _ _ _ _ _ | .acceptInvite _ _ _ _ _ _ _
  | .changePassword _ _ _ _ | .resetPassword _ _ _ _ | .createPasswordReset _ _ _ _ _ | .bootstrapAdmin _ _ _ _ _ => true
  | _ => false

/-- The hash of the session token that a call has drawn. -/
def AuthCall.drawnToken (crypto : AuthCrypto) : AuthCall → Option String
  | .signIn _ _ _ raw _ => some (crypto.tokenHash raw)
  | .signInStore session => some session.verifierHash
  | _ => none

namespace AuthWorld
variable (crypto : AuthCrypto) (policy : AuthPolicy)

/-- A change of the account's password committed since the sign-in read it. -/
def changedSince (w : AuthWorld) (k : Issued) : Bool :=
  (w.changes.drop k.seen).any (·.1 = k.session.accountId)

/-- The session that was stored under a hash. -/
def subject (w : AuthWorld) (hash : String) : Option Issued := w.issued.find? (·.session.verifierHash = hash)

/-- A method is called; the token of a new session is new. -/
def begin (w : AuthWorld) (id : Nat) (call : AuthCall) : Option AuthWorld :=
  if call.isMethod = true ∧ (w.calls.lookup id).isNone ∧ ∀ t ∈ call.drawnToken crypto, t ∉ w.drawn then
    some { w with
      calls := w.calls.insert id { call, seen := 0, subject := none, signedOut := false }
      drawn := w.drawn ++ (call.drawnToken crypto).toList }
  else none

/-- What the calls under way know after a call that has not ended. -/
def goesOn (w : AuthWorld) (f : InFlight) (next : AuthCall) : InFlight :=
  match f.call with
  | .authenticate raw _ =>
    let hash := crypto.tokenHash raw
    { call := next, seen := w.changes.length, subject := w.subject hash, signedOut := w.signedOut.contains hash }
  | _ => { f with call := next, seen := w.changes.length }

/-- The outcome of a call of `authenticate` that ends here. -/
def outcome (w : AuthWorld) (f : InFlight) (ok : Bool) : List AuthOutcome :=
  match f.call with
  | .authenticate raw now =>
    let hash := crypto.tokenHash raw
    [{ subject := w.subject hash, now, signedOut := w.signedOut.contains hash
       changed := (w.subject hash).any w.changedSince, ok }]
  | .authenticateAccount _ now =>
    [{ subject := f.subject, now, signedOut := f.signedOut, changed := f.subject.any w.changedSince, ok }]
  | _ => []

/-- What a call that has committed leaves behind. -/
def committed (w : AuthWorld) (f : InFlight) : AuthWorld :=
  match f.call with
  | .signInStore session => { w with issued := w.issued ++ [{ session, seen := f.seen }] }
  | .signOut session => { w with signedOut := w.signedOut ++ [session.verifierHash] }
  | .acceptInviteStore _ invite _ _ => { w with invited := w.invited ++ [invite.tokenHash] }
  | .changePasswordStore expected account => { w with changes := w.changes ++ [(account.id, expected)] }
  | .resetPasswordStore _ reset expected account =>
    { w with changes := w.changes ++ [(account.id, expected)], resets := w.resets ++ [reset.tokenHash] }
  | _ => w

/-- The end of a call. -/
def ended (w : AuthWorld) (id : Nat) (f : InFlight) (ok : Bool) : AuthWorld :=
  { w with calls := w.calls.erase id, outcomes := w.outcomes ++ outcome crypto w f ok }

def step (w : AuthWorld) : AuthOp → Option AuthWorld
  | .call id call => begin crypto w id call
  | .drop id => some { w with calls := w.calls.erase id }
  | .step id =>
    match w.calls.lookup id with
    | none => none
    | some f =>
      match authStep crypto policy f.call w.db with
      | (.next call, db) => some { w with db, calls := w.calls.insert id (w.goesOn crypto f call) }
      | (.finished, db) => some ({ w.ended crypto id f true with db }.committed f)
      | (.failed _, db) => some { w.ended crypto id f false with db }

/-- Nothing is stored and nothing is under way. -/
structure Start (w : AuthWorld) : Prop where
  accounts : w.db.accounts = ∅
  reservations : w.db.usernameReservations = ∅
  invites : w.db.invites = ∅
  sessions : w.db.sessions = ∅
  resetTokens : w.db.passwordResets = ∅
  calls : w.calls = ∅
  issued : w.issued = []
  signedOut : w.signedOut = []
  changes : w.changes = []
  invited : w.invited = []
  resets : w.resets = []
  outcomes : w.outcomes = []

end AuthWorld

/-- An unexpired session authenticates exactly if it was not signed out when it was read and no change of the
account's password had committed since the sign-in read the account; an expired one and a token without a
session never do. -/
structure AuthOutcome.Right (o : AuthOutcome) : Prop where
  unknown : o.subject = none → o.ok = false
  expired : ∀ k, o.subject = some k → k.session.expiresAt ≤ o.now → o.ok = false
  unexpired : ∀ k, o.subject = some k → o.now < k.session.expiresAt →
    (o.ok = true ↔ o.signedOut = false ∧ o.changed = false)

/-- The change of a password that a call is about to store. -/
def AuthCall.change : AuthCall → Option (AccountId × Nat)
  | .changePasswordStore expected account => some (account.id, expected)
  | .resetPasswordStore _ _ expected account => some (account.id, expected)
  | _ => none

/-! ## What the tables and the ghosts say about each other -/

/-- Every account has as many revisions as its password had changes, and each change came from another one. -/
structure AccountsOk (accounts : Table AccountId AccountRecord) (reservations : Table String AccountId)
    (changes : List (AccountId × Nat)) : Prop where
  id : ∀ id a, accounts.lookup id = some a → a.id = id
  username : ∀ id a, accounts.lookup id = some a → reservations.lookup a.username = some id
  authRevision : ∀ id a, accounts.lookup id = some a → a.authRevision = a.revision
  count : ∀ id a, accounts.lookup id = some a → changes.countP (·.1 = id) = a.revision
  changed : ∀ c ∈ changes, ∃ a, accounts.lookup c.1 = some a ∧ c.2 < a.revision
  nodup : changes.Nodup

/-- Tokens that are consumed once: a row that is not consumed has revision 0. -/
structure ConsumedOnce {ν : Type} (hash : ν → String) (revision : ν → Nat) (consumedAt : ν → Option DateTime)
    (t : Table String ν) (used : List String) : Prop where
  key : ∀ h v, t.lookup h = some v → hash v = h
  unused : ∀ h v, t.lookup h = some v → consumedAt v = none → revision v = 0
  spent : ∀ h ∈ used, ∃ v, t.lookup h = some v ∧ revision v ≠ 0
  nodup : used.Nodup

/-- The sessions in the table are those that were issued and not signed out. -/
structure SessionsOk (sessions : Table String SessionRecord) (issued : List Issued) (signedOut drawn : List String) :
    Prop where
  stored : ∀ h s, sessions.lookup h = some s → ∃ k ∈ issued, k.session = s ∧ s.verifierHash = h
  live : ∀ k ∈ issued, k.session.verifierHash ∉ signedOut → sessions.lookup k.session.verifierHash = some k.session
  nodup : (issued.map (·.session.verifierHash)).Nodup
  gone : ∀ h ∈ signedOut, sessions.lookup h = none ∧ h ∈ drawn
  known : ∀ k ∈ issued, k.session.verifierHash ∈ drawn

/-- A session remembers the revision that its account had when the sign-in read it. -/
structure Known (accounts : Table AccountId AccountRecord) (changes : List (AccountId × Nat)) (k : Issued) : Prop where
  seen : k.seen ≤ changes.length
  account : (accounts.lookup k.session.accountId).isSome = true
  revision : k.session.accountAuthRevision = (changes.take k.seen).countP (·.1 = k.session.accountId)

/-- The account that a call is about to store under the revision it has read. -/
structure Rewrite (accounts : Table AccountId AccountRecord) (expected : Nat) (a : AccountRecord) : Prop where
  revision : a.revision = expected + 1
  authRevision : a.authRevision = expected + 1
  current : ∃ cur, accounts.lookup a.id = some cur ∧ cur.username = a.username ∧ expected ≤ cur.revision

/-- What a call that is under way knows. -/
def InFlight.Ok (accounts : Table AccountId AccountRecord) (changes : List (AccountId × Nat)) (issued : List Issued)
    (f : InFlight) : Prop :=
  match f.call with
  | .authenticateAccount session now => now < session.expiresAt ∧ f.signedOut = false ∧
    ∃ k ∈ issued, f.subject = some k ∧ k.session = session
  | .signInStore session => Known accounts changes { session, seen := f.seen }
  | .createInviteStore invite => invite.revision = 0
  | .acceptInviteUsername invite _ _ _ _ _ _ => invite.revision = 0
  | .acceptInviteStore expected invite account _ => expected = 0 ∧ invite.revision = 1 ∧ invite.consumedAt.isSome = true ∧
    account.revision = 0 ∧ account.authRevision = 0
  | .changePasswordStore expected account => Rewrite accounts expected account
  | .resetPasswordAccount reset _ _ _ => reset.revision = 0
  | .resetPasswordStore resetRevision reset expected account => resetRevision = 0 ∧ reset.revision = 1 ∧
    reset.consumedAt.isSome = true ∧ Rewrite accounts expected account
  | .createPasswordResetStore reset => reset.revision = 0
  | .bootstrapAdminStore account _ => account.revision = 0 ∧ account.authRevision = 0
  | _ => True

/-- What holds of the calls under way: no session was stored under the token that one of them has drawn. -/
structure FlightsOk (crypto : AuthCrypto) (accounts : Table AccountId AccountRecord) (changes : List (AccountId × Nat))
    (issued : List Issued) (signedOut drawn : List String) (calls : Table Nat InFlight) : Prop where
  ok : ∀ id f, calls.lookup id = some f → f.Ok accounts changes issued
  token : ∀ id f, calls.lookup id = some f → ∀ t, f.call.drawnToken crypto = some t →
    t ∈ drawn ∧ t ∉ signedOut ∧ ∀ k ∈ issued, k.session.verifierHash ≠ t
  apart : ∀ id id' f f', calls.lookup id = some f → calls.lookup id' = some f' → id ≠ id' →
    ∀ t, f.call.drawnToken crypto = some t → f'.call.drawnToken crypto ≠ some t

/-- What holds in every state of a run. -/
structure AuthWorld.Inv (crypto : AuthCrypto) (w : AuthWorld) : Prop where
  accounts : AccountsOk w.db.accounts w.db.usernameReservations w.changes
  invites : ConsumedOnce InviteRecord.tokenHash InviteRecord.revision InviteRecord.consumedAt w.db.invites w.invited
  resets : ConsumedOnce PasswordResetRecord.tokenHash PasswordResetRecord.revision PasswordResetRecord.consumedAt
    w.db.passwordResets w.resets
  sessions : SessionsOk w.db.sessions w.issued w.signedOut w.drawn
  known : ∀ k ∈ w.issued, Known w.db.accounts w.changes k
  calls : FlightsOk crypto w.db.accounts w.changes w.issued w.signedOut w.drawn w.calls
  outcomes : ∀ o ∈ w.outcomes, o.Right

/-! ## Growing tables -/

section
variable {accounts accounts' : Table AccountId AccountRecord} {reservations : Table String AccountId}
  {changes : List (AccountId × Nat)} {issued : List Issued} {k : Issued}

/-- Accounts stay, with their names, and their revisions do not fall. -/
def AccountsGrow (accounts accounts' : Table AccountId AccountRecord) : Prop :=
  ∀ id a, accounts.lookup id = some a → ∃ a', accounts'.lookup id = some a' ∧ a'.username = a.username ∧ a.revision ≤ a'.revision

theorem AccountsGrow.refl (accounts : Table AccountId AccountRecord) : AccountsGrow accounts accounts :=
  fun _ a ha => ⟨a, ha, rfl, le_refl _⟩

theorem Known.mono (h : Known accounts changes k) (hgrow : AccountsGrow accounts accounts') (new : List (AccountId × Nat)) :
    Known accounts' (changes ++ new) k := by
  obtain ⟨a, ha⟩ := Option.isSome_iff_exists.1 h.account
  obtain ⟨a', ha', -⟩ := hgrow _ _ ha
  refine ⟨?_, Option.isSome_iff_exists.2 ⟨a', ha'⟩, ?_⟩
  · rw [List.length_append]
    exact le_trans h.seen (Nat.le_add_right _ _)
  · rw [List.take_append_of_le_length h.seen]
    exact h.revision

theorem Rewrite.mono {expected : Nat} {a : AccountRecord} (h : Rewrite accounts expected a)
    (hgrow : AccountsGrow accounts accounts') : Rewrite accounts' expected a := by
  obtain ⟨cur, hcur, hname, hle⟩ := h.current
  obtain ⟨cur', hcur', hname', hle'⟩ := hgrow _ _ hcur
  exact ⟨h.revision, h.authRevision, cur', hcur', hname'.trans hname, le_trans hle hle'⟩

theorem InFlight.Ok.mono {f : InFlight} (h : f.Ok accounts changes issued) (hgrow : AccountsGrow accounts accounts')
    (new : List (AccountId × Nat)) (more : List Issued) : f.Ok accounts' (changes ++ new) (issued ++ more) := by
  unfold InFlight.Ok at h ⊢
  split at h
  · obtain ⟨hnow, hout, k, hk, hsubject, hsession⟩ := h
    exact ⟨hnow, hout, k, List.mem_append_left _ hk, hsubject, hsession⟩
  · exact h.mono hgrow new
  · exact h
  · exact h
  · exact h
  · exact h.mono hgrow
  · exact h
  · exact ⟨h.1, h.2.1, h.2.2.1, h.2.2.2.mono hgrow⟩
  · exact h
  · exact h
  · trivial

/-- The session is of the current revision of its account exactly if no change committed since. -/
theorem Known.current (h : Known accounts changes k) (hok : AccountsOk accounts reservations changes) {a : AccountRecord}
    (ha : accounts.lookup k.session.accountId = some a) :
    k.session.accountAuthRevision = a.authRevision ↔ (changes.drop k.seen).any (·.1 = k.session.accountId) = false := by
  have hcount := hok.count _ _ ha
  rw [← List.take_append_drop k.seen changes, List.countP_append] at hcount
  rw [h.revision, hok.authRevision _ _ ha, ← hcount, List.any_eq_false]
  rw [← List.countP_eq_zero]
  omega

end

/-! ## The writes -/

section
variable {accounts : Table AccountId AccountRecord} {reservations : Table String AccountId}
  {changes : List (AccountId × Nat)} {a cur : AccountRecord} {expected : Nat}

theorem AccountsGrow.create (hnew : accounts.lookup a.id = none) : AccountsGrow accounts (accounts.insert a.id a) := by
  intro id b hb
  refine ⟨b, ?_, rfl, le_refl _⟩
  rw [Table.lookup_insert_if, if_neg]
  · exact hb
  · rintro rfl
    rw [hnew] at hb
    cases hb

theorem AccountsOk.create (h : AccountsOk accounts reservations changes)
    (hfree : reservations.lookup a.username = none) (hnew : accounts.lookup a.id = none) (hrev : a.revision = 0)
    (hauth : a.authRevision = 0) :
    AccountsOk (accounts.insert a.id a) (reservations.insert a.username a.id) changes := by
  refine ⟨?_, ?_, ?_, ?_, ?_, h.nodup⟩
  · intro id b hb
    rw [Table.lookup_insert_if] at hb
    split at hb
    · cases hb
      exact Eq.symm ‹_›
    · exact h.id id b hb
  · intro id b hb
    rw [Table.lookup_insert_if] at hb ⊢
    split at hb
    · rename_i hid
      cases hb
      rw [if_pos rfl, hid]
    · have hres := h.username id b hb
      rw [if_neg, hres]
      intro heq
      rw [heq, hfree] at hres
      cases hres
  · intro id b hb
    rw [Table.lookup_insert_if] at hb
    split at hb
    · cases hb
      rw [hauth, hrev]
    · exact h.authRevision id b hb
  · intro id b hb
    rw [Table.lookup_insert_if] at hb
    split at hb
    · rename_i hid
      cases hb
      rw [hrev, List.countP_eq_zero]
      intro c hc hcid
      -- a change is of an account that is stored
      obtain ⟨b, hb, -⟩ := h.changed c hc
      rw [of_decide_eq_true hcid, hid, hnew] at hb
      cases hb
    · exact h.count id b hb
  · intro c hc
    obtain ⟨b, hb, hlt⟩ := h.changed c hc
    obtain ⟨b', hb', -, hle⟩ := AccountsGrow.create hnew _ _ hb
    exact ⟨b', hb', lt_of_lt_of_le hlt hle⟩

theorem Rewrite.grow (h : Rewrite accounts expected a) (hcur : accounts.lookup a.id = some cur)
    (hrev : cur.revision = expected) : AccountsGrow accounts (accounts.insert a.id a) := by
  intro id b hb
  rw [Table.lookup_insert_if]
  split
  · rename_i hid
    obtain ⟨cur', hcur', hname, -⟩ := h.current
    rw [hcur] at hcur'
    cases hcur'
    rw [hid, hcur] at hb
    cases hb
    refine ⟨a, rfl, hname.symm, ?_⟩
    rw [h.revision, hrev]
    exact Nat.le_succ _
  · exact ⟨b, hb, rfl, le_refl _⟩

theorem AccountsOk.rewrite (hok : AccountsOk accounts reservations changes) (h : Rewrite accounts expected a)
    (hcur : accounts.lookup a.id = some cur) (hrev : cur.revision = expected) :
    AccountsOk (accounts.insert a.id a) reservations (changes ++ [(a.id, expected)]) := by
  have hname : a.username = cur.username := by
    obtain ⟨cur', hcur', hname, -⟩ := h.current
    rw [hcur] at hcur'
    cases hcur'
    exact hname.symm
  refine ⟨?_, ?_, ?_, ?_, ?_, ?_⟩
  · intro id b hb
    rw [Table.lookup_insert_if] at hb
    split at hb
    · cases hb
      exact Eq.symm ‹_›
    · exact hok.id id b hb
  · intro id b hb
    rw [Table.lookup_insert_if] at hb
    split at hb
    · rename_i hid
      cases hb
      rw [hname, hid]
      exact hok.username _ _ hcur
    · exact hok.username id b hb
  · intro id b hb
    rw [Table.lookup_insert_if] at hb
    split at hb
    · cases hb
      rw [h.authRevision, h.revision]
    · exact hok.authRevision id b hb
  · intro id b hb
    rw [Table.lookup_insert_if] at hb
    rw [List.countP_append, List.countP_singleton]
    split at hb
    · rename_i hid
      cases hb
      have hcount := hok.count _ _ hcur
      rw [hid, if_pos (decide_eq_true rfl), h.revision, hcount, hrev]
    · rename_i hid
      rw [if_neg (by simpa [eq_comm] using hid), Nat.add_zero]
      exact hok.count id b hb
  · intro c hc
    rcases List.mem_append.1 hc with hc | hc
    · obtain ⟨b, hb, hlt⟩ := hok.changed c hc
      obtain ⟨b', hb', -, hle⟩ := h.grow hcur hrev _ _ hb
      exact ⟨b', hb', lt_of_lt_of_le hlt hle⟩
    · cases List.mem_singleton.1 hc
      refine ⟨a, ?_, ?_⟩
      · rw [Table.lookup_insert_if, if_pos rfl]
      · rw [h.revision]
        exact Nat.lt_succ_self _
  · refine hok.nodup.append (List.nodup_singleton _) ?_
    intro c hc hc'
    cases List.mem_singleton.1 hc'
    obtain ⟨b, hb, hlt⟩ := hok.changed _ hc
    rw [hcur] at hb
    cases hb
    omega

/-- A change that committed was read at a revision that the account no longer has. -/
theorem AccountsOk.stale (hok : AccountsOk accounts reservations changes) (hcur : accounts.lookup a.id = some cur)
    (hmem : (a.id, expected) ∈ changes) : cur.revision ≠ expected := by
  obtain ⟨b, hb, hlt⟩ := hok.changed _ hmem
  rw [hcur] at hb
  cases hb
  exact Nat.ne_of_gt hlt

/-- No two accounts have one name. -/
theorem AccountsOk.username_inj (hok : AccountsOk accounts reservations changes) {id id' : AccountId} {b : AccountRecord}
    (ha : accounts.lookup id = some a) (hb : accounts.lookup id' = some b) (hname : a.username = b.username) : id = id' := by
  have h := hok.username id a ha
  rw [hname, hok.username id' b hb] at h
  cases h
  rfl

end

section
variable {ν : Type} {hash : ν → String} {revision : ν → Nat} {consumedAt : ν → Option DateTime} {t : Table String ν}
  {used : List String} {v cur : ν}

theorem ConsumedOnce.create (h : ConsumedOnce hash revision consumedAt t used) (hnew : t.lookup (hash v) = none)
    (hrev : revision v = 0) : ConsumedOnce hash revision consumedAt (t.insert (hash v) v) used := by
  refine ⟨?_, ?_, ?_, h.nodup⟩
  · intro k b hb
    rw [Table.lookup_insert_if] at hb
    split at hb
    · cases hb
      exact Eq.symm ‹_›
    · exact h.key k b hb
  · intro k b hb hopen
    rw [Table.lookup_insert_if] at hb
    split at hb
    · cases hb
      exact hrev
    · exact h.unused k b hb hopen
  · intro k hk
    obtain ⟨b, hb, hne⟩ := h.spent k hk
    refine ⟨b, ?_, hne⟩
    rw [Table.lookup_insert_if, if_neg]
    · exact hb
    · rintro rfl
      rw [hnew] at hb
      cases hb

/-- A token is consumed under the revision 0, which it then no longer has. -/
theorem ConsumedOnce.consume (h : ConsumedOnce hash revision consumedAt t used) (hcur : t.lookup (hash v) = some cur)
    (hopen : revision cur = 0) (hrev : revision v = 1) (hused : (consumedAt v).isSome = true) :
    ConsumedOnce hash revision consumedAt (t.insert (hash v) v) (used ++ [hash v]) := by
  refine ⟨?_, ?_, ?_, ?_⟩
  · intro k b hb
    rw [Table.lookup_insert_if] at hb
    split at hb
    · cases hb
      exact Eq.symm ‹_›
    · exact h.key k b hb
  · intro k b hb hnone
    rw [Table.lookup_insert_if] at hb
    split at hb
    · cases hb
      rw [hnone] at hused
      cases hused
    · exact h.unused k b hb hnone
  · intro k hk
    rw [Table.lookup_insert_if]
    split
    · exact ⟨v, rfl, by rw [hrev]; exact Nat.one_ne_zero⟩
    · rename_i hne
      rcases List.mem_append.1 hk with hk | hk
      · exact h.spent k hk
      · exact absurd (List.mem_singleton.1 hk) hne
  · refine h.nodup.append (List.nodup_singleton _) ?_
    intro k hk hk'
    cases List.mem_singleton.1 hk'
    obtain ⟨b, hb, hne⟩ := h.spent _ hk
    rw [hcur] at hb
    cases hb
    exact hne hopen

end

section
variable {sessions : Table String SessionRecord} {issued : List Issued} {signedOut drawn : List String} {k : Issued}
  {h : String} {s : SessionRecord}

theorem SessionsOk.draw (hok : SessionsOk sessions issued signedOut drawn) (new : List String) :
    SessionsOk sessions issued signedOut (drawn ++ new) := by
  refine ⟨hok.stored, hok.live, hok.nodup, ?_, ?_⟩
  · intro h hh
    exact ⟨(hok.gone h hh).1, List.mem_append_left _ (hok.gone h hh).2⟩
  · intro k hk
    exact List.mem_append_left _ (hok.known k hk)

theorem SessionsOk.store (hok : SessionsOk sessions issued signedOut drawn)
    (hdrawn : k.session.verifierHash ∈ drawn) (hout : k.session.verifierHash ∉ signedOut)
    (hnew : ∀ k' ∈ issued, k'.session.verifierHash ≠ k.session.verifierHash) :
    SessionsOk (sessions.insert k.session.verifierHash k.session) (issued ++ [k]) signedOut drawn := by
  refine ⟨?_, ?_, ?_, ?_, ?_⟩
  · intro h s hs
    rw [Table.lookup_insert_if] at hs
    split at hs
    · cases hs
      exact ⟨k, List.mem_append_right _ (List.mem_singleton.2 rfl), rfl, Eq.symm ‹_›⟩
    · obtain ⟨k', hk', hs'⟩ := hok.stored h s hs
      exact ⟨k', List.mem_append_left _ hk', hs'⟩
  · intro k' hk' hout'
    rw [Table.lookup_insert_if]
    rcases List.mem_append.1 hk' with hk' | hk'
    · rw [if_neg (hnew k' hk')]
      exact hok.live k' hk' hout'
    · cases List.mem_singleton.1 hk'
      rw [if_pos rfl]
  · rw [List.map_append]
    refine hok.nodup.append (List.nodup_singleton _) ?_
    intro h hh hh'
    obtain ⟨k', hk', rfl⟩ := List.mem_map.1 hh
    exact hnew k' hk' (List.mem_singleton.1 hh')
  · intro h hh
    refine ⟨?_, (hok.gone h hh).2⟩
    rw [Table.lookup_insert_if, if_neg]
    · exact (hok.gone h hh).1
    · rintro rfl
      exact hout hh
  · intro k' hk'
    rcases List.mem_append.1 hk' with hk' | hk'
    · exact hok.known k' hk'
    · cases List.mem_singleton.1 hk'
      exact hdrawn

theorem SessionsOk.erase (hok : SessionsOk sessions issued signedOut drawn) (hrow : sessions.lookup h = some s) :
    SessionsOk (sessions.erase h) issued (signedOut ++ [h]) drawn := by
  refine ⟨?_, ?_, hok.nodup, ?_, hok.known⟩
  · intro h' s' hs'
    rw [Table.lookup_erase_if] at hs'
    split at hs'
    · cases hs'
    · exact hok.stored h' s' hs'
  · intro k hk hout
    rw [List.mem_append, not_or, List.mem_singleton] at hout
    rw [Table.lookup_erase_if, if_neg hout.2]
    exact hok.live k hk hout.1
  · intro h' hh'
    rw [Table.lookup_erase_if]
    rcases List.mem_append.1 hh' with hh' | hh'
    · refine ⟨?_, (hok.gone h' hh').2⟩
      rw [(hok.gone h' hh').1, ite_self]
    · cases List.mem_singleton.1 hh'
      obtain ⟨k, hk, rfl, rfl⟩ := hok.stored h s hrow
      exact ⟨if_pos rfl, hok.known k hk⟩

/-- The session of a token that the table has. -/
theorem SessionsOk.find_stored (hok : SessionsOk sessions issued signedOut drawn) (hrow : sessions.lookup h = some s) :
    ∃ k ∈ issued, issued.find? (·.session.verifierHash = h) = some k ∧ k.session = s := by
  obtain ⟨k, hk, rfl, rfl⟩ := hok.stored h s hrow
  cases hfind : issued.find? (·.session.verifierHash = k.session.verifierHash) with
  | none => exact absurd (decide_eq_true rfl) (List.find?_eq_none.1 hfind k hk)
  | some k' =>
    have hmem := List.mem_of_find?_eq_some hfind
    have hhash : k'.session.verifierHash = k.session.verifierHash := by simpa using List.find?_some hfind
    have hkk := List.inj_on_of_nodup_map hok.nodup hmem hk hhash
    exact ⟨k', hmem, rfl, by rw [hkk]⟩

/-- A session that was stored and that the table no longer has was signed out. -/
theorem SessionsOk.find_gone (hok : SessionsOk sessions issued signedOut drawn) (hrow : sessions.lookup h = none)
    (hfind : issued.find? (·.session.verifierHash = h) = some k) : h ∈ signedOut := by
  by_contra hout
  have hhash : k.session.verifierHash = h := by simpa using List.find?_some hfind
  have hlive := hok.live k (List.mem_of_find?_eq_some hfind) (by rw [hhash]; exact hout)
  rw [hhash, hrow] at hlive
  cases hlive

theorem SessionsOk.not_out (hok : SessionsOk sessions issued signedOut drawn) (hrow : sessions.lookup h = some s) :
    h ∉ signedOut := by
  intro hh
  rw [(hok.gone h hh).1] at hrow
  cases hrow

end

end Inoreader
