import Inoreader.Application.Sessions

/-!
# Every interleaving of the calls of the authentication service

What the calls under way know stays true while the others commit, and each commit keeps the tables in step
with the ghosts. So `authenticate` gives the right answer in every run, a token is used once, and a change of
a password that was read at a revision another one committed from writes nothing.
-/

namespace Inoreader
open Lib Tx

section
variable {crypto : AuthCrypto} {accounts accounts' : Table AccountId AccountRecord} {changes : List (AccountId × Nat)}
  {issued : List Issued} {signedOut drawn : List String} {calls : Table Nat InFlight} {id : Nat} {f f' : InFlight}

theorem FlightsOk.erase (h : FlightsOk crypto accounts changes issued signedOut drawn calls) (id : Nat) :
    FlightsOk crypto accounts changes issued signedOut drawn (calls.erase id) := by
  have hold : ∀ i g, (calls.erase id).lookup i = some g → calls.lookup i = some g := by
    intro i g hg
    rw [Table.lookup_erase_if] at hg
    split at hg
    · cases hg
    · exact hg
  refine ⟨?_, ?_, ?_⟩
  · exact fun i g hg => h.ok i g (hold i g hg)
  · exact fun i g hg => h.token i g (hold i g hg)
  · exact fun i j g g' hg hg' => h.apart i j g g' (hold i g hg) (hold j g' hg')

/-- A call goes on and keeps the token it has drawn. -/
theorem FlightsOk.goes_on (h : FlightsOk crypto accounts changes issued signedOut drawn calls)
    (hf : calls.lookup id = some f) (hok : f'.Ok accounts changes issued)
    (htoken : ∀ t, f'.call.drawnToken crypto = some t → f.call.drawnToken crypto = some t) :
    FlightsOk crypto accounts changes issued signedOut drawn (calls.insert id f') := by
  refine ⟨?_, ?_, ?_⟩
  · intro i g hg
    rw [Table.lookup_insert_if] at hg
    split at hg
    · cases hg
      exact hok
    · exact h.ok i g hg
  · intro i g hg t ht
    rw [Table.lookup_insert_if] at hg
    split at hg
    · cases hg
      exact h.token id f hf t (htoken t ht)
    · exact h.token i g hg t ht
  · intro i j g g' hg hg' hne t ht ht'
    rw [Table.lookup_insert_if] at hg hg'
    split at hg
    · rename_i hi
      cases hg
      rw [if_neg (fun hj => hne (hi.trans hj.symm))] at hg'
      exact h.apart id j f g' hf hg' (fun hj => hne (hi.trans hj)) t (htoken t ht) ht'
    · split at hg'
      · rename_i hi hj
        cases hg'
        exact h.apart i id g f hg hf hi t ht (htoken t ht')
      · exact h.apart i j g g' hg hg' hne t ht ht'

theorem FlightsOk.begin (h : FlightsOk crypto accounts changes issued signedOut drawn calls)
    (hissued : ∀ k ∈ issued, k.session.verifierHash ∈ drawn) (hout : ∀ t ∈ signedOut, t ∈ drawn)
    (hok : f.Ok accounts changes issued) (hfresh : ∀ t ∈ f.call.drawnToken crypto, t ∉ drawn) :
    FlightsOk crypto accounts changes issued signedOut (drawn ++ (f.call.drawnToken crypto).toList)
      (calls.insert id f) := by
  refine ⟨?_, ?_, ?_⟩
  · intro i g hg
    rw [Table.lookup_insert_if] at hg
    split at hg
    · cases hg
      exact hok
    · exact h.ok i g hg
  · intro i g hg t ht
    rw [Table.lookup_insert_if] at hg
    split at hg
    · cases hg
      refine ⟨?_, fun hmem => hfresh t ht (hout t hmem), fun k hk hkt => hfresh t ht (hkt ▸ hissued k hk)⟩
      rw [ht]
      exact List.mem_append_right _ (List.mem_singleton.2 rfl)
    · obtain ⟨hmem, hrest⟩ := h.token i g hg t ht
      exact ⟨List.mem_append_left _ hmem, hrest⟩
  · intro i j g g' hg hg' hne t ht ht'
    rw [Table.lookup_insert_if] at hg hg'
    split at hg
    · rename_i hi
      cases hg
      rw [if_neg (fun hj => hne (hi.trans hj.symm))] at hg'
      exact hfresh t ht (h.token j g' hg' t ht').1
    · split at hg'
      · cases hg'
        exact hfresh t ht' (h.token i g hg t ht).1
      · exact h.apart i j g g' hg hg' hne t ht ht'

/-- What the calls know survives the commit of another one. -/
theorem FlightsOk.commit (h : FlightsOk crypto accounts changes issued signedOut drawn calls)
    (hgrow : AccountsGrow accounts accounts') (new : List (AccountId × Nat)) {more : List Issued} {out : List String}
    (hmore : ∀ i g, calls.lookup i = some g → ∀ t, g.call.drawnToken crypto = some t →
      t ∉ out ∧ ∀ k ∈ more, k.session.verifierHash ≠ t) :
    FlightsOk crypto accounts' (changes ++ new) (issued ++ more) (signedOut ++ out) drawn calls := by
  refine ⟨fun i g hg => (h.ok i g hg).mono hgrow new more, ?_, h.apart⟩
  intro i g hg t ht
  obtain ⟨hdrawn, hout, hissued⟩ := h.token i g hg t ht
  obtain ⟨hout', hissued'⟩ := hmore i g hg t ht
  refine ⟨hdrawn, ?_, ?_⟩
  · rw [List.mem_append, not_or]
    exact ⟨hout, hout'⟩
  · intro k hk
    rcases List.mem_append.1 hk with hk | hk
    · exact hissued k hk
    · exact hissued' k hk

/-- The same when no session was stored or signed out. -/
theorem FlightsOk.grow (h : FlightsOk crypto accounts changes issued signedOut drawn calls)
    (hgrow : AccountsGrow accounts accounts') (new : List (AccountId × Nat)) :
    FlightsOk crypto accounts' (changes ++ new) issued signedOut drawn calls := by
  have hnone : ∀ i g, calls.lookup i = some g → ∀ t, g.call.drawnToken crypto = some t →
      t ∉ ([] : List String) ∧ ∀ k ∈ ([] : List Issued), k.session.verifierHash ≠ t :=
    fun _ _ _ t _ => ⟨List.not_mem_nil, fun k hk => absurd hk List.not_mem_nil⟩
  have hcommit := h.commit hgrow new hnone
  rw [List.append_nil, List.append_nil] at hcommit
  exact hcommit

end

/-! ## One repository call -/

section
variable {crypto : AuthCrypto} {policy : AuthPolicy} {call next : AuthCall} {db db' : IdentityDb} {e : AuthError}

theorem authStep_next (h : authStep crypto policy call db = (.next next, db')) :
    db' = db ∧ authRead crypto policy db call = .ok next ∧ authStore call = none ∧
      ∀ session now, call ≠ .authenticateAccount session now := by
  unfold authStep at h
  split at h
  · split at h <;> cases h
  · rename_i hstore
    split at h
    · split at h <;> cases h
    · rename_i hacc
      cases hread : authRead crypto policy db call with
      | ok c =>
        rw [hread] at h
        cases h
        exact ⟨rfl, rfl, hstore, hacc⟩
      | error e =>
        rw [hread] at h
        cases h

/-- A method that ends well has written, or is `authenticate`. -/
theorem authStep_finished (h : authStep crypto policy call db = (.finished, db')) :
    (∃ tx, authStore call = some tx ∧ tx db = .ok ((), db')) ∨
      ∃ session now, call = .authenticateAccount session now ∧ db' = db ∧ authenticateEnd session db = .ok () := by
  unfold authStep at h
  split at h
  · rename_i tx htx
    split at h
    · cases h
      exact .inl ⟨tx, htx, ‹_›⟩
    · cases h
  · split at h
    · rename_i session now _
      split at h
      · cases h
        exact .inr ⟨session, now, rfl, rfl, ‹_›⟩
      · cases h
    · cases hread : authRead crypto policy db call with
      | ok c =>
        rw [hread] at h
        cases h
      | error e =>
        rw [hread] at h
        cases h

theorem authStep_failed (h : authStep crypto policy call db = (.failed e, db')) : db' = db := by
  unfold authStep at h
  split at h
  · split at h
    · cases h
    · cases h
      rfl
  · split at h
    · split at h
      · cases h
      · cases h
        rfl
    · exact (congrArg Prod.snd h).symm

theorem authStep_authenticate {raw : String} {now : DateTime}
    (h : authStep crypto policy (.authenticate raw now) db = (.failed e, db')) {session : SessionRecord}
    (hsession : db.sessions.lookup (crypto.tokenHash raw) = some session) : session.expiresAt ≤ now := by
  by_contra hlt
  have hread : authRead crypto policy db (.authenticate raw now) = .ok (.authenticateAccount session now) := by
    simp only [authRead]
    rw [except_bind_ok]
    refine ⟨session, mapError_ok.2 (read_session_ok.2 hsession), ?_⟩
    rw [except_bind_ok]
    exact ⟨(), demand_ok.2 hlt, rfl⟩
  have hstep : authStep crypto policy (.authenticate raw now) db =
      (.of (authRead crypto policy db (.authenticate raw now)), db) := rfl
  rw [hstep, hread] at h
  cases h

theorem authenticateEnd_ok {session : SessionRecord} {u : Unit} : authenticateEnd session db = .ok u ↔
    ∃ a, db.accounts.lookup session.accountId = some a ∧ session.accountAuthRevision = a.authRevision := by
  unfold authenticateEnd
  rw [except_bind_ok]
  constructor
  · rintro ⟨a, ha, hrev⟩
    exact ⟨a, read_account_ok.1 (mapError_ok.1 ha), demand_ok.1 hrev⟩
  · rintro ⟨a, ha, hrev⟩
    exact ⟨a, mapError_ok.2 (read_account_ok.2 ha), demand_ok.2 hrev⟩

theorem authStep_authenticateAccount {session : SessionRecord} {now : DateTime}
    (h : authStep crypto policy (.authenticateAccount session now) db = (.failed e, db')) :
    ¬ authenticateEnd session db = .ok () := by
  intro hok
  have hstep : authStep crypto policy (.authenticateAccount session now) db = (.finished, db) := by
    simp only [authStep, authStore, hok]
  rw [hstep] at h
  cases h

end

namespace AuthWorld
variable {crypto : AuthCrypto} {policy : AuthPolicy} {w w' : AuthWorld} {id : Nat} {f : InFlight} {next : AuthCall}

/-- The rewrite of an account that was read just now. -/
theorem Inv.rewrite (h : w.Inv crypto) {account : AccountId} {a : AccountRecord}
    (ha : w.db.accounts.lookup account = some a) (passwordHash : String) :
    Rewrite w.db.accounts a.revision
      { a with passwordHash, authRevision := a.authRevision + 1, revision := a.revision + 1 } := by
  refine ⟨rfl, ?_, a, ?_, rfl, le_refl _⟩
  · show a.authRevision + 1 = a.revision + 1
    rw [h.accounts.authRevision _ _ ha]
  · show w.db.accounts.lookup a.id = some a
    rw [h.accounts.id _ _ ha]
    exact ha

/-- What a call knows after a read. -/
theorem Inv.goesOn_ok (h : w.Inv crypto) (hf : f.Ok w.db.accounts w.changes w.issued)
    (hread : authRead crypto policy w.db f.call = .ok next) (hstore : authStore f.call = none)
    (hacc : ∀ session now, f.call ≠ .authenticateAccount session now) :
    (w.goesOn crypto f next).Ok w.db.accounts w.changes w.issued ∧
      ∀ t, next.drawnToken crypto = some t → f.call.drawnToken crypto = some t := by
  obtain ⟨call, seen, subject, out⟩ := f
  cases call with
  | authenticate raw now =>
    simp only [authRead] at hread
    obtain ⟨session, hsession, hread⟩ := except_bind_ok.1 hread
    obtain ⟨_, hnow, hread⟩ := except_bind_ok.1 hread
    cases hread
    replace hsession := read_session_ok.1 (mapError_ok.1 hsession)
    obtain ⟨k, hk, hfind, hsess⟩ := h.sessions.find_stored hsession
    refine ⟨⟨not_le.1 (demand_ok.1 hnow), ?_, k, hk, hfind, hsess⟩, fun t ht => by cases ht⟩
    show w.signedOut.contains (crypto.tokenHash raw) = false
    rw [List.contains_eq_mem]
    exact decide_eq_false (h.sessions.not_out hsession)
  | signIn username password now raw token =>
    simp only [authRead] at hread
    obtain ⟨_, -, hread⟩ := except_bind_ok.1 hread
    obtain ⟨a, ha, hread⟩ := except_bind_ok.1 hread
    obtain ⟨_, -, hread⟩ := except_bind_ok.1 hread
    obtain ⟨lifetime, -, hread⟩ := except_bind_ok.1 hread
    cases hread
    obtain ⟨account, -, ha⟩ := read_accountByUsername_ok (mapError_ok.1 ha)
    refine ⟨⟨le_refl _, ?_, ?_⟩, fun t ht => ht⟩
    · show (w.db.accounts.lookup a.id).isSome = true
      rw [h.accounts.id _ _ ha, ha]
      rfl
    · show a.authRevision = (w.changes.take w.changes.length).countP (·.1 = a.id)
      rw [List.take_length, h.accounts.id _ _ ha, h.accounts.count _ _ ha, h.accounts.authRevision _ _ ha]
  | createInvite actor username now raw token =>
    simp only [authRead] at hread
    obtain ⟨_, -, hread⟩ := except_bind_ok.1 hread
    obtain ⟨_, -, hread⟩ := except_bind_ok.1 hread
    obtain ⟨_, -, hread⟩ := except_bind_ok.1 hread
    obtain ⟨_, -, hread⟩ := except_bind_ok.1 hread
    cases hread
    exact ⟨rfl, fun t ht => by cases ht⟩
  | acceptInvite raw username password now account salt workspace =>
    simp only [authRead] at hread
    obtain ⟨_, -, hread⟩ := except_bind_ok.1 hread
    obtain ⟨_, -, hread⟩ := except_bind_ok.1 hread
    obtain ⟨invite, hinvite, hread⟩ := except_bind_ok.1 hread
    obtain ⟨_, hopen, hread⟩ := except_bind_ok.1 hread
    cases hread
    replace hinvite := read_invite_ok.1 (mapError_ok.1 hinvite)
    replace hopen := demand_ok.1 hopen
    refine ⟨h.invites.unused _ _ hinvite ?_, fun t ht => by cases ht⟩
    exact Option.not_isSome_iff_eq_none.1 fun hsome => hopen (.inr (.inl hsome))
  | acceptInviteUsername invite username password now account salt workspace =>
    simp only [authRead] at hread
    obtain ⟨_, -, hread⟩ := except_bind_ok.1 hread
    obtain ⟨passwordHash, -, hread⟩ := except_bind_ok.1 hread
    cases hread
    exact ⟨⟨hf, congrArg Nat.succ hf, rfl, rfl, rfl⟩, fun t ht => by cases ht⟩
  | changePassword account current new salt =>
    simp only [authRead] at hread
    obtain ⟨_, -, hread⟩ := except_bind_ok.1 hread
    obtain ⟨a, ha, hread⟩ := except_bind_ok.1 hread
    obtain ⟨_, -, hread⟩ := except_bind_ok.1 hread
    obtain ⟨passwordHash, -, hread⟩ := except_bind_ok.1 hread
    cases hread
    replace ha := read_account_ok.1 (mapError_ok.1 ha)
    exact ⟨h.rewrite ha passwordHash, fun t ht => by cases ht⟩
  | resetPassword raw new now salt =>
    simp only [authRead] at hread
    obtain ⟨_, -, hread⟩ := except_bind_ok.1 hread
    obtain ⟨reset, hreset, hread⟩ := except_bind_ok.1 hread
    obtain ⟨_, hopen, hread⟩ := except_bind_ok.1 hread
    cases hread
    replace hreset := read_reset_ok.1 (mapError_ok.1 hreset)
    replace hopen := demand_ok.1 hopen
    refine ⟨h.resets.unused _ _ hreset ?_, fun t ht => by cases ht⟩
    exact Option.not_isSome_iff_eq_none.1 fun hsome => hopen (.inr hsome)
  | resetPasswordAccount reset new now salt =>
    simp only [authRead] at hread
    obtain ⟨a, ha, hread⟩ := except_bind_ok.1 hread
    obtain ⟨passwordHash, -, hread⟩ := except_bind_ok.1 hread
    cases hread
    replace ha := read_account_ok.1 (mapError_ok.1 ha)
    exact ⟨⟨hf, congrArg Nat.succ hf, rfl, h.rewrite ha passwordHash⟩, fun t ht => by cases ht⟩
  | createPasswordReset actor username now raw token =>
    simp only [authRead] at hread
    obtain ⟨_, -, hread⟩ := except_bind_ok.1 hread
    obtain ⟨_, -, hread⟩ := except_bind_ok.1 hread
    obtain ⟨_, -, hread⟩ := except_bind_ok.1 hread
    obtain ⟨_, -, hread⟩ := except_bind_ok.1 hread
    cases hread
    exact ⟨rfl, fun t ht => by cases ht⟩
  | bootstrapAdmin username password account salt workspace =>
    simp only [authRead] at hread
    obtain ⟨_, -, hread⟩ := except_bind_ok.1 hread
    obtain ⟨_, -, hread⟩ := except_bind_ok.1 hread
    obtain ⟨_, -, hread⟩ := except_bind_ok.1 hread
    obtain ⟨_, -, hread⟩ := except_bind_ok.1 hread
    cases hread
    exact ⟨⟨rfl, rfl⟩, fun t ht => by cases ht⟩
  | authenticateAccount session now => exact absurd rfl (hacc session now)
  | signInStore _ | signOut _ | createInviteStore _ | acceptInviteStore _ _ _ _ | changePasswordStore _ _
  | resetPasswordStore _ _ _ _ | createPasswordResetStore _ | bootstrapAdminStore _ _ => cases hstore

/-! ## The answers of `authenticate` -/

/-- A token that does not lead to an unexpired session is of none, or of one that was signed out or is expired. -/
theorem Inv.refused_right (h : w.Inv crypto) {raw : String} {now : DateTime}
    (hexpired : ∀ session, w.db.sessions.lookup (crypto.tokenHash raw) = some session → session.expiresAt ≤ now) :
    AuthOutcome.Right
      { subject := w.subject (crypto.tokenHash raw), now, signedOut := w.signedOut.contains (crypto.tokenHash raw)
        changed := (w.subject (crypto.tokenHash raw)).any w.changedSince, ok := false } := by
  refine ⟨fun _ => rfl, fun _ _ _ => rfl, ?_⟩
  intro k hk hnow
  cases hrow : w.db.sessions.lookup (crypto.tokenHash raw) with
  | none =>
    have hout := h.sessions.find_gone hrow hk
    simp [List.contains_eq_mem, hout]
  | some session =>
    obtain ⟨k', -, hfind, rfl⟩ := h.sessions.find_stored hrow
    cases hk.symm.trans hfind
    exact absurd (hexpired _ hrow) (not_le.2 hnow)

/-- The revision that the session remembers is the account's exactly if no change committed since. -/
theorem Inv.current_iff (h : w.Inv crypto) {k : Issued} (hk : k ∈ w.issued) :
    authenticateEnd k.session w.db = .ok () ↔ w.changedSince k = false := by
  have hknown := h.known k hk
  obtain ⟨a, ha⟩ := Option.isSome_iff_exists.1 hknown.account
  rw [authenticateEnd_ok]
  constructor
  · rintro ⟨a', ha', hrev⟩
    exact (hknown.current h.accounts ha').1 hrev
  · intro hchanged
    exact ⟨a, ha, (hknown.current h.accounts ha).2 hchanged⟩

theorem Inv.answer_right (h : w.Inv crypto) {session : SessionRecord} {now : DateTime}
    (hcall : f.call = .authenticateAccount session now) (hf : f.Ok w.db.accounts w.changes w.issued) {ok : Bool}
    (hok : ok = true ↔ authenticateEnd session w.db = .ok ()) :
    AuthOutcome.Right
      { subject := f.subject, now, signedOut := f.signedOut, changed := f.subject.any w.changedSince, ok } := by
  unfold InFlight.Ok at hf
  rw [hcall] at hf
  obtain ⟨hnow, hout, k, hk, hsubject, rfl⟩ := hf
  rw [h.current_iff hk] at hok
  refine ⟨?_, ?_, ?_⟩
  · intro hnone
    cases hsubject.symm.trans hnone
  · intro k' hk' hexpired
    cases hsubject.symm.trans hk'
    exact absurd hexpired (not_le.2 hnow)
  · intro k' hk' _
    cases hsubject.symm.trans hk'
    show ok = true ↔ f.signedOut = false ∧ f.subject.any w.changedSince = false
    rw [hok, hout, hsubject]
    exact (and_iff_right rfl).symm

theorem Inv.failed_right (h : w.Inv crypto) (hf : f.Ok w.db.accounts w.changes w.issued) {e : AuthError} {db : IdentityDb}
    (hstep : authStep crypto policy f.call w.db = (.failed e, db)) : ∀ o ∈ outcome crypto w f false, o.Right := by
  intro o ho
  unfold outcome at ho
  split at ho
  · rename_i raw now hcall
    cases List.mem_singleton.1 ho
    rw [hcall] at hstep
    exact h.refused_right fun session hsession => authStep_authenticate hstep hsession
  · rename_i session now hcall
    cases List.mem_singleton.1 ho
    rw [hcall] at hstep
    refine h.answer_right hcall hf ?_
    exact iff_of_false Bool.false_ne_true (authStep_authenticateAccount hstep)
  · cases ho

theorem Inv.finished_right (h : w.Inv crypto) (hf : f.Ok w.db.accounts w.changes w.issued) {db : IdentityDb}
    (hstep : authStep crypto policy f.call w.db = (.finished, db)) : ∀ o ∈ outcome crypto w f true, o.Right := by
  intro o ho
  obtain ⟨tx, htx, -⟩ | ⟨session, now, hcall, -, hend⟩ := authStep_finished hstep
  · unfold outcome at ho
    split at ho
    · rename_i hcall
      rw [hcall] at htx
      cases htx
    · rename_i hcall
      rw [hcall] at htx
      cases htx
    · cases ho
  · unfold outcome at ho
    rw [hcall] at ho
    cases List.mem_singleton.1 ho
    exact h.answer_right hcall hf (iff_of_true rfl hend)

/-- A call has ended and written nothing. -/
theorem Inv.ended (h : w.Inv crypto) {ok : Bool} (hright : ∀ o ∈ outcome crypto w f ok, o.Right) :
    (w.ended crypto id f ok).Inv crypto := by
  refine ⟨h.accounts, h.invites, h.resets, h.sessions, h.known, h.calls.erase id, ?_⟩
  intro o ho
  rcases List.mem_append.1 ho with ho | ho
  · exact h.outcomes o ho
  · exact hright o ho

/-! ## The commits -/

theorem Inv.saveSession (h : w.Inv crypto) {k : Issued} (hknown : Known w.db.accounts w.changes k)
    (hdrawn : k.session.verifierHash ∈ w.drawn) (hout : k.session.verifierHash ∉ w.signedOut)
    (hnew : ∀ k' ∈ w.issued, k'.session.verifierHash ≠ k.session.verifierHash)
    (hapart : ∀ i g, w.calls.lookup i = some g → g.call.drawnToken crypto ≠ some k.session.verifierHash) :
    Inv crypto { w with
      db := { w.db with sessions := w.db.sessions.insert k.session.verifierHash k.session }
      issued := w.issued ++ [k] } := by
  have hcalls : FlightsOk crypto w.db.accounts (w.changes ++ []) (w.issued ++ [k]) (w.signedOut ++ []) w.drawn w.calls := by
    refine h.calls.commit (AccountsGrow.refl _) [] ?_
    intro i g hg t ht
    refine ⟨List.not_mem_nil, ?_⟩
    intro k' hk' heq
    cases List.mem_singleton.1 hk'
    exact hapart i g hg (ht.trans (congrArg some heq.symm))
  rw [List.append_nil, List.append_nil] at hcalls
  refine ⟨h.accounts, h.invites, h.resets, h.sessions.store hdrawn hout hnew, ?_, hcalls, h.outcomes⟩
  intro k' hk'
  rcases List.mem_append.1 hk' with hk' | hk'
  · exact h.known k' hk'
  · cases List.mem_singleton.1 hk'
    exact hknown

theorem Inv.deleteSession (h : w.Inv crypto) {hash : String} {s : SessionRecord}
    (hrow : w.db.sessions.lookup hash = some s) :
    Inv crypto { w with
      db := { w.db with sessions := w.db.sessions.erase hash }
      signedOut := w.signedOut ++ [hash] } := by
  have hcalls : FlightsOk crypto w.db.accounts (w.changes ++ []) (w.issued ++ []) (w.signedOut ++ [hash]) w.drawn w.calls := by
    refine h.calls.commit (AccountsGrow.refl _) [] ?_
    intro i g hg t ht
    refine ⟨?_, fun k hk => absurd hk List.not_mem_nil⟩
    intro hmem
    -- the token of a call under way is of no session that was stored
    obtain ⟨k, hk, rfl, hhash⟩ := h.sessions.stored hash s hrow
    obtain ⟨-, -, hnew⟩ := h.calls.token i g hg t ht
    refine hnew k hk ?_
    rw [List.mem_singleton.1 hmem, hhash]
  rw [List.append_nil, List.append_nil] at hcalls
  exact ⟨h.accounts, h.invites, h.resets, h.sessions.erase hrow, h.known, hcalls, h.outcomes⟩

theorem Inv.saveInvite (h : w.Inv crypto) {invite : InviteRecord} (hnew : w.db.invites.lookup invite.tokenHash = none)
    (hrev : invite.revision = 0) :
    Inv crypto { w with db := { w.db with invites := w.db.invites.insert invite.tokenHash invite } } :=
  ⟨h.accounts, h.invites.create hnew hrev, h.resets, h.sessions, h.known, h.calls, h.outcomes⟩

theorem Inv.consumeInvite (h : w.Inv crypto) {invite cur : InviteRecord}
    (hcur : w.db.invites.lookup invite.tokenHash = some cur) (hopen : cur.revision = 0) (hrev : invite.revision = 1)
    (hused : invite.consumedAt.isSome = true) :
    Inv crypto { w with
      db := { w.db with invites := w.db.invites.insert invite.tokenHash invite }
      invited := w.invited ++ [invite.tokenHash] } :=
  ⟨h.accounts, h.invites.consume hcur hopen hrev hused, h.resets, h.sessions, h.known, h.calls, h.outcomes⟩

theorem Inv.savePasswordReset (h : w.Inv crypto) {reset : PasswordResetRecord}
    (hnew : w.db.passwordResets.lookup reset.tokenHash = none) (hrev : reset.revision = 0) :
    Inv crypto { w with db := { w.db with passwordResets := w.db.passwordResets.insert reset.tokenHash reset } } :=
  ⟨h.accounts, h.invites, h.resets.create hnew hrev, h.sessions, h.known, h.calls, h.outcomes⟩

theorem Inv.consumeReset (h : w.Inv crypto) {reset cur : PasswordResetRecord}
    (hcur : w.db.passwordResets.lookup reset.tokenHash = some cur) (hopen : cur.revision = 0) (hrev : reset.revision = 1)
    (hused : reset.consumedAt.isSome = true) :
    Inv crypto { w with
      db := { w.db with passwordResets := w.db.passwordResets.insert reset.tokenHash reset }
      resets := w.resets ++ [reset.tokenHash] } :=
  ⟨h.accounts, h.invites, h.resets.consume hcur hopen hrev hused, h.sessions, h.known, h.calls, h.outcomes⟩

theorem Inv.createAccount (h : w.Inv crypto) {a : AccountRecord} (v : Workspace)
    (hfree : w.db.usernameReservations.lookup a.username = none) (hnew : w.db.accounts.lookup a.id = none)
    (hrev : a.revision = 0) (hauth : a.authRevision = 0) :
    Inv crypto { w with
      db := { w.db with
        usernameReservations := w.db.usernameReservations.insert a.username a.id
        accounts := w.db.accounts.insert a.id a
        workspaces := w.db.workspaces.insert v.id v } } := by
  have hgrow := AccountsGrow.create hnew
  have hcalls := h.calls.grow hgrow []
  rw [List.append_nil] at hcalls
  refine ⟨h.accounts.create hfree hnew hrev hauth, h.invites, h.resets, h.sessions, ?_, hcalls, h.outcomes⟩
  intro k hk
  have hknown := (h.known k hk).mono hgrow []
  rw [List.append_nil] at hknown
  exact hknown

theorem Inv.rewriteAccount (h : w.Inv crypto) {a cur : AccountRecord} {expected : Nat}
    (hwrite : Rewrite w.db.accounts expected a) (hcur : w.db.accounts.lookup a.id = some cur)
    (hrev : cur.revision = expected) :
    Inv crypto { w with
      db := { w.db with accounts := w.db.accounts.insert a.id a }
      changes := w.changes ++ [(a.id, expected)] } := by
  have hgrow := hwrite.grow hcur hrev
  refine ⟨h.accounts.rewrite hwrite hcur hrev, h.invites, h.resets, h.sessions, ?_, h.calls.grow hgrow _, h.outcomes⟩
  intro k hk
  exact (h.known k hk).mono hgrow _

/-- The last call of a method commits. -/
theorem Inv.committed (h : w.Inv crypto) (hf : w.calls.lookup id = some f) {tx : IdentityTx Unit} {db : IdentityDb}
    (hstore : authStore f.call = some tx) (htx : tx w.db = .ok ((), db))
    (hright : ∀ o ∈ outcome crypto w f true, o.Right) :
    ({ w.ended crypto id f true with db }.committed f).Inv crypto := by
  have hended : (w.ended crypto id f true).Inv crypto := h.ended hright
  have hok := h.calls.ok id f hf
  have htoken := h.calls.token id f hf
  have hapart := h.calls.apart id
  obtain ⟨call, seen, subject, out⟩ := f
  cases call with
  | signInStore session =>
    cases hstore
    obtain ⟨-, rfl⟩ := casSession_ok htx
    obtain ⟨hdrawn, hout, hnew⟩ := htoken _ rfl
    refine hended.saveSession (k := { session, seen }) hok hdrawn hout hnew ?_
    intro i g hg
    replace hg : (w.calls.erase id).lookup i = some g := hg
    rw [Table.lookup_erase_if] at hg
    split at hg
    · cases hg
    · rename_i hi
      exact hapart i _ g hf hg (Ne.symm hi) _ rfl
  | signOut session =>
    cases hstore
    obtain ⟨⟨s, hs⟩, rfl⟩ := deleteSession_ok htx
    exact hended.deleteSession hs
  | createInviteStore invite =>
    cases hstore
    obtain ⟨hnew, rfl⟩ := casInvite_ok htx
    exact hended.saveInvite (Option.map_eq_none_iff.1 hnew) hok
  | acceptInviteStore expected invite account workspace =>
    cases hstore
    obtain ⟨rfl, hinvite, hused, hrev, hauth⟩ := hok
    obtain ⟨⟨cur, hcur, hopen⟩, hfree, hnew, rfl⟩ := consumeInvite_ok htx
    exact (hended.consumeInvite hcur hopen hinvite hused).createAccount workspace hfree hnew hrev hauth
  | changePasswordStore expected account =>
    cases hstore
    obtain ⟨⟨cur, hcur, hrev⟩, rfl⟩ := saveAccount_ok htx
    exact hended.rewriteAccount hok hcur hrev
  | resetPasswordStore resetRevision reset expected account =>
    cases hstore
    obtain ⟨rfl, hreset, hused, hwrite⟩ := hok
    obtain ⟨⟨cur, hcur, hopen⟩, ⟨a, ha, hrev⟩, rfl⟩ := consumeReset_ok htx
    exact (hended.consumeReset hcur hopen hreset hused).rewriteAccount hwrite ha hrev
  | createPasswordResetStore reset =>
    cases hstore
    obtain ⟨hnew, rfl⟩ := casPasswordReset_ok htx
    exact hended.savePasswordReset (Option.map_eq_none_iff.1 hnew) hok
  | bootstrapAdminStore account workspace =>
    cases hstore
    obtain ⟨hfree, hnew, rfl⟩ := createAccountAndWorkspace_ok htx
    exact hended.createAccount workspace hfree hnew hok.1 hok.2
  | authenticate _ _ | authenticateAccount _ _ | signIn _ _ _ _ _ | createInvite _ _ _ _ _ | acceptInvite _ _ _ _ _ _ _
  | acceptInviteUsername _ _ _ _ _ _ _ | changePassword _ _ _ _ | resetPassword _ _ _ _ | resetPasswordAccount _ _ _ _
  | createPasswordReset _ _ _ _ _ | bootstrapAdmin _ _ _ _ _ => cases hstore

theorem Inv.begin (h : w.Inv crypto) {call : AuthCall} (hstep : w.begin crypto id call = some w') : w'.Inv crypto := by
  unfold AuthWorld.begin at hstep
  split at hstep
  · rename_i hcond
    obtain ⟨hmethod, -, hfresh⟩ := hcond
    cases hstep
    have hok : InFlight.Ok w.db.accounts w.changes w.issued { call, seen := 0, subject := none, signedOut := false } := by
      cases call <;> trivial
    refine ⟨h.accounts, h.invites, h.resets, h.sessions.draw _, h.known, ?_, h.outcomes⟩
    exact h.calls.begin h.sessions.known (fun t ht => (h.sessions.gone t ht).2) hok hfresh
  · cases hstep

/-- A repository call of a method: it goes on, ends, or fails. -/
theorem step_cases (h : w.step crypto policy (.step id) = some w') : ∃ f, w.calls.lookup id = some f ∧
    ((∃ call db, authStep crypto policy f.call w.db = (.next call, db) ∧
        w' = { w with db, calls := w.calls.insert id (w.goesOn crypto f call) }) ∨
      (∃ db, authStep crypto policy f.call w.db = (.finished, db) ∧
        w' = { w.ended crypto id f true with db }.committed f) ∨
      ∃ e db, authStep crypto policy f.call w.db = (.failed e, db) ∧ w' = { w.ended crypto id f false with db }) := by
  simp only [AuthWorld.step] at h
  split at h
  · cases h
  · rename_i f hf
    refine ⟨f, hf, ?_⟩
    split at h
    · cases h
      exact .inl ⟨_, _, ‹_›, rfl⟩
    · cases h
      exact .inr (.inl ⟨_, ‹_›, rfl⟩)
    · cases h
      exact .inr (.inr ⟨_, _, ‹_›, rfl⟩)

@[simp] theorem goesOn_call (w : AuthWorld) (f : InFlight) (next : AuthCall) : (w.goesOn crypto f next).call = next := by
  unfold goesOn
  split <;> rfl

theorem Inv.step (h : w.Inv crypto) {op : AuthOp} (hstep : w.step crypto policy op = some w') : w'.Inv crypto := by
  cases op with
  | call id call => exact h.begin hstep
  | drop id =>
    cases hstep
    exact ⟨h.accounts, h.invites, h.resets, h.sessions, h.known, h.calls.erase id, h.outcomes⟩
  | step id =>
    obtain ⟨f, hf, hcases⟩ := step_cases hstep
    have hok := h.calls.ok id f hf
    obtain ⟨call, db, hprogress, rfl⟩ | ⟨db, hprogress, rfl⟩ | ⟨e, db, hprogress, rfl⟩ := hcases
    · obtain ⟨rfl, hread, hstore, hacc⟩ := authStep_next hprogress
      obtain ⟨hnext, htoken⟩ := h.goesOn_ok hok hread hstore hacc
      have hcalls := h.calls.goes_on hf hnext (by simpa only [goesOn_call] using htoken)
      exact ⟨h.accounts, h.invites, h.resets, h.sessions, h.known, hcalls, h.outcomes⟩
    · have hright := h.finished_right hok hprogress
      obtain ⟨tx, htx, hrun⟩ | ⟨session, now, hcall, rfl, -⟩ := authStep_finished hprogress
      · exact h.committed hf htx hrun hright
      · unfold AuthWorld.committed
        rw [hcall]
        exact h.ended hright
    · cases authStep_failed hprogress
      exact h.ended (h.failed_right hok hprogress)

theorem Start.inv (h : w.Start) : w.Inv crypto := by
  refine ⟨?_, ?_, ?_, ?_, ?_, ?_, ?_⟩
  · rw [h.accounts, h.reservations, h.changes]
    exact ⟨by simp, by simp, by simp, by simp, by simp, List.nodup_nil⟩
  · rw [h.invites, h.invited]
    exact ⟨by simp, by simp, by simp, List.nodup_nil⟩
  · rw [h.resetTokens, h.resets]
    exact ⟨by simp, by simp, by simp, List.nodup_nil⟩
  · rw [h.sessions, h.issued, h.signedOut]
    exact ⟨by simp, by simp, List.nodup_nil, by simp, by simp⟩
  · rw [h.issued]
    exact fun k hk => absurd hk List.not_mem_nil
  · rw [h.calls]
    exact ⟨by simp, by simp, by simp⟩
  · rw [h.outcomes]
    exact fun o ho => absurd ho List.not_mem_nil

theorem run_keeps_inv (hstart : w.Start) {ops : List AuthOp} (hrun : run (AuthWorld.step crypto policy) w ops = some w') :
    w'.Inv crypto :=
  run_inv' (AuthWorld.Inv crypto) (fun _ _ _ h hstep => h.step hstep) hstart.inv hrun

/-- A change that was read at the revision another one committed from fails and writes nothing. -/
theorem Inv.stale_change (h : w.Inv crypto) (hf : w.calls.lookup id = some f) {c : AccountId × Nat}
    (hchange : f.call.change = some c) (hmem : c ∈ w.changes) (hstep : w.step crypto policy (.step id) = some w') :
    w'.db = w.db ∧ w'.changes = w.changes := by
  obtain ⟨f', hf', hcases⟩ := step_cases hstep
  cases hf.symm.trans hf'
  obtain ⟨call, seen, subject, out⟩ := f
  obtain ⟨call', db, hprogress, rfl⟩ | ⟨db, hprogress, -⟩ | ⟨e, db, hprogress, rfl⟩ := hcases
  · exact ⟨(authStep_next hprogress).1, rfl⟩
  · obtain ⟨tx, htx, hrun⟩ | ⟨session, now, hcall, -, -⟩ := authStep_finished hprogress
    · cases call with
      | changePasswordStore expected account =>
        cases htx
        cases hchange
        obtain ⟨⟨cur, hcur, hrev⟩, -⟩ := saveAccount_ok hrun
        exact absurd hrev (h.accounts.stale hcur hmem)
      | resetPasswordStore resetRevision reset expected account =>
        cases htx
        cases hchange
        obtain ⟨-, ⟨cur, hcur, hrev⟩, -⟩ := consumeReset_ok hrun
        exact absurd hrev (h.accounts.stale hcur hmem)
      | _ => cases hchange
    · rw [hcall] at hchange
      cases hchange
  · exact ⟨authStep_failed hprogress, rfl⟩

end AuthWorld

/-- In every interleaving of the calls: each call of `authenticate` answers right, an invite creates one account
and a reset token changes one password at most, names are unique, and of two changes of a password that read one
revision one commits at most and the other writes nothing. -/
theorem credentials_under_interleaving (crypto : AuthCrypto) (policy : AuthPolicy) {w w' : AuthWorld} {ops : List AuthOp}
    (hstart : w.Start) (hrun : run (AuthWorld.step crypto policy) w ops = some w') :
    (∀ o ∈ w'.outcomes, o.Right) ∧ w'.invited.Nodup ∧ w'.resets.Nodup ∧
    (∀ id id' a a', w'.db.accounts.lookup id = some a → w'.db.accounts.lookup id' = some a' →
      a.username = a'.username → id = id') ∧
    w'.changes.Nodup ∧
    ∀ id f c w'', w'.calls.lookup id = some f → f.call.change = some c → c ∈ w'.changes →
      w'.step crypto policy (.step id) = some w'' → w''.db = w'.db ∧ w''.changes = w'.changes := by
  have h := AuthWorld.run_keeps_inv hstart hrun
  refine ⟨h.outcomes, h.invites.nodup, h.resets.nodup, ?_, h.accounts.nodup, ?_⟩
  · intro id id' a a' ha ha' hname
    exact h.accounts.username_inj ha ha' hname
  · intro id f c w'' hf hchange hmem hstep
    exact h.stale_change hf hchange hmem hstep

namespace AuthWorld.Sample

/-- A password is its own hash, and so is a token. -/
def crypto : AuthCrypto where
  hashPassword _ password := some password
  verifyPassword password hash := password == hash
  tokenHash raw := raw

def policy : AuthPolicy := { sessionLifetimeSeconds := 60, inviteLifetimeSeconds := 60, resetLifetimeSeconds := 60 }

def empty : AuthWorld :=
  { db := {}, calls := ∅, drawn := [], issued := [], signedOut := [], changes := [], invited := [], resets := []
    outcomes := [] }

theorem empty_start : empty.Start := ⟨rfl, rfl, rfl, rfl, rfl, rfl, rfl, rfl, rfl, rfl, rfl, rfl⟩

/-- A session is used, then two clients change the password from the same revision, and it is used again. -/
def ops : List AuthOp :=
  [.call 1 (.bootstrapAdmin "ada" "first password" ⟨1⟩ 0 ⟨1⟩), .step 1, .step 1,
   .call 2 (.signIn "ada" "first password" 0 "token" 1), .step 2, .step 2,
   .call 3 (.authenticate "token" 1), .step 3, .step 3,
   .call 4 (.changePassword ⟨1⟩ "first password" "second password" 0),
   .call 5 (.changePassword ⟨1⟩ "first password" "third password" 0), .step 4, .step 5, .step 4,
   .call 6 (.authenticate "token" 2), .step 6, .step 6]

def after : AuthWorld := (run (AuthWorld.step crypto policy) empty ops).getD empty

theorem run_ops : run (AuthWorld.step crypto policy) empty ops = some after :=
  run_getD (by decide +kernel) empty

end AuthWorld.Sample

/-- The session answers until the password is changed, and the other change is still to fail. -/
theorem credentials_under_interleaving_race :
    (AuthWorld.Sample.after.outcomes.map (·.ok) = [true, false] ∧
      ((AuthWorld.Sample.after.calls.lookup 5).bind (·.call.change)) = some (⟨1⟩, 0) ∧ AuthWorld.Sample.after.changes = [(⟨1⟩, 0)]) ∧
    ∀ o ∈ AuthWorld.Sample.after.outcomes, o.Right :=
  ⟨by decide +kernel,
    (credentials_under_interleaving AuthWorld.Sample.crypto AuthWorld.Sample.policy AuthWorld.Sample.empty_start AuthWorld.Sample.run_ops).1⟩

end Inoreader
