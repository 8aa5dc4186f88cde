import Inoreader.Ai.ChatWorld

/-!
# Fencing of the workers of a chat

`begin`, `update_claim` and `finish_unchecked` ask for the lease of the worker and a pending chat, `update` asks
for nothing and then reports only, `defer_chat` asks for the lease alone. `stop` and the recovery of a claim leave
the lease in the row, so a deferral is the one operation of a worker that can reach a chat after it ended.
-/

namespace Inoreader
open Lib

namespace ChatWorld

/-- A worker that defers a chat under its live lease finds the chat pending. -/
def DefersPending (w : ChatWorld) : ChatLabel → Prop
  | .defer lease _ => ∀ claim row, w.claims.lookup lease = some claim →
      w.db.chats.lookup claim.record.view.id = some row → row.lease = some lease →
      row.leaseUntil.any (w.clock < ·) = true → row.status.any ChatStatus.pending = true
  | _ => True

/-- The lease of the worker has expired or is no longer in its chat, or the chat is not pending. -/
def Late (w : ChatWorld) (claim : ClaimedChat) : Prop :=
  ∀ row, w.db.chats.lookup claim.record.view.id = some row → row.fenced claim.lease w.clock = false

/-- All that changes is the usage and the status of the call, its retained response and the draft of its attempt. -/
def ReportsOwn (P : AiPlatform) (db db' : AiDb) (claim : ClaimedChat) (call : Nat) : Prop :=
  ∃ row r r' c c' view responses, db.chats.lookup claim.record.view.id = some row ∧
    row.Holds P claim.record.view.id r ∧ row.status = some r.view.status ∧
    r.Reported r' call claim.attempt c c' ∧ r'.intoPublicView P = .ok view ∧
    db' = { db with
      chats := db.chats.insert claim.record.view.id (row.written r' view)
      callResponses := responses } ∧
    ∀ k, k ≠ call → responses.lookup k = db.callResponses.lookup k

/-- What a late worker does. -/
def Harmless (P : AiPlatform) (w w' : ChatWorld) (claim : ClaimedChat) : ChatLabel → Prop
  | .update lease call _ => w'.db = w.db ∨ w.begun.lookup call = some lease ∧ ReportsOwn P w.db w'.db claim call
  | _ => w'.db = w.db

section
variable {P : AiPlatform} {w w' : ChatWorld} {a : ChatLabel} {lease : Nat} {claim : ClaimedChat}

/-! ## One call for each attempt and phase -/

/-- The admitted calls are in the records of their chats. -/
structure Admits (P : AiPlatform) (w : ChatWorld) : Prop where
  nodup : w.admitted.Nodup
  recorded : ∀ e ∈ w.admitted, ∃ row r, w.db.chats.lookup e.1 = some row ∧ row.Holds P e.1 r ∧
    ∃ c ∈ r.view.providerCalls, c.key = e.2

theorem Admits.evolves (h : w.Admits P) (hadmitted : w'.admitted = w.admitted) (hdb : w.db.Evolves P w'.db) :
    w'.Admits P := by
  refine ⟨hadmitted ▸ h.nodup, fun e he => ?_⟩
  obtain ⟨row, r, hlookup, hrow, c, hc, hkey⟩ := h.recorded e (hadmitted ▸ he)
  obtain ⟨row', r', hlookup', hrow', hext, -⟩ := hdb.chats e.1 row r hlookup hrow
  obtain ⟨c', hc', hkeeps⟩ := hext.calls c hc
  exact ⟨row', r', hlookup', hrow', c', hc', hkeeps.key.trans hkey⟩

/-- Only `begin` admits a call. -/
theorem work_admitted (h : w.work P claim a = some w') : w'.admitted = w.admitted ∨
    ∃ l phase reservation model call x, a = .begin l phase reservation model call ∧
      beginCall P claim phase reservation model call w.clock w.db = .ok (x, w'.db) ∧
      w'.admitted = (claim.record.view.id, claim.attempt, phase) :: w.admitted := by
  cases a with
  | begin l phase reservation model call =>
    unfold work at h
    simp only at h
    split at h
    · rename_i x db hbegin
      cases h
      exact .inr ⟨l, phase, reservation, model, call, x, rfl, hbegin, rfl⟩
    · cases h
      exact .inl rfl
  | update l call update =>
    unfold work at h
    simp only at h
    split at h <;> cases h
    exact .inl rfl
  | updateClaim l next content snapshot error =>
    unfold work at h
    simp only at h
    split at h <;> cases h <;> exact .inl rfl
  | finishUnchecked l =>
    unfold work at h
    simp only at h
    split at h <;> cases h <;> exact .inl rfl
  | defer l reason =>
    cases h
    exact .inl rfl
  | _ => cases h

theorem hasCall_of_key {view : ArticleChat} {c : ProviderCall} (hc : c ∈ view.providerCalls) :
    view.hasCall c.assistantId c.phase = true := by
  unfold ArticleChat.hasCall
  exact List.any_eq_true.2 ⟨c, hc, by simp⟩

theorem admits_step (hinv : w.Inv P) (hadmits : w.Admits P) (h : step P w a = some w') : w'.Admits P := by
  have hevolves := AiDb.Moves.evolves (step_stepped hinv h).moves
  rcases step_cases h with ⟨-, -, h⟩ | ⟨lease, claim, -, hclaim, h⟩
  · exact hadmits.evolves (act_ghosts h).1 hevolves
  · rcases work_admitted h with heq | ⟨l, phase, reservation, model, call, x, rfl, hbegin, heq⟩
    · exact hadmits.evolves heq hevolves
    · obtain ⟨row, r, row', r', op, claimed, hchanges, -, hlast, hclaimed, hid, hnew, -, hcalls⟩ :=
        beginCall_ok hinv.sound hbegin
      have hattempt : claim.attempt = op.assistantId :=
        attempt_of_claim (hinv.fits hclaim row r hchanges.lookup hchanges.sound.holds) hchanges.sound.good
          (List.mem_of_getLast? hlast) hclaimed hid
      have hkept : Admits P { w' with admitted := w.admitted } := hadmits.evolves rfl hevolves
      refine ⟨?_, fun e he => ?_⟩
      · rw [heq]
        refine List.nodup_cons.2 ⟨fun hmem => ?_, hadmits.nodup⟩
        -- an admitted call of the attempt and the phase would be in the record
        obtain ⟨row₁, r₁, hlookup₁, hrow₁, c, hc, hkey⟩ := hadmits.recorded _ hmem
        rw [hchanges.lookup] at hlookup₁
        cases hlookup₁
        obtain rfl := hchanges.sound.holds.unique hrow₁
        have hhas := hasCall_of_key hc
        simp only [ProviderCall.key, Prod.mk.injEq] at hkey
        rw [hkey.1, hkey.2, hattempt, hnew] at hhas
        cases hhas
      · rw [heq] at he
        rcases List.mem_cons.1 he with rfl | he
        · refine ⟨row', r', ?_, hchanges.change.holds hchanges.sound, _,
            hcalls ▸ List.mem_append_right _ (List.mem_singleton.2 rfl), ?_⟩
          · rw [hchanges.chats, Table.lookup_insert_if, if_pos rfl]
          · simp [ProviderCall.key, hattempt]
        · exact hkept.recorded e he

/-! ## The status of a chat that ended -/

theorem moves_status_kept {now : DateTime} {ids : List Nat} {allowed : Nat → ChatCause → Prop} {db db' : AiDb}
    (h : AiDb.Moves P now ids allowed db db') {id : Nat}
    (hallowed : ∀ cause, allowed id cause → (∀ user assistant, cause ≠ .command user assistant) ∧ ∀ l, cause ≠ .defer l)
    {row : ChatRow} {st : ChatStatus} (hlookup : db.chats.lookup id = some row) (hst : row.status = some st)
    (hdone : st.pending = false) : ∃ row', db'.chats.lookup id = some row' ∧ row'.status = some st := by
  induction h with
  | refl => exact ⟨row, hlookup, hst⟩
  | tail _ hmove ih =>
    obtain ⟨row₁, hlookup₁, hst₁⟩ := ih
    cases hmove with
    | still chats =>
      rw [chats]
      exact ⟨row₁, hlookup₁, hst₁⟩
    | @new id' row' r' lookup _ _ chats =>
      have hne : id ≠ id' := by
        rintro rfl
        rw [lookup] at hlookup₁
        cases hlookup₁
      rw [chats, Table.lookup_insert_if, if_neg hne]
      exact ⟨row₁, hlookup₁, hst₁⟩
    | @change id' cause row' row'' r' r'' hcause hchanges =>
      rw [hchanges.chats, Table.lookup_insert_if]
      split
      · rename_i hid
        subst hid
        rw [hchanges.lookup] at hlookup₁
        cases hlookup₁
        obtain ⟨hcommand, hdefer⟩ := hallowed cause hcause
        exact ⟨row'', rfl, hchanges.change.status_kept hchanges.sound.holds hst₁ hdone hcommand hdefer⟩
      · exact ⟨row₁, hlookup₁, hst₁⟩

/-- A deferral finds its chat pending, so it does not touch a chat that ended. -/
theorem defer_status_kept (hinv : w.Inv P) {reason : AiDeferral} (hclaim : w.claims.lookup lease = some claim)
    (hdefers : w.DefersPending (.defer lease reason)) {id : Nat} {row : ChatRow} {st : ChatStatus}
    (hlookup : w.db.chats.lookup id = some row) (hst : row.status = some st) (hdone : st.pending = false) :
    ∃ row', ((deferChat claim reason w.clock).commit w.db).chats.lookup id = some row' ∧ row'.status = some st := by
  refine Tx.commit_of_wp (P := fun db' : AiDb => ∃ row', db'.chats.lookup id = some row' ∧ row'.status = some st)
    ⟨row, hlookup, hst⟩ fun x db' hx => ?_
  obtain ⟨row₁, r, row', r', hchanges, hlease, hlive, -⟩ := deferChat_ok hinv.sound hx
  rw [hchanges.chats, Table.lookup_insert_if]
  split
  · rename_i hid
    subst hid
    rw [hchanges.lookup] at hlookup
    cases hlookup
    rw [(hinv.claims lease claim hclaim).1] at hlease
    have hpending := hdefers claim row hclaim hchanges.lookup hlease hlive
    rw [hst, Option.any_some, hdone] at hpending
    cases hpending
  · exact ⟨row, hlookup, hst⟩

theorem step_status_kept (hinv : w.Inv P) (h : step P w a = some w') (hdefers : w.DefersPending a) {id : Nat}
    (happends : ¬ w.Appends P id a) {row : ChatRow} {st : ChatStatus} (hlookup : w.db.chats.lookup id = some row)
    (hst : row.status = some st) (hdone : st.pending = false) :
    ∃ row', w'.db.chats.lookup id = some row' ∧ row'.status = some st := by
  by_cases hdefer : ∃ l reason, a = .defer l reason
  · obtain ⟨l, reason, rfl⟩ := hdefer
    rcases step_cases h with ⟨hworker, -⟩ | ⟨lease, claim, hworker, hclaim, h⟩
    · cases hworker
    · cases hworker
      cases h
      exact defer_status_kept hinv hclaim hdefers hlookup hst hdone
  · refine moves_status_kept (step_stepped hinv h).moves (fun cause hallows => ?_) hlookup hst hdone
    cases a with
    | append => exact absurd hallows.2 happends
    | claim =>
      rcases hallows with rfl | rfl <;> exact ⟨nofun, nofun⟩
    | finishUnchecked l =>
      obtain ⟨-, -, -, rfl⟩ := hallows
      exact ⟨nofun, nofun⟩
    | defer l reason => exact absurd ⟨l, reason, rfl⟩ hdefer
    | tick => cases hallows
    | create => cases hallows
    | settle => cases hallows
    | elsewhere => cases hallows
    | _ =>
      cases hallows
      exact ⟨nofun, nofun⟩

/-- `id` gets no new command. -/
def Unasked (P : AiPlatform) (id : Nat) (w : ChatWorld) (a : ChatLabel) : Prop := ¬ w.Appends P id a

theorem run_status_kept {as : List ChatLabel} (hinv : w.Inv P) (hrun : run (step P) w as = some w')
    (hdefers : Along (step P) DefersPending w as) {id : Nat} (hunasked : Along (step P) (Unasked P id) w as)
    {row : ChatRow} {st : ChatStatus} (hlookup : w.db.chats.lookup id = some row) (hst : row.status = some st)
    (hdone : st.pending = false) : ∃ row', w'.db.chats.lookup id = some row' ∧ row'.status = some st := by
  induction as generalizing w row with
  | nil =>
    cases hrun
    exact ⟨row, hlookup, hst⟩
  | cons a as ih =>
    obtain ⟨w₁, hstep, hrun⟩ := run_cons.1 hrun
    obtain ⟨row₁, hlookup₁, hst₁⟩ := step_status_kept hinv hstep hdefers.1 hunasked.1 hlookup hst hdone
    exact ih (hinv.step hstep) hrun (hdefers.2 w₁ hstep) (hunasked.2 w₁ hstep) hlookup₁ hst₁

/-! ## Late workers -/

theorem not_fenced (hlate : w.Late claim) {row : ChatRow} (hlookup : w.db.chats.lookup claim.record.view.id = some row)
    (hfenced : row.fenced claim.lease w.clock = true) : False := by
  rw [hlate row hlookup] at hfenced
  cases hfenced

theorem late_harmless (hinv : w.Inv P) (hworker : a.worker = some lease) (hclaim : w.claims.lookup lease = some claim)
    (hdefers : w.DefersPending a) (hlate : w.Late claim) (h : (w.draw a.ids).work P claim a = some w') :
    Harmless P w w' claim a := by
  have hfits := hinv.fits hclaim
  cases a with
  | begin l phase reservation model call =>
    unfold work at h
    simp only at h
    split at h
    · rename_i x db hbegin
      obtain ⟨row, r, row', r', op, claimed, hchanges, hfenced, -⟩ := beginCall_ok hinv.sound hbegin
      exact (not_fenced hlate hchanges.lookup hfenced).elim
    · cases h
      rfl
  | update l call update =>
    cases hworker
    unfold work at h
    simp only at h
    split at h
    · rename_i hbegun
      cases h
      show _ ∨ _
      refine Tx.commit_of_wp (P := fun db' : AiDb => db' = w.db ∨ w.begun.lookup call = some lease ∧ ReportsOwn P w.db db' claim call)
        (.inl rfl) fun x db' hx => .inr ⟨hbegun, ?_⟩
      obtain ⟨row, r, row', r', claimed, hchanges, hclaimed, ⟨responses, hdb, hother⟩, hreport⟩ :=
        updateCall_ok hinv.sound hfits hx
      obtain ⟨hstatus, c, c', view, hreported, hview, rfl⟩ := hreport (hlate row hchanges.lookup)
      refine ⟨row, r, r', c, c', view, responses, hchanges.lookup, hchanges.sound.holds, hstatus, ?_, hview, hdb, hother⟩
      unfold ClaimedChat.attempt
      rw [hclaimed]
      exact hreported
    · cases h
  | updateClaim l next content snapshot error =>
    unfold work at h
    simp only at h
    split at h
    · rename_i x db hupdate
      obtain ⟨row, r, row', r', hchanges, hfenced, -⟩ := updateClaim_ok hinv.sound hfits hupdate
      exact (not_fenced hlate hchanges.lookup hfenced).elim
    · cases h
      rfl
  | finishUnchecked l =>
    unfold work at h
    simp only at h
    split at h
    · rename_i db hfinish
      rcases finishUnchecked_ok hinv.sound hfits hfinish with ⟨hfalse, -⟩ |
        ⟨row, r, row', r', op, claimed, -, hchanges, hfenced, -⟩
      · cases hfalse
      · exact (not_fenced hlate hchanges.lookup hfenced).elim
    · rename_i db hfinish
      rcases finishUnchecked_ok hinv.sound hfits hfinish with ⟨-, hdb⟩ | ⟨_, _, _, _, _, _, htrue, -⟩
      · cases h
        exact hdb
      · cases htrue
    · cases h
      rfl
  | defer l reason =>
    cases hworker
    cases h
    refine Tx.commit_of_wp (P := fun db' : AiDb => db' = w.db) rfl fun x db' hx => ?_
    obtain ⟨row, r, row', r', hchanges, hlease, hlive, -⟩ := deferChat_ok hinv.sound hx
    have hlive : row.leaseUntil.any (w.clock < ·) = true := hlive
    have hown : row.lease = some lease := (hinv.claims lease claim hclaim).1 ▸ hlease
    refine (not_fenced hlate hchanges.lookup ?_).elim
    simp only [ChatRow.fenced, hlease, beq_self_eq_true, hlive, Bool.true_and]
    exact hdefers claim row hclaim hchanges.lookup hown hlive
  | _ => cases hworker

theorem admits_run {as : List ChatLabel} (hinv : w.Inv P) (hadmits : w.Admits P) (hrun : run (step P) w as = some w') :
    w'.Admits P := by
  induction as generalizing w with
  | nil =>
    cases hrun
    exact hadmits
  | cons a as ih =>
    obtain ⟨w₁, hstep, hrun⟩ := run_cons.1 hrun
    exact ih (hinv.step hstep) (admits_step hinv hadmits hstep) hrun

end

/-- A chat that ended in `w` keeps its status as long as it gets no new command. -/
def StaysEnded (P : AiPlatform) (w : ChatWorld) (bs : List ChatLabel) (w' : ChatWorld) : Prop :=
  ∀ id row st, w.db.chats.lookup id = some row → row.status = some st → st = .cancelled ∨ st = .interrupted →
    Along (step P) (Unasked P id) w bs → ∃ row', w'.db.chats.lookup id = some row' ∧ row'.status = some st

/-- In every run whose deferrals find their chats pending: one call is admitted for an attempt and a phase, an ended
chat does not revive by itself, and late workers report on their own calls only. -/
theorem chat_workers_fenced (P : AiPlatform) {db : AiDb} {clock : DateTime} {as : List ChatLabel} {w : ChatWorld}
    (hdb : db.chats = ∅) (hrun : run (step P) (start db clock) as = some w)
    (hdefers : Along (step P) DefersPending (start db clock) as) :
    w.admitted.Nodup ∧
    (∀ as₁ bs w₁, as = as₁ ++ bs → run (step P) (start db clock) as₁ = some w₁ → StaysEnded P w₁ bs w) ∧
    ∀ as₁ a bs w₁ w₂ lease claim, as = as₁ ++ a :: bs → run (step P) (start db clock) as₁ = some w₁ →
      step P w₁ a = some w₂ → a.worker = some lease → w₁.claims.lookup lease = some claim → w₁.Late claim →
      Harmless P w₁ w₂ claim a := by
  have hstart := inv_start (P := P) hdb clock
  refine ⟨?_, ?_, ?_⟩
  · have hempty : (start db clock).Admits P := ⟨List.nodup_nil, nofun⟩
    exact (admits_run hstart hempty hrun).nodup
  · intro as₁ bs w₁ has hrun₁ id row st hlookup hst hended hunasked
    subst has
    obtain ⟨w₂, hrun₂, hbs⟩ := run_append.1 hrun
    rw [hrun₁] at hrun₂
    cases hrun₂
    have hdone : st.pending = false := by rcases hended with rfl | rfl <;> rfl
    exact run_status_kept (inv_run hstart hrun₁) hbs ((along_append hrun₁).1 hdefers).2 hunasked hlookup hst hdone
  · intro as₁ a bs w₁ w₂ lease claim has hrun₁ hstep hworker hclaim hlate
    subst has
    have hinv := inv_run hstart hrun₁
    rcases step_cases hstep with ⟨hnone, -⟩ | ⟨lease', claim', hworker', hclaim', h⟩
    · rw [hworker] at hnone
      cases hnone
    · rw [hworker] at hworker'
      cases hworker'
      rw [hclaim] at hclaim'
      cases hclaim'
      exact late_harmless hinv hworker hclaim ((along_append hrun₁).1 hdefers).2.1 hlate h

theorem along_defersPending {P : AiPlatform} (w : ChatWorld) {as : List ChatLabel}
    (h : ∀ a ∈ as, ∀ lease reason, a ≠ .defer lease reason) : Along (step P) DefersPending w as := by
  refine (along_of_forall w h).mono fun w a ha => ?_
  cases a with
  | defer lease reason => exact absurd rfl (ha lease reason)
  | _ => trivial

end ChatWorld

namespace Sample
open ChatWorld

/-- The owner stops the chat while its call is under way. -/
def stoppedRun : List ChatLabel :=
  claimedRun ++ [.begin 102 .generating (reservation "0.1" positive_tenth) callModel 103, .stop ⟨1⟩ 100]

/-- The usage of the call comes late. -/
def lateUsage : ChatLabel := .update 102 103 (.usage usage)

/-- The owner stops the chat before its worker defers it. -/
def revivedRun : List ChatLabel := claimedRun ++ [.stop ⟨1⟩ 100]

def lateDeferral : ChatLabel := .defer 102 .dailyBudget

end Sample

namespace ChatWorld
open Sample

/-- The stopped chat stays cancelled, and its worker reports the usage of its call. -/
theorem chat_workers_fenced_stopped :
    (chatEnd (stoppedRun ++ [lateUsage])).admitted.Nodup ∧
    StaysEnded aiPlatform (chatEnd stoppedRun) [lateUsage] (chatEnd (stoppedRun ++ [lateUsage])) ∧
    ∃ claim, (chatEnd stoppedRun).claims.lookup 102 = some claim ∧ (chatEnd stoppedRun).Late claim ∧
      Harmless aiPlatform (chatEnd stoppedRun) (chatEnd (stoppedRun ++ [lateUsage])) claim lateUsage := by
  have hrun : run (step aiPlatform) (start chatDb 0) (stoppedRun ++ [lateUsage]) =
      some (chatEnd (stoppedRun ++ [lateUsage])) := run_getD (by decide +kernel) _
  have hrun₁ : run (step aiPlatform) (start chatDb 0) stoppedRun = some (chatEnd stoppedRun) :=
    run_getD (by decide +kernel) _
  obtain ⟨w, hw, hlast⟩ := run_append.1 hrun
  rw [hrun₁] at hw
  cases hw
  obtain ⟨w₂, hstep, hnil⟩ := run_cons.1 hlast
  cases hnil
  have hdefers : Along (step aiPlatform) DefersPending (start chatDb 0) (stoppedRun ++ [lateUsage]) := by
    refine along_defersPending _ fun a ha => ?_
    simp only [stoppedRun, claimedRun, lateUsage, List.cons_append, List.nil_append, List.mem_cons, List.not_mem_nil,
      or_false] at ha
    rcases ha with rfl | rfl | rfl | rfl | rfl <;> intro _ _ h <;> cases h
  have hchat : ((chatEnd stoppedRun).claims.lookup 102).map (fun c => (c.record.view.id, c.lease)) = some (100, 102) := by
    decide +kernel
  have hfenced : ((chatEnd stoppedRun).db.chats.lookup 100).all
      (fun row => !row.fenced 102 (chatEnd stoppedRun).clock) = true := by
    decide +kernel
  obtain ⟨claim, hclaim, hkey⟩ := Option.map_eq_some_iff.1 hchat
  simp only [Prod.mk.injEq] at hkey
  have hlate : (chatEnd stoppedRun).Late claim := by
    intro row hrow
    rw [hkey.1] at hrow
    rw [hrow] at hfenced
    simpa [hkey.2] using hfenced
  obtain ⟨hnodup, hstays, hharmless⟩ := chat_workers_fenced aiPlatform rfl hrun hdefers
  exact ⟨hnodup, hstays stoppedRun [lateUsage] _ rfl hrun₁, claim, hclaim, hlate,
    hharmless stoppedRun lateUsage [] _ _ 102 claim rfl hrun₁ hstep rfl hclaim hlate⟩

/-- A deferral after `stop` queues the cancelled chat again, without a new command. -/
theorem stopped_chat_revived :
    run (step aiPlatform) (start chatDb 0) (revivedRun ++ [lateDeferral]) = some (chatEnd (revivedRun ++ [lateDeferral])) ∧
    ((chatEnd revivedRun).db.chats.lookup 100).map (·.status) = some (some .cancelled) ∧
    Along (step aiPlatform) (Unasked aiPlatform 100) (chatEnd revivedRun) [lateDeferral] ∧
    ((chatEnd (revivedRun ++ [lateDeferral])).db.chats.lookup 100).map (·.status) = some (some .queued) :=
  ⟨run_getD (by decide +kernel) _, by decide +kernel, ⟨fun h => h, fun _ _ => trivial⟩, by decide +kernel⟩

end ChatWorld
end Inoreader
