import Inoreader.Queue.Fencing

/-!
# Giving up

`first_attempt_ms` is the time a one-shot job was enqueued, so the age check of `claim` can give up a
job that no worker has ever claimed. A recurring job is never given up: every path that ends an attempt
makes it ready again.
-/

namespace Inoreader
open Lib Tx

section
variable (cfg : StoreConfig)

/-- A claim at `claimedAt` is too old for a retry at `now`. -/
def attemptTooOld (claimedAt now : DateTime) : Bool :=
  retryAgeExceeded (millis claimedAt) (millis (now - cfg.maxRetryAge))

/-- The job was claimed, and then the claim ended in `fail` or the job was found too old more than
`max_retry_age` after a claim. -/
def QueueWorld.TriedFirst (w : QueueWorld) (id : JobId) : Prop :=
  (∃ t n, [QueueEvent.failed id t, .claimed id t n].Sublist w.log) ∨
    ∃ now t n, [QueueEvent.agedOut id now, .claimed id t n].Sublist w.log ∧ attemptTooOld cfg n now

/-- A claim of the job is in the log that is too old for a retry at `now`. -/
def QueueWorld.attemptedBefore (w : QueueWorld) (id : JobId) (now : DateTime) : Bool :=
  w.log.any fun
    | .claimed id' _ n => id' == id && attemptTooOld cfg n now
    | _ => false

/-- If the next statement of the claim finds a one-shot job too old, a claim of the job is too old as well. -/
def ClaimTx.agesAttempted (w : QueueWorld) (c : ClaimTx) : Bool :=
  match c.phase with
  | .age id j =>
    j.item.isRecurring || !retryAgeExceeded j.firstAttemptMs (millis (c.now - cfg.maxRetryAge)) ||
      w.attemptedBefore cfg id c.now
  | _ => true

def AgesAttempted (w : QueueWorld) (op : QueueOp) : Prop :=
  match op with
  | .stepClaim token => (w.claims.lookup token).all (·.agesAttempted cfg w)
  | _ => True

instance : DecidableRel (AgesAttempted cfg) := fun w op =>
  match op with
  | .stepClaim token => inferInstanceAs (Decidable ((w.claims.lookup token).all (·.agesAttempted cfg w) = true))
  | .tick _ | .beginClaim _ _ | .abortClaim _ | .call _ _ | .enqueue _ _ | .reprioritize _ | .other _ =>
    inferInstanceAs (Decidable True)

end

section
variable {P : Platform} {cfg : StoreConfig} {w w' : QueueWorld} {c : ClaimTx} {token : LeaseToken}

/-! ## The steps of a claim -/

/-- What a statement of a claim does: it goes on, it is rolled back, or it commits. -/
inductive ClaimStep (cfg : StoreConfig) (w : QueueWorld) (token : LeaseToken) (c : ClaimTx) : QueueWorld → Prop
  | go (c' : ClaimTx) (hnow : c'.now = c.now)
      (haged : c'.aged = c.aged ∨ ∃ id j, c.phase = .age id j ∧ c'.aged = c.aged ++ [(id, j)] ∧
        retryAgeExceeded j.firstAttemptMs (millis (c.now - cfg.maxRetryAge))) :
      ClaimStep cfg w token c (w.setClaim token c')
  | rollback : ClaimStep cfg w token c { w with claims := w.claims.erase token }
  | commit (leased : Option (JobId × Job)) (d db' : Db) (hd : d.ingestJobs = (c.view cfg w.db).ingestJobs)
      (hdb : db' = match leased with
        | some row => d.setJob row.1 (row.2.leasedBy token c.leaseUntil)
        | none => d) :
      ClaimStep cfg w token c
        { w with db := db', claims := w.claims.erase token, log := c.events token leased ++ w.log }

theorem commitClaim_cases (leased : Option (JobId × Job)) :
    ClaimStep cfg w token c (w.commitClaim cfg token c leased) := by
  unfold QueueWorld.commitClaim
  cases hw : c.writes cfg token w.clock leased w.db with
  | error e => exact .rollback
  | ok r =>
    obtain ⟨d, hj, -, hdb⟩ := writes_ok hw
    exact .commit leased d _ hj hdb

theorem stepClaim_cases (P : Platform) : ClaimStep cfg w token c (w.stepClaim P cfg token c) := by
  unfold QueueWorld.stepClaim
  cases hphase : c.phase with
  | select =>
    simp only
    split
    · exact commitClaim_cases none
    · exact .go _ rfl (.inl rfl)
  | reserve id j =>
    simp only
    split <;> exact .go _ rfl (.inl rfl)
  | age id j =>
    simp only
    split
    · rename_i hold
      exact .go _ rfl (.inr ⟨id, j, hphase, rfl, hold⟩)
    · exact .go _ rfl (.inl rfl)
  | count id j =>
    simp only
    split <;> exact .go _ rfl (.inl rfl)
  | busy id j =>
    simp only
    split <;> exact .go _ rfl (.inl rfl)
  | lease id j => exact commitClaim_cases (some (id, j))

/-- The steps of the queue: quiet ones, claims that begin or are dropped, and the statements of claims. -/
theorem step_cases {op : QueueOp} (h : w.step P cfg op = some w') :
    QuietStep cfg w w' ∨
      (∃ claims used, w' = { w with claims := claims, usedTokens := used } ∧
        ∀ t c, claims.lookup t = some c → w.claims.lookup t = some c ∨ c.aged = []) ∨
      ∃ token c, op = .stepClaim token ∧ w.claims.lookup token = some c ∧ ClaimStep cfg w token c w' := by
  cases hop : op.isClaim with
  | false => exact .inl (quiet_of_step hop h)
  | true =>
    cases op with
    | tick _ | call _ _ | enqueue _ _ | reprioritize _ | other _ => cases hop
    | beginClaim t leaseUntil =>
      simp only [QueueWorld.step] at h
      split at h
      · cases h
      · cases h
        refine .inr (.inl ⟨_, _, rfl, fun t' c hc => ?_⟩)
        rw [Table.lookup_insert_if] at hc
        split at hc
        · cases hc
          exact .inr rfl
        · exact .inl hc
    | abortClaim t =>
      cases h
      refine .inr (.inl ⟨_, _, rfl, fun t' c hc => ?_⟩)
      rw [Table.lookup_erase_if] at hc
      split at hc
      · cases hc
      · exact .inl hc
    | stepClaim t =>
      simp only [QueueWorld.step, Option.map_eq_some_iff] at h
      obtain ⟨c, hc, rfl⟩ := h
      exact .inr (.inr ⟨t, c, rfl, hc, stepClaim_cases P⟩)

/-- A row after the commit of a claim. -/
theorem commit_rows {leased : Option (JobId × Job)} {d db' : Db} (hd : d.ingestJobs = (c.view cfg w.db).ingestJobs)
    (hdb : db' = match leased with
      | some row => d.setJob row.1 (row.2.leasedBy token c.leaseUntil)
      | none => d) {id : JobId} {j' : Job} (hj' : db'.ingestJobs.lookup id = some j') :
    w.db.ingestJobs.lookup id = some j' ∨
      (∃ e ∈ c.aged, e.1 = id ∧ j' = e.2.agedOut (millis (c.now + cfg.pollInterval))) ∨
      ∃ j, leased = some (id, j) ∧ j' = j.leasedBy token c.leaseUntil := by
  have hview : ∀ {v : Job}, d.ingestJobs.lookup id = some v → w.db.ingestJobs.lookup id = some v ∨
      ∃ e ∈ c.aged, e.1 = id ∧ v = e.2.agedOut (millis (c.now + cfg.pollInterval)) := by
    intro v hv
    rw [hd] at hv
    exact view_cases hv
  cases leased with
  | none =>
    subst hdb
    exact (hview hj').imp_right .inl
  | some row =>
    subst hdb
    have hj' : (d.ingestJobs.insert row.1 (row.2.leasedBy token c.leaseUntil)).lookup id = some j' := hj'
    rw [Table.lookup_insert_if] at hj'
    split at hj'
    · rename_i e
      cases hj'
      exact .inr (.inr ⟨row.2, by rw [e], rfl⟩)
    · exact (hview hj').imp_right .inl

/-! ## Recurring jobs -/

/-- A recurring job waits for its next run or is being run. -/
def Db.RecurringOk (db : Db) : Prop :=
  ∀ id j, db.ingestJobs.lookup id = some j → j.item.isRecurring = true → j.status = .ready ∨ j.status = .leased

theorem Job.Change.recurring {now : DateTime} {log log' : List QueueEvent} {id : JobId} {j j' : Job}
    (h : j.Change cfg now log log' id j') (hr : j.item.isRecurring = true) (hj : j.status = .ready ∨ j.status = .leased) :
    j'.status = .ready ∨ j'.status = .leased := by
  cases h with
  | reprioritized => exact hj
  | renewed => exact .inr rfl
  | retried => exact .inl rfl
  | failed =>
    unfold Job.afterUpdate
    rw [if_pos ⟨rfl, hr⟩]
    exact .inl rfl
  | finished =>
    unfold Job.finished
    rw [if_pos hr]
    exact .inl rfl

theorem RecurringOk.step {op : QueueOp} (h : w.db.RecurringOk) (hstep : w.step P cfg op = some w') :
    w'.db.RecurringOk := by
  rcases step_cases hstep with hq | ⟨claims, used, rfl, -⟩ | ⟨token, c, -, -, hclaim⟩
  · intro id j' hj' hr
    rcases hq.rows id j' hj' with hj | ⟨-, -, item, ms, origin, rfl⟩ | ⟨j, hj, -, hc⟩
    · exact h id j' hj hr
    · exact .inl rfl
    · have hr : j.item.isRecurring = true := hc.follows.item ▸ hr
      exact hc.recurring hr (h id j hj hr)
  · exact h
  · cases hclaim with
    | go _ _ _ => exact h
    | rollback => exact h
    | commit leased d db' hd hdb =>
      intro id j' hj' hr
      rcases commit_rows hd hdb hj' with hj | ⟨e, -, -, rfl⟩ | ⟨j, -, rfl⟩
      · exact h id j' hj hr
      · rw [Job.agedOut_item] at hr
        unfold Job.agedOut
        rw [if_pos hr]
        exact .inl rfl
      · exact .inr rfl

/-! ## One-shot jobs -/

/-- What the queue knows about the attempts of its jobs. -/
structure AttemptsInv (cfg : StoreConfig) (w : QueueWorld) : Prop where
  token : ∀ id j t, w.db.ingestJobs.lookup id = some j → j.leaseToken = some t → ∃ n, .claimed id t n ∈ w.log
  aged : ∀ t c, w.claims.lookup t = some c → ∀ e ∈ c.aged, e.2.item.isRecurring = false →
    ∃ t n, .claimed e.1 t n ∈ w.log ∧ attemptTooOld cfg n c.now
  failed : ∀ id j, w.db.ingestJobs.lookup id = some j → j.item.isRecurring = false → j.status = .failed →
    w.TriedFirst cfg id

theorem QueueWorld.TriedFirst.mono {id : JobId} (h : w.TriedFirst cfg id) (hlog : w.log.Sublist w'.log) :
    w'.TriedFirst cfg id := by
  rcases h with ⟨t, n, hs⟩ | ⟨now, t, n, hs, hn⟩
  · exact .inl ⟨t, n, hs.trans hlog⟩
  · exact .inr ⟨now, t, n, hs.trans hlog, hn⟩

/-- A quiet step fails a one-shot job only under the token of a claim. -/
theorem AttemptsInv.quiet (h : AttemptsInv cfg w) (hq : QuietStep cfg w w') : AttemptsInv cfg w' := by
  have hlog : w.log.Sublist w'.log := by
    rcases hq.log with e | ⟨id, t, e⟩
    · rw [e]
    · rw [e]
      exact List.sublist_cons_self _ _
  have hold : ∀ {id : JobId} {j j' : Job} {t : LeaseToken}, w.db.ingestJobs.lookup id = some j →
      j.Follows (millis w.clock) j' → j'.leaseToken = some t → ∃ n, QueueEvent.claimed id t n ∈ w'.log := by
    intro id j j' t hj hf ht
    rcases hf.leaseToken with e | e
    · obtain ⟨n, hn⟩ := h.token id j t hj (e ▸ ht)
      exact ⟨n, hlog.subset hn⟩
    · rw [e] at ht
      cases ht
  constructor
  case token =>
    intro id j' t hj' ht
    rcases hq.rows id j' hj' with hj | ⟨-, -, item, ms, origin, rfl⟩ | ⟨j, hj, -, hc⟩
    · exact hold hj (.refl _ _) ht
    · cases ht
    · exact hold hj hc.follows ht
  case aged =>
    intro t c hc e he hr
    rw [hq.claims] at hc
    obtain ⟨t', n, hm, hn⟩ := h.aged t c hc e he hr
    exact ⟨t', n, hlog.subset hm, hn⟩
  case failed =>
    intro id j' hj' hr hs
    rcases hq.rows id j' hj' with hj | ⟨-, -, item, ms, origin, rfl⟩ | ⟨j, hj, -, hc⟩
    · exact (h.failed id j' hj hr hs).mono hlog
    · cases hs
    · cases hc with
      | reprioritized => exact (h.failed id j hj hr hs).mono hlog
      | renewed => cases hs
      | retried => cases hs
      | failed token runAt diagnostic hh hl =>
        unfold Job.holds at hh
        simp only [Bool.and_eq_true, beq_iff_eq] at hh
        obtain ⟨n, hn⟩ := h.token id j token hj hh.1.2
        refine .inl ⟨token, n, ?_⟩
        rw [hl]
        exact (List.singleton_sublist.2 hn).cons_cons _
      | finished =>
        unfold Job.finished at hs
        split at hs <;> cases hs

theorem AttemptsInv.commit (h : AttemptsInv cfg w) (hc : w.claims.lookup token = some c)
    {leased : Option (JobId × Job)} {d db' : Db} (hd : d.ingestJobs = (c.view cfg w.db).ingestJobs)
    (hdb : db' = match leased with
      | some row => d.setJob row.1 (row.2.leasedBy token c.leaseUntil)
      | none => d) :
    AttemptsInv cfg
      { w with db := db', claims := w.claims.erase token, log := c.events token leased ++ w.log } := by
  have hlog : w.log.Sublist (c.events token leased ++ w.log) := List.sublist_append_right _ _
  constructor
  case token =>
    intro id j' t hj' ht
    rcases commit_rows hd hdb hj' with hj | ⟨e, -, -, rfl⟩ | ⟨j, rfl, rfl⟩
    · obtain ⟨n, hn⟩ := h.token id j' t hj ht
      exact ⟨n, hlog.subset hn⟩
    · rw [Job.agedOut_leaseToken] at ht
      cases ht
    · cases ht
      exact ⟨c.now, by simp [ClaimTx.events]⟩
  case aged =>
    intro t c' hc' e he hr
    rw [Table.lookup_erase_if] at hc'
    split at hc'
    · cases hc'
    · obtain ⟨t', n, hm, hn⟩ := h.aged t c' hc' e he hr
      exact ⟨t', n, hlog.subset hm, hn⟩
  case failed =>
    intro id j' hj' hr hs
    rcases commit_rows hd hdb hj' with hj | ⟨e, he, rfl, rfl⟩ | ⟨j, -, rfl⟩
    · exact (h.failed id j' hj hr hs).mono hlog
    · rw [Job.agedOut_item] at hr
      obtain ⟨t, n, hm, hn⟩ := h.aged token c hc e he hr
      have hev : QueueEvent.agedOut e.1 c.now ∈ c.events token leased :=
        List.mem_append_right _ (List.mem_map.2 ⟨e, he, rfl⟩)
      exact .inr ⟨c.now, t, n, (List.singleton_sublist.2 hev).append (List.singleton_sublist.2 hm), hn⟩
    · cases hs

theorem agesAttempted_spec {id : JobId} {j : Job} (h : AgesAttempted cfg w (.stepClaim token))
    (hc : w.claims.lookup token = some c) (hphase : c.phase = .age id j) (hr : j.item.isRecurring = false)
    (hold : retryAgeExceeded j.firstAttemptMs (millis (c.now - cfg.maxRetryAge))) :
    ∃ t n, .claimed id t n ∈ w.log ∧ attemptTooOld cfg n c.now := by
  have hage : c.agesAttempted cfg w = true := by
    have h : (w.claims.lookup token).all (·.agesAttempted cfg w) = true := h
    simpa [hc] using h
  have hbefore : w.attemptedBefore cfg id c.now = true := by
    unfold ClaimTx.agesAttempted at hage
    simpa [hphase, hr, hold] using hage
  obtain ⟨e, he, hp⟩ := List.any_eq_true.1 hbefore
  cases e with
  | claimed id' t n =>
    simp only [Bool.and_eq_true, beq_iff_eq] at hp
    obtain ⟨rfl, hn⟩ := hp
    exact ⟨t, n, he, hn⟩
  | failed _ _ => cases hp
  | agedOut _ _ => cases hp

theorem AttemptsInv.step {op : QueueOp} (h : AttemptsInv cfg w) (hop : AgesAttempted cfg w op)
    (hstep : w.step P cfg op = some w') : AttemptsInv cfg w' := by
  rcases step_cases hstep with hq | ⟨claims, used, rfl, hsub⟩ | ⟨token, c, rfl, hc, hclaim⟩
  · exact h.quiet hq
  · refine { h with aged := fun t c hc e he hr => ?_ }
    rcases hsub t c hc with hc | hn
    · exact h.aged t c hc e he hr
    · rw [hn] at he
      cases he
  · cases hclaim with
    | go c' hnow haged =>
      refine { h with aged := fun t c₁ hc₁ e he hr => ?_ }
      rw [QueueWorld.setClaim, Table.lookup_insert_if] at hc₁
      split at hc₁
      · cases hc₁
        rw [hnow]
        rcases haged with e' | ⟨id, j, hphase, e', hold⟩
        · exact h.aged token c hc e (e' ▸ he) hr
        · rw [e'] at he
          rcases List.mem_append.1 he with he | he
          · exact h.aged token c hc e he hr
          · rw [List.mem_singleton] at he
            subst he
            have hbefore := agesAttempted_spec hop hc hphase hr hold
            exact hbefore
      · exact h.aged t c₁ hc₁ e he hr
    | rollback =>
      refine { h with aged := fun t c₁ hc₁ => ?_ }
      rw [Table.lookup_erase_if] at hc₁
      split at hc₁
      · cases hc₁
      · exact h.aged t c₁ hc₁
    | commit leased d db' hd hdb => exact h.commit hc hd hdb

theorem QueueWorld.Start.recurringOk (h : w.Start) : w.db.RecurringOk := by
  intro id j hj
  rw [h.jobs, Table.lookup_empty] at hj
  cases hj

theorem QueueWorld.Start.attempts (h : w.Start) : AttemptsInv cfg w := by
  have hjobs : ∀ id, w.db.ingestJobs.lookup id = none := fun id => by rw [h.jobs]; exact Table.lookup_empty id
  constructor
  case token => intro id j t hj; rw [hjobs] at hj; cases hj
  case aged => intro t c hc; rw [h.claims, Table.lookup_empty] at hc; cases hc
  case failed => intro id j hj; rw [hjobs] at hj; cases hj

end

namespace Sample

/-- The worker of the first claim is gone; two hours later the next claim finds the job too old. -/
def agingAttempted : List QueueOp :=
  .enqueue (.random 1) (.fanOut ⟨1⟩ ⟨1⟩ none) :: claim 1 1000000000 ++ .tick 7200000000000 ::
    .beginClaim ⟨2⟩ 7300000000000 :: List.replicate 4 (.stepClaim ⟨2⟩)

/-- Every worker was away for two hours after the job was enqueued. -/
def agingUnattempted : List QueueOp :=
  .enqueue (.random 1) (.fanOut ⟨1⟩ ⟨1⟩ none) :: .tick 7200000000000 ::
    .beginClaim ⟨2⟩ 7300000000000 :: List.replicate 4 (.stepClaim ⟨2⟩)

def ranQueue (ops : List QueueOp) : QueueWorld := (run (QueueWorld.step platform storeConfig) queue ops).getD queue

end Sample

end Inoreader
