import Inoreader.Queue.World
import Inoreader.Store.Jobs

/-!
# What a step does to the rows of the queue

`QuietStep` says it once for every step that is not a claim's: a row is as it was, or new and ready, or
changed in one of the ways of `Job.Change` while no claim holds it.
-/

namespace Inoreader
open Lib Tx

/-- A collection job runs under the origin of its source's URL. -/
def Db.OriginOk (db : Db) (j : Job) : Prop :=
  ∀ s, j.item.collectSource = some s → ∃ d, db.sources.lookup s = some d ∧ j.originKey = d.url.origin

/-- The changes of a row by calls of its lease holder and by `reprioritize_ready_jobs`; `log'` is the
log after the step. -/
inductive Job.Change (cfg : StoreConfig) (now : DateTime) (log log' : List QueueEvent) (id : JobId) : Job → Job → Prop
  | reprioritized (j : Job) : Change cfg now log log' id j { j with runAtMs := initialJobRunAt j.item }
  | renewed (j : Job) (token : LeaseToken) (deadline : Int) (h : j.holds token (sqlMillis now)) :
      Change cfg now log log' id j (j.afterUpdate cfg now .leased (some deadline) none none)
  | retried (j : Job) (token : LeaseToken) (runAt : Int) (diagnostic : String) (h : j.holds token (sqlMillis now)) :
      Change cfg now log log' id j (j.afterUpdate cfg now .ready none (some runAt) (some diagnostic))
  | failed (j : Job) (token : LeaseToken) (runAt : Option Int) (diagnostic : String)
      (h : j.holds token (sqlMillis now)) (hlog : log' = .failed id token :: log) :
      Change cfg now log log' id j (j.afterUpdate cfg now .failed none runAt (some diagnostic))
  | finished (j : Job) (token : LeaseToken) (hs : j.status = .leased) (ht : j.leaseToken = some token) :
      Change cfg now log log' id j (j.finished (millis (now + cfg.pollInterval)))

/-- A step that is not a claim's. -/
structure QuietStep (cfg : StoreConfig) (w w' : QueueWorld) : Prop where
  rows : ∀ id j', w'.db.ingestJobs.lookup id = some j' →
    w.db.ingestJobs.lookup id = some j' ∨
    (w.db.ingestJobs.lookup id = none ∧ w'.db.OriginOk j' ∧ ∃ item ms origin, j' = .new item ms origin) ∨
    ∃ j, w.db.ingestJobs.lookup id = some j ∧ w.isLocked id = false ∧ j.Change cfg w.clock w.log w'.log id j'
  locked : ∀ id j, w.db.ingestJobs.lookup id = some j → w.isLocked id → w'.db.ingestJobs.lookup id = some j
  sources : ∀ s d, w.db.sources.lookup s = some d → ∃ d', w'.db.sources.lookup s = some d' ∧ d'.url = d.url
  claims : w'.claims = w.claims
  usedTokens : w'.usedTokens = w.usedTokens
  clock : w.clock ≤ w'.clock
  log : w'.log = w.log ∨ ∃ id token, w'.log = .failed id token :: w.log

section
variable {P : Platform} {cfg : StoreConfig} {w w' : QueueWorld} {db db' : Db}

theorem Db.OriginOk.of_none {j : Job} (h : j.item.collectSource = none) : db.OriginOk j := by
  intro s hs
  rw [h] at hs
  cases hs

theorem Db.OriginOk.mono {j : Job} (h : db.OriginOk j)
    (hs : ∀ s d, db.sources.lookup s = some d → ∃ d', db'.sources.lookup s = some d' ∧ d'.url = d.url) :
    db'.OriginOk j := by
  intro s hj
  obtain ⟨d, hd, ho⟩ := h s hj
  obtain ⟨d', hd', hu⟩ := hs s d hd
  exact ⟨d', hd', by rw [ho, hu]⟩

/-! ## The calls that commit work -/

/-- A call that commits work inserts new jobs and leaves the others and the sources alone. -/
structure Commits (db db' : Db) : Prop where
  jobs : JobsGrow (fun _ j => db.OriginOk j) db db'
  sources : db'.sources = db.sources

theorem Commits.of_keeps (hj : db'.ingestJobs = db.ingestJobs) (hs : db'.sources = db.sources) : Commits db db' :=
  ⟨.of_eq hj, hs⟩

/-- A commit that enqueues jobs which collect nothing. -/
theorem Commits.of_jobs {A : JobId → Job → Prop} (hj : JobsGrow A db db') (hs : db'.sources = db.sources)
    (hA : ∀ id j, A id j → j.item.collectSource = none) : Commits db db' :=
  ⟨hj.mono fun id j h => .of_none (hA id j h), hs⟩

theorem commitPoll_commits {lease : LeasedWork} {now : DateTime} {c : PollCommit} {u : Unit}
    (h : commitPoll lease now c db = .ok (u, db')) : Commits db db' := by
  constructor
  case sources =>
    exact commitPoll_keeps (f := Db.sources) ⟨fun _ _ => rfl, fun _ _ => rfl, fun _ _ _ => rfl, fun _ _ => rfl,
      fun _ _ => rfl, fun _ _ => rfl, fun _ _ => rfl⟩ _ _ _ _ _ _ h
  case jobs =>
    refine (commitPoll_jobs _ _ _ _ _ h).mono fun id j hj => ?_
    rcases hj with ⟨p, -, -, -, hitem⟩ | ⟨p, -, url, -, hitem⟩ | ⟨last, d, -, -, -, hitem, hd, ho⟩
    · exact .of_none (by rw [hitem]; rfl)
    · exact .of_none (by rw [hitem]; rfl)
    · intro s hs
      rw [hitem] at hs
      cases hs
      exact ⟨d, hd, ho⟩

theorem publishContent_sources (lease : LeasedWork) (now : DateTime) (v : ContentRevision) :
    Keeps Db.sources (publishContent lease now v) := by
  refine keeps_bind (assertLease_keeps _ _) fun _ => keeps_bind keeps_get fun d => keeps_ite (keeps_pure _) ?_
  refine keeps_bind (keeps_modify fun _ => rfl) fun _ => keeps_bind (keeps_modify fun _ => rfl) fun _ => ?_
  refine keeps_bind (toI64_keeps _ _) fun _ => keeps_bind (keeps_modify fun _ => rfl) fun _ => ?_
  refine keeps_bind (keeps_bind (keeps_require _ _) fun _ => keeps_require _ _) fun _ => ?_
  exact keeps_bind (keeps_modify fun _ => rfl) fun _ => enqueueWork_keeps (fun _ _ _ => rfl) _ _ _

/-- Every call that commits work. -/
theorem WorkerCall.commits {lease : LeasedWork} {now : DateTime} {call : WorkerCall} {u : Unit}
    (hc : call.isCommit) (h : call.tx P cfg lease now db = .ok (u, db')) : Commits db db' := by
  cases call with
  | renew _ | complete | retry _ _ | fail _ _ => cases hc
  | commitPoll c => exact commitPoll_commits h
  | recordSourceSuccess source atTime incomplete durationMs =>
    have hk : ∀ {γ : Type} {f : Db → γ}, (∀ (db : Db) t, f { db with subscriptionActivity := t } = f db) →
        (∀ (db : Db) t, f { db with sourceHealth := t } = f db) → f db' = f db := fun hf hf' =>
      keeps_bind (assertLease_keeps _ _) (fun _ => keeps_bind (keeps_modify fun _ => hf' _ _) fun _ =>
        recordSubscriptionActivity_keeps hf _ _ _ _ _ _) _ _ _ h
    exact .of_keeps (hk (f := Db.ingestJobs) (fun _ _ => rfl) fun _ _ => rfl)
      (hk (f := Db.sources) (fun _ _ => rfl) fun _ _ => rfl)
  | deliver c =>
    obtain ⟨_, d, h₁, h₂⟩ := bind_ok.1 h
    cases h₂
    refine .of_jobs (deliver_jobs _ _ _ _ _ h₁) ?_ ?_
    · exact deliver_keeps (f := Db.sources) ⟨⟨fun _ _ => rfl, fun _ _ => rfl, fun _ _ => rfl⟩, fun _ _ => rfl,
        fun _ _ => rfl, fun _ _ => rfl, fun _ _ => rfl⟩ _ _ _ _ _ _ h₁
    · rintro id j ⟨_, _, _, _, _, _, -, hitem⟩
      rw [hitem]
      rfl
  | advanceFanout after =>
    refine .of_jobs (advanceFanout_jobs _ _ _ _ _ h) (advanceFanout_keeps (fun _ _ _ => rfl) _ _ _ _ _ _ h) ?_
    rintro id j ⟨_, _, _, -, -, hitem⟩
    rw [hitem]
    rfl
  | publishContent v =>
    refine .of_jobs (publishContent_jobs _ _ _ _ _ h) (publishContent_sources _ _ _ _ _ _ h) ?_
    rintro id j ⟨_, _, -, hitem⟩
    rw [hitem]
    rfl
  | cleanupContent record keep =>
    have hk : ∀ {γ : Type} {f : Db → γ}, (∀ (db : Db) t, f { db with stagedContentChunks := t } = f db) →
        f db' = f db := fun hf =>
      keeps_bind (assertLease_keeps _ _) (fun _ => keeps_bind keeps_get fun _ => keeps_bind (keeps_orThrow _ _)
        fun _ => keeps_modify fun _ => hf _ _) _ _ _ h
    exact .of_keeps (hk (f := Db.ingestJobs) fun _ _ => rfl) (hk (f := Db.sources) fun _ _ => rfl)
  | recordRefreshFailure record diagnostic =>
    have hk : ∀ {γ : Type} {f : Db → γ}, (∀ (db : Db) t, f { db with refreshFailures := t } = f db) →
        f db' = f db := fun hf =>
      keeps_bind (assertLease_keeps _ _) (fun _ => keeps_modify fun _ => hf _ _) _ _ _ h
    exact .of_keeps (hk (f := Db.ingestJobs) fun _ _ => rfl) (hk (f := Db.sources) fun _ _ => rfl)
  | evaluateArticleRules workspace a evaluations =>
    exact .of_keeps (evaluateArticleRules_jobs _ _ _ _ _ _ _ _ h) (evaluateArticleRules_keeps (f := Db.sources)
      ⟨fun _ _ => rfl, fun _ _ => rfl, fun _ _ => rfl⟩ _ _ _ _ _ _ _ _ h)
  | applyRuleBatch workspace rule version afterId throughId limit =>
    obtain ⟨_, d, h₁, h₂⟩ := bind_ok.1 h
    cases h₂
    refine .of_jobs (applyRuleBatch_jobs _ _ _ _ _ _ _ _ _ _ h₁) (applyRuleBatch_keeps (f := Db.sources)
      ⟨fun _ _ => rfl, fun _ _ => rfl, fun _ _ => rfl⟩ _ _ _ _ _ _ _ _ _ _ _ h₁) ?_
    rintro id j ⟨_, _, _, _, _, -, hitem⟩
    rw [hitem]
    rfl

/-- Every call changes a state only under a lease that is current by the worker's clock. -/
theorem WorkerCall.fenced {lease : LeasedWork} {now : DateTime} {call : WorkerCall} {u : Unit} (hc : call.isCommit)
    (h : call.tx P cfg lease now db = .ok (u, db')) (hne : db' ≠ db) : db.leaseCurrent lease now := by
  have hassert : ∀ {α : Type} {k : Unit → StoreTx α} {a : α} {d : Db},
      (assertLease lease now >>= k) db = .ok (a, d) → db.leaseCurrent lease now := by
    intro α k a d hk
    obtain ⟨_, d₁, h₁, -⟩ := bind_ok.1 hk
    exact (assertLease_ok h₁).1
  cases call with
  | renew _ | complete | retry _ _ | fail _ _ => cases hc
  | commitPoll _ => exact hassert h
  | recordSourceSuccess _ _ _ _ => exact hassert h
  | deliver _ =>
    obtain ⟨_, d, h₁, -⟩ := bind_ok.1 h
    exact hassert h₁
  | advanceFanout after =>
    have h : Inoreader.advanceFanout lease now after db = .ok (u, db') := h
    unfold Inoreader.advanceFanout at h
    cases hitem : lease.item with
    | fanOut source record a =>
      simp only [hitem] at h
      exact hassert h
    | _ =>
      simp only [hitem] at h
      cases h
      exact absurd rfl hne
  | publishContent _ => exact hassert h
  | cleanupContent _ _ => exact hassert h
  | recordRefreshFailure _ _ => exact hassert h
  | evaluateArticleRules _ _ _ => exact hassert h
  | applyRuleBatch _ _ _ _ _ _ =>
    obtain ⟨_, d, h₁, -⟩ := bind_ok.1 h
    exact hassert h₁

/-! ## The calls that move a lease -/

theorem WorkerCall.changes {lease : LeasedWork} {now : DateTime} {call : WorkerCall} {u : Unit}
    (hc : call.isCommit = false) (h : call.tx P cfg lease now db = .ok (u, db')) (log : List QueueEvent) :
    ∃ j j', db.ingestJobs.lookup lease.jobId = some j ∧ j.status = .leased ∧ j.leaseToken = some lease.token ∧
      db'.sources = db.sources ∧ db'.ingestJobs = db.ingestJobs.insert lease.jobId j' ∧
      j.Change cfg now log (if call.isFail then .failed lease.jobId lease.token :: log else log) lease.jobId j' := by
  have hheld : ∀ {j : Job}, j.holds lease.token (sqlMillis now) → j.status = .leased ∧ j.leaseToken = some lease.token := by
    intro j hj
    unfold Job.holds at hj
    simp only [Bool.and_eq_true, beq_iff_eq] at hj
    exact hj.1
  cases call with
  | renew leaseUntil =>
    obtain ⟨j, hj, hh, hs, hi⟩ := leaseUpdate_ok h
    exact ⟨j, _, hj, (hheld hh).1, (hheld hh).2, hs, hi, .renewed j lease.token _ hh⟩
  | complete =>
    obtain ⟨j, hj, hst, ht, rfl⟩ := complete_ok h
    exact ⟨j, _, hj, hst, ht, rfl, rfl, .finished j lease.token hst ht⟩
  | retry runAt diagnostic =>
    obtain ⟨j, hj, hh, hs, hi⟩ := leaseUpdate_ok h
    exact ⟨j, _, hj, (hheld hh).1, (hheld hh).2, hs, hi, .retried j lease.token _ _ hh⟩
  | fail diagnostic notBefore =>
    obtain ⟨j, hj, hh, hs, hi⟩ := leaseUpdate_ok h
    exact ⟨j, _, hj, (hheld hh).1, (hheld hh).2, hs, hi, .failed j lease.token _ _ hh rfl⟩
  | commitPoll _ | recordSourceSuccess _ _ _ _ | deliver _ | advanceFanout _ | publishContent _ | cleanupContent _ _
  | recordRefreshFailure _ _ | evaluateArticleRules _ _ _ | applyRuleBatch _ _ _ _ _ _ => cases hc

/-! ## Quiet steps -/

def QueueOp.isClaim : QueueOp → Bool
  | .beginClaim _ _ | .stepClaim _ | .abortClaim _ => true
  | _ => false

theorem QuietStep.of_commits {log : List QueueEvent} (h : Commits w.db db') (hlog : log = w.log) :
    QuietStep cfg w { w with db := db', log } := by
  have hsources : ∀ s d, w.db.sources.lookup s = some d → ∃ d', db'.sources.lookup s = some d' ∧ d'.url = d.url :=
    fun s d hd => ⟨d, by rw [h.sources]; exact hd, rfl⟩
  refine ⟨fun id j' hj' => ?_, fun id j hj _ => h.jobs.lookup hj, hsources, rfl, rfl, le_rfl, .inl hlog⟩
  rcases h.jobs id with e | ⟨hn, item, ms, origin, ho, e⟩
  · exact .inl (e.symm.trans hj')
  · rw [e] at hj'
    cases hj'
    exact .inr (.inl ⟨hn, ho.mono hsources, item, ms, origin, rfl⟩)

theorem QuietStep.of_change {id : JobId} {j j' : Job} {log : List QueueEvent}
    (hj : w.db.ingestJobs.lookup id = some j) (hlock : w.isLocked id = false) (hc : j.Change cfg w.clock w.log log id j')
    (hs : db'.sources = w.db.sources) (hi : db'.ingestJobs = w.db.ingestJobs.insert id j')
    (hlog : log = w.log ∨ ∃ id token, log = .failed id token :: w.log) :
    QuietStep cfg w { w with db := db', log } := by
  refine ⟨fun i i' hi' => ?_, fun i i' hi' hl => ?_, fun s d hd => ⟨d, by rw [hs]; exact hd, rfl⟩, rfl, rfl,
    le_rfl, hlog⟩
  · rw [hi, Table.lookup_insert_if] at hi'
    split at hi'
    · rename_i e
      subst e
      cases hi'
      exact .inr (.inr ⟨j, hj, hlock, hc⟩)
    · exact .inl hi'
  · rw [hi, Table.lookup_insert_if]
    split
    · rename_i e
      subst e
      rw [hlock] at hl
      cases hl
    · exact hi'

theorem enqueueWorkTx_ok {id : JobId} {item : WorkItem} {now : DateTime} {u : Unit}
    (h : enqueueWorkTx id item now db = .ok (u, db')) :
    (∃ j, db.ingestJobs.lookup id = some j ∧ j.item = item ∧ db' = db) ∨
      (db.ingestJobs.lookup id = none ∧ ∃ origin, repositoryOrigin item db = .ok (origin, db) ∧
        db' = db.setJob id (.new item (millis now) origin)) := by
  unfold enqueueWorkTx at h
  rw [bind_run, get_run] at h
  cases hj : db.ingestJobs.lookup id with
  | some j =>
    simp only [hj, require] at h
    split at h
    · rename_i hitem
      cases h
      exact .inl ⟨j, rfl, hitem, rfl⟩
    · cases h
  | none =>
    simp only [hj] at h
    have hreads : Keeps (fun d => d) (repositoryOrigin item) := by
      have hsource : ∀ s, Keeps (fun d => d) (repositoryOrigin.sourceUrlOrigin s) := fun s =>
        keeps_bind keeps_get fun _ => keeps_bind (keeps_orThrow _ _) fun _ => keeps_pure _
      cases item with
      | pollSource s => exact hsource s
      | refreshSource s => exact hsource s
      | collectWebFeed s => exact hsource s
      | fanOut s _ _ => exact hsource s
      | extractFullText _ _ _ _ => exact keeps_pure _
      | cleanupContent _ _ => exact keeps_bind keeps_get fun _ => keeps_bind (keeps_orThrow _ _) fun _ => hsource _
      | evaluateArticleRules _ _ _ => exact keeps_pure _
      | applyRule _ _ _ _ _ => exact keeps_pure _
    obtain ⟨origin, ho, h⟩ := (bind_ok_of_reads hreads).1 h
    cases h
    exact .inr ⟨rfl, origin, ho, rfl⟩

theorem repositoryOrigin_ok {item : WorkItem} {origin : OriginKey} (h : repositoryOrigin item db = .ok (origin, db'))
    (ms : Int) : db.OriginOk (.new item ms origin) := by
  have hsource : ∀ s, repositoryOrigin.sourceUrlOrigin s db = .ok (origin, db') →
      ∃ d, db.sources.lookup s = some d ∧ origin = d.url.origin := by
    intro s hs
    unfold repositoryOrigin.sourceUrlOrigin at hs
    rw [bind_run, get_run] at hs
    obtain ⟨d, hd, hs⟩ := bind_orThrow_ok.1 hs
    cases hs
    exact ⟨d, hd, rfl⟩
  intro s hs
  cases item with
  | pollSource s' => cases hs; exact hsource _ h
  | refreshSource s' => cases hs; exact hsource _ h
  | collectWebFeed s' => cases hs; exact hsource _ h
  | fanOut _ _ _ => cases hs
  | extractFullText _ _ _ _ => cases hs
  | cleanupContent _ _ => cases hs
  | evaluateArticleRules _ _ _ => cases hs
  | applyRule _ _ _ _ _ => cases hs

theorem enqueueWorkTx_commits {id : JobId} {item : WorkItem} {now : DateTime} {u : Unit}
    (h : enqueueWorkTx id item now db = .ok (u, db')) : Commits db db' := by
  rcases enqueueWorkTx_ok h with ⟨j, -, -, rfl⟩ | ⟨hn, origin, ho, rfl⟩
  · exact .of_keeps rfl rfl
  · refine ⟨fun i => ?_, rfl⟩
    rw [Db.setJob, Table.lookup_insert_if]
    split
    · rename_i e
      subst e
      exact .inr ⟨hn, item, _, origin, repositoryOrigin_ok ho _, rfl⟩
    · exact .inl rfl

theorem QuietStep.refl (w : QueueWorld) : QuietStep cfg w w :=
  ⟨fun _ _ h => .inl h, fun _ _ h _ => h, fun _ d h => ⟨d, h, rfl⟩, rfl, rfl, le_rfl, .inl rfl⟩

theorem quiet_of_step {op : QueueOp} (hop : op.isClaim = false) (h : w.step P cfg op = some w') :
    QuietStep cfg w w' := by
  cases op with
  | beginClaim _ _ | stepClaim _ | abortClaim _ => cases hop
  | tick time =>
    simp only [QueueWorld.step] at h
    split at h
    · rename_i ht
      cases h
      exact { QuietStep.refl w with clock := ht }
    · cases h
  | call lease call =>
    simp only [QueueWorld.step] at h
    split at h
    · cases h
    · rename_i hlock
      have hlock : w.isLocked lease.jobId = false := by simpa using hlock
      cases htx : call.tx P cfg lease w.clock w.db with
      | error e =>
        rw [htx] at h
        cases h
        exact .refl w
      | ok r =>
        obtain ⟨u, d⟩ := r
        rw [htx] at h
        cases h
        cases hc : call.isCommit with
        | true =>
          refine .of_commits (WorkerCall.commits hc htx) ?_
          cases call with
          | fail _ _ => cases hc
          | _ => rfl
        | false =>
          obtain ⟨j, j', hj, -, -, hs, hi, hchange⟩ := WorkerCall.changes hc htx w.log
          refine .of_change hj hlock hchange hs hi ?_
          split
          · exact .inr ⟨_, _, rfl⟩
          · exact .inl rfl
  | enqueue id item =>
    simp only [QueueWorld.step] at h
    cases h
    cases htx : enqueueWorkTx id item w.clock w.db with
    | error e =>
      rw [commit_of_error htx]
      exact .refl w
    | ok r =>
      rw [commit_of_ok htx]
      exact .of_commits (enqueueWorkTx_commits htx) rfl
  | reprioritize id =>
    simp only [QueueWorld.step] at h
    split at h
    · cases h
    · rename_i hlock
      have hlock : w.isLocked id = false := by simpa using hlock
      cases h
      unfold QueueWorld.reprioritized Table.update
      cases hj : w.db.ingestJobs.lookup id with
      | none => exact .refl w
      | some j => exact .of_change hj hlock (.reprioritized j) rfl rfl (.inl rfl)
  | other d =>
    simp only [QueueWorld.step] at h
    split at h
    · rename_i hk
      cases h
      refine { (QuietStep.refl w : QuietStep cfg w w) with rows := ?_, locked := ?_, sources := ?_ }
      · exact fun id j' hj' => .inl (by rw [← hk.1]; exact hj')
      · exact fun id j hj _ => by rw [hk.1]; exact hj
      · intro s sd hs
        have hu := hk.2 (s, sd) (Table.mem_rows.2 hs)
        rw [Option.map_eq_some_iff] at hu
        exact hu
    · cases h

end
end Inoreader
