import Inoreader.Store.Content
import Inoreader.Store.Frames
import Inoreader.Store.Poll

/-!
# What the leased operations do to the queue

An operation other than the queue's own never touches a row of `ingest_jobs`; it inserts new rows
under ids that were free. `JobsGrow A` says this and that the new rows satisfy `A`.
-/

namespace Inoreader
open Lib Tx

/-- Every row is as it was, or it is a new row that satisfies `A`. -/
def JobsGrow (A : JobId → Job → Prop) (db db' : Db) : Prop :=
  ∀ id, db'.ingestJobs.lookup id = db.ingestJobs.lookup id ∨
    (db.ingestJobs.lookup id = none ∧ ∃ item ms origin, A id (.new item ms origin) ∧
      db'.ingestJobs.lookup id = some (.new item ms origin))

/-- The rule job of a delivery. -/
def IsArticleRuleJob (id : JobId) (j : Job) : Prop :=
  ∃ a s r n w es, id = .articleRule a s r n ∧ j.item = .evaluateArticleRules w a es

/-- The job of the next batch of a rule application. -/
def IsRuleBatchJob (id : JobId) (j : Job) : Prop :=
  ∃ w rule version cursor through, id = .rule rule version cursor ∧
    j.item = .applyRule w rule version (some cursor) (some through)

/-- The jobs that the commit of a poll enqueues. -/
def PollCommit.IsJob (c : PollCommit) (sources : Table SourceId SourceDefinition) (id : JobId) (j : Job) : Prop :=
  (∃ p ∈ c.records, p.action.fansOut ∧ id = .record .fanout p.record.id p.record.revision ∧
      j.item = .fanOut p.record.sourceId p.record.id none) ∨
    (∃ p ∈ c.records, ∃ url, id = .record .fulltext p.record.id p.record.revision ∧
      j.item = .extractFullText p.record.id p.record.revision url false) ∨
    ∃ last d, c.incomplete ∧ c.records.getLast? = some last ∧ id = .record .backfill last.record.id c.sourceRevision ∧
      j.item = .refreshSource c.sourceId ∧ sources.lookup c.sourceId = some d ∧ j.originKey = d.url.origin

section
variable {A B : JobId → Job → Prop} {db db' db'' : Db} {P : Platform}

theorem JobsGrow.of_eq (h : db'.ingestJobs = db.ingestJobs) : JobsGrow A db db' := fun id => .inl (by rw [h])

theorem JobsGrow.refl (db : Db) : JobsGrow A db db := .of_eq rfl

theorem JobsGrow.trans (h : JobsGrow A db db') (h' : JobsGrow A db' db'') : JobsGrow A db db'' := by
  intro id
  rcases h' id with e' | ⟨hn', item, ms, origin, hA, hj⟩
  · rcases h id with e | ⟨hn, item, ms, origin, hA, hj⟩
    · exact .inl (e'.trans e)
    · exact .inr ⟨hn, item, ms, origin, hA, e'.trans hj⟩
  · rcases h id with e | ⟨-, item', ms', origin', -, hj'⟩
    · exact .inr ⟨e.symm.trans hn', item, ms, origin, hA, hj⟩
    · rw [hn'] at hj'
      cases hj'

theorem JobsGrow.mono (h : JobsGrow A db db') (hAB : ∀ id j, A id j → B id j) : JobsGrow B db db' := by
  intro id
  rcases h id with e | ⟨hn, item, ms, origin, hA, hj⟩
  · exact .inl e
  · exact .inr ⟨hn, item, ms, origin, hAB _ _ hA, hj⟩

/-- A row that was there is there unchanged. -/
theorem JobsGrow.lookup (h : JobsGrow A db db') {id : JobId} {j : Job} (hj : db.ingestJobs.lookup id = some j) :
    db'.ingestJobs.lookup id = some j := by
  rcases h id with e | ⟨hn, -⟩
  · rw [e, hj]
  · rw [hn] at hj
    cases hj

theorem enqueueWork_ok {id : JobId} {item : WorkItem} {ms : Int} {u : Unit}
    (hrun : enqueueWork id item ms db = .ok (u, db')) :
    (∃ j, db.ingestJobs.lookup id = some j ∧ j.item = item ∧ db' = db) ∨
      (db.ingestJobs.lookup id = none ∧ ∃ origin, workOrigin item db = .ok (origin, db) ∧
        db' = db.setJob id (.new item ms origin)) := by
  cases hj : db.ingestJobs.lookup id with
  | some j =>
    rw [enqueueWork_of_some hj] at hrun
    split at hrun
    · rename_i hitem
      cases hrun
      exact .inl ⟨j, rfl, hitem, rfl⟩
    · cases hrun
  | none =>
    unfold enqueueWork at hrun
    simp only [bind_run, get_run, hj] at hrun
    obtain ⟨origin, ho, hrun⟩ := (bind_ok_of_reads (workOrigin_keeps item)).1 hrun
    cases hrun
    exact .inr ⟨rfl, origin, ho, rfl⟩

theorem enqueueWork_jobs {id : JobId} {item : WorkItem} {ms : Int}
    (hA : ∀ origin, workOrigin item db = .ok (origin, db) → A id (.new item ms origin)) :
    wp (enqueueWork id item ms) (fun _ db' => JobsGrow A db db') db := by
  intro u db' hrun
  rcases enqueueWork_ok hrun with ⟨j, -, -, rfl⟩ | ⟨hn, origin, ho, rfl⟩
  · exact .refl _
  · intro id'
    rw [Db.setJob, Table.lookup_insert_if]
    split
    · rename_i hid
      subst hid
      exact .inr ⟨hn, item, ms, origin, hA origin ho, rfl⟩
    · exact .inl rfl

theorem sourceOrigin_ok {source : SourceId} {origin : OriginKey} (h : sourceOrigin source db = .ok (origin, db')) :
    ∃ d, db.sources.lookup source = some d ∧ origin = d.url.origin := by
  unfold sourceOrigin at h
  rw [bind_run, get_run] at h
  obtain ⟨d, hd, h⟩ := bind_orThrow_ok.1 h
  unfold httpOrigin at h
  obtain ⟨-, h⟩ := bind_require_ok.1 h
  cases h
  exact ⟨d, hd, rfl⟩

/-- A loop grows the queue if each of its turns does. -/
theorem wp_loop_jobs {α β : Type} {f : α → β → StoreTx α} {xs : List β}
    (hf : ∀ acc d, ∀ x ∈ xs, d.sources = db.sources → wp (f acc x) (fun _ d' => JobsGrow A d d' ∧ d'.sources = d.sources) d)
    {acc : α} : wp (loop f acc xs) (fun _ db' => JobsGrow A db db' ∧ db'.sources = db.sources) db := by
  refine wp_loop (fun _ d => JobsGrow A db d ∧ d.sources = db.sources) (fun acc d x hx hd => ?_) ⟨.refl _, rfl⟩
  refine wp_mono (hf acc d x hx hd.2) fun _ d' hd' => ?_
  exact ⟨hd.1.trans hd'.1, hd'.2.trans hd.2⟩

theorem enqueueArticleRuleJobs_jobs (now : DateTime) (w : WorkspaceId) (s : Subscription) (a : Article)
    (record : SourceRecord) (subscriptions : List SubscriptionId) :
    wp (enqueueArticleRuleJobs now w s a record subscriptions) (fun _ db' => JobsGrow IsArticleRuleJob db db') db := by
  unfold enqueueArticleRuleJobs
  simp only [wp_bind, wp_get]
  intro _ d hd
  have e : d = db := keeps_loop (f := fun d => d) (fun _ _ => keeps_require _ _) _ _ _ _ _ hd
  subst e
  refine wp_mono (wp_loop_jobs (A := IsArticleRuleJob) fun _ d linked _ _ => ?_) fun _ _ h => h.1
  split
  · simp only [wp_pure]
    exact ⟨.refl _, trivial⟩
  · refine wp_and (enqueueWork_jobs fun origin _ => ?_) (enqueueWork_keeps (f := Db.sources) (fun _ _ _ => rfl) _ _ _ d)
    exact ⟨_, _, _, _, _, _, rfl, rfl⟩

theorem deliver_jobs (lease : LeasedWork) (now : DateTime) (commit : DeliveryCommit) :
    wp (deliver P lease now commit) (fun _ db' => JobsGrow IsArticleRuleJob db db') db := by
  intro result db' hrun
  unfold deliver at hrun
  obtain ⟨_, -, hrun⟩ := (bind_ok_of_reads (assertLease_keeps _ _)).1 hrun
  rw [bind_run, get_run] at hrun
  cases hs : db.subscriptions.lookup commit.target.subscriptionId with
  | none =>
    simp only [hs] at hrun
    obtain ⟨_, -, hrun⟩ := bind_orThrow_ok.1 hrun
    obtain ⟨-, hrun⟩ := bind_require_ok.1 hrun
    cases hrun
    exact .refl _
  | some s =>
    simp only [hs] at hrun
    obtain ⟨_, -, hrun⟩ := bind_orThrow_ok.1 hrun
    obtain ⟨-, hrun⟩ := bind_require_ok.1 hrun
    split at hrun
    · unfold deliverActive attachRecord at hrun
      rw [bind_run, get_run] at hrun
      obtain ⟨moved, d₁, h₁, hrun⟩ := bind_ok.1 hrun
      obtain ⟨found, -, hrun⟩ := (bind_ok_of_reads (findByKey_keeps _ _ _)).1 hrun
      obtain ⟨chosen, -, hrun⟩ := (bind_ok_of_reads (chooseArticle_keeps _ _ _)).1 hrun
      obtain ⟨_, d₂, h₂, hrun⟩ := bind_ok.1 hrun
      obtain ⟨_, d₃, h₃, hrun⟩ := bind_ok.1 hrun
      obtain ⟨_, d₄, h₄, hrun⟩ := bind_ok.1 hrun
      obtain ⟨_, d₅, h₅, hrun⟩ := bind_ok.1 hrun
      obtain ⟨_, d₆, h₆, hrun⟩ := bind_ok.1 hrun
      obtain ⟨_, d₇, h₇, hrun⟩ := bind_ok.1 hrun
      obtain ⟨_, -, hrun⟩ := (bind_ok_of_reads checkReferences_keeps).1 hrun
      cases hrun
      have e₁ : d₁.ingestJobs = db.ingestJobs := keeps_loop (f := Db.ingestJobs)
        (detachPrior_keeps ⟨fun _ _ => rfl, fun _ _ => rfl, fun _ _ => rfl⟩ _ _) _ _ _ _ _ h₁
      have e₂ := upsertArticle_keeps (f := Db.ingestJobs) (fun _ _ => rfl) (fun _ _ => rfl) _ _ _ _ _ _ h₂
      have e₃ := keeps_onlyIf (f := Db.ingestJobs) (recordAutomaticRead_keeps (fun _ _ => rfl) _ _) _ _ _ h₃
      have e₄ := keeps_modify (f := Db.ingestJobs) (fun _ => rfl) _ _ _ h₄
      have e₅ := migrateRuleProvenance_keeps (f := Db.ingestJobs) (fun _ _ => rfl) _ _ _ _ _ _ h₅
      have e₆ := linkHistory_keeps (f := Db.ingestJobs) (fun _ _ => rfl) _ _ _ _ _ _ h₆
      have h₀ : JobsGrow IsArticleRuleJob db d₆ :=
        .of_eq (e₆.trans (e₅.trans (e₄.trans (e₃.trans (e₂.trans e₁)))))
      exact h₀.trans (enqueueArticleRuleJobs_jobs _ _ _ _ _ _ _ _ h₇)
    · cases hrun
      exact .refl _

/-- The continuation of a fan-out job. -/
def IsContinuation (lease : LeasedWork) (after : SubscriptionId) (id : JobId) (j : Job) : Prop :=
  ∃ source record a, lease.item = .fanOut source record a ∧ id = .fanoutContinuation lease.jobId after ∧
    j.item = .fanOut source record (some after)

theorem advanceFanout_keeps {γ : Type} {f : Db → γ} (hf : ∀ db id job, f (Db.setJob db id job) = f db)
    (lease : LeasedWork) (now : DateTime) (last : SubscriptionId) : Keeps f (advanceFanout lease now last) := by
  unfold advanceFanout
  split
  · exact keeps_bind (assertLease_keeps _ _) fun _ => enqueueWork_keeps hf _ _ _
  · exact keeps_pure _

theorem advanceFanout_jobs (lease : LeasedWork) (now : DateTime) (after : SubscriptionId) :
    wp (advanceFanout lease now after) (fun _ db' => JobsGrow (IsContinuation lease after) db db') db := by
  unfold advanceFanout
  split
  · rename_i source record a hitem
    intro u db' hrun
    obtain ⟨_, -, hrun⟩ := (bind_ok_of_reads (assertLease_keeps _ _)).1 hrun
    exact enqueueWork_jobs (fun origin _ => ⟨source, record, a, hitem, rfl, rfl⟩) _ _ hrun
  · simp only [wp_pure]
    exact .refl _

theorem evaluateArticleRules_jobs (lease : LeasedWork) (now : DateTime) (w : WorkspaceId) (i : ArticleId)
    (evaluations : List PendingRuleEvaluation) :
    Keeps Db.ingestJobs (evaluateArticleRules P lease now w i evaluations) := by
  refine keeps_bind (assertLease_keeps _ _) fun _ => keeps_bind keeps_get fun d => ?_
  split
  · exact keeps_pure _
  · refine keeps_bind (articleFullText_keeps _) fun text => keeps_bind (keeps_loop (fun state pending => ?_) _ _)
      fun _ => keeps_ite (keeps_pure _) (keeps_bind (toI64_keeps _ _) fun _ => keeps_modify fun _ => rfl)
    split
    · exact keeps_pure _
    · refine keeps_bind (keeps_require _ _) fun _ => keeps_ite ?_ (keeps_pure _)
      exact keeps_bind (keeps_require _ _) fun _ =>
        keeps_bind (upsertRuleEvaluation_keeps (fun _ _ => rfl) _ _ _ _ _) fun _ => keeps_pure _

theorem enqueueNextBatch_jobs (now : DateTime) (w : WorkspaceId) (rule : RuleId) (version : Nat) (through : ArticleId)
    (last : Option ArticleId) :
    wp (enqueueNextBatch now w rule version through last) (fun _ db' => JobsGrow IsRuleBatchJob db db') db := by
  cases last with
  | none =>
    simp only [enqueueNextBatch, wp_pure]
    exact .refl _
  | some cursor =>
    simp only [enqueueNextBatch, wp_onlyIf]
    split
    · exact enqueueWork_jobs fun origin _ => ⟨_, _, _, _, _, rfl, rfl⟩
    · exact .refl _

theorem applyRuleBatch_jobs (lease : LeasedWork) (now : DateTime) (w : WorkspaceId) (ruleId : RuleId) (version : Nat)
    (afterId throughId : Option ArticleId) (limit : Nat) :
    wp (applyRuleBatch P lease now w ruleId version afterId throughId limit)
      (fun _ db' => JobsGrow IsRuleBatchJob db db') db := by
  intro u db' hrun
  unfold applyRuleBatch at hrun
  obtain ⟨_, -, hrun⟩ := (bind_ok_of_reads (assertLease_keeps _ _)).1 hrun
  rw [bind_run, get_run] at hrun
  cases hrule : db.rules.lookup (w, ruleId) with
  | none =>
    simp only [hrule] at hrun
    cases hrun
    exact .refl _
  | some rule =>
    simp only [hrule] at hrun
    obtain ⟨-, hrun⟩ := bind_require_ok.1 hrun
    split at hrun
    · cases hrun
      exact .refl _
    · cases hthrough : throughId.or ((db.workspaceArticles w).getLast?.map (·.1)) with
      | none =>
        simp only [hthrough] at hrun
        cases hrun
        exact .refl _
      | some through =>
        simp only [hthrough] at hrun
        obtain ⟨last, d₁, h₁, hrun⟩ := bind_ok.1 hrun
        obtain ⟨_, d₂, h₂, hrun⟩ := bind_ok.1 hrun
        cases hrun
        have e₁ : d₁.ingestJobs = db.ingestJobs := by
          refine keeps_loop (f := Db.ingestJobs) (fun _ row => ?_) _ _ _ _ _ h₁
          refine keeps_bind (articleFullText_keeps _) fun text => keeps_bind (keeps_require _ _) fun _ => ?_
          refine keeps_bind (keeps_ite (keeps_pure _) ?_) fun _ =>
            keeps_bind (upsertRuleEvaluation_keeps (fun _ _ => rfl) _ _ _ _ _) fun _ => keeps_pure _
          exact keeps_bind (toI64_keeps _ _) fun _ => keeps_modify fun _ => rfl
        refine JobsGrow.trans (.of_eq e₁) ?_
        unfold onlyIf at h₂
        split at h₂
        · exact enqueueNextBatch_jobs _ _ _ _ _ _ _ _ h₂
        · cases h₂
          exact .refl _

/-- The cleanup job of a published text. -/
def IsCleanupJob (id : JobId) (j : Job) : Prop := ∃ r n, id = .cleanup r n ∧ j.item = .cleanupContent r n

theorem publishContent_jobs (lease : LeasedWork) (now : DateTime) (v : ContentRevision) :
    wp (publishContent lease now v) (fun _ db' => JobsGrow IsCleanupJob db db') db := by
  intro u db' hrun
  unfold publishContent at hrun
  obtain ⟨_, -, hrun⟩ := (bind_ok_of_reads (assertLease_keeps _ _)).1 hrun
  rw [bind_run, get_run] at hrun
  simp only at hrun
  split at hrun
  · cases hrun
    exact .refl _
  · obtain ⟨_, d₁, h₁, hrun⟩ := bind_ok.1 hrun
    obtain ⟨_, d₂, h₂, hrun⟩ := bind_ok.1 hrun
    obtain ⟨-, hrun⟩ := bind_require_ok.1 hrun
    obtain ⟨_, d₃, h₃, hrun⟩ := bind_ok.1 hrun
    obtain ⟨_, d₄, h₄, hrun⟩ := bind_ok.1 hrun
    obtain ⟨_, d₅, h₅, hrun⟩ := bind_ok.1 hrun
    have e₄ := keeps_bind (f := Db.ingestJobs) (keeps_require _ _) (fun _ => keeps_require _ _) _ _ _ h₄
    cases h₁
    cases h₂
    cases h₃
    cases h₅
    have hclean := enqueueWork_jobs (A := IsCleanupJob) (fun origin _ => ⟨_, _, rfl, rfl⟩) _ _ hrun
    exact JobsGrow.trans (.of_eq e₄) hclean

/-! ## Leases -/

theorem complete_ok {cfg : StoreConfig} {done : DateTime} {id : JobId} {token : LeaseToken} {u : Unit}
    (h : complete cfg done id token db = .ok (u, db')) :
    ∃ row, db.ingestJobs.lookup id = some row ∧ row.status = .leased ∧ row.leaseToken = some token ∧
      db' = db.setJob id (row.finished (millis (done + cfg.pollInterval))) := by
  unfold complete at h
  rw [bind_run, get_run] at h
  obtain ⟨row, hrow, h⟩ := bind_orThrow_ok.1 h
  cases h
  rw [Option.filter_eq_some_iff] at hrow
  simp only [Bool.and_eq_true, beq_iff_eq] at hrow
  exact ⟨row, hrow.1, hrow.2.1, hrow.2.2, rfl⟩

theorem leaseUpdate_ok {cfg : StoreConfig} {now : DateTime} {id : JobId} {token : LeaseToken} {status : JobStatus}
    {deadline runAt : Option Int} {diagnostic : Option String} {u : Unit}
    (h : leaseUpdate cfg now id token status deadline runAt diagnostic db = .ok (u, db')) :
    ∃ row, db.ingestJobs.lookup id = some row ∧ row.holds token (sqlMillis now) ∧ db'.sources = db.sources ∧
      db'.ingestJobs = db.ingestJobs.insert id (row.afterUpdate cfg now status deadline runAt diagnostic) := by
  unfold leaseUpdate at h
  rw [bind_run, get_run] at h
  obtain ⟨row, hrow, h⟩ := bind_orThrow_ok.1 h
  rw [Option.filter_eq_some_iff] at hrow
  rw [bind_run, modify_run] at h
  refine ⟨row, hrow.1, hrow.2, ?_⟩
  have hk : ∀ {γ : Type} {f : Db → γ}, (∀ (db : Db) t, f { db with subscriptionActivity := t } = f db) →
      (∀ (db : Db) t, f { db with sourceHealth := t } = f db) →
      f db' = f (db.setJob id (row.afterUpdate cfg now status deadline runAt diagnostic)) := by
    intro γ f hf hf'
    cases diagnostic with
    | none => cases h; rfl
    | some diagnostic =>
      cases hsource : row.item.workSource with
      | none => simp only [hsource] at h; cases h; rfl
      | some source =>
        simp only [hsource] at h
        exact recordSourceFailure_keeps hf hf' _ _ _ _ _ _ h
  exact ⟨hk (f := Db.sources) (fun _ _ => rfl) (fun _ _ => rfl), hk (f := Db.ingestJobs) (fun _ _ => rfl) (fun _ _ => rfl)⟩

/-! ## The commit of a poll -/

theorem recordSubscriptionActivity_jobs (source : SourceId) (ok : Bool) (d n : Option Nat) (diagnostic : Option String)
    (t : DateTime) : Keeps Db.ingestJobs (recordSubscriptionActivity source ok d n diagnostic t) :=
  recordSubscriptionActivity_keeps (fun _ _ => rfl) _ _ _ _ _ _

theorem persistBacklog_keeps {γ : Type} {f : Db → γ} (hf : ∀ (db : Db) t, f { db with pollBacklog := t } = f db)
    (c : PollCommit) : Keeps f (persistBacklog c) := by
  refine keeps_bind (keeps_require _ _) fun _ => keeps_bind (keeps_require _ _) fun _ => ?_
  refine keeps_bind (keeps_loop (fun _ entry => ?_) _ _) fun _ => keeps_loop (fun _ p => ?_) _ _
  · exact keeps_bind keeps_get fun _ => keeps_bind (keeps_require _ _) fun _ => keeps_modify fun _ => hf _ _
  · exact keeps_bind keeps_get fun _ => keeps_bind (keeps_modify fun _ => hf _ _) fun _ => keeps_require _ _

/-- A part of the database that no poll writes. -/
structure OutsidePoll {γ : Type} (f : Db → γ) : Prop where
  recordDiscovery : ∀ (db : Db) t, f { db with recordDiscovery := t } = f db
  pollBacklog : ∀ (db : Db) t, f { db with pollBacklog := t } = f db
  records : ∀ (db : Db) t t', f { db with sourceRecords := t, sourceRecordIdentity := t' } = f db
  pollState : ∀ (db : Db) t, f { db with pollState := t } = f db
  sourceHealth : ∀ (db : Db) t, f { db with sourceHealth := t } = f db
  subscriptionActivity : ∀ (db : Db) t, f { db with subscriptionActivity := t } = f db
  ingestJobs : ∀ (db : Db) t, f { db with ingestJobs := t } = f db

theorem commitPoll_keeps {γ : Type} {f : Db → γ} (hf : OutsidePoll f) (lease : LeasedWork) (now : DateTime)
    (c : PollCommit) : Keeps f (commitPoll lease now c) := by
  refine keeps_bind (assertLease_keeps _ _) fun _ => ?_
  refine keeps_bind (keeps_bind (keeps_require _ _) fun _ => keeps_modify fun _ => hf.recordDiscovery _ _) fun _ => ?_
  refine keeps_bind (persistBacklog_keeps hf.pollBacklog c) fun _ => ?_
  refine keeps_bind (keeps_loop (fun _ p => ?_) _ _) fun _ => ?_
  · refine keeps_bind (toI64_keeps _ _) fun _ => keeps_bind (keeps_modify fun _ => hf.records _ _ _) fun _ => ?_
    refine keeps_bind (keeps_onlyIf (enqueueWork_keeps (fun _ _ _ => hf.ingestJobs _ _) _ _ _)) fun _ => ?_
    split
    · exact enqueueWork_keeps (fun _ _ _ => hf.ingestJobs _ _) _ _ _
    · exact keeps_pure _
  · refine keeps_bind (keeps_modify fun _ => hf.pollState _ _) fun _ => ?_
    refine keeps_bind (keeps_modify fun _ => hf.sourceHealth _ _) fun _ => ?_
    refine keeps_bind (recordSubscriptionActivity_keeps hf.subscriptionActivity _ _ _ _ _ _) fun _ => ?_
    refine keeps_ite (keeps_bind (keeps_orThrow _ _) fun _ => ?_) (keeps_pure _)
    exact enqueueWork_keeps (fun _ _ _ => hf.ingestJobs _ _) _ _ _

theorem commitRecord_jobs (c : PollCommit) (sources : Table SourceId SourceDefinition) (observedAtMs nowMs : Int)
    (p : PolledRecord) (hp : p ∈ c.records) :
    wp (commitRecord observedAtMs nowMs p)
      (fun _ db' => JobsGrow (c.IsJob sources) db db' ∧ db'.sources = db.sources) db := by
  intro u db' hrun
  unfold commitRecord at hrun
  obtain ⟨-, hrun⟩ := bind_require_ok.1 hrun
  rw [bind_run, modify_run] at hrun
  obtain ⟨_, d₁, h₁, hrun⟩ := bind_ok.1 hrun
  have hfan : JobsGrow (c.IsJob sources) db d₁ ∧ d₁.sources = db.sources := by
    unfold onlyIf at h₁
    split at h₁
    · rename_i hact
      have hs := enqueueWork_keeps (f := Db.sources) (fun _ _ _ => rfl) _ _ _ _ _ _ h₁
      have hj := enqueueWork_jobs (A := c.IsJob sources) (fun origin _ => .inl ⟨p, hp, hact, rfl, rfl⟩) _ _ h₁
      exact ⟨JobsGrow.trans (.of_eq rfl) hj, hs⟩
    · cases h₁
      exact ⟨.of_eq rfl, rfl⟩
  cases hurl : p.record.key.location.fetchUrl with
  | some url =>
    simp only [hurl] at hrun
    have hs := enqueueWork_keeps (f := Db.sources) (fun _ _ _ => rfl) _ _ _ _ _ _ hrun
    have hj := enqueueWork_jobs (A := c.IsJob sources) (fun origin _ => .inr (.inl ⟨p, hp, url, rfl, rfl⟩)) _ _ hrun
    exact ⟨hfan.1.trans hj, hs.trans hfan.2⟩
  | none =>
    simp only [hurl] at hrun
    cases hrun
    exact hfan

theorem commitPoll_jobs (lease : LeasedWork) (now : DateTime) (c : PollCommit) :
    wp (commitPoll lease now c) (fun _ db' => JobsGrow (c.IsJob db.sources) db db') db := by
  intro u db' hrun
  unfold commitPoll at hrun
  obtain ⟨_, -, hrun₀⟩ := (bind_ok_of_reads (assertLease_keeps _ _)).1 hrun
  obtain ⟨_, d₁, h₁, hrun₁⟩ := bind_ok.1 hrun₀
  obtain ⟨_, d₂, h₂, hrun₂⟩ := bind_ok.1 hrun₁
  obtain ⟨_, d₃, h₃, hrun₃⟩ := bind_ok.1 hrun₂
  obtain ⟨_, d₄, h₄, hrun₄⟩ := bind_ok.1 hrun₃
  obtain ⟨_, d₅, h₅, hrun₅⟩ := bind_ok.1 hrun₄
  obtain ⟨_, d₆, h₆, hrun₆⟩ := bind_ok.1 hrun₅
  have hbegin : ∀ {γ : Type} {f : Db → γ}, (∀ (db : Db) t, f { db with recordDiscovery := t } = f db) →
      Keeps f (beginPoll c) := fun hf => keeps_bind (keeps_require _ _) fun _ => keeps_modify fun _ => hf _ _
  have j₁ : d₁.ingestJobs = db.ingestJobs := hbegin (fun _ _ => rfl) _ _ _ h₁
  have s₁ : d₁.sources = db.sources := hbegin (fun _ _ => rfl) _ _ _ h₁
  have j₂ := persistBacklog_keeps (f := Db.ingestJobs) (fun _ _ => rfl) c _ _ _ h₂
  have s₂ := persistBacklog_keeps (f := Db.sources) (fun _ _ => rfl) c _ _ _ h₂
  obtain ⟨g₃, s₃⟩ := wp_loop_jobs (A := c.IsJob db.sources)
    (fun _ d p hp _ => commitRecord_jobs c db.sources _ _ p hp) _ _ h₃
  cases h₄
  cases h₅
  have j₆ := recordSubscriptionActivity_jobs _ _ _ _ _ _ _ _ _ h₆
  have s₆ := recordSubscriptionActivity_keeps (f := Db.sources) (fun _ _ => rfl) _ _ _ _ _ _ _ _ _ h₆
  have h₀ : JobsGrow (c.IsJob db.sources) db d₆ :=
    (JobsGrow.of_eq (j₂.trans j₁)).trans (g₃.trans (.of_eq j₆))
  refine h₀.trans ?_
  unfold enqueueContinuation at hrun₆
  split at hrun₆
  · rename_i hinc
    obtain ⟨last, hlast, hrun₇⟩ := bind_orThrow_ok.1 hrun₆
    refine enqueueWork_jobs (fun origin ho => ?_) _ _ hrun₇
    obtain ⟨d, hd, horigin⟩ := sourceOrigin_ok ho
    have hsrc : d₆.sources = db.sources := s₆.trans (s₃.trans (s₂.trans s₁))
    exact .inr (.inr ⟨last, d, hinc, hlast, rfl, rfl, hsrc ▸ hd, horigin⟩)
  · cases hrun₆
    exact .refl _

end
end Inoreader
