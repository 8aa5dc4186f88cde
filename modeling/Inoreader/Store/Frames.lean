import Inoreader.Store.Delivery

/-!
# What the operations leave alone

`Keeps f m` for the helpers of the store: each keeps every part `f` of the database that does not
see the tables it writes.
-/

namespace Inoreader
open Lib Tx

/-- The row of the lease is leased under its token with a deadline that has not passed. -/
def Db.leaseCurrent (db : Db) (lease : LeasedWork) (now : DateTime) : Bool :=
  (db.ingestJobs.lookup lease.jobId).any (·.holds lease.token (millis now))

theorem assertLease_run (lease : LeasedWork) (now : DateTime) (db : Db) :
    assertLease lease now db = if db.leaseCurrent lease now then .ok ((), db) else .error .staleLease := by
  unfold assertLease Db.leaseCurrent
  simp only [bind_run, get_run]
  cases hrow : db.ingestJobs.lookup lease.jobId with
  | none => simp [orThrow, throw_run]
  | some j =>
    by_cases hlease : (j.status == .leased && j.leaseToken == some lease.token) = true
    · by_cases hdl : j.leaseDeadlineMs.any (millis now ≤ ·) = true
      · simp [Option.filter, hlease, orThrow, pure_run, require, hdl, Job.holds]
      · simp [Option.filter, hlease, orThrow, pure_run, require, hdl, Job.holds, throw_run]
    · simp [Option.filter, hlease, orThrow, throw_run, Job.holds]

theorem assertLease_ok {lease : LeasedWork} {now : DateTime} {db db' : Db} {u : Unit}
    (h : assertLease lease now db = .ok (u, db')) : db.leaseCurrent lease now ∧ db' = db := by
  rw [assertLease_run] at h
  split at h
  · rename_i hc
    cases h
    exact ⟨hc, rfl⟩
  · cases h

theorem enqueueWork_of_some {id : JobId} {item : WorkItem} {nowMs : Int} {db : Db} {job : Job}
    (h : db.ingestJobs.lookup id = some job) :
    enqueueWork id item nowMs db = if job.item = item then .ok ((), db) else .error .conflict := by
  unfold enqueueWork
  simp only [bind_run, get_run, h, require]
  split <;> rfl

theorem enqueueWork_of_none {id : JobId} {item : WorkItem} {nowMs : Int} {db : Db} {origin : OriginKey}
    (h : db.ingestJobs.lookup id = none) (ho : workOrigin item db = .ok (origin, db)) :
    enqueueWork id item nowMs db = .ok ((), db.setJob id (.new item nowMs origin)) := by
  unfold enqueueWork
  simp only [bind_run, get_run, h, ho, modify_run]

section
variable {γ : Type} {f : Db → γ}

theorem assertLease_keeps (lease : LeasedWork) (now : DateTime) : Keeps f (assertLease lease now) :=
  fun _ _ _ h => congrArg f (assertLease_ok h).2

theorem toI64_keeps (value : Nat) (field : String) : Keeps f (toI64 value field) := keeps_require _ _

theorem sourceOrigin_keeps (source : SourceId) : Keeps f (sourceOrigin source) :=
  keeps_bind keeps_get fun _ => keeps_bind (keeps_orThrow _ _) fun _ => keeps_bind (keeps_require _ _) fun _ => keeps_pure _

theorem workOrigin_keeps (item : WorkItem) : Keeps f (workOrigin item) := by
  cases item with
  | pollSource s => exact sourceOrigin_keeps s
  | refreshSource s => exact sourceOrigin_keeps s
  | collectWebFeed s => exact sourceOrigin_keeps s
  | fanOut s _ _ => exact sourceOrigin_keeps s
  | extractFullText _ _ url _ => exact keeps_bind (keeps_require _ _) fun _ => keeps_pure _
  | cleanupContent record _ =>
    exact keeps_bind keeps_get fun _ => keeps_bind (keeps_orThrow _ _) fun _ => sourceOrigin_keeps _
  | evaluateArticleRules _ _ _ => exact keeps_pure _
  | applyRule _ _ _ _ _ => exact keeps_pure _

theorem enqueueWork_keeps (hf : ∀ db id job, f (Db.setJob db id job) = f db) (id : JobId) (item : WorkItem)
    (t : Int) : Keeps f (enqueueWork id item t) := by
  refine keeps_bind keeps_get fun db => ?_
  split
  · exact keeps_require _ _
  · exact keeps_bind (workOrigin_keeps item) fun _ => keeps_modify fun _ => hf _ _ _

theorem recordSubscriptionActivity_keeps (hf : ∀ (db : Db) t, f { db with subscriptionActivity := t } = f db)
    (source : SourceId) (ok : Bool) (d n : Option Nat) (diagnostic : Option String) (t : DateTime) :
    Keeps f (recordSubscriptionActivity source ok d n diagnostic t) := by
  refine keeps_bind (keeps_modify fun _ => hf _ _) fun _ => keeps_bind keeps_get fun db => ?_
  refine keeps_loop (fun _ id => ?_) _ _
  refine keeps_bind (keeps_orThrow _ _) fun _ => keeps_bind (keeps_orThrow _ _) fun _ => ?_
  exact keeps_ite (keeps_modify fun _ => hf _ _) (keeps_pure _)

theorem recordSourceFailure_keeps (hf : ∀ (db : Db) t, f { db with subscriptionActivity := t } = f db)
    (hf' : ∀ (db : Db) t, f { db with sourceHealth := t } = f db) (now : DateTime) (source : SourceId)
    (diagnostic : String) : Keeps f (recordSourceFailure now source diagnostic) :=
  keeps_bind (keeps_modify fun _ => hf' _ _) fun _ => recordSubscriptionActivity_keeps hf _ _ _ _ _ _

theorem upsertRuleEvaluation_keeps (hf : ∀ (db : Db) t, f { db with ruleEvaluations := t } = f db)
    (w : WorkspaceId) (a : ArticleId) (rule : RuleId) (version : Nat) (document : RuleProvenance) :
    Keeps f (upsertRuleEvaluation w a rule version document) :=
  keeps_bind (toI64_keeps _ _) fun _ => keeps_modify fun _ => hf _ _

theorem articleFullText_keeps (a : Article) : Keeps f (articleFullText a) := by
  refine keeps_bind keeps_get fun db => keeps_bind (keeps_loop (fun acc record => ?_) _ _) fun _ => keeps_pure _
  split
  · exact keeps_pure _
  · exact keeps_bind (keeps_orThrow _ _) fun _ => keeps_pure _

theorem automaticallyRead_keeps (commit : DeliveryCommit) : Keeps f (automaticallyRead commit) := by
  refine keeps_bind keeps_get fun db => ?_
  split
  · exact keeps_pure _
  · exact keeps_bind (keeps_require _ _) fun _ => keeps_pure _

theorem recordAutomaticRead_keeps (hf : ∀ (db : Db) t, f { db with articleReadEvents := t } = f db)
    (key : ArticleKey) (revision : Nat) : Keeps f (recordAutomaticRead key revision) :=
  keeps_bind (toI64_keeps _ _) fun _ => keeps_bind keeps_get fun _ => keeps_bind (keeps_require _ _) fun _ =>
    keeps_modify fun _ => hf _ _

theorem migrateRuleProvenance_keeps (hf : ∀ (db : Db) t, f { db with ruleEvaluations := t } = f db)
    (w : WorkspaceId) (a : ArticleId) (moved : List ArticleId) : Keeps f (migrateRuleProvenance w a moved) := by
  refine keeps_loop (fun _ old => keeps_ite (keeps_pure _) (keeps_bind keeps_get fun db => ?_)) _ _
  exact keeps_loop (fun _ row => keeps_modify fun _ => hf _ _) _ _

theorem linkHistory_keeps (hf : ∀ (db : Db) t, f { db with articleHistoryLinks := t } = f db)
    (w : WorkspaceId) (a : ArticleId) (moved : List ArticleId) : Keeps f (linkHistory w a moved) :=
  keeps_loop (fun _ _ => keeps_ite (keeps_pure _) (keeps_modify fun _ => hf _ _)) _ _

theorem enqueueArticleRuleJobs_keeps (hf : ∀ db id job, f (Db.setJob db id job) = f db) (now : DateTime)
    (w : WorkspaceId) (subscription : Subscription) (a : Article) (record : SourceRecord)
    (subscriptions : List SubscriptionId) :
    Keeps f (enqueueArticleRuleJobs now w subscription a record subscriptions) := by
  refine keeps_bind keeps_get fun db => keeps_bind (keeps_loop (fun _ _ => keeps_require _ _) _ _) fun _ => ?_
  refine keeps_loop (fun _ linked => ?_) _ _
  split
  · exact keeps_pure _
  · exact enqueueWork_keeps hf _ _ _

theorem checkReferences_keeps : Keeps f checkReferences :=
  keeps_bind keeps_get fun _ => keeps_require _ _

theorem chooseArticle_keeps (commit : DeliveryCommit) (moved : Moved) (found : Option Article) :
    Keeps f (chooseArticle commit moved found) := by
  unfold chooseArticle
  split
  · exact keeps_pure _
  · exact keeps_bind (automaticallyRead_keeps _) fun _ => keeps_pure _

theorem findByKey_keeps (P : Platform) (w : WorkspaceId) (key : DedupKey) : Keeps f (findByKey P w key) := by
  refine keeps_bind keeps_get fun db => ?_
  split
  · exact keeps_pure _
  · exact keeps_bind (keeps_require _ _) fun _ => keeps_bind (keeps_orThrow _ _) fun _ =>
      keeps_bind (keeps_require _ _) fun _ => keeps_pure _

theorem upsertArticle_keeps {P : Platform} (hf : ∀ (db : Db) t, f { db with articles := t } = f db)
    (hf' : ∀ (db : Db) t, f { db with libraryDedup := t } = f db) (w : WorkspaceId) (a : Article)
    (key : DedupKey) : Keeps f (upsertArticle P w a key) :=
  keeps_bind (toI64_keeps _ _) fun _ => keeps_bind (keeps_modify fun _ => hf _ _) fun _ =>
    keeps_bind keeps_get fun _ => keeps_bind (keeps_require _ _) fun _ => keeps_modify fun _ => hf' _ _

theorem storeDetached_keeps {P : Platform} (hf : ∀ (db : Db) t, f { db with articles := t } = f db)
    (hf' : ∀ (db : Db) t, f { db with libraryDedup := t } = f db) (w : WorkspaceId) (id : ArticleId)
    (detached : Article) : Keeps f (storeDetached P w id detached) := by
  refine keeps_ite (keeps_modify fun db => ?_) (upsertArticle_keeps hf hf' _ _ _)
  exact (hf' { db with articles := db.articles.erase (w, id) } _).trans (hf db _)

end

/-- A part of the database outside the library. -/
structure OutsideLibrary {γ : Type} (f : Db → γ) : Prop where
  articles : ∀ (db : Db) t, f { db with articles := t } = f db
  libraryDedup : ∀ (db : Db) t, f { db with libraryDedup := t } = f db
  libraryOrigins : ∀ (db : Db) t, f { db with libraryOrigins := t } = f db

/-- A part of the database that no delivery writes. -/
structure OutsideDelivery {γ : Type} (f : Db → γ) : Prop extends OutsideLibrary f where
  articleReadEvents : ∀ (db : Db) t, f { db with articleReadEvents := t } = f db
  ruleEvaluations : ∀ (db : Db) t, f { db with ruleEvaluations := t } = f db
  articleHistoryLinks : ∀ (db : Db) t, f { db with articleHistoryLinks := t } = f db
  ingestJobs : ∀ (db : Db) t, f { db with ingestJobs := t } = f db

section
variable {γ : Type} {f : Db → γ} {P : Platform}

theorem detachPrior_keeps (hf : OutsideLibrary f) (w : WorkspaceId) (record : SourceRecord) (moved : Moved)
    (prior : ArticleId × List SubscriptionId) : Keeps f (detachPrior P w record moved prior) := by
  refine keeps_bind keeps_get fun db => keeps_bind (keeps_orThrow _ _) fun old => keeps_ite (keeps_pure _) ?_
  refine keeps_bind (keeps_modify fun _ => hf.libraryOrigins _ _) fun _ => ?_
  exact keeps_bind (storeDetached_keeps hf.articles hf.libraryDedup _ _ _) fun _ => keeps_pure _

theorem attachRecord_keeps (hf : OutsideDelivery f) (now : DateTime) (s : Subscription) (commit : DeliveryCommit)
    (moved : Moved) (chosen : Article × DeliveryResult) : Keeps f (attachRecord P now s commit moved chosen) := by
  refine keeps_bind (upsertArticle_keeps hf.articles hf.libraryDedup _ _ _) fun _ => ?_
  refine keeps_bind (keeps_onlyIf (recordAutomaticRead_keeps hf.articleReadEvents _ _)) fun _ => ?_
  refine keeps_bind (keeps_modify fun _ => hf.libraryOrigins _ _) fun _ => ?_
  refine keeps_bind (migrateRuleProvenance_keeps hf.ruleEvaluations _ _ _) fun _ => ?_
  refine keeps_bind (linkHistory_keeps hf.articleHistoryLinks _ _ _) fun _ => ?_
  refine keeps_bind (enqueueArticleRuleJobs_keeps (fun _ _ _ => hf.ingestJobs _ _) _ _ _ _ _ _) fun _ => ?_
  exact keeps_bind checkReferences_keeps fun _ => keeps_pure _

theorem deliverActive_keeps (hf : OutsideDelivery f) (now : DateTime) (s : Subscription)
    (commit : DeliveryCommit) : Keeps f (deliverActive P now s commit) := by
  refine keeps_bind keeps_get fun db => keeps_bind (keeps_loop (detachPrior_keeps hf.toOutsideLibrary _ _) _ _) fun moved => ?_
  refine keeps_bind (findByKey_keeps _ _ _) fun found => keeps_bind (chooseArticle_keeps _ _ _) fun chosen => ?_
  exact attachRecord_keeps hf _ _ _ _ _

theorem deliver_keeps (hf : OutsideDelivery f) (lease : LeasedWork) (now : DateTime) (commit : DeliveryCommit) :
    Keeps f (deliver P lease now commit) := by
  refine keeps_bind (assertLease_keeps _ _) fun _ => keeps_bind keeps_get fun db => ?_
  split
  · exact keeps_bind (keeps_orThrow _ _) fun _ => keeps_bind (keeps_require _ _) fun _ => keeps_pure _
  · refine keeps_bind (keeps_orThrow _ _) fun _ => keeps_bind (keeps_require _ _) fun _ => ?_
    exact keeps_ite (deliverActive_keeps hf _ _ _) (keeps_pure _)

end

/-- A part of the database that no rule evaluation writes. -/
structure OutsideRules {γ : Type} (f : Db → γ) : Prop where
  articles : ∀ (db : Db) t, f { db with articles := t } = f db
  ruleEvaluations : ∀ (db : Db) t, f { db with ruleEvaluations := t } = f db
  ingestJobs : ∀ (db : Db) t, f { db with ingestJobs := t } = f db

section
variable {γ : Type} {f : Db → γ} {P : Platform}

theorem storeState_keeps (hf : OutsideRules f) (k : ArticleKey) (a : Article) (state : ArticleState) :
    Keeps f (storeState k a state) :=
  keeps_ite (keeps_pure _) (keeps_bind (toI64_keeps _ _) fun _ => keeps_modify fun _ => hf.articles _ _)

theorem evaluateArticleRules_keeps (hf : OutsideRules f) (lease : LeasedWork) (now : DateTime) (w : WorkspaceId)
    (i : ArticleId) (evaluations : List PendingRuleEvaluation) :
    Keeps f (evaluateArticleRules P lease now w i evaluations) := by
  refine keeps_bind (assertLease_keeps _ _) fun _ => keeps_bind keeps_get fun db => ?_
  split
  · exact keeps_pure _
  · refine keeps_bind (articleFullText_keeps _) fun text => keeps_bind (keeps_loop (fun state pending => ?_) _ _)
      fun _ => storeState_keeps hf _ _ _
    split
    · exact keeps_pure _
    · refine keeps_bind (keeps_require _ _) fun _ => keeps_ite ?_ (keeps_pure _)
      exact keeps_bind (keeps_require _ _) fun _ =>
        keeps_bind (upsertRuleEvaluation_keeps hf.ruleEvaluations _ _ _ _ _) fun _ => keeps_pure _

theorem applyRuleBatch_keeps (hf : OutsideRules f) (lease : LeasedWork) (now : DateTime) (w : WorkspaceId)
    (rule : RuleId) (version : Nat) (afterId throughId : Option ArticleId) (limit : Nat) :
    Keeps f (applyRuleBatch P lease now w rule version afterId throughId limit) := by
  refine keeps_bind (assertLease_keeps _ _) fun _ => keeps_bind keeps_get fun db => ?_
  split
  · exact keeps_pure _
  · refine keeps_bind (keeps_require _ _) fun _ => keeps_ite (keeps_pure _) ?_
    split
    · exact keeps_pure _
    · refine keeps_bind (keeps_loop (fun _ row => ?_) _ _) fun last => keeps_bind ?_ fun _ => keeps_pure _
      · refine keeps_bind (articleFullText_keeps _) fun text => keeps_bind (keeps_require _ _) fun _ => ?_
        exact keeps_bind (storeState_keeps hf _ _ _) fun _ =>
          keeps_bind (upsertRuleEvaluation_keeps hf.ruleEvaluations _ _ _ _ _) fun _ => keeps_pure _
      · refine keeps_onlyIf ?_
        unfold enqueueNextBatch
        split
        · exact keeps_pure _
        · exact keeps_onlyIf (enqueueWork_keeps (fun _ _ _ => hf.ingestJobs _ _) _ _ _)

end
end Inoreader
