import Inoreader.Rules.Batches
import Inoreader.Queue.Rows

/-!
# Applying a rule to the archive

`enqueue_rule_application` starts a chain of `ApplyRule` jobs, one for each batch, and each batch that
commits starts the next. The chain has one open job at a time (`Archive.Chain`). Articles come and go, and
jobs are leased, retried and given up, between any two of its steps.
-/

namespace Inoreader
open Lib Tx

/-- An enabled rule of a workspace and how it is applied. -/
structure Archive where
  P : Platform
  cfg : StoreConfig
  w : WorkspaceId
  rule : Rule
  /-- `fanout_batch`. -/
  limit : Nat
  valid : rule.valid = true
  enabled : rule.enabled = true
  positive : 1 ≤ limit

structure ArchiveWorld where
  db : Db
  /-- What the calls that are under way have read. -/
  reads : List (List ArticleId)
  /-- For each call that succeeded the articles it read, less those that are gone. -/
  calls : List (List ArticleId)
  /-- The articles that were there when the chain was started, less those that are gone. -/
  archive : List ArticleId
  /-- The bound of the chain, once its first batch has fixed it. -/
  boundary : Option ArticleId
  /-- The articles that the batches evaluated, one after the other. -/
  log : List ArticleId
  batches : Nat
  /-- The calls that failed. -/
  refused : Nat
  /-- The errors of the batches that failed. -/
  failed : List StoreError

inductive ArchiveOp
  /-- A call of `enqueue_rule_application` reads the articles of the workspace. -/
  | read
  /-- It enqueues the first job. -/
  | enqueue (articles : List ArticleId) (now : DateTime)
  /-- A worker runs the job it has leased and completes it. -/
  | work (lease : LeasedWork) (now done : DateTime)
  /-- Any other transaction commits. -/
  | other (db : Db)

namespace Archive
variable (A : Archive)

/-- The jobs of the applications of this version of the rule. -/
def Owns : JobId → Prop
  | .applyRule w rule version => w = A.w ∧ rule = A.rule.id ∧ version = A.rule.version
  | .rule rule version _ => rule = A.rule.id ∧ version = A.rule.version
  | _ => False

instance : (i : JobId) → Decidable (A.Owns i)
  | .applyRule w rule version => inferInstanceAs (Decidable (w = A.w ∧ rule = A.rule.id ∧ version = A.rule.version))
  | .rule rule version _ => inferInstanceAs (Decidable (rule = A.rule.id ∧ version = A.rule.version))
  | .random _ | .record _ _ _ | .cleanup _ _ | .articleRule _ _ _ _ | .fanoutContinuation _ _
  | .subscriptionBackfill _ _ | .subscriptionActivation _ _ | .workspaceRestore _ _ _ => inferInstanceAs (Decidable False)

def start : JobId := .applyRule A.w A.rule.id A.rule.version

def item (afterId throughId : Option ArticleId) : WorkItem := .applyRule A.w A.rule.id A.rule.version afterId throughId

def Present (db : Db) (i : ArticleId) : Prop := (db.articles.lookup (A.w, i)).isSome = true

def Evaluated (db : Db) (i : ArticleId) : Prop :=
  (db.ruleEvaluations.lookup ⟨A.w, i, A.rule.id, A.rule.version⟩).isSome = true

instance (db : Db) (i : ArticleId) : Decidable (A.Present db i) :=
  inferInstanceAs (Decidable ((db.articles.lookup (A.w, i)).isSome = true))

instance (db : Db) (i : ArticleId) : Decidable (A.Evaluated db i) :=
  inferInstanceAs (Decidable ((db.ruleEvaluations.lookup _).isSome = true))

/-- The bounds of a batch, when the item is one. -/
def bounds : WorkItem → Option (Option ArticleId × Option ArticleId)
  | .applyRule w rule version afterId throughId =>
    if w = A.w ∧ rule = A.rule.id ∧ version = A.rule.version then some (afterId, throughId) else none
  | _ => none

/-- The article lies within the bounds of a job that is not completed. -/
def Ahead (db : Db) (i : ArticleId) : Prop :=
  ∃ row ∈ db.ingestJobs.rows, A.Owns row.1 ∧ row.2.status ≠ .completed ∧
    ∃ b ∈ A.bounds row.2.item, b.1.all (·.uuid < i.uuid) = true ∧ b.2.all (i.uuid ≤ ·.uuid) = true

instance (db : Db) (i : ArticleId) : Decidable (A.Ahead db i) :=
  inferInstanceAs (Decidable (∃ row ∈ db.ingestJobs.rows, A.Owns row.1 ∧ row.2.status ≠ .completed ∧
    ∃ b ∈ A.bounds row.2.item, b.1.all (·.uuid < i.uuid) = true ∧ b.2.all (i.uuid ≤ ·.uuid) = true))

/-- All jobs of the applications are completed. -/
def Completed (db : Db) : Prop := ∀ row ∈ db.ingestJobs.rows, A.Owns row.1 → row.2.status = .completed

instance (db : Db) : Decidable (A.Completed db) :=
  inferInstanceAs (Decidable (∀ row ∈ db.ingestJobs.rows, A.Owns row.1 → row.2.status = .completed))

/-- What no other transaction does: change the rule, file an article under another id than its own, drop
the evaluation of an article that stays, start, complete or rewrite a job of the applications. -/
structure Leaves (db db' : Db) : Prop where
  rule : db'.rules.lookup (A.w, A.rule.id) = some A.rule
  articles : ∀ row ∈ db'.articles.rows, row.1.1 = A.w → row.2.id = row.1.2
  evaluations : ∀ row ∈ db.ruleEvaluations.rows, row.1 = ⟨A.w, row.1.articleId, A.rule.id, A.rule.version⟩ →
    A.Present db' row.1.articleId → (db'.ruleEvaluations.lookup row.1).isSome = true
  jobs : ∀ row ∈ db.ingestJobs.rows, A.Owns row.1 → ∃ j ∈ db'.ingestJobs.lookup row.1,
    j.item = row.2.item ∧ (j.status = .completed ↔ row.2.status = .completed)
  newJobs : ∀ row ∈ db'.ingestJobs.rows, A.Owns row.1 → (db.ingestJobs.lookup row.1).isSome = true

instance (db db' : Db) : Decidable (A.Leaves db db') :=
  decidable_of_iff (db'.rules.lookup (A.w, A.rule.id) = some A.rule ∧
      (∀ row ∈ db'.articles.rows, row.1.1 = A.w → row.2.id = row.1.2) ∧
      (∀ row ∈ db.ruleEvaluations.rows, row.1 = ⟨A.w, row.1.articleId, A.rule.id, A.rule.version⟩ →
        A.Present db' row.1.articleId → (db'.ruleEvaluations.lookup row.1).isSome = true) ∧
      (∀ row ∈ db.ingestJobs.rows, A.Owns row.1 → ∃ j ∈ db'.ingestJobs.lookup row.1,
        j.item = row.2.item ∧ (j.status = .completed ↔ row.2.status = .completed)) ∧
      ∀ row ∈ db'.ingestJobs.rows, A.Owns row.1 → (db.ingestJobs.lookup row.1).isSome = true)
    ⟨fun h => ⟨h.1, h.2.1, h.2.2.1, h.2.2.2.1, h.2.2.2.2⟩, fun h => ⟨h.rule, h.articles, h.evaluations, h.jobs, h.newJobs⟩⟩

/-- One run of a job by a worker. -/
def batch (lease : LeasedWork) (now done : DateTime) (afterId throughId : Option ArticleId) : StoreTx Unit := do
  let _ ← applyRuleBatch A.P lease now A.w A.rule.id A.rule.version afterId throughId A.limit
  complete A.cfg done lease.jobId lease.token

/-- The world after a call that succeeded. -/
def called (s : ArchiveWorld) (articles : List ArticleId) (db : Db) : ArchiveWorld :=
  { s with
    db
    calls := s.calls ++ [articles.filter fun i => A.Present db i]
    archive := if (s.db.ingestJobs.lookup A.start).isSome then s.archive else (db.workspaceArticles A.w).map (·.1) }

/-- The world after a batch that committed. -/
def worked (s : ArchiveWorld) (afterId throughId : Option ArticleId) (db : Db) : ArchiveWorld :=
  { s with
    db
    boundary := s.boundary.or (throughId.or ((s.db.workspaceArticles A.w).getLast?.map (·.1)))
    log := s.log ++ (s.db.ruleBatch A.w afterId throughId A.limit).map (·.1)
    batches := s.batches + 1 }

/-- The world after another transaction. -/
def left (s : ArchiveWorld) (db : Db) : ArchiveWorld :=
  { s with
    db
    calls := s.calls.map fun articles => articles.filter fun i => A.Present db i
    archive := s.archive.filter fun i => A.Present db i }

def step (s : ArchiveWorld) : ArchiveOp → Option ArchiveWorld
  | .read => some { s with reads := s.reads ++ [(s.db.workspaceArticles A.w).map (·.2.id)] }
  | .enqueue articles now =>
    if articles ∈ s.reads then
      match enqueueRuleApplication A.w A.rule articles now s.db with
      | .ok (_, db) => some (A.called s articles db)
      | .error _ => some { s with refused := s.refused + 1 }
    else none
  | .work lease now done =>
    if A.Owns lease.jobId ∧ s.db.leaseCurrent lease now = true ∧
        (s.db.ingestJobs.lookup lease.jobId).map (·.item) = some lease.item then
      match A.bounds lease.item with
      | none => none
      | some (afterId, throughId) =>
        match A.batch lease now done afterId throughId s.db with
        | .ok (_, db) => some (A.worked s afterId throughId db)
        | .error e => some { s with failed := s.failed ++ [e] }
    else none
  | .other db =>
    if A.Leaves s.db db then some (A.left s db) else none

/-- The rule has not been applied in this version. -/
structure Fresh (s : ArchiveWorld) : Prop where
  rule : s.db.rules.lookup (A.w, A.rule.id) = some A.rule
  articles : ∀ row ∈ s.db.articles.rows, row.1.1 = A.w → row.2.id = row.1.2
  jobs : ∀ row ∈ s.db.ingestJobs.rows, ¬ A.Owns row.1
  calls : s.calls = []
  archive : s.archive = []
  boundary : s.boundary = none
  log : s.log = []
  batches : s.batches = 0
  refused : s.refused = 0
  failed : s.failed = []

/-! ## The chain -/

/-- The job of the chain that is to run next. -/
structure Open (s : ArchiveWorld) (id : JobId) (afterId throughId : Option ArticleId) : Prop where
  owns : A.Owns id
  job : ∃ j, s.db.ingestJobs.lookup id = some j ∧ j.item = A.item afterId throughId ∧ j.status ≠ .completed
  others : ∀ i j, A.Owns i → i ≠ id → s.db.ingestJobs.lookup i = some j → j.status = .completed
  cursors : ∀ c, (s.db.ingestJobs.lookup (.rule A.rule.id A.rule.version c)).isSome = true →
    ∃ a, afterId = some a ∧ c.uuid ≤ a.uuid
  first : afterId = none → s.log = [] ∧ s.batches = 0 ∧ s.boundary = none
  later : ∀ a, afterId = some a → (∀ i ∈ s.log, i.uuid ≤ a.uuid) ∧ s.batches ≤ a.uuid + 1 ∧
    ∃ t, throughId = some t ∧ s.boundary = some t ∧ a.uuid < t.uuid
  archive : ∀ i ∈ s.archive, throughId.all (i.uuid ≤ ·.uuid) = true → i ∈ s.log ∨ afterId.all (·.uuid < i.uuid) = true

/-- The last batch has committed. -/
structure Closed (s : ArchiveWorld) : Prop where
  jobs : ∀ i j, A.Owns i → s.db.ingestJobs.lookup i = some j → j.status = .completed
  batches : s.batches ≤ (s.boundary.map (·.uuid)).getD 0 + 1
  archive : ∀ i ∈ s.archive, s.boundary.all (i.uuid ≤ ·.uuid) = true → i ∈ s.log

/-- No call has started the chain. -/
structure Idle (s : ArchiveWorld) : Prop where
  jobs : ∀ i, A.Owns i → s.db.ingestJobs.lookup i = none
  log : s.log = []
  batches : s.batches = 0
  boundary : s.boundary = none
  archive : s.archive = []
  calls : s.calls = []

/-- The chain has one open job at a time and visits the articles in the order of their ids. -/
structure Chain (s : ArchiveWorld) : Prop where
  rule : s.db.rules.lookup (A.w, A.rule.id) = some A.rule
  ids : ∀ i a, s.db.articles.lookup (A.w, i) = some a → a.id = i
  present : ∀ i ∈ s.archive, A.Present s.db i
  calls : ∀ ids ∈ s.calls, ∀ i ∈ ids, A.Present s.db i
  sorted : s.log.Pairwise fun i j => i.uuid < j.uuid
  logged : ∀ i ∈ s.log, i ∈ s.archive → A.Evaluated s.db i
  started : A.Idle s ∨ (s.db.ingestJobs.lookup A.start).isSome = true
  phase : A.Idle s ∨ (∃ id afterId throughId, A.Open s id afterId throughId) ∨ A.Closed s

section
variable {A : Archive} {s s' : ArchiveWorld} {db db' : Db} {id i : JobId} {a : ArticleId}
  {afterId throughId : Option ArticleId} {lease : LeasedWork} {now done : DateTime}

theorem bounds_item : A.bounds (A.item afterId throughId) = some (afterId, throughId) := by
  simp [bounds, item]

theorem item_of_bounds {work : WorkItem} (h : A.bounds work = some (afterId, throughId)) :
    work = A.item afterId throughId := by
  unfold bounds at h
  split at h
  · split at h
    · rename_i he
      obtain ⟨rfl, rfl, rfl⟩ := he
      cases h
      rfl
    · cases h
  · cases h

theorem owns_start : A.Owns A.start := ⟨rfl, rfl, rfl⟩

theorem owns_cursor (c : ArticleId) : A.Owns (.rule A.rule.id A.rule.version c) := ⟨rfl, rfl⟩

theorem jobRules (hrule : db.rules.lookup (A.w, A.rule.id) = some A.rule) :
    (RuleJob.batch A.w A.rule.id A.rule.version afterId throughId A.limit).rules db = [A.rule] := by
  rw [RuleJob.rules_batch hrule, if_neg (by simp [A.enabled])]

/-! ## One batch -/

/-- What a batch that commits does to the database. -/
structure Batched (A : Archive) (db db' : Db) (id : JobId) (afterId throughId : Option ArticleId) : Prop where
  rules : db'.rules = db.rules
  texts : SameTexts db db'
  articles : ∀ i, db'.articles.lookup (A.w, i) =
    if i ∈ (db.ruleBatch A.w afterId throughId A.limit).map (·.1) then
      (db.articles.lookup (A.w, i)).map (db.afterRules A.P [A.rule])
    else db.articles.lookup (A.w, i)
  evaluations : db'.ruleEvaluations = (db.ruleBatch A.w afterId throughId A.limit).foldl
    (fun t row => t.insert ⟨A.w, row.2.id, A.rule.id, A.rule.version⟩ (db.ruleProvenance A.P A.rule row.2)) db.ruleEvaluations
  completed : ∃ j, db'.ingestJobs.lookup id = some j ∧ j.status = .completed ∧ j.item = A.item afterId throughId
  jobs : ∀ i, i ≠ id → db'.ingestJobs.lookup i = db.ingestJobs.lookup i ∨ (db.ingestJobs.lookup i = none ∧
    ∃ next ms origin, (RuleJob.batch A.w A.rule.id A.rule.version afterId throughId A.limit).nextJob db = some (i, next) ∧
      db'.ingestJobs.lookup i = some (.new next ms origin))
  next : ∀ i next, i ≠ id → (RuleJob.batch A.w A.rule.id A.rule.version afterId throughId A.limit).nextJob db = some (i, next) →
    ∃ j, db'.ingestJobs.lookup i = some j ∧ j.item = next

theorem afterRules_id (P : Platform) (db : Db) (rules : List Rule) (a : Article) : (db.afterRules P rules a).id = a.id := by
  unfold Db.afterRules
  dsimp only
  split <;> rfl

theorem batch_ok {u : Unit} (hrule : db.rules.lookup (A.w, A.rule.id) = some A.rule)
    (hitem : (db.ingestJobs.lookup lease.jobId).map (·.item) = some (A.item afterId throughId))
    (hrun : A.batch lease now done afterId throughId db = .ok (u, db')) :
    Batched A db db' lease.jobId afterId throughId := by
  obtain ⟨r, d, hbatch, hcomplete⟩ := bind_ok.1 hrun
  obtain ⟨row, hrow, -, -, rfl⟩ := complete_ok hcomplete
  obtain ⟨-, hdone⟩ := RuleJob.batch_ok hbatch
  obtain ⟨j, hj, hjitem⟩ := Option.map_eq_some_iff.1 hitem
  have hkeep : d.ingestJobs.lookup lease.jobId = some j := by
    rcases hdone.jobs lease.jobId with hsame | ⟨hnone, -⟩
    · rw [hsame, hj]
    · rw [hnone] at hj
      cases hj
  rw [hkeep] at hrow
  cases hrow
  have hkeeps : ∀ {γ : Type} {f : Db → γ}, OutsideRules f → f d = f db := fun hf =>
    applyRuleBatch_keeps hf _ _ _ _ _ _ _ _ _ _ _ hbatch
  refine ⟨?_, ⟨?_, ?_⟩, fun i => ?_, ?_, ?_, fun i hi => ?_, fun i next hi hnext => ?_⟩
  · show d.rules = db.rules
    exact hkeeps (f := Db.rules) ⟨fun _ _ => rfl, fun _ _ => rfl, fun _ _ => rfl⟩
  · exact hkeeps (f := Db.contentManifests) ⟨fun _ _ => rfl, fun _ _ => rfl, fun _ _ => rfl⟩
  · exact hkeeps (f := Db.stagedContentChunks) ⟨fun _ _ => rfl, fun _ _ => rfl, fun _ _ => rfl⟩
  · show d.articles.lookup (A.w, i) = _
    rw [hdone.articles, RuleJob.rows_batch (jobRules hrule), jobRules hrule]
    refine if_congr ?_ rfl rfl
    simp only [List.map_map, List.mem_map, Function.comp_apply, Prod.mk.injEq, true_and]
  · show d.ruleEvaluations = _
    exact applyRuleBatch_evaluations hrule A.enabled hbatch
  · refine ⟨row.finished _, by rw [Db.setJob, Table.lookup_insert_if, if_pos rfl], ?_⟩
    simp [Job.finished, hjitem, Archive.item, WorkItem.isRecurring]
  · rw [Db.setJob, Table.lookup_insert_if, if_neg hi]
    exact hdone.jobs i
  · rw [Db.setJob, Table.lookup_insert_if, if_neg hi]
    exact applyRuleBatch_next hrule A.enabled hbatch hnext

theorem Batched.ids (h : Batched A db db' id afterId throughId) (i : ArticleId) :
    (db'.articles.lookup (A.w, i)).map (·.id) = (db.articles.lookup (A.w, i)).map (·.id) := by
  rw [h.articles]
  split
  · rw [Option.map_map]
    congr 1
    funext b
    exact afterRules_id _ _ _ _
  · rfl

theorem Batched.present (h : Batched A db db' id afterId throughId) (a : ArticleId) : A.Present db' a ↔ A.Present db a := by
  have hsome := congrArg Option.isSome (h.ids a)
  rw [Option.isSome_map, Option.isSome_map] at hsome
  unfold Present
  rw [hsome]

theorem Batched.evaluated (h : Batched A db db' id afterId throughId) (hev : A.Evaluated db a) : A.Evaluated db' a := by
  unfold Evaluated at hev ⊢
  rw [h.evaluations, Table.lookup_foldl_insert]
  obtain ⟨v, hv⟩ := Option.isSome_iff_exists.1 hev
  rw [hv]
  cases (List.find? _ _ : Option (ArticleId × Article)) <;> rfl

/-- The articles of the batch are evaluated. -/
theorem Batched.evaluated_of_mem (h : Batched A db db' id afterId throughId)
    (hids : ∀ i a, db.articles.lookup (A.w, i) = some a → a.id = i)
    (ha : a ∈ (db.ruleBatch A.w afterId throughId A.limit).map (·.1)) : A.Evaluated db' a := by
  obtain ⟨row, hrow, rfl⟩ := List.mem_map.1 ha
  have hid : row.2.id = row.1 := hids _ _ (mem_ruleBatch hrow)
  unfold Evaluated
  rw [h.evaluations, Table.lookup_foldl_insert]
  cases hfind : (db.ruleBatch A.w afterId throughId A.limit).reverse.find? fun r =>
      (⟨A.w, r.2.id, A.rule.id, A.rule.version⟩ : RuleEvaluationKey) = ⟨A.w, row.1, A.rule.id, A.rule.version⟩ with
  | none => exact absurd (List.find?_eq_none.1 hfind row (List.mem_reverse.2 hrow)) (by simp [hid])
  | some r => rfl

/-! ## Steps of the chain -/

/-- An open job has a lease only under its own id. -/
theorem Open.eq_of_status (h : A.Open s id afterId throughId) {j : Job} (hi : A.Owns i)
    (hj : s.db.ingestJobs.lookup i = some j) (hstatus : j.status ≠ .completed) : i = id := by
  by_contra hne
  exact hstatus (h.others i j hi hne hj)

theorem Chain.open_of_job (h : A.Chain s) {j : Job} (hi : A.Owns i) (hj : s.db.ingestJobs.lookup i = some j)
    (hstatus : j.status ≠ .completed) (hitem : j.item = A.item afterId throughId) : A.Open s i afterId throughId := by
  rcases h.phase with hidle | ⟨id, a, t, hopen⟩ | hclosed
  · rw [hidle.jobs i hi] at hj
    cases hj
  · obtain rfl := hopen.eq_of_status hi hj hstatus
    obtain ⟨j', hj', hitem', -⟩ := hopen.job
    rw [hj] at hj'
    cases hj'
    rw [hitem] at hitem'
    have hbounds : A.bounds (A.item afterId throughId) = _ := bounds_item
    rw [hitem', bounds_item] at hbounds
    cases hbounds
    exact hopen
  · exact absurd (hclosed.jobs i j hi hj) hstatus

theorem Open.ahead (h : A.Open s id afterId throughId) :
    A.Ahead s.db a ↔ afterId.all (·.uuid < a.uuid) = true ∧ throughId.all (a.uuid ≤ ·.uuid) = true := by
  obtain ⟨j, hj, hitem, hstatus⟩ := h.job
  constructor
  · rintro ⟨row, hrow, howns, hopen, b, hb, hab⟩
    have hlookup := Table.mem_rows.1 hrow
    have hid : row.1 = id := h.eq_of_status howns hlookup hopen
    rw [hid, hj] at hlookup
    cases hlookup
    rw [hitem, bounds_item] at hb
    cases hb
    exact hab
  · intro hab
    exact ⟨(id, j), Table.mem_rows.2 hj, h.owns, hstatus, (afterId, throughId), by rw [hitem, bounds_item]; rfl, hab⟩

theorem not_ahead_of_closed (h : ∀ i j, A.Owns i → db.ingestJobs.lookup i = some j → j.status = .completed) :
    ¬ A.Ahead db a := by
  rintro ⟨row, hrow, howns, hopen, -⟩
  exact hopen (h row.1 row.2 howns (Table.mem_rows.1 hrow))

/-- The articles of the open job's batch. -/
def page (A : Archive) (s : ArchiveWorld) (afterId throughId : Option ArticleId) : List ArticleId :=
  (s.db.ruleBatch A.w afterId throughId A.limit).map (·.1)

/-- The cursor of a batch is its greatest article. -/
theorem Chain.cursor (h : A.Chain s) {c : ArticleId}
    (hc : (s.db.ruleBatch A.w afterId throughId A.limit).getLast?.map (·.2.id) = some c) :
    c ∈ A.page s afterId throughId ∧ ∀ i ∈ A.page s afterId throughId, i.uuid ≤ c.uuid := by
  obtain ⟨last, hlast, rfl⟩ := Option.map_eq_some_iff.1 hc
  have hmem := List.mem_of_getLast? hlast
  rw [h.ids _ _ (mem_ruleBatch hmem)]
  refine ⟨List.mem_map_of_mem hmem, fun i hi => ?_⟩
  obtain ⟨row, hrow, rfl⟩ := List.mem_map.1 hi
  obtain ⟨init, hinit⟩ := List.getLast?_eq_some_iff.1 hlast
  have hsorted : (s.db.ruleBatch A.w afterId throughId A.limit).Pairwise fun x y => x.1.uuid < y.1.uuid := pairwise_ruleBatch
  rw [hinit] at hsorted hrow
  rcases List.mem_append.1 hrow with hrow | hrow
  · exact le_of_lt ((List.pairwise_append.1 hsorted).2.2 _ hrow last (by simp))
  · rw [List.mem_singleton.1 hrow]

/-- An article that is ahead is on the page, or the page is full and ends before it. -/
theorem mem_page_or_later {t : ArticleId}
    (ht : throughId.or ((s.db.workspaceArticles A.w).getLast?.map (·.1)) = some t) (ha : A.Present s.db a)
    (hafter : afterId.all (·.uuid < a.uuid) = true) (hle : a.uuid ≤ t.uuid) :
    a ∈ A.page s afterId throughId ∨ ((s.db.ruleBatch A.w afterId throughId A.limit).length = A.limit ∧
      ∀ i ∈ A.page s afterId throughId, i.uuid < a.uuid) := by
  obtain ⟨article, harticle⟩ := Option.isSome_iff_exists.1 ha
  have hbatch : (a, article) ∈ s.db.ruleBatch A.w afterId throughId A.limit ∨ _ :=
    mem_ruleBatch_or_later ht harticle hafter hle
  rcases hbatch with hrow | ⟨hlen, hlater⟩
  · exact .inl (List.mem_map.2 ⟨_, hrow, rfl⟩)
  · refine .inr ⟨hlen, fun i hi => ?_⟩
    obtain ⟨row, hrow, rfl⟩ := List.mem_map.1 hi
    exact hlater row hrow

/-- The bound of a batch, once it is known, bounds every article that the job covers. -/
theorem le_through {t : ArticleId} (ht : throughId.or ((s.db.workspaceArticles A.w).getLast?.map (·.1)) = some t)
    (ha : A.Present s.db a) (hle : throughId.all (a.uuid ≤ ·.uuid) = true) : a.uuid ≤ t.uuid := by
  cases throughId with
  | some t' =>
    cases ht
    simpa using hle
  | none =>
    obtain ⟨article, harticle⟩ := Option.isSome_iff_exists.1 ha
    exact le_getLast_workspaceArticles ht harticle

/-- What the jobs are after a batch whose next job is `i`, or that has none. -/
theorem Open.completed (h : A.Open s id afterId throughId) (hb : Batched A s.db db' id afterId throughId) {j : Job}
    (hi : A.Owns i) (hj : db'.ingestJobs.lookup i = some j)
    (hnext : ∀ next, (RuleJob.batch A.w A.rule.id A.rule.version afterId throughId A.limit).nextJob s.db ≠ some (i, next)) :
    j.status = .completed := by
  by_cases hne : i = id
  · obtain ⟨j', hj', hstatus, -⟩ := hb.completed
    rw [hne, hj'] at hj
    cases hj
    exact hstatus
  · rcases hb.jobs i hne with hsame | ⟨-, next, ms, origin, hn, -⟩
    · rw [hsame] at hj
      exact h.others i j hi hne hj
    · exact absurd hn (hnext next)

/-- A batch that is followed by another one. -/
theorem Chain.worked_open (h : A.Chain s) (hopen : A.Open s id afterId throughId)
    (hb : Batched A s.db db' id afterId throughId) {t c : ArticleId}
    (ht : throughId.or ((s.db.workspaceArticles A.w).getLast?.map (·.1)) = some t)
    (hc : (s.db.ruleBatch A.w afterId throughId A.limit).getLast?.map (·.2.id) = some c)
    (hlen : (s.db.ruleBatch A.w afterId throughId A.limit).length = A.limit) (hct : c ≠ t) :
    A.Open (A.worked s afterId throughId db') (.rule A.rule.id A.rule.version c) (some c) (some t) := by
  have hnext := (RuleJob.nextJob_batch (jobRules h.rule) ht).2 ⟨c, hc, hlen, hct, rfl, rfl⟩
  obtain ⟨hcmem, hcmax⟩ := h.cursor hc
  obtain ⟨row, hrow, rfl⟩ := List.mem_map.1 hcmem
  obtain ⟨hafter, hle⟩ := mem_ruleBatch_bounds ht hrow
  -- the cursor lies behind every cursor that was used before
  have hnew : s.db.ingestJobs.lookup (.rule A.rule.id A.rule.version row.1) = none := by
    by_contra hsome
    obtain ⟨a, rfl, hca⟩ := hopen.cursors row.1 (Option.isSome_iff_ne_none.2 hsome)
    have : a.uuid < row.1.uuid := by simpa using hafter
    omega
  have hne : JobId.rule A.rule.id A.rule.version row.1 ≠ id := by
    rintro rfl
    obtain ⟨j, hj, -⟩ := hopen.job
    rw [hnew] at hj
    cases hj
  have hlt : row.1.uuid < t.uuid := by
    refine lt_of_le_of_ne hle fun he => hct ?_
    generalize row.1 = c at he
    obtain ⟨c⟩ := c
    obtain ⟨t⟩ := t
    exact congrArg ArticleId.mk he
  have hbatches : s.batches + 1 ≤ row.1.uuid + 1 := by
    cases afterId with
    | none => rw [(hopen.first rfl).2.1]; omega
    | some a =>
      have : a.uuid < row.1.uuid := by simpa using hafter
      have := (hopen.later a rfl).2.1
      omega
  refine ⟨owns_cursor _, ?_, fun i j hi hine hj => ?_, fun c' hc' => ?_, by simp, ?_, fun i hi hit => ?_⟩
  · obtain ⟨j, hj, hitem⟩ := hb.next _ _ hne hnext
    refine ⟨j, hj, hitem, ?_⟩
    rcases hb.jobs _ hne with hsame | ⟨-, next, ms, origin, -, hnewJob⟩
    · rw [hnew] at hsame
      exact absurd (hj.symm.trans hsame) (by simp)
    · have hj' : db'.ingestJobs.lookup _ = some j := hj
      rw [hnewJob] at hj'
      cases hj'
      simp [Job.new]
  · refine hopen.completed hb hi hj fun next hn => ?_
    rw [hnext] at hn
    cases hn
    exact hine rfl
  · by_cases he : c' = row.1
    · exact ⟨row.1, rfl, by rw [he]⟩
    · -- an older cursor
      refine ⟨row.1, rfl, ?_⟩
      have hold : (s.db.ingestJobs.lookup (.rule A.rule.id A.rule.version c')).isSome = true := by
        by_cases hid : JobId.rule A.rule.id A.rule.version c' = id
        · obtain ⟨j, hj, -⟩ := hopen.job
          rw [hid, hj]
          rfl
        · rcases hb.jobs _ hid with hsame | ⟨-, next, ms, origin, hn, -⟩
          · rw [← hsame]
            exact hc'
          · rw [hnext] at hn
            cases hn
            exact absurd rfl he
      obtain ⟨a, rfl, hca⟩ := hopen.cursors c' hold
      have : a.uuid < row.1.uuid := by simpa using hafter
      omega
  · rintro a ha
    cases ha
    refine ⟨fun i hi => ?_, hbatches, t, rfl, ?_, hlt⟩
    · rcases List.mem_append.1 hi with hlog | hpage
      · cases afterId with
        | none =>
          rw [(hopen.first rfl).1] at hlog
          cases hlog
        | some a =>
          have : a.uuid < row.1.uuid := by simpa using hafter
          have := (hopen.later a rfl).1 i hlog
          omega
      · exact hcmax i hpage
    · show s.boundary.or _ = some t
      cases afterId with
      | none => rw [(hopen.first rfl).2.2, Option.none_or, ht]
      | some a =>
        obtain ⟨t', rfl, hbound, -⟩ := (hopen.later a rfl).2.2
        cases ht
        rw [hbound]
        rfl
  · have hit' : i.uuid ≤ t.uuid := by simpa using hit
    have hthrough : throughId.all (i.uuid ≤ ·.uuid) = true := by
      cases throughId with
      | none => rfl
      | some t' =>
        cases ht
        simpa using hit'
    rcases hopen.archive i hi hthrough with hlog | hahead
    · exact .inl (List.mem_append_left _ hlog)
    · rcases mem_page_or_later ht (h.present i hi) hahead hit' with hpage | ⟨-, hlater⟩
      · exact .inl (List.mem_append_right _ hpage)
      · exact .inr (by simpa using hlater _ hcmem)

/-- The last page holds everything that is ahead. -/
theorem Chain.page_of_last (h : A.Chain s)
    (hlast : (RuleJob.batch A.w A.rule.id A.rule.version afterId throughId A.limit).nextJob s.db = none)
    (ha : A.Present s.db a) (hafter : afterId.all (·.uuid < a.uuid) = true)
    (hle : throughId.all (a.uuid ≤ ·.uuid) = true) : a ∈ A.page s afterId throughId := by
  obtain ⟨article, harticle⟩ := Option.isSome_iff_exists.1 ha
  cases ht : throughId.or ((s.db.workspaceArticles A.w).getLast?.map (·.1)) with
  | none =>
    have hempty : (s.db.workspaceArticles A.w).getLast? = none := by simpa using (Option.or_eq_none_iff.1 ht).2
    have hmem : (a, article) ∈ s.db.workspaceArticles A.w := mem_workspaceArticles.2 harticle
    rw [List.getLast?_eq_none_iff.1 hempty] at hmem
    cases hmem
  | some t =>
    rcases mem_page_or_later ht ha hafter (le_through ht ha hle) with hpage | ⟨hlen, hlater⟩
    · exact hpage
    · -- a full page that has no next one ends at the bound
      exfalso
      have hne : s.db.ruleBatch A.w afterId throughId A.limit ≠ [] := by
        intro hnil
        rw [hnil] at hlen
        have := A.positive
        simp at hlen
        omega
      obtain ⟨last, hlastRow⟩ := Option.isSome_iff_exists.1 (List.getLast?_isSome.2 hne)
      have hc : (s.db.ruleBatch A.w afterId throughId A.limit).getLast?.map (·.2.id) = some last.2.id := by rw [hlastRow]; rfl
      by_cases hct : last.2.id = t
      · have := hlater _ (h.cursor hc).1
        have := le_through ht ha hle
        rw [hct] at *
        omega
      · have hnext := (RuleJob.nextJob_batch (jobRules h.rule) ht).2 ⟨_, hc, hlen, hct, rfl, rfl⟩
        rw [hlast] at hnext
        cases hnext

/-- The last batch. -/
theorem Chain.worked_closed (h : A.Chain s) (hopen : A.Open s id afterId throughId)
    (hb : Batched A s.db db' id afterId throughId)
    (hlast : (RuleJob.batch A.w A.rule.id A.rule.version afterId throughId A.limit).nextJob s.db = none) :
    A.Closed (A.worked s afterId throughId db') := by
  refine ⟨fun i j hi hj => hopen.completed hb hi hj fun next hn => ?_, ?_, fun i hi hbound => ?_⟩
  · rw [hlast] at hn
    cases hn
  · show s.batches + 1 ≤ ((s.boundary.or _).map (·.uuid)).getD 0 + 1
    cases afterId with
    | none =>
      rw [(hopen.first rfl).2.1]
      omega
    | some a =>
      obtain ⟨-, hbatches, t, -, hbound, hlt⟩ := hopen.later a rfl
      rw [hbound]
      simp only [Option.some_or, Option.map_some, Option.getD_some]
      omega
  · have hle : throughId.all (i.uuid ≤ ·.uuid) = true := by
      cases throughId with
      | none => rfl
      | some t =>
        have hbound' : (s.boundary.or (some t)).all (i.uuid ≤ ·.uuid) = true := hbound
        cases afterId with
        | none => rwa [(hopen.first rfl).2.2, Option.none_or] at hbound'
        | some a =>
          obtain ⟨-, -, t', ht', hsome, -⟩ := hopen.later a rfl
          cases ht'
          rwa [hsome, Option.some_or] at hbound'
    rcases hopen.archive i hi hle with hlog | hahead
    · exact List.mem_append_left _ hlog
    · exact List.mem_append_right _ (h.page_of_last hlast (h.present i hi) hahead hle)

/-- After a batch another job is open, which covers what the batch left, or the chain is closed. -/
theorem Chain.worked_phase (h : A.Chain s) (hopen : A.Open s id afterId throughId)
    (hb : Batched A s.db db' id afterId throughId) :
    (∃ c t, A.Open (A.worked s afterId throughId db') (.rule A.rule.id A.rule.version c) (some c) (some t) ∧
        ∀ a, A.Present s.db a → A.Ahead s.db a → a ∈ A.page s afterId throughId ∨ (c.uuid < a.uuid ∧ a.uuid ≤ t.uuid)) ∨
      (A.Closed (A.worked s afterId throughId db') ∧
        ∀ a, A.Present s.db a → A.Ahead s.db a → a ∈ A.page s afterId throughId) := by
  cases hnext : (RuleJob.batch A.w A.rule.id A.rule.version afterId throughId A.limit).nextJob s.db with
  | none =>
    refine .inr ⟨h.worked_closed hopen hb hnext, fun a ha hahead => ?_⟩
    obtain ⟨hafter, hle⟩ := hopen.ahead.1 hahead
    exact h.page_of_last hnext ha hafter hle
  | some next =>
    cases ht : throughId.or ((s.db.workspaceArticles A.w).getLast?.map (·.1)) with
    | none =>
      simp only [RuleJob.nextJob, jobRules h.rule, ht] at hnext
      cases hnext
    | some t =>
      obtain ⟨i, next⟩ := next
      obtain ⟨c, hc, hlen, hct, rfl, rfl⟩ := (RuleJob.nextJob_batch (jobRules h.rule) ht).1 hnext
      refine .inl ⟨c, t, h.worked_open hopen hb ht hc hlen hct, fun a ha hahead => ?_⟩
      obtain ⟨hafter, hle⟩ := hopen.ahead.1 hahead
      have hat := le_through ht ha hle
      rcases mem_page_or_later ht ha hafter hat with hpage | ⟨-, hlater⟩
      · exact .inl hpage
      · exact .inr ⟨hlater c (h.cursor hc).1, hat⟩

theorem Chain.worked (h : A.Chain s) (hopen : A.Open s id afterId throughId)
    (hb : Batched A s.db db' id afterId throughId) : A.Chain (A.worked s afterId throughId db') := by
  have hsorted : (A.page s afterId throughId).Pairwise fun i j => i.uuid < j.uuid := List.pairwise_map.2 pairwise_ruleBatch
  have hafter : ∀ i ∈ A.page s afterId throughId, afterId.all (·.uuid < i.uuid) = true := by
    intro i hi
    obtain ⟨row, hrow, rfl⟩ := List.mem_map.1 hi
    cases ht : throughId.or ((s.db.workspaceArticles A.w).getLast?.map (·.1)) with
    | none =>
      simp only [Db.ruleBatch, ht] at hrow
      cases hrow
    | some t => exact (mem_ruleBatch_bounds ht hrow).1
  refine ⟨?_, fun i a ha => ?_, fun i hi => (hb.present i).2 (h.present i hi), fun ids hids i hi =>
    (hb.present i).2 (h.calls ids hids i hi), ?_, fun i hi harchive => ?_, ?_, ?_⟩
  · show db'.rules.lookup _ = _
    rw [hb.rules]
    exact h.rule
  · have hid := hb.ids i
    have ha' : db'.articles.lookup (A.w, i) = some a := ha
    rw [ha'] at hid
    obtain ⟨b, hb', hba⟩ := Option.map_eq_some_iff.1 hid.symm
    exact hba.symm.trans (h.ids i b hb')
  · refine List.pairwise_append.2 ⟨h.sorted, hsorted, fun i hi j hj => ?_⟩
    cases afterId with
    | none =>
      rw [(hopen.first rfl).1] at hi
      cases hi
    | some a =>
      have := (hopen.later a rfl).1 i hi
      have : a.uuid < j.uuid := by simpa using hafter j hj
      omega
  · rcases List.mem_append.1 hi with hlog | hpage
    · exact hb.evaluated (h.logged i hlog harchive)
    · exact hb.evaluated_of_mem h.ids hpage
  · refine .inr ?_
    show (db'.ingestJobs.lookup A.start).isSome = true
    by_cases hid : A.start = id
    · obtain ⟨j, hj, -⟩ := hb.completed
      rw [hid, hj]
      rfl
    · rcases hb.jobs _ hid with hsame | ⟨-, next, ms, origin, -, hnew⟩
      · rw [hsame]
        rcases h.started with hidle | hstarted
        · obtain ⟨j, hj, -⟩ := hopen.job
          rw [hidle.jobs id hopen.owns] at hj
          cases hj
        · exact hstarted
      · rw [hnew]
        rfl
  · rcases h.worked_phase hopen hb with ⟨c, t, hnext, -⟩ | ⟨hclosed, -⟩
    · exact .inr (.inl ⟨_, _, _, hnext⟩)
    · exact .inr (.inr hclosed)

/-- The call that starts the chain. -/
theorem Chain.enqueue_new (h : A.Chain s) (hidle : A.Idle s) (articles : List ArticleId) (throughId : Option ArticleId)
    (ms : Int) (origin : OriginKey) :
    A.Chain (A.called s articles (s.db.setJob A.start (.new (A.item none throughId) ms origin))) ∧
      A.Open (A.called s articles (s.db.setJob A.start (.new (A.item none throughId) ms origin))) A.start none throughId := by
  have hlookup : ∀ i, (s.db.setJob A.start (.new (A.item none throughId) ms origin)).ingestJobs.lookup i =
      if i = A.start then some (.new (A.item none throughId) ms origin) else s.db.ingestJobs.lookup i := fun i => by
    rw [Db.setJob, Table.lookup_insert_if]
  have hopen : A.Open (A.called s articles (s.db.setJob A.start (.new (A.item none throughId) ms origin))) A.start none
      throughId := by
    refine ⟨owns_start, ⟨_, (hlookup _).trans (if_pos rfl), rfl, by simp [Job.new]⟩, fun i j hi hne hj => ?_, fun c hc => ?_,
      fun _ => ⟨hidle.log, hidle.batches, hidle.boundary⟩, by simp, fun i hi hle => .inr rfl⟩
    · have hj' := (hlookup i).symm.trans hj
      rw [if_neg hne, hidle.jobs i hi] at hj'
      cases hj'
    · have hc' := hc
      have hnone := (hlookup (.rule A.rule.id A.rule.version c)).trans (if_neg (by simp [start]))
      rw [hidle.jobs _ (owns_cursor c)] at hnone
      exact absurd (hc'.symm.trans (congrArg Option.isSome hnone)) (by simp)
  refine ⟨⟨h.rule, h.ids, fun i hi => ?_, fun ids hids i hi => ?_, h.sorted, ?_, .inr ?_, .inr (.inl ⟨_, _, _, hopen⟩)⟩, hopen⟩
  · have hnone : ¬ (s.db.ingestJobs.lookup A.start).isSome = true := by rw [hidle.jobs _ owns_start]; simp
    simp only [called, if_neg hnone] at hi
    obtain ⟨row, hrow, rfl⟩ := List.mem_map.1 hi
    exact Option.isSome_iff_exists.2 ⟨row.2, mem_workspaceArticles.1 hrow⟩
  · rcases List.mem_append.1 hids with hids | hids
    · exact h.calls ids hids i hi
    · rw [List.mem_singleton.1 hids] at hi
      exact of_decide_eq_true (List.mem_filter.1 hi).2
  · intro i hi
    have hi' : i ∈ s.log := hi
    rw [hidle.log] at hi'
    cases hi'
  · exact congrArg Option.isSome ((hlookup A.start).trans (if_pos rfl))

/-- A later call finds its job. -/
theorem Chain.enqueue_old (h : A.Chain s) (hstarted : (s.db.ingestJobs.lookup A.start).isSome = true)
    (articles : List ArticleId) : A.Chain (A.called s articles s.db) := by
  have harchive : (A.called s articles s.db).archive = s.archive := by
    simp only [called, hstarted, if_true]
  have hidle : ¬ A.Idle s := by
    intro hidle
    rw [hidle.jobs _ owns_start] at hstarted
    cases hstarted
  refine ⟨h.rule, h.ids, fun i hi => h.present i (harchive ▸ hi), fun ids hids i hi => ?_, h.sorted,
    fun i hi hin => h.logged i hi (harchive ▸ hin), .inr hstarted, ?_⟩
  · rcases List.mem_append.1 hids with hids | hids
    · exact h.calls ids hids i hi
    · rw [List.mem_singleton.1 hids] at hi
      exact of_decide_eq_true (List.mem_filter.1 hi).2
  · rcases h.phase with hi | ⟨id, a, t, ho⟩ | hc
    · exact absurd hi hidle
    · exact .inr (.inl ⟨id, a, t, ho.owns, ho.job, ho.others, ho.cursors, ho.first, ho.later,
        fun i hi => ho.archive i (harchive ▸ hi)⟩)
    · exact .inr (.inr ⟨hc.jobs, hc.batches, fun i hi => hc.archive i (harchive ▸ hi)⟩)

/-! ## Other transactions -/

theorem Leaves.lookup (h : A.Leaves db db') (hi : A.Owns i) {j : Job} (hj : db.ingestJobs.lookup i = some j) :
    ∃ j', db'.ingestJobs.lookup i = some j' ∧ j'.item = j.item ∧ (j'.status = .completed ↔ j.status = .completed) :=
  h.jobs (i, j) (Table.mem_rows.2 hj) hi

theorem Leaves.lookup_new (h : A.Leaves db db') (hi : A.Owns i) {j : Job} (hj : db'.ingestJobs.lookup i = some j) :
    ∃ j', db.ingestJobs.lookup i = some j' ∧ j.item = j'.item ∧ (j.status = .completed ↔ j'.status = .completed) := by
  obtain ⟨j', hj'⟩ := Option.isSome_iff_exists.1 (h.newJobs (i, j) (Table.mem_rows.2 hj) hi)
  obtain ⟨j'', hj'', hitem, hstatus⟩ := h.lookup hi hj'
  rw [hj] at hj''
  cases hj''
  exact ⟨j', hj', hitem, hstatus⟩

theorem Leaves.evaluated (h : A.Leaves db db') (hp : A.Present db' a) (he : A.Evaluated db a) : A.Evaluated db' a := by
  obtain ⟨v, hv⟩ := Option.isSome_iff_exists.1 he
  exact h.evaluations (_, v) (Table.mem_rows.2 hv) rfl hp

theorem Leaves.ahead (h : A.Leaves db db') : A.Ahead db a → A.Ahead db' a := by
  rintro ⟨row, hrow, howns, hopen, b, hb, hab⟩
  obtain ⟨j, hj, hitem, hstatus⟩ := h.lookup howns (Table.mem_rows.1 hrow)
  exact ⟨(row.1, j), Table.mem_rows.2 hj, howns, fun hc => hopen (hstatus.1 hc), b, by rw [hitem]; exact hb, hab⟩

theorem Chain.other (h : A.Chain s) (hl : A.Leaves s.db db) : A.Chain (A.left s db) := by
  have hsome : ∀ i, A.Owns i → (db.ingestJobs.lookup i).isSome = (s.db.ingestJobs.lookup i).isSome := by
    intro i hi
    cases hj : s.db.ingestJobs.lookup i with
    | some j =>
      obtain ⟨j', hj', -⟩ := hl.lookup hi hj
      rw [hj']
      rfl
    | none =>
      cases hj' : db.ingestJobs.lookup i with
      | none => rfl
      | some j' =>
        obtain ⟨j, hj'', -⟩ := hl.lookup_new hi hj'
        rw [hj] at hj''
        cases hj''
  have hidle : A.Idle s → A.Idle (A.left s db) := by
    intro hidle
    refine ⟨fun i hi => ?_, hidle.log, hidle.batches, hidle.boundary, by simp [left, hidle.archive],
      by simp [left, hidle.calls]⟩
    have hnone := hsome i hi
    rw [hidle.jobs i hi] at hnone
    show db.ingestJobs.lookup i = none
    exact Option.not_isSome_iff_eq_none.1 (by rw [hnone]; simp)
  refine ⟨hl.rule, fun i a ha => hl.articles _ (Table.mem_rows.2 ha) rfl, fun i hi => ?_, fun ids hids i hi => ?_, h.sorted,
    fun i hi harchive => ?_, ?_, ?_⟩
  · exact of_decide_eq_true (List.mem_filter.1 hi).2
  · obtain ⟨ids', -, rfl⟩ := List.mem_map.1 hids
    exact of_decide_eq_true (List.mem_filter.1 hi).2
  · obtain ⟨harchive, hp⟩ := List.mem_filter.1 harchive
    exact hl.evaluated (of_decide_eq_true hp) (h.logged i hi harchive)
  · exact h.started.imp hidle fun hs => by rw [show (A.left s db).db = db from rfl, hsome _ owns_start]; exact hs
  · rcases h.phase with hi | ⟨id, afterId, throughId, ho⟩ | hc
    · exact .inl (hidle hi)
    · obtain ⟨j, hj, hitem, hstatus⟩ := ho.job
      obtain ⟨j', hj', hitem', hstatus'⟩ := hl.lookup ho.owns hj
      refine .inr (.inl ⟨id, afterId, throughId, ho.owns, ⟨j', hj', hitem'.trans hitem, fun hc => hstatus (hstatus'.1 hc)⟩,
        fun i j hi hne hj => ?_, fun c hc => ho.cursors c ?_, ho.first, ho.later, fun i hi => ho.archive i (List.mem_filter.1 hi).1⟩)
      · obtain ⟨j₁, hj₁, -, hst⟩ := hl.lookup_new hi hj
        exact hst.2 (ho.others i j₁ hi hne hj₁)
      · rw [← hsome _ (owns_cursor c)]
        exact hc
    · refine .inr (.inr ⟨fun i j hi hj => ?_, hc.batches, fun i hi => hc.archive i (List.mem_filter.1 hi).1⟩)
      obtain ⟨j₁, hj₁, -, hst⟩ := hl.lookup_new hi hj
      exact hst.2 (hc.jobs i j₁ hi hj₁)

end
end Archive
end Inoreader
