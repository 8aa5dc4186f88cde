import Inoreader.Rules.Jobs

/-!
# The order of rule jobs

Rule jobs of different rules can be executed in any order: whether a job commits, and which articles it
marks, is decided by the database before all of them (`RuleJob.Marks`), because a marked article stays
as it is for every other job (`RulesRun`).
-/

namespace Inoreader
open Lib Tx

/-- The document is unchanged, or it was marked as read. -/
def MarkStep (a a' : Article) : Prop :=
  a' = a ∨ (a.state.read = false ∧ a.state.protectUnread = false ∧ min (a.revision + 1) (2 ^ 64 - 1) ≤ bigintMax ∧
    a' = { a with state := { a.state with read := true }, revision := min (a.revision + 1) (2 ^ 64 - 1) })

/-- The database after some rule jobs; `new` are the ids of the jobs they enqueued. -/
structure RulesRun (new : JobId → Prop) (db d : Db) : Prop where
  rules : d.rules = db.rules
  texts : SameTexts db d
  articles : ∀ k, (db.articles.lookup k = none ∧ d.articles.lookup k = none) ∨
    ∃ a a', db.articles.lookup k = some a ∧ d.articles.lookup k = some a' ∧ MarkStep a a'
  jobs : ∀ i, d.ingestJobs.lookup i = db.ingestJobs.lookup i ∨ (db.ingestJobs.lookup i = none ∧ new i ∧
    ∃ item ms origin, d.ingestJobs.lookup i = some (.new item ms origin))

/-- The job marks the article, if it is unread. -/
def RuleJob.Marks (P : Platform) (db : Db) (job : RuleJob) (k : ArticleKey) : Prop :=
  ∃ a, (k, a) ∈ job.rows db ∧ a.state.protectUnread = false ∧
    ∃ r ∈ job.rules db, r.isMatch P.lowercase a.key.title (db.fullText a) = true

section
variable {P : Platform} {db d d' : Db} {a a' : Article} {rules : List Rule} {new : JobId → Prop} {job : RuleJob}
  {lease : LeasedWork} {now : DateTime}

theorem MarkStep.fields (h : MarkStep a a') :
    a'.id = a.id ∧ a'.key = a.key ∧ a'.origins = a.origins ∧ a'.state.protectUnread = a.state.protectUnread := by
  rcases h with rfl | ⟨-, -, -, rfl⟩
  · exact ⟨rfl, rfl, rfl, rfl⟩
  · exact ⟨rfl, rfl, rfl, rfl⟩

theorem MarkStep.trans {a'' : Article} (h : MarkStep a a') (h' : MarkStep a' a'') : MarkStep a a'' := by
  rcases h with rfl | ⟨hread, hprotect, hrev, rfl⟩
  · exact h'
  · rcases h' with rfl | ⟨hread', -⟩
    · exact .inr ⟨hread, hprotect, hrev, rfl⟩
    · cases hread'

/-- The text of an article depends on its origins only. -/
theorem fullText_congr (h : a'.origins = a.origins) : db.fullText a' = db.fullText a := by
  simp only [Db.fullText, articleFullText, h]

theorem RulesRun.fullText (h : RulesRun new db d) (hstep : MarkStep a a') : d.fullText a' = db.fullText a := by
  rw [h.texts.fullText, fullText_congr hstep.fields.2.2.1]

theorem MarkStep.afterRules (h : db.RowReady P rules a) : MarkStep a (db.afterRules P rules a) := by
  unfold Db.afterRules
  by_cases hsame : applyRules P a.key.title (db.fullText a) rules a.state = a.state
  · rw [if_pos hsame]
    exact .inl rfl
  · rw [if_neg hsame]
    have hrev := h.revision hsame
    rw [applyRules_eq] at hsame ⊢
    split at hsame
    · rename_i hmark
      rw [if_pos hmark]
      refine .inr ⟨?_, hmark.1, hrev, rfl⟩
      by_contra hread
      rw [Bool.not_eq_false] at hread
      exact hsame (by rw [← hread])
    · exact absurd rfl hsame

/-- A row is ready before the other jobs exactly if it is after them. -/
theorem RulesRun.rowReady (h : RulesRun new db d) (hstep : MarkStep a a') :
    d.RowReady P rules a' ↔ db.RowReady P rules a := by
  have htext := h.fullText hstep
  obtain ⟨-, hkey, horigins, -⟩ := hstep.fields
  have hfull : ∀ d : Db, articleFullText a' d = articleFullText a d := by
    intro d
    simp only [articleFullText, horigins]
  have hready : ∀ r, Rule.ContentReady P r a' (d.fullText a') ↔ Rule.ContentReady P r a (db.fullText a) := by
    intro r
    rw [htext, Rule.ContentReady, Rule.ContentReady, hkey]
  constructor
  · rintro ⟨⟨text, ht⟩, hdecided, hversion, hrevision⟩
    refine ⟨⟨text, ?_⟩, fun r hr => (hready r).1 (hdecided r hr), hversion, fun hne => ?_⟩
    · rw [hfull] at ht
      exact h.texts.symm.articleFullText ht
    · rcases hstep with rfl | ⟨-, -, hrev, -⟩
      · exact hrevision (by rw [htext]; exact hne)
      · exact hrev
  · rintro ⟨⟨text, ht⟩, hdecided, hversion, hrevision⟩
    refine ⟨⟨text, ?_⟩, fun r hr => (hready r).2 (hdecided r hr), hversion, fun hne => ?_⟩
    · rw [hfull]
      exact h.texts.articleFullText ht
    · rcases hstep with rfl | ⟨-, -, -, rfl⟩
      · exact hrevision (by rw [← htext]; exact hne)
      · -- the article is read already, so no rule changes it
        refine absurd ?_ hne
        rw [applyRules_eq]
        split <;> rfl

/-! ## The rows and the rules of a job -/

theorem RulesRun.lookup_id (h : RulesRun new db d) (k : ArticleKey) :
    (d.articles.lookup k).map (·.id) = (db.articles.lookup k).map (·.id) := by
  rcases h.articles k with ⟨hnone, hnone'⟩ | ⟨a, a', ha, ha', hstep⟩
  · rw [hnone, hnone']
  · rw [ha, ha', Option.map_some, Option.map_some, hstep.fields.1]

theorem RulesRun.isSome (h : RulesRun new db d) (k : ArticleKey) :
    (d.articles.lookup k).isSome = (db.articles.lookup k).isSome := by
  have := congrArg Option.isSome (h.lookup_id k)
  rwa [Option.isSome_map, Option.isSome_map] at this

theorem RulesRun.articleIds (h : RulesRun new db d) (w : WorkspaceId) :
    (d.workspaceArticles w).map (·.1) = (db.workspaceArticles w).map (·.1) := by
  have hmem : ∀ (e : Db) (i : ArticleId), i ∈ (e.workspaceArticles w).map (·.1) ↔ (e.articles.lookup (w, i)).isSome := by
    intro e i
    rw [List.mem_map, Option.isSome_iff_exists]
    constructor
    · rintro ⟨row, hrow, rfl⟩
      exact ⟨row.2, mem_workspaceArticles.1 hrow⟩
    · rintro ⟨a, ha⟩
      exact ⟨(i, a), mem_workspaceArticles.2 ha, rfl⟩
  have hperm : List.Perm ((d.workspaceArticles w).map (·.1)) ((db.workspaceArticles w).map (·.1)) := by
    refine (List.perm_ext_iff_of_nodup (nodup_workspaceArticles d) (nodup_workspaceArticles db)).2 fun i => ?_
    rw [hmem, hmem, h.isSome]
  refine hperm.eq_of_pairwise (fun x y _ _ hxy hyx => ?_) (articleIds_increasing d w) (articleIds_increasing db w)
  exact absurd hyx (Nat.lt_asymm hxy)

theorem RulesRun.batchIds (h : RulesRun new db d) (w : WorkspaceId) (afterId throughId : Option ArticleId) (limit : Nat) :
    (d.ruleBatch w afterId throughId limit).map (·.1) = (db.ruleBatch w afterId throughId limit).map (·.1) := by
  have hids := h.articleIds w
  have hthrough : (d.workspaceArticles w).getLast?.map (·.1) = (db.workspaceArticles w).getLast?.map (·.1) := by
    rw [← List.getLast?_map, ← List.getLast?_map, hids]
  have hcut : ∀ (e : Db) (through : ArticleId), (((e.workspaceArticles w).filter fun row =>
      afterId.all (·.uuid < row.1.uuid) ∧ row.1.uuid ≤ through.uuid).take limit).map (·.1) =
      (((e.workspaceArticles w).map (·.1)).filter fun i => afterId.all (·.uuid < i.uuid) ∧ i.uuid ≤ through.uuid).take limit := by
    intro e through
    rw [List.map_take, List.filter_map]
    rfl
  simp only [Db.ruleBatch, hthrough]
  cases throughId.or ((db.workspaceArticles w).getLast?.map (·.1)) with
  | none => rfl
  | some through => rw [hcut, hcut, hids]

/-- The document id of the last row of a batch. -/
theorem batch_getLast_id (db : Db) (w : WorkspaceId) (afterId throughId : Option ArticleId) (limit : Nat) :
    (db.ruleBatch w afterId throughId limit).getLast?.map (·.2.id) =
      ((db.ruleBatch w afterId throughId limit).map (·.1)).getLast?.bind fun i => (db.articles.lookup (w, i)).map (·.id) := by
  rw [List.getLast?_map]
  cases hlast : (db.ruleBatch w afterId throughId limit).getLast? with
  | none => rfl
  | some row =>
    simp only [Option.map_some, Option.bind_some]
    rw [mem_ruleBatch (List.mem_of_getLast? hlast)]
    rfl

theorem RulesRun.jobRules (h : RulesRun new db d) (job : RuleJob) : job.rules d = job.rules db := by
  cases job with
  | evaluate w id evaluations => simp only [RuleJob.rules, Db.validRules, h.rules]
  | batch w rule version afterId throughId limit => simp only [RuleJob.rules, h.rules]

theorem RulesRun.nextJob (h : RulesRun new db d) (job : RuleJob) : job.nextJob d = job.nextJob db := by
  cases job with
  | evaluate w id evaluations => rfl
  | batch w rule version afterId throughId limit =>
    have hthrough : (d.workspaceArticles w).getLast?.map (·.1) = (db.workspaceArticles w).getLast?.map (·.1) := by
      rw [← List.getLast?_map, ← List.getLast?_map, h.articleIds]
    have hlen : (d.ruleBatch w afterId throughId limit).length = (db.ruleBatch w afterId throughId limit).length := by
      have := congrArg List.length (h.batchIds w afterId throughId limit)
      rwa [List.length_map, List.length_map] at this
    have hcursor : (d.ruleBatch w afterId throughId limit).getLast?.map (·.2.id) =
        (db.ruleBatch w afterId throughId limit).getLast?.map (·.2.id) := by
      rw [batch_getLast_id, batch_getLast_id, h.batchIds]
      simp only [h.lookup_id]
    simp only [RuleJob.nextJob, h.jobRules, hthrough, hlen, hcursor]

theorem RulesRun.rowKeys (h : RulesRun new db d) (job : RuleJob) :
    (job.rows d).map (·.1) = (job.rows db).map (·.1) := by
  cases job with
  | evaluate w id evaluations =>
    have := h.isSome (w, id)
    simp only [RuleJob.rows]
    cases hd : d.articles.lookup (w, id) <;> cases hdb : db.articles.lookup (w, id) <;> simp_all
  | batch w rule version afterId throughId limit =>
    simp only [RuleJob.rows, h.jobRules]
    split
    · rfl
    · have hkeys : ∀ e : Db, ((e.ruleBatch w afterId throughId limit).map fun row => ((w, row.1), row.2)).map (·.1) =
          ((e.ruleBatch w afterId throughId limit).map (·.1)).map fun i => (w, i) := by
        intro e
        rw [List.map_map, List.map_map]
        rfl
      rw [hkeys, hkeys, h.batchIds]

/-- The rows of a job are the same before and after the other jobs, up to the mark. -/
theorem RulesRun.mem_rows (h : RulesRun new db d) {k : ArticleKey} (ha : (k, a) ∈ job.rows db) :
    ∃ a', (k, a') ∈ job.rows d ∧ MarkStep a a' := by
  have hstored := job.lookup_of_mem_rows ha
  rcases h.articles k with ⟨hnone, -⟩ | ⟨b, a', hb, ha', hstep⟩
  · rw [hnone] at hstored
    cases hstored
  · rw [hstored] at hb
    cases hb
    refine ⟨a', ?_, hstep⟩
    have hkey : k ∈ (job.rows d).map (·.1) := by
      rw [h.rowKeys]
      exact List.mem_map.2 ⟨(k, a), ha, rfl⟩
    obtain ⟨row, hrow, rfl⟩ := List.mem_map.1 hkey
    have hrow' := job.lookup_of_mem_rows hrow
    rw [ha'] at hrow'
    cases hrow'
    exact hrow

theorem RulesRun.mem_rows' (h : RulesRun new db d) {k : ArticleKey} (ha : (k, a') ∈ job.rows d) :
    ∃ a, (k, a) ∈ job.rows db ∧ MarkStep a a' := by
  have hkey : k ∈ (job.rows db).map (·.1) := by
    rw [← h.rowKeys]
    exact List.mem_map.2 ⟨(k, a'), ha, rfl⟩
  obtain ⟨⟨k', a⟩, hrow, rfl⟩ := List.mem_map.1 hkey
  obtain ⟨a'', ha'', hstep⟩ := h.mem_rows hrow
  have h₁ := job.lookup_of_mem_rows ha
  have h₂ := job.lookup_of_mem_rows ha''
  rw [h₁] at h₂
  cases h₂
  exact ⟨a, hrow, hstep⟩

/-! ## Runs -/

theorem RulesRun.leaseCurrent (h : RulesRun new db d) : d.leaseCurrent lease now = db.leaseCurrent lease now := by
  unfold Db.leaseCurrent
  rcases h.jobs lease.jobId with hsame | ⟨hnone, -, item, ms, origin, hnew⟩
  · rw [hsame]
  · rw [hnone, hnew]
    rfl

/-- A job is ready after the other jobs exactly if it was before them. -/
theorem RulesRun.ready (h : RulesRun new db d) (hnew : ∀ i item, job.nextJob db = some (i, item) → ¬ new i) :
    job.Ready P d lease now ↔ job.Ready P db lease now := by
  have hvalid : job.RulesValid d ↔ job.RulesValid db := by
    cases job with
    | evaluate w id evaluations => simp only [RuleJob.RulesValid, Db.rulesValid, h.rules, h.isSome]
    | batch w rule version afterId throughId limit => simp only [RuleJob.RulesValid, h.rules]
  have hnext : ∀ i item, job.nextJob db = some (i, item) → d.ingestJobs.lookup i = db.ingestJobs.lookup i := by
    intro i item hi
    rcases h.jobs i with hsame | ⟨-, hn, -⟩
    · exact hsame
    · exact absurd hn (hnew i item hi)
  constructor
  · rintro ⟨hl, hv, hr, hn⟩
    refine ⟨h.leaseCurrent ▸ hl, hvalid.1 hv, fun row ha => ?_, fun i item hi j hj => ?_⟩
    · obtain ⟨k, a⟩ := row
      obtain ⟨a', ha', hstep⟩ := h.mem_rows ha
      have := hr _ ha'
      rw [h.jobRules] at this
      exact (h.rowReady hstep).1 this
    · exact hn i item (by rw [h.nextJob]; exact hi) j (by rw [hnext i item hi]; exact hj)
  · rintro ⟨hl, hv, hr, hn⟩
    refine ⟨h.leaseCurrent.symm ▸ hl, hvalid.2 hv, fun row ha' => ?_, fun i item hi j hj => ?_⟩
    · obtain ⟨k, a'⟩ := row
      obtain ⟨a, ha, hstep⟩ := h.mem_rows' ha'
      rw [h.jobRules]
      exact (h.rowReady hstep).2 (hr _ ha)
    · rw [h.nextJob] at hi
      exact hn i item hi j (by rw [← hnext i item hi]; exact hj)

theorem RulesRun.refl (db : Db) : RulesRun new db db := by
  refine ⟨rfl, ⟨rfl, rfl⟩, fun k => ?_, fun i => .inl rfl⟩
  cases ha : db.articles.lookup k with
  | none => exact .inl ⟨rfl, rfl⟩
  | some a => exact .inr ⟨a, a, rfl, rfl, .inl rfl⟩

theorem RulesRun.mono {new' : JobId → Prop} (h : RulesRun new db d) (hnew : ∀ i, new i → new' i) : RulesRun new' db d := by
  refine ⟨h.rules, h.texts, h.articles, fun i => ?_⟩
  rcases h.jobs i with hsame | ⟨hnone, hn, hrow⟩
  · exact .inl hsame
  · exact .inr ⟨hnone, hnew i hn, hrow⟩

/-- One more job. -/
theorem RulesRun.tx (h : RulesRun new db d) {u : Unit} (hrun : job.tx P lease now d = .ok (u, d'))
    (hnext : ∀ i item, job.nextJob db = some (i, item) → new i) : RulesRun new db d' := by
  obtain ⟨hready, hdone⟩ := RuleJob.tx_ok hrun
  have hkeeps : ∀ {γ : Type} {f : Db → γ}, OutsideRules f → f d' = f d := fun hf => job.tx_keeps hf lease now _ _ _ hrun
  have ho : ∀ {γ : Type} {f : Db → γ}, (∀ (db : Db) t, f { db with articles := t } = f db) →
      (∀ (db : Db) t, f { db with ruleEvaluations := t } = f db) →
      (∀ (db : Db) t, f { db with ingestJobs := t } = f db) → f d' = f d := fun h₁ h₂ h₃ => hkeeps ⟨h₁, h₂, h₃⟩
  refine ⟨?_, ⟨?_, ?_⟩, fun k => ?_, fun i => ?_⟩
  · exact (ho (f := Db.rules) (fun _ _ => rfl) (fun _ _ => rfl) fun _ _ => rfl).trans h.rules
  · exact (ho (f := Db.contentManifests) (fun _ _ => rfl) (fun _ _ => rfl) fun _ _ => rfl).trans h.texts.1
  · exact (ho (f := Db.stagedContentChunks) (fun _ _ => rfl) (fun _ _ => rfl) fun _ _ => rfl).trans h.texts.2
  · rcases h.articles k with ⟨hnone, hnone'⟩ | ⟨a, a', ha, ha', hstep⟩
    · refine .inl ⟨hnone, ?_⟩
      rw [hdone.articles k, hnone']
      split <;> rfl
    · by_cases hin : k ∈ (job.rows d).map (·.1)
      · refine .inr ⟨a, d.afterRules P (job.rules d) a', ha, ?_, ?_⟩
        · rw [hdone.articles k, if_pos hin, ha']
          rfl
        · exact hstep.trans (.afterRules (hready.rows (k, a') (job.mem_rows_of_key hin ha')))
      · exact .inr ⟨a, a', ha, by rw [hdone.articles k, if_neg hin]; exact ha', hstep⟩
  · rcases hdone.jobs i with hsame | ⟨hnone, item, ms, origin, hn, hnew⟩
    · rw [hsame]
      exact h.jobs i
    · rw [h.nextJob] at hn
      rcases h.jobs i with hsame' | ⟨hnone', -, -⟩
      · exact .inr ⟨hsame' ▸ hnone, hnext i item hn, item, ms, origin, hnew⟩
      · exact .inr ⟨hnone', hnext i item hn, item, ms, origin, hnew⟩

theorem afterRules_state (rules : List Rule) (a : Article) :
    (db.afterRules P rules a).state = applyRules P a.key.title (db.fullText a) rules a.state := by
  unfold Db.afterRules
  by_cases h : applyRules P a.key.title (db.fullText a) rules a.state = a.state
  · rw [if_pos h, h]
  · rw [if_neg h]

/-- A job that commits after the others marks what it marks before them. -/
theorem RulesRun.marks (h : RulesRun new db d) (hdone : job.Done P d d') {k : ArticleKey} {a'' : Article}
    (ha : db.articles.lookup k = some a) (ha' : d.articles.lookup k = some a') (ha'' : d'.articles.lookup k = some a'') :
    (job.Marks P db k → a''.state = { a'.state with read := true }) ∧ (¬ job.Marks P db k → a''.state = a'.state) := by
  have hstep : MarkStep a a' := by
    rcases h.articles k with ⟨hnone, -⟩ | ⟨b, b', hb, hb', hstep⟩
    · rw [hnone] at ha
      cases ha
    · rw [ha] at hb
      rw [ha'] at hb'
      cases hb
      cases hb'
      exact hstep
  obtain ⟨-, hkey, -, hprotect⟩ := hstep.fields
  rw [hdone.articles k, ha'] at ha''
  by_cases hin : k ∈ (job.rows d).map (·.1)
  · rw [if_pos hin] at ha''
    cases ha''
    have hrow : (k, a) ∈ job.rows db := job.mem_rows_of_key (h.rowKeys job ▸ hin) ha
    have hmarks : job.Marks P db k ↔ a'.state.protectUnread = false ∧
        ∃ r ∈ job.rules d, r.isMatch P.lowercase a'.key.title (d.fullText a') = true := by
      rw [h.fullText hstep, h.jobRules, hkey, hprotect]
      constructor
      · rintro ⟨b, hb, hm⟩
        have hstored := job.lookup_of_mem_rows hb
        rw [ha] at hstored
        cases hstored
        exact hm
      · exact fun hm => ⟨a, hrow, hm⟩
    rw [hmarks, afterRules_state, applyRules_eq]
    exact ⟨fun hm => if_pos hm, fun hm => if_neg hm⟩
  · rw [if_neg hin] at ha''
    cases ha''
    refine ⟨?_, fun _ => rfl⟩
    rintro ⟨b, hb, -⟩
    exact absurd (List.mem_map.2 ⟨(k, b), hb, rfl⟩) (h.rowKeys job ▸ hin)

theorem RuleJob.nextJob_rule {i : JobId} {item : WorkItem} (h : job.nextJob db = some (i, item)) :
    ∃ r ∈ job.rules db, ∃ version cursor, i = .rule r.id version cursor := by
  cases job with
  | evaluate w id evaluations => cases h
  | batch w rule version afterId throughId limit =>
    simp only [RuleJob.nextJob, Option.bind_eq_bind, Option.bind_eq_some_iff] at h
    obtain ⟨r, hr, through, -, cursor, -, h⟩ := h
    split at h
    · cases h
      exact ⟨r, List.mem_of_head? hr, version, cursor, rfl⟩
    · cases h

end

/-- A rule job with the lease and the time of its execution. -/
structure RuleExecution where
  lease : LeasedWork
  now : DateTime
  job : RuleJob

/-- The jobs one after another; a job that fails leaves the database alone. -/
def executeJobs (P : Platform) (db : Db) (xs : List RuleExecution) : Db :=
  xs.foldl (fun db x => (x.job.tx P x.lease x.now).commit db) db

/-- The two jobs apply no common rule. -/
def RuleExecution.Different (db : Db) (x y : RuleExecution) : Prop :=
  ∀ r ∈ x.job.rules db, ∀ r' ∈ y.job.rules db, r.id ≠ r'.id

/-- One of the jobs commits and marks the article. -/
def MarkedBy (P : Platform) (db : Db) (xs : List RuleExecution) (k : ArticleKey) : Prop :=
  ∃ x ∈ xs, x.job.Ready P db x.lease x.now ∧ x.job.Marks P db k

section
variable {P : Platform} {db d : Db} {xs ys : List RuleExecution}

/-- What the first jobs of a run did, in terms of the database before all of them. -/
structure Executed (P : Platform) (db : Db) (xs : List RuleExecution) (d : Db) : Prop where
  run : RulesRun (fun i => ∃ x ∈ xs, ∃ item, x.job.nextJob db = some (i, item)) db d
  marked : ∀ k a a', db.articles.lookup k = some a → d.articles.lookup k = some a' →
    (MarkedBy P db xs k → a'.state = { a.state with read := true }) ∧ (¬ MarkedBy P db xs k → a'.state = a.state)

theorem Executed.step (h : Executed P db xs d) {x : RuleExecution} (hx : ∀ y ∈ xs, y.Different db x) :
    Executed P db (xs ++ [x]) ((x.job.tx P x.lease x.now).commit d) := by
  have hnew : ∀ i item, x.job.nextJob db = some (i, item) →
      ¬ ∃ y ∈ xs, ∃ item, y.job.nextJob db = some (i, item) := by
    rintro i item hi ⟨y, hy, item', hi'⟩
    obtain ⟨r, hr, version, cursor, rfl⟩ := RuleJob.nextJob_rule hi
    obtain ⟨r', hr', version', cursor', he⟩ := RuleJob.nextJob_rule hi'
    exact hx y hy r' hr' r hr (JobId.rule.inj he).1.symm
  have hrun : RulesRun (fun i => ∃ y ∈ xs ++ [x], ∃ item, y.job.nextJob db = some (i, item)) db d := by
    refine h.run.mono ?_
    rintro i ⟨y, hy, hi⟩
    exact ⟨y, List.mem_append_left _ hy, hi⟩
  have hmarked : ∀ k, MarkedBy P db (xs ++ [x]) k ↔
      MarkedBy P db xs k ∨ (x.job.Ready P db x.lease x.now ∧ x.job.Marks P db k) := by
    intro k
    simp only [MarkedBy, List.mem_append, List.mem_singleton, or_and_right, exists_or, exists_eq_left]
  cases htx : x.job.tx P x.lease x.now d with
  | error e =>
    rw [commit_of_error htx]
    -- a job that was ready would have committed
    have hnot : ¬ x.job.Ready P db x.lease x.now := by
      intro hready
      obtain ⟨d', hok⟩ := ((h.run.ready hnew).2 hready).run
      rw [htx] at hok
      cases hok
    refine ⟨hrun, fun k a a' ha ha' => ?_⟩
    rw [hmarked]
    simpa only [hnot, false_and, or_false] using h.marked k a a' ha ha'
  | ok result =>
    rw [commit_of_ok htx]
    obtain ⟨hready', hdone⟩ := RuleJob.tx_ok htx
    have hready := (h.run.ready hnew).1 hready'
    refine ⟨hrun.tx htx fun i item hi => ⟨x, by simp, item, hi⟩, fun k a a'' ha ha'' => ?_⟩
    rcases h.run.articles k with ⟨hnone, -⟩ | ⟨b, a', hb, ha', hstep⟩
    · rw [hnone] at ha
      cases ha
    rw [ha] at hb
    cases hb
    have hbefore := h.marked k a a' ha ha'
    have hturn := h.run.marks hdone ha ha' ha''
    rw [hmarked]
    constructor
    · rintro (hold | ⟨-, hmarks⟩)
      · by_cases hmarks : x.job.Marks P db k
        · rw [hturn.1 hmarks, hbefore.1 hold]
        · rw [hturn.2 hmarks, hbefore.1 hold]
      · rw [hturn.1 hmarks]
        by_cases hold : MarkedBy P db xs k
        · rw [hbefore.1 hold]
        · rw [hbefore.2 hold]
    · intro hnot
      rw [not_or] at hnot
      rw [hturn.2 fun hmarks => hnot.2 ⟨hready, hmarks⟩, hbefore.2 hnot.1]

theorem executed (hdiff : xs.Pairwise (RuleExecution.Different db)) : Executed P db xs (executeJobs P db xs) := by
  induction xs using List.reverseRecOn with
  | nil =>
    refine ⟨.refl db, fun k a a' ha ha' => ⟨?_, fun _ => ?_⟩⟩
    · rintro ⟨x, hx, -⟩
      cases hx
    · have he : a' = a := Option.some.inj (ha'.symm.trans ha)
      rw [he]
  | append_singleton xs x ih =>
    obtain ⟨hxs, -, hx⟩ := List.pairwise_append.1 hdiff
    have hstep := (ih hxs).step (x := x) fun y hy => hx y hy x (by simp)
    rw [executeJobs, List.foldl_append]
    exact hstep

/-- Jobs of different rules leave the same states in every order. -/
theorem executeJobs_perm (hdiff : xs.Pairwise (RuleExecution.Different db)) (hperm : xs.Perm ys) (k : ArticleKey) :
    ((executeJobs P db xs).articles.lookup k).map (·.state) = ((executeJobs P db ys).articles.lookup k).map (·.state) := by
  have hsymm : ∀ {x y : RuleExecution}, x.Different db y → y.Different db x := fun h r hr r' hr' e => h r' hr' r hr e.symm
  have hx : Executed P db xs (executeJobs P db xs) := executed hdiff
  have hy : Executed P db ys (executeJobs P db ys) := executed ((hperm.pairwise_iff hsymm).1 hdiff)
  have hmarked : MarkedBy P db xs k ↔ MarkedBy P db ys k := by simp only [MarkedBy, hperm.mem_iff]
  rcases hx.run.articles k with ⟨hnone, hnone'⟩ | ⟨a, a', ha, ha', -⟩
  · rcases hy.run.articles k with ⟨-, hnone''⟩ | ⟨a, -, ha, -⟩
    · rw [hnone', hnone'']
    · rw [hnone] at ha
      cases ha
  · rcases hy.run.articles k with ⟨hnone, -⟩ | ⟨b, b', hb, hb', -⟩
    · rw [hnone] at ha
      cases ha
    · rw [ha] at hb
      cases hb
      rw [ha', hb', Option.map_some, Option.map_some]
      by_cases hm : MarkedBy P db xs k
      · rw [(hx.marked k a a' ha ha').1 hm, (hy.marked k a b' ha hb').1 (hmarked.1 hm)]
      · rw [(hx.marked k a a' ha ha').2 hm, (hy.marked k a b' ha hb').2 fun h => hm (hmarked.2 h)]

/-! ## The evaluations of one job -/

theorem Db.RowReady.perm {rules rules' : List Rule} {a : Article} (h : db.RowReady P rules a) (hperm : rules.Perm rules') :
    db.RowReady P rules' a := by
  refine ⟨h.text, fun r hr => h.decided r (hperm.mem_iff.2 hr), fun r hr => h.version r (hperm.mem_iff.2 hr), ?_⟩
  rw [applyRules_perm hperm.symm]
  exact h.revision

theorem EvaluateReady.perm {lease : LeasedWork} {now : DateTime} {w : WorkspaceId} {id : ArticleId}
    {es es' : List PendingRuleEvaluation} (h : EvaluateReady P db lease now w id es) (hperm : es.Perm es') :
    EvaluateReady P db lease now w id es' :=
  ⟨h.lease, fun hsome e he => h.rules hsome e (hperm.mem_iff.2 he), fun a ha => (h.row a ha).perm (hperm.filterMap _)⟩

/-- The evaluations of one job leave the same articles in every order. -/
theorem evaluations_perm {lease : LeasedWork} {now : DateTime} {w : WorkspaceId} {id : ArticleId}
    {es es' : List PendingRuleEvaluation} (hperm : es.Perm es') (k : ArticleKey) :
    ((evaluateArticleRules P lease now w id es).commit db).articles.lookup k =
      ((evaluateArticleRules P lease now w id es').commit db).articles.lookup k := by
  have hrules : (db.validRules w es).Perm (db.validRules w es') := hperm.filterMap _
  have hafter : db.afterRules P (db.validRules w es) = db.afterRules P (db.validRules w es') := by
    funext a
    unfold Db.afterRules
    rw [applyRules_perm hrules]
  cases hrun : evaluateArticleRules P lease now w id es db with
  | ok result =>
    obtain ⟨hready, harticles⟩ := evaluateArticleRules_ok hrun
    obtain ⟨d', hrun'⟩ := (hready.perm hperm).run
    rw [commit_of_ok hrun, commit_of_ok hrun', harticles k, (evaluateArticleRules_ok hrun').2 k, hafter]
  | error e =>
    cases hrun' : evaluateArticleRules P lease now w id es' db with
    | ok result =>
      obtain ⟨d, hok⟩ := ((evaluateArticleRules_ok hrun').1.perm hperm.symm).run
      rw [hrun] at hok
      cases hok
    | error e' => rw [commit_of_error hrun, commit_of_error hrun']

end
end Inoreader
