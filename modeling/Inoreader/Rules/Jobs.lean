import Inoreader.Rules.Turns

/-!
# When a rule job commits, and what it then did

Both kinds of jobs in one statement: `RuleJob.Ready` is what the transaction needs, `RuleJob.tx_ok` what
it did to the articles, `RuleJob.Ready.run` that nothing else can stop it.
-/

namespace Inoreader
open Lib Tx

namespace RuleJob

/-- The rules that the job reads are well formed. -/
def RulesValid (db : Db) : RuleJob → Prop
  | .evaluate w article evaluations => (db.articles.lookup (w, article)).isSome → db.rulesValid w evaluations
  | .batch w rule _ _ _ _ => ∀ r, db.rules.lookup (w, rule) = some r → r.valid = true

/-- The job of the next batch: a full batch that did not reach its bound has one. -/
def nextJob (db : Db) : RuleJob → Option (JobId × WorkItem)
  | .evaluate _ _ _ => none
  | .batch w rule version afterId throughId limit => do
    let r ← ((RuleJob.batch w rule version afterId throughId limit).rules db).head?
    let through ← throughId.or ((db.workspaceArticles w).getLast?.map (·.1))
    let rows := db.ruleBatch w afterId throughId limit
    let cursor ← rows.getLast?.map (·.2.id)
    if rows.length = limit ∧ cursor ≠ through then
      some (.rule r.id version cursor, .applyRule w r.id version (some cursor) (some through))
    else none

/-- What the transaction of a job needs to commit. -/
structure Ready (P : Platform) (db : Db) (lease : LeasedWork) (now : DateTime) (job : RuleJob) : Prop where
  lease : db.leaseCurrent lease now = true
  valid : job.RulesValid db
  rows : ∀ row ∈ job.rows db, db.RowReady P (job.rules db) row.2
  next : ∀ i item, job.nextJob db = some (i, item) → ∀ j, db.ingestJobs.lookup i = some j → j.item = item

/-- What the transaction of a job did: the rules were applied to its rows, and the job of the next batch
is there. -/
structure Done (P : Platform) (db db' : Db) (job : RuleJob) : Prop where
  articles : ∀ k, db'.articles.lookup k =
    if k ∈ (job.rows db).map (·.1) then (db.articles.lookup k).map (db.afterRules P (job.rules db))
    else db.articles.lookup k
  jobs : ∀ i, db'.ingestJobs.lookup i = db.ingestJobs.lookup i ∨ (db.ingestJobs.lookup i = none ∧
    ∃ item ms origin, job.nextJob db = some (i, item) ∧ db'.ingestJobs.lookup i = some (.new item ms origin))

end RuleJob

section
variable {P : Platform} {db db' d d' : Db} {w : WorkspaceId} {rule : Rule} {version : Nat}

/-- One turn of `apply_rule_batch`. -/
def batchTurn (P : Platform) (w : WorkspaceId) (rule : Rule) (version : Nat) (_ : Option ArticleId)
    (row : ArticleId × Article) : StoreTx (Option ArticleId) := do
  let text ← articleFullText row.2
  ensureRuleContent P rule row.2 text.1
  let (after, reason) := evaluateRule P rule row.2 row.2.state text.1 none
  storeState (w, row.1) row.2 after
  upsertRuleEvaluation w row.2.id rule.id version reason
  pure (some row.2.id)

theorem batchTurn_ok {acc last : Option ArticleId} {row : ArticleId × Article} (htexts : SameTexts db d)
    (hrow : d.articles.lookup (w, row.1) = some row.2) (hrun : batchTurn P w rule rule.version acc row d = .ok (last, d')) :
    db.RowReady P [rule] row.2 ∧ last = some row.2.id ∧ SameTexts db d' ∧ d'.ingestJobs = d.ingestJobs ∧
      ∀ k, d'.articles.lookup k = if k = (w, row.1) then some (db.afterRules P [rule] row.2) else d.articles.lookup k := by
  unfold batchTurn at hrun
  obtain ⟨text, htext, hrun⟩ := (bind_ok_of_reads (articleFullText_keeps _)).1 hrun
  obtain ⟨hcontent, hrun⟩ := bind_require_ok.1 hrun
  obtain ⟨_, d₁, hstore, hrun⟩ := bind_ok.1 hrun
  obtain ⟨_, d₂, hupsert, hrun⟩ := bind_ok.1 hrun
  obtain ⟨hversion, hupsert⟩ := bind_require_ok.1 hupsert
  have htext' := htexts.symm.articleFullText htext
  have hfull := (articleFullText_ok htext').2
  have hstore' : storeState (w, row.1) row.2 (applyRules P row.2.key.title (db.fullText row.2) [rule] row.2.state) d =
      .ok ((), d₁) := by
    rw [hfull]
    exact hstore
  have hd₁ : ∀ {γ : Type} (f : Db → γ), (∀ (db : Db) t, f { db with articles := t } = f db) → f d₁ = f d := by
    intro γ f hf
    rcases storeState_ok hstore' with ⟨-, rfl⟩ | ⟨-, -, rfl⟩
    · rfl
    · exact hf _ _
  cases hupsert
  cases hrun
  refine ⟨⟨⟨text, htext'⟩, ?_, by simpa using hversion, ?_⟩, rfl, ?_, ?_, ?_⟩
  · simp only [List.mem_singleton, forall_eq, hfull]
    exact hcontent
  · intro hne
    rcases storeState_ok hstore' with ⟨hsame, -⟩ | ⟨-, hrev, -⟩
    · exact absurd hsame hne
    · exact hrev
  · exact ⟨(hd₁ Db.contentManifests fun _ _ => rfl).trans htexts.1,
      (hd₁ Db.stagedContentChunks fun _ _ => rfl).trans htexts.2⟩
  · exact hd₁ Db.ingestJobs fun _ _ => rfl
  · exact fun k => storeState_articles hrow hstore' k

theorem batchTurn_keeps {γ : Type} {f : Db → γ} (hf : OutsideRules f) (acc : Option ArticleId)
    (row : ArticleId × Article) : Keeps f (batchTurn P w rule version acc row) :=
  keeps_bind (articleFullText_keeps _) fun _ => keeps_bind (keeps_require _ _) fun _ =>
    keeps_bind (storeState_keeps hf _ _ _) fun _ =>
      keeps_bind (upsertRuleEvaluation_keeps hf.ruleEvaluations _ _ _ _ _) fun _ => keeps_pure _

theorem batchTurn_of_ready {acc : Option ArticleId} {row : ArticleId × Article} (htexts : SameTexts db d)
    (h : db.RowReady P [rule] row.2) : ∃ d', batchTurn P w rule rule.version acc row d = .ok (some row.2.id, d') := by
  obtain ⟨text, htext⟩ := h.text
  have hfull := (articleFullText_ok htext).2
  have hstate : (evaluateRule P rule row.2 row.2.state text.1 none).1 =
      applyRules P row.2.key.title (db.fullText row.2) [rule] row.2.state := by rw [hfull]; rfl
  have hstore : ∃ d', storeState (w, row.1) row.2 (evaluateRule P rule row.2 row.2.state text.1 none).1 d = .ok ((), d') :=
    storeState_of_fits (by rw [hstate]; exact h.revision)
  obtain ⟨d₁, hstore⟩ := hstore
  have hcontent := h.decided rule (by simp)
  rw [hfull] at hcontent
  have hupsert : ∀ document, ∃ d₂, upsertRuleEvaluation w row.2.id rule.id rule.version document d₁ = .ok ((), d₂) :=
    fun document => ⟨_, bind_require_ok.2 ⟨h.version rule (by simp), rfl⟩⟩
  obtain ⟨d₂, hupsert⟩ := hupsert (evaluateRule P rule row.2 row.2.state text.1 none).2
  refine ⟨d₂, (bind_ok_of_reads (articleFullText_keeps _)).2 ⟨text, htexts.articleFullText htext, ?_⟩⟩
  exact bind_require_ok.2 ⟨hcontent, bind_ok.2 ⟨_, d₁, hstore, bind_ok.2 ⟨_, d₂, hupsert, rfl⟩⟩⟩

theorem getLast_id_cons (row : ArticleId × Article) (rows : List (ArticleId × Article)) (acc : Option ArticleId) :
    ((row :: rows).getLast?.map (·.2.id)).or acc = (rows.getLast?.map (·.2.id)).or (some row.2.id) := by
  cases rows with
  | nil => rfl
  | cons r rows => rw [List.getLast?_cons_cons, List.getLast?_cons]; rfl

/-- The turns of a batch of different stored articles. -/
theorem batchTurns_ok {acc last : Option ArticleId} {rows : List (ArticleId × Article)} (htexts : SameTexts db d)
    (hnd : (rows.map (·.1)).Nodup) (hrows : ∀ row ∈ rows, d.articles.lookup (w, row.1) = some row.2)
    (hrun : loop (batchTurn P w rule rule.version) acc rows d = .ok (last, d')) :
    (∀ row ∈ rows, db.RowReady P [rule] row.2) ∧ last = (rows.getLast?.map (·.2.id)).or acc ∧
      d'.ingestJobs = d.ingestJobs ∧ ∀ k, d'.articles.lookup k =
        if k ∈ rows.map (fun row => (w, row.1)) then (d.articles.lookup k).map (db.afterRules P [rule])
        else d.articles.lookup k := by
  induction rows generalizing acc d with
  | nil =>
    cases hrun
    exact ⟨by simp, rfl, rfl, by simp⟩
  | cons row rows ih =>
    rw [List.map_cons, List.nodup_cons] at hnd
    obtain ⟨acc₁, d₁, hturn, hrest⟩ := bind_ok.1 hrun
    obtain ⟨hready, rfl, htexts₁, hjobs₁, harticles₁⟩ := batchTurn_ok htexts (hrows row (by simp)) hturn
    have hne : ∀ r ∈ rows, r.1 ≠ row.1 := fun r hr he => hnd.1 (he ▸ List.mem_map_of_mem hr)
    have hrows₁ : ∀ r ∈ rows, d₁.articles.lookup (w, r.1) = some r.2 := by
      intro r hr
      rw [harticles₁, if_neg fun he => hne r hr (congrArg Prod.snd he)]
      exact hrows r (by simp [hr])
    obtain ⟨hready', hlast, hjobs, harticles⟩ := ih htexts₁ hnd.2 hrows₁ hrest
    refine ⟨List.forall_mem_cons.2 ⟨hready, hready'⟩, ?_, hjobs.trans hjobs₁, fun k => ?_⟩
    · rw [hlast, getLast_id_cons]
    · rw [harticles k, harticles₁ k]
      by_cases hk : k = (w, row.1)
      · subst hk
        have hnotin : (w, row.1) ∉ rows.map fun r => (w, r.1) := by
          intro hin
          obtain ⟨r, hr, he⟩ := List.mem_map.1 hin
          exact hne r hr (congrArg Prod.snd he)
        rw [if_neg hnotin, if_pos rfl, if_pos (by simp), hrows row (by simp)]
        rfl
      · simp only [List.map_cons, List.mem_cons, hk, false_or, if_false]

theorem batchTurns_of_ready {acc : Option ArticleId} {rows : List (ArticleId × Article)} (htexts : SameTexts db d)
    (h : ∀ row ∈ rows, db.RowReady P [rule] row.2) :
    ∃ d', loop (batchTurn P w rule rule.version) acc rows d = .ok ((rows.getLast?.map (·.2.id)).or acc, d') := by
  induction rows generalizing acc d with
  | nil => exact ⟨d, rfl⟩
  | cons row rows ih =>
    have hturn : ∃ d₁, batchTurn P w rule rule.version acc row d = .ok (some row.2.id, d₁) :=
      batchTurn_of_ready htexts (h row (by simp))
    obtain ⟨d₁, hturn⟩ := hturn
    have htexts₁ : SameTexts db d₁ :=
      ⟨(batchTurn_keeps (f := Db.contentManifests) ⟨fun _ _ => rfl, fun _ _ => rfl, fun _ _ => rfl⟩ _ _ _ _ _ hturn).trans
          htexts.1,
        (batchTurn_keeps (f := Db.stagedContentChunks) ⟨fun _ _ => rfl, fun _ _ => rfl, fun _ _ => rfl⟩ _ _ _ _ _ hturn).trans
          htexts.2⟩
    have hrest : ∃ d', loop (batchTurn P w rule rule.version) (some row.2.id) rows d₁ =
        .ok ((rows.getLast?.map (·.2.id)).or (some row.2.id), d') := ih htexts₁ fun r hr => h r (by simp [hr])
    obtain ⟨d', hrest⟩ := hrest
    exact ⟨d', by rw [getLast_id_cons]; exact bind_ok.2 ⟨_, _, hturn, hrest⟩⟩

/-- `apply_rule_batch` with its turns named. -/
theorem applyRuleBatch_eq (lease : LeasedWork) (now : DateTime) (ruleId : RuleId) (afterId throughId : Option ArticleId)
    (limit : Nat) :
    applyRuleBatch P lease now w ruleId version afterId throughId limit = (do
      assertLease lease now
      let db ← Tx.get
      match db.rules.lookup (w, ruleId) with
      | none => pure none
      | some rule => do
        validateRule rule
        if rule.enabled = false ∨ rule.version ≠ version then pure none
        else
          match throughId.or ((db.workspaceArticles w).getLast?.map (·.1)) with
          | none => pure none
          | some through => do
            let rows := ((db.workspaceArticles w).filter fun row =>
              afterId.all (·.uuid < row.1.uuid) ∧ row.1.uuid ≤ through.uuid).take limit
            let last ← loop (batchTurn P w rule version) none rows
            Tx.onlyIf (rows.length = limit) (enqueueNextBatch now w rule.id version through last)
            pure last) := rfl

variable {afterId throughId : Option ArticleId} {limit : Nat} {ruleId : RuleId} {lease : LeasedWork} {now : DateTime}

theorem mem_ruleBatch {row : ArticleId × Article} (h : row ∈ db.ruleBatch w afterId throughId limit) :
    db.articles.lookup (w, row.1) = some row.2 := by
  unfold Db.ruleBatch at h
  split at h
  · cases h
  · exact mem_workspaceArticles.1 (List.mem_filter.1 (List.mem_of_mem_take h)).1

theorem nodup_ruleBatch : ((db.ruleBatch w afterId throughId limit).map (·.1)).Nodup := by
  unfold Db.ruleBatch
  split
  · exact List.nodup_nil
  · exact (nodup_workspaceArticles db).sublist (((List.take_sublist _ _).trans List.filter_sublist).map _)

theorem RuleJob.rules_batch (hrule : db.rules.lookup (w, ruleId) = some rule) :
    (RuleJob.batch w ruleId version afterId throughId limit).rules db =
      if rule.enabled = false ∨ rule.version ≠ version then [] else [rule] := by
  simp only [RuleJob.rules, hrule, Option.toList_some, List.filter_singleton]
  by_cases h : rule.enabled = false ∨ rule.version ≠ version
  · rw [if_pos h]
    rcases h with h | h <;> simp [h]
  · rw [if_neg h]
    rw [not_or, Bool.not_eq_false, not_not] at h
    simp [h]

/-- The enqueueing of the next batch fails only on a different job under its id. -/
theorem enqueueNextBatch_ok {i : RuleId} {through : ArticleId} {last : Option ArticleId} {u : Unit}
    (h : enqueueNextBatch now w i version through last d = .ok (u, d')) :
    d'.articles = d.articles ∧ (∀ cursor, last = some cursor → cursor ≠ through →
        ∀ j, d.ingestJobs.lookup (.rule i version cursor) = some j →
          j.item = .applyRule w i version (some cursor) (some through)) ∧
      ∀ id, d'.ingestJobs.lookup id = d.ingestJobs.lookup id ∨ (d.ingestJobs.lookup id = none ∧
        ∃ cursor ms origin, last = some cursor ∧ cursor ≠ through ∧ id = .rule i version cursor ∧
          d'.ingestJobs.lookup id = some (.new (.applyRule w i version (some cursor) (some through)) ms origin)) := by
  cases last with
  | none =>
    cases h
    exact ⟨rfl, by simp, fun id => .inl rfl⟩
  | some cursor =>
    simp only [enqueueNextBatch, onlyIf] at h
    split at h
    · rename_i hne
      rcases enqueueWork_ok h with ⟨j, hj, hitem, rfl⟩ | ⟨hnone, origin, -, rfl⟩
      · refine ⟨rfl, ?_, fun id => .inl rfl⟩
        rintro c hc - j' hj'
        cases hc
        rw [hj] at hj'
        cases hj'
        exact hitem
      · refine ⟨rfl, ?_, fun id => ?_⟩
        · rintro c hc - j' hj'
          cases hc
          rw [hnone] at hj'
          cases hj'
        · by_cases hid : id = .rule i version cursor
          · subst hid
            refine .inr ⟨hnone, cursor, millis now, origin, rfl, hne, rfl, ?_⟩
            rw [Db.setJob, Table.lookup_insert_if, if_pos rfl]
          · exact .inl (by rw [Db.setJob, Table.lookup_insert_if, if_neg hid])
    · rename_i heq
      cases h
      exact ⟨rfl, fun c hc hne => by cases hc; exact absurd hne heq, fun id => .inl rfl⟩

theorem enqueueNextBatch_of_ready {i : RuleId} {through : ArticleId} {last : Option ArticleId}
    (h : ∀ cursor, last = some cursor → cursor ≠ through → ∀ j, d.ingestJobs.lookup (.rule i version cursor) = some j →
      j.item = .applyRule w i version (some cursor) (some through)) :
    ∃ d', enqueueNextBatch now w i version through last d = .ok ((), d') := by
  cases last with
  | none => exact ⟨d, rfl⟩
  | some cursor =>
    simp only [enqueueNextBatch, onlyIf]
    split
    · rename_i hne
      cases hj : d.ingestJobs.lookup (.rule i version cursor) with
      | some j => exact ⟨d, by rw [enqueueWork_of_some hj, if_pos (h cursor rfl hne j hj)]⟩
      | none => exact ⟨_, enqueueWork_of_none hj rfl⟩
    · exact ⟨d, rfl⟩

theorem ruleBatch_of_some {through : ArticleId}
    (hthrough : throughId.or ((db.workspaceArticles w).getLast?.map (·.1)) = some through) :
    db.ruleBatch w afterId throughId limit = ((db.workspaceArticles w).filter fun row =>
      afterId.all (·.uuid < row.1.uuid) ∧ row.1.uuid ≤ through.uuid).take limit := by
  simp only [Db.ruleBatch, hthrough]

/-- The next batch of a batch that is applied. -/
theorem RuleJob.nextJob_batch {through : ArticleId} {i : JobId} {item : WorkItem}
    (hrules : (RuleJob.batch w ruleId version afterId throughId limit).rules db = [rule])
    (hthrough : throughId.or ((db.workspaceArticles w).getLast?.map (·.1)) = some through) :
    (RuleJob.batch w ruleId version afterId throughId limit).nextJob db = some (i, item) ↔
      ∃ cursor, (db.ruleBatch w afterId throughId limit).getLast?.map (·.2.id) = some cursor ∧
        (db.ruleBatch w afterId throughId limit).length = limit ∧ cursor ≠ through ∧ i = .rule rule.id version cursor ∧
        item = .applyRule w rule.id version (some cursor) (some through) := by
  simp only [RuleJob.nextJob, hrules, hthrough, List.head?_cons, Option.bind_eq_bind, Option.bind_some,
    Option.bind_eq_some_iff]
  constructor
  · rintro ⟨cursor, hcursor, h⟩
    split at h
    · rename_i hc
      cases h
      exact ⟨cursor, hcursor, hc.1, hc.2, rfl, rfl⟩
    · cases h
  · rintro ⟨cursor, hcursor, hlen, hne, rfl, rfl⟩
    exact ⟨cursor, hcursor, if_pos ⟨hlen, hne⟩⟩

namespace RuleJob
variable {job : RuleJob}

/-- A job whose rule is gone, or not of its version any more, does nothing. -/
theorem Done.refl (hrows : job.rows db = []) : job.Done P db db := by
  refine ⟨fun k => ?_, fun i => .inl rfl⟩
  rw [hrows]
  rfl

theorem rows_batch_of_rules (h : (RuleJob.batch w ruleId version afterId throughId limit).rules db = []) :
    (RuleJob.batch w ruleId version afterId throughId limit).rows db = [] := by
  simp only [RuleJob.rows, if_pos h]

theorem nextJob_batch_of_rules (h : (RuleJob.batch w ruleId version afterId throughId limit).rules db = []) :
    (RuleJob.batch w ruleId version afterId throughId limit).nextJob db = none := by
  simp only [RuleJob.nextJob, h]
  rfl

theorem rows_batch (h : (RuleJob.batch w ruleId version afterId throughId limit).rules db = [rule]) :
    (RuleJob.batch w ruleId version afterId throughId limit).rows db =
      (db.ruleBatch w afterId throughId limit).map fun row => ((w, row.1), row.2) := by
  simp only [RuleJob.rows, h, List.cons_ne_nil, if_false]

theorem batch_ok {r : Option ArticleId}
    (hrun : applyRuleBatch P lease now w ruleId version afterId throughId limit db = .ok (r, db')) :
    (RuleJob.batch w ruleId version afterId throughId limit).Ready P db lease now ∧
      (RuleJob.batch w ruleId version afterId throughId limit).Done P db db' := by
  rw [applyRuleBatch_eq] at hrun
  obtain ⟨_, hassert, hrun⟩ := (bind_ok_of_reads (assertLease_keeps _ _)).1 hrun
  have hlease := (assertLease_ok hassert).1
  rw [bind_run, get_run] at hrun
  -- a job that applies no rule
  have hidle : ∀ {d : Db}, (∀ r, db.rules.lookup (w, ruleId) = some r → r.valid = true) →
      (RuleJob.batch w ruleId version afterId throughId limit).rules db = [] → d = db →
      (RuleJob.batch w ruleId version afterId throughId limit).Ready P db lease now ∧
        (RuleJob.batch w ruleId version afterId throughId limit).Done P db d := by
    rintro d hvalid hrules rfl
    refine ⟨⟨hlease, hvalid, ?_, ?_⟩, .refl (rows_batch_of_rules hrules)⟩
    · rw [rows_batch_of_rules hrules]
      simp
    · rw [nextJob_batch_of_rules hrules]
      simp
  cases hrule : db.rules.lookup (w, ruleId) with
  | none =>
    simp only [hrule] at hrun
    cases hrun
    exact hidle (by simp [hrule]) (by simp [RuleJob.rules, hrule]) rfl
  | some rule =>
    simp only [hrule] at hrun
    obtain ⟨hvalid, hrun⟩ := bind_require_ok.1 hrun
    have hvalid' : ∀ r, db.rules.lookup (w, ruleId) = some r → r.valid = true := by
      intro r hr
      rw [hrule] at hr
      cases hr
      exact hvalid
    have hrules : (RuleJob.batch w ruleId version afterId throughId limit).rules db = _ := RuleJob.rules_batch hrule
    split at hrun
    · rename_i hstale
      cases hrun
      exact hidle hvalid' (hrules.trans (if_pos hstale)) rfl
    · rename_i hcurrent
      rw [if_neg hcurrent] at hrules
      have hversion : rule.version = version := by
        by_contra hne
        exact hcurrent (.inr hne)
      subst hversion
      cases hthrough : throughId.or ((db.workspaceArticles w).getLast?.map (·.1)) with
      | none =>
        simp only [hthrough] at hrun
        cases hrun
        have hempty : db.ruleBatch w afterId throughId limit = [] := by simp only [Db.ruleBatch, hthrough]
        have hrows := rows_batch hrules
        rw [hempty] at hrows
        refine ⟨⟨hlease, hvalid', by simp [hrows], ?_⟩, .refl hrows⟩
        simp only [RuleJob.nextJob, hthrough, hrules]
        simp
      | some through =>
        simp only [hthrough] at hrun
        obtain ⟨last, d₁, hloop, hrun⟩ := bind_ok.1 hrun
        obtain ⟨_, d₂, henqueue, hrun⟩ := bind_ok.1 hrun
        cases hrun
        have hbatch : db.ruleBatch w afterId throughId limit = _ := ruleBatch_of_some hthrough
        rw [← hbatch] at hloop henqueue
        have hself : SameTexts db db := ⟨rfl, rfl⟩
        obtain ⟨hready, hlast, hjobs, harticles⟩ := batchTurns_ok hself nodup_ruleBatch
          (fun row hrow => mem_ruleBatch hrow) hloop
        rw [Option.or_none] at hlast
        have hkeys : ((RuleJob.batch w ruleId rule.version afterId throughId limit).rows db).map (·.1) =
            (db.ruleBatch w afterId throughId limit).map fun row => (w, row.1) := by
          rw [rows_batch hrules, List.map_map]
          rfl
        have hrowsReady : ∀ row ∈ (RuleJob.batch w ruleId rule.version afterId throughId limit).rows db,
            db.RowReady P ((RuleJob.batch w ruleId rule.version afterId throughId limit).rules db) row.2 := by
          rw [rows_batch hrules, hrules]
          intro row hrow
          obtain ⟨row', hrow', rfl⟩ := List.mem_map.1 hrow
          exact hready row' hrow'
        simp only [onlyIf] at henqueue
        split at henqueue
        · obtain ⟨harticles₂, hnext, hjobs₂⟩ := enqueueNextBatch_ok henqueue
          refine ⟨⟨hlease, hvalid', hrowsReady, fun i item hn j hj => ?_⟩, ⟨fun k => ?_, fun i => ?_⟩⟩
          · obtain ⟨cursor, hcursor, -, hne, rfl, rfl⟩ := (nextJob_batch hrules hthrough).1 hn
            exact hnext cursor (hlast.trans hcursor) hne j (by rw [hjobs]; exact hj)
          · rw [harticles₂, harticles k, hkeys, hrules]
          · rcases hjobs₂ i with h | ⟨hnone, cursor, ms, origin, hcursor, hne, rfl, hnew⟩
            · exact .inl (by rw [h, hjobs])
            · refine .inr ⟨by rw [← hjobs]; exact hnone, _, ms, origin, ?_, hnew⟩
              exact (nextJob_batch hrules hthrough).2 ⟨cursor, hlast.symm.trans hcursor, ‹_›, hne, rfl, rfl⟩
        · rename_i hlen
          cases henqueue
          refine ⟨⟨hlease, hvalid', hrowsReady, fun i item hn j hj => ?_⟩, ⟨fun k => ?_, fun i => .inl (by rw [hjobs])⟩⟩
          · obtain ⟨cursor, -, hlen', -⟩ := (nextJob_batch hrules hthrough).1 hn
            exact absurd hlen' hlen
          · rw [harticles k, hkeys, hrules]

theorem batch_of_ready (h : (RuleJob.batch w ruleId version afterId throughId limit).Ready P db lease now) :
    ∃ r db', applyRuleBatch P lease now w ruleId version afterId throughId limit db = .ok (r, db') := by
  rw [applyRuleBatch_eq]
  simp only [bind_run, assertLease_run, h.lease, if_true, get_run]
  cases hrule : db.rules.lookup (w, ruleId) with
  | none => exact ⟨none, db, rfl⟩
  | some rule =>
    have hrules : (RuleJob.batch w ruleId version afterId throughId limit).rules db = _ := RuleJob.rules_batch hrule
    by_cases hstale : rule.enabled = false ∨ rule.version ≠ version
    · exact ⟨none, db, bind_require_ok.2 ⟨h.valid rule hrule, by rw [if_pos hstale]; rfl⟩⟩
    · rw [if_neg hstale] at hrules
      have hversion : rule.version = version := by
        by_contra hne
        exact hstale (.inr hne)
      subst hversion
      cases hthrough : throughId.or ((db.workspaceArticles w).getLast?.map (·.1)) with
      | none => exact ⟨none, db, bind_require_ok.2 ⟨h.valid rule hrule, by rw [if_neg hstale]; rfl⟩⟩
      | some through =>
        have hready : ∀ row ∈ db.ruleBatch w afterId throughId limit, db.RowReady P [rule] row.2 := by
          intro row hrow
          have hrow' : ((w, row.1), row.2) ∈ (RuleJob.batch w ruleId rule.version afterId throughId limit).rows db := by
            rw [rows_batch hrules]
            exact List.mem_map_of_mem hrow
          exact hrules ▸ h.rows _ hrow'
        have hturns : ∃ d, loop (batchTurn P w rule rule.version) none (db.ruleBatch w afterId throughId limit) db =
            .ok (((db.ruleBatch w afterId throughId limit).getLast?.map (·.2.id)).or none, d) :=
          batchTurns_of_ready ⟨rfl, rfl⟩ hready
        obtain ⟨d, hloop⟩ := hturns
        have hself : SameTexts db db := ⟨rfl, rfl⟩
        obtain ⟨-, -, hjobs, -⟩ := batchTurns_ok hself nodup_ruleBatch (fun row hrow => mem_ruleBatch hrow) hloop
        have henqueue : ∃ d', onlyIf ((db.ruleBatch w afterId throughId limit).length = limit)
            (enqueueNextBatch now w rule.id rule.version through
              (((db.ruleBatch w afterId throughId limit).getLast?.map (·.2.id)).or none)) d = .ok ((), d') := by
          unfold onlyIf
          split
          · refine enqueueNextBatch_of_ready fun cursor hcursor hne j hj => ?_
            rw [Option.or_none] at hcursor
            rw [hjobs] at hj
            exact h.next _ _ ((nextJob_batch hrules hthrough).2 ⟨cursor, hcursor, ‹_›, hne, rfl, rfl⟩) j hj
          · exact ⟨d, rfl⟩
        obtain ⟨d', henqueue⟩ := henqueue
        rw [ruleBatch_of_some hthrough] at hloop henqueue
        refine ⟨((db.ruleBatch w afterId throughId limit).getLast?.map (·.2.id)).or none, d',
          bind_require_ok.2 ⟨h.valid rule hrule, ?_⟩⟩
        rw [if_neg hstale, ruleBatch_of_some hthrough]
        exact bind_ok.2 ⟨_, d, hloop, bind_ok.2 ⟨_, d', henqueue, rfl⟩⟩

theorem mem_rows_evaluate {id : ArticleId} {evaluations : List PendingRuleEvaluation} {row : ArticleKey × Article} :
    row ∈ (RuleJob.evaluate w id evaluations).rows db ↔ db.articles.lookup row.1 = some row.2 ∧ row.1 = (w, id) := by
  simp only [RuleJob.rows, Option.mem_toList, Option.map_eq_some_iff]
  constructor
  · rintro ⟨a, ha, rfl⟩
    exact ⟨ha, rfl⟩
  · rintro ⟨ha, hk⟩
    exact ⟨row.2, hk ▸ ha, by rw [← hk]⟩

theorem tx_keeps {γ : Type} {f : Db → γ} (hf : OutsideRules f) (job : RuleJob) (lease : LeasedWork) (now : DateTime) :
    Keeps f (job.tx P lease now) := by
  cases job with
  | evaluate w id evaluations => exact evaluateArticleRules_keeps hf _ _ _ _ _
  | batch w ruleId version afterId throughId limit =>
    exact keeps_bind (applyRuleBatch_keeps hf _ _ _ _ _ _ _ _) fun _ => keeps_pure _

/-- The rows of a job are stored articles. -/
theorem lookup_of_mem_rows (job : RuleJob) {row : ArticleKey × Article} (h : row ∈ job.rows db) :
    db.articles.lookup row.1 = some row.2 := by
  cases job with
  | evaluate w id evaluations => exact (mem_rows_evaluate.1 h).1
  | batch w ruleId version afterId throughId limit =>
    simp only [RuleJob.rows] at h
    split at h
    · cases h
    · obtain ⟨row, hrow, rfl⟩ := List.mem_map.1 h
      exact mem_ruleBatch hrow

theorem mem_rows_of_key (job : RuleJob) {k : ArticleKey} {a : Article} (hk : k ∈ (job.rows db).map (·.1))
    (ha : db.articles.lookup k = some a) : (k, a) ∈ job.rows db := by
  obtain ⟨row, hrow, rfl⟩ := List.mem_map.1 hk
  have hstored := job.lookup_of_mem_rows hrow
  rw [ha] at hstored
  cases hstored
  exact hrow

/-- A job that commits was ready, and it did what it had to. -/
theorem tx_ok {u : Unit} (hrun : job.tx P lease now db = .ok (u, db')) : job.Ready P db lease now ∧ job.Done P db db' := by
  cases job with
  | evaluate w id evaluations =>
    obtain ⟨h, harticles⟩ := evaluateArticleRules_ok hrun
    have hkeeps := evaluateArticleRules_jobs _ _ _ _ _ _ _ _ hrun
    refine ⟨⟨h.lease, h.rules, fun row hrow => ?_, by simp [nextJob]⟩, ⟨fun k => ?_, fun i => .inl (by rw [hkeeps])⟩⟩
    · obtain ⟨ha, hrow⟩ := mem_rows_evaluate.1 hrow
      exact h.row row.2 (hrow ▸ ha)
    · rw [harticles k]
      by_cases hk : k = (w, id)
      · subst hk
        cases ha : db.articles.lookup (w, id) with
        | none => simp
        | some a =>
          have hin : (w, id) ∈ ((RuleJob.evaluate w id evaluations).rows db).map (·.1) :=
            List.mem_map.2 ⟨((w, id), a), mem_rows_evaluate.2 ⟨ha, rfl⟩, rfl⟩
          rw [if_pos rfl, if_pos hin]
          rfl
      · rw [if_neg hk, if_neg]
        intro hin
        obtain ⟨row, hrow, rfl⟩ := List.mem_map.1 hin
        exact hk (mem_rows_evaluate.1 hrow).2
  | batch w ruleId version afterId throughId limit =>
    obtain ⟨r, d, hbatch, hrun⟩ := bind_ok.1 hrun
    cases hrun
    exact batch_ok hbatch

/-- A job that is ready commits. -/
theorem Ready.run (h : job.Ready P db lease now) : ∃ db', job.tx P lease now db = .ok ((), db') := by
  cases job with
  | evaluate w id evaluations =>
    refine EvaluateReady.run ⟨h.lease, h.valid, fun a ha => ?_⟩
    exact h.rows ((w, id), a) (mem_rows_evaluate.2 ⟨ha, rfl⟩)
  | batch w ruleId version afterId throughId limit =>
    obtain ⟨r, d, hbatch⟩ := batch_of_ready h
    exact ⟨d, bind_ok.2 ⟨r, d, hbatch, rfl⟩⟩

end RuleJob
end
end Inoreader
