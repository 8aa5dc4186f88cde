import Inoreader.Rules.Archive
import Inoreader.Library.Run

/-!
# Applications of one rule

The chain itself never breaks: no batch is ever refused because of an earlier job, and the number of
batches is bounded. What can go wrong is at its two ends. A batch waits for the texts of all its articles
(`Archive.Decided`), and a second call has no chain of its own (`Archive.Repeatable`).
-/

namespace Inoreader
open Lib Tx

namespace Archive
section
variable {A : Archive} {s s' : ArchiveWorld} {db db' : Db} {a : ArticleId} {op : ArchiveOp}
  {afterId throughId : Option ArticleId} {lease : LeasedWork} {now done : DateTime}

/-- The call waits for nothing but its job. -/
theorem enqueueRuleApplication_ok {articles : List ArticleId} {id : JobId}
    (h : enqueueRuleApplication A.w A.rule articles now db = .ok (id, db')) :
    (∃ j, db.ingestJobs.lookup A.start = some j ∧ j.item = A.item none (articles.argmax (·.uuid)) ∧ db' = db) ∨
      (db.ingestJobs.lookup A.start = none ∧ ∃ origin,
        db' = db.setJob A.start (.new (A.item none (articles.argmax (·.uuid))) (millis now) origin)) := by
  obtain ⟨-, h⟩ := bind_require_ok.1 h
  obtain ⟨_, d, h, hpure⟩ := bind_ok.1 h
  cases hpure
  rcases enqueueWorkTx_ok h with ⟨j, hj, hitem, rfl⟩ | ⟨hnone, origin, -, rfl⟩
  · exact .inl ⟨j, hj, hitem, rfl⟩
  · exact .inr ⟨hnone, origin, rfl⟩

theorem enqueueRuleApplication_of_item {articles : List ArticleId}
    (h : ∀ j, db.ingestJobs.lookup A.start = some j → j.item = A.item none (articles.argmax (·.uuid))) :
    ∃ db', enqueueRuleApplication A.w A.rule articles now db = .ok (A.start, db') := by
  have hwork : ∃ d, enqueueWorkTx A.start (A.item none (articles.argmax (·.uuid))) now db = .ok ((), d) := by
    unfold enqueueWorkTx
    simp only [bind_run, get_run]
    cases hj : db.ingestJobs.lookup A.start with
    | some j =>
      refine ⟨db, ?_⟩
      simp only [require, if_pos (h j hj)]
      rfl
    | none => exact ⟨_, rfl⟩
  obtain ⟨d, hd⟩ := hwork
  exact ⟨d, bind_require_ok.2 ⟨A.valid, bind_ok.2 ⟨(), d, hd, rfl⟩⟩⟩

/-- A batch with a job that is open. -/
theorem work_cases (h : A.Chain s) (hstep : A.step s (.work lease now done) = some s') :
    ∃ afterId throughId, A.Open s lease.jobId afterId throughId ∧ s.db.leaseCurrent lease now = true ∧
      lease.item = A.item afterId throughId ∧
      ((∃ db', A.batch lease now done afterId throughId s.db = .ok ((), db') ∧
          Batched A s.db db' lease.jobId afterId throughId ∧ s' = A.worked s afterId throughId db') ∨
        ∃ e, A.batch lease now done afterId throughId s.db = .error e ∧ s' = { s with failed := s.failed ++ [e] }) := by
  simp only [step] at hstep
  split at hstep
  · rename_i hguard
    obtain ⟨howns, hlease, hitem⟩ := hguard
    split at hstep
    · cases hstep
    · rename_i afterId throughId hbounds
      have hwork := item_of_bounds hbounds
      obtain ⟨j, hj, hji⟩ := Option.map_eq_some_iff.1 hitem
      have hstatus : j.status ≠ .completed := by
        unfold Db.leaseCurrent at hlease
        rw [hj] at hlease
        simp only [Option.any_some, Job.holds, Bool.and_eq_true, beq_iff_eq] at hlease
        rw [hlease.1.1]
        decide
      refine ⟨afterId, throughId, h.open_of_job howns hj hstatus (hji.trans hwork), hlease, hwork, ?_⟩
      cases hrun : A.batch lease now done afterId throughId s.db with
      | ok r =>
        simp only [hrun] at hstep
        cases hstep
        exact .inl ⟨r.2, rfl, batch_ok h.rule (hitem.trans (congrArg some hwork)) hrun, rfl⟩
      | error e =>
        simp only [hrun] at hstep
        cases hstep
        exact .inr ⟨e, rfl, rfl⟩
  · cases hstep

/-- The ghosts of failed calls and batches do not matter to the chain. -/
theorem Chain.congr (h : A.Chain s) (reads : List (List ArticleId)) (refused : Nat) (failed : List StoreError) :
    A.Chain { s with reads, refused, failed } := by
  refine ⟨h.rule, h.ids, h.present, h.calls, h.sorted, h.logged, h.started.imp (fun i => ?_) fun hs => hs, ?_⟩
  · exact ⟨i.jobs, i.log, i.batches, i.boundary, i.archive, i.calls⟩
  · rcases h.phase with i | ⟨id, afterId, throughId, o⟩ | c
    · exact .inl ⟨i.jobs, i.log, i.batches, i.boundary, i.archive, i.calls⟩
    · exact .inr (.inl ⟨id, afterId, throughId, o.owns, o.job, o.others, o.cursors, o.first, o.later, o.archive⟩)
    · exact .inr (.inr ⟨c.jobs, c.batches, c.archive⟩)

theorem Chain.step (h : A.Chain s) (hstep : A.step s op = some s') : A.Chain s' := by
  cases op with
  | read =>
    cases hstep
    exact h.congr _ _ _
  | enqueue articles now =>
    simp only [Archive.step] at hstep
    split at hstep
    · cases hrun : enqueueRuleApplication A.w A.rule articles now s.db with
      | error e =>
        simp only [hrun] at hstep
        cases hstep
        exact h.congr _ _ _
      | ok r =>
        simp only [hrun] at hstep
        cases hstep
        rcases enqueueRuleApplication_ok hrun with ⟨j, hj, -, hdb⟩ | ⟨hnone, origin, hdb⟩
        · rw [hdb]
          exact h.enqueue_old (by rw [hj]; rfl) articles
        · rw [hdb]
          rcases h.started with hidle | hstarted
          · exact (h.enqueue_new hidle articles _ _ origin).1
          · rw [hnone] at hstarted
            cases hstarted
    · cases hstep
  | work lease now done =>
    obtain ⟨afterId, throughId, hopen, -, -, ⟨db', -, hb, rfl⟩ | ⟨e, -, rfl⟩⟩ := work_cases h hstep
    · exact h.worked hopen hb
    · exact h.congr _ _ _
  | other db =>
    simp only [Archive.step] at hstep
    split at hstep
    · rename_i hl
      cases hstep
      exact h.other hl
    · cases hstep

theorem Fresh.idle (h : A.Fresh s) : A.Idle s := by
  refine ⟨fun i hi => ?_, h.log, h.batches, h.boundary, h.archive, h.calls⟩
  cases hj : s.db.ingestJobs.lookup i with
  | none => rfl
  | some j => exact absurd hi (h.jobs (i, j) (Table.mem_rows.2 hj))

theorem Fresh.chain (h : A.Fresh s) : A.Chain s := by
  refine ⟨h.rule, fun i a ha => h.articles _ (Table.mem_rows.2 ha) rfl, ?_, ?_, ?_, ?_, .inl h.idle, .inl h.idle⟩
  · rw [h.archive]; simp
  · rw [h.calls]; simp
  · rw [h.log]; exact List.Pairwise.nil
  · rw [h.log]; simp

/-! ## Batches that fail -/

/-- Every article of the next batch can be decided: its text is there, or its title settles the rule. -/
def Decided (A : Archive) (s : ArchiveWorld) : ArchiveOp → Prop
  | .work lease _ _ => ∀ b ∈ A.bounds lease.item, ∀ row ∈ s.db.ruleBatch A.w b.1 b.2 A.limit, s.db.RowReady A.P [A.rule] row.2
  | _ => True

/-- The text of an article is read without a write. -/
theorem rowReady_iff {P : Platform} {rules : List Rule} {article : Article} :
    db.RowReady P rules article ↔ (articleFullText article db).isOk = true ∧
      (∀ r ∈ rules, r.ContentReady P article (db.fullText article)) ∧ (∀ r ∈ rules, r.version ≤ bigintMax) ∧
      (applyRules P article.key.title (db.fullText article) rules article.state ≠ article.state →
        min (article.revision + 1) (2 ^ 64 - 1) ≤ bigintMax) := by
  constructor
  · rintro ⟨⟨text, htext⟩, hdecided, hversion, hrevision⟩
    exact ⟨by rw [htext]; rfl, hdecided, hversion, hrevision⟩
  · rintro ⟨hok, hdecided, hversion, hrevision⟩
    refine ⟨?_, hdecided, hversion, hrevision⟩
    cases htext : articleFullText article db with
    | error e =>
      rw [htext] at hok
      cases hok
    | ok r =>
      obtain ⟨text, d⟩ := r
      exact ⟨text, by rw [(articleFullText_ok htext).1]⟩

instance (P : Platform) (rules : List Rule) (article : Article) : Decidable (db.RowReady P rules article) :=
  decidable_of_iff _ rowReady_iff.symm

instance (s : ArchiveWorld) : (op : ArchiveOp) → Decidable (A.Decided s op)
  | .work lease _ _ => inferInstanceAs (Decidable (∀ b ∈ A.bounds lease.item,
      ∀ row ∈ s.db.ruleBatch A.w b.1 b.2 A.limit, s.db.RowReady A.P [A.rule] row.2))
  | .read | .enqueue _ _ | .other _ => inferInstanceAs (Decidable True)

/-- The job of the next batch is new: its cursor lies behind all cursors that were used. -/
theorem Chain.next_new (h : A.Chain s) (hopen : A.Open s lease.jobId afterId throughId) {i : JobId} {next : WorkItem}
    (hnext : (RuleJob.batch A.w A.rule.id A.rule.version afterId throughId A.limit).nextJob s.db = some (i, next)) :
    s.db.ingestJobs.lookup i = none := by
  cases ht : throughId.or ((s.db.workspaceArticles A.w).getLast?.map (·.1)) with
  | none =>
    simp only [RuleJob.nextJob, jobRules h.rule, ht] at hnext
    cases hnext
  | some t =>
    obtain ⟨c, hc, -, -, rfl, -⟩ := (RuleJob.nextJob_batch (jobRules h.rule) ht).1 hnext
    obtain ⟨row, hrow, rfl⟩ := List.mem_map.1 (h.cursor hc).1
    obtain ⟨hafter, -⟩ := mem_ruleBatch_bounds ht hrow
    by_contra hsome
    obtain ⟨b, rfl, hcb⟩ := hopen.cursors row.1 (Option.isSome_iff_ne_none.2 hsome)
    have : b.uuid < row.1.uuid := by simpa using hafter
    omega

/-- A batch whose articles are all decided commits. -/
theorem Chain.batch_of_decided (h : A.Chain s) (hopen : A.Open s lease.jobId afterId throughId)
    (hlease : s.db.leaseCurrent lease now = true)
    (hrows : ∀ row ∈ s.db.ruleBatch A.w afterId throughId A.limit, s.db.RowReady A.P [A.rule] row.2) :
    ∃ db', A.batch lease now done afterId throughId s.db = .ok ((), db') := by
  have hready : (RuleJob.batch A.w A.rule.id A.rule.version afterId throughId A.limit).Ready A.P s.db lease now := by
    refine ⟨hlease, fun r hr => ?_, fun row hrow => ?_, fun i next hnext j hj => ?_⟩
    · rw [h.rule] at hr
      cases hr
      exact A.valid
    · rw [jobRules h.rule]
      rw [RuleJob.rows_batch (jobRules h.rule)] at hrow
      obtain ⟨row', hrow', rfl⟩ := List.mem_map.1 hrow
      exact hrows row' hrow'
    · rw [h.next_new hopen hnext] at hj
      cases hj
  obtain ⟨r, d, hbatch⟩ := RuleJob.batch_of_ready hready
  obtain ⟨-, hdone⟩ := RuleJob.batch_ok hbatch
  obtain ⟨j, hj, -⟩ := hopen.job
  have hkeep : d.ingestJobs.lookup lease.jobId = some j := by
    rcases hdone.jobs lease.jobId with hsame | ⟨hnone, -⟩
    · rw [hsame, hj]
    · rw [hnone] at hj
      cases hj
  unfold Db.leaseCurrent at hlease
  rw [hj] at hlease
  simp only [Option.any_some, Job.holds, Bool.and_eq_true, beq_iff_eq] at hlease
  have hcomplete : ∃ d', complete A.cfg done lease.jobId lease.token d = .ok ((), d') := by
    unfold complete
    rw [bind_run, get_run]
    refine ⟨_, bind_orThrow_ok.2 ⟨j, ?_, rfl⟩⟩
    rw [hkeep, Option.filter_eq_some_iff]
    exact ⟨rfl, by simp [hlease.1.1, hlease.1.2]⟩
  obtain ⟨d', hd'⟩ := hcomplete
  exact ⟨d', bind_ok.2 ⟨r, d, hbatch, hd'⟩⟩

theorem batchTurn_error (rule : Rule) (acc : Option ArticleId) (row : ArticleId × Article) (db : Db) :
    fails (batchTurn A.P A.w rule rule.version acc row) (· ≠ .conflict) db := by
  have htext : fails (articleFullText row.2) (· ≠ .conflict) db := by
    unfold articleFullText
    simp only [fails_bind, fails_get, true_and, wp_get]
    refine ⟨fails_loop fun acc d record _ => ?_, fun _ _ _ => by simp⟩
    cases db.contentManifests.lookup record with
    | none => simp
    | some pointer => simp
  have hstore : ∀ state d, fails (storeState (A.w, row.1) row.2 state) (· ≠ .conflict) d := by
    intro state d
    unfold storeState
    split
    · simp
    · simp [toI64]
  unfold batchTurn
  simp only [fails_bind]
  refine ⟨htext, fun text d₁ _ => ⟨by simp [ensureRuleContent], fun _ d₂ _ => ⟨hstore _ _, fun _ d₃ _ => ⟨?_, ?_⟩⟩⟩⟩
  · simp [upsertRuleEvaluation, toI64]
  · exact fun _ _ _ => by simp

/-- No batch is refused because of a job that exists already. -/
theorem Chain.batch_error (h : A.Chain s) (hopen : A.Open s lease.jobId afterId throughId) :
    fails (A.batch lease now done afterId throughId) (· ≠ .conflict) s.db := by
  have hcomplete : ∀ d, fails (complete A.cfg done lease.jobId lease.token) (· ≠ .conflict) d := by
    intro d
    unfold complete
    simp only [fails_bind, fails_get, true_and, wp_get, fails_orThrow, fails_modify]
    exact ⟨fun _ => by simp, fun _ _ _ => trivial⟩
  unfold batch
  rw [fails_bind]
  refine ⟨?_, fun _ d _ => hcomplete d⟩
  rw [applyRuleBatch_eq, fails_bind]
  refine ⟨fun e he => ?_, fun _ d hd => ?_⟩
  · rw [assertLease_run] at he
    split at he <;> cases he
    simp
  obtain ⟨-, rfl⟩ := assertLease_ok hd
  simp only [fails_bind, fails_get, true_and, wp_get, h.rule]
  refine ⟨by simp [validateRule], fun _ d hd => ?_⟩
  obtain ⟨-, hd⟩ := require_ok.1 hd
  subst hd
  rw [if_neg (by simp [A.enabled])]
  cases ht : throughId.or ((s.db.workspaceArticles A.w).getLast?.map (·.1)) with
  | none => exact fails_pure _ _ _
  | some t =>
    simp only [fails_bind, ← ruleBatch_of_some ht]
    refine ⟨fails_loop fun acc d row _ => batchTurn_error A.rule acc row d, fun last d₁ hloop => ⟨?_, fun _ _ _ => by simp⟩⟩
    have hself : SameTexts s.db s.db := ⟨rfl, rfl⟩
    obtain ⟨-, hlast, hjobs, -⟩ := batchTurns_ok hself nodup_ruleBatch (fun row hrow => mem_ruleBatch hrow) hloop
    rw [Option.or_none] at hlast
    rw [fails_onlyIf]
    intro hlen e he
    cases last with
    | none => cases he
    | some c =>
      simp only [enqueueNextBatch, onlyIf] at he
      split at he
      · rename_i hct
        rw [← ruleBatch_of_some ht] at hlen
        have hnext := (RuleJob.nextJob_batch (jobRules h.rule) ht).2 ⟨c, hlast.symm, hlen, hct, rfl, rfl⟩
        have hnone := h.next_new hopen hnext
        rw [← hjobs] at hnone
        rw [enqueueWork_of_none hnone rfl] at he
        cases he
      · cases he

/-! ## Calls -/

/-- The call finds no job, or the job of an application with the same bound, and that application has
evaluated every article or still comes to it. -/
def Repeatable (A : Archive) (s : ArchiveWorld) : ArchiveOp → Prop
  | .enqueue articles _ => ∀ j ∈ s.db.ingestJobs.lookup A.start, j.item = A.item none (articles.argmax (·.uuid)) ∧
    ∀ i ∈ articles, A.Present s.db i → A.Evaluated s.db i ∨ A.Ahead s.db i
  | _ => True

instance (s : ArchiveWorld) : (op : ArchiveOp) → Decidable (A.Repeatable s op)
  | .enqueue articles _ => inferInstanceAs (Decidable (∀ j ∈ s.db.ingestJobs.lookup A.start,
      j.item = A.item none (articles.argmax (·.uuid)) ∧
        ∀ i ∈ articles, A.Present s.db i → A.Evaluated s.db i ∨ A.Ahead s.db i))
  | .read | .work _ _ _ | .other _ => inferInstanceAs (Decidable True)

/-- Every article that a call has read is evaluated or still to come. -/
def Covered (A : Archive) (s : ArchiveWorld) : Prop :=
  ∀ ids ∈ s.calls, ∀ i ∈ ids, A.Evaluated s.db i ∨ A.Ahead s.db i

theorem Covered.step (hc : A.Covered s) (h : A.Chain s) (hop : A.Repeatable s op) (hstep : A.step s op = some s') :
    A.Covered s' := by
  cases op with
  | read =>
    cases hstep
    exact hc
  | enqueue articles now =>
    simp only [Archive.step] at hstep
    split at hstep
    · cases hrun : enqueueRuleApplication A.w A.rule articles now s.db with
      | error e =>
        simp only [hrun] at hstep
        cases hstep
        exact hc
      | ok r =>
        simp only [hrun] at hstep
        cases hstep
        rcases enqueueRuleApplication_ok hrun with ⟨j, hj, -, hdb⟩ | ⟨hnone, origin, hdb⟩
        · rw [hdb]
          intro ids hids i hi
          rcases List.mem_append.1 hids with hids | hids
          · exact hc ids hids i hi
          · rw [List.mem_singleton.1 hids] at hi
            obtain ⟨hi, hp⟩ := List.mem_filter.1 hi
            exact (hop j hj).2 i hi (of_decide_eq_true hp)
        · -- the first call: the new job is ahead of everything up to the greatest article
          rw [hdb]
          rcases h.started with hidle | hstarted
          · obtain ⟨-, hopen⟩ := h.enqueue_new hidle articles (articles.argmax (·.uuid)) (millis now) origin
            intro ids hids i hi
            rw [show (A.called s articles _).calls = s.calls ++ _ from rfl, hidle.calls, List.nil_append,
              List.mem_singleton] at hids
            subst hids
            refine .inr (hopen.ahead.2 ⟨rfl, ?_⟩)
            rw [Option.all_eq_true]
            intro m hm
            exact decide_eq_true (List.le_of_mem_argmax (List.mem_filter.1 hi).1 hm)
          · rw [hnone] at hstarted
            cases hstarted
    · cases hstep
  | work lease now done =>
    obtain ⟨afterId, throughId, hopen, -, -, ⟨db', -, hb, rfl⟩ | ⟨e, -, rfl⟩⟩ := work_cases h hstep
    · intro ids hids i hi
      rcases hc ids hids i hi with he | hahead
      · exact .inl (hb.evaluated he)
      · have hp := h.calls ids hids i hi
        rcases h.worked_phase hopen hb with ⟨c, t, hnext, hcover⟩ | ⟨-, hcover⟩
        · rcases hcover i hp hahead with hpage | ⟨hlt, hle⟩
          · exact .inl (hb.evaluated_of_mem h.ids hpage)
          · exact .inr (hnext.ahead.2 ⟨by simpa using hlt, by simpa using hle⟩)
        · exact .inl (hb.evaluated_of_mem h.ids (hcover i hp hahead))
    · exact hc
  | other db =>
    simp only [Archive.step] at hstep
    split at hstep
    · rename_i hl
      cases hstep
      intro ids hids i hi
      obtain ⟨ids', hids', rfl⟩ := List.mem_map.1 hids
      obtain ⟨hi, hp⟩ := List.mem_filter.1 hi
      exact (hc ids' hids' i hi).imp (hl.evaluated (of_decide_eq_true hp)) hl.ahead
    · cases hstep

theorem refused_step (hop : A.Repeatable s op) (hstep : A.step s op = some s') : s'.refused = s.refused := by
  cases op with
  | read =>
    cases hstep
    rfl
  | enqueue articles now =>
    simp only [Archive.step] at hstep
    split at hstep
    · have hok : ∃ db', enqueueRuleApplication A.w A.rule articles now s.db = .ok (A.start, db') :=
        enqueueRuleApplication_of_item fun j hj => (hop j hj).1
      obtain ⟨db', hok⟩ := hok
      simp only [hok] at hstep
      cases hstep
      rfl
    · cases hstep
  | work lease now done =>
    simp only [Archive.step] at hstep
    split at hstep
    · split at hstep
      · cases hstep
      · split at hstep <;> cases hstep <;> rfl
    · cases hstep
  | other db =>
    simp only [Archive.step] at hstep
    split at hstep
    · cases hstep
      rfl
    · cases hstep

/-- A step adds at most the error of its batch. -/
theorem failed_step (h : A.Chain s) (hstep : A.step s op = some s') :
    s'.failed = s.failed ∨ ∃ lease now done afterId throughId e, op = .work lease now done ∧
      A.Open s lease.jobId afterId throughId ∧ s.db.leaseCurrent lease now = true ∧ lease.item = A.item afterId throughId ∧
      A.batch lease now done afterId throughId s.db = .error e ∧ s'.failed = s.failed ++ [e] := by
  cases op with
  | read =>
    cases hstep
    exact .inl rfl
  | enqueue articles now =>
    simp only [Archive.step] at hstep
    split at hstep
    · split at hstep <;> cases hstep <;> exact .inl rfl
    · cases hstep
  | work lease now done =>
    obtain ⟨afterId, throughId, hopen, hlease, hitem, ⟨db', -, -, rfl⟩ | ⟨e, he, rfl⟩⟩ := work_cases h hstep
    · exact .inl rfl
    · exact .inr ⟨lease, now, done, afterId, throughId, e, rfl, hopen, hlease, hitem, he, rfl⟩
  | other db =>
    simp only [Archive.step] at hstep
    split at hstep
    · cases hstep
      exact .inl rfl
    · cases hstep

theorem Completed.jobs (h : A.Completed db) {i : JobId} {j : Job} (hi : A.Owns i) (hj : db.ingestJobs.lookup i = some j) :
    j.status = .completed := h (i, j) (Table.mem_rows.2 hj) hi

theorem Chain.closed (h : A.Chain s) (hc : A.Completed s.db) : A.Idle s ∨ A.Closed s := by
  rcases h.phase with hidle | ⟨id, afterId, throughId, ho⟩ | hclosed
  · exact .inl hidle
  · obtain ⟨j, hj, -, hstatus⟩ := ho.job
    exact absurd (hc.jobs ho.owns hj) hstatus
  · exact .inr hclosed

end
end Archive

/-- In every run whose batches find all their articles decided, no batch fails, there are at most as many
batches as ids up to the bound, and when all jobs are completed each article that was there at the start,
has stayed and lies within the bound has been evaluated exactly once. -/
theorem archive_visited_once {A : Archive} {s s' : ArchiveWorld} {ops : List ArchiveOp} (hstart : A.Fresh s)
    (hops : Along A.step A.Decided s ops) (hrun : run A.step s ops = some s') :
    s'.failed = [] ∧ s'.batches ≤ (s'.boundary.map (·.uuid)).getD 0 + 1 ∧
      (A.Completed s'.db → ∀ i ∈ s'.archive, s'.boundary.all (i.uuid ≤ ·.uuid) = true →
        s'.log.count i = 1 ∧ A.Evaluated s'.db i) := by
  have hinv : A.Chain s' ∧ s'.failed = [] := by
    refine run_inv (P := A.Decided) (fun s => A.Chain s ∧ s.failed = []) (fun s op s' hs hop hstep => ?_)
      ⟨hstart.chain, hstart.failed⟩ hops hrun
    refine ⟨hs.1.step hstep, ?_⟩
    rcases Archive.failed_step hs.1 hstep with hsame | ⟨lease, now, done, afterId, throughId, e, rfl, ho, hlease, hitem, he, -⟩
    · rw [hsame, hs.2]
    · have hrows := hop (afterId, throughId) (by rw [hitem, Archive.bounds_item]; rfl)
      have hbatch : ∃ db', A.batch lease now done afterId throughId _ = .ok ((), db') := hs.1.batch_of_decided ho hlease hrows
      obtain ⟨db', hok⟩ := hbatch
      rw [hok] at he
      cases he
  obtain ⟨h, hfailed⟩ := hinv
  refine ⟨hfailed, ?_, fun hc i hi hbound => ?_⟩
  · rcases h.phase with hidle | ⟨id, afterId, throughId, ho⟩ | hclosed
    · rw [hidle.batches]
      omega
    · cases afterId with
      | none =>
        rw [(ho.first rfl).2.1]
        omega
      | some a =>
        obtain ⟨-, hbatches, t, -, hb, hlt⟩ := ho.later a rfl
        rw [hb]
        simp only [Option.map_some, Option.getD_some]
        omega
    · exact hclosed.batches
  · have hlog : i ∈ s'.log := by
      rcases h.closed hc with hidle | hclosed
      · rw [hidle.archive] at hi
        cases hi
      · exact hclosed.archive i hi hbound
    have hnodup : s'.log.Nodup := h.sorted.imp fun hlt he => by rw [he] at hlt; exact lt_irrefl _ hlt
    exact ⟨List.count_eq_one_of_mem hnodup hlog, h.logged i hlog hi⟩

namespace Sample

def archiveRule : Rule :=
  { id := ⟨3⟩, subscriptionId := ⟨1⟩, version := 0, enabled := true, field := .both, needles := ["first"]
    action := .markRead }

theorem archiveRule_valid : archiveRule.valid = true := by decide +kernel

def archiveConfig : StoreConfig :=
  { pollInterval := 1, perOriginConcurrency := 1, maxRetryAge := 1, pollInterval_pos := Int.zero_lt_one
    perOriginConcurrency_pos := Nat.one_pos, maxRetryAge_pos := Int.zero_lt_one }

/-- The rule is applied one article at a time. -/
def application : Archive :=
  { P := platform, cfg := archiveConfig, w := ⟨1⟩, rule := archiveRule, limit := 1, valid := archiveRule_valid
    enabled := rfl, positive := Nat.le_refl 1 }

/-- A workspace whose articles have these titles and no text. -/
def archiveWorld (titles : List String) : ArchiveWorld :=
  { db := { rules := (∅ : Table (WorkspaceId × RuleId) Rule).insert (⟨1⟩, ⟨3⟩) archiveRule
            articles := titles.zipIdx.foldl (fun t e => t.insert (⟨1⟩, ⟨e.2 + 1⟩) { article e.1 1 with id := ⟨e.2 + 1⟩ }) ∅ }
    reads := [], calls := [], archive := [], boundary := none, log := [], batches := 0, refused := 0, failed := [] }

/-- A worker leases the job. -/
def leaseJob (db : Db) (id : JobId) : Db :=
  (db.ingestJobs.lookup id).elim db fun j => db.setJob id (j.leasedBy ⟨1⟩ 1000000000)

def archiveLease (id : JobId) (afterId throughId : Option ArticleId) : LeasedWork :=
  { jobId := id, item := application.item afterId throughId, token := ⟨1⟩, deadline := 1000000000, attempt := 0 }

/-- A call reads the articles and starts the chain, and a worker leases its first job. -/
def applying (titles : List String) : List ArchiveOp :=
  let ids := titles.zipIdx.map fun e => ArticleId.mk (e.2 + 1)
  let enqueue : List ArchiveOp := [.read, .enqueue ids 5]
  let enqueued := (run application.step (archiveWorld titles) enqueue).getD (archiveWorld titles)
  enqueue ++ [.other (leaseJob enqueued.db application.start)]

/-- The application of the rule to two articles whose titles settle it. -/
def applied : List ArchiveOp :=
  let first := applying ["first", "the first"] ++ [.work (archiveLease application.start none (some ⟨2⟩)) 6 7]
  let half := (run application.step (archiveWorld ["first", "the first"]) first).getD (archiveWorld [])
  first ++ [.other (leaseJob half.db (.rule ⟨3⟩ 0 ⟨1⟩)), .work (archiveLease (.rule ⟨3⟩ 0 ⟨1⟩) (some ⟨1⟩) (some ⟨2⟩)) 8 9]

def afterApplication : ArchiveWorld :=
  (run application.step (archiveWorld ["first", "the first"]) applied).getD (archiveWorld [])

end Sample

theorem archive_visited_once_titles :
    run Sample.application.step (Sample.archiveWorld ["first", "the first"]) Sample.applied = some Sample.afterApplication ∧
      Sample.application.Completed Sample.afterApplication.db ∧ Sample.afterApplication.archive = [⟨1⟩, ⟨2⟩] ∧
      Sample.afterApplication.boundary = some ⟨2⟩ ∧
      (Sample.afterApplication.failed = [] ∧
        Sample.afterApplication.batches ≤ (Sample.afterApplication.boundary.map (·.uuid)).getD 0 + 1 ∧
        (Sample.application.Completed Sample.afterApplication.db → ∀ i ∈ Sample.afterApplication.archive,
          Sample.afterApplication.boundary.all (i.uuid ≤ ·.uuid) = true →
            Sample.afterApplication.log.count i = 1 ∧ Sample.application.Evaluated Sample.afterApplication.db i)) := by
  have hrun : run Sample.application.step (Sample.archiveWorld ["first", "the first"]) Sample.applied =
      some Sample.afterApplication := run_getD (by decide +kernel) _
  refine ⟨hrun, by decide +kernel, by decide +kernel, by decide +kernel, archive_visited_once ?_ (by decide +kernel) hrun⟩
  exact ⟨by decide +kernel, by decide +kernel, by decide +kernel, rfl, rfl, rfl, rfl, rfl, rfl, rfl⟩

namespace Sample

/-- The first article awaits its text, the second is settled by its title. -/
def blocked : ArchiveWorld :=
  (run application.step (archiveWorld ["other", "first"]) (applying ["other", "first"])).getD (archiveWorld [])

def blockedLease : LeasedWork := archiveLease application.start none (some ⟨2⟩)

def awaits : StoreError := .unavailable "rule evaluation awaits fulltext"

/-- The error of a run. -/
def errorOf : Except StoreError (Unit × Db) → Option StoreError
  | .error e => some e
  | .ok _ => none

theorem eq_error {r : Except StoreError (Unit × Db)} {e : StoreError} (h : errorOf r = some e) : r = .error e := by
  cases r with
  | ok _ => cases h
  | error e' => exact congrArg Except.error (Option.some.inj h)

/-- An attempt to run the job fails. -/
theorem blocked_step (failed : List StoreError) :
    application.step { blocked with failed } (.work blockedLease 6 7) = some { blocked with failed := failed ++ [awaits] } := by
  have herror : application.batch blockedLease 6 7 none (some ⟨2⟩) blocked.db = .error awaits := eq_error (by decide +kernel)
  have hguard : application.Owns blockedLease.jobId ∧ blocked.db.leaseCurrent blockedLease 6 = true ∧
      (blocked.db.ingestJobs.lookup blockedLease.jobId).map (·.item) = some blockedLease.item := by decide +kernel
  have hbounds : application.bounds blockedLease.item = some (none, some ⟨2⟩) := Archive.bounds_item
  simp only [Archive.step, if_pos hguard, hbounds, herror]

end Sample

/-- However often the job of the chain is tried, an article that awaits its text keeps the next one, which
is settled by its title, from being evaluated. -/
theorem archive_blocked_by_text :
    Sample.application.Fresh (Sample.archiveWorld ["other", "first"]) ∧
      run Sample.application.step (Sample.archiveWorld ["other", "first"]) (Sample.applying ["other", "first"]) =
        some Sample.blocked ∧
      Sample.blocked.archive = [⟨1⟩, ⟨2⟩] ∧
      (∀ row ∈ Sample.blocked.db.ruleBatch ⟨1⟩ (some ⟨1⟩) (some ⟨2⟩) 1, row.1 = ⟨2⟩ ∧
        Sample.blocked.db.RowReady Sample.platform [Sample.archiveRule] row.2) ∧
      ∀ n : Nat, ∃ s, run Sample.application.step Sample.blocked (List.replicate n (.work Sample.blockedLease 6 7)) = some s ∧
        s.failed = List.replicate n Sample.awaits ∧ s.log = [] ∧ ¬ Sample.application.Completed s.db ∧
        ¬ Sample.application.Evaluated s.db ⟨2⟩ := by
  have hattempts : ∀ (n : Nat) (failed : List StoreError),
      run Sample.application.step { Sample.blocked with failed } (List.replicate n (.work Sample.blockedLease 6 7)) =
        some { Sample.blocked with failed := failed ++ List.replicate n Sample.awaits } := by
    intro n
    induction n with
    | zero => simp [run]
    | succ n ih =>
      intro failed
      rw [List.replicate_succ]
      refine run_cons.2 ⟨_, Sample.blocked_step failed, ?_⟩
      rw [ih, List.append_assoc, List.replicate_succ]
      rfl
  have hfailed : Sample.blocked.failed = [] := by decide +kernel
  have hlog : Sample.blocked.log = [] := by decide +kernel
  have hopen : ¬ Sample.application.Completed Sample.blocked.db := by decide +kernel
  have hsecond : ¬ Sample.application.Evaluated Sample.blocked.db ⟨2⟩ := by decide +kernel
  refine ⟨?_, run_getD (by decide +kernel) _, by decide +kernel, by decide +kernel, fun n => ⟨_, hattempts n Sample.blocked.failed, ?_⟩⟩
  · exact ⟨by decide +kernel, by decide +kernel, by decide +kernel, rfl, rfl, rfl, rfl, rfl, rfl, rfl⟩
  · exact ⟨by rw [hfailed]; rfl, hlog, hopen, hsecond⟩

/-- In every run whose calls are repeatable every call succeeds, no batch is refused because of another job,
and when all jobs are completed every article that a call has read is evaluated. -/
theorem rule_application_repeatable {A : Archive} {s s' : ArchiveWorld} {ops : List ArchiveOp} (hstart : A.Fresh s)
    (hops : Along A.step A.Repeatable s ops) (hrun : run A.step s ops = some s') :
    s'.refused = 0 ∧ .conflict ∉ s'.failed ∧
      (A.Completed s'.db → ∀ ids ∈ s'.calls, ∀ i ∈ ids, A.Evaluated s'.db i) := by
  have hinv : A.Chain s' ∧ A.Covered s' ∧ s'.refused = 0 ∧ .conflict ∉ s'.failed := by
    refine run_inv (P := A.Repeatable) (fun s => A.Chain s ∧ A.Covered s ∧ s.refused = 0 ∧ .conflict ∉ s.failed)
      (fun s op s' hs hop hstep => ?_) ⟨hstart.chain, ?_, hstart.refused, by rw [hstart.failed]; simp⟩ hops hrun
    · obtain ⟨h, hc, hrefused, hfailed⟩ := hs
      refine ⟨h.step hstep, hc.step h hop hstep, by rw [Archive.refused_step hop hstep, hrefused], ?_⟩
      rcases Archive.failed_step h hstep with hsame | ⟨lease, now, done, afterId, throughId, e, rfl, ho, -, -, he, hsame⟩
      · rw [hsame]
        exact hfailed
      · rw [hsame, List.mem_append, List.mem_singleton]
        rintro (hin | hin)
        · exact hfailed hin
        · exact h.batch_error ho e he hin.symm
    · intro ids hids
      rw [hstart.calls] at hids
      cases hids
  obtain ⟨h, hc, hrefused, hfailed⟩ := hinv
  refine ⟨hrefused, hfailed, fun hdone ids hids i hi => ?_⟩
  rcases hc ids hids i hi with he | hahead
  · exact he
  · exact absurd hahead (Archive.not_ahead_of_closed fun i j howns hj => hdone.jobs howns hj)

namespace Sample

/-- The rule is applied again after it was applied to all articles. -/
def repeated : List ArchiveOp := applied ++ [.read, .enqueue [⟨1⟩, ⟨2⟩] 10]

def afterRepetition : ArchiveWorld :=
  (run application.step (archiveWorld ["first", "the first"]) repeated).getD (archiveWorld [])

/-- The rule is applied to one article, a second article arrives, and the rule is applied again. -/
def grown : List ArchiveOp :=
  let first := applying ["first"] ++ [.work (archiveLease application.start none (some ⟨1⟩)) 6 7]
  let done := (run application.step (archiveWorld ["first"]) first).getD (archiveWorld [])
  first ++ [.other (done.db.setArticle (⟨1⟩, ⟨2⟩) { article "first" 1 with id := ⟨2⟩ }), .read, .enqueue [⟨1⟩, ⟨2⟩] 10]

def afterGrowth : ArchiveWorld := (run application.step (archiveWorld ["first"]) grown).getD (archiveWorld [])

end Sample

theorem rule_application_repeatable_twice :
    run Sample.application.step (Sample.archiveWorld ["first", "the first"]) Sample.repeated = some Sample.afterRepetition ∧
      Sample.application.Completed Sample.afterRepetition.db ∧
      Sample.afterRepetition.calls = [[⟨1⟩, ⟨2⟩], [⟨1⟩, ⟨2⟩]] ∧
      (Sample.afterRepetition.refused = 0 ∧ .conflict ∉ Sample.afterRepetition.failed ∧
        (Sample.application.Completed Sample.afterRepetition.db → ∀ ids ∈ Sample.afterRepetition.calls, ∀ i ∈ ids,
          Sample.application.Evaluated Sample.afterRepetition.db i)) := by
  have hrun : run Sample.application.step (Sample.archiveWorld ["first", "the first"]) Sample.repeated =
      some Sample.afterRepetition := run_getD (by decide +kernel) _
  refine ⟨hrun, by decide +kernel, by decide +kernel, rule_application_repeatable ?_ (by decide +kernel) hrun⟩
  exact ⟨by decide +kernel, by decide +kernel, by decide +kernel, rfl, rfl, rfl, rfl, rfl, rfl, rfl⟩

/-- After a greater article has arrived the rule cannot be applied again, and the article is not evaluated. -/
theorem second_application_refused :
    Sample.application.Fresh (Sample.archiveWorld ["first"]) ∧
      run Sample.application.step (Sample.archiveWorld ["first"]) Sample.grown = some Sample.afterGrowth ∧
      Sample.afterGrowth.refused = 1 ∧ Sample.application.Completed Sample.afterGrowth.db ∧
      Sample.application.Present Sample.afterGrowth.db ⟨2⟩ ∧ ¬ Sample.application.Evaluated Sample.afterGrowth.db ⟨2⟩ := by
  refine ⟨?_, run_getD (by decide +kernel) _, by decide +kernel, by decide +kernel, by decide +kernel, by decide +kernel⟩
  exact ⟨by decide +kernel, by decide +kernel, by decide +kernel, rfl, rfl, rfl, rfl, rfl, rfl, rfl⟩

end Inoreader
