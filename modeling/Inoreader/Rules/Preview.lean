import Inoreader.Rules.Application
import Inoreader.Server.Rules
import Inoreader.Lib.Lists
import Inoreader.Library.Presentation

/-!
# Previews and applications

A preview shows the articles of one subscription and matches the paragraphs of the content that is shown;
an application walks the whole workspace and matches the stored markup of all origins. On a library that
stays as it is, what the application will have recorded can be told from the library (`Archive.Still`), so
the two can be compared.
-/

namespace Inoreader
open Lib Tx

namespace Archive

/-- Other transactions leave the library as it is. -/
def Quiet (s : ArchiveWorld) : ArchiveOp → Prop
  | .other db => db.articles.rows = s.db.articles.rows ∧ db.contentManifests.rows = s.db.contentManifests.rows ∧
    db.stagedContentChunks.rows = s.db.stagedContentChunks.rows ∧ db.ruleEvaluations.rows = s.db.ruleEvaluations.rows
  | _ => True

instance (s : ArchiveWorld) : (op : ArchiveOp) → Decidable (Quiet s op)
  | .other db => inferInstanceAs (Decidable (db.articles.rows = s.db.articles.rows ∧
      db.contentManifests.rows = s.db.contentManifests.rows ∧ db.stagedContentChunks.rows = s.db.stagedContentChunks.rows ∧
      db.ruleEvaluations.rows = s.db.ruleEvaluations.rows))
  | .read | .enqueue _ _ | .work _ _ _ => inferInstanceAs (Decidable True)

/-- The library is as it was, but for what the chain did to the articles of its log. -/
structure Still (A : Archive) (db : Db) (s : ArchiveWorld) : Prop where
  texts : SameTexts db s.db
  visited : ∀ i ∈ s.log, A.Present db i
  articles : ∀ i, s.db.articles.lookup (A.w, i) =
    if i ∈ s.log then (db.articles.lookup (A.w, i)).map (db.afterRules A.P [A.rule]) else db.articles.lookup (A.w, i)
  rows : ∀ i ∈ s.log, ∀ a, db.articles.lookup (A.w, i) = some a →
    s.db.ruleEvaluations.lookup ⟨A.w, i, A.rule.id, A.rule.version⟩ = some (db.ruleProvenance A.P A.rule a)
  reads : ∀ ids ∈ s.reads, ∀ i, i ∈ ids ↔ A.Present db i
  bounds : ∀ id j, A.Owns id → s.db.ingestJobs.lookup id = some j → ∀ b ∈ A.bounds j.item, ∀ t ∈ b.2,
    ∀ i, A.Present db i → i.uuid ≤ t.uuid
  boundary : ∀ t ∈ s.boundary, ∀ i, A.Present db i → i.uuid ≤ t.uuid
  archive : A.Idle s ∨ ∀ i, A.Present db i → i ∈ s.archive

section
variable {A : Archive} {db db' : Db} {s s' : ArchiveWorld} {op : ArchiveOp}

theorem Still.present (h : A.Still db s) (i : ArticleId) : A.Present s.db i ↔ A.Present db i := by
  unfold Present
  rw [h.articles]
  split
  · rw [Option.isSome_map]
  · rfl

theorem afterRules_congr (h : SameTexts db db') (P : Platform) (rules : List Rule) (a : Article) :
    db'.afterRules P rules a = db.afterRules P rules a := by
  unfold Db.afterRules
  rw [h.fullText]

theorem ruleProvenance_congr (h : SameTexts db db') (P : Platform) (rule : Rule) (a : Article) :
    db'.ruleProvenance P rule a = db.ruleProvenance P rule a := by
  unfold Db.ruleProvenance
  rw [h.fullText]

/-- The articles of the batch have not been visited before. -/
theorem Chain.not_logged {afterId throughId : Option ArticleId} (h : A.Chain (A.worked s afterId throughId db')) {i : ArticleId} (hi : i ∈ A.page s afterId throughId) :
    i ∉ s.log := by
  intro hlog
  have hlt := (List.pairwise_append.1 h.sorted).2.2 i hlog i hi
  exact lt_irrefl _ hlt

theorem Still.worked {id : JobId} {afterId throughId : Option ArticleId} (hs : A.Still db s) (h : A.Chain s)
    (hopen : A.Open s id afterId throughId) (hb : Batched A s.db db' id afterId throughId) :
    A.Still db (A.worked s afterId throughId db') := by
  have hchain := h.worked hopen hb
  have htexts : SameTexts db db' := ⟨hb.texts.1.trans hs.texts.1, hb.texts.2.trans hs.texts.2⟩
  -- the bound of the batch is a bound of the library
  have hbound : ∀ t, throughId.or ((s.db.workspaceArticles A.w).getLast?.map (·.1)) = some t →
      ∀ i, A.Present db i → i.uuid ≤ t.uuid := by
    intro t ht i hi
    have hp := (hs.present i).2 hi
    refine le_through ht hp ?_
    obtain ⟨j, hj, hitem, -⟩ := hopen.job
    rw [Option.all_eq_true]
    intro t' ht'
    have := hs.bounds id j hopen.owns hj (afterId, throughId) (by rw [hitem, bounds_item]; rfl) t' ht' i hi
    exact decide_eq_true this
  refine ⟨htexts, fun i hi => ?_, fun i => ?_, fun i hi a ha => ?_, hs.reads, fun i j hi hj b hbj t ht => ?_, fun t ht => ?_, ?_⟩
  · rcases List.mem_append.1 hi with hlog | hpage
    · exact hs.visited i hlog
    · obtain ⟨row, hrow, rfl⟩ := List.mem_map.1 hpage
      exact (hs.present row.1).1 (Option.isSome_iff_exists.2 ⟨row.2, mem_ruleBatch hrow⟩)
  · have harticles : db'.articles.lookup (A.w, i) = if i ∈ A.page s afterId throughId then
        (s.db.articles.lookup (A.w, i)).map (s.db.afterRules A.P [A.rule]) else s.db.articles.lookup (A.w, i) :=
      hb.articles i
    show db'.articles.lookup (A.w, i) = _
    rw [harticles, hs.articles]
    by_cases hpage : i ∈ A.page s afterId throughId
    · have hlog : i ∈ (A.worked s afterId throughId db').log := List.mem_append_right _ hpage
      rw [if_pos hpage, if_neg (hchain.not_logged hpage), if_pos hlog]
      congr 1
      funext a
      exact afterRules_congr hs.texts _ _ _
    · have hmem : i ∈ (A.worked s afterId throughId db').log ↔ i ∈ s.log := by
        constructor
        · intro hi
          exact (List.mem_append.1 hi).resolve_right hpage
        · exact fun hi => List.mem_append_left _ hi
      rw [if_neg hpage]
      exact if_congr hmem.symm rfl rfl
  · show db'.ruleEvaluations.lookup _ = _
    rw [hb.evaluations]
    rcases List.mem_append.1 hi with hlog | hpage
    · -- an article that was visited before keeps its row
      rw [Table.lookup_foldl_insert_of_ne]
      · exact hs.rows i hlog a ha
      · intro row hrow he
        have hid := h.ids _ _ (mem_ruleBatch hrow)
        have hi' : row.1 = i := by
          rw [← hid]
          exact congrArg RuleEvaluationKey.articleId he
        exact hchain.not_logged (List.mem_map.2 ⟨row, hrow, hi'⟩) hlog
    · obtain ⟨row, hrow, rfl⟩ := List.mem_map.1 hpage
      have hrowArticle := mem_ruleBatch hrow
      have hid := h.ids _ _ hrowArticle
      have hkeys : ((s.db.ruleBatch A.w afterId throughId A.limit).map fun r =>
          (⟨A.w, r.2.id, A.rule.id, A.rule.version⟩ : RuleEvaluationKey)).Nodup := by
        refine List.Nodup.of_map RuleEvaluationKey.articleId ?_
        rw [List.map_map]
        have hsame : (s.db.ruleBatch A.w afterId throughId A.limit).map (RuleEvaluationKey.articleId ∘ fun r =>
            (⟨A.w, r.2.id, A.rule.id, A.rule.version⟩ : RuleEvaluationKey)) =
              (s.db.ruleBatch A.w afterId throughId A.limit).map (·.1) :=
          List.map_congr_left fun r hr => h.ids _ _ (mem_ruleBatch hr)
        rw [hsame]
        exact nodup_ruleBatch
      have hlookup : ((s.db.ruleBatch A.w afterId throughId A.limit).foldl (fun t r =>
          t.insert ⟨A.w, r.2.id, A.rule.id, A.rule.version⟩ (s.db.ruleProvenance A.P A.rule r.2)) s.db.ruleEvaluations).lookup
            _ = some _ :=
        Table.lookup_foldl_insert_of_mem (fun r : ArticleId × Article =>
          (⟨A.w, r.2.id, A.rule.id, A.rule.version⟩ : RuleEvaluationKey)) s.db.ruleEvaluations hkeys hrow
      rw [hid] at hlookup
      rw [hlookup, ruleProvenance_congr hs.texts]
      rw [hs.articles, if_neg (hchain.not_logged hpage), ha] at hrowArticle
      cases hrowArticle
      rfl
  · by_cases hne : i = id
    · obtain ⟨j', hj', -, hitem'⟩ := hb.completed
      obtain ⟨j₀, hj₀, hitem, -⟩ := hopen.job
      have hsame : db'.ingestJobs.lookup i = some j := hj
      rw [hne, hj'] at hsame
      cases hsame
      exact hs.bounds id j₀ hopen.owns hj₀ b (by rw [hitem, ← hitem']; exact hbj) t ht
    · rcases hb.jobs i hne with hsame | ⟨-, next, ms, origin, hnext, hnew⟩
      · have hj' : db'.ingestJobs.lookup i = some j := hj
        rw [hsame] at hj'
        exact hs.bounds i j hi hj' b hbj t ht
      · have hj' : db'.ingestJobs.lookup i = some j := hj
        rw [hnew] at hj'
        cases hj'
        cases hthrough : throughId.or ((s.db.workspaceArticles A.w).getLast?.map (·.1)) with
        | none =>
          simp only [RuleJob.nextJob, jobRules h.rule, hthrough] at hnext
          cases hnext
        | some t' =>
          obtain ⟨c, -, -, -, -, rfl⟩ := (RuleJob.nextJob_batch (jobRules h.rule) hthrough).1 hnext
          have hb' : A.bounds (A.item (some c) (some t')) = _ := bounds_item
          rw [show (Job.new (WorkItem.applyRule A.w A.rule.id A.rule.version (some c) (some t')) ms origin).item =
            A.item (some c) (some t') from rfl, hb'] at hbj
          cases hbj
          cases ht
          exact hbound t hthrough
  · show ∀ i, A.Present db i → i.uuid ≤ t.uuid
    have ht' : s.boundary.or (throughId.or ((s.db.workspaceArticles A.w).getLast?.map (·.1))) = some t := ht
    rcases Option.or_eq_some_iff.1 ht' with hsome | ⟨-, hsome⟩
    · exact hs.boundary t hsome
    · exact hbound t hsome
  · refine .inr ?_
    rcases hs.archive with hidle | hall
    · obtain ⟨j, hj, -⟩ := hopen.job
      rw [hidle.jobs id hopen.owns] at hj
      cases hj
    · exact hall

theorem Fresh.still (h : A.Fresh s) (hreads : s.reads = []) : A.Still s.db s := by
  refine ⟨⟨rfl, rfl⟩, fun i hi => ?_, fun i => ?_, fun i hi => ?_, fun ids hids => ?_, fun id j hid hj => ?_, fun t ht => ?_,
    .inl h.idle⟩
  · rw [h.log] at hi
    cases hi
  · rw [h.log]
    simp
  · rw [h.log] at hi
    cases hi
  · rw [hreads] at hids
    cases hids
  · exact absurd hid (h.jobs (id, j) (Table.mem_rows.2 hj))
  · rw [h.boundary] at ht
    cases ht

/-- The ids that a call reads are those of the library. -/
theorem Still.mem_read (hs : A.Still db s) (h : A.Chain s) (i : ArticleId) :
    i ∈ (s.db.workspaceArticles A.w).map (·.2.id) ↔ A.Present db i := by
  rw [← hs.present, List.mem_map]
  constructor
  · rintro ⟨row, hrow, rfl⟩
    have hlookup := mem_workspaceArticles.1 hrow
    rw [h.ids _ _ hlookup]
    exact Option.isSome_iff_exists.2 ⟨row.2, hlookup⟩
  · intro hi
    obtain ⟨a, ha⟩ := Option.isSome_iff_exists.1 hi
    exact ⟨(i, a), mem_workspaceArticles.2 ha, h.ids _ _ ha⟩

theorem Still.step (hs : A.Still db s) (h : A.Chain s) (hop : Quiet s op) (hstep : A.step s op = some s') :
    A.Still db s' := by
  cases op with
  | read =>
    cases hstep
    refine ⟨hs.texts, hs.visited, hs.articles, hs.rows, fun ids hids => ?_, hs.bounds, hs.boundary, ?_⟩
    · rcases List.mem_append.1 hids with hids | hids
      · exact hs.reads ids hids
      · rw [List.mem_singleton.1 hids]
        exact hs.mem_read h
    · exact hs.archive.imp (fun i => ⟨i.jobs, i.log, i.batches, i.boundary, i.archive, i.calls⟩) fun hall => hall
  | enqueue articles now =>
    simp only [Archive.step] at hstep
    split at hstep
    · rename_i hread
      cases hrun : enqueueRuleApplication A.w A.rule articles now s.db with
      | error e =>
        simp only [hrun] at hstep
        cases hstep
        refine ⟨hs.texts, hs.visited, hs.articles, hs.rows, hs.reads, hs.bounds, hs.boundary, ?_⟩
        exact hs.archive.imp (fun i => ⟨i.jobs, i.log, i.batches, i.boundary, i.archive, i.calls⟩) fun hall => hall
      | ok r =>
        simp only [hrun] at hstep
        cases hstep
        rcases enqueueRuleApplication_ok hrun with ⟨j, hj, -, hdb⟩ | ⟨hnone, origin, hdb⟩
        · rw [hdb]
          have harchive : (A.called s articles s.db).archive = s.archive := by
            simp only [called, hj, Option.isSome_some, if_true]
          refine ⟨hs.texts, hs.visited, hs.articles, hs.rows, hs.reads, hs.bounds, hs.boundary, .inr fun i hi => ?_⟩
          rw [harchive]
          rcases hs.archive with hidle | hall
          · rw [hidle.jobs _ owns_start] at hj
            cases hj
          · exact hall i hi
        · rw [hdb]
          refine ⟨hs.texts, hs.visited, hs.articles, hs.rows, hs.reads, fun id j hid hj b hb t ht i hi => ?_, hs.boundary, .inr fun i hi => ?_⟩
          · have hj' : (s.db.setJob A.start (.new (A.item none (articles.argmax (·.uuid))) (millis now) origin)).ingestJobs.lookup id =
              some j := hj
            rw [Db.setJob, Table.lookup_insert_if] at hj'
            split at hj'
            · -- the bound of the new job is the greatest id that was read
              cases hj'
              have hbounds : A.bounds (A.item none (articles.argmax (·.uuid))) = _ := bounds_item
              rw [show (Job.new (A.item none (articles.argmax (·.uuid))) (millis now) origin).item =
                A.item none (articles.argmax (·.uuid)) from rfl, hbounds] at hb
              cases hb
              exact List.le_of_mem_argmax ((hs.reads articles hread i).2 hi) ht
            · exact hs.bounds id j hid hj' b hb t ht i hi
          · have hnew : ¬ (s.db.ingestJobs.lookup A.start).isSome = true := by rw [hnone]; simp
            simp only [called, if_neg hnew]
            obtain ⟨a, ha⟩ := Option.isSome_iff_exists.1 ((hs.present i).2 hi)
            exact List.mem_map.2 ⟨(i, a), mem_workspaceArticles.2 ha, rfl⟩
    · cases hstep
  | work lease now done =>
    obtain ⟨afterId, throughId, hopen, -, -, ⟨db', -, hb, rfl⟩ | ⟨e, -, rfl⟩⟩ := work_cases h hstep
    · exact hs.worked h hopen hb
    · refine ⟨hs.texts, hs.visited, hs.articles, hs.rows, hs.reads, hs.bounds, hs.boundary, ?_⟩
      exact hs.archive.imp (fun i => ⟨i.jobs, i.log, i.batches, i.boundary, i.archive, i.calls⟩) fun hall => hall
  | other db' =>
    simp only [Archive.step] at hstep
    split at hstep
    · rename_i hl
      cases hstep
      have harticles : db'.articles = s.db.articles := Table.eq_of_rows hop.1
      have hmanifests : db'.contentManifests = s.db.contentManifests := Table.eq_of_rows hop.2.1
      have hchunks : db'.stagedContentChunks = s.db.stagedContentChunks := Table.eq_of_rows hop.2.2.1
      have hevaluations : db'.ruleEvaluations = s.db.ruleEvaluations := Table.eq_of_rows hop.2.2.2
      refine ⟨⟨hmanifests.trans hs.texts.1, hchunks.trans hs.texts.2⟩, hs.visited, fun i => ?_, fun i hi a ha => ?_, hs.reads,
        fun id j hid hj b hb => ?_, hs.boundary, ?_⟩
      · show db'.articles.lookup _ = _
        rw [harticles]
        exact hs.articles i
      · show db'.ruleEvaluations.lookup _ = _
        rw [hevaluations]
        exact hs.rows i hi a ha
      · obtain ⟨j', hj', hitem, -⟩ := hl.lookup_new hid hj
        exact hs.bounds id j' hid hj' b (hitem ▸ hb)
      · rcases (h.other hl).started with hidle | hstarted
        · exact .inl hidle
        · refine .inr fun i hi => List.mem_filter.2 ⟨?_, decide_eq_true ?_⟩
          · rcases hs.archive with hidle | hall
            · obtain ⟨j, hj⟩ := Option.isSome_iff_exists.1 hstarted
              obtain ⟨j', hj', -⟩ := hl.lookup_new owns_start hj
              rw [hidle.jobs _ owns_start] at hj'
              cases hj'
            · exact hall i hi
          · unfold Present
            rw [harticles]
            exact (hs.present i).2 hi
    · cases hstep

/-- The application has recorded that the article matches. -/
def Recorded (A : Archive) (s : ArchiveWorld) (i : ArticleId) : Prop :=
  i ∈ s.log ∧ ∃ action stateChanged kept generations, s.db.ruleEvaluations.lookup ⟨A.w, i, A.rule.id, A.rule.version⟩ =
    some (.evaluated true action stateChanged kept generations)

/-- The state of the article is another one. -/
def Changed (A : Archive) (db db' : Db) (i : ArticleId) : Prop :=
  ∃ a a', db.articles.lookup (A.w, i) = some a ∧ db'.articles.lookup (A.w, i) = some a' ∧ a'.state ≠ a.state

/-- The rule matches the title or the stored markup of the article. -/
def Hits (A : Archive) (db : Db) (a : Article) : Bool := A.rule.isMatch A.P.lowercase a.key.title (db.fullText a)

theorem Still.logged (hs : A.Still db s) (h : A.Closed s) (hi : ¬ A.Idle s) {i : ArticleId} (hp : A.Present db i) : i ∈ s.log := by
  refine h.archive i (hs.archive.resolve_left hi i hp) ?_
  rw [Option.all_eq_true]
  intro t ht
  exact decide_eq_true (hs.boundary t ht i hp)

/-- What the application of a rule to a library that stays as it is records. -/
theorem Still.recorded (hs : A.Still db s) (h : A.Closed s) (hi : ¬ A.Idle s) {i : ArticleId} {a : Article}
    (ha : db.articles.lookup (A.w, i) = some a) : A.Recorded s i ↔ A.Hits db a = true := by
  have hlog := hs.logged h hi (Option.isSome_iff_exists.2 ⟨a, ha⟩)
  have hrow := hs.rows i hlog a ha
  unfold Recorded
  rw [hrow]
  constructor
  · rintro ⟨-, action, stateChanged, kept, generations, he⟩
    exact (RuleProvenance.evaluated.inj (Option.some.inj he)).1
  · intro hhit
    exact ⟨hlog, A.rule.action, _, _, none, by
      rw [Db.ruleProvenance, evaluateRule]
      rw [show A.rule.isMatch A.P.lowercase a.key.title (db.fullText a) = true from hhit]⟩

/-- What it changes. -/
theorem Still.changed (hs : A.Still db s) (h : A.Closed s) (hi : ¬ A.Idle s) {i : ArticleId} {a : Article}
    (ha : db.articles.lookup (A.w, i) = some a) :
    A.Changed db s.db i ↔ A.Hits db a = true ∧ a.state.read = false ∧ a.state.protectUnread = false := by
  have hlog := hs.logged h hi (Option.isSome_iff_exists.2 ⟨a, ha⟩)
  have hafter := hs.articles i
  rw [if_pos hlog, ha, Option.map_some] at hafter
  have hstate : (db.afterRules A.P [A.rule] a).state = applyRules A.P a.key.title (db.fullText a) [A.rule] a.state := by
    unfold Db.afterRules
    dsimp only
    split
    · rename_i hsame
      exact hsame.symm
    · rfl
  have hiff : A.Changed db s.db i ↔ applyRules A.P a.key.title (db.fullText a) [A.rule] a.state ≠ a.state := by
    constructor
    · rintro ⟨a₁, a', ha₁, ha', hne⟩
      rw [ha] at ha₁
      cases ha₁
      rw [hafter] at ha'
      cases ha'
      rwa [hstate] at hne
    · intro hne
      exact ⟨a, _, ha, hafter, by rwa [hstate]⟩
  rw [hiff, applyRules_eq]
  unfold Hits
  by_cases hm : A.rule.isMatch A.P.lowercase a.key.title (db.fullText a) = true
  · by_cases hp : a.state.protectUnread = false
    · have hsame : ({ a.state with read := true } : ArticleState) = a.state ↔ a.state.read = true := by
        cases a.state with
        | mk read later protectUnread => simp [eq_comm]
      rw [if_pos ⟨hp, A.rule, by simp, hm⟩, ne_eq, hsame]
      simp [hm, hp]
    · rw [if_neg fun hc => hp hc.1]
      simp [hp]
  · rw [if_neg]
    · simp [hm]
    · rintro ⟨-, r, hr, hrm⟩
      rw [List.mem_singleton.1 hr] at hrm
      exact hm hrm

end

section
variable (A : Archive) (policy : ReasonPolicy) (evidence : ContentManifestPointer → List PublicationEvidence)

/-- The presentation that a preview makes of an article. -/
def shown (db : Db) (a : Article) : Except RepositoryError ArticlePresentation :=
  presentation A.P.parseUrl policy evidence A.w a true db

/-- The preview predicts the application that ends in `s`: it counts the articles that are recorded as
matched, and those among them that are unread and not protected are the ones that are changed. -/
def Predicted (newRule : RuleId) (body : RuleDraft) (db : Db) (s : ArchiveWorld) : Prop :=
  ∃ response values, previewRule A.P policy evidence newRule A.w body db = .ok response ∧
    articlePresentationsByWorkspace A.P policy evidence A.w db = .ok values ∧
    response.matchedArticles = (previewMatches A.P A.rule body.subscriptionId values).length ∧
    (∀ i, i ∈ (previewMatches A.P A.rule body.subscriptionId values).map (·.article.id) ↔ A.Recorded s i) ∧
    ∀ i, A.Changed db s.db i ↔ i ∈ (previewMatches A.P A.rule body.subscriptionId values).map (·.article.id) ∧
      ∃ a, db.articles.lookup (A.w, i) = some a ∧ a.state.read = false ∧ a.state.protectUnread = false

/-- Every article can be shown; one that is not shown under the rule's subscription is not hit by the rule,
and one that is has the phrase in the paragraphs that are shown exactly if it has it in the stored markup of
all its origins, unless the title settles the rule. -/
structure Agrees (subscription : SubscriptionId) (db : Db) : Prop where
  shown : ∀ i a, db.articles.lookup (A.w, i) = some a → ∃ value, A.shown policy evidence db a = .ok value
  foreign : ∀ i a value, db.articles.lookup (A.w, i) = some a → A.shown policy evidence db a = .ok value →
    subscription ∉ value.subscriptionIds → A.Hits db a = false
  own : ∀ i a value, db.articles.lookup (A.w, i) = some a → A.shown policy evidence db a = .ok value →
    subscription ∈ value.subscriptionIds → A.rule.isMatch A.P.lowercase a.key.title value.paragraphs = A.Hits db a

end

section
variable {A : Archive} {policy : ReasonPolicy} {evidence : ContentManifestPointer → List PublicationEvidence}
  {db : Db} {s s' : ArchiveWorld} {body : RuleDraft}

theorem shown_article {a : Article} {value : ArticlePresentation} (h : A.shown policy evidence db a = .ok value) :
    value.article = a := by
  unfold shown presentation at h
  cases hfacts : (db.presentationRows A.w [a.id]).foldlM (fun facts row => do
      let facts ← noteOrigin evidence facts row
      checkOrigin A.P.parseUrl policy A.w row
      pure facts) {} with
  | error e =>
    simp only [hfacts] at h
    cases h
  | ok facts =>
    simp only [hfacts] at h
    cases hcontent : db.contentSnapshot A.w a.id with
    | error e =>
      simp only [hcontent] at h
      cases h
    | ok content =>
      simp only [hcontent] at h
      cases h
      rfl

/-- The draft gives the rule, so the preview matches as the rule does. -/
theorem previews_of_draft {identity : RuleId × Nat} (newRule : RuleId) {rule : Rule} (h : parseRule identity body = .ok rule) :
    ∃ rule', parseRule (newRule, 0) body = .ok rule' ∧ rule.subscriptionId = body.subscriptionId ∧
      ∀ P value, Rule.previews P rule' value = Rule.previews P rule value := by
  unfold parseRule at h ⊢
  split at h
  · cases h
  · rename_i hphrase
    rw [if_neg hphrase]
    cases hfield : parseRuleField body.field with
    | error e =>
      rw [hfield] at h
      cases h
    | ok field =>
      cases haction : parseRuleAction body.action with
      | error e =>
        rw [hfield, haction] at h
        cases h
      | ok action =>
        rw [hfield, haction] at h
        cases h
        exact ⟨_, rfl, rfl, fun P value => rfl⟩

/-- The articles that a preview counts. -/
theorem mem_previewMatches {values : List ArticlePresentation} (hids : ∀ i a, db.articles.lookup (A.w, i) = some a → a.id = i)
    (hvalues : articlePresentationsByWorkspace A.P policy evidence A.w db = .ok values) (subscription : SubscriptionId)
    (i : ArticleId) :
    i ∈ (previewMatches A.P A.rule subscription values).map (·.article.id) ↔
      ∃ a value, db.articles.lookup (A.w, i) = some a ∧ A.shown policy evidence db a = .ok value ∧
        subscription ∈ value.subscriptionIds ∧ A.rule.isMatch A.P.lowercase a.key.title value.paragraphs = true := by
  have hpass := mapM_ok.1 hvalues
  simp only [previewMatches, List.mem_map, List.mem_filter, List.contains_iff_mem, Rule.previews]
  constructor
  · rintro ⟨value, ⟨⟨hvalue, hsub⟩, hmatch⟩, rfl⟩
    obtain ⟨row, hrow, hshown⟩ := (forall₂_mem hpass).2 value hvalue
    have harticle := shown_article hshown
    have hlookup := mem_workspaceArticles.1 hrow
    rw [harticle] at hmatch ⊢
    rw [hids _ _ hlookup]
    exact ⟨row.2, value, hlookup, hshown, hsub, hmatch⟩
  · rintro ⟨a, value, ha, hshown, hsub, hmatch⟩
    obtain ⟨value', hvalue', hshown'⟩ := (forall₂_mem hpass).1 (i, a) (mem_workspaceArticles.2 ha)
    rw [show presentation A.P.parseUrl policy evidence A.w a true db = _ from hshown] at hshown'
    cases hshown'
    have harticle := shown_article hshown
    exact ⟨value, ⟨⟨hvalue', hsub⟩, by rw [harticle]; exact hmatch⟩, by rw [harticle]; exact hids _ _ ha⟩

/-- The preview of the draft from the presentations. -/
theorem previewRule_of_values {newRule : RuleId} {identity : RuleId × Nat} {values : List ArticlePresentation}
    (hdraft : parseRule identity body = .ok A.rule)
    (hvalues : articlePresentationsByWorkspace A.P policy evidence A.w db = .ok values) :
    ∃ response, previewRule A.P policy evidence newRule A.w body db = .ok response ∧
      response.matchedArticles = (previewMatches A.P A.rule body.subscriptionId values).length := by
  obtain ⟨rule', hrule', -, hpreviews⟩ := previews_of_draft newRule hdraft
  refine ⟨_, by unfold previewRule; rw [hrule', hvalues]; rfl, ?_⟩
  rw [previewTurns_eq, previewMatches]
  simp only [Nat.zero_add]
  congr 1
  exact List.filter_congr fun value _ => hpreviews A.P value

theorem Agrees.presented (h : A.Agrees policy evidence body.subscriptionId db) :
    ∃ values, articlePresentationsByWorkspace A.P policy evidence A.w db = .ok values := by
  refine mapM_isOk.2 fun row hrow => ?_
  exact h.shown row.1 row.2 (mem_workspaceArticles.1 hrow)

/-- On a library that stays as it is, up to the end of the application. -/
theorem predicted_iff {newRule : RuleId} {identity : RuleId × Nat} (hs : A.Still db s) (hclosed : A.Closed s) (hidle : ¬ A.Idle s)
    (hids : ∀ i a, db.articles.lookup (A.w, i) = some a → a.id = i) (hdraft : parseRule identity body = .ok A.rule) :
    A.Predicted policy evidence newRule body db s ↔ A.Agrees policy evidence body.subscriptionId db := by
  constructor
  · rintro ⟨response, values, -, hvalues, -, hmatched, -⟩
    have hmem := mem_previewMatches hids hvalues body.subscriptionId
    have hshown : ∀ i a, db.articles.lookup (A.w, i) = some a → ∃ value, A.shown policy evidence db a = .ok value :=
      fun i a ha => mapM_isOk.1 ⟨values, hvalues⟩ (i, a) (mem_workspaceArticles.2 ha)
    refine ⟨hshown, fun i a value ha hvalue hsub => ?_, fun i a value ha hvalue hsub => ?_⟩
    · -- an article that is hit is recorded, so it was counted, under the subscription
      by_contra hhit
      rw [Bool.not_eq_false] at hhit
      have hin := (hmatched i).2 ((hs.recorded hclosed hidle ha).2 hhit)
      obtain ⟨a', value', ha', hvalue', hsub', -⟩ := (hmem i).1 hin
      rw [ha] at ha'
      cases ha'
      rw [hvalue] at hvalue'
      cases hvalue'
      exact hsub hsub'
    · rw [Bool.eq_iff_iff, ← hs.recorded hclosed hidle ha, ← hmatched, hmem]
      constructor
      · exact fun hmatch => ⟨a, value, ha, hvalue, hsub, hmatch⟩
      · rintro ⟨a', value', ha', hvalue', -, hmatch⟩
        rw [ha] at ha'
        cases ha'
        rw [hvalue] at hvalue'
        cases hvalue'
        exact hmatch
  · intro h
    obtain ⟨values, hvalues⟩ := h.presented
    have hpreview : ∃ response, previewRule A.P policy evidence newRule A.w body _ = .ok response ∧ _ :=
      previewRule_of_values hdraft hvalues
    obtain ⟨response, hresponse, hcount⟩ := hpreview
    have hmem := mem_previewMatches hids hvalues body.subscriptionId
    -- an article is counted exactly if it is hit
    have hhits : ∀ i, i ∈ (previewMatches A.P A.rule body.subscriptionId values).map (·.article.id) ↔
        ∃ a, db.articles.lookup (A.w, i) = some a ∧ A.Hits db a = true := by
      intro i
      rw [hmem]
      constructor
      · rintro ⟨a, value, ha, hvalue, hsub, hmatch⟩
        exact ⟨a, ha, (h.own i a value ha hvalue hsub).symm.trans hmatch⟩
      · rintro ⟨a, ha, hhit⟩
        obtain ⟨value, hvalue⟩ := h.shown i a ha
        by_cases hsub : body.subscriptionId ∈ value.subscriptionIds
        · exact ⟨a, value, ha, hvalue, hsub, (h.own i a value ha hvalue hsub).trans hhit⟩
        · rw [h.foreign i a value ha hvalue hsub] at hhit
          cases hhit
    refine ⟨response, values, hresponse, hvalues, hcount, fun i => ?_, fun i => ?_⟩
    · rw [hhits]
      constructor
      · rintro ⟨a, ha, hhit⟩
        exact (hs.recorded hclosed hidle ha).2 hhit
      · intro hrec
        cases ha : db.articles.lookup (A.w, i) with
        | some a => exact ⟨a, rfl, (hs.recorded hclosed hidle ha).1 hrec⟩
        | none =>
          have hp : A.Present db i := hs.visited i hrec.1
          unfold Archive.Present at hp
          rw [ha] at hp
          cases hp
    · rw [hhits]
      cases ha : db.articles.lookup (A.w, i) with
      | none =>
        constructor
        · rintro ⟨a, a', ha', -⟩
          rw [ha] at ha'
          cases ha'
        · rintro ⟨⟨a, ha', -⟩, -⟩
          cases ha'
      | some a =>
        rw [hs.changed hclosed hidle ha]
        constructor
        · rintro ⟨hhit, hread, hprotect⟩
          exact ⟨⟨a, rfl, hhit⟩, a, rfl, hread, hprotect⟩
        · rintro ⟨⟨a₁, ha₁, hhit⟩, a₂, ha₂, hread, hprotect⟩
          cases ha₁
          cases ha₂
          exact ⟨hhit, hread, hprotect⟩

end
end Archive

/-- For every application of a rule that runs to completion while the library stays as it is, the preview
of the rule's draft predicts it exactly if the two agree on the library. -/
theorem preview_predicts_iff {A : Archive} {policy : ReasonPolicy}
    {evidence : ContentManifestPointer → List PublicationEvidence} {newRule : RuleId} {body : RuleDraft}
    {s s' : ArchiveWorld} {ops : List ArchiveOp} (hdraft : parseRule (A.rule.id, A.rule.version) body = .ok A.rule)
    (hstart : A.Fresh s) (hreads : s.reads = []) (hops : Along A.step Archive.Quiet s ops) (hrun : run A.step s ops = some s')
    (hcalled : s'.calls ≠ []) (hdone : A.Completed s'.db) :
    A.Predicted policy evidence newRule body s.db s' ↔ A.Agrees policy evidence body.subscriptionId s.db := by
  have hinv : A.Chain s' ∧ A.Still s.db s' := by
    refine run_inv (P := Archive.Quiet) (fun t => A.Chain t ∧ A.Still s.db t) (fun t op t' ht hop hstep => ?_)
      ⟨hstart.chain, hstart.still hreads⟩ hops hrun
    exact ⟨ht.1.step hstep, ht.2.step ht.1 hop hstep⟩
  have hidle : ¬ A.Idle s' := fun hidle => hcalled hidle.calls
  exact Archive.predicted_iff hinv.2 ((hinv.1.closed hdone).resolve_left hidle) hidle
    (fun i a ha => hstart.chain.ids i a ha) hdraft

namespace Sample

def draft : RuleDraft :=
  { subscriptionId := ⟨1⟩, field := "title_or_full_text", phrase := "first", action := "mark_read", enabled := true }

/-- One article of the subscription, with a published text. -/
def previewWorld (html : String) : ArchiveWorld :=
  { archiveWorld ["other"] with
    db := { (archiveWorld ["other"]).db with
      subscriptions := db.subscriptions
      libraryOrigins := [{ workspaceId := ⟨1⟩, articleId := ⟨1⟩, subscriptionId := ⟨1⟩, sourceRecordId := ⟨1⟩ }]
      contentManifests := (∅ : Table SourceRecordId ContentManifestPointer).insert ⟨1⟩
        { recordId := ⟨1⟩, sourceRevision := 0, refreshId := 1, rawChunks := 0, safeHtmlChunks := 1, fetchedAt := 5 }
      stagedContentChunks := (∅ : Table ChunkKey (List UInt8)).insert
        { recordId := ⟨1⟩, refreshId := 1, representation := .safe, ordinal := 0 } html.toUTF8.toList } }

/-- The rule is applied to that article. -/
def applyingPreviewed (html : String) : List ArchiveOp :=
  let enqueue : List ArchiveOp := [.read, .enqueue [⟨1⟩] 5]
  let enqueued := (run application.step (previewWorld html) enqueue).getD (previewWorld html)
  enqueue ++ [.other (leaseJob enqueued.db application.start), .work (archiveLease application.start none (some ⟨1⟩)) 6 7]

def previewed (html : String) : ArchiveWorld :=
  (run application.step (previewWorld html) (applyingPreviewed html)).getD (archiveWorld [])

def policy : ReasonPolicy := { maxBytes := 100 }

/-- The article as the preview shows it. -/
def previewedArticle (html : String) : ArticlePresentation :=
  { article := article "other" 1, readMethod := none, publication := [], subscriptionIds := [⟨1⟩]
    subscriptionTitles := [""], safeHtml := some html, descriptionMediaType := none
    fullTextStatus := .ready, failureReason := none }

end Sample

theorem preview_predicts_paragraph :
    parseRule (⟨3⟩, 0) Sample.draft = .ok Sample.archiveRule ∧
      run Sample.application.step (Sample.previewWorld "<p>The first</p>") (Sample.applyingPreviewed "<p>The first</p>") =
        some (Sample.previewed "<p>The first</p>") ∧
      Sample.application.Recorded (Sample.previewed "<p>The first</p>") ⟨1⟩ ∧
      (Sample.application.Predicted Sample.policy Sample.noEvidence ⟨9⟩ Sample.draft (Sample.previewWorld "<p>The first</p>").db
          (Sample.previewed "<p>The first</p>") ↔
        Sample.application.Agrees Sample.policy Sample.noEvidence ⟨1⟩ (Sample.previewWorld "<p>The first</p>").db) := by
  have hrun : run Sample.application.step (Sample.previewWorld "<p>The first</p>") (Sample.applyingPreviewed "<p>The first</p>") =
      some (Sample.previewed "<p>The first</p>") := run_getD (by decide +kernel) _
  have hfresh : Sample.application.Fresh (Sample.previewWorld "<p>The first</p>") :=
    ⟨by decide +kernel, by decide +kernel, by decide +kernel, rfl, rfl, rfl, rfl, rfl, rfl, rfl⟩
  refine ⟨by decide +kernel, hrun, ⟨by decide +kernel, .markRead, true, false, none, by decide +kernel⟩, ?_⟩
  have hdraft : parseRule (Sample.application.rule.id, Sample.application.rule.version) Sample.draft = .ok Sample.application.rule := by
    decide +kernel
  exact preview_predicts_iff hdraft hfresh rfl (by decide +kernel) hrun
    (by decide +kernel) (by decide +kernel)

/-- The phrase is in the paragraphs that are shown and not in the markup: the preview counts the article, and
the application, which reads its text, records that it does not match. -/
theorem preview_counts_unmatched :
    parseRule (⟨3⟩, 0) Sample.draft = .ok Sample.archiveRule ∧
      Sample.application.Fresh (Sample.previewWorld "<p>The fi<b>rst</b></p>") ∧
      Along Sample.application.step Archive.Quiet (Sample.previewWorld "<p>The fi<b>rst</b></p>")
        (Sample.applyingPreviewed "<p>The fi<b>rst</b></p>") ∧
      run Sample.application.step (Sample.previewWorld "<p>The fi<b>rst</b></p>")
        (Sample.applyingPreviewed "<p>The fi<b>rst</b></p>") = some (Sample.previewed "<p>The fi<b>rst</b></p>") ∧
      Sample.application.Completed (Sample.previewed "<p>The fi<b>rst</b></p>").db ∧
      (∀ row ∈ (Sample.previewWorld "<p>The fi<b>rst</b></p>").db.articles.rows,
        ((Sample.previewWorld "<p>The fi<b>rst</b></p>").db.fullText row.2).isSome = true) ∧
      previewRule Sample.platform Sample.policy Sample.noEvidence ⟨9⟩ ⟨1⟩ Sample.draft
        (Sample.previewWorld "<p>The fi<b>rst</b></p>").db =
          .ok { matchedArticles := 1, sharedArticles := 0, totalSubscriptionArticles := 1, sampleArticleIds := [⟨1⟩] } ∧
      ¬ Sample.application.Predicted Sample.policy Sample.noEvidence ⟨9⟩ Sample.draft
        (Sample.previewWorld "<p>The fi<b>rst</b></p>").db (Sample.previewed "<p>The fi<b>rst</b></p>") := by
  have hvalues : articlePresentationsByWorkspace Sample.platform Sample.policy Sample.noEvidence ⟨1⟩
      (Sample.previewWorld "<p>The fi<b>rst</b></p>").db = .ok [Sample.previewedArticle "<p>The fi<b>rst</b></p>"] := by
    decide +kernel
  have hcounted : (⟨1⟩ : ArticleId) ∈ (previewMatches Sample.platform Sample.archiveRule ⟨1⟩
      [Sample.previewedArticle "<p>The fi<b>rst</b></p>"]).map (·.article.id) := by decide +kernel
  have hrow : (Sample.previewed "<p>The fi<b>rst</b></p>").db.ruleEvaluations.lookup ⟨⟨1⟩, ⟨1⟩, ⟨3⟩, 0⟩ =
      some (.evaluated false .markRead false false none) := by decide +kernel
  refine ⟨by decide +kernel, ?_, by decide +kernel, run_getD (by decide +kernel) _, by decide +kernel, by decide +kernel,
    by decide +kernel, ?_⟩
  · exact ⟨by decide +kernel, by decide +kernel, by decide +kernel, rfl, rfl, rfl, rfl, rfl, rfl, rfl⟩
  · rintro ⟨response, values, -, hvalues', -, hmatched, -⟩
    have hsame := hvalues.symm.trans hvalues'
    cases hsame
    obtain ⟨-, action, stateChanged, kept, generations, hrow'⟩ := (hmatched ⟨1⟩).1 hcounted
    have he := hrow.symm.trans hrow'
    cases he

end Inoreader
