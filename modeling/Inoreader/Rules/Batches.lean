import Inoreader.Rules.Order

/-!
# The pages of an application

A batch is a page of the workspace's articles in the order of their ids. What it leaves behind is a row of
`rule_evaluations` per article, and behind its last article the articles of the next page.
-/

namespace Inoreader
open Lib Tx

/-- The row that the turn of a batch leaves for an article. -/
def Db.ruleProvenance (P : Platform) (db : Db) (rule : Rule) (a : Article) : RuleProvenance :=
  (evaluateRule P rule a a.state (db.fullText a) none).2

section
variable {P : Platform} {db db' d d' : Db} {w : WorkspaceId} {rule : Rule} {afterId throughId : Option ArticleId}
  {limit : Nat} {lease : LeasedWork} {now : DateTime}

/-- An element of a sorted list is on its first page, or the page is full and ends before it. -/
theorem mem_take_or_lt {α : Type} {key : α → Nat} {l : List α} (hl : l.Pairwise fun x y => key x < key y) {x : α}
    (hx : x ∈ l) (n : Nat) : x ∈ l.take n ∨ ((l.take n).length = n ∧ ∀ y ∈ l.take n, key y < key x) := by
  rw [← List.take_append_drop n l] at hx hl
  rcases List.mem_append.1 hx with hx | hx
  · exact .inl hx
  · refine .inr ⟨?_, fun y hy => (List.pairwise_append.1 hl).2.2 y hy x hx⟩
    have hlt : n < l.length := by
      by_contra hle
      rw [List.drop_of_length_le (not_lt.1 hle)] at hx
      cases hx
    rw [List.length_take]
    omega

/-! ## The rows of a batch -/

theorem mem_ruleBatch_bounds {through : ArticleId} {row : ArticleId × Article}
    (hthrough : throughId.or ((db.workspaceArticles w).getLast?.map (·.1)) = some through)
    (hrow : row ∈ db.ruleBatch w afterId throughId limit) :
    afterId.all (·.uuid < row.1.uuid) = true ∧ row.1.uuid ≤ through.uuid := by
  rw [ruleBatch_of_some hthrough] at hrow
  simpa using (List.mem_filter.1 (List.mem_of_mem_take hrow)).2

theorem pairwise_ruleBatch : (db.ruleBatch w afterId throughId limit).Pairwise fun x y => x.1.uuid < y.1.uuid := by
  unfold Db.ruleBatch
  split
  · exact List.Pairwise.nil
  · have hsorted := List.pairwise_map.1 (articleIds_increasing db w)
    exact hsorted.sublist ((List.take_sublist _ _).trans List.filter_sublist)

/-- An article within the bounds is in the batch, or the batch is full and the article comes later. -/
theorem mem_ruleBatch_or_later {through : ArticleId} {row : ArticleId × Article}
    (hthrough : throughId.or ((db.workspaceArticles w).getLast?.map (·.1)) = some through)
    (hrow : db.articles.lookup (w, row.1) = some row.2) (hafter : afterId.all (·.uuid < row.1.uuid) = true)
    (hle : row.1.uuid ≤ through.uuid) :
    row ∈ db.ruleBatch w afterId throughId limit ∨ ((db.ruleBatch w afterId throughId limit).length = limit ∧
      ∀ r ∈ db.ruleBatch w afterId throughId limit, r.1.uuid < row.1.uuid) := by
  rw [ruleBatch_of_some hthrough]
  refine @mem_take_or_lt _ (fun r : ArticleId × Article => r.1.uuid) _ ?_ _ ?_ limit
  · exact (List.pairwise_map.1 (articleIds_increasing db w)).sublist List.filter_sublist
  · rw [List.mem_filter]
    exact ⟨mem_workspaceArticles.2 hrow, by simpa using ⟨hafter, hle⟩⟩

/-- The greatest id is a bound of the workspace's articles. -/
theorem le_getLast_workspaceArticles {through i : ArticleId} {a : Article}
    (hthrough : (db.workspaceArticles w).getLast?.map (·.1) = some through) (ha : db.articles.lookup (w, i) = some a) :
    i.uuid ≤ through.uuid := by
  obtain ⟨last, hlast, rfl⟩ := Option.map_eq_some_iff.1 hthrough
  obtain ⟨init, hinit⟩ := List.getLast?_eq_some_iff.1 hlast
  have hmem : (i, a) ∈ db.workspaceArticles w := mem_workspaceArticles.2 ha
  have hsorted := List.pairwise_map.1 (articleIds_increasing db w)
  rw [hinit] at hmem hsorted
  rcases List.mem_append.1 hmem with hmem | hmem
  · exact le_of_lt ((List.pairwise_append.1 hsorted).2.2 _ hmem last (by simp))
  · exact le_of_eq (congrArg (fun r : ArticleId × Article => r.1.uuid) (List.mem_singleton.1 hmem))

/-! ## The rows that a batch leaves -/

theorem batchTurn_evaluations {acc last : Option ArticleId} {row : ArticleId × Article} (htexts : SameTexts db d)
    (hrun : batchTurn P w rule rule.version acc row d = .ok (last, d')) :
    d'.ruleEvaluations =
      d.ruleEvaluations.insert ⟨w, row.2.id, rule.id, rule.version⟩ (db.ruleProvenance P rule row.2) := by
  unfold batchTurn at hrun
  obtain ⟨text, htext, hrun⟩ := (bind_ok_of_reads (articleFullText_keeps _)).1 hrun
  obtain ⟨-, hrun⟩ := bind_require_ok.1 hrun
  obtain ⟨_, d₁, hstore, hrun⟩ := bind_ok.1 hrun
  obtain ⟨_, d₂, hupsert, hrun⟩ := bind_ok.1 hrun
  obtain ⟨-, hupsert⟩ := bind_require_ok.1 hupsert
  have hfull := (articleFullText_ok (htexts.symm.articleFullText htext)).2
  have hd₁ : d₁.ruleEvaluations = d.ruleEvaluations := by
    rcases storeState_ok hstore with ⟨-, rfl⟩ | ⟨-, -, rfl⟩ <;> rfl
  cases hupsert
  cases hrun
  show d₁.ruleEvaluations.insert _ _ = _
  rw [hd₁, Db.ruleProvenance, hfull]
  rfl

theorem batchTurns_evaluations {acc last : Option ArticleId} {rows : List (ArticleId × Article)}
    (htexts : SameTexts db d) (hnd : (rows.map (·.1)).Nodup)
    (hrows : ∀ row ∈ rows, d.articles.lookup (w, row.1) = some row.2)
    (hrun : loop (batchTurn P w rule rule.version) acc rows d = .ok (last, d')) :
    d'.ruleEvaluations = rows.foldl (fun t row => t.insert ⟨w, row.2.id, rule.id, rule.version⟩ (db.ruleProvenance P rule row.2))
      d.ruleEvaluations := by
  induction rows generalizing acc d with
  | nil =>
    cases hrun
    rfl
  | cons row rows ih =>
    rw [List.map_cons, List.nodup_cons] at hnd
    obtain ⟨acc₁, d₁, hturn, hrest⟩ := bind_ok.1 hrun
    obtain ⟨-, -, htexts₁, -, harticles₁⟩ := batchTurn_ok htexts (hrows row (by simp)) hturn
    have hrows₁ : ∀ r ∈ rows, d₁.articles.lookup (w, r.1) = some r.2 := by
      intro r hr
      have hne : r.1 ≠ row.1 := fun he => hnd.1 (he ▸ List.mem_map_of_mem hr)
      rw [harticles₁, if_neg fun he => hne (congrArg Prod.snd he)]
      exact hrows r (by simp [hr])
    rw [ih htexts₁ hnd.2 hrows₁ hrest, batchTurn_evaluations htexts hturn, List.foldl_cons]

/-- A batch that commits under a rule that stands: nothing to do, or its turns and the next batch. -/
theorem applyRuleBatch_inv {r : Option ArticleId} (hrule : db.rules.lookup (w, rule.id) = some rule)
    (henabled : rule.enabled = true)
    (hrun : applyRuleBatch P lease now w rule.id rule.version afterId throughId limit db = .ok (r, db')) :
    (throughId.or ((db.workspaceArticles w).getLast?.map (·.1)) = none ∧ db' = db) ∨
      ∃ through d₁, throughId.or ((db.workspaceArticles w).getLast?.map (·.1)) = some through ∧
        loop (batchTurn P w rule rule.version) none (db.ruleBatch w afterId throughId limit) db = .ok (r, d₁) ∧
        onlyIf ((db.ruleBatch w afterId throughId limit).length = limit)
          (enqueueNextBatch now w rule.id rule.version through r) d₁ = .ok ((), db') := by
  rw [applyRuleBatch_eq] at hrun
  obtain ⟨_, -, hrun⟩ := (bind_ok_of_reads (assertLease_keeps _ _)).1 hrun
  rw [bind_run, get_run] at hrun
  simp only [hrule] at hrun
  obtain ⟨-, hrun⟩ := bind_require_ok.1 hrun
  rw [if_neg (by simp [henabled])] at hrun
  cases hthrough : throughId.or ((db.workspaceArticles w).getLast?.map (·.1)) with
  | none =>
    simp only [hthrough] at hrun
    cases hrun
    exact .inl ⟨rfl, rfl⟩
  | some through =>
    simp only [hthrough] at hrun
    obtain ⟨last, d₁, hloop, hrun⟩ := bind_ok.1 hrun
    obtain ⟨_, d₂, henqueue, hrun⟩ := bind_ok.1 hrun
    cases hrun
    rw [← ruleBatch_of_some hthrough] at hloop henqueue
    exact .inr ⟨through, d₁, rfl, hloop, henqueue⟩

/-- The rows of a batch that commits under a rule that stands. -/
theorem applyRuleBatch_evaluations {r : Option ArticleId} (hrule : db.rules.lookup (w, rule.id) = some rule)
    (henabled : rule.enabled = true)
    (hrun : applyRuleBatch P lease now w rule.id rule.version afterId throughId limit db = .ok (r, db')) :
    db'.ruleEvaluations = (db.ruleBatch w afterId throughId limit).foldl
      (fun t row => t.insert ⟨w, row.2.id, rule.id, rule.version⟩ (db.ruleProvenance P rule row.2)) db.ruleEvaluations := by
  rcases applyRuleBatch_inv hrule henabled hrun with ⟨hnone, rfl⟩ | ⟨through, d₁, hthrough, hloop, henqueue⟩
  · simp only [Db.ruleBatch, hnone]
    rfl
  · have hself : SameTexts db db := ⟨rfl, rfl⟩
    rw [← batchTurns_evaluations hself nodup_ruleBatch (fun row hrow => mem_ruleBatch hrow) hloop]
    refine keeps_onlyIf (f := Db.ruleEvaluations) ?_ _ _ _ henqueue
    cases r with
    | none => exact keeps_pure _
    | some cursor => exact keeps_onlyIf (enqueueWork_keeps (f := Db.ruleEvaluations) (fun _ _ _ => rfl) _ _ _)

/-- The job of the next batch is there. -/
theorem applyRuleBatch_next {r : Option ArticleId} {i : JobId} {next : WorkItem}
    (hrule : db.rules.lookup (w, rule.id) = some rule) (henabled : rule.enabled = true)
    (hrun : applyRuleBatch P lease now w rule.id rule.version afterId throughId limit db = .ok (r, db'))
    (hnext : (RuleJob.batch w rule.id rule.version afterId throughId limit).nextJob db = some (i, next)) :
    ∃ j, db'.ingestJobs.lookup i = some j ∧ j.item = next := by
  have hrules : (RuleJob.batch w rule.id rule.version afterId throughId limit).rules db = [rule] := by
    rw [RuleJob.rules_batch hrule, if_neg (by simp [henabled])]
  rcases applyRuleBatch_inv hrule henabled hrun with ⟨hnone, rfl⟩ | ⟨through, d₁, hthrough, hloop, henqueue⟩
  · simp only [RuleJob.nextJob, hrules, hnone] at hnext
    cases hnext
  · obtain ⟨cursor, hcursor, hlen, hne, rfl, rfl⟩ := (RuleJob.nextJob_batch hrules hthrough).1 hnext
    have hself : SameTexts db db := ⟨rfl, rfl⟩
    obtain ⟨-, hlast, -⟩ := batchTurns_ok hself nodup_ruleBatch (fun row hrow => mem_ruleBatch hrow) hloop
    rw [Option.or_none, hcursor] at hlast
    subst hlast
    simp only [onlyIf, if_pos hlen, enqueueNextBatch, if_pos hne] at henqueue
    rcases enqueueWork_ok henqueue with ⟨j, hj, hitem, rfl⟩ | ⟨-, origin, -, rfl⟩
    · exact ⟨j, hj, hitem⟩
    · exact ⟨_, by rw [Db.setJob, Table.lookup_insert_if, if_pos rfl], rfl⟩

end
end Inoreader
