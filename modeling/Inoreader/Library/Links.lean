import Inoreader.Library.Index
import Inoreader.Library.Deliver

/-!
# Which subscriptions a delivery links to its record

A delivery that runs links its subscription to the record and keeps every other link: the links of an
article that the record leaves move along with it. This needs nothing of the state of the library.
-/

namespace Inoreader
open Lib Tx

section
variable {P : Platform} {db : Db} {w : WorkspaceId} {r : SourceRecordId} {record : SourceRecord}
  {commit : DeliveryCommit}

theorem mem_priorByArticle {prior : ArticleId × List SubscriptionId} (h : prior ∈ db.priorByArticle w r)
    (s : SubscriptionId) : s ∈ prior.2 ↔ ⟨w, prior.1, s, r⟩ ∈ db.libraryOrigins := by
  simp only [Db.priorByArticle, List.mem_map, List.mem_insertionSort] at h
  obtain ⟨a, -, rfl⟩ := h
  simp only [List.mem_map, List.mem_filter, decide_eq_true_eq]
  constructor
  · rintro ⟨⟨w', i, s', r'⟩, ⟨⟨hrow, rfl, rfl⟩, rfl⟩, rfl⟩
    exact hrow
  · intro hrow
    exact ⟨_, ⟨⟨hrow, rfl, rfl⟩, rfl⟩, rfl⟩

theorem detachPrior_origins (P : Platform) (w : WorkspaceId) (record : SourceRecord) (moved : Moved)
    (prior : ArticleId × List SubscriptionId) (db : Db) :
    wp (detachPrior P w record moved prior) (fun moved' db' =>
      (moved' = moved ∧ db'.libraryOrigins = db.libraryOrigins) ∨
      ((∀ t, t ∈ moved'.subscriptions ↔ t ∈ moved.subscriptions ∨ t ∈ prior.2) ∧
        ∀ row, row ∈ db'.libraryOrigins ↔ row ∈ db.libraryOrigins ∧
          ¬ (row.workspaceId = w ∧ row.articleId = prior.1 ∧ row.sourceRecordId = record.id))) db := by
  intro moved' db' hrun
  unfold detachPrior at hrun
  rw [bind_run, get_run] at hrun
  obtain ⟨old, -, hrun⟩ := bind_orThrow_ok.1 hrun
  split at hrun
  · cases hrun
    exact .inl ⟨rfl, rfl⟩
  · rw [bind_run, modify_run] at hrun
    obtain ⟨_, db₁, h₁, hrun⟩ := bind_ok.1 hrun
    have e₁ := storeDetached_keeps (f := Db.libraryOrigins) (fun _ _ => rfl) (fun _ _ => rfl) _ _ _ _ _ _ h₁
    cases hrun
    refine .inr ⟨fun t => mem_foldl_collect, fun row => ?_⟩
    rw [e₁]
    simp only [List.mem_filter, decide_eq_true_eq]

/-- Links are kept by the loop over the articles that hold the record, in the tables or in what it collects. -/
theorem detachLoop_linked (P : Platform) (w : WorkspaceId) (record : SourceRecord) (db : Db) :
    wp (loop (detachPrior P w record) {} (db.priorByArticle w record.id)) (fun moved db' =>
      (∀ t, t ∈ moved.subscriptions ∨ db'.Linked w t record.id ↔ db.Linked w t record.id) ∧
      ∀ row, ¬ (row.workspaceId = w ∧ row.sourceRecordId = record.id) →
        (row ∈ db'.libraryOrigins ↔ row ∈ db.libraryOrigins)) db := by
  let I : Moved → Db → Prop := fun moved db' =>
    (∀ t, t ∈ moved.subscriptions ∨ db'.Linked w t record.id ↔ db.Linked w t record.id) ∧
    (∀ row ∈ db'.libraryOrigins, row ∈ db.libraryOrigins) ∧
    ∀ row, ¬ (row.workspaceId = w ∧ row.sourceRecordId = record.id) →
      (row ∈ db'.libraryOrigins ↔ row ∈ db.libraryOrigins)
  refine wp_mono (wp_loop I (fun moved d prior hprior hI => ?_) ⟨fun t => ?_, fun _ h => h, fun _ _ => Iff.rfl⟩)
    fun _ _ h => ⟨h.1, h.2.2⟩
  · intro moved' d' hturn
    obtain ⟨hlink, hsub, hother⟩ := hI
    rcases detachPrior_origins P w record moved prior d moved' d' hturn with ⟨rfl, hd⟩ | ⟨hmoved, hrows⟩
    · unfold I Db.Linked
      rw [hd]
      exact ⟨hlink, hsub, hother⟩
    · refine ⟨fun t => ⟨?_, fun h => ?_⟩, fun row hrow => hsub row ((hrows row).1 hrow).1, fun row hne => ?_⟩
      · rintro (ht | ⟨a, ha⟩)
        · rcases (hmoved t).1 ht with ht | ht
          · exact (hlink t).1 (.inl ht)
          · exact ⟨prior.1, (mem_priorByArticle hprior t).1 ht⟩
        · exact ⟨a, hsub _ ((hrows _).1 ha).1⟩
      · rcases (hlink t).2 h with ht | ⟨a, ha⟩
        · exact .inl ((hmoved t).2 (.inl ht))
        · by_cases hap : a = prior.1
          · subst hap
            exact .inl ((hmoved t).2 (.inr ((mem_priorByArticle hprior t).2 (hsub _ ha))))
          · exact .inr ⟨a, (hrows _).2 ⟨ha, fun he => hap he.2.1⟩⟩
      · rw [hrows, hother row hne]
        exact ⟨And.left, fun h => ⟨h, fun he => hne ⟨he.1, he.2.2⟩⟩⟩
  · simp

theorem attachRecord_origins {now : DateTime} {s : Subscription} {moved : Moved} {chosen : Article × DeliveryResult}
    {result : DeliveryResult} {db' : Db} (hrun : attachRecord P now s commit moved chosen db = .ok (result, db')) :
    db'.libraryOrigins = (moved.linked commit.target.subscriptionId).foldl
      (fun rows s => insertRow ⟨commit.target.workspaceId, chosen.1.id, s, commit.record.id⟩ rows)
      db.libraryOrigins := by
  unfold attachRecord at hrun
  obtain ⟨_, db₁, h₁, hrun⟩ := bind_ok.1 hrun
  obtain ⟨_, db₂, h₂, hrun⟩ := bind_ok.1 hrun
  obtain ⟨_, db₃, h₃, hrun⟩ := bind_ok.1 hrun
  obtain ⟨_, db₄, h₄, hrun⟩ := bind_ok.1 hrun
  obtain ⟨_, db₅, h₅, hrun⟩ := bind_ok.1 hrun
  obtain ⟨_, db₆, h₆, hrun⟩ := bind_ok.1 hrun
  obtain ⟨_, db₇, h₇, hrun⟩ := bind_ok.1 hrun
  cases hrun
  have e₁ := upsertArticle_keeps (f := Db.libraryOrigins) (fun _ _ => rfl) (fun _ _ => rfl) _ _ _ _ _ _ h₁
  have e₂ := keeps_onlyIf (f := Db.libraryOrigins) (recordAutomaticRead_keeps (fun _ _ => rfl) _ _) _ _ _ h₂
  have e₄ := migrateRuleProvenance_keeps (f := Db.libraryOrigins) (fun _ _ => rfl) _ _ _ _ _ _ h₄
  have e₅ := linkHistory_keeps (f := Db.libraryOrigins) (fun _ _ => rfl) _ _ _ _ _ _ h₅
  have e₆ := enqueueArticleRuleJobs_keeps (f := Db.libraryOrigins) (fun _ _ _ => rfl) _ _ _ _ _ _ _ _ _ h₆
  have e₇ := checkReferences_keeps (f := Db.libraryOrigins) _ _ _ h₇
  cases h₃
  rw [e₇, e₆, e₅, e₄]
  simp only [Article.attachOrigin_id, e₂, e₁]

/-- The links after a delivery that was not skipped. -/
theorem deliverActive_linked {now : DateTime} {s : Subscription} {result : DeliveryResult} {db' : Db}
    (hrun : deliverActive P now s commit db = .ok (result, db')) (w' : WorkspaceId) (t : SubscriptionId)
    (r' : SourceRecordId) :
    db'.Linked w' t r' ↔ db.Linked w' t r' ∨
      (w' = commit.target.workspaceId ∧ t = commit.target.subscriptionId ∧ r' = commit.record.id) := by
  unfold deliverActive at hrun
  rw [bind_run, get_run] at hrun
  obtain ⟨moved, db₁, hloop, hrun⟩ := bind_ok.1 hrun
  obtain ⟨hlink, hother⟩ := detachLoop_linked P commit.target.workspaceId commit.record db moved db₁ hloop
  obtain ⟨found, -, hrun⟩ := (bind_ok_of_reads (findByKey_keeps _ _ _)).1 hrun
  obtain ⟨chosen, -, hrun⟩ := (bind_ok_of_reads (chooseArticle_keeps _ _ _)).1 hrun
  have hrows : ∀ row, row ∈ db'.libraryOrigins ↔ row ∈ db₁.libraryOrigins ∨
      ∃ u ∈ moved.linked commit.target.subscriptionId,
        row = ⟨commit.target.workspaceId, chosen.1.id, u, commit.record.id⟩ := by
    intro row
    rw [attachRecord_origins hrun, mem_foldl_insertRow]
  unfold Db.Linked
  simp only [hrows, OriginRow.mk.injEq, mem_linked]
  by_cases hwr : w' = commit.target.workspaceId ∧ r' = commit.record.id
  · obtain ⟨rfl, rfl⟩ := hwr
    have hl := hlink t
    unfold Db.Linked at hl
    rw [← hl]
    constructor
    · rintro ⟨a, ha | ⟨u, hu | hu, -, -, htu, -⟩⟩
      · exact .inl (.inr ⟨a, ha⟩)
      · exact .inr ⟨rfl, htu.trans hu, rfl⟩
      · exact .inl (.inl (htu ▸ hu))
    · rintro ((ht | ⟨a, ha⟩) | ⟨-, rfl, -⟩)
      · exact ⟨_, .inr ⟨t, .inr ht, rfl, rfl, rfl, rfl⟩⟩
      · exact ⟨a, .inl ha⟩
      · exact ⟨_, .inr ⟨_, .inl rfl, rfl, rfl, rfl, rfl⟩⟩
  · constructor
    · rintro ⟨a, ha | ⟨u, -, rfl, -, -, rfl⟩⟩
      · exact .inl ⟨a, (hother _ hwr).1 ha⟩
      · exact absurd ⟨rfl, rfl⟩ hwr
    · rintro (⟨a, ha⟩ | ⟨rfl, -, rfl⟩)
      · exact ⟨a, .inl ((hother _ hwr).2 ha)⟩
      · exact absurd ⟨rfl, rfl⟩ hwr

/-- A delivery that ended links its subscription if the subscription takes deliveries, and nothing else. -/
theorem deliver_linked {lease : LeasedWork} {now : DateTime} {result : DeliveryResult} {db' : Db}
    (hrun : deliver P lease now commit db = .ok (result, db')) (w' : WorkspaceId) (t : SubscriptionId)
    (r' : SourceRecordId) :
    db'.Linked w' t r' ↔ db.Linked w' t r' ∨
      (w' = commit.target.workspaceId ∧ t = commit.target.subscriptionId ∧ r' = commit.record.id ∧
        ∃ s, db.subscriptions.lookup commit.target.subscriptionId = some s ∧ s.workspaceId = commit.target.workspaceId ∧
          db.deliverable s = true) := by
  obtain ⟨-, ⟨-, rfl, hinactive⟩ | ⟨s, hs, hws, hdel, hact⟩⟩ := deliver_ok hrun
  · constructor
    · exact .inl
    · rintro (h | ⟨-, -, -, s, hs, -, hdel⟩)
      · exact h
      · rw [hinactive s hs] at hdel
        cases hdel
  · rw [deliverActive_linked hact]
    constructor
    · rintro (h | ⟨h₁, h₂, h₃⟩)
      · exact .inl h
      · exact .inr ⟨h₁, h₂, h₃, s, hs, hws, hdel⟩
    · rintro (h | ⟨h₁, h₂, h₃, -⟩)
      · exact .inl h
      · exact .inr ⟨h₁, h₂, h₃⟩

end
end Inoreader
