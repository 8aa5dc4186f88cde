import Inoreader.Library.Run

/-!
# Revisions of article documents

Two documents of one article at two states of a run are equal or have different revisions, the later
one the larger. Every guard that compares a revision therefore compares the documents.
-/

namespace Inoreader
open Lib Tx

/-- The receipt of an operation on an article, by what it recorded when it was completed. -/
def Db.Completed (db : Db) (owner : AccountId) (operation : Nat) (k : ArticleKey) (c : ReadingCompletion) : Prop :=
  ∃ receipt, db.readingCompletions.lookup (owner, operation) = some (k, receipt) ∧ receipt.completed = c

section
variable {P : Platform} {visible : Db → WorkspaceId → Article → Bool} {K : Set DedupKey} {s s' : LibraryWorld}
  {op : LibraryOp} {db db' : Db} {owner : AccountId} {operation : Nat} {k : ArticleKey} {c : ReadingCompletion}

theorem Db.Completed.congr (h : db.Completed owner operation k c)
    (hsame : db'.readingCompletions = db.readingCompletions) : db'.Completed owner operation k c := by
  unfold Db.Completed
  rw [hsame]
  exact h

/-- Completing a reading stores a receipt under a free operation id. -/
theorem Db.Completed.completeReading (h : db.Completed owner operation k c) {now : DateTime} {owner' : AccountId}
    {w : WorkspaceId} {i : ArticleId} {command : CompleteReading} {result : ReadingCompletion}
    (hrun : Inoreader.completeReading now owner' w i command db = .ok (result, db')) :
    db'.Completed owner operation k c := by
  rcases completeReading_ok hrun with ⟨rfl, -⟩ | ⟨a, receipt, -, -, -, hfree, -, -, hrows, -⟩
  · exact h
  · obtain ⟨old, hold, hc⟩ := h
    refine ⟨old, ?_, hc⟩
    rw [hrows, Table.lookup_insert_if, if_neg, hold]
    intro he
    rw [← he, hold] at hfree
    cases hfree

/-- Undoing keeps what the receipt recorded at completion. -/
theorem Db.Completed.undoReading (h : db.Completed owner operation k c) {owner' : AccountId} {w : WorkspaceId}
    {i : ArticleId} {operation' : Nat} {result : ReadingCompletion}
    (hrun : Inoreader.undoReading owner' w i operation' db = .ok (result, db')) :
    db'.Completed owner operation k c := by
  obtain ⟨receipt, hrec, ⟨rfl, -⟩ | ⟨-, a, state, -, -, -, hrows, -⟩⟩ := undoReading_ok hrun
  · exact h
  · obtain ⟨old, hold, hc⟩ := h
    unfold Db.Completed
    rw [hrows, Table.lookup_insert_if]
    split
    · rename_i he
      rw [he, hrec] at hold
      cases hold
      exact ⟨_, rfl, hc⟩
    · exact ⟨old, hold, hc⟩

theorem Db.Completed.step (h : s.db.Completed owner operation k c) (hstep : s.step P visible op = some s') :
    s'.db.Completed owner operation k c := by
  cases op with
  | deliver lease now commit =>
    simp only [LibraryWorld.step] at hstep
    split at hstep
    · cases hstep
    · cases hstep
      exact h.congr ((deliver_keeps (f := Db.readingCompletions) (by refine ⟨⟨?_, ?_, ?_⟩, ?_, ?_, ?_, ?_⟩ <;> intros <;> rfl)
        lease now commit).commit s.db)
  | evaluateArticleRules lease now w i evaluations =>
    cases hstep
    exact h.congr ((evaluateArticleRules_keeps (f := Db.readingCompletions) (by constructor <;> intros <;> rfl)
      lease now w i evaluations).commit s.db)
  | applyRuleBatch lease now w rule version afterId throughId limit =>
    cases hstep
    exact h.congr ((applyRuleBatch_keeps (f := Db.readingCompletions) (by constructor <;> intros <;> rfl)
      lease now w rule version afterId throughId limit).commit s.db)
  | readArticle w i =>
    cases hstep
    exact h
  | updateArticle w snapshot p =>
    simp only [LibraryWorld.step] at hstep
    split at hstep
    · cases hstep
      exact commit_of_wp (P := fun d => d.Completed owner operation k c) h fun _ _ hrun => h.congr (updateArticle_ok hrun).2.2.1
    · cases hstep
  | completeReading now owner' w i command =>
    cases hstep
    exact commit_of_wp (P := fun d => d.Completed owner operation k c) h fun _ _ hrun => h.completeReading hrun
  | undoReading owner' w i operation' =>
    cases hstep
    exact commit_of_wp (P := fun d => d.Completed owner operation k c) h fun _ _ hrun => h.undoReading hrun
  | markScopeRead w scope batch =>
    cases hstep
    refine h.congr (Keeps.commit (f := Db.readingCompletions) ?_ s.db)
    exact keeps_bind keeps_get fun _ => markBatches_keeps (fun _ _ => rfl) (fun _ _ => rfl) _ _ _ _
  | saveRule w expected rule =>
    cases hstep
    exact h.congr ((saveRule_keeps (f := Db.readingCompletions) (fun _ _ => rfl) w expected rule).commit s.db)
  | deleteRule w id expected =>
    cases hstep
    exact h.congr ((deleteRule_keeps (f := Db.readingCompletions) (fun _ _ => rfl) w id expected).commit s.db)
  | other db' =>
    simp only [LibraryWorld.step] at hstep
    split at hstep
    · rename_i hsame
      cases hstep
      exact h.congr hsame.2.2.1
    · cases hstep

/-- An undo that changes anything acts on the document that the completion wrote. -/
theorem LibraryInv.undoReading_document {ops : List LibraryOp} (hi : LibraryInv P K s)
    (hinj : Set.InjOn P.fingerprint K) (hK : keysMet ops ⊆ K)
    (hrun : Lib.run (LibraryWorld.step P visible) s ops = some s') {w : WorkspaceId} {i : ArticleId} {a : Article}
    (hc : s.db.Completed owner operation (w, i) c) (ha : s.db.articles.lookup (w, i) = some a)
    (hrev : a.revision = c.state.revision) {result : ReadingCompletion}
    (hundo : undoReading owner w i operation s'.db = .ok (result, db')) :
    db' = s'.db ∨ s'.db.articles.lookup (w, i) = some a := by
  have hc' : s'.db.Completed owner operation (w, i) c :=
    run_inv' (fun t => t.db.Completed owner operation (w, i) c) (fun _ _ _ h hs => h.step hs) hc hrun
  obtain ⟨receipt, hrec, ⟨hdb, -⟩ | ⟨-, b, state, hb, hbrev, -⟩⟩ := undoReading_ok hundo
  · exact .inl hdb
  · obtain ⟨old, hold, rfl⟩ := hc'
    rw [hrec] at hold
    cases hold
    have hlater := hi.run_later hinj hK hrun ha hb
    rw [hb, hlater.eq_of_revision (hbrev.trans hrev.symm)]
    exact .inr rfl

/-- A changed document has a larger revision, so the revision guards of a patch, a completion and an
undo see every change in between. -/
theorem article_revisions_fresh {s₁ s₂ : LibraryWorld} {ops₁ ops₂ : List LibraryOp} (hempty : LibraryEmpty db)
    (hinj : Set.InjOn P.fingerprint (keysMet (ops₁ ++ ops₂)))
    (hrun₁ : run (LibraryWorld.step P visible) { db } ops₁ = some s₁)
    (hrun₂ : run (LibraryWorld.step P visible) s₁ ops₂ = some s₂) (w : WorkspaceId) (i : ArticleId) (a : Article)
    (ha : s₁.db.articles.lookup (w, i) = some a) :
    (∀ b, s₂.db.articles.lookup (w, i) = some b → (b ≠ a → a.revision < b.revision) ∧ b.revision < 2 ^ 63) ∧
    (∀ p u db', updateArticle w a p s₂.db = .ok (u, db') → s₂.db.articles.lookup (w, i) = some a) ∧
    (∀ now owner command result db', command.expectedRevision = a.revision →
      completeReading now owner w i command s₂.db = .ok (result, db') →
      db' = s₂.db ∨ s₂.db.articles.lookup (w, i) = some a) ∧
    (∀ before now owner command result, before.readingCompletions.lookup (owner, command.operationId) = none →
      completeReading now owner w i command before = .ok (result, s₁.db) →
      ∀ result' db', undoReading owner w i command.operationId s₂.db = .ok (result', db') →
      db' = s₂.db ∨ s₂.db.articles.lookup (w, i) = some a) := by
  have hsub₁ : keysMet ops₁ ⊆ keysMet (ops₁ ++ ops₂) := keysMet_mono (List.subset_append_left _ _)
  have hsub₂ : keysMet ops₂ ⊆ keysMet (ops₁ ++ ops₂) := keysMet_mono (List.subset_append_right _ _)
  have hi₁ := hempty.inv.run hinj hsub₁ hrun₁
  have hi₂ := hi₁.run hinj hsub₂ hrun₂
  have hlater : ∀ {b}, s₂.db.articles.lookup (w, i) = some b → Later a b := hi₁.run_later hinj hsub₂ hrun₂ ha
  have hid := hi₁.ok.article_id ha
  refine ⟨fun b hb => ⟨(hlater hb).resolve_left, ?_⟩, fun p u db' hup => ?_,
    fun now owner command result db' hexp hcomp => ?_, fun before now owner command result hfree hcomp result' db' => ?_⟩
  · have := hi₂.ok.revision_le hb
    simp only [bigintMax] at this
    omega
  · obtain ⟨⟨b, hb, hrev⟩, -⟩ := updateArticle_ok hup
    rw [hid] at hb
    rw [hb, (hlater hb).eq_of_revision hrev]
  · rcases completeReading_ok hcomp with ⟨hdb, -⟩ | ⟨b, receipt, hb, hrev, -⟩
    · exact .inl hdb
    · rw [hb, (hlater hb).eq_of_revision (hrev.trans hexp)]
      exact .inr rfl
  · rcases completeReading_ok hcomp with ⟨-, hsome⟩ | ⟨b, receipt, hb, -, -, -, hres, hrev, hrows, hlib⟩
    · exact absurd hfree hsome
    · refine hi₁.undoReading_document hinj hsub₂ hrun₂ ⟨receipt, ?_, hres⟩ ha ?_
      · rw [hrows, Table.lookup_insert_if, if_pos rfl]
      · rw [(library_eq_iff.1 hlib).1, Db.setArticle, Table.lookup_insert_if, if_pos rfl] at ha
        cases ha
        exact hrev.symm

end

/-- The document of a first delivery and the one after the record was regrouped. -/
theorem article_revisions_fresh_regrouping : ∃ s,
    run (LibraryWorld.step Sample.platform fun _ _ _ => true) Sample.delivered (Sample.regrouping.drop 1) = some s ∧
    Sample.delivered.db.articles.lookup (⟨1⟩, ⟨1⟩) = some (Sample.article "first" 1) ∧
    s.db.articles.lookup (⟨1⟩, ⟨1⟩) = some (Sample.article "second" 3) ∧
    (Sample.article "first" 1).revision < (Sample.article "second" 3).revision := by
  have hrun₁ : run (LibraryWorld.step Sample.platform fun _ _ _ => true) { db := Sample.db }
      (Sample.regrouping.take 1) = some Sample.delivered := rfl
  have hrun₂ : run (LibraryWorld.step Sample.platform fun _ _ _ => true) Sample.delivered
      (Sample.regrouping.drop 1) = some _ := rfl
  have hfresh := article_revisions_fresh Sample.db_empty Sample.keys_regrouping hrun₁ hrun₂ ⟨1⟩ ⟨1⟩
    (Sample.article "first" 1) (by decide)
  exact ⟨_, hrun₂, by decide, by decide, (hfresh.1 (Sample.article "second" 3) (by decide)).1 (by decide)⟩

end Inoreader
