import Inoreader.Library.Run

/-!
# The library index in every reachable state

`LibraryIndex` is the contract of the three library tables. It holds in every state of every run, so
a delivery never finds the tables in disagreement.
-/

namespace Inoreader
open Lib Tx

/-- `library_dedup` is a bijection between articles and their keys, `origins` lists the records of the
article's `library_origins` rows, and a record belongs to at most one article of a workspace. -/
structure LibraryIndex (db : Db) : Prop where
  dedup_article : ∀ w h row, db.libraryDedup.lookup (w, h) = some row →
    ∃ a, db.articles.lookup (w, row.articleId) = some a ∧ a.key = row.dedupKey
  article_dedup : ∀ w i a, db.articles.lookup (w, i) = some a →
    ∃! h, ∃ row, db.libraryDedup.lookup (w, h) = some row ∧ row.articleId = i
  key_unique : ∀ w i j a b, db.articles.lookup (w, i) = some a → db.articles.lookup (w, j) = some b →
    a.key = b.key → i = j
  origins_ne : ∀ w i a, db.articles.lookup (w, i) = some a → a.origins ≠ []
  origins_nodup : ∀ w i a, db.articles.lookup (w, i) = some a → a.origins.Nodup
  origins_rows : ∀ w i a r, db.articles.lookup (w, i) = some a →
    (r ∈ a.origins ↔ ∃ s, ⟨w, i, s, r⟩ ∈ db.libraryOrigins)
  row_article : ∀ w i s r, ⟨w, i, s, r⟩ ∈ db.libraryOrigins → ∃ a, db.articles.lookup (w, i) = some a
  record_unique : ∀ w i j s t r, ⟨w, i, s, r⟩ ∈ db.libraryOrigins → ⟨w, j, t, r⟩ ∈ db.libraryOrigins → i = j

/-- The errors of a delivery that finds the library tables in disagreement. -/
def libraryErrors : List StoreError :=
  [.unavailable "library origin references a missing article",
   .unavailable "dedup index references a missing article",
   .unavailable "dedup index disagrees with article identity"]

section
variable {P : Platform} {visible : Db → WorkspaceId → Article → Bool} {K : Set DedupKey} {db : Db}
  {commit : DeliveryCommit}

theorem LibraryOk.index (h : LibraryOk P K db) : LibraryIndex db := by
  refine ⟨fun w hash row hrow => (h.dedup_article hrow).2, fun w i a ha => ?_, fun w i j a b ha hb hk => ?_,
    fun _ _ _ => h.origins_ne, fun _ _ _ => h.origins_nodup, fun _ _ _ _ => h.origins_rows,
    fun _ _ _ _ => h.row_article, fun _ _ _ _ _ _ => h.record_unique⟩
  · refine ⟨P.fingerprint a.key, ⟨_, h.article_dedup ha, rfl⟩, ?_⟩
    rintro hash ⟨row, hrow, rfl⟩
    obtain ⟨hh, b, hb, hbk⟩ := h.dedup_article hrow
    rw [ha] at hb
    cases hb
    rw [hh, hbk]
  · exact (h.eq_of_fingerprint ha hb (by rw [hk])).1

theorem attachRecord_fails {now : DateTime} {s : Subscription} {moved : Moved} {a : Article} {res : DeliveryResult}
    (hkey : a.key = commit.record.key)
    (hd : (db.libraryDedup.lookup (commit.target.workspaceId, P.fingerprint a.key)).all (·.dedupKey = a.key)) :
    fails (attachRecord P now s commit moved (a, res)) (· ∉ libraryErrors) db := by
  have hk : commit.record.key = (a.attachOrigin commit.record.id).key := by rw [Article.attachOrigin_key, hkey]
  unfold attachRecord
  simp only [fails_bind]
  refine ⟨?_, fun _ _ _ => ⟨?_, fun _ _ _ => ⟨?_, fun _ _ _ => ⟨?_, fun _ _ _ => ⟨?_, fun _ _ _ => ⟨?_,
    fun _ _ _ => ⟨?_, fun _ _ _ => fails_pure _ _ _⟩⟩⟩⟩⟩⟩⟩
  · intro e he
    rw [hk, upsertArticle_run (by rw [Article.attachOrigin_key]; exact hd)] at he
    split at he
    · cases he
    · cases he
      decide
  · simp only [fails_onlyIf, recordAutomaticRead, fails_bind, toI64, fails_require, fails_get, fails_modify, wp_require,
      wp_get, true_and, implies_true, and_true]
    exact fun _ => ⟨fun _ => by decide, fun _ _ => by decide⟩
  · exact fails_modify _ _ _
  · refine fails_loop fun _ _ _ _ => ?_
    simp only [fails_ite, fails_pure, fails_bind, fails_get, true_and, wp_get]
    split
    · trivial
    · exact fails_loop fun _ _ _ _ => fails_modify _ _ _
  · refine fails_loop fun _ _ _ _ => ?_
    simp only [fails_ite, fails_pure, fails_modify, ite_self]
  · unfold enqueueArticleRuleJobs
    simp only [fails_bind, fails_get, true_and, wp_get]
    refine ⟨fails_loop fun _ _ _ _ => ?_, fun _ _ _ => fails_loop fun _ _ _ _ => ?_⟩
    · simp only [validateRule, fails_require]
      exact fun _ => by decide
    · split
      · exact fails_pure _ _ _
      · simp only [enqueueWork, fails_bind, fails_get, true_and, wp_get]
        split
        · simp only [fails_require]
          exact fun _ => by decide
        · simp [workOrigin]
  · simp only [checkReferences, fails_bind, fails_get, true_and, wp_get, fails_require]
    exact fun _ => by decide

theorem LibraryOk.deliverActive_fails (h : LibraryOk P K db) (hinj : Set.InjOn P.fingerprint K)
    (hkey : commit.record.key ∈ K) (now : DateTime) (s : Subscription) :
    fails (deliverActive P now s commit) (· ∉ libraryErrors) db := by
  unfold deliverActive
  simp only [fails_bind, fails_get, true_and, wp_get]
  have hloop : ∀ e, loop (detachPrior P commit.target.workspaceId commit.record) {}
      (db.priorByArticle commit.target.workspaceId commit.record.id) db = .error e →
      e = .unavailable "article revision exceeds PostgreSQL BIGINT" := by
    intro e he
    cases hl : db.leaving commit.target.workspaceId commit.record with
    | none =>
      rw [h.detachLoop_of_none hl] at he
      cases he
    | some old =>
      obtain ⟨subscriptions, -, hr⟩ := h.detachLoop_of_some hl
      rw [hr] at he
      split at he
      · cases he
      · cases he
        rfl
  refine ⟨fun e he => by rw [hloop e he]; decide, fun moved db₁ h₁ => ?_⟩
  obtain ⟨rfl, hrev, -, hmoved⟩ := h.detachLoop_ok h₁
  have hok := h.afterLeaving hrev
  refine ⟨fun e he => ?_, fun found db₂ h₂ => ?_⟩
  · rw [hok.findByKey_run hinj hkey] at he
    cases he
  rw [hok.findByKey_run hinj hkey, h.owner_afterLeaving hok hinj hkey] at h₂
  cases h₂
  refine ⟨?_, fun chosen db₃ h₃ => ?_⟩
  · unfold chooseArticle
    split
    · exact fails_pure _ _ _
    · simp only [fails_bind, automaticallyRead, fails_get, true_and, wp_get, fails_pure]
      refine ⟨?_, fun _ _ _ => trivial⟩
      split
      · exact fails_pure _ _ _
      · simp only [fails_bind, fails_require, fails_pure]
        exact ⟨fun _ => by decide, fun _ _ _ => trivial⟩
  · obtain ⟨rfl, read, hread, rfl⟩ := chooseArticle_ok hmoved h₃
    have hjk : (joined commit (db.leaving commit.target.workspaceId commit.record)
        (db.owner P commit.target.workspaceId commit.record.key) read).key = commit.record.key :=
      joined_key fun b hb => ((h.owner_eq_some hinj hkey).1 hb).2
    exact attachRecord_fails hjk (by rw [hjk]; exact hok.dedupKey_eq hinj hkey)

theorem LibraryOk.deliver_fails (h : LibraryOk P K db) (hinj : Set.InjOn P.fingerprint K)
    (hkey : commit.record.key ∈ K) (lease : LeasedWork) (now : DateTime) :
    fails (Inoreader.deliver P lease now commit) (· ∉ libraryErrors) db := by
  unfold Inoreader.deliver
  rw [fails_bind]
  refine ⟨fun e he => ?_, fun _ db₁ h₁ => ?_⟩
  · rw [assertLease_run] at he
    split at he
    · cases he
    · cases he
      decide
  obtain ⟨-, rfl⟩ := assertLease_ok h₁
  simp only [fails_bind, fails_get, true_and, wp_get]
  split
  · simp only [fails_bind, fails_orThrow, fails_require, fails_pure]
    exact ⟨fun _ => by decide, fun _ _ _ => ⟨fun _ => by decide, fun _ _ _ => trivial⟩⟩
  · simp only [fails_bind, fails_orThrow, fails_require, wp_orThrow, wp_require, fails_ite, fails_pure]
    refine ⟨fun _ => by decide, fun _ _ => ⟨fun _ => by decide, fun _ => ?_⟩⟩
    split
    · exact h.deliverActive_fails hinj hkey now _
    · trivial

/-- The library tables agree in every state of every run, and the next delivery finds them so. -/
theorem library_consistent {s : LibraryWorld} {ops : List LibraryOp} (hempty : LibraryEmpty db)
    (hinj : Set.InjOn P.fingerprint (keysMet ops))
    (hrun : run (LibraryWorld.step P visible) { db } ops = some s) :
    LibraryIndex s.db ∧ ∀ lease now (commit : DeliveryCommit),
      Set.InjOn P.fingerprint (insert commit.record.key (keysMet ops)) →
      ∀ e, deliver P lease now commit s.db = .error e → e ∉ libraryErrors := by
  have hreach : ∀ K, keysMet ops ⊆ K → Set.InjOn P.fingerprint K → LibraryInv P K s := fun K hK hinj =>
    hempty.inv.run hinj hK hrun
  refine ⟨(hreach _ subset_rfl hinj).ok.index, fun lease now commit hinj' => ?_⟩
  exact (hreach _ (Set.subset_insert _ _) hinj').ok.deliver_fails hinj' (Set.mem_insert _ _) lease now

end

theorem library_consistent_regrouping : ∃ s,
    run (LibraryWorld.step Sample.platform fun _ _ _ => true) { db := Sample.db } Sample.regrouping = some s ∧
      s.db.articles.lookup (⟨1⟩, ⟨1⟩) = some (Sample.article "second" 3) ∧
      LibraryIndex s.db := by
  have hrun : run (LibraryWorld.step Sample.platform fun _ _ _ => true) { db := Sample.db } Sample.regrouping =
      some _ := rfl
  exact ⟨_, hrun, by decide, (library_consistent Sample.db_empty Sample.keys_regrouping hrun).1⟩

end Inoreader
