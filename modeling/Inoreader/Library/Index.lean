import Mathlib.Data.Set.Basic
import Inoreader.Store.Delivery

/-!
# The library index

`articles`, `library_dedup` and `library_origins` describe one thing: which article of a workspace
has which key and holds which records. `LibraryOk` says how they agree. A delivery is a `detach` of
the record from the article it leaves followed by an `attach` to the article of its key, and both
keep the invariant.
-/

namespace Inoreader
open Lib

/-- The three library tables agree, on articles whose keys are in `K`. -/
structure LibraryOk (P : Platform) (K : Set DedupKey) (db : Db) : Prop where
  article_id {w i a} : db.articles.lookup (w, i) = some a → a.id = i
  article_dedup {w i a} : db.articles.lookup (w, i) = some a →
    db.libraryDedup.lookup (w, P.fingerprint a.key) = some ⟨a.key, i⟩
  dedup_article {w h row} : db.libraryDedup.lookup (w, h) = some row →
    h = P.fingerprint row.dedupKey ∧ ∃ a, db.articles.lookup (w, row.articleId) = some a ∧ a.key = row.dedupKey
  origins_ne {w i a} : db.articles.lookup (w, i) = some a → a.origins ≠ []
  origins_nodup {w i a} : db.articles.lookup (w, i) = some a → a.origins.Nodup
  origins_rows {w i a r} : db.articles.lookup (w, i) = some a →
    (r ∈ a.origins ↔ ∃ s, ⟨w, i, s, r⟩ ∈ db.libraryOrigins)
  row_article {w i s r} : ⟨w, i, s, r⟩ ∈ db.libraryOrigins → ∃ a, db.articles.lookup (w, i) = some a
  record_unique {w i i' s s' r} : ⟨w, i, s, r⟩ ∈ db.libraryOrigins → ⟨w, i', s', r⟩ ∈ db.libraryOrigins → i = i'
  key_mem {w i a} : db.articles.lookup (w, i) = some a → a.key ∈ K
  revision_le {w i a} : db.articles.lookup (w, i) = some a → a.revision ≤ bigintMax

/-- The tables that describe the library. -/
def Db.library (db : Db) : Table ArticleKey Article × Table (WorkspaceId × String) DedupRow × List OriginRow :=
  (db.articles, db.libraryDedup, db.libraryOrigins)

theorem library_eq_iff {db db' : Db} :
    db'.library = db.library ↔ db'.articles = db.articles ∧ db'.libraryDedup = db.libraryDedup ∧
      db'.libraryOrigins = db.libraryOrigins := by simp [Db.library]

theorem LibraryOk.congr {P : Platform} {K : Set DedupKey} {db db' : Db} (h : LibraryOk P K db)
    (hlib : db'.library = db.library) : LibraryOk P K db' := by
  obtain ⟨ha, hd, ho⟩ := library_eq_iff.1 hlib
  obtain ⟨h₁, h₂, h₃, h₄, h₅, h₆, h₇, h₈, h₉, h₁₀⟩ := h
  constructor <;> intros <;> simp only [ha, hd, ho] at * <;> solve_by_elim

/-- A library without articles. -/
structure LibraryEmpty (db : Db) : Prop where
  articles : db.articles = ∅
  libraryDedup : db.libraryDedup = ∅
  libraryOrigins : db.libraryOrigins = []

theorem LibraryEmpty.ok {P : Platform} {K : Set DedupKey} {db : Db} (h : LibraryEmpty db) : LibraryOk P K db := by
  constructor <;> intros <;> simp_all [h.articles, h.libraryDedup, h.libraryOrigins]

/-- The record leaves the article `old`, which disappears with its last origin. -/
def Db.detach (P : Platform) (db : Db) (w : WorkspaceId) (old : Article) (r : SourceRecordId) : Db :=
  { db with
    libraryOrigins := db.libraryOrigins.filter fun row =>
      ¬ (row.workspaceId = w ∧ row.articleId = old.id ∧ row.sourceRecordId = r)
    articles :=
      if (old.detachOrigin r).origins = [] then db.articles.erase (w, old.id)
      else db.articles.insert (w, old.id) (old.detachOrigin r)
    libraryDedup :=
      if (old.detachOrigin r).origins = [] then db.libraryDedup.erase (w, P.fingerprint old.key)
      else db.libraryDedup.insert (w, P.fingerprint old.key) ⟨old.key, old.id⟩ }

/-- The article `a` is stored and the subscriptions are linked to the record through it. -/
def Db.attach (P : Platform) (db : Db) (w : WorkspaceId) (a : Article) (r : SourceRecordId)
    (subscriptions : List SubscriptionId) : Db :=
  { db with
    libraryOrigins := subscriptions.foldl (fun rows s => insertRow ⟨w, a.id, s, r⟩ rows) db.libraryOrigins
    articles := db.articles.insert (w, a.id) a
    libraryDedup := db.libraryDedup.insert (w, P.fingerprint a.key) ⟨a.key, a.id⟩ }

section
variable {P : Platform} {K : Set DedupKey} {db : Db} {w : WorkspaceId} {old a : Article} {r : SourceRecordId}
  {subscriptions : List SubscriptionId}

theorem mem_detach_origins {row : OriginRow} :
    row ∈ (db.detach P w old r).libraryOrigins ↔ row ∈ db.libraryOrigins ∧
      ¬ (row.workspaceId = w ∧ row.articleId = old.id ∧ row.sourceRecordId = r) := by
  simp only [Db.detach, List.mem_filter, decide_eq_true_eq]

theorem lookup_detach_articles (k : ArticleKey) :
    (db.detach P w old r).articles.lookup k =
      if k = (w, old.id) then (if (old.detachOrigin r).origins = [] then none else some (old.detachOrigin r))
      else db.articles.lookup k := by
  unfold Db.detach
  simp only
  split
  · rw [Table.lookup_erase_if]
  · rw [Table.lookup_insert_if]

theorem lookup_detach_dedup (k : WorkspaceId × String) :
    (db.detach P w old r).libraryDedup.lookup k =
      if k = (w, P.fingerprint old.key) then
        (if (old.detachOrigin r).origins = [] then none else some ⟨old.key, old.id⟩)
      else db.libraryDedup.lookup k := by
  unfold Db.detach
  simp only
  split
  · rw [Table.lookup_erase_if]
  · rw [Table.lookup_insert_if]

theorem mem_foldl_insertRow {f : SubscriptionId → OriginRow} {row : OriginRow} {rows : List OriginRow} :
    row ∈ subscriptions.foldl (fun rows s => insertRow (f s) rows) rows ↔
      row ∈ rows ∨ ∃ s ∈ subscriptions, row = f s := by
  induction subscriptions generalizing rows with
  | nil => simp
  | cons s ss ih =>
    rw [List.foldl_cons, ih, mem_insertRow]
    simp [or_assoc]

theorem mem_attach_origins {row : OriginRow} :
    row ∈ (db.attach P w a r subscriptions).libraryOrigins ↔
      row ∈ db.libraryOrigins ∨ ∃ s ∈ subscriptions, row = ⟨w, a.id, s, r⟩ :=
  mem_foldl_insertRow

theorem lookup_attach_articles (k : ArticleKey) :
    (db.attach P w a r subscriptions).articles.lookup k =
      if k = (w, a.id) then some a else db.articles.lookup k :=
  Table.lookup_insert_if k _ _ _

theorem lookup_attach_dedup (k : WorkspaceId × String) :
    (db.attach P w a r subscriptions).libraryDedup.lookup k =
      if k = (w, P.fingerprint a.key) then some ⟨a.key, a.id⟩ else db.libraryDedup.lookup k :=
  Table.lookup_insert_if k _ _ _

namespace LibraryOk

/-- Two articles of a workspace with one fingerprint are one article. -/
theorem eq_of_fingerprint (h : LibraryOk P K db) {i j : ArticleId} {b c : Article}
    (hb : db.articles.lookup (w, i) = some b) (hc : db.articles.lookup (w, j) = some c)
    (hf : P.fingerprint b.key = P.fingerprint c.key) : i = j ∧ b.key = c.key := by
  have hb' := h.article_dedup hb
  rw [hf, h.article_dedup hc] at hb'
  simp only [Option.some.injEq, DedupRow.mk.injEq] at hb'
  exact ⟨hb'.2.symm, hb'.1.symm⟩

/-- Every origin row of a record names the article that lists it. -/
theorem mem_origins (h : LibraryOk P K db) {i : ArticleId} {s : SubscriptionId} {b : Article}
    (hrow : ⟨w, i, s, r⟩ ∈ db.libraryOrigins) (hb : db.articles.lookup (w, i) = some b) : r ∈ b.origins :=
  (h.origins_rows hb).2 ⟨s, hrow⟩

/-- The article that lists a record is the one of the record's origin rows. -/
theorem id_of_mem (h : LibraryOk P K db) {i j : ArticleId} {s : SubscriptionId} {b : Article}
    (hb : db.articles.lookup (w, i) = some b) (hr : r ∈ b.origins) (hrow : ⟨w, j, s, r⟩ ∈ db.libraryOrigins) :
    j = i := by
  obtain ⟨s', hs'⟩ := (h.origins_rows hb).1 hr
  exact h.record_unique hrow hs'

theorem detach (h : LibraryOk P K db) (hold : db.articles.lookup (w, old.id) = some old)
    (hrev : (old.detachOrigin r).origins ≠ [] → (old.detachOrigin r).revision ≤ bigintMax) :
    LibraryOk P K (db.detach P w old r) := by
  have hnd := h.origins_nodup hold
  -- a row of an article other than `old` is the old row
  have hlook : ∀ {w' i b}, (db.detach P w old r).articles.lookup (w', i) = some b →
      (w' = w ∧ i = old.id ∧ (old.detachOrigin r).origins ≠ [] ∧ b = old.detachOrigin r) ∨
      (¬ (w' = w ∧ i = old.id) ∧ db.articles.lookup (w', i) = some b) := by
    intro w' i b hb
    rw [lookup_detach_articles] at hb
    split at hb
    · rename_i hk
      simp only [Prod.mk.injEq] at hk
      split at hb
      · cases hb
      · rename_i hne
        exact .inl ⟨hk.1, hk.2, hne, (Option.some.inj hb).symm⟩
    · rename_i hk
      simp only [Prod.mk.injEq] at hk
      exact .inr ⟨hk, hb⟩
  constructor
  case article_id =>
    intro w' i b hb
    rcases hlook hb with ⟨-, rfl, -, rfl⟩ | ⟨-, hb⟩
    · simp
    · exact h.article_id hb
  case article_dedup =>
    intro w' i b hb
    rw [lookup_detach_dedup]
    rcases hlook hb with ⟨rfl, rfl, hne, rfl⟩ | ⟨hk, hb₀⟩
    · simp [hne]
    · rw [if_neg, h.article_dedup hb₀]
      intro he
      simp only [Prod.mk.injEq] at he
      obtain ⟨rfl, hf⟩ := he
      exact hk ⟨rfl, (h.eq_of_fingerprint hb₀ hold hf).1⟩
  case dedup_article =>
    intro w' hash row hrow
    rw [lookup_detach_dedup] at hrow
    split at hrow
    · rename_i hk
      simp only [Prod.mk.injEq] at hk
      split at hrow
      · cases hrow
      · rename_i hne
        cases hrow
        refine ⟨hk.2, old.detachOrigin r, ?_, by simp⟩
        rw [lookup_detach_articles, if_pos (by rw [hk.1]), if_neg hne]
    · rename_i hk
      obtain ⟨hh, b, hb, hkey⟩ := h.dedup_article hrow
      refine ⟨hh, b, ?_, hkey⟩
      rw [lookup_detach_articles, if_neg, hb]
      intro he
      simp only [Prod.mk.injEq] at he
      obtain ⟨rfl, hi⟩ := he
      rw [hi, hold] at hb
      cases hb
      exact hk (by rw [hh, hkey])
  case origins_ne =>
    intro w' i b hb
    rcases hlook hb with ⟨-, -, hne, rfl⟩ | ⟨-, hb⟩
    · exact hne
    · exact h.origins_ne hb
  case origins_nodup =>
    intro w' i b hb
    rcases hlook hb with ⟨-, -, -, rfl⟩ | ⟨-, hb⟩
    · exact Article.nodup_detachOrigin hnd
    · exact h.origins_nodup hb
  case origins_rows =>
    intro w' i b r' hb
    simp only [mem_detach_origins]
    rcases hlook hb with ⟨rfl, rfl, -, rfl⟩ | ⟨hk, hb⟩
    · rw [Article.mem_detachOrigin hnd, h.origins_rows hold]
      constructor
      · rintro ⟨⟨s, hs⟩, hne⟩
        exact ⟨s, hs, fun hx => hne hx.2.2⟩
      · rintro ⟨s, hs, hne⟩
        exact ⟨⟨s, hs⟩, fun hr => hne ⟨rfl, rfl, hr⟩⟩
    · rw [h.origins_rows hb]
      constructor
      · rintro ⟨s, hs⟩
        exact ⟨s, hs, fun hx => hk ⟨hx.1, hx.2.1⟩⟩
      · rintro ⟨s, hs, -⟩
        exact ⟨s, hs⟩
  case row_article =>
    intro w' i s r' hrow
    obtain ⟨hrow₀, hne⟩ := mem_detach_origins.1 hrow
    obtain ⟨b, hb⟩ := h.row_article hrow₀
    rw [lookup_detach_articles]
    split
    · rename_i hk
      simp only [Prod.mk.injEq] at hk
      obtain ⟨rfl, rfl⟩ := hk
      have hr' : r' ∈ (old.detachOrigin r).origins :=
        (Article.mem_detachOrigin hnd).2 ⟨h.mem_origins hrow₀ hold, fun he => hne ⟨rfl, rfl, he⟩⟩
      rw [if_neg (List.ne_nil_of_mem hr')]
      exact ⟨_, rfl⟩
    · exact ⟨b, hb⟩
  case record_unique =>
    intro w' i i' s s' r' h₁ h₂
    exact h.record_unique (mem_detach_origins.1 h₁).1 (mem_detach_origins.1 h₂).1
  case key_mem =>
    intro w' i b hb
    rcases hlook hb with ⟨-, -, -, rfl⟩ | ⟨-, hb⟩
    · rw [Article.detachOrigin_key]
      exact h.key_mem hold
    · exact h.key_mem hb
  case revision_le =>
    intro w' i b hb
    rcases hlook hb with ⟨-, -, hne, rfl⟩ | ⟨-, hb⟩
    · exact hrev hne
    · exact h.revision_le hb

/-- The article that a record joins is new under its key, or it is the stored one with that key. -/
theorem attach (h : LibraryOk P K db) (hkey : a.key ∈ K)
    (hbase : (db.articles.lookup (w, a.id) = none ∧ db.libraryDedup.lookup (w, P.fingerprint a.key) = none ∧
        a.origins = [r]) ∨
      ∃ b, db.articles.lookup (w, a.id) = some b ∧ b.key = a.key ∧ a.origins = (b.attachOrigin r).origins)
    (hfree : ∀ {i s}, ⟨w, i, s, r⟩ ∈ db.libraryOrigins → i = a.id) (hsub : subscriptions ≠ [])
    (hrev : a.revision ≤ bigintMax) : LibraryOk P K (db.attach P w a r subscriptions) := by
  have hlook : ∀ {w' i b}, (db.attach P w a r subscriptions).articles.lookup (w', i) = some b →
      (w' = w ∧ i = a.id ∧ b = a) ∨ (¬ (w' = w ∧ i = a.id) ∧ db.articles.lookup (w', i) = some b) := by
    intro w' i b hb
    rw [lookup_attach_articles] at hb
    split at hb
    · rename_i hk
      simp only [Prod.mk.injEq] at hk
      exact .inl ⟨hk.1, hk.2, (Option.some.inj hb).symm⟩
    · rename_i hk
      simp only [Prod.mk.injEq] at hk
      exact .inr ⟨hk, hb⟩
  obtain ⟨s₀, hs₀⟩ := List.exists_mem_of_ne_nil _ hsub
  have hra : r ∈ a.origins := by
    rcases hbase with ⟨-, -, ho⟩ | ⟨b, -, -, ho⟩
    · simp [ho]
    · rw [ho, Article.mem_attachOrigin]
      exact .inr rfl
  -- no other article of the workspace has the fingerprint of `a`
  have hother : ∀ {i b}, i ≠ a.id → db.articles.lookup (w, i) = some b →
      P.fingerprint b.key ≠ P.fingerprint a.key := by
    intro i b hi hb hf
    rcases hbase with ⟨-, hd, -⟩ | ⟨c, hc, hck, -⟩
    · rw [← hf, h.article_dedup hb] at hd
      cases hd
    · rw [← hck] at hf
      exact hi (h.eq_of_fingerprint hb hc hf).1
  constructor
  case article_id =>
    intro w' i b hb
    rcases hlook hb with ⟨-, rfl, rfl⟩ | ⟨-, hb⟩
    · rfl
    · exact h.article_id hb
  case article_dedup =>
    intro w' i b hb
    rw [lookup_attach_dedup]
    rcases hlook hb with ⟨rfl, rfl, rfl⟩ | ⟨hk, hb₀⟩
    · simp
    · rw [if_neg, h.article_dedup hb₀]
      intro he
      simp only [Prod.mk.injEq] at he
      obtain ⟨rfl, hf⟩ := he
      exact hother (fun hi => hk ⟨rfl, hi⟩) hb₀ hf
  case dedup_article =>
    intro w' hash row hrow
    rw [lookup_attach_dedup] at hrow
    split at hrow
    · rename_i hk
      simp only [Prod.mk.injEq] at hk
      cases hrow
      refine ⟨hk.2, a, ?_, rfl⟩
      rw [lookup_attach_articles, if_pos (by rw [hk.1])]
    · rename_i hk
      obtain ⟨hh, b, hb, hbk⟩ := h.dedup_article hrow
      refine ⟨hh, b, ?_, hbk⟩
      rw [lookup_attach_articles, if_neg, hb]
      intro he
      simp only [Prod.mk.injEq] at he
      obtain ⟨rfl, hi⟩ := he
      rw [hi] at hb
      rcases hbase with ⟨hn, -, -⟩ | ⟨c, hc, hck, -⟩
      · rw [hn] at hb
        cases hb
      · rw [hc] at hb
        cases hb
        exact hk (by rw [hh, ← hbk, hck])
  case origins_ne =>
    intro w' i b hb
    rcases hlook hb with ⟨-, -, rfl⟩ | ⟨-, hb⟩
    · exact List.ne_nil_of_mem hra
    · exact h.origins_ne hb
  case origins_nodup =>
    intro w' i b hb
    rcases hlook hb with ⟨-, -, rfl⟩ | ⟨-, hb⟩
    · rcases hbase with ⟨-, -, ho⟩ | ⟨c, hc, -, ho⟩
      · simp [ho]
      · rw [ho]
        exact Article.nodup_attachOrigin (h.origins_nodup hc)
    · exact h.origins_nodup hb
  case origins_rows =>
    intro w' i b r' hb
    simp only [mem_attach_origins, OriginRow.mk.injEq]
    rcases hlook hb with ⟨rfl, rfl, rfl⟩ | ⟨hk, hb⟩
    · constructor
      · intro hr'
        by_cases hrr : r' = r
        · exact ⟨s₀, .inr ⟨s₀, hs₀, rfl, rfl, rfl, hrr⟩⟩
        · rcases hbase with ⟨-, -, ho⟩ | ⟨c, hc, -, ho⟩
          · rw [ho, List.mem_singleton] at hr'
            exact absurd hr' hrr
          · rw [ho, Article.mem_attachOrigin] at hr'
            obtain ⟨s, hs⟩ := (h.origins_rows hc).1 (hr'.resolve_right hrr)
            exact ⟨s, .inl hs⟩
      · rintro ⟨s, hs | ⟨s', -, -, -, -, rfl⟩⟩
        · obtain ⟨c, hc⟩ := h.row_article hs
          rcases hbase with ⟨hn, -, -⟩ | ⟨c', hc', -, ho⟩
          · rw [hn] at hc
            cases hc
          · rw [ho, Article.mem_attachOrigin]
            exact .inl (h.mem_origins hs hc')
        · exact hra
    · rw [h.origins_rows hb]
      constructor
      · rintro ⟨s, hs⟩
        exact ⟨s, .inl hs⟩
      · rintro ⟨s, hs | ⟨s', -, rfl, rfl, -, -⟩⟩
        · exact ⟨s, hs⟩
        · exact absurd ⟨rfl, rfl⟩ hk
  case row_article =>
    intro w' i s r' hrow
    rw [lookup_attach_articles]
    split
    · exact ⟨a, rfl⟩
    · rename_i hk
      rcases mem_attach_origins.1 hrow with hrow | ⟨s', -, he⟩
      · exact h.row_article hrow
      · cases he
        exact absurd rfl hk
  case record_unique =>
    intro w' i i' s s' r' h₁ h₂
    rcases mem_attach_origins.1 h₁ with h₁ | ⟨t, -, he₁⟩
    · rcases mem_attach_origins.1 h₂ with h₂ | ⟨t, -, he₂⟩
      · exact h.record_unique h₁ h₂
      · cases he₂
        exact hfree h₁
    · cases he₁
      rcases mem_attach_origins.1 h₂ with h₂ | ⟨t', -, he₂⟩
      · exact (hfree h₂).symm
      · cases he₂
        rfl
  case key_mem =>
    intro w' i b hb
    rcases hlook hb with ⟨-, -, rfl⟩ | ⟨-, hb⟩
    · exact hkey
    · exact h.key_mem hb
  case revision_le =>
    intro w' i b hb
    rcases hlook hb with ⟨-, -, rfl⟩ | ⟨-, hb⟩
    · exact hrev
    · exact h.revision_le hb

end LibraryOk
end
end Inoreader
