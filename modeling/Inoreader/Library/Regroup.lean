import Inoreader.Library.Run

/-!
# User state across a regrouping

A revision with a changed key moves its record from one article to another. The state and the arrival
time that the user saw move with it.
-/

namespace Inoreader
open Lib Tx

/-- `a` is the article `found` after the record came to it from `old`. -/
structure Merged (found old a : Article) : Prop where
  id : a.id = found.id
  read : a.state.read = (found.state.read && old.state.read)
  later : a.state.later = (found.state.later || old.state.later)
  protectUnread : a.state.protectUnread = (found.state.protectUnread || old.state.protectUnread)
  firstArrivedAt : a.firstArrivedAt = min found.firstArrivedAt old.firstArrivedAt

/-- The user's part of the article is the same. -/
def SameState (old a : Article) : Prop := a.state = old.state ∧ a.firstArrivedAt = old.firstArrivedAt

/-- No article of the workspace has the key. -/
def Db.KeyFree (db : Db) (w : WorkspaceId) (key : DedupKey) : Prop :=
  ∀ i b, db.articles.lookup (w, i) = some b → b.key ≠ key

/-- No article of the workspace holds the record. -/
def Db.RecordFree (db : Db) (w : WorkspaceId) (r : SourceRecordId) : Prop :=
  ∀ i b, db.articles.lookup (w, i) = some b → r ∉ b.origins

/-- What a delivery that moves the record out of `old` does to the articles. -/
structure Regrouped (db db' : Db) (commit : DeliveryCommit) (old a : Article) : Prop where
  holds : db'.articles.lookup (commit.target.workspaceId, a.id) = some a ∧ a.key = commit.record.key ∧
    commit.record.id ∈ a.origins
  merged : ∀ found, db.articles.lookup (commit.target.workspaceId, found.id) = some found →
    found.key = commit.record.key → Merged found old a
  inherited : db.KeyFree commit.target.workspaceId commit.record.key → SameState old a
  left : (∃ r ∈ old.origins, r ≠ commit.record.id) → ∃ o,
    db'.articles.lookup (commit.target.workspaceId, old.id) = some o ∧ o.id = old.id ∧ o.key = old.key ∧ SameState old o
  others : ∀ k, k ≠ (commit.target.workspaceId, a.id) → k ≠ (commit.target.workspaceId, old.id) →
    db'.articles.lookup k = db.articles.lookup k

section
variable {P : Platform} {visible : Db → WorkspaceId → Article → Bool} {K : Set DedupKey} {db db' : Db}
  {commit : DeliveryCommit} {old : Article} {read : Bool} {subscriptions : List SubscriptionId} {result : DeliveryResult}

theorem joined_merged (found old : Article) : Merged found old (joined commit (some old) (some found) read) :=
  ⟨rfl, rfl, rfl, rfl, rfl⟩

theorem joined_inherited (commit : DeliveryCommit) (read : Bool) (old : Article) :
    SameState old (joined commit (some old) none read) := by
  unfold joined
  simp only
  split
  · exact ⟨Article.detachOrigin_state, Article.detachOrigin_firstArrivedAt⟩
  · exact ⟨rfl, rfl⟩

theorem Merged.attachOrigin {found a : Article} (h : Merged found old a) (r : SourceRecordId) :
    Merged found old (a.attachOrigin r) := by
  obtain ⟨h₁, h₂, h₃, h₄, h₅⟩ := h
  constructor <;> simpa

theorem LibraryOk.owner_of_keyFree (h : LibraryOk P K db) (hinj : Set.InjOn P.fingerprint K)
    (hkey : commit.record.key ∈ K) :
    db.KeyFree commit.target.workspaceId commit.record.key ↔
      db.owner P commit.target.workspaceId commit.record.key = none := by
  constructor
  · intro hfree
    cases ho : db.owner P commit.target.workspaceId commit.record.key with
    | none => rfl
    | some b =>
      obtain ⟨hb, hbk⟩ := (h.owner_eq_some hinj hkey).1 ho
      exact absurd hbk (hfree _ b hb)
  · intro ho i b hb hbk
    have hid := h.article_id hb
    subst hid
    rw [(h.owner_eq_some hinj hkey).2 ⟨hb, hbk⟩] at ho
    cases ho

theorem DeliverEffect.regrouped (he : DeliverEffect P db commit read subscriptions result db') (h : LibraryOk P K db)
    (hinj : Set.InjOn P.fingerprint K) (hkey : commit.record.key ∈ K)
    (hfresh : db.articles.lookup (commit.target.workspaceId, commit.proposedArticleId) = none)
    (hleft : db.leaving commit.target.workspaceId commit.record = some old) :
    Regrouped db db' commit old (db.target P commit read) := by
  obtain ⟨hold, hr, hok⟩ := h.leaving_eq_some.1 hleft
  constructor
  case holds =>
    refine ⟨by rw [he.lookup, if_pos rfl], ?_, Article.mem_attachOrigin.2 (.inr rfl)⟩
    rw [Db.target, Article.attachOrigin_key, joined_key fun b hb => ((h.owner_eq_some hinj hkey).1 hb).2]
  case merged =>
    intro found hfound hfk
    rw [Db.target, hleft, (h.owner_eq_some hinj hkey).2 ⟨hfound, hfk⟩]
    exact (joined_merged found old).attachOrigin _
  case inherited =>
    intro hfree
    rw [Db.target, hleft, (h.owner_of_keyFree hinj hkey).1 hfree]
    have hs := joined_inherited commit read old
    exact ⟨by rw [Article.attachOrigin_state, hs.1], by rw [Article.attachOrigin_firstArrivedAt, hs.2]⟩
  case left =>
    rintro ⟨r, hmem, hne⟩
    have hnil : (old.detachOrigin commit.record.id).origins ≠ [] :=
      List.ne_nil_of_mem ((Article.mem_detachOrigin (h.origins_nodup hold)).2 ⟨hmem, hne⟩)
    refine ⟨old.detachOrigin commit.record.id, ?_, by simp, by simp, by simp, by simp⟩
    rw [he.lookup, if_neg, Db.afterLeaving, hleft]
    · simp only [lookup_detach_articles, if_true, if_neg hnil]
    · -- the target is the owner of the other key, or has the proposed id
      intro heq
      have hid : old.id = (db.target P commit read).id := congrArg Prod.snd heq
      rw [Db.target, hleft, Article.attachOrigin_id] at hid
      cases ho : db.owner P commit.target.workspaceId commit.record.key with
      | some b =>
        rw [ho] at hid
        obtain ⟨hb, hbk⟩ := (h.owner_eq_some hinj hkey).1 ho
        have hid' : old.id = b.id := hid
        rw [← hid', hold] at hb
        cases hb
        exact hok hbk
      | none =>
        rw [ho] at hid
        simp only [joined, if_neg hnil] at hid
        rw [hid, hfresh] at hold
        cases hold
  case others =>
    intro k hk hk'
    rw [he.lookup, if_neg hk, Db.afterLeaving, hleft]
    simp only [lookup_detach_articles, if_neg hk']

/-- An article that a delivery creates has the state of the article that the record left, or the record
and its key are new to the workspace. -/
theorem DeliverEffect.created (he : DeliverEffect P db commit read subscriptions result db') (h : LibraryOk P K db)
    (hinj : Set.InjOn P.fingerprint K) (hkey : commit.record.key ∈ K) {k : ArticleKey} {b : Article}
    (hnone : db.articles.lookup k = none) (hb : db'.articles.lookup k = some b) :
    k.1 = commit.target.workspaceId ∧
      ((db.RecordFree commit.target.workspaceId commit.record.id ∧
          db.KeyFree commit.target.workspaceId commit.record.key) ∨
        ∃ old, db.articles.lookup (commit.target.workspaceId, old.id) = some old ∧ commit.record.id ∈ old.origins ∧
          SameState old b) := by
  rw [he.lookup] at hb
  split at hb
  · rename_i hk
    cases hb
    refine ⟨by rw [hk], ?_⟩
    cases ho : db.owner P commit.target.workspaceId commit.record.key with
    | some c =>
      -- the target is a stored article
      obtain ⟨hc, -⟩ := (h.owner_eq_some hinj hkey).1 ho
      have hid : (db.target P commit read).id = c.id := by
        rw [Db.target, Article.attachOrigin_id, ho]
        cases db.leaving commit.target.workspaceId commit.record <;> rfl
      rw [hk, hid, hc] at hnone
      cases hnone
    | none =>
      have hfree := (h.owner_of_keyFree hinj hkey).2 ho
      cases hl : db.leaving commit.target.workspaceId commit.record with
      | some old =>
        obtain ⟨hold, hr, -⟩ := h.leaving_eq_some.1 hl
        have hs := joined_inherited commit read old
        refine .inr ⟨old, hold, hr, ?_, ?_⟩
        · rw [Db.target, hl, ho, Article.attachOrigin_state, hs.1]
        · rw [Db.target, hl, ho, Article.attachOrigin_firstArrivedAt, hs.2]
      | none =>
        refine .inl ⟨fun i c hc hr => ?_, hfree⟩
        have hid := h.article_id hc
        subst hid
        rw [h.leaving_eq_some.2 ⟨hc, hr, hfree _ c hc⟩] at hl
        cases hl
  · obtain ⟨a, ha, -⟩ := h.afterLeaving_later hb
    rw [ha] at hnone
    cases hnone

/-- In every reachable library a regrouping keeps the user's state, and only a delivery of a record and
a key that are new to the workspace creates an article with fresh state. -/
theorem regrouping_keeps_state {s : LibraryWorld} {ops : List LibraryOp} (hempty : LibraryEmpty db)
    (hrun : run (LibraryWorld.step P visible) { db } ops = some s) {lease : LeasedWork} {now : DateTime}
    (hinj : Set.InjOn P.fingerprint (insert commit.record.key (keysMet ops)))
    (hfresh : commit.proposedArticleId ∉ s.usedIds) (hdeliver : deliver P lease now commit s.db = .ok (result, db')) :
    (result ≠ .skippedInactive → ∀ old, s.db.articles.lookup (commit.target.workspaceId, old.id) = some old →
      commit.record.id ∈ old.origins → old.key ≠ commit.record.key → ∃ a, Regrouped s.db db' commit old a) ∧
    (∀ k b, s.db.articles.lookup k = none → db'.articles.lookup k = some b →
      k.1 = commit.target.workspaceId ∧
        ((s.db.RecordFree commit.target.workspaceId commit.record.id ∧
            s.db.KeyFree commit.target.workspaceId commit.record.key) ∨
          ∃ old, s.db.articles.lookup (commit.target.workspaceId, old.id) = some old ∧
            commit.record.id ∈ old.origins ∧ SameState old b)) := by
  have hi : LibraryInv P (insert commit.record.key (keysMet ops)) s := hempty.inv.run hinj (Set.subset_insert _ _) hrun
  have hnone : s.db.articles.lookup (commit.target.workspaceId, commit.proposedArticleId) = none := by
    cases hl : s.db.articles.lookup (commit.target.workspaceId, commit.proposedArticleId) with
    | none => rfl
    | some a => exact absurd (hi.used hl) hfresh
  obtain ⟨-, ⟨hskip, hdb, -⟩ | ⟨t, -, -, -, hact⟩⟩ := deliver_ok hdeliver
  · refine ⟨fun hne => absurd hskip hne, fun k b hk hb => ?_⟩
    rw [hdb, hk] at hb
    cases hb
  · obtain ⟨read, subscriptions, he⟩ := hi.ok.deliverActive_effect hinj (Set.mem_insert _ _) hact
    refine ⟨fun _ old hold hr hne => ?_, fun k b hk hb => he.created hi.ok hinj (Set.mem_insert _ _) hk hb⟩
    exact ⟨_, he.regrouped hi.ok hinj (Set.mem_insert _ _) hnone (hi.ok.leaving_eq_some.2 ⟨hold, hr, hne⟩)⟩

end

/-- The record of an article takes the article along to its new key. -/
theorem regrouping_keeps_state_regrouping : ∃ result db' a,
    run (LibraryWorld.step Sample.platform fun _ _ _ => true) { db := Sample.db } (Sample.regrouping.take 1) =
      some Sample.delivered ∧
    deliver Sample.platform Sample.lease 6 (Sample.commit (Sample.record 1 1 "second") 2) Sample.delivered.db =
      .ok (result, db') ∧
    Regrouped Sample.delivered.db db' (Sample.commit (Sample.record 1 1 "second") 2) (Sample.article "first" 1) a := by
  have hrun : run (LibraryWorld.step Sample.platform fun _ _ _ => true) { db := Sample.db }
      (Sample.regrouping.take 1) = some Sample.delivered := rfl
  have hdeliver : deliver Sample.platform Sample.lease 6 (Sample.commit (Sample.record 1 1 "second") 2)
      Sample.delivered.db = .ok (.alreadyDelivered ⟨1⟩, _) := rfl
  have hkeys : insert (Sample.record 1 1 "second").key (keysMet (Sample.regrouping.take 1)) ⊆
      keysMet Sample.regrouping := by
    refine Set.insert_subset ?_ (keysMet_mono (List.take_subset _ _))
    exact ⟨Sample.lease, 6, Sample.commit (Sample.record 1 1 "second") 2, by simp [Sample.regrouping], rfl⟩
  obtain ⟨a, ha⟩ := (regrouping_keeps_state Sample.db_empty hrun (Sample.keys_regrouping.mono hkeys) (by decide)
    hdeliver).1 (by decide) (Sample.article "first" 1) (by decide) (by decide) (by decide)
  exact ⟨_, _, a, hrun, hdeliver, ha⟩

end Inoreader
