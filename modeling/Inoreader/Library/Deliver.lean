import Mathlib.Data.List.Dedup
import Mathlib.Data.Set.Function
import Inoreader.Library.Index
import Inoreader.Store.Frames

/-!
# What `deliver` does to a library

In a library that satisfies `LibraryOk` a record is held by at most one article, so the loop over the
articles that hold it runs at most once. `DeliverEffect` states the whole effect of a delivery as
`detach` and `attach`; `deliver_ok` and `deliverActive_effect` derive it from the code.
-/

namespace Inoreader
open Lib Tx

/-- The article of the workspace that holds the record. -/
def Db.holder (db : Db) (w : WorkspaceId) (r : SourceRecordId) : Option Article :=
  (db.libraryOrigins.find? fun row => row.workspaceId = w ∧ row.sourceRecordId = r).bind
    fun row => db.articles.lookup (w, row.articleId)

/-- The article that the dedup index names for a key. -/
def Db.owner (P : Platform) (db : Db) (w : WorkspaceId) (key : DedupKey) : Option Article :=
  (db.libraryDedup.lookup (w, P.fingerprint key)).bind fun row => db.articles.lookup (w, row.articleId)

/-- The article that the record leaves: it holds the record under another key. -/
def Db.leaving (db : Db) (w : WorkspaceId) (record : SourceRecord) : Option Article :=
  (db.holder w record.id).filter fun a => a.key ≠ record.key

/-- The library after the record has left the article that holds it under another key. -/
def Db.afterLeaving (P : Platform) (db : Db) (w : WorkspaceId) (record : SourceRecord) : Db :=
  match db.leaving w record with
  | some old => db.detach P w old record.id
  | none => db

/-- The article that the record joins, before the record is attached. -/
def joined (commit : DeliveryCommit) (left found : Option Article) (read : Bool) : Article :=
  match found, left with
  | some a, some old =>
    { a with
      state := { read := a.state.read && old.state.read, later := a.state.later || old.state.later
                 protectUnread := a.state.protectUnread || old.state.protectUnread }
      firstArrivedAt := min a.firstArrivedAt old.firstArrivedAt }
  | some a, none => a
  | none, some old =>
    if (old.detachOrigin commit.record.id).origins = [] then
      { old.detachOrigin commit.record.id with key := commit.record.key }
    else
      { id := commit.proposedArticleId, key := commit.record.key, state := old.state
        firstArrivedAt := old.firstArrivedAt, origins := [], revision := 0 }
  | none, none => { freshArticle commit with state := { read } }

section
variable {P : Platform} {K : Set DedupKey} {db : Db} {w : WorkspaceId} {r : SourceRecordId} {a old : Article}
  {key : DedupKey} {commit : DeliveryCommit} {record : SourceRecord}

namespace LibraryOk

theorem holder_eq_some (h : LibraryOk P K db) :
    db.holder w r = some a ↔ db.articles.lookup (w, a.id) = some a ∧ r ∈ a.origins := by
  unfold Db.holder
  constructor
  · intro hh
    obtain ⟨row, hrow, ha⟩ := Option.bind_eq_some_iff.1 hh
    have hmem := List.mem_of_find?_eq_some hrow
    have hp := List.find?_some hrow
    simp only [decide_eq_true_eq] at hp
    obtain ⟨w', i, s, r'⟩ := row
    obtain ⟨rfl, rfl⟩ := hp
    have hid := h.article_id ha
    simp only at hid
    subst hid
    exact ⟨ha, h.mem_origins hmem ha⟩
  · rintro ⟨ha, hr⟩
    obtain ⟨s, hs⟩ := (h.origins_rows ha).1 hr
    cases hfind : db.libraryOrigins.find? fun row => row.workspaceId = w ∧ row.sourceRecordId = r with
    | none =>
      rw [List.find?_eq_none] at hfind
      exact absurd (decide_eq_true (And.intro rfl rfl)) (hfind _ hs)
    | some row =>
      have hmem := List.mem_of_find?_eq_some hfind
      have hp := List.find?_some hfind
      simp only [decide_eq_true_eq] at hp
      obtain ⟨w', i, s', r'⟩ := row
      obtain ⟨rfl, rfl⟩ := hp
      rw [h.record_unique hmem hs]
      exact ha

theorem holder_eq_none (h : LibraryOk P K db) :
    db.holder w r = none ↔ ∀ i s, ⟨w, i, s, r⟩ ∉ db.libraryOrigins := by
  constructor
  · intro hh i s hs
    obtain ⟨b, hb⟩ := h.row_article hs
    have hid := h.article_id hb
    subst hid
    rw [h.holder_eq_some.2 ⟨hb, h.mem_origins hs hb⟩] at hh
    cases hh
  · intro hfree
    cases hh : db.holder w r with
    | none => rfl
    | some b =>
      obtain ⟨hb, hr⟩ := h.holder_eq_some.1 hh
      obtain ⟨s, hs⟩ := (h.origins_rows hb).1 hr
      exact absurd hs (hfree _ s)

theorem owner_eq_some (h : LibraryOk P K db) (hinj : Set.InjOn P.fingerprint K) (hkey : key ∈ K) :
    db.owner P w key = some a ↔ db.articles.lookup (w, a.id) = some a ∧ a.key = key := by
  unfold Db.owner
  constructor
  · intro ho
    obtain ⟨row, hrow, ha⟩ := Option.bind_eq_some_iff.1 ho
    obtain ⟨hf, b, hb, hbk⟩ := h.dedup_article hrow
    rw [ha] at hb
    cases hb
    have hid := h.article_id ha
    rw [hid]
    refine ⟨ha, ?_⟩
    rw [← hbk] at hf
    exact (hinj hkey (h.key_mem ha) hf).symm
  · rintro ⟨ha, rfl⟩
    rw [h.article_dedup ha]
    exact ha

theorem owner_eq_none (h : LibraryOk P K db) :
    db.owner P w key = none ↔ db.libraryDedup.lookup (w, P.fingerprint key) = none := by
  unfold Db.owner
  cases hrow : db.libraryDedup.lookup (w, P.fingerprint key) with
  | none => simp
  | some row =>
    obtain ⟨-, b, hb, -⟩ := h.dedup_article hrow
    simp [hb]

theorem leaving_eq_some (h : LibraryOk P K db) :
    db.leaving w record = some old ↔
      db.articles.lookup (w, old.id) = some old ∧ record.id ∈ old.origins ∧ old.key ≠ record.key := by
  unfold Db.leaving
  rw [Option.filter_eq_some_iff, h.holder_eq_some]
  simp [and_assoc]

/-- The rows of a record that nothing holds. -/
theorem priorByArticle_of_none (h : LibraryOk P K db) (hh : db.holder w r = none) : db.priorByArticle w r = [] := by
  have hrows : db.libraryOrigins.filter (fun row => row.workspaceId = w ∧ row.sourceRecordId = r) = [] := by
    rw [List.filter_eq_nil_iff]
    rintro ⟨w', i, s, r'⟩ hrow
    simp only [decide_eq_true_eq]
    rintro ⟨rfl, rfl⟩
    exact h.holder_eq_none.1 hh i s hrow
  simp only [Db.priorByArticle, hrows]
  rfl

/-- The rows of a record that an article holds: one group, the article's. -/
theorem priorByArticle_of_some (h : LibraryOk P K db) (hh : db.holder w r = some a) :
    ∃ subscriptions, db.priorByArticle w r = [(a.id, subscriptions)] ∧
      ∀ s, s ∈ subscriptions ↔ ⟨w, a.id, s, r⟩ ∈ db.libraryOrigins := by
  obtain ⟨ha, hr⟩ := h.holder_eq_some.1 hh
  obtain ⟨s₀, hs₀⟩ := (h.origins_rows ha).1 hr
  set rows := db.libraryOrigins.filter fun row => row.workspaceId = w ∧ row.sourceRecordId = r with hrows
  have hmem : ∀ row ∈ rows, row.articleId = a.id := by
    rintro ⟨w', i, s, r'⟩ hmem
    obtain ⟨hrow, hp⟩ := List.mem_filter.1 hmem
    simp only [decide_eq_true_eq] at hp
    obtain ⟨rfl, rfl⟩ := hp
    exact h.record_unique hrow hs₀
  have hne : rows.length ≠ 0 := by
    have : (⟨w, a.id, s₀, r⟩ : OriginRow) ∈ rows := by simp [hrows, hs₀]
    exact (List.length_pos_of_mem this).ne'
  have hrep : rows.map (·.articleId) = List.replicate rows.length a.id := by
    rw [List.eq_replicate_iff]
    refine ⟨by simp, fun i hi => ?_⟩
    obtain ⟨row, hrow, rfl⟩ := List.mem_map.1 hi
    exact hmem row hrow
  refine ⟨(rows.filter (·.articleId = a.id)).map (·.subscriptionId), ?_, fun s => ?_⟩
  · simp only [Db.priorByArticle, ← hrows, hrep, List.replicate_dedup hne]
    rfl
  · simp only [List.mem_map, List.mem_filter, hrows, decide_eq_true_eq]
    constructor
    · rintro ⟨⟨w', i, s', r'⟩, ⟨⟨hrow, rfl, rfl⟩, rfl⟩, rfl⟩
      exact hrow
    · intro hs
      exact ⟨_, ⟨⟨hs, rfl, rfl⟩, rfl⟩, rfl⟩

end LibraryOk

/-! ## The loop and the lookup -/

/-- What the loop collects from the one article that the record leaves. -/
def movedFrom (record : SourceRecord) (old : Article) (subscriptions : List SubscriptionId) : Moved :=
  { inherited := [(old.state, old.firstArrivedAt)]
    articles := [old.id]
    subscriptions := subscriptions.foldl (fun acc s => if s ∈ acc then acc else acc ++ [s]) []
    retainedIdentity :=
      if (old.detachOrigin record.id).origins = [] then some { old.detachOrigin record.id with key := record.key }
      else none }

theorem mem_foldl_collect {s : SubscriptionId} {subscriptions acc : List SubscriptionId} :
    s ∈ subscriptions.foldl (fun acc s => if s ∈ acc then acc else acc ++ [s]) acc ↔
      s ∈ acc ∨ s ∈ subscriptions := by
  induction subscriptions generalizing acc with
  | nil => simp
  | cons t ts ih =>
    rw [List.foldl_cons, ih, List.mem_cons]
    split
    · rename_i ht
      constructor
      · rintro (h | h)
        · exact .inl h
        · exact .inr (.inr h)
      · rintro (h | rfl | h)
        · exact .inl h
        · exact .inl ht
        · exact .inr h
    · simp [or_assoc]

theorem toI64_run (value : Nat) (field : String) (db : Db) :
    toI64 value field db =
      if value ≤ bigintMax then .ok ((), db) else .error (.unavailable (field ++ " exceeds PostgreSQL BIGINT")) := by
  unfold toI64 require
  split <;> rfl

theorem upsertArticle_run (hd : (db.libraryDedup.lookup (w, P.fingerprint a.key)).all (·.dedupKey = a.key)) :
    upsertArticle P w a a.key db =
      if a.revision ≤ bigintMax then
        .ok ((), { db with
          articles := db.articles.insert (w, a.id) a
          libraryDedup := db.libraryDedup.insert (w, P.fingerprint a.key) ⟨a.key, a.id⟩ })
      else .error (.unavailable "article revision exceeds PostgreSQL BIGINT") := by
  unfold upsertArticle
  rw [bind_run, toI64_run]
  by_cases hrev : a.revision ≤ bigintMax
  · simp only [if_pos hrev, bind_run, modify_run, get_run, require]
    rw [if_pos (show ((db.setArticle (w, a.id) a).libraryDedup.lookup (w, P.fingerprint a.key)).all
      (·.dedupKey = a.key) from hd)]
    rfl
  · simp only [if_neg hrev]
    rfl

namespace LibraryOk

theorem detachPrior_run (h : LibraryOk P K db) (hl : db.leaving w record = some old)
    (subscriptions : List SubscriptionId) :
    detachPrior P w record {} (old.id, subscriptions) db =
      if (old.detachOrigin record.id).origins = [] ∨ (old.detachOrigin record.id).revision ≤ bigintMax then
        .ok (movedFrom record old subscriptions, db.detach P w old record.id)
      else .error (.unavailable "article revision exceeds PostgreSQL BIGINT") := by
  obtain ⟨hold, hr, hkey⟩ := h.leaving_eq_some.1 hl
  have hd := h.article_dedup hold
  unfold detachPrior
  simp only [bind_run, get_run, hold, orThrow, pure_run, if_neg hkey, modify_run, storeDetached]
  by_cases hnil : (old.detachOrigin record.id).origins = []
  · simp only [hnil, if_true, true_or, deleteArticle, modify_run, Article.detachOrigin_key, hd, Option.any_some,
      decide_true, movedFrom, Db.detach, List.nil_append, and_true]
  · simp only [hnil, if_false, false_or]
    rw [upsertArticle_run (by simp [hd])]
    by_cases hrev : (old.detachOrigin record.id).revision ≤ bigintMax
    · simp [movedFrom, Db.detach, hnil, hrev]
    · simp only [if_neg hrev]

theorem detachLoop_of_none (h : LibraryOk P K db) (hl : db.leaving w record = none) :
    loop (detachPrior P w record) {} (db.priorByArticle w record.id) db = .ok ({}, db) := by
  cases hh : db.holder w record.id with
  | none =>
    rw [h.priorByArticle_of_none hh]
    rfl
  | some a =>
    obtain ⟨subscriptions, hp, -⟩ := h.priorByArticle_of_some hh
    have hkey : a.key = record.key := by
      by_contra hne
      rw [Db.leaving, hh] at hl
      simp [Option.filter, hne] at hl
    rw [hp]
    simp only [loop, bind_run, detachPrior, get_run, (h.holder_eq_some.1 hh).1, orThrow, pure_run, if_pos hkey]

theorem detachLoop_of_some (h : LibraryOk P K db) (hl : db.leaving w record = some old) :
    ∃ subscriptions, (∀ s, s ∈ subscriptions ↔ ⟨w, old.id, s, record.id⟩ ∈ db.libraryOrigins) ∧
      loop (detachPrior P w record) {} (db.priorByArticle w record.id) db =
        if (old.detachOrigin record.id).origins = [] ∨ (old.detachOrigin record.id).revision ≤ bigintMax then
          .ok (movedFrom record old subscriptions, db.detach P w old record.id)
        else .error (.unavailable "article revision exceeds PostgreSQL BIGINT") := by
  obtain ⟨hold, hr, -⟩ := h.leaving_eq_some.1 hl
  obtain ⟨subscriptions, hp, hs⟩ := h.priorByArticle_of_some (h.holder_eq_some.2 ⟨hold, hr⟩)
  refine ⟨subscriptions, hs, ?_⟩
  rw [hp]
  simp only [loop, bind_run, h.detachPrior_run hl]
  split <;> split at * <;> simp_all [pure_run]

theorem findByKey_run (h : LibraryOk P K db) (hinj : Set.InjOn P.fingerprint K) (hkey : key ∈ K) :
    findByKey P w key db = .ok (db.owner P w key, db) := by
  unfold findByKey
  simp only [bind_run, get_run]
  cases hrow : db.libraryDedup.lookup (w, P.fingerprint key) with
  | none =>
    rw [h.owner_eq_none.2 hrow]
    rfl
  | some row =>
    obtain ⟨hf, a, ha, hak⟩ := h.dedup_article hrow
    have hk : row.dedupKey = key := by
      rw [← hak]
      rw [← hak] at hf
      exact (hinj hkey (h.key_mem ha) hf).symm
    have hid := h.article_id ha
    have ho : db.owner P w key = some a := (h.owner_eq_some hinj hkey).2 ⟨by rw [hid]; exact ha, hak.trans hk⟩
    simp [require, hk, bind_run, pure_run, orThrow, ha, hid, hak, ho]

theorem afterLeaving (h : LibraryOk P K db)
    (hrev : ∀ old, db.leaving w record = some old → (old.detachOrigin record.id).origins ≠ [] →
      (old.detachOrigin record.id).revision ≤ bigintMax) : LibraryOk P K (db.afterLeaving P w record) := by
  unfold Db.afterLeaving
  cases hl : db.leaving w record with
  | none => exact h
  | some old => exact h.detach (h.leaving_eq_some.1 hl).1 (hrev old hl)

/-- Leaving the old article does not touch the article of the new key. -/
theorem lookup_afterLeaving (h : LibraryOk P K db) (ha : a.key = record.key) :
    (db.afterLeaving P w record).articles.lookup (w, a.id) = some a ↔ db.articles.lookup (w, a.id) = some a := by
  unfold Db.afterLeaving
  cases hl : db.leaving w record with
  | none => exact Iff.rfl
  | some old =>
    obtain ⟨hold, -, hkey⟩ := h.leaving_eq_some.1 hl
    rw [lookup_detach_articles]
    split
    · rename_i hk
      simp only [Prod.mk.injEq, true_and] at hk
      constructor
      · intro hs
        split at hs
        · cases hs
        · have := congrArg Article.key (Option.some.inj hs)
          rw [Article.detachOrigin_key, ha] at this
          exact absurd this hkey
      · intro hs
        rw [hk, hold] at hs
        cases hs
        exact absurd ha hkey
    · exact Iff.rfl

theorem owner_afterLeaving (h : LibraryOk P K db) (h' : LibraryOk P K (db.afterLeaving P w record))
    (hinj : Set.InjOn P.fingerprint K) (hkey : record.key ∈ K) :
    (db.afterLeaving P w record).owner P w record.key = db.owner P w record.key := by
  ext a
  rw [h'.owner_eq_some hinj hkey, h.owner_eq_some hinj hkey]
  constructor
  · rintro ⟨ha, hk⟩
    exact ⟨(h.lookup_afterLeaving hk).1 ha, hk⟩
  · rintro ⟨ha, hk⟩
    exact ⟨(h.lookup_afterLeaving hk).2 ha, hk⟩

end LibraryOk

/-! ## The article that the record joins -/

theorem resolveArticle_stay (found : Option Article) : resolveArticle commit found {} = found := by
  cases found <;> rfl

theorem resolveArticle_moved (old : Article) (found : Option Article) (subscriptions : List SubscriptionId)
    (read : Bool) : resolveArticle commit found (movedFrom commit.record old subscriptions) =
      some (joined commit (some old) found read) := by
  cases found with
  | some a => simp [resolveArticle, movedFrom, ArticleState.merge, minTime, joined]
  | none =>
    by_cases hnil : (old.detachOrigin commit.record.id).origins = []
    · simp only [resolveArticle, movedFrom, ArticleState.merge, minTime, joined, hnil, if_true, List.map_cons,
        List.map_nil, List.all_cons, List.all_nil, List.any_cons, List.any_nil, Bool.and_true, Bool.or_false,
        Option.getD_some, List.foldl_nil]
      simp
    · simp [resolveArticle, movedFrom, ArticleState.merge, minTime, joined, hnil]

/-- The article that a delivery stores. -/
def Db.target (P : Platform) (db : Db) (commit : DeliveryCommit) (read : Bool) : Article :=
  (joined commit (db.leaving commit.target.workspaceId commit.record)
    (db.owner P commit.target.workspaceId commit.record.key) read).attachOrigin commit.record.id

/-- The effect of a delivery that was not skipped: `read` is the automatic read mark of a first
insertion, `subscriptions` are those whose links move with the record and the one delivered to. -/
structure DeliverEffect (P : Platform) (db : Db) (commit : DeliveryCommit) (read : Bool)
    (subscriptions : List SubscriptionId) (result : DeliveryResult) (db' : Db) : Prop where
  library : db'.library = ((db.afterLeaving P commit.target.workspaceId commit.record).attach P
    commit.target.workspaceId (db.target P commit read) commit.record.id subscriptions).library
  linked : ∀ s, s ∈ subscriptions ↔ s = commit.target.subscriptionId ∨
    ∃ old, db.leaving commit.target.workspaceId commit.record = some old ∧
      ⟨commit.target.workspaceId, old.id, s, commit.record.id⟩ ∈ db.libraryOrigins
  read_fresh : read = true → db.leaving commit.target.workspaceId commit.record = none ∧
    db.owner P commit.target.workspaceId commit.record.key = none
  result_eq : result =
    if db.leaving commit.target.workspaceId commit.record = none ∧
        db.owner P commit.target.workspaceId commit.record.key = none then .delivered commit.proposedArticleId
    else .alreadyDelivered (db.target P commit read).id
  target_revision : (db.target P commit read).revision ≤ bigintMax
  left_revision : ∀ old, db.leaving commit.target.workspaceId commit.record = some old →
    (old.detachOrigin commit.record.id).origins ≠ [] → (old.detachOrigin commit.record.id).revision ≤ bigintMax

theorem mem_linked {moved : Moved} {s t : SubscriptionId} : t ∈ moved.linked s ↔ t = s ∨ t ∈ moved.subscriptions := by
  unfold Moved.linked
  split
  · rename_i hs
    constructor
    · exact .inr
    · rintro (rfl | ht)
      · exact hs
      · exact ht
  · simp [or_comm]

/-- Storing the chosen article and linking the subscriptions to it. -/
theorem attachRecord_library {now : DateTime} {s : Subscription} {moved : Moved} {res result : DeliveryResult}
    {db' : Db} (hkey : a.key = commit.record.key)
    (hd : (db.libraryDedup.lookup (commit.target.workspaceId, P.fingerprint a.key)).all (·.dedupKey = a.key))
    (hrun : attachRecord P now s commit moved (a, res) db = .ok (result, db')) :
    result = res ∧ (a.attachOrigin commit.record.id).revision ≤ bigintMax ∧
      db'.library = (db.attach P commit.target.workspaceId (a.attachOrigin commit.record.id) commit.record.id
        (moved.linked commit.target.subscriptionId)).library := by
  unfold attachRecord at hrun
  simp only at hrun
  rw [show commit.record.key = (a.attachOrigin commit.record.id).key by rw [Article.attachOrigin_key, hkey]] at hrun
  obtain ⟨_, db₁, h₁, hrun⟩ := bind_ok.1 hrun
  rw [upsertArticle_run (by rw [Article.attachOrigin_key]; exact hd)] at h₁
  split at h₁
  case isFalse => cases h₁
  rename_i hrev
  cases h₁
  obtain ⟨_, db₂, h₂, hrun⟩ := bind_ok.1 hrun
  obtain ⟨_, db₃, h₃, hrun⟩ := bind_ok.1 hrun
  obtain ⟨_, db₄, h₄, hrun⟩ := bind_ok.1 hrun
  obtain ⟨_, db₅, h₅, hrun⟩ := bind_ok.1 hrun
  obtain ⟨_, db₆, h₆, hrun⟩ := bind_ok.1 hrun
  obtain ⟨_, db₇, h₇, hrun⟩ := bind_ok.1 hrun
  cases hrun
  refine ⟨rfl, hrev, ?_⟩
  have e₂ : db₂.library = _ :=
    keeps_onlyIf (f := Db.library) (recordAutomaticRead_keeps (fun _ _ => rfl) _ _) _ _ _ h₂
  have e₃ : db₃.library = (db₂.articles, db₂.libraryDedup, db₃.libraryOrigins) := by cases h₃; rfl
  have o₃ : db₃.libraryOrigins = (moved.linked commit.target.subscriptionId).foldl
      (fun rows s => insertRow
        ⟨commit.target.workspaceId, (a.attachOrigin commit.record.id).id, s, commit.record.id⟩ rows)
      db₂.libraryOrigins := by cases h₃; rfl
  have e₄ : db₄.library = db₃.library := migrateRuleProvenance_keeps (fun _ _ => rfl) _ _ _ _ _ _ h₄
  have e₅ : db₅.library = db₄.library := linkHistory_keeps (fun _ _ => rfl) _ _ _ _ _ _ h₅
  have e₆ : db₆.library = db₅.library := enqueueArticleRuleJobs_keeps (fun _ _ _ => rfl) _ _ _ _ _ _ _ _ _ h₆
  have e₇ : db'.library = db₆.library := checkReferences_keeps _ _ _ h₇
  obtain ⟨ha₂, hd₂, ho₂⟩ := library_eq_iff.1 e₂
  rw [e₇, e₆, e₅, e₄, e₃, o₃, ha₂, hd₂, ho₂]
  rfl

theorem joined_key {left found : Option Article} {read : Bool} (hf : ∀ b, found = some b → b.key = commit.record.key) :
    (joined commit left found read).key = commit.record.key := by
  unfold joined freshArticle
  cases found with
  | some b =>
    cases left with
    | some old => exact hf b rfl
    | none => exact hf b rfl
  | none =>
    cases left with
    | some old => simp only; split <;> rfl
    | none => rfl

/-- A dedup row under the record's fingerprint has the record's key. -/
theorem LibraryOk.dedupKey_eq (h : LibraryOk P K db) (hinj : Set.InjOn P.fingerprint K) (hkey : key ∈ K) :
    (db.libraryDedup.lookup (w, P.fingerprint key)).all (·.dedupKey = key) := by
  cases hrow : db.libraryDedup.lookup (w, P.fingerprint key) with
  | none => rfl
  | some row =>
    obtain ⟨hf, b, hb, hbk⟩ := h.dedup_article hrow
    rw [← hbk] at hf
    simp [← hbk, (hinj hkey (h.key_mem hb) hf).symm]

/-- The result of the choice, by what the record leaves and what it finds. -/
theorem chooseArticle_ok {db' : Db} {left found : Option Article} {moved : Moved} {chosen : Article × DeliveryResult}
    (hmoved : (left = none ∧ moved = {}) ∨
      ∃ old subscriptions, left = some old ∧ moved = movedFrom commit.record old subscriptions)
    (hrun : chooseArticle commit moved found db = .ok (chosen, db')) :
    db' = db ∧ ∃ read, (read = true → left = none ∧ found = none) ∧ chosen =
      (joined commit left found read,
        if left = none ∧ found = none then .delivered commit.proposedArticleId
        else .alreadyDelivered (joined commit left found read).id) := by
  unfold chooseArticle at hrun
  rcases hmoved with ⟨rfl, rfl⟩ | ⟨old, subscriptions, rfl, rfl⟩
  · rw [resolveArticle_stay] at hrun
    cases found with
    | some a =>
      cases hrun
      exact ⟨rfl, false, by simp, by simp [joined]⟩
    | none =>
      obtain ⟨read, db₁, h₁, hrun⟩ := bind_ok.1 hrun
      have hdb : db₁ = db := automaticallyRead_keeps (f := id) commit _ _ _ h₁
      cases hrun
      exact ⟨hdb, read, by simp, by simp [joined, freshArticle]⟩
  · rw [resolveArticle_moved old found subscriptions false] at hrun
    cases hrun
    exact ⟨rfl, false, by simp, by simp⟩

/-- The loop over the articles that hold the record has run at most once. -/
theorem LibraryOk.detachLoop_ok (h : LibraryOk P K db) {moved : Moved} {db₁ : Db}
    (hloop : loop (detachPrior P w record) {} (db.priorByArticle w record.id) db = .ok (moved, db₁)) :
    db₁ = db.afterLeaving P w record ∧
      (∀ old, db.leaving w record = some old → (old.detachOrigin record.id).origins ≠ [] →
        (old.detachOrigin record.id).revision ≤ bigintMax) ∧
      (∀ t, t ∈ moved.subscriptions ↔ ∃ old, db.leaving w record = some old ∧
        ⟨w, old.id, t, record.id⟩ ∈ db.libraryOrigins) ∧
      ((db.leaving w record = none ∧ moved = {}) ∨
        ∃ old subscriptions, db.leaving w record = some old ∧ moved = movedFrom record old subscriptions) := by
  unfold Db.afterLeaving
  cases hl : db.leaving w record with
  | none =>
    rw [h.detachLoop_of_none hl] at hloop
    cases hloop
    exact ⟨rfl, by simp, by simp, by simp⟩
  | some old =>
    obtain ⟨subscriptions, hs, hr⟩ := h.detachLoop_of_some hl
    rw [hr] at hloop
    split at hloop
    · rename_i hrev
      cases hloop
      refine ⟨rfl, ?_, ?_, .inr ⟨old, subscriptions, rfl, rfl⟩⟩
      · rintro _ ⟨rfl⟩ hne
        exact hrev.resolve_left hne
      · intro t
        simp only [movedFrom, mem_foldl_collect, hs]
        simp
    · cases hloop

theorem LibraryOk.deliverActive_effect (h : LibraryOk P K db) (hinj : Set.InjOn P.fingerprint K)
    (hkey : commit.record.key ∈ K) {now : DateTime} {s : Subscription} {result : DeliveryResult} {db' : Db}
    (hrun : deliverActive P now s commit db = .ok (result, db')) :
    ∃ read subscriptions, DeliverEffect P db commit read subscriptions result db' := by
  unfold deliverActive at hrun
  obtain ⟨_, _, hget, hrun⟩ := bind_ok.1 hrun
  cases hget
  obtain ⟨moved, db₁, hloop, hrun⟩ := bind_ok.1 hrun
  obtain ⟨rfl, hrev, hsubs, hmoved⟩ := h.detachLoop_ok hloop
  have h₁ := h.afterLeaving hrev
  obtain ⟨found, db₂, hfind, hrun⟩ := bind_ok.1 hrun
  rw [h₁.findByKey_run hinj hkey, h.owner_afterLeaving h₁ hinj hkey] at hfind
  cases hfind
  obtain ⟨chosen, db₃, hchoose, hrun⟩ := bind_ok.1 hrun
  obtain ⟨rfl, read, hread, rfl⟩ := chooseArticle_ok hmoved hchoose
  have hjk : (joined commit (db.leaving commit.target.workspaceId commit.record)
      (db.owner P commit.target.workspaceId commit.record.key) read).key = commit.record.key :=
    joined_key fun b hb => ((h.owner_eq_some hinj hkey).1 hb).2
  obtain ⟨hres, htrev, hlib⟩ := attachRecord_library hjk
    (by rw [hjk]; exact h₁.dedupKey_eq hinj hkey) hrun
  refine ⟨read, moved.linked commit.target.subscriptionId, hlib, fun t => ?_, hread, ?_, htrev, hrev⟩
  · rw [mem_linked, hsubs]
  · rw [hres, Db.target, Article.attachOrigin_id]

/-- A delivery that succeeded was skipped because the subscription does not take deliveries, or ran. -/
theorem deliver_ok {lease : LeasedWork} {now : DateTime} {result : DeliveryResult} {db' : Db}
    (hrun : deliver P lease now commit db = .ok (result, db')) :
    db.leaseCurrent lease now ∧
    ((result = .skippedInactive ∧ db' = db ∧
        ∀ s, db.subscriptions.lookup commit.target.subscriptionId = some s → db.deliverable s = false) ∨
      ∃ s, db.subscriptions.lookup commit.target.subscriptionId = some s ∧
        s.workspaceId = commit.target.workspaceId ∧ db.deliverable s ∧
        deliverActive P now s commit db = .ok (result, db')) := by
  unfold deliver at hrun
  rw [bind_run, assertLease_run] at hrun
  by_cases hlease : db.leaseCurrent lease now = true
  case neg =>
    rw [if_neg hlease] at hrun
    cases hrun
  refine ⟨hlease, ?_⟩
  rw [if_pos hlease] at hrun
  simp only [bind_run, get_run] at hrun
  cases hs : db.subscriptions.lookup commit.target.subscriptionId with
  | none =>
    simp only [hs] at hrun
    obtain ⟨removed, _, h₁, hrun⟩ := bind_ok.1 hrun
    obtain ⟨_, _, h₂, hrun⟩ := bind_ok.1 hrun
    have e₁ := keeps_orThrow (f := id) _ _ _ _ _ h₁
    have e₂ := keeps_require (f := id) _ _ _ _ _ h₂
    cases hrun
    simp only [id] at e₁ e₂
    exact .inl ⟨rfl, e₂.trans e₁, by simp⟩
  | some s =>
    simp only [hs] at hrun
    obtain ⟨workspace, _, h₁, hrun⟩ := bind_ok.1 hrun
    cases hw : db.workspaces.lookup commit.target.workspaceId with
    | none =>
      rw [hw] at h₁
      cases h₁
    | some _ =>
      rw [hw] at h₁
      cases h₁
      obtain ⟨_, _, h₂, hrun⟩ := bind_ok.1 hrun
      unfold require at h₂
      split at h₂
      case isFalse => cases h₂
      rename_i hid
      cases h₂
      have hdel : db.deliverable s = (s.status.isActive && workspace.acceptsDelivery) := by
        simp only [Db.deliverable, hid.1, hw]
      split at hrun
      · rename_i hact
        exact .inr ⟨s, rfl, hid.1, by simp [hdel, hact], hrun⟩
      · rename_i hact
        cases hrun
        refine .inl ⟨rfl, rfl, ?_⟩
        rintro _ ⟨rfl⟩
        rw [hdel]
        simpa using hact

/-! ## The invariant -/

theorem DeliverEffect.libraryOk {read : Bool} {subscriptions : List SubscriptionId} {result : DeliveryResult}
    {db' : Db} (he : DeliverEffect P db commit read subscriptions result db') (h : LibraryOk P K db)
    (hinj : Set.InjOn P.fingerprint K) (hkey : commit.record.key ∈ K)
    (hfresh : db.articles.lookup (commit.target.workspaceId, commit.proposedArticleId) = none) :
    LibraryOk P K db' := by
  have h₁ := h.afterLeaving he.left_revision
  refine (h₁.attach ?_ ?_ ?_ ?_ he.target_revision).congr he.library
  · rw [Db.target, Article.attachOrigin_key, joined_key fun b hb => ((h.owner_eq_some hinj hkey).1 hb).2]
    exact hkey
  · -- the article is the owner of the key, or its id is free once the record has left its old article
    rw [Db.target, Article.attachOrigin_id, Article.attachOrigin_key,
      joined_key fun b hb => ((h.owner_eq_some hinj hkey).1 hb).2]
    cases ho : db.owner P commit.target.workspaceId commit.record.key with
    | some b =>
      obtain ⟨hb, hbk⟩ := (h.owner_eq_some hinj hkey).1 ho
      refine .inr ⟨b, ?_, hbk, ?_⟩
      · have : (joined commit (db.leaving commit.target.workspaceId commit.record) (some b) read).id = b.id := by
          unfold joined; cases db.leaving commit.target.workspaceId commit.record <;> rfl
        rw [this]
        exact (h.lookup_afterLeaving hbk).2 hb
      · unfold joined Article.attachOrigin
        cases db.leaving commit.target.workspaceId commit.record with
        | none => rfl
        | some old => simp only; split <;> rfl
    | none =>
      have hd : (db.afterLeaving P commit.target.workspaceId commit.record).libraryDedup.lookup
          (commit.target.workspaceId, P.fingerprint commit.record.key) = none := by
        rw [← h₁.owner_eq_none, h.owner_afterLeaving h₁ hinj hkey, ho]
      refine .inl ⟨?_, hd, ?_⟩
      · cases hl : db.leaving commit.target.workspaceId commit.record with
        | none => simpa [Db.afterLeaving, hl, joined, freshArticle] using hfresh
        | some old =>
          simp only [Db.afterLeaving, hl, lookup_detach_articles, joined]
          by_cases hnil : (old.detachOrigin commit.record.id).origins = []
          · simp [hnil]
          · simp only [hnil, if_false]
            split
            · rename_i hk
              rw [hk, (h.leaving_eq_some.1 hl).1] at hfresh
              cases hfresh
            · exact hfresh
      · cases db.leaving commit.target.workspaceId commit.record with
        | none => simp [joined, freshArticle, Article.attachOrigin]
        | some old =>
          by_cases hnil : (old.detachOrigin commit.record.id).origins = []
          · simp [joined, Article.attachOrigin, hnil]
          · simp [joined, Article.attachOrigin, hnil]
  · intro i s hrow
    cases hl : db.leaving commit.target.workspaceId commit.record with
    | some old =>
      obtain ⟨hold, hr, -⟩ := h.leaving_eq_some.1 hl
      simp only [Db.afterLeaving, hl, mem_detach_origins] at hrow
      exact absurd ⟨trivial, h.id_of_mem hold hr hrow.1, trivial⟩ hrow.2
    | none =>
      -- the record stays where it is, so its article has its key
      simp only [Db.afterLeaving, hl] at hrow
      obtain ⟨b, hb⟩ := h.row_article hrow
      have hid := h.article_id hb
      subst hid
      have hbk : b.key = commit.record.key := by
        by_contra hne
        rw [h.leaving_eq_some.2 ⟨hb, h.mem_origins hrow hb, hne⟩] at hl
        cases hl
      rw [Db.target, Article.attachOrigin_id, hl, (h.owner_eq_some hinj hkey).2 ⟨hb, hbk⟩]
      rfl
  · intro hnil
    have := (he.linked commit.target.subscriptionId).2 (.inl rfl)
    rw [hnil] at this
    cases this

theorem LibraryOk.deliver {lease : LeasedWork} {now : DateTime} {result : DeliveryResult} {db' : Db}
    (h : LibraryOk P K db) (hinj : Set.InjOn P.fingerprint K) (hkey : commit.record.key ∈ K)
    (hfresh : db.articles.lookup (commit.target.workspaceId, commit.proposedArticleId) = none)
    (hrun : Inoreader.deliver P lease now commit db = .ok (result, db')) : LibraryOk P K db' := by
  obtain ⟨-, ⟨-, rfl, -⟩ | ⟨s, -, -, -, hrun⟩⟩ := deliver_ok hrun
  · exact h
  · obtain ⟨read, subscriptions, he⟩ := h.deliverActive_effect hinj hkey hrun
    exact he.libraryOk h hinj hkey hfresh

end
end Inoreader
