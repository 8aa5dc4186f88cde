import Inoreader.Library.Links
import Inoreader.Library.Run

/-!
# Delivering a revision again

A repeated delivery finds its record where the first one left it and changes nothing in the library.
It still derives the rule job of the article, under an id that is fixed by article, subscription,
record and revision, from the rules as they are now; if that id is taken by a job with other
evaluations the whole delivery fails.
-/

namespace Inoreader
open Lib Tx

/-- Ratings and receipts belong to stored articles, and every stored rule passes its check. -/
structure CommandsOk (db : Db) : Prop where
  ratings : ∀ k row, db.articleRatings.lookup k = some row → (db.articles.lookup k).isSome
  completions : ∀ k v, db.readingCompletions.lookup k = some v → (db.articles.lookup v.1).isSome
  rules : ∀ k rule, db.rules.lookup k = some rule → rule.valid = true

/-- A database without articles, ratings, receipts and rules. -/
structure LibraryStart (db : Db) : Prop extends LibraryEmpty db where
  articleRatings : db.articleRatings = ∅
  readingCompletions : db.readingCompletions = ∅
  rules : db.rules = ∅

/-- The ratings of all articles but one. -/
def Db.otherRatings (k : ArticleKey) (db : Db) : ArticleKey → Option ArticleRatingRow := fun k' =>
  if k' = k then none else db.articleRatings.lookup k'

/-- The subscription is active in a workspace that accepts deliveries. -/
def Db.TargetActive (db : Db) (target : DeliveryTarget) : Prop :=
  ∃ s w, db.subscriptions.lookup target.subscriptionId = some s ∧ db.workspaces.lookup target.workspaceId = some w ∧
    s.workspaceId = target.workspaceId ∧ w.id = target.workspaceId ∧ s.status.isActive = true ∧
    w.acceptsDelivery = true

/-- Every row of the three library tables is the same. -/
structure SameLibrary (db db' : Db) : Prop where
  articles : ∀ k, db'.articles.lookup k = db.articles.lookup k
  libraryDedup : ∀ k, db'.libraryDedup.lookup k = db.libraryDedup.lookup k
  libraryOrigins : ∀ row, row ∈ db'.libraryOrigins ↔ row ∈ db.libraryOrigins

/-- The evaluations that the rules of the target's subscription ask for now. -/
def Db.evaluations (db : Db) (target : DeliveryTarget) : List PendingRuleEvaluation :=
  pendingEvaluations (db.workspaceRules target.workspaceId) target.subscriptionId

/-- The article still holds the record under the revision's key, and the rule job of this delivery was
never enqueued, is not wanted now or asks for the evaluations of the rules as they are now. -/
structure Redeliverable (db : Db) (commit : DeliveryCommit) (i : ArticleId) : Prop where
  held : ∃ a, db.articles.lookup (commit.target.workspaceId, i) = some a ∧ commit.record.id ∈ a.origins ∧
    a.key = commit.record.key
  job : db.evaluations commit.target = [] ∨
    ∀ job, db.ingestJobs.lookup
        (.articleRule i commit.target.subscriptionId commit.record.id commit.record.revision) = some job →
      job.item = .evaluateArticleRules commit.target.workspaceId i (db.evaluations commit.target)

section
variable {P : Platform} {visible : Db → WorkspaceId → Article → Bool} {K : Set DedupKey} {s s' : LibraryWorld}
  {op : LibraryOp} {db db' : Db} {commit : DeliveryCommit}

theorem LibraryStart.commandsOk (h : LibraryStart db) : CommandsOk db := by
  refine ⟨fun k row hk => ?_, fun k v hk => ?_, fun k rule hk => ?_⟩
  · simp [h.articleRatings] at hk
  · simp [h.readingCompletions] at hk
  · simp [h.rules] at hk

theorem StateOnly.isSome (h : StateOnly db db') {k : ArticleKey} (hk : (db.articles.lookup k).isSome) :
    (db'.articles.lookup k).isSome := by
  obtain ⟨a, ha⟩ := Option.isSome_iff_exists.1 hk
  obtain ⟨a', ha', -⟩ := h.after k a ha
  simp [ha']

/-- A step that keeps every article keeps the references if what it adds belongs to stored articles. -/
theorem CommandsOk.stateOnly (h : CommandsOk db) (hs : StateOnly db db') (hrules : db'.rules = db.rules)
    (hratings : ∀ k row, db'.articleRatings.lookup k = some row →
      (db.articleRatings.lookup k).isSome ∨ (db.articles.lookup k).isSome)
    (hcompletions : ∀ k v, db'.readingCompletions.lookup k = some v →
      (∃ old, db.readingCompletions.lookup k = some old ∧ old.1 = v.1) ∨ (db.articles.lookup v.1).isSome) :
    CommandsOk db' := by
  refine ⟨fun k row hk => hs.isSome ?_, fun k v hk => hs.isSome ?_, by rw [hrules]; exact h.rules⟩
  · rcases hratings k row hk with hsome | hsome
    · obtain ⟨old, hold⟩ := Option.isSome_iff_exists.1 hsome
      exact h.ratings k old hold
    · exact hsome
  · rcases hcompletions k v hk with ⟨old, hold, hv⟩ | hsome
    · rw [← hv]
      exact h.completions k old hold
    · exact hsome

theorem CommandsOk.congr (h : CommandsOk db) (hs : StateOnly db db') (hrules : db'.rules = db.rules)
    (hratings : db'.articleRatings = db.articleRatings)
    (hcompletions : db'.readingCompletions = db.readingCompletions) : CommandsOk db' := by
  refine h.stateOnly hs hrules (fun k row hk => ?_) fun k v hk => ?_
  · rw [hratings] at hk
    exact .inl (by simp [hk])
  · rw [hcompletions] at hk
    exact .inl ⟨v, hk, rfl⟩

/-! ## The commands keep the references -/

theorem writeRating_otherRatings (k : ArticleKey) (state : ReadingState) :
    Keeps (Db.otherRatings k) (writeRating k state) := by
  unfold writeRating
  split
  · refine keeps_modify fun db => funext fun k' => ?_
    simp only [Db.otherRatings, Table.lookup_insert_if]
    split <;> rfl
  · refine keeps_bind (keeps_require _ _) fun _ => keeps_modify fun db => funext fun k' => ?_
    simp only [Db.otherRatings, Table.lookup_erase_if]
    split <;> rfl

theorem writeArticle_keeps {γ : Type} {f : Db → γ} (hf : ∀ (db : Db) t, f { db with articles := t } = f db)
    (k : ArticleKey) (a : Article) : Keeps f (writeArticle k a) :=
  keeps_bind (keeps_require _ _) fun _ => keeps_modify fun _ => hf _ _

theorem nextRevision_keeps {γ : Type} {f : Db → γ} (n : Nat) : Keeps f (nextRevision n) :=
  fun _ _ _ h => congrArg f (nextRevision_ok h).2.2

theorem completeReading_keeps {γ : Type} {f : Db → γ} (hf : ∀ (db : Db) t, f { db with articles := t } = f db)
    (hf₁ : ∀ (db : Db) t, f { db with readingCompletions := t } = f db)
    (hf₂ : ∀ (db : Db) t, f { db with articleReadEvents := t } = f db) (now : DateTime) (owner : AccountId)
    (w : WorkspaceId) (i : ArticleId) (command : CompleteReading)
    (hf₃ : ∀ state, Keeps f (writeRating (w, i) state)) : Keeps f (completeReading now owner w i command) := by
  refine keeps_bind (lockedArticle_keeps _ _ _) fun a => keeps_bind (findReceipt_keeps _ _ _) fun o => ?_
  split
  · exact keeps_bind (keeps_require _ _) fun _ => keeps_pure _
  · refine keeps_bind (keeps_require _ _) fun _ => keeps_bind ?_ fun previous => ?_
    · exact keeps_bind keeps_get fun _ => keeps_bind (keeps_require _ _) fun _ => keeps_pure _
    · refine keeps_bind (nextRevision_keeps _) fun revision => keeps_bind (keeps_modify fun _ => hf₁ _ _) fun _ => ?_
      refine keeps_bind (writeArticle_keeps hf _ _) fun _ => keeps_bind (hf₃ _) fun _ => ?_
      exact keeps_bind (recordRead_keeps hf₂ _ _ _) fun _ => keeps_pure _

theorem undoReading_keeps {γ : Type} {f : Db → γ} (hf : ∀ (db : Db) t, f { db with articles := t } = f db)
    (hf₁ : ∀ (db : Db) t, f { db with readingCompletions := t } = f db) (owner : AccountId) (w : WorkspaceId)
    (i : ArticleId) (operation : Nat) (hf₂ : ∀ state, Keeps f (writeRating (w, i) state)) :
    Keeps f (undoReading owner w i operation) := by
  refine keeps_bind (lockedArticle_keeps _ _ _) fun a => keeps_bind (findReceipt_keeps _ _ _) fun o => ?_
  refine keeps_bind (keeps_orThrow _ _) fun receipt => ?_
  split
  · exact keeps_pure _
  · refine keeps_bind (keeps_require _ _) fun _ => keeps_bind (nextRevision_keeps _) fun revision => ?_
    refine keeps_bind (writeArticle_keeps hf _ _) fun _ => keeps_bind (hf₂ _) fun _ => ?_
    exact keeps_bind (keeps_modify fun _ => hf₁ _ _) fun _ => keeps_pure _

/-- A rating that appears is the rating of the article that was read. -/
theorem rating_of_otherRatings {k : ArticleKey} (ho : db'.otherRatings k = db.otherRatings k)
    (hk : (db.articles.lookup k).isSome) (k' : ArticleKey) (row : ArticleRatingRow)
    (hrow : db'.articleRatings.lookup k' = some row) :
    (db.articleRatings.lookup k').isSome ∨ (db.articles.lookup k').isSome := by
  by_cases hkk : k' = k
  · subst hkk
    exact .inr hk
  · have := congrFun ho k'
    simp only [Db.otherRatings, if_neg hkk] at this
    exact .inl (by rw [← this, hrow]; rfl)

theorem CommandsOk.completeReading (h : CommandsOk db) (now : DateTime) (owner : AccountId) (w : WorkspaceId)
    (i : ArticleId) (command : CompleteReading) :
    wp (Inoreader.completeReading now owner w i command) (fun _ db' => CommandsOk db') db := by
  intro result db' hrun
  have hrules : db'.rules = db.rules := completeReading_keeps (f := Db.rules) (fun _ _ => rfl) (fun _ _ => rfl)
    (fun _ _ => rfl) _ _ _ _ _ (fun _ => writeRating_keeps (fun _ _ => rfl) _ _) _ _ _ hrun
  have ho : db'.otherRatings (w, i) = db.otherRatings (w, i) := completeReading_keeps (f := Db.otherRatings (w, i))
    (fun _ _ => rfl) (fun _ _ => rfl) (fun _ _ => rfl) _ _ _ _ _ (fun _ => writeRating_otherRatings _ _) _ _ _ hrun
  have hs := completeReading_stateOnly now owner w i command result db' hrun
  rcases completeReading_ok hrun with ⟨rfl, -⟩ | ⟨a, receipt, ha, -, -, hfree, -, -, hrows, -⟩
  · exact h
  · refine h.stateOnly hs hrules (rating_of_otherRatings ho (by simp [ha])) fun k v hk => ?_
    rw [hrows, Table.lookup_insert_if] at hk
    split at hk
    · cases hk
      exact .inr (by simp [ha])
    · exact .inl ⟨v, hk, rfl⟩

theorem CommandsOk.undoReading (h : CommandsOk db) (owner : AccountId) (w : WorkspaceId) (i : ArticleId)
    (operation : Nat) : wp (Inoreader.undoReading owner w i operation) (fun _ db' => CommandsOk db') db := by
  intro result db' hrun
  have hrules : db'.rules = db.rules := undoReading_keeps (f := Db.rules) (fun _ _ => rfl) (fun _ _ => rfl) _ _ _ _
    (fun _ => writeRating_keeps (fun _ _ => rfl) _ _) _ _ _ hrun
  have ho : db'.otherRatings (w, i) = db.otherRatings (w, i) := undoReading_keeps (f := Db.otherRatings (w, i))
    (fun _ _ => rfl) (fun _ _ => rfl) _ _ _ _ (fun _ => writeRating_otherRatings _ _) _ _ _ hrun
  have hs := undoReading_stateOnly owner w i operation result db' hrun
  obtain ⟨receipt, -, ⟨rfl, -⟩ | ⟨-, a, state, ha, -, -, hrows, -⟩⟩ := undoReading_ok hrun
  · exact h
  · refine h.stateOnly hs hrules (rating_of_otherRatings ho (by simp [ha])) fun k v hk => ?_
    rw [hrows, Table.lookup_insert_if] at hk
    split at hk
    · cases hk
      exact .inr (by simp [ha])
    · exact .inl ⟨v, hk, rfl⟩

theorem checkReferences_ok {u : Unit} :
    checkReferences db = .ok (u, db') ↔ db' = db ∧
      (∀ k row, db.articleRatings.lookup k = some row → (db.articles.lookup k).isSome) ∧
      ∀ k v, db.readingCompletions.lookup k = some v → (db.articles.lookup v.1).isSome := by
  unfold checkReferences
  rw [bind_run, get_run]
  simp only [require]
  constructor
  · intro h
    split at h
    · rename_i hrefs
      cases h
      exact ⟨rfl, fun k row hk => hrefs.1 (k, row) (Table.mem_rows.2 hk), fun k v hk => hrefs.2 (k, v) (Table.mem_rows.2 hk)⟩
    · cases h
  · rintro ⟨rfl, hratings, hcompletions⟩
    rw [if_pos]
    · rfl
    · exact ⟨fun row hrow => hratings row.1 row.2 (Table.mem_rows.1 hrow),
        fun row hrow => hcompletions row.1 row.2 (Table.mem_rows.1 hrow)⟩

/-- A delivery checks the references when it ends. -/
theorem CommandsOk.deliver (h : CommandsOk db) (lease : LeasedWork) (now : DateTime) (commit : DeliveryCommit) :
    wp (Inoreader.deliver P lease now commit) (fun _ db' => CommandsOk db') db := by
  intro result db' hrun
  have hrules : db'.rules = db.rules :=
    deliver_keeps (f := Db.rules) (by refine ⟨⟨?_, ?_, ?_⟩, ?_, ?_, ?_, ?_⟩ <;> intros <;> rfl) lease now commit _ _ _ hrun
  obtain ⟨-, ⟨-, rfl, -⟩ | ⟨t, -, -, -, hact⟩⟩ := deliver_ok hrun
  · exact h
  · unfold deliverActive at hact
    obtain ⟨_, _, -, hact⟩ := bind_ok.1 hact
    obtain ⟨moved, _, -, hact⟩ := bind_ok.1 hact
    obtain ⟨found, _, -, hact⟩ := bind_ok.1 hact
    obtain ⟨chosen, _, -, hact⟩ := bind_ok.1 hact
    unfold attachRecord at hact
    obtain ⟨_, _, -, hact⟩ := bind_ok.1 hact
    obtain ⟨_, _, -, hact⟩ := bind_ok.1 hact
    obtain ⟨_, _, -, hact⟩ := bind_ok.1 hact
    obtain ⟨_, _, -, hact⟩ := bind_ok.1 hact
    obtain ⟨_, _, -, hact⟩ := bind_ok.1 hact
    obtain ⟨_, _, -, hact⟩ := bind_ok.1 hact
    obtain ⟨_, _, hcheck, hact⟩ := bind_ok.1 hact
    cases hact
    obtain ⟨rfl, hratings, hcompletions⟩ := checkReferences_ok.1 hcheck
    exact ⟨hratings, hcompletions, by rw [hrules]; exact h.rules⟩

theorem CommandsOk.saveRule (h : CommandsOk db) (w : WorkspaceId) (expected : Option Nat) (rule : Rule) :
    wp (Inoreader.saveRule w expected rule) (fun _ db' => CommandsOk db') db := by
  intro u db' hrun
  unfold Inoreader.saveRule at hrun
  obtain ⟨hvalid, hrun⟩ := bind_require_ok.1 hrun
  obtain ⟨-, hrun⟩ := bind_require_ok.1 hrun
  rw [bind_run, get_run] at hrun
  have hguard : Keeps (fun d => d) (requireRevision ((db.rules.lookup (w, rule.id)).map (·.version)) expected) := by
    unfold requireRevision
    split
    · exact keeps_bind (keeps_require _ _) fun _ => keeps_require _ _
    · exact keeps_require _ _
  obtain ⟨_, -, hrun⟩ := (bind_ok_of_reads hguard).1 hrun
  cases hrun
  refine ⟨h.ratings, h.completions, fun k r hk => ?_⟩
  rw [Table.lookup_insert_if] at hk
  split at hk
  · cases hk
    exact hvalid
  · exact h.rules k r hk

theorem CommandsOk.deleteRule (h : CommandsOk db) (w : WorkspaceId) (id : RuleId) (expected : Nat) :
    wp (Inoreader.deleteRule w id expected) (fun _ db' => CommandsOk db') db := by
  intro u db' hrun
  unfold Inoreader.deleteRule at hrun
  obtain ⟨-, hrun⟩ := bind_require_ok.1 hrun
  rw [bind_run, get_run] at hrun
  obtain ⟨-, hrun⟩ := bind_require_ok.1 hrun
  cases hrun
  exact ⟨h.ratings, h.completions, Table.All.erase h.rules⟩

theorem updateArticle_keeps {γ : Type} {f : Db → γ} (hf : ∀ (db : Db) t, f { db with articles := t } = f db)
    (hf' : ∀ (db : Db) t, f { db with articleReadEvents := t } = f db) (w : WorkspaceId) (snapshot : Article)
    (p : ArticlePatch) : Keeps f (updateArticle w snapshot p) := by
  refine keeps_bind (keeps_require _ _) fun _ => keeps_bind keeps_get fun _ => keeps_bind ?_ fun _ => ?_
  · refine keeps_bind (keeps_require _ _) fun _ => keeps_bind keeps_get fun _ => ?_
    exact keeps_bind (keeps_bind (keeps_require _ _) fun _ => keeps_require _ _) fun _ => keeps_modify fun _ => hf _ _
  · exact keeps_onlyIf (recordRead_keeps hf' _ _ _)

theorem CommandsOk.step (h : CommandsOk s.db) (hi : LibraryInv P K s) (hinj : Set.InjOn P.fingerprint K)
    (hkey : op.KeyIn K) (hstep : s.step P visible op = some s') : CommandsOk s'.db := by
  have hcases := hi.step_cases hinj hkey hstep
  cases op with
  | deliver lease now commit =>
    simp only [LibraryWorld.step] at hstep
    split at hstep
    · cases hstep
    · cases hstep
      exact commit_of_wp h (h.deliver lease now commit)
  | evaluateArticleRules lease now w i evaluations =>
    cases hstep
    have hs := (hcases.resolve_left (by rintro ⟨_, _, _, _, _, _, he, -⟩; cases he)).1
    have hf {γ : Type} (f : Db → γ) (hf : OutsideRules f) :=
      (evaluateArticleRules_keeps (P := P) hf lease now w i evaluations).commit s.db
    exact h.congr hs (hf _ (by constructor <;> intros <;> rfl)) (hf _ (by constructor <;> intros <;> rfl))
      (hf _ (by constructor <;> intros <;> rfl))
  | applyRuleBatch lease now w rule version afterId throughId limit =>
    cases hstep
    have hs := (hcases.resolve_left (by rintro ⟨_, _, _, _, _, _, he, -⟩; cases he)).1
    have hf {γ : Type} (f : Db → γ) (hf : OutsideRules f) :=
      (applyRuleBatch_keeps (P := P) hf lease now w rule version afterId throughId limit).commit s.db
    exact h.congr hs (hf _ (by constructor <;> intros <;> rfl)) (hf _ (by constructor <;> intros <;> rfl))
      (hf _ (by constructor <;> intros <;> rfl))
  | readArticle w i =>
    cases hstep
    exact h
  | updateArticle w snapshot p =>
    have hs := (hcases.resolve_left (by rintro ⟨_, _, _, _, _, _, he, -⟩; cases he)).1
    simp only [LibraryWorld.step] at hstep
    split at hstep
    · cases hstep
      have hf {γ : Type} (f : Db → γ) (hf : ∀ (db : Db) t, f { db with articles := t } = f db)
          (hf' : ∀ (db : Db) t, f { db with articleReadEvents := t } = f db) :=
        (updateArticle_keeps hf hf' w snapshot p).commit s.db
      exact h.congr hs (hf _ (fun _ _ => rfl) fun _ _ => rfl) (hf _ (fun _ _ => rfl) fun _ _ => rfl)
        (hf _ (fun _ _ => rfl) fun _ _ => rfl)
    · cases hstep
  | completeReading now owner w i command =>
    cases hstep
    exact commit_of_wp h (h.completeReading now owner w i command)
  | undoReading owner w i operation =>
    cases hstep
    exact commit_of_wp h (h.undoReading owner w i operation)
  | markScopeRead w scope batch =>
    cases hstep
    have hs := (hcases.resolve_left (by rintro ⟨_, _, _, _, _, _, he, -⟩; cases he)).1
    have hf {γ : Type} (f : Db → γ) (hf : ∀ (db : Db) t, f { db with articles := t } = f db)
        (hf' : ∀ (db : Db) t, f { db with articleReadEvents := t } = f db) :
        f ((markScopeReadAtomic visible w scope batch).commit s.db) = f s.db :=
      Keeps.commit (keeps_bind keeps_get fun _ => markBatches_keeps hf hf' _ _ _ _) s.db
    exact h.congr hs (hf _ (fun _ _ => rfl) fun _ _ => rfl) (hf _ (fun _ _ => rfl) fun _ _ => rfl)
      (hf _ (fun _ _ => rfl) fun _ _ => rfl)
  | saveRule w expected rule =>
    cases hstep
    exact commit_of_wp h (h.saveRule w expected rule)
  | deleteRule w id expected =>
    cases hstep
    exact commit_of_wp h (h.deleteRule w id expected)
  | other db' =>
    have hs := (hcases.resolve_left (by rintro ⟨_, _, _, _, _, _, he, -⟩; cases he)).1
    simp only [LibraryWorld.step] at hstep
    split at hstep
    · rename_i hsame
      cases hstep
      exact h.congr hs hsame.2.2.2 hsame.2.1 hsame.2.2.1
    · cases hstep

/-- A link stays once it is there. -/
theorem LibraryInv.step_linked (hi : LibraryInv P K s) (hinj : Set.InjOn P.fingerprint K) (hkey : op.KeyIn K)
    (hstep : s.step P visible op = some s') {w : WorkspaceId} {t : SubscriptionId} {r : SourceRecordId}
    (h : s.db.Linked w t r) : s'.db.Linked w t r := by
  have hcases := hi.step_cases hinj hkey hstep
  cases op with
  | deliver lease now commit =>
    simp only [LibraryWorld.step] at hstep
    split at hstep
    · cases hstep
    · cases hstep
      exact commit_of_wp (P := fun d => d.Linked w t r) h fun _ _ hrun => (deliver_linked hrun w t r).2 (.inl h)
  | _ =>
    have hs := (hcases.resolve_left (by rintro ⟨_, _, _, _, _, _, he, -⟩; cases he)).1
    unfold Db.Linked
    rw [hs.libraryOrigins]
    exact h

/-! ## The second delivery -/

theorem validateRules_run {rules : List Rule} (h : ∀ rule ∈ rules, rule.valid = true) :
    loop (fun _ rule => validateRule rule) () rules db = .ok ((), db) := by
  induction rules with
  | nil => rfl
  | cons rule rules ih =>
    rw [loop, bind_run, validateRule, require, if_pos (h rule (by simp))]
    exact ih fun r hr => h r (by simp [hr])

theorem CommandsOk.workspaceRules (h : CommandsOk db) (w : WorkspaceId) :
    ∀ rule ∈ db.workspaceRules w, rule.valid = true := by
  intro rule hrule
  simp only [Db.workspaceRules, List.mem_insertionSort, List.mem_map, List.mem_filter, decide_eq_true_eq] at hrule
  obtain ⟨⟨k, r⟩, ⟨hrow, -⟩, rfl⟩ := hrule
  exact h.rules k r (Table.mem_rows.1 hrow)

theorem CommandsOk.enqueueArticleRuleJobs_run (h : CommandsOk db) {now : DateTime} {w : WorkspaceId} {t : Subscription}
    {a : Article} {record : SourceRecord} {linked : SubscriptionId} :
    enqueueArticleRuleJobs now w t a record [linked] db =
      if pendingEvaluations (db.workspaceRules w) linked = [] then .ok ((), db)
      else enqueueWork (.articleRule a.id linked record.id record.revision)
        (.evaluateArticleRules t.workspaceId a.id (pendingEvaluations (db.workspaceRules w) linked)) (millis now) db := by
  unfold enqueueArticleRuleJobs
  simp only [bind_run, get_run, validateRules_run (h.workspaceRules w), loop]
  cases hes : pendingEvaluations (db.workspaceRules w) linked with
  | nil => rfl
  | cons e es =>
    simp only [reduceCtorEq, if_false]
    split
    · rename_i heq
      rw [heq]
      rfl
    · rename_i heq
      rw [heq]

/-- Storing an article as it is stored. -/
theorem LibraryOk.upsert_same (h : LibraryOk P K db) {w : WorkspaceId} {a : Article}
    (ha : db.articles.lookup (w, a.id) = some a) : SameLibrary db { db with
      articles := db.articles.insert (w, a.id) a
      libraryDedup := db.libraryDedup.insert (w, P.fingerprint a.key) ⟨a.key, a.id⟩ } := by
  refine ⟨fun k => ?_, fun k => ?_, fun _ => Iff.rfl⟩
  · simp only [Table.lookup_insert_if]
    split
    · rename_i hk
      rw [hk, ha]
    · rfl
  · simp only [Table.lookup_insert_if]
    split
    · rename_i hk
      rw [hk, h.article_dedup ha]
    · rfl

theorem CommandsOk.sameLibrary (h : CommandsOk db) (hs : SameLibrary db db') (hr : db'.rules = db.rules)
    (hratings : db'.articleRatings = db.articleRatings)
    (hcompletions : db'.readingCompletions = db.readingCompletions) : CommandsOk db' := by
  refine ⟨fun k row hk => ?_, fun k v hk => ?_, by rw [hr]; exact h.rules⟩
  · rw [hs.articles]
    exact h.ratings k row (hratings ▸ hk)
  · rw [hs.articles]
    exact h.completions k v (hcompletions ▸ hk)

/-- A delivery to the article that holds the record under its key is decided by the rule job. -/
theorem redeliver_run (commit : DeliveryCommit) (h : LibraryOk P K db) (hc : CommandsOk db) (hinj : Set.InjOn P.fingerprint K)
    (hkey : commit.record.key ∈ K) {lease : LeasedWork} {now : DateTime} (hlease : db.leaseCurrent lease now)
    (htarget : db.TargetActive commit.target)
    (hlinked : db.Linked commit.target.workspaceId commit.target.subscriptionId commit.record.id) {a : Article}
    (ha : db.articles.lookup (commit.target.workspaceId, a.id) = some a) (hr : commit.record.id ∈ a.origins)
    (hak : a.key = commit.record.key) :
    (Redeliverable db commit a.id ∧ ∃ db', deliver P lease now commit db = .ok (.alreadyDelivered a.id, db') ∧
        SameLibrary db db') ∨
      (¬ Redeliverable db commit a.id ∧ deliver P lease now commit db = .error .conflict) := by
  obtain ⟨t, ws, ht, hws, htw, hwid, hact, hacc⟩ := htarget
  have hleaving : db.leaving commit.target.workspaceId commit.record = none := by
    rw [Db.leaving, h.holder_eq_some.2 ⟨ha, hr⟩]
    simp [Option.filter, hak]
  -- up to the rule jobs the delivery stores what is stored
  set db₁ : Db := { db with
    articles := db.articles.insert (commit.target.workspaceId, a.id) a
    libraryDedup := db.libraryDedup.insert (commit.target.workspaceId, P.fingerprint a.key) ⟨a.key, a.id⟩ } with hdb₁
  have hsame : SameLibrary db db₁ := h.upsert_same ha
  have hc₁ : CommandsOk db₁ := hc.sameLibrary hsame rfl rfl rfl
  have hrow : ⟨commit.target.workspaceId, a.id, commit.target.subscriptionId, commit.record.id⟩ ∈
      db.libraryOrigins := by
    obtain ⟨i, hi⟩ := hlinked
    rw [h.id_of_mem ha hr hi] at hi
    exact hi
  have hupsert : upsertArticle P commit.target.workspaceId a commit.record.key db = .ok ((), db₁) := by
    rw [← hak, upsertArticle_run (by rw [hak]; exact h.dedupKey_eq hinj hkey), if_pos (h.revision_le ha)]
  have hrun : deliver P lease now commit db = (do
      enqueueArticleRuleJobs now commit.target.workspaceId t a commit.record [commit.target.subscriptionId]
      checkReferences
      pure (.alreadyDelivered a.id) : StoreTx DeliveryResult) db₁ := by
    unfold deliver
    simp only [bind_run, assertLease_run, if_pos hlease, get_run, ht, hws, orThrow, pure_run, require, htw, hwid,
      and_self, if_true, hact, hacc, deliverActive, h.detachLoop_of_none hleaving, h.findByKey_run hinj hkey,
      (h.owner_eq_some hinj hkey).2 ⟨ha, hak⟩, chooseArticle, resolveArticle_stay, attachRecord,
      Article.attachOrigin_of_mem hr, hupsert, onlyIf, reduceCtorEq, false_and, if_false, linkOrigins, modify_run,
      Moved.linked, List.not_mem_nil, List.nil_append, List.foldl_cons, List.foldl_nil, migrateRuleProvenance, linkHistory,
      loop]
    rw [show insertRow _ db₁.libraryOrigins = db.libraryOrigins from insertRow_of_mem hrow]
  have hdone : ∀ db₂ : Db, db₂.library = db₁.library → db₂.articleRatings = db₁.articleRatings →
      db₂.readingCompletions = db₁.readingCompletions →
      (checkReferences db₂ = .ok ((), db₂)) ∧ SameLibrary db db₂ := by
    intro db₂ hlib hrat hcomp
    obtain ⟨e₁, e₂, e₃⟩ := library_eq_iff.1 hlib
    refine ⟨checkReferences_ok.2 ⟨rfl, ?_, ?_⟩, ?_⟩
    · rw [hrat, e₁]
      exact hc₁.ratings
    · rw [hcomp, e₁]
      exact hc₁.completions
    · exact ⟨by rw [e₁]; exact hsame.articles, by rw [e₂]; exact hsame.libraryDedup, by rw [e₃]; exact hsame.libraryOrigins⟩
  have hes : pendingEvaluations (db₁.workspaceRules commit.target.workspaceId) commit.target.subscriptionId =
      db.evaluations commit.target := rfl
  rw [hrun]
  simp only [bind_run, hc₁.enqueueArticleRuleJobs_run, hes, htw]
  by_cases hnil : db.evaluations commit.target = []
  · obtain ⟨hcheck, hlib⟩ := hdone db₁ rfl rfl rfl
    simp only [if_pos hnil, hcheck, pure_run]
    exact .inl ⟨⟨⟨a, ha, hr, hak⟩, .inl hnil⟩, db₁, rfl, hlib⟩
  simp only [if_neg hnil]
  cases hjob : db.ingestJobs.lookup
      (.articleRule a.id commit.target.subscriptionId commit.record.id commit.record.revision) with
  | none =>
    rw [enqueueWork_of_none (show db₁.ingestJobs.lookup _ = none from hjob) rfl]
    set db₂ := db₁.setJob (.articleRule a.id commit.target.subscriptionId commit.record.id commit.record.revision)
      (.new (.evaluateArticleRules commit.target.workspaceId a.id (db.evaluations commit.target)) (millis now)
        (.internalWorkspace commit.target.workspaceId))
    obtain ⟨hcheck, hlib⟩ := hdone db₂ rfl rfl rfl
    simp only [hcheck, pure_run]
    exact .inl ⟨⟨⟨a, ha, hr, hak⟩, .inr (by simp [hjob])⟩, db₂, rfl, hlib⟩
  | some job =>
    rw [enqueueWork_of_some (show db₁.ingestJobs.lookup _ = some job from hjob)]
    by_cases hitem : job.item = .evaluateArticleRules commit.target.workspaceId a.id (db.evaluations commit.target)
    · obtain ⟨hcheck, hlib⟩ := hdone db₁ rfl rfl rfl
      simp only [if_pos hitem, hcheck, pure_run]
      refine .inl ⟨⟨⟨a, ha, hr, hak⟩, .inr ?_⟩, db₁, rfl, hlib⟩
      rw [hjob]
      rintro _ ⟨rfl⟩
      exact hitem
    · simp only [if_neg hitem]
      refine .inr ⟨fun hre => ?_, trivial⟩
      exact hitem (hre.job.resolve_left hnil job hjob)

/-- A delivery that leaves the library as it is found its record in its place. -/
theorem held_of_redelivered (commit : DeliveryCommit) (h : LibraryOk P K db) (hinj : Set.InjOn P.fingerprint K) (hkey : commit.record.key ∈ K)
    {lease : LeasedWork} {now : DateTime} {i : ArticleId}
    (hrun : deliver P lease now commit db = .ok (.alreadyDelivered i, db')) (hsame : SameLibrary db db') :
    ∃ a, db.articles.lookup (commit.target.workspaceId, i) = some a ∧ commit.record.id ∈ a.origins ∧
      a.key = commit.record.key := by
  obtain ⟨-, ⟨hres, -⟩ | ⟨t, -, -, -, hact⟩⟩ := deliver_ok hrun
  · cases hres
  · obtain ⟨read, subscriptions, he⟩ := h.deliverActive_effect hinj hkey hact
    have hid : (db.target P commit read).id = i := by
      have := he.result_eq
      split at this
      · cases this
      · cases this
        rfl
    refine ⟨db.target P commit read, ?_, Article.mem_attachOrigin.2 (.inr rfl), ?_⟩
    · rw [← hsame.articles, he.lookup, hid, if_pos rfl]
    · rw [Db.target, Article.attachOrigin_key, joined_key fun b hb => ((h.owner_eq_some hinj hkey).1 hb).2]

end

/-- The rule of the small library's subscription. -/
def Sample.rule (version : Nat) : Rule :=
  { id := ⟨1⟩, subscriptionId := ⟨1⟩, version, enabled := true, field := .title, needles := ["first"], action := .markRead }

/-- The workspace with the rule, before the first delivery. -/
def Sample.withRule : LibraryWorld := { db := (saveRule ⟨1⟩ none (Sample.rule 0)).commit Sample.db }

/-- A delivery that enqueued a rule job. -/
def Sample.ruled : LibraryWorld :=
  { db := (deliver Sample.platform Sample.lease 5 (Sample.commit (Sample.record 1 0 "first") 1)).commit
      Sample.withRule.db
    usedIds := [⟨1⟩] }

/-- The same library after the rule was edited. -/
def Sample.edited : LibraryWorld :=
  { Sample.ruled with db := (saveRule ⟨1⟩ (some 0) (Sample.rule 1)).commit Sample.ruled.db }

end Inoreader
