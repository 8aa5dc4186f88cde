import Inoreader.Lib.Run
import Inoreader.Library.Deliver
import Inoreader.Library.States

/-!
# Runs of a library

Deliveries, rule evaluations and article commands in any order, each one transaction that commits as
a whole or not at all. A delivery proposes an id that nothing has proposed before. A patch is saved
with the document that an earlier read returned, so the run remembers the documents read. Everything
else the program does is `other`: it leaves the library, the ratings, the receipts and the rules alone.
-/

namespace Inoreader
open Lib Tx

inductive LibraryOp
  | deliver (lease : LeasedWork) (now : DateTime) (commit : DeliveryCommit)
  | evaluateArticleRules (lease : LeasedWork) (now : DateTime) (w : WorkspaceId) (i : ArticleId)
      (evaluations : List PendingRuleEvaluation)
  | applyRuleBatch (lease : LeasedWork) (now : DateTime) (w : WorkspaceId) (rule : RuleId) (version : Nat)
      (afterId throughId : Option ArticleId) (limit : Nat)
  | readArticle (w : WorkspaceId) (i : ArticleId)
  | updateArticle (w : WorkspaceId) (snapshot : Article) (patch : ArticlePatch)
  | completeReading (now : DateTime) (owner : AccountId) (w : WorkspaceId) (i : ArticleId) (command : CompleteReading)
  | undoReading (owner : AccountId) (w : WorkspaceId) (i : ArticleId) (operation : Nat)
  | markScopeRead (w : WorkspaceId) (scope : ArticleScope) (batch : Nat)
  | saveRule (w : WorkspaceId) (expected : Option Nat) (rule : Rule)
  | deleteRule (w : WorkspaceId) (id : RuleId) (expected : Nat)
  | other (db : Db)

structure LibraryWorld where
  db : Db
  /-- The ids that deliveries have proposed. -/
  usedIds : List ArticleId := []
  /-- The documents that article commands have read. -/
  snapshots : List (WorkspaceId × Article) := []

/-- The tables of a run are the same: the library, the ratings, the receipts and the rules. -/
def Db.SameTables (db db' : Db) : Prop :=
  db'.library = db.library ∧ db'.articleRatings = db.articleRatings ∧
    db'.readingCompletions = db.readingCompletions ∧ db'.rules = db.rules

instance (db db' : Db) : Decidable (db.SameTables db') := inferInstanceAs (Decidable (_ ∧ _))

section
variable (P : Platform) (visible : Db → WorkspaceId → Article → Bool)

def LibraryWorld.step (s : LibraryWorld) : LibraryOp → Option LibraryWorld
  | .deliver lease now commit =>
    if commit.proposedArticleId ∈ s.usedIds then none
    else some { s with
      db := (deliver P lease now commit).commit s.db
      usedIds := commit.proposedArticleId :: s.usedIds }
  | .evaluateArticleRules lease now w i evaluations =>
    some { s with db := (evaluateArticleRules P lease now w i evaluations).commit s.db }
  | .applyRuleBatch lease now w rule version afterId throughId limit =>
    some { s with db := (applyRuleBatch P lease now w rule version afterId throughId limit).commit s.db }
  | .readArticle w i => some { s with snapshots := (s.db.articles.lookup (w, i)).toList.map (w, ·) ++ s.snapshots }
  | .updateArticle w snapshot patch =>
    if (w, snapshot) ∈ s.snapshots then some { s with db := (updateArticle w snapshot patch).commit s.db } else none
  | .completeReading now owner w i command =>
    some { s with db := (completeReading now owner w i command).commit s.db }
  | .undoReading owner w i operation => some { s with db := (undoReading owner w i operation).commit s.db }
  | .markScopeRead w scope batch => some { s with db := (markScopeReadAtomic visible w scope batch).commit s.db }
  | .saveRule w expected rule => some { s with db := (saveRule w expected rule).commit s.db }
  | .deleteRule w id expected => some { s with db := (deleteRule w id expected).commit s.db }
  | .other db => if s.db.SameTables db then some { s with db } else none

end

/-- The keys of the deliveries of a run. -/
def keysMet (ops : List LibraryOp) : Set DedupKey :=
  { key | ∃ lease now commit, .deliver lease now commit ∈ ops ∧ commit.record.key = key }

/-- The operation delivers a key of `K`, if it is a delivery. -/
def LibraryOp.KeyIn (K : Set DedupKey) : LibraryOp → Prop
  | .deliver _ _ commit => commit.record.key ∈ K
  | _ => True

/-- The document `a` or a later one of the same article. -/
def Later (a b : Article) : Prop := b = a ∨ a.revision < b.revision

structure LibraryInv (P : Platform) (K : Set DedupKey) (s : LibraryWorld) : Prop where
  ok : LibraryOk P K s.db
  used {w i a} : s.db.articles.lookup (w, i) = some a → i ∈ s.usedIds
  snapshot_used {w a} : (w, a) ∈ s.snapshots → a.id ∈ s.usedIds
  snapshot_later {w a b} : (w, a) ∈ s.snapshots → s.db.articles.lookup (w, a.id) = some b → Later a b

section
variable {P : Platform} {visible : Db → WorkspaceId → Article → Bool} {K : Set DedupKey} {s s' : LibraryWorld}
  {op : LibraryOp} {db db' : Db} {commit : DeliveryCommit}

theorem Later.refl (a : Article) : Later a a := .inl rfl

theorem Later.trans {a b c : Article} (h : Later a b) (h' : Later b c) : Later a c := by
  rcases h with rfl | h
  · exact h'
  · rcases h' with rfl | h'
    · exact .inr h
    · exact .inr (h.trans h')

theorem Later.eq_of_revision {a b : Article} (h : Later a b) (hr : b.revision = a.revision) : b = a := by
  rcases h with h | h
  · exact h
  · omega

theorem StateStep.later {a b : Article} (h : StateStep a b) : Later a b := by
  rcases h with h | ⟨-, -, -, -, h, -⟩
  · exact .inl h
  · exact .inr h

theorem later_attachOrigin (a : Article) (r : SourceRecordId) : Later a (a.attachOrigin r) := by
  by_cases hr : r ∈ a.origins
  · exact .inl (Article.attachOrigin_of_mem hr)
  · exact .inr (by rw [Article.attachOrigin_of_not_mem hr]; exact Nat.lt_succ_self _)

/-! ## What a delivery does to the documents -/

theorem DeliverEffect.lookup {read : Bool} {subscriptions : List SubscriptionId} {result : DeliveryResult}
    (he : DeliverEffect P db commit read subscriptions result db') (k : ArticleKey) :
    db'.articles.lookup k =
      if k = (commit.target.workspaceId, (db.target P commit read).id) then some (db.target P commit read)
      else (db.afterLeaving P commit.target.workspaceId commit.record).articles.lookup k := by
  rw [(library_eq_iff.1 he.library).1, lookup_attach_articles]

/-- The article that a record joins is a later document of a stored article, or it is new. -/
theorem LibraryOk.target_later (h : LibraryOk P K db) (hinj : Set.InjOn P.fingerprint K)
    (hkey : commit.record.key ∈ K) (read : Bool) :
    (∃ a, db.articles.lookup (commit.target.workspaceId, (db.target P commit read).id) = some a ∧
      Later a (db.target P commit read)) ∨ (db.target P commit read).id = commit.proposedArticleId := by
  unfold Db.target
  rw [Article.attachOrigin_id]
  cases ho : db.owner P commit.target.workspaceId commit.record.key with
  | some b =>
    obtain ⟨hb, hbk⟩ := (h.owner_eq_some hinj hkey).1 ho
    cases hl : db.leaving commit.target.workspaceId commit.record with
    | none => exact .inl ⟨b, hb, later_attachOrigin b _⟩
    | some old =>
      obtain ⟨hold, hr, hok⟩ := h.leaving_eq_some.1 hl
      -- the record is in the article it leaves, so the merged article gains an origin
      have hnot : commit.record.id ∉ b.origins := by
        intro hrb
        obtain ⟨t, ht⟩ := (h.origins_rows hold).1 hr
        rw [h.id_of_mem hb hrb ht, hb] at hold
        cases hold
        exact hok hbk
      refine .inl ⟨b, hb, .inr ?_⟩
      rw [Article.attachOrigin_of_not_mem (a := joined commit (some old) (some b) read) hnot]
      exact Nat.lt_succ_self _
  | none =>
    cases hl : db.leaving commit.target.workspaceId commit.record with
    | none => exact .inr rfl
    | some old =>
      obtain ⟨hold, hr, -⟩ := h.leaving_eq_some.1 hl
      by_cases hnil : (old.detachOrigin commit.record.id).origins = []
      · refine .inl ⟨old, ?_, .inr ?_⟩
        · simpa [joined, hnil] using hold
        · have hj : joined commit (some old) none read =
              { old.detachOrigin commit.record.id with key := commit.record.key } := if_pos hnil
          rw [hj, Article.attachOrigin_of_not_mem (by simp [hnil]), Article.detachOrigin_of_mem hr]
          exact Nat.lt_add_of_pos_right (by decide : 0 < 2)
      · exact .inr (by simp [joined, hnil])

/-- A document after leaving is a later document of the same article. -/
theorem LibraryOk.afterLeaving_later (h : LibraryOk P K db) {w : WorkspaceId} {record : SourceRecord} {k : ArticleKey}
    {b : Article} (hb : (db.afterLeaving P w record).articles.lookup k = some b) :
    ∃ a, db.articles.lookup k = some a ∧ Later a b := by
  unfold Db.afterLeaving at hb
  cases hl : db.leaving w record with
  | none =>
    rw [hl] at hb
    exact ⟨b, hb, .refl b⟩
  | some old =>
    obtain ⟨hold, hr, -⟩ := h.leaving_eq_some.1 hl
    simp only [hl, lookup_detach_articles] at hb
    split at hb
    · rename_i hk
      split at hb
      · cases hb
      · cases hb
        refine ⟨old, hk ▸ hold, .inr ?_⟩
        rw [Article.detachOrigin_of_mem hr]
        exact Nat.lt_succ_self _
    · exact ⟨b, hb, .refl b⟩

/-- A document after a delivery is a later document of a stored article, or it has the proposed id. -/
theorem DeliverEffect.later {read : Bool} {subscriptions : List SubscriptionId} {result : DeliveryResult}
    (he : DeliverEffect P db commit read subscriptions result db') (h : LibraryOk P K db)
    (hinj : Set.InjOn P.fingerprint K) (hkey : commit.record.key ∈ K) {k : ArticleKey} {b : Article}
    (hb : db'.articles.lookup k = some b) :
    (∃ a, db.articles.lookup k = some a ∧ Later a b) ∨ k = (commit.target.workspaceId, commit.proposedArticleId) := by
  rw [he.lookup] at hb
  split at hb
  · rename_i hk
    cases hb
    rcases h.target_later hinj hkey read with ⟨a, ha, hab⟩ | hid
    · exact .inl ⟨a, hk ▸ ha, hab⟩
    · exact .inr (by rw [hk, hid])
  · exact .inl (h.afterLeaving_later hb)

/-! ## What a step does -/

theorem completeReading_stateOnly (now : DateTime) (owner : AccountId) (w : WorkspaceId) (i : ArticleId)
    (command : CompleteReading) :
    wp (completeReading now owner w i command) (fun _ db' => StateOnly db db') db := by
  intro result db' hrun
  rcases completeReading_ok hrun with ⟨rfl, -⟩ | ⟨a, receipt, ha, -, hle, -, -, -, -, hlib⟩
  · exact .refl _
  · exact stateOnly_setArticle_revision ha hle hlib

theorem undoReading_stateOnly (owner : AccountId) (w : WorkspaceId) (i : ArticleId) (operation : Nat) :
    wp (undoReading owner w i operation) (fun _ db' => StateOnly db db') db := by
  intro result db' hrun
  obtain ⟨receipt, -, ⟨rfl, -⟩ | ⟨-, a, state, ha, -, hle, -, hlib⟩⟩ := undoReading_ok hrun
  · exact .refl _
  · exact stateOnly_setArticle_revision ha hle hlib

theorem requireRevision_keeps {γ : Type} {f : Db → γ} (stored expected : Option Nat) :
    Keeps f (requireRevision stored expected) := by
  unfold requireRevision
  split
  · exact keeps_bind (keeps_require _ _) fun _ => keeps_require _ _
  · exact keeps_require _ _

theorem saveRule_keeps {γ : Type} {f : Db → γ} (hf : ∀ (db : Db) t, f { db with rules := t } = f db)
    (w : WorkspaceId) (expected : Option Nat) (rule : Rule) : Keeps f (saveRule w expected rule) := by
  refine keeps_bind (keeps_require _ _) fun _ => keeps_bind (keeps_require _ _) fun _ => keeps_bind keeps_get fun _ => ?_
  exact keeps_bind (requireRevision_keeps _ _) fun _ => keeps_modify fun _ => hf _ _

theorem deleteRule_keeps {γ : Type} {f : Db → γ} (hf : ∀ (db : Db) t, f { db with rules := t } = f db)
    (w : WorkspaceId) (id : RuleId) (expected : Nat) : Keeps f (deleteRule w id expected) :=
  keeps_bind (keeps_require _ _) fun _ => keeps_bind keeps_get fun _ => keeps_bind (keeps_require _ _) fun _ =>
    keeps_modify fun _ => hf _ _

/-- A patch is saved over the very document it was computed from. -/
theorem LibraryInv.updateArticle_snapshot (hi : LibraryInv P K s) {w : WorkspaceId} {snapshot : Article}
    {p : ArticlePatch} {u : Unit} (hmem : (w, snapshot) ∈ s.snapshots)
    (hrun : updateArticle w snapshot p s.db = .ok (u, db')) :
    s.db.articles.lookup (w, snapshot.id) = some snapshot := by
  obtain ⟨⟨b, hb, hrev⟩, -⟩ := updateArticle_ok hrun
  rw [hb, (hi.snapshot_later hmem hb).eq_of_revision hrev]

theorem LibraryInv.updateArticle_stateOnly (hi : LibraryInv P K s) {w : WorkspaceId} {snapshot : Article}
    (p : ArticlePatch) (hmem : (w, snapshot) ∈ s.snapshots) :
    wp (updateArticle w snapshot p) (fun _ db' => StateOnly s.db db') s.db := by
  intro u db' hrun
  obtain ⟨-, hle, -, hlib⟩ := updateArticle_ok hrun
  exact stateOnly_setArticle_revision (hi.updateArticle_snapshot hmem hrun) hle hlib

/-- A step is a delivery that was not skipped, or it changes the state of articles only. -/
theorem LibraryInv.step_cases (hi : LibraryInv P K s) (hinj : Set.InjOn P.fingerprint K) (hkey : op.KeyIn K)
    (hstep : s.step P visible op = some s') :
    (∃ lease now commit read subscriptions result, op = .deliver lease now commit ∧
      commit.proposedArticleId ∉ s.usedIds ∧ DeliverEffect P s.db commit read subscriptions result s'.db ∧
      s'.usedIds = commit.proposedArticleId :: s.usedIds ∧ s'.snapshots = s.snapshots) ∨
    (StateOnly s.db s'.db ∧ s.usedIds ⊆ s'.usedIds ∧
      ∀ x ∈ s'.snapshots, x ∈ s.snapshots ∨ s.db.articles.lookup (x.1, x.2.id) = some x.2) := by
  cases op with
  | deliver lease now commit =>
    simp only [LibraryWorld.step] at hstep
    split at hstep
    · cases hstep
    · rename_i hfresh
      cases hstep
      have hsub : s.usedIds ⊆ commit.proposedArticleId :: s.usedIds := List.subset_cons_self _ _
      cases hrun : deliver P lease now commit s.db with
      | error e =>
        rw [commit_of_error hrun]
        exact .inr ⟨.refl _, hsub, fun x hx => .inl hx⟩
      | ok r =>
        rw [commit_of_ok hrun]
        obtain ⟨-, ⟨-, hdb, -⟩ | ⟨t, -, -, -, hact⟩⟩ := deliver_ok hrun
        · rw [hdb]
          exact .inr ⟨.refl _, hsub, fun x hx => .inl hx⟩
        · obtain ⟨read, subscriptions, he⟩ := hi.ok.deliverActive_effect hinj hkey hact
          exact .inl ⟨lease, now, commit, read, subscriptions, _, rfl, hfresh, he, rfl, rfl⟩
  | evaluateArticleRules lease now w i evaluations =>
    cases hstep
    exact .inr ⟨commit_of_wp (.refl _) (evaluateArticleRules_stateOnly lease now i evaluations),
      List.Subset.refl _, fun x hx => .inl hx⟩
  | applyRuleBatch lease now w rule version afterId throughId limit =>
    cases hstep
    exact .inr ⟨commit_of_wp (.refl _) (applyRuleBatch_stateOnly lease now rule version afterId throughId limit),
      List.Subset.refl _, fun x hx => .inl hx⟩
  | readArticle w i =>
    cases hstep
    refine .inr ⟨.refl _, List.Subset.refl _, fun x hx => ?_⟩
    rcases List.mem_append.1 hx with hx | hx
    · obtain ⟨a, ha, rfl⟩ := List.mem_map.1 hx
      rw [Option.mem_toList] at ha
      refine .inr ?_
      simp only [hi.ok.article_id ha]
      exact ha
    · exact .inl hx
  | updateArticle w snapshot p =>
    simp only [LibraryWorld.step] at hstep
    split at hstep
    · rename_i hmem
      cases hstep
      exact .inr ⟨commit_of_wp (.refl _) (hi.updateArticle_stateOnly p hmem), List.Subset.refl _,
        fun x hx => .inl hx⟩
    · cases hstep
  | completeReading now owner w i command =>
    cases hstep
    exact .inr ⟨commit_of_wp (.refl _) (completeReading_stateOnly now owner w i command), List.Subset.refl _,
      fun x hx => .inl hx⟩
  | undoReading owner w i operation =>
    cases hstep
    exact .inr ⟨commit_of_wp (.refl _) (undoReading_stateOnly owner w i operation), List.Subset.refl _,
      fun x hx => .inl hx⟩
  | markScopeRead w scope batch =>
    cases hstep
    refine .inr ⟨commit_of_wp (P := StateOnly s.db) (.refl _) ?_, List.Subset.refl _, fun x hx => .inl hx⟩
    simp only [markScopeReadAtomic, wp_bind, wp_get]
    exact markBatches_stateOnly scope batch _ none
  | saveRule w expected rule =>
    cases hstep
    exact .inr ⟨.of_library ((saveRule_keeps (fun _ _ => rfl) w expected rule).commit s.db), List.Subset.refl _,
      fun x hx => .inl hx⟩
  | deleteRule w id expected =>
    cases hstep
    exact .inr ⟨.of_library ((deleteRule_keeps (fun _ _ => rfl) w id expected).commit s.db), List.Subset.refl _,
      fun x hx => .inl hx⟩
  | other db' =>
    simp only [LibraryWorld.step] at hstep
    split at hstep
    · rename_i hsame
      cases hstep
      exact .inr ⟨.of_library hsame.1, List.Subset.refl _, fun x hx => .inl hx⟩
    · cases hstep

/-- A document after a step is a later document of a stored article, or its id had never been proposed. -/
theorem LibraryInv.step_later (hi : LibraryInv P K s) (hinj : Set.InjOn P.fingerprint K) (hkey : op.KeyIn K)
    (hstep : s.step P visible op = some s') {k : ArticleKey} {b : Article} (hb : s'.db.articles.lookup k = some b) :
    (∃ a, s.db.articles.lookup k = some a ∧ Later a b) ∨ (k.2 ∉ s.usedIds ∧ k.2 ∈ s'.usedIds) := by
  rcases hi.step_cases hinj hkey hstep with
    ⟨lease, now, commit, read, subscriptions, result, rfl, hfresh, he, hused, -⟩ | ⟨hstate, -, -⟩
  · rcases he.later hi.ok hinj hkey hb with h | rfl
    · exact .inl h
    · exact .inr ⟨hfresh, by simp [hused]⟩
  · obtain ⟨a, ha, hab⟩ := hstate.before k b hb
    exact .inl ⟨a, ha, hab.later⟩

theorem LibraryInv.step_used (hi : LibraryInv P K s) (hinj : Set.InjOn P.fingerprint K) (hkey : op.KeyIn K)
    (hstep : s.step P visible op = some s') : s.usedIds ⊆ s'.usedIds := by
  rcases hi.step_cases hinj hkey hstep with ⟨_, _, _, _, _, _, _, _, _, hused, -⟩ | ⟨-, hsub, -⟩
  · rw [hused]
    exact List.subset_cons_self _ _
  · exact hsub

/-- What is known of a document stays true while its id is used. -/
theorem LibraryInv.step_later_of_used (hi : LibraryInv P K s) (hinj : Set.InjOn P.fingerprint K) (hkey : op.KeyIn K)
    (hstep : s.step P visible op = some s') {w : WorkspaceId} {i : ArticleId} {a : Article} (hused : i ∈ s.usedIds)
    (h : ∀ b, s.db.articles.lookup (w, i) = some b → Later a b) :
    ∀ b, s'.db.articles.lookup (w, i) = some b → Later a b := by
  intro b hb
  rcases hi.step_later hinj hkey hstep hb with ⟨c, hc, hcb⟩ | ⟨hn, -⟩
  · exact (h c hc).trans hcb
  · exact absurd hused hn

theorem LibraryInv.step (hi : LibraryInv P K s) (hinj : Set.InjOn P.fingerprint K) (hkey : op.KeyIn K)
    (hstep : s.step P visible op = some s') : LibraryInv P K s' := by
  have hsub := hi.step_used hinj hkey hstep
  have hsnap : ∀ x ∈ s'.snapshots, x ∈ s.snapshots ∨ s.db.articles.lookup (x.1, x.2.id) = some x.2 := by
    rcases hi.step_cases hinj hkey hstep with ⟨_, _, _, _, _, _, _, _, _, -, hs⟩ | ⟨-, -, hs⟩
    · intro x hx
      exact .inl (hs ▸ hx)
    · exact hs
  have husedS : ∀ {w a}, (w, a) ∈ s'.snapshots → a.id ∈ s.usedIds := by
    intro w a ha
    rcases hsnap _ ha with h | h
    · exact hi.snapshot_used h
    · exact hi.used h
  refine ⟨?_, fun {w i a} ha => ?_, fun {w a} ha => hsub (husedS ha), fun {w a b} ha hb => ?_⟩
  · rcases hi.step_cases hinj hkey hstep with
      ⟨lease, now, commit, read, subscriptions, result, rfl, hfresh, he, -, -⟩ | ⟨hstate, -, -⟩
    · refine he.libraryOk hi.ok hinj hkey ?_
      cases hl : s.db.articles.lookup (commit.target.workspaceId, commit.proposedArticleId) with
      | none => rfl
      | some a => exact absurd (hi.used hl) hfresh
    · exact hi.ok.stateOnly hstate
  · rcases hi.step_later hinj hkey hstep ha with ⟨c, hc, -⟩ | ⟨-, hnew⟩
    · exact hsub (hi.used hc)
    · exact hnew
  · refine hi.step_later_of_used hinj hkey hstep (husedS ha) (fun c hc => ?_) b hb
    rcases hsnap _ ha with h | h
    · exact hi.snapshot_later h hc
    · rw [hc] at h
      cases h
      exact .refl _

theorem LibraryEmpty.inv (h : LibraryEmpty db) : LibraryInv P K { db } := by
  refine ⟨h.ok, fun {w i a} ha => ?_, fun ha => ?_, fun ha => ?_⟩
  · simp [h.articles] at ha
  · cases ha
  · cases ha

theorem keysMet_mono {ops ops' : List LibraryOp} (h : ops ⊆ ops') : keysMet ops ⊆ keysMet ops' := by
  rintro key ⟨lease, now, commit, hmem, rfl⟩
  exact ⟨lease, now, commit, h hmem, rfl⟩

theorem keyIn_keysMet {ops : List LibraryOp} (hK : keysMet ops ⊆ K) : ∀ op ∈ ops, op.KeyIn K := by
  intro op hop
  cases op with
  | deliver lease now commit => exact hK ⟨lease, now, commit, hop, rfl⟩
  | _ => trivial

theorem LibraryInv.run {ops : List LibraryOp} (hi : LibraryInv P K s) (hinj : Set.InjOn P.fingerprint K)
    (hK : keysMet ops ⊆ K) (hrun : run (LibraryWorld.step P visible) s ops = some s') : LibraryInv P K s' :=
  run_inv (P := fun _ op => op.KeyIn K) (LibraryInv P K) (fun _ _ _ h hkey hs => h.step hinj hkey hs) hi
    (along_of_forall s (keyIn_keysMet hK)) hrun

/-- The documents of one article at two states of a run. -/
theorem LibraryInv.run_later {ops : List LibraryOp} (hi : LibraryInv P K s) (hinj : Set.InjOn P.fingerprint K)
    (hK : keysMet ops ⊆ K) (hrun : Lib.run (LibraryWorld.step P visible) s ops = some s') {w : WorkspaceId}
    {i : ArticleId} {a b : Article} (ha : s.db.articles.lookup (w, i) = some a)
    (hb : s'.db.articles.lookup (w, i) = some b) : Later a b := by
  let I : LibraryWorld → Prop := fun t => LibraryInv P K t ∧ i ∈ t.usedIds ∧
    ∀ c, t.db.articles.lookup (w, i) = some c → Later a c
  have hI : I s' := by
    refine run_inv (P := fun _ op => op.KeyIn K) I ?_ ⟨hi, hi.used ha, fun c hc => ?_⟩
      (along_of_forall s (keyIn_keysMet hK)) hrun
    · rintro t op t' ⟨h₁, h₂, h₃⟩ hkey hstep
      exact ⟨h₁.step hinj hkey hstep, h₁.step_used hinj hkey hstep h₂,
        h₁.step_later_of_used hinj hkey hstep h₂ h₃⟩
    · rw [ha] at hc
      cases hc
      exact .refl _
  exact hI.2.2 b hb

end

/-! ## A small library

One workspace with one active subscription to one source, and a leased fan-out job. -/

namespace Sample

def platform : Platform :=
  { fingerprint := fun key => key.title, hashtext := fun _ => 0
    jobUuid := fun id => match id with | .random uuid => uuid | _ => 0
    lowercase := String.toLower, parseUrl := fun _ => none }

def url : Url := { text := "https://example.com/feed", scheme := "https", host := some "example.com", port := none }

def workspace : Workspace := { id := ⟨1⟩, owner := ⟨1⟩, status := .active, revision := 0, history := [] }

def subscription (uuid : Nat) (status : SubscriptionStatus) : Subscription :=
  { id := ⟨uuid⟩, workspaceId := ⟨1⟩, sourceUrl := url, status, revision := 0, history := [] }

/-- A revision of a record; the title is the part of the key that changes. -/
def record (uuid revision : Nat) (title : String) : SourceRecord :=
  { id := ⟨uuid⟩, sourceId := ⟨1⟩, upstreamId := "item", categories := none, descriptionMediaType := none
    key := { location := .url "https://example.com/feed" url, title, description := none }
    feedContentHtml := none, publishedAt := none, revision }

def job (item : WorkItem) (token : LeaseToken) : Job :=
  { Job.new item 0 url.origin with status := .leased, leaseToken := some token, leaseDeadlineMs := some 1000 }

def fanoutJob : JobId := .record .fanout ⟨1⟩ 0

def lease : LeasedWork :=
  { jobId := fanoutJob, item := .fanOut ⟨1⟩ ⟨1⟩ none, token := ⟨1⟩, deadline := 1000000000, attempt := 0 }

def db : Db :=
  { workspaces := (∅ : Table WorkspaceId Workspace).insert ⟨1⟩ workspace
    subscriptions := (∅ : Table SubscriptionId Subscription).insert ⟨1⟩ (subscription 1 .active)
    subscriptionSources := (∅ : Table SubscriptionId SourceId).insert ⟨1⟩ ⟨1⟩
    sources := (∅ : Table SourceId SourceDefinition).insert ⟨1⟩ { id := ⟨1⟩, url, kind := .xmlFeed, revision := 0 }
    sourceRecords := (∅ : Table SourceRecordId SourceRecord).insert ⟨1⟩ (record 1 0 "first")
    ingestJobs := (∅ : Table JobId Job).insert fanoutJob (job lease.item lease.token) }

theorem db_empty : LibraryEmpty db := ⟨rfl, rfl, rfl⟩

/-- The delivery of one revision to the subscription, proposing an id. -/
def commit (r : SourceRecord) (proposed : Nat) : DeliveryCommit :=
  { target := { workspaceId := ⟨1⟩, subscriptionId := ⟨1⟩ }, record := r, proposedArticleId := ⟨proposed⟩
    deliveredAt := 5 }

/-- A record is delivered and then regrouped under a new title. -/
def regrouping : List LibraryOp :=
  [.deliver lease 5 (commit (record 1 0 "first") 1),
   .deliver lease 6 (commit (record 1 1 "second") 2)]

theorem keys_regrouping : Set.InjOn platform.fingerprint (keysMet regrouping) := by
  rintro k ⟨l, n, c, hc, rfl⟩ k' ⟨l', n', c', hc', rfl⟩ hf
  simp only [regrouping, List.mem_cons, LibraryOp.deliver.injEq, List.not_mem_nil, or_false] at hc hc'
  rcases hc with ⟨-, -, rfl⟩ | ⟨-, -, rfl⟩ <;> rcases hc' with ⟨-, -, rfl⟩ | ⟨-, -, rfl⟩ <;>
    first | rfl | exact absurd hf (by decide)

/-- The article that holds the record during the regrouping. -/
def article (title : String) (revision : Nat) : Article :=
  { id := ⟨1⟩, key := (record 1 0 title).key, state := {}, firstArrivedAt := 5, origins := [⟨1⟩], revision }

/-- The library after the first delivery. -/
def delivered : LibraryWorld :=
  { db := (deliver platform lease 5 (commit (record 1 0 "first") 1)).commit db
    usedIds := [⟨1⟩] }

end Sample
end Inoreader
