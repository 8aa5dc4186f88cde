import Inoreader.Library.Index
import Inoreader.Repository.Rules
import Inoreader.Store.Frames

/-!
# Operations that change the state of articles only

Rules and article commands keep every article's id, key, origins and arrival time; a document they
change gets a larger revision. `StateOnly` says this of a whole transaction.
-/

namespace Inoreader
open Lib Tx

/-- The document is unchanged, or its state may be and its revision has grown. -/
def StateStep (a a' : Article) : Prop :=
  a' = a ∨ (a'.id = a.id ∧ a'.key = a.key ∧ a'.origins = a.origins ∧ a'.firstArrivedAt = a.firstArrivedAt ∧
    a.revision < a'.revision ∧ a'.revision ≤ bigintMax)

/-- Every article of the library took a `StateStep`. -/
structure StateOnly (db db' : Db) : Prop where
  before : ∀ k a', db'.articles.lookup k = some a' → ∃ a, db.articles.lookup k = some a ∧ StateStep a a'
  after : ∀ k a, db.articles.lookup k = some a → ∃ a', db'.articles.lookup k = some a' ∧ StateStep a a'
  libraryDedup : db'.libraryDedup = db.libraryDedup
  libraryOrigins : db'.libraryOrigins = db.libraryOrigins

theorem StateStep.refl (a : Article) : StateStep a a := .inl rfl

theorem StateStep.trans {a b c : Article} (h : StateStep a b) (h' : StateStep b c) : StateStep a c := by
  rcases h with rfl | ⟨h₁, h₂, h₃, h₄, h₅, h₆⟩
  · exact h'
  · rcases h' with rfl | ⟨k₁, k₂, k₃, k₄, k₅, k₆⟩
    · exact .inr ⟨h₁, h₂, h₃, h₄, h₅, h₆⟩
    · exact .inr ⟨k₁.trans h₁, k₂.trans h₂, k₃.trans h₃, k₄.trans h₄, h₅.trans k₅, k₆⟩

theorem StateOnly.of_library {db db' : Db} (h : db'.library = db.library) : StateOnly db db' := by
  obtain ⟨ha, hd, ho⟩ := library_eq_iff.1 h
  refine ⟨fun k a' h' => ?_, fun k a h' => ?_, hd, ho⟩
  · exact ⟨a', ha ▸ h', .refl a'⟩
  · exact ⟨a, ha.symm ▸ h', .refl a⟩

theorem StateOnly.refl (db : Db) : StateOnly db db := .of_library rfl

theorem StateOnly.trans {db db' db'' : Db} (h : StateOnly db db') (h' : StateOnly db' db'') : StateOnly db db'' := by
  refine ⟨fun k c hc => ?_, fun k a ha => ?_, h'.libraryDedup.trans h.libraryDedup,
    h'.libraryOrigins.trans h.libraryOrigins⟩
  · obtain ⟨b, hb, hbc⟩ := h'.before k c hc
    obtain ⟨a, ha, hab⟩ := h.before k b hb
    exact ⟨a, ha, hab.trans hbc⟩
  · obtain ⟨b, hb, hab⟩ := h.after k a ha
    obtain ⟨c, hc, hbc⟩ := h'.after k b hb
    exact ⟨c, hc, hab.trans hbc⟩

/-- Storing the next document of one article. -/
theorem StateOnly.setArticle {db : Db} {k : ArticleKey} {a a' : Article} (h : db.articles.lookup k = some a)
    (hstep : StateStep a a') : StateOnly db (db.setArticle k a') := by
  refine ⟨fun k' b hb => ?_, fun k' b hb => ?_, rfl, rfl⟩
  · rw [Db.setArticle, Table.lookup_insert_if] at hb
    split at hb
    · rename_i hk
      subst hk
      cases hb
      exact ⟨a, h, hstep⟩
    · exact ⟨b, hb, .refl b⟩
  · rw [Db.setArticle, Table.lookup_insert_if]
    split
    · rename_i hk
      subst hk
      rw [h] at hb
      cases hb
      exact ⟨a', rfl, hstep⟩
    · exact ⟨b, hb, .refl b⟩

theorem LibraryOk.stateOnly {P : Platform} {K : Set DedupKey} {db db' : Db} (h : LibraryOk P K db)
    (hs : StateOnly db db') : LibraryOk P K db' := by
  -- what the invariant says of a document does not mention its state
  have hlook : ∀ {w i a'}, db'.articles.lookup (w, i) = some a' → ∃ a, db.articles.lookup (w, i) = some a ∧
      a'.id = a.id ∧ a'.key = a.key ∧ a'.origins = a.origins ∧ a'.revision ≤ bigintMax := by
    intro w i a' ha'
    obtain ⟨a, ha, rfl | ⟨h₁, h₂, h₃, -, -, h₆⟩⟩ := hs.before _ _ ha'
    · exact ⟨_, ha, rfl, rfl, rfl, h.revision_le ha⟩
    · exact ⟨a, ha, h₁, h₂, h₃, h₆⟩
  constructor
  case article_id =>
    intro w i a' ha'
    obtain ⟨a, ha, hid, -⟩ := hlook ha'
    rw [hid, h.article_id ha]
  case article_dedup =>
    intro w i a' ha'
    obtain ⟨a, ha, -, hkey, -⟩ := hlook ha'
    rw [hs.libraryDedup, hkey, h.article_dedup ha]
  case dedup_article =>
    intro w hash row hrow
    rw [hs.libraryDedup] at hrow
    obtain ⟨hh, a, ha, hkey⟩ := h.dedup_article hrow
    obtain ⟨a', ha', hstep⟩ := hs.after _ _ ha
    refine ⟨hh, a', ha', ?_⟩
    rcases hstep with rfl | ⟨-, hk, -⟩
    · exact hkey
    · rw [hk, hkey]
  case origins_ne =>
    intro w i a' ha'
    obtain ⟨a, ha, -, -, ho, -⟩ := hlook ha'
    rw [ho]
    exact h.origins_ne ha
  case origins_nodup =>
    intro w i a' ha'
    obtain ⟨a, ha, -, -, ho, -⟩ := hlook ha'
    rw [ho]
    exact h.origins_nodup ha
  case origins_rows =>
    intro w i a' r ha'
    obtain ⟨a, ha, -, -, ho, -⟩ := hlook ha'
    rw [ho, hs.libraryOrigins]
    exact h.origins_rows ha
  case row_article =>
    intro w i s r hrow
    rw [hs.libraryOrigins] at hrow
    obtain ⟨a, ha⟩ := h.row_article hrow
    obtain ⟨a', ha', -⟩ := hs.after _ _ ha
    exact ⟨a', ha'⟩
  case record_unique =>
    intro w i i' s s' r h₁ h₂
    rw [hs.libraryOrigins] at h₁ h₂
    exact h.record_unique h₁ h₂
  case key_mem =>
    intro w i a' ha'
    obtain ⟨a, ha, -, hkey, -⟩ := hlook ha'
    rw [hkey]
    exact h.key_mem ha
  case revision_le =>
    intro w i a' ha'
    obtain ⟨a, ha, -, -, -, hrev⟩ := hlook ha'
    exact hrev

/-! ## Loops over articles -/

section
variable {ε α : Type} {w : WorkspaceId}

/-- A loop over different stored articles, each turn of which steps its own article. -/
theorem wp_loop_articles {f : α → ArticleId × Article → Tx Db ε α} {rows : List (ArticleId × Article)}
    (hf : ∀ acc db, ∀ row ∈ rows, db.articles.lookup (w, row.1) = some row.2 →
      wp (f acc row) (fun _ db' => StateOnly db db' ∧
        ∀ i, i ≠ row.1 → db'.articles.lookup (w, i) = db.articles.lookup (w, i)) db)
    (hnd : (rows.map (·.1)).Nodup) {acc : α} {db : Db}
    (hrows : ∀ row ∈ rows, db.articles.lookup (w, row.1) = some row.2) :
    wp (loop f acc rows) (fun _ db' => StateOnly db db') db := by
  induction rows generalizing acc db with
  | nil => simpa [loop] using StateOnly.refl db
  | cons row rows ih =>
    rw [List.map_cons, List.nodup_cons] at hnd
    simp only [loop, wp_bind]
    refine wp_mono (hf acc db row (by simp) (hrows row (by simp))) fun acc' db' hturn => ?_
    obtain ⟨hstep, hother⟩ := hturn
    have htail : ∀ r ∈ rows, db'.articles.lookup (w, r.1) = some r.2 := by
      intro r hr
      rw [hother r.1 fun he => hnd.1 (he ▸ List.mem_map_of_mem hr)]
      exact hrows r (by simp [hr])
    refine wp_mono (ih (fun a d r hr => hf a d r (by simp [hr])) hnd.2 htail) fun _ _ h => hstep.trans h

theorem mem_workspaceArticles {db : Db} {row : ArticleId × Article} :
    row ∈ db.workspaceArticles w ↔ db.articles.lookup (w, row.1) = some row.2 := by
  obtain ⟨i, a⟩ := row
  unfold Db.workspaceArticles
  rw [List.mem_insertionSort, ← Table.mem_rows]
  simp only [List.mem_map, List.mem_filter, decide_eq_true_eq, Prod.mk.injEq]
  constructor
  · rintro ⟨⟨⟨w', j⟩, b⟩, ⟨hb, rfl⟩, rfl, rfl⟩
    exact hb
  · exact fun h => ⟨((w, i), a), ⟨h, rfl⟩, rfl, rfl⟩

theorem nodup_workspaceArticles (db : Db) : ((db.workspaceArticles w).map (·.1)).Nodup := by
  unfold Db.workspaceArticles
  rw [((List.perm_insertionSort _ _).map _).nodup_iff, List.map_map]
  have hsub : ((db.articles.rows.filter (·.1.1 = w)).map (·.1)).Nodup :=
    db.articles.nodup_rows.sublist (List.filter_sublist.map _)
  rw [List.Nodup, List.pairwise_map] at hsub ⊢
  refine hsub.imp_of_mem fun {x y} hx hy hne => ?_
  have hwx : x.1.1 = w := by simpa using (List.mem_filter.1 hx).2
  have hwy : y.1.1 = w := by simpa using (List.mem_filter.1 hy).2
  exact fun he => hne (Prod.ext (hwx.trans hwy.symm) he)

/-- The ids of a workspace's articles, in order. -/
theorem articleIds_increasing (db : Db) (w : WorkspaceId) :
    ((db.workspaceArticles w).map (·.1)).Pairwise fun x y => x.uuid < y.uuid := by
  have hsorted : (db.workspaceArticles w).Pairwise fun x y => x.1.uuid ≤ y.1.uuid :=
    List.pairwise_insertionSort (fun x y : ArticleId × Article => x.1.uuid ≤ y.1.uuid) _
  have hle : ((db.workspaceArticles w).map (·.1)).Pairwise fun x y => x.uuid ≤ y.uuid := List.pairwise_map.2 hsorted
  refine (hle.and (nodup_workspaceArticles db)).imp fun {x y} h => ?_
  refine lt_of_le_of_ne h.1 fun he => h.2 ?_
  obtain ⟨x⟩ := x
  obtain ⟨y⟩ := y
  exact congrArg ArticleId.mk he

end

/-! ## Rules -/

section
variable {P : Platform} {w : WorkspaceId} {db : Db}

theorem storeState_stateOnly {k : ArticleKey} {a : Article} (state : ArticleState)
    (h : db.articles.lookup k = some a) :
    wp (storeState k a state) (fun _ db' => StateOnly db db' ∧
      ∀ k', k' ≠ k → db'.articles.lookup k' = db.articles.lookup k') db := by
  unfold storeState
  simp only [wp_ite, wp_pure, wp_bind, toI64, wp_require, wp_modify]
  split
  · exact ⟨.refl db, fun _ _ => trivial⟩
  · intro hrev
    refine ⟨.setArticle h (.inr ⟨rfl, rfl, rfl, rfl, ?_, hrev⟩), fun k' hk => ?_⟩
    · -- the saturated value does not fit the column, so the addition did not saturate
      simp only [bigintMax] at hrev
      show a.revision < min (a.revision + 1) (2 ^ 64 - 1)
      omega
    · rw [Db.setArticle, Table.lookup_insert_if, if_neg hk]

theorem evaluateArticleRules_stateOnly (lease : LeasedWork) (now : DateTime) (i : ArticleId)
    (evaluations : List PendingRuleEvaluation) :
    wp (evaluateArticleRules P lease now w i evaluations) (fun _ db' => StateOnly db db') db := by
  intro u db' hrun
  unfold evaluateArticleRules at hrun
  obtain ⟨_, -, hrun⟩ := (bind_ok_of_reads (assertLease_keeps _ _)).1 hrun
  rw [bind_run, get_run] at hrun
  cases ha : db.articles.lookup (w, i) with
  | none =>
    simp only [ha] at hrun
    cases hrun
    exact .refl _
  | some a =>
    simp only [ha] at hrun
    obtain ⟨⟨fullText, generations⟩, -, hrun⟩ := (bind_ok_of_reads (articleFullText_keeps a)).1 hrun
    obtain ⟨state, db₁, h₁, hrun⟩ := bind_ok.1 hrun
    have e : db₁.library = db.library := by
      refine keeps_loop (f := Db.library) (fun state pending => ?_) _ _ _ _ _ h₁
      split
      · exact keeps_pure _
      · refine keeps_bind (keeps_require _ _) fun _ => keeps_ite ?_ (keeps_pure _)
        exact keeps_bind (keeps_require _ _) fun _ =>
          keeps_bind (upsertRuleEvaluation_keeps (fun _ _ => rfl) _ _ _ _ _) fun _ => keeps_pure _
    have ha₁ : db₁.articles.lookup (w, i) = some a := by rw [(library_eq_iff.1 e).1, ha]
    exact (StateOnly.of_library e).trans (storeState_stateOnly state ha₁ _ _ hrun).1

theorem applyRuleBatch_stateOnly (lease : LeasedWork) (now : DateTime) (ruleId : RuleId) (version : Nat)
    (afterId throughId : Option ArticleId) (limit : Nat) :
    wp (applyRuleBatch P lease now w ruleId version afterId throughId limit) (fun _ db' => StateOnly db db') db := by
  intro u db' hrun
  unfold applyRuleBatch at hrun
  obtain ⟨_, -, hrun⟩ := (bind_ok_of_reads (assertLease_keeps _ _)).1 hrun
  rw [bind_run, get_run] at hrun
  cases hrule : db.rules.lookup (w, ruleId) with
  | none =>
    simp only [hrule] at hrun
    cases hrun
    exact .refl _
  | some rule =>
    simp only [hrule] at hrun
    obtain ⟨-, hrun⟩ := bind_require_ok.1 hrun
    split at hrun
    · cases hrun
      exact .refl _
    · cases hthrough : throughId.or ((db.workspaceArticles w).getLast?.map (·.1)) with
      | none =>
        simp only [hthrough] at hrun
        cases hrun
        exact .refl _
      | some through =>
        simp only [hthrough] at hrun
        obtain ⟨last, db₁, h₁, hrun⟩ := bind_ok.1 hrun
        obtain ⟨_, db₂, h₂, hrun⟩ := bind_ok.1 hrun
        cases hrun
        have e₂ : db'.library = db₁.library := by
          refine keeps_onlyIf (f := Db.library) ?_ _ _ _ h₂
          unfold enqueueNextBatch
          split
          · exact keeps_pure _
          · exact keeps_onlyIf (enqueueWork_keeps (fun _ _ _ => rfl) _ _ _)
        refine StateOnly.trans ?_ (.of_library e₂)
        have hsub : ∀ row ∈ ((db.workspaceArticles w).filter fun row =>
            afterId.all (·.uuid < row.1.uuid) ∧ row.1.uuid ≤ through.uuid).take limit,
            db.articles.lookup (w, row.1) = some row.2 := fun row hrow =>
          mem_workspaceArticles.1 (List.mem_filter.1 (List.mem_of_mem_take hrow)).1
        refine wp_loop_articles (w := w) (fun acc d row _ hstored => ?_)
          ((nodup_workspaceArticles db).sublist (((List.take_sublist _ _).trans List.filter_sublist).map _))
          hsub _ _ h₁
        intro acc' d' hturn
        obtain ⟨⟨fullText, _⟩, -, hturn⟩ := (bind_ok_of_reads (articleFullText_keeps _)).1 hturn
        obtain ⟨_, -, hturn⟩ := (bind_ok_of_reads (keeps_require _ _)).1 hturn
        obtain ⟨_, d₁, k₁, hturn⟩ := bind_ok.1 hturn
        obtain ⟨hstep, hother⟩ := storeState_stateOnly _ hstored _ _ k₁
        obtain ⟨_, d₂, k₂, hturn⟩ := bind_ok.1 hturn
        have f₂ : d₂.library = d₁.library := upsertRuleEvaluation_keeps (fun _ _ => rfl) _ _ _ _ _ _ _ _ k₂
        cases hturn
        refine ⟨hstep.trans (.of_library f₂), fun i hi => ?_⟩
        rw [(library_eq_iff.1 f₂).1]
        exact hother _ fun he => hi (congrArg Prod.snd he)

end

/-! ## Article commands -/

section
variable {γ : Type} {f : Db → γ} {w : WorkspaceId} {db db' : Db} {i : ArticleId}

theorem recordRead_keeps (hf : ∀ (db : Db) t, f { db with articleReadEvents := t } = f db) (key : ArticleKey)
    (revision : Nat) (method : ReadMethod) : Keeps f (recordRead key revision method) :=
  keeps_bind (keeps_require _ _) fun _ => keeps_bind keeps_get fun _ => keeps_bind (keeps_require _ _) fun _ =>
    keeps_modify fun _ => hf _ _

theorem writeRating_keeps (hf : ∀ (db : Db) t, f { db with articleRatings := t } = f db) (key : ArticleKey)
    (state : ReadingState) : Keeps f (writeRating key state) := by
  unfold writeRating
  split
  · exact keeps_modify fun _ => hf _ _
  · exact keeps_bind (keeps_require _ _) fun _ => keeps_modify fun _ => hf _ _

theorem lockedArticle_keeps (owner : AccountId) (w : WorkspaceId) (i : ArticleId) :
    Keeps f (lockedArticle owner w i) :=
  keeps_bind keeps_get fun _ => keeps_bind (keeps_orThrow _ _) fun _ => keeps_bind (keeps_require _ _) fun _ =>
    keeps_bind (keeps_orThrow _ _) fun _ => keeps_bind (keeps_require _ _) fun _ => keeps_pure _

theorem findReceipt_keeps (owner : AccountId) (operation : Nat) (key : ArticleKey) :
    Keeps f (findReceipt owner operation key) := by
  refine keeps_bind keeps_get fun d => ?_
  split
  · exact keeps_pure _
  · exact keeps_bind (keeps_require _ _) fun _ => keeps_pure _

theorem lockedArticle_ok {owner : AccountId} {a : Article} (h : lockedArticle owner w i db = .ok (a, db')) :
    db.articles.lookup (w, i) = some a ∧ a.id = i := by
  unfold lockedArticle at h
  rw [bind_run, get_run] at h
  obtain ⟨_, -, h⟩ := bind_orThrow_ok.1 h
  obtain ⟨-, h⟩ := bind_require_ok.1 h
  obtain ⟨b, hb, h⟩ := bind_orThrow_ok.1 h
  obtain ⟨hid, h⟩ := bind_require_ok.1 h
  cases h
  exact ⟨hb, hid⟩

theorem findReceipt_ok {owner : AccountId} {operation : Nat} {key : ArticleKey} {o : Option Receipt}
    (h : findReceipt owner operation key db = .ok (o, db')) :
    db.readingCompletions.lookup (owner, operation) = o.map (key, ·) := by
  unfold findReceipt at h
  rw [bind_run, get_run] at h
  cases hr : db.readingCompletions.lookup (owner, operation) with
  | none =>
    simp only [hr] at h
    cases h
    rfl
  | some row =>
    simp only [hr] at h
    obtain ⟨hk, h⟩ := bind_require_ok.1 h
    cases h
    simp [← hk]

/-- A patch is saved over a document with the revision of its snapshot. -/
theorem updateArticle_ok {snapshot : Article} {p : ArticlePatch} {u : Unit}
    (h : updateArticle w snapshot p db = .ok (u, db')) :
    (∃ b, db.articles.lookup (w, snapshot.id) = some b ∧ b.revision = snapshot.revision) ∧
      snapshot.revision + 1 ≤ bigintMax ∧ db'.readingCompletions = db.readingCompletions ∧
      db'.library = (db.setArticle (w, snapshot.id)
        { snapshot with revision := snapshot.revision + 1, state := p.apply snapshot.state }).library := by
  unfold updateArticle at h
  obtain ⟨-, h⟩ := bind_require_ok.1 h
  unfold saveArticle at h
  rw [bind_run, get_run] at h
  obtain ⟨_, d₁, h₁, h⟩ := bind_ok.1 h
  have hcas : (∃ b, db.articles.lookup (w, snapshot.id) = some b ∧ b.revision = snapshot.revision) ∧
      snapshot.revision + 1 ≤ bigintMax ∧ d₁ = db.setArticle (w, snapshot.id)
        { snapshot with revision := snapshot.revision + 1, state := p.apply snapshot.state } := by
    unfold casArticle at h₁
    obtain ⟨hrev, h₁⟩ := bind_require_ok.1 h₁
    rw [bind_run, get_run] at h₁
    unfold requireRevision at h₁
    obtain ⟨_, d₂, h₂, h₁⟩ := bind_ok.1 h₁
    obtain ⟨-, h₂⟩ := bind_require_ok.1 h₂
    unfold require at h₂
    split at h₂
    · rename_i hstored
      cases h₂
      cases h₁
      obtain ⟨b, hb, hbr⟩ := Option.map_eq_some_iff.1 hstored
      exact ⟨⟨b, hb, hbr⟩, hrev, rfl⟩
    · cases h₂
  refine ⟨hcas.1, hcas.2.1, ?_, ?_⟩
  · rw [keeps_onlyIf (f := Db.readingCompletions) (recordRead_keeps (fun _ _ => rfl) _ _ _) _ _ _ h, hcas.2.2]
    rfl
  · rw [keeps_onlyIf (f := Db.library) (recordRead_keeps (fun _ _ => rfl) _ _ _) _ _ _ h, hcas.2.2]

theorem stateOnly_setArticle_revision {a : Article} {state : ArticleState} (ha : db.articles.lookup (w, i) = some a)
    (hrev : a.revision + 1 ≤ bigintMax) (hlib : db'.library =
      (db.setArticle (w, i) { a with revision := a.revision + 1, state }).library) : StateOnly db db' := by
  have hstep : StateStep a { a with revision := a.revision + 1, state } :=
    .inr ⟨rfl, rfl, rfl, rfl, Nat.lt_succ_self _, hrev⟩
  exact (StateOnly.setArticle ha hstep).trans (.of_library hlib)

theorem nextRevision_ok {n m : Nat} (h : nextRevision n db = .ok (m, db')) :
    m = n + 1 ∧ n + 1 ≤ bigintMax ∧ db' = db := by
  unfold nextRevision at h
  obtain ⟨-, h⟩ := bind_require_ok.1 h
  obtain ⟨hm, h⟩ := bind_require_ok.1 h
  cases h
  exact ⟨rfl, hm, rfl⟩

/-- Completing a reading replays its receipt, or marks the expected revision read and stores a receipt. -/
theorem completeReading_ok {now : DateTime} {owner : AccountId} {command : CompleteReading}
    {result : ReadingCompletion} (h : completeReading now owner w i command db = .ok (result, db')) :
    (db' = db ∧ db.readingCompletions.lookup (owner, command.operationId) ≠ none) ∨
    ∃ a receipt, db.articles.lookup (w, i) = some a ∧ a.revision = command.expectedRevision ∧
      a.revision + 1 ≤ bigintMax ∧
      db.readingCompletions.lookup (owner, command.operationId) = none ∧
      receipt.completed = result ∧ result.state.revision = a.revision + 1 ∧
      db'.readingCompletions = db.readingCompletions.insert (owner, command.operationId) ((w, i), receipt) ∧
      db'.library = (db.setArticle (w, i)
        { a with revision := a.revision + 1, state := { a.state with read := true } }).library := by
  unfold completeReading at h
  obtain ⟨a, hlock, h⟩ := (bind_ok_of_reads (lockedArticle_keeps _ _ _)).1 h
  obtain ⟨o, hrec, h⟩ := (bind_ok_of_reads (findReceipt_keeps _ _ _)).1 h
  obtain ⟨ha, -⟩ := lockedArticle_ok hlock
  have hr := findReceipt_ok hrec
  cases o with
  | some receipt =>
    simp only at h
    obtain ⟨-, h⟩ := bind_require_ok.1 h
    cases h
    exact .inl ⟨rfl, by simp [hr]⟩
  | none =>
    simp only at h
    obtain ⟨⟨hexp, -⟩, h⟩ := bind_require_ok.1 h
    have hsnap : Keeps (fun d => d) (readingSnapshot (w, i) a) :=
      keeps_bind keeps_get fun _ => keeps_bind (keeps_require _ _) fun _ => keeps_pure _
    obtain ⟨previous, -, h⟩ := (bind_ok_of_reads hsnap).1 h
    have hnext : Keeps (fun d => d) (nextRevision a.revision) := fun _ _ _ h => (nextRevision_ok h).2.2
    obtain ⟨revision, hnr, h⟩ := (bind_ok_of_reads hnext).1 h
    obtain ⟨rfl, hle, -⟩ := nextRevision_ok hnr
    rw [bind_run, modify_run] at h
    simp only [writeArticle] at h
    obtain ⟨_, d₁, h₁, h⟩ := bind_ok.1 h
    obtain ⟨-, h₁⟩ := bind_require_ok.1 h₁
    cases h₁
    obtain ⟨_, d₂, h₂, h⟩ := bind_ok.1 h
    obtain ⟨_, d₃, h₃, h⟩ := bind_ok.1 h
    cases h
    have l₂ := writeRating_keeps (f := Db.library) (fun _ _ => rfl) _ _ _ _ _ h₂
    have l₃ := recordRead_keeps (f := Db.library) (fun _ _ => rfl) _ _ _ _ _ _ h₃
    have c₂ := writeRating_keeps (f := Db.readingCompletions) (fun _ _ => rfl) _ _ _ _ _ h₂
    have c₃ := recordRead_keeps (f := Db.readingCompletions) (fun _ _ => rfl) _ _ _ _ _ _ h₃
    exact .inr ⟨a, _, ha, hexp, hle, hr, rfl, rfl, c₃.trans c₂, l₃.trans l₂⟩

/-- Undoing a reading replays its outcome, or restores the state over the completed revision. -/
theorem undoReading_ok {owner : AccountId} {operation : Nat} {result : ReadingCompletion}
    (h : undoReading owner w i operation db = .ok (result, db')) :
    ∃ receipt, db.readingCompletions.lookup (owner, operation) = some ((w, i), receipt) ∧
    ((db' = db ∧ receipt.undone = some result) ∨
      (receipt.undone = none ∧ ∃ a state, db.articles.lookup (w, i) = some a ∧
        a.revision = receipt.completed.state.revision ∧ a.revision + 1 ≤ bigintMax ∧
        db'.readingCompletions = db.readingCompletions.insert (owner, operation)
          ((w, i), { receipt with undone := some result }) ∧
        db'.library = (db.setArticle (w, i) { a with revision := a.revision + 1, state }).library)) := by
  unfold undoReading at h
  obtain ⟨a, hlock, h⟩ := (bind_ok_of_reads (lockedArticle_keeps _ _ _)).1 h
  obtain ⟨o, hrec, h⟩ := (bind_ok_of_reads (findReceipt_keeps _ _ _)).1 h
  obtain ⟨ha, -⟩ := lockedArticle_ok hlock
  have hr := findReceipt_ok hrec
  obtain ⟨receipt, hsome, h⟩ := bind_orThrow_ok.1 h
  rw [hsome] at hr
  refine ⟨receipt, hr, ?_⟩
  cases hu : receipt.undone with
  | some done =>
    simp only [hu] at h
    cases h
    exact .inl ⟨rfl, rfl⟩
  | none =>
    simp only [hu] at h
    obtain ⟨hexp, h⟩ := bind_require_ok.1 h
    have hnext : Keeps (fun d => d) (nextRevision a.revision) := fun _ _ _ h => (nextRevision_ok h).2.2
    obtain ⟨revision, hnr, h⟩ := (bind_ok_of_reads hnext).1 h
    obtain ⟨rfl, hle, -⟩ := nextRevision_ok hnr
    simp only [writeArticle] at h
    obtain ⟨_, d₁, h₁, h⟩ := bind_ok.1 h
    obtain ⟨-, h₁⟩ := bind_require_ok.1 h₁
    cases h₁
    obtain ⟨_, d₂, h₂, h⟩ := bind_ok.1 h
    rw [bind_run, modify_run] at h
    cases h
    have l₂ := writeRating_keeps (f := Db.library) (fun _ _ => rfl) _ _ _ _ _ h₂
    have c₂ := writeRating_keeps (f := Db.readingCompletions) (fun _ _ => rfl) _ _ _ _ _ h₂
    refine .inr ⟨rfl, a, _, ha, hexp, hle, ?_, l₂⟩
    show d₂.readingCompletions.insert _ _ = _
    rw [c₂]
    rfl

variable {visible : Db → WorkspaceId → Article → Bool}

theorem markValue_stateOnly (affected : Nat) (value : ArticleId × Nat) :
    wp (markValue w affected value) (fun _ db' => StateOnly db db') db := by
  intro n d hrun
  unfold markValue at hrun
  rw [bind_run, get_run] at hrun
  dsimp only at hrun
  cases ha : db.articles.lookup (w, value.1) with
  | none =>
    simp only [ha] at hrun
    cases hrun
    exact .refl _
  | some a =>
    simp only [ha] at hrun
    split at hrun
    · rename_i hvalue
      rw [bind_run, modify_run] at hrun
      obtain ⟨_, d₁, hrecord, hrun⟩ := bind_ok.1 hrun
      cases hrun
      have hle : value.2 ≤ bigintMax := (bind_require_ok.1 hrecord).1
      have hlib := recordRead_keeps (f := Db.library) (fun _ _ => rfl) _ _ _ _ _ _ hrecord
      rw [← hvalue.1] at hle hlib
      exact stateOnly_setArticle_revision ha hle hlib
    · cases hrun
      exact .refl _

theorem markRows_stateOnly (rows : List (ArticleId × Article)) : wp (markRows w rows) (fun _ db' => StateOnly db db') db := by
  intro u d hrun
  obtain ⟨values, d₁, hvalues, hrun⟩ := bind_ok.1 hrun
  have hkeeps : Keeps (fun d : Db => d) (loop (fun values row => selectedValue row >>= fun value =>
      pure (values ++ [value])) ([] : List (ArticleId × Nat)) rows : RepoTx _) :=
    keeps_loop (fun _ _ => keeps_bind (keeps_bind (keeps_require _ _) fun _ => keeps_bind (keeps_require _ _) fun _ =>
      keeps_bind (keeps_require _ _) fun _ => keeps_pure _) fun _ => keeps_pure _) _ _
  have hd : d₁ = db := hkeeps _ _ _ hvalues
  rw [hd] at hrun
  refine wp_loop (fun _ d => StateOnly db d) (fun _ d' chunk _ hstate => ?_) (StateOnly.refl db) u d hrun
  intro u' d'' hchunk
  obtain ⟨n, d₂, hloop, hrequire⟩ := bind_ok.1 hchunk
  obtain ⟨-, rfl⟩ := require_ok.1 hrequire
  refine wp_loop (fun _ d => StateOnly db d) (fun n d value _ h => ?_) hstate n d'' hloop
  exact wp_mono (markValue_stateOnly n value) fun _ _ h' => h.trans h'

theorem markBatches_stateOnly (scope : ArticleScope) (batch bound : Nat) (after : Option ArticleId) :
    wp (markBatches visible w scope batch bound after) (fun _ db' => StateOnly db db') db := by
  induction bound generalizing after db with
  | zero => simpa [markBatches] using StateOnly.refl db
  | succ bound ih =>
    intro u d hrun
    simp only [markBatches] at hrun
    rw [bind_run, get_run] at hrun
    cases hlast : ((db.unreadInScope visible w scope after).take batch).getLast? with
    | none =>
      simp only [hlast] at hrun
      cases hrun
      exact .refl _
    | some last =>
      simp only [hlast] at hrun
      obtain ⟨_, d₁, h₁, hrun⟩ := bind_ok.1 hrun
      exact (markRows_stateOnly _ _ _ h₁).trans (ih _ _ _ hrun)

theorem markRows_keeps (hf : ∀ (db : Db) t, f { db with articles := t } = f db)
    (hf' : ∀ (db : Db) t, f { db with articleReadEvents := t } = f db) (rows : List (ArticleId × Article)) :
    Keeps f (markRows w rows) := by
  have hvalue : ∀ (n : Nat) (value : ArticleId × Nat), Keeps f (markValue w n value) := by
    intro n value
    refine keeps_bind keeps_get fun db => ?_
    dsimp only
    split
    · exact keeps_pure _
    · refine keeps_ite (keeps_bind (keeps_modify fun _ => hf _ _) fun _ => ?_) (keeps_pure _)
      exact keeps_bind (recordRead_keeps hf' _ _ _) fun _ => keeps_pure _
  refine keeps_bind (keeps_loop (fun _ row => ?_) _ _) fun values => keeps_loop (fun _ chunk => ?_) _ _
  · refine keeps_bind (keeps_bind (keeps_require _ _) fun _ => ?_) fun _ => keeps_pure _
    exact keeps_bind (keeps_require _ _) fun _ => keeps_bind (keeps_require _ _) fun _ => keeps_pure _
  · exact keeps_bind (keeps_loop hvalue _ _) fun _ => keeps_require _ _

theorem markBatches_keeps (hf : ∀ (db : Db) t, f { db with articles := t } = f db)
    (hf' : ∀ (db : Db) t, f { db with articleReadEvents := t } = f db) (scope : ArticleScope) (batch bound : Nat)
    (after : Option ArticleId) : Keeps f (markBatches visible w scope batch bound after) := by
  induction bound generalizing after with
  | zero => exact keeps_pure _
  | succ bound ih =>
    refine keeps_bind keeps_get fun db => ?_
    simp only
    split
    · exact keeps_pure _
    · exact keeps_bind (markRows_keeps hf hf' _) fun _ => ih _

end
end Inoreader
