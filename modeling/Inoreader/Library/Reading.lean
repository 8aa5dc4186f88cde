import Inoreader.Library.Revisions

/-!
# Completing and undoing a reading (`repository/focused_reading.rs`)

A receipt is written once, and an undo only adds its own outcome to it. What a completion changes of an article and of
its rating is in the receipt, so an undo over the completed revision puts it back.
-/

namespace Inoreader
open Lib Tx

/-- The document that a completion writes. -/
def Article.completed (a : Article) : Article :=
  { a with revision := a.revision + 1, state := { a.state with read := true } }

/-- The reading state of an article before a completion. -/
def Db.readingState (db : Db) (key : ArticleKey) (a : Article) : ReadingState :=
  { revision := a.revision, read := a.state.read, rating := (db.articleRatings.lookup key).bind (·.rating)
    ratedAt := (db.articleRatings.lookup key).map (·.ratedAt), reason := (db.articleRatings.lookup key).bind (·.reason) }

/-- The receipt of a later state: the same one, with the outcome of an undo perhaps. -/
structure Receipt.Kept (r r' : Receipt) : Prop where
  command : r'.command = r.command
  previous : r'.previous = r.previous
  previousProtectUnread : r'.previousProtectUnread = r.previousProtectUnread
  completed : r'.completed = r.completed
  undone : ∀ u, r.undone = some u → r'.undone = some u

theorem Receipt.Kept.refl (r : Receipt) : r.Kept r := ⟨rfl, rfl, rfl, rfl, fun _ h => h⟩

theorem Receipt.Kept.trans {r r' r'' : Receipt} (h : r.Kept r') (h' : r'.Kept r'') : r.Kept r'' :=
  ⟨h'.command.trans h.command, h'.previous.trans h.previous, h'.previousProtectUnread.trans h.previousProtectUnread,
    h'.completed.trans h.completed, fun u hu => h'.undone u (h.undone u hu)⟩

/-- Every receipt is there later, under its operation and for its article. -/
def Db.KeepsReceipts (db db' : Db) : Prop :=
  ∀ key k r, db.readingCompletions.lookup key = some (k, r) →
    ∃ r', db'.readingCompletions.lookup key = some (k, r') ∧ r.Kept r'

section
variable {P : Platform} {visible : Db → WorkspaceId → Article → Bool} {K : Set DedupKey} {s s' : LibraryWorld}
  {op : LibraryOp} {db db' : Db} {owner : AccountId} {w : WorkspaceId} {i : ArticleId} {command : CompleteReading}
  {result : ReadingCompletion} {now : DateTime}

theorem Db.KeepsReceipts.of_eq (h : db'.readingCompletions = db.readingCompletions) : db.KeepsReceipts db' := by
  intro key k r hr
  rw [← h] at hr
  exact ⟨r, hr, .refl r⟩

theorem Db.KeepsReceipts.trans {db'' : Db} (h : db.KeepsReceipts db') (h' : db'.KeepsReceipts db'') :
    db.KeepsReceipts db'' := by
  intro key k r hr
  obtain ⟨r', hr', hkept⟩ := h key k r hr
  obtain ⟨r'', hr'', hkept'⟩ := h' key k r' hr'
  exact ⟨r'', hr'', hkept.trans hkept'⟩

theorem completeReading_keepsReceipts (hrun : completeReading now owner w i command db = .ok (result, db')) :
    db.KeepsReceipts db' := by
  rcases completeReading_ok hrun with ⟨rfl, -⟩ | ⟨a, receipt, -, -, -, hfree, -, -, hrows, -⟩
  · exact .of_eq rfl
  · intro key k r hr
    refine ⟨r, ?_, .refl r⟩
    rw [hrows, Table.lookup_insert_if, if_neg]
    · exact hr
    · rintro rfl
      rw [hfree] at hr
      cases hr

theorem undoReading_keepsReceipts {operation : Nat} (hrun : undoReading owner w i operation db = .ok (result, db')) :
    db.KeepsReceipts db' := by
  obtain ⟨receipt, hrec, ⟨rfl, -⟩ | ⟨hundone, a, state, -, -, -, hrows, -⟩⟩ := undoReading_ok hrun
  · exact .of_eq rfl
  · intro key k r hr
    rw [hrows, Table.lookup_insert_if]
    split
    · rename_i hkey
      rw [hkey, hrec] at hr
      cases hr
      refine ⟨_, rfl, rfl, rfl, rfl, rfl, fun u hu => ?_⟩
      rw [hundone] at hu
      cases hu
    · exact ⟨r, hr, .refl r⟩

theorem keepsReceipts_step (hstep : s.step P visible op = some s') : s.db.KeepsReceipts s'.db := by
  cases op with
  | deliver lease now commit =>
    simp only [LibraryWorld.step] at hstep
    split at hstep
    · cases hstep
    · cases hstep
      exact .of_eq ((deliver_keeps (f := Db.readingCompletions) (by refine ⟨⟨?_, ?_, ?_⟩, ?_, ?_, ?_, ?_⟩ <;> intros <;> rfl)
        lease now commit).commit s.db)
  | evaluateArticleRules lease now w i evaluations =>
    cases hstep
    exact .of_eq ((evaluateArticleRules_keeps (f := Db.readingCompletions) (by constructor <;> intros <;> rfl)
      lease now w i evaluations).commit s.db)
  | applyRuleBatch lease now w rule version afterId throughId limit =>
    cases hstep
    exact .of_eq ((applyRuleBatch_keeps (f := Db.readingCompletions) (by constructor <;> intros <;> rfl)
      lease now w rule version afterId throughId limit).commit s.db)
  | readArticle w i =>
    cases hstep
    exact .of_eq rfl
  | updateArticle w snapshot p =>
    simp only [LibraryWorld.step] at hstep
    split at hstep
    · cases hstep
      exact commit_of_wp (P := fun d => s.db.KeepsReceipts d) (.of_eq rfl)
        fun _ _ hrun => .of_eq (updateArticle_ok hrun).2.2.1
    · cases hstep
  | completeReading now owner w i command =>
    cases hstep
    exact commit_of_wp (P := fun d => s.db.KeepsReceipts d) (.of_eq rfl) fun _ _ hrun => completeReading_keepsReceipts hrun
  | undoReading owner w i operation =>
    cases hstep
    exact commit_of_wp (P := fun d => s.db.KeepsReceipts d) (.of_eq rfl) fun _ _ hrun => undoReading_keepsReceipts hrun
  | markScopeRead w scope batch =>
    cases hstep
    refine .of_eq (Keeps.commit (f := Db.readingCompletions) ?_ s.db)
    exact keeps_bind keeps_get fun _ => markBatches_keeps (fun _ _ => rfl) (fun _ _ => rfl) _ _ _ _
  | saveRule w expected rule =>
    cases hstep
    exact .of_eq ((saveRule_keeps (f := Db.readingCompletions) (fun _ _ => rfl) w expected rule).commit s.db)
  | deleteRule w id expected =>
    cases hstep
    exact .of_eq ((deleteRule_keeps (f := Db.readingCompletions) (fun _ _ => rfl) w id expected).commit s.db)
  | other db' =>
    simp only [LibraryWorld.step] at hstep
    split at hstep
    · rename_i hsame
      cases hstep
      exact .of_eq hsame.2.2.1
    · cases hstep

theorem keepsReceipts_run {ops : List LibraryOp} (hrun : run (LibraryWorld.step P visible) s ops = some s') :
    s.db.KeepsReceipts s'.db :=
  run_inv' (fun t => s.db.KeepsReceipts t.db) (fun _ _ _ h hstep => h.trans (keepsReceipts_step hstep)) (.of_eq rfl) hrun

/-! ## Replays -/

section
variable {operation : Nat} {key k : ArticleKey} {a : Article} {r : Receipt}

theorem findReceipt_none (h : db.readingCompletions.lookup (owner, operation) = none) :
    findReceipt owner operation key db = .ok (none, db) := by
  unfold findReceipt
  rw [bind_of_ok (get_run db)]
  simp only [h]
  rfl

theorem findReceipt_same (h : db.readingCompletions.lookup (owner, operation) = some (key, r)) :
    findReceipt owner operation key db = .ok (some r, db) := by
  unfold findReceipt
  rw [bind_of_ok (get_run db)]
  simp only [h]
  exact bind_of_ok (require_pos rfl)

theorem findReceipt_other (h : db.readingCompletions.lookup (owner, operation) = some (k, r)) (hk : k ≠ key) :
    findReceipt owner operation key db = .error .conflict := by
  unfold findReceipt
  rw [bind_of_ok (get_run db)]
  simp only [h]
  exact bind_of_error (require_neg hk)

/-- An operation that is known answers with what it has stored, to its own command for its own article. -/
theorem completeReading_known (hlock : lockedArticle owner w i db = .ok (a, db))
    (h : db.readingCompletions.lookup (owner, command.operationId) = some (k, r)) :
    completeReading now owner w i command db =
      if k = (w, i) ∧ r.command = command then .ok (r.undone.getD r.completed, db) else .error .conflict := by
  unfold completeReading
  rw [bind_of_ok hlock]
  by_cases hk : k = (w, i)
  · subst hk
    rw [bind_of_ok (findReceipt_same h)]
    by_cases hcommand : r.command = command
    · rw [if_pos ⟨rfl, hcommand⟩]
      exact bind_of_ok (require_pos hcommand)
    · rw [if_neg fun h => hcommand h.2]
      exact bind_of_error (require_neg hcommand)
  · rw [if_neg fun h => hk h.1]
    exact bind_of_error (findReceipt_other h hk)

theorem undoReading_elsewhere (hlock : lockedArticle owner w i db = .ok (a, db))
    (h : db.readingCompletions.lookup (owner, operation) = some (k, r)) (hk : k ≠ (w, i)) :
    undoReading owner w i operation db = .error .conflict := by
  unfold undoReading
  rw [bind_of_ok hlock]
  exact bind_of_error (findReceipt_other h hk)

theorem undoReading_undone {u : ReadingCompletion} (hlock : lockedArticle owner w i db = .ok (a, db))
    (h : db.readingCompletions.lookup (owner, operation) = some ((w, i), r)) (hundone : r.undone = some u) :
    undoReading owner w i operation db = .ok (u, db) := by
  unfold undoReading
  rw [bind_of_ok hlock, bind_of_ok (findReceipt_same h), bind_of_ok (orThrow_some r _ db)]
  simp only [hundone]
  rfl

/-- An undo finds every other revision in the way. -/
theorem undoReading_changed (hlock : lockedArticle owner w i db = .ok (a, db))
    (h : db.readingCompletions.lookup (owner, operation) = some ((w, i), r)) (hundone : r.undone = none)
    (hrevision : a.revision ≠ r.completed.state.revision) : undoReading owner w i operation db = .error .conflict := by
  unfold undoReading
  rw [bind_of_ok hlock, bind_of_ok (findReceipt_same h), bind_of_ok (orThrow_some r _ db)]
  simp only [hundone]
  exact bind_of_error (require_neg hrevision)

end

/-! ## What a completion and an undo write -/

/-- The rating row that a reading state stands for. -/
def ReadingState.row (state : ReadingState) : Option ArticleRatingRow :=
  state.ratedAt.map fun ratedAt => { rating := state.rating, ratedAt, reason := state.reason }

/-- A state without a date has no rating and no reason. -/
def ReadingState.Consistent (state : ReadingState) : Prop :=
  state.ratedAt = none → state.rating = none ∧ state.reason = none

theorem readingState_row (db : Db) (key : ArticleKey) (a : Article) :
    (db.readingState key a).row = db.articleRatings.lookup key := by
  unfold ReadingState.row Db.readingState
  cases db.articleRatings.lookup key <;> rfl

theorem readingState_consistent (db : Db) (key : ArticleKey) (a : Article) : (db.readingState key a).Consistent := by
  unfold ReadingState.Consistent Db.readingState
  cases db.articleRatings.lookup key with
  | none => exact fun _ => ⟨rfl, rfl⟩
  | some row =>
    intro h
    cases h

theorem writeRating_row (db : Db) (key : ArticleKey) {state : ReadingState} (h : state.Consistent) :
    ∃ ratings, writeRating key state db = .ok ((), { db with articleRatings := ratings }) ∧
      ratings.lookup key = state.row := by
  unfold writeRating ReadingState.row
  cases hrated : state.ratedAt with
  | some ratedAt =>
    refine ⟨_, rfl, ?_⟩
    rw [Table.lookup_insert_if, if_pos rfl]
    rfl
  | none =>
    refine ⟨_, bind_of_ok (require_pos (h hrated)), ?_⟩
    rw [Table.lookup_erase_if, if_pos rfl]
    rfl

theorem readingSnapshot_reads (key : ArticleKey) (a : Article) : Keeps (fun d => d) (readingSnapshot key a) :=
  keeps_bind keeps_get fun _ => keeps_bind (keeps_require _ _) fun _ => keeps_pure _

theorem readingSnapshot_ok {key : ArticleKey} {a : Article} {state : ReadingState}
    (h : readingSnapshot key a db = .ok (state, db')) : state = db.readingState key a := by
  unfold readingSnapshot at h
  rw [bind_of_ok (get_run db)] at h
  obtain ⟨-, h⟩ := bind_require_ok.1 h
  cases h
  rfl

/-- The receipt of a completion. -/
def completionReceipt (db : Db) (w : WorkspaceId) (i : ArticleId) (a : Article) (command : CompleteReading)
    (result : ReadingCompletion) : Receipt :=
  { command, previous := db.readingState (w, i) a, previousProtectUnread := a.state.protectUnread, completed := result
    undone := none }

theorem completeReading_new (hfree : db.readingCompletions.lookup (owner, command.operationId) = none)
    (hrun : completeReading now owner w i command db = .ok (result, db')) :
    ∃ a, db.articles.lookup (w, i) = some a ∧ a.state.read = false ∧ result.state.revision = a.revision + 1 ∧
      db'.articles.lookup (w, i) = some a.completed ∧
      db'.readingCompletions.lookup (owner, command.operationId) =
        some ((w, i), completionReceipt db w i a command result) := by
  unfold completeReading at hrun
  obtain ⟨a, hlock, h⟩ := (bind_ok_of_reads (lockedArticle_keeps _ _ _)).1 hrun
  rw [bind_of_ok (findReceipt_none hfree)] at h
  obtain ⟨⟨-, hread⟩, h⟩ := bind_require_ok.1 h
  obtain ⟨previous, hprevious, h⟩ := (bind_ok_of_reads (readingSnapshot_reads _ _)).1 h
  have hnext : Keeps (fun d => d) (nextRevision a.revision) := fun _ _ _ h => (nextRevision_ok h).2.2
  obtain ⟨revision, hrevision, h⟩ := (bind_ok_of_reads hnext).1 h
  obtain ⟨rfl, -, -⟩ := nextRevision_ok hrevision
  rw [bind_of_ok (modify_run _ _)] at h
  obtain ⟨_, d₁, h₁, h⟩ := bind_ok.1 h
  obtain ⟨-, h₁⟩ := bind_require_ok.1 h₁
  cases h₁
  obtain ⟨_, d₂, h₂, h⟩ := bind_ok.1 h
  obtain ⟨_, d₃, h₃, h⟩ := bind_ok.1 h
  cases h
  have a₂ := writeRating_keeps (f := Db.articles) (fun _ _ => rfl) _ _ _ _ _ h₂
  have a₃ := recordRead_keeps (f := Db.articles) (fun _ _ => rfl) _ _ _ _ _ _ h₃
  have c₂ := writeRating_keeps (f := Db.readingCompletions) (fun _ _ => rfl) _ _ _ _ _ h₂
  have c₃ := recordRead_keeps (f := Db.readingCompletions) (fun _ _ => rfl) _ _ _ _ _ _ h₃
  refine ⟨a, (lockedArticle_ok hlock).1, hread, rfl, ?_, ?_⟩
  · rw [a₃, a₂]
    show (db.articles.insert (w, i) a.completed).lookup (w, i) = some a.completed
    rw [Table.lookup_insert_if, if_pos rfl]
  · rw [c₃, c₂]
    show (db.readingCompletions.insert (owner, command.operationId) _).lookup (owner, command.operationId) = _
    rw [Table.lookup_insert_if, if_pos rfl, readingSnapshot_ok hprevious]
    rfl

/-- An undo over the completed revision puts back what the receipt has stored. -/
theorem undoReading_restores {operation : Nat} {a : Article} {r : Receipt}
    (hlock : lockedArticle owner w i db = .ok (a, db))
    (h : db.readingCompletions.lookup (owner, operation) = some ((w, i), r)) (hundone : r.undone = none)
    (hrevision : a.revision = r.completed.state.revision) (hbound : a.revision + 1 ≤ bigintMax)
    (hprevious : r.previous.Consistent) :
    ∃ u d, undoReading owner w i operation db = .ok (u, d) ∧ u.state = { r.previous with revision := a.revision + 1 } ∧
      d.articles.lookup (w, i) = some { a with
        revision := a.revision + 1
        state := { a.state with read := r.previous.read, protectUnread := r.previousProtectUnread } } ∧
      d.articleRatings.lookup (w, i) = r.previous.row ∧
      d.readingCompletions.lookup (owner, operation) = some ((w, i), { r with undone := some u }) := by
  have hnext : nextRevision a.revision db = .ok (a.revision + 1, db) := by
    unfold nextRevision
    rw [bind_of_ok (require_pos _), bind_of_ok (require_pos hbound), pure_run]
    simp only [bigintMax] at hbound
    omega
  have hconsistent : ReadingState.Consistent { r.previous with revision := a.revision + 1 } := hprevious
  let restored : Article := { a with
    revision := a.revision + 1
    state := { a.state with read := r.previous.read, protectUnread := r.previousProtectUnread } }
  have hwrite : writeArticle (w, i) restored db = .ok ((), db.setArticle (w, i) restored) := by
    unfold writeArticle repoI64
    rw [bind_of_ok (require_pos hbound), modify_run]
  obtain ⟨ratings, hrating, hrow⟩ := writeRating_row (db.setArticle (w, i) restored) (w, i) hconsistent
  let u : ReadingCompletion :=
    { operationId := operation, articleId := i, state := { r.previous with revision := a.revision + 1 }, undone := true }
  refine ⟨u, { db.setArticle (w, i) restored with
    articleRatings := ratings
    readingCompletions := db.readingCompletions.insert (owner, operation) ((w, i), { r with undone := some u }) },
    ?_, rfl, ?_, hrow, ?_⟩
  · unfold undoReading
    rw [bind_of_ok hlock, bind_of_ok (findReceipt_same h), bind_of_ok (orThrow_some r _ db)]
    simp only [hundone]
    rw [bind_of_ok (require_pos hrevision), bind_of_ok hnext, bind_of_ok hwrite, bind_of_ok hrating,
      bind_of_ok (modify_run _ _), pure_run]
    rfl
  · show (db.articles.insert (w, i) restored).lookup (w, i) = _
    rw [Table.lookup_insert_if, if_pos rfl]
  · show (db.readingCompletions.insert (owner, operation) _).lookup (owner, operation) = _
    rw [Table.lookup_insert_if, if_pos rfl]

end

section
variable {P : Platform} {visible : Db → WorkspaceId → Article → Bool} {s s' : LibraryWorld} {db : Db}

/-- An operation id takes effect once: its receipt stays, and answers from then on. An undo puts back exactly what the
completion changed, and conflicts once the article is another one; a call that fails changes nothing. -/
theorem reading_once_and_undone {ops₁ ops₂ : List LibraryOp} (hempty : LibraryEmpty db)
    (hinj : Set.InjOn P.fingerprint (keysMet (ops₁ ++ ops₂)))
    (hrun₁ : run (LibraryWorld.step P visible) { db } ops₁ = some s)
    (hrun₂ : run (LibraryWorld.step P visible) s ops₂ = some s') :
    s.db.KeepsReceipts s'.db ∧
    (∀ owner operation k r w i a, s'.db.readingCompletions.lookup (owner, operation) = some (k, r) →
      lockedArticle owner w i s'.db = .ok (a, s'.db) →
      (∀ now command, command.operationId = operation → completeReading now owner w i command s'.db =
        if k = (w, i) ∧ r.command = command then .ok (r.undone.getD r.completed, s'.db) else .error .conflict) ∧
      (k ≠ (w, i) → undoReading owner w i operation s'.db = .error .conflict) ∧
      (k = (w, i) → ∀ u, r.undone = some u → undoReading owner w i operation s'.db = .ok (u, s'.db))) ∧
    (∀ before now owner w i command result,
      before.readingCompletions.lookup (owner, command.operationId) = none →
      completeReading now owner w i command before = .ok (result, s.db) →
      ∃ a r, before.articles.lookup (w, i) = some a ∧ s.db.articles.lookup (w, i) = some a.completed ∧
        s'.db.readingCompletions.lookup (owner, command.operationId) = some ((w, i), r) ∧ r.command = command ∧
        r.completed = result ∧ ∀ b, lockedArticle owner w i s'.db = .ok (b, s'.db) → r.undone = none →
          (b ≠ a.completed → undoReading owner w i command.operationId s'.db = .error .conflict) ∧
          (b = a.completed → b.revision + 1 ≤ bigintMax → ∃ u d,
            undoReading owner w i command.operationId s'.db = .ok (u, d) ∧
            d.articles.lookup (w, i) = some { a with revision := a.revision + 2 } ∧
            d.articleRatings.lookup (w, i) = before.articleRatings.lookup (w, i) ∧
            u.state = { before.readingState (w, i) a with revision := a.revision + 2 } ∧
            d.readingCompletions.lookup (owner, command.operationId) = some ((w, i), { r with undone := some u }))) ∧
    (∀ now owner w i command e, completeReading now owner w i command s'.db = .error e →
      (completeReading now owner w i command).commit s'.db = s'.db) ∧
    (∀ owner w i operation e, undoReading owner w i operation s'.db = .error e →
      (undoReading owner w i operation).commit s'.db = s'.db) := by
  have hsub₁ : keysMet ops₁ ⊆ keysMet (ops₁ ++ ops₂) := keysMet_mono (List.subset_append_left _ _)
  have hsub₂ : keysMet ops₂ ⊆ keysMet (ops₁ ++ ops₂) := keysMet_mono (List.subset_append_right _ _)
  have hi₁ := hempty.inv.run hinj hsub₁ hrun₁
  refine ⟨keepsReceipts_run hrun₂, ?_, ?_, fun _ _ _ _ _ _ => commit_of_error, fun _ _ _ _ _ => commit_of_error⟩
  · intro owner operation k r w i a hr hlock
    refine ⟨fun now command hoperation => ?_, undoReading_elsewhere hlock hr, fun hk u hu => ?_⟩
    · rw [← hoperation] at hr
      exact completeReading_known hlock hr
    · rw [hk] at hr
      exact undoReading_undone hlock hr hu
  · intro before now owner w i command result hfree hcomplete
    obtain ⟨a, ha, hread, hrevision, hcompleted, hreceipt⟩ := completeReading_new hfree hcomplete
    obtain ⟨r, hr, hkept⟩ := keepsReceipts_run hrun₂ _ _ _ hreceipt
    have hresult : r.completed = result := hkept.completed
    refine ⟨a, r, ha, hcompleted, hr, hkept.command, hresult, fun b hlock hundone => ⟨fun hne => ?_, fun heq hbound => ?_⟩⟩
    · refine undoReading_changed hlock hr hundone fun heq => hne ?_
      refine (hi₁.run_later hinj hsub₂ hrun₂ hcompleted (lockedArticle_ok hlock).1).eq_of_revision ?_
      rw [heq, hresult, hrevision]
      rfl
    · have hb : b.revision = r.completed.state.revision := by
        rw [heq, hresult, hrevision]
        rfl
      have hprevious : r.previous = before.readingState (w, i) a := hkept.previous
      obtain ⟨u, d, hundo, hu, hd, hrow, hdone⟩ := undoReading_restores hlock hr hundone hb hbound
        (by rw [hprevious]; exact readingState_consistent _ _ _)
      refine ⟨u, d, hundo, ?_, ?_, ?_, hdone⟩
      · rw [hd, heq, hprevious, show r.previousProtectUnread = a.state.protectUnread from hkept.previousProtectUnread]
        rfl
      · rw [hrow, hprevious, readingState_row]
      · rw [hu, heq, hprevious]
        rfl

end
namespace Sample

def completion : CompleteReading := { operationId := 5, expectedRevision := 1, rating := some 8, reason := none }

def completing : List LibraryOp :=
  [.deliver lease 5 (commit (record 1 0 "first") 1), .completeReading 6 ⟨1⟩ ⟨1⟩ ⟨1⟩ completion]

theorem keys_completing : Set.InjOn platform.fingerprint (keysMet (completing ++ [])) := by
  rintro k ⟨l, n, c, hc, rfl⟩ k' ⟨l', n', c', hc', rfl⟩ hf
  simp only [completing, List.append_nil, List.mem_cons, LibraryOp.deliver.injEq, reduceCtorEq, List.not_mem_nil, or_false]
    at hc hc'
  obtain ⟨-, -, rfl⟩ := hc
  obtain ⟨-, -, rfl⟩ := hc'
  rfl

end Sample

/-- A rating is given and taken back. -/
theorem reading_once_and_undone_rated : ∃ s,
    run (LibraryWorld.step Sample.platform fun _ _ _ => true) { db := Sample.db } Sample.completing = some s ∧
    s.db.articles.lookup (⟨1⟩, ⟨1⟩) = some (Sample.article "first" 1).completed ∧
    ∃ u d, undoReading ⟨1⟩ ⟨1⟩ ⟨1⟩ 5 s.db = .ok (u, d) ∧
      d.articles.lookup (⟨1⟩, ⟨1⟩) = some (Sample.article "first" 3) ∧ d.articleRatings.lookup (⟨1⟩, ⟨1⟩) = none := by
  have hok : (completeReading 6 ⟨1⟩ ⟨1⟩ ⟨1⟩ Sample.completion Sample.delivered.db).isOk = true := by decide +kernel
  have hlocked : (lockedArticle ⟨1⟩ ⟨1⟩ ⟨1⟩
      ((completeReading 6 ⟨1⟩ ⟨1⟩ ⟨1⟩ Sample.completion).commit Sample.delivered.db)).isOk = true := by decide +kernel
  cases hcomplete : completeReading 6 ⟨1⟩ ⟨1⟩ ⟨1⟩ Sample.completion Sample.delivered.db with
  | error e =>
    rw [hcomplete] at hok
    cases hok
  | ok p =>
    obtain ⟨result, d⟩ := p
    rw [commit_of_ok hcomplete] at hlocked
    have hrun : run (LibraryWorld.step Sample.platform fun _ _ _ => true) { db := Sample.db } Sample.completing =
        some { Sample.delivered with db := d } := by
      refine run_cons.2 ⟨Sample.delivered, rfl, run_cons.2 ⟨_, rfl, ?_⟩⟩
      rw [commit_of_ok hcomplete]
      rfl
    obtain ⟨-, -, hcompletes, -⟩ := reading_once_and_undone Sample.db_empty Sample.keys_completing hrun
      (show run _ _ [] = some _ from rfl)
    obtain ⟨a, r, ha, hcompleted, hr, -, -, hundo⟩ := hcompletes Sample.delivered.db 6 ⟨1⟩ ⟨1⟩ ⟨1⟩ Sample.completion result
      (by decide +kernel) hcomplete
    have hbefore : Sample.delivered.db.articles.lookup (⟨1⟩, ⟨1⟩) = some (Sample.article "first" 1) := by decide +kernel
    rw [hbefore] at ha
    cases ha
    cases hlock : lockedArticle ⟨1⟩ ⟨1⟩ ⟨1⟩ d with
    | error e =>
      rw [hlock] at hlocked
      cases hlocked
    | ok q =>
      obtain ⟨b, d'⟩ := q
      have hsame : d' = d := lockedArticle_keeps (f := fun d => d) _ _ _ _ _ _ hlock
      have hb : d.articles.lookup (⟨1⟩, ⟨1⟩) = some b := (lockedArticle_ok hlock).1
      rw [hsame] at hlock
      rw [hcompleted] at hb
      cases hb
      have hnone : r.undone = none := by
        obtain ⟨c, -, -, -, -, hrow⟩ := completeReading_new (by decide +kernel) hcomplete
        cases hr.symm.trans hrow
        rfl
      obtain ⟨u, d'', hundone, harticle, hrating, -⟩ := (hundo _ hlock hnone).2 rfl (by decide)
      refine ⟨_, hrun, hcompleted, u, d'', hundone, harticle, ?_⟩
      rw [hrating]
      decide +kernel

end Inoreader
