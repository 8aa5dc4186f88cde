import Inoreader.Lib.Run
import Inoreader.Library.MarkRead
import Inoreader.Library.PageWalks

/-!
# Marking a scope read among other transactions

The operation reads one snapshot (`REPEATABLE READ`) and its own writes. The rows that it has marked are locked until it
ends. It fails if it comes to a row that another transaction has written since the snapshot, or to an event that is
there by now; only its commit changes what others see.
-/

namespace Inoreader
open Lib Tx

inductive MarkPhase
  | running | committed | failed
deriving DecidableEq, Repr

structure MarkWorld where
  /-- What is committed. -/
  db : Db
  /-- What the operation sees. -/
  view : Db
  after : Option ArticleId := none
  marked : List (ArticleId × Article) := []
  phase : MarkPhase := .running
  /-- The articles that other transactions have written since the snapshot. -/
  touched : List ArticleKey := []

inductive MarkOp
  /-- Another transaction commits; it has written the articles `keys`. -/
  | other (db : Db) (keys : List ArticleKey)
  | advance

section
variable (v : VisibilityTables) (w : WorkspaceId) (scope : ArticleScope) (batch : Nat)

/-- Nobody writes a marked row or its event before the operation ends. -/
def MarkWorld.Locked (s : MarkWorld) (w : WorkspaceId) (db : Db) (keys : List ArticleKey) : Prop :=
  s.phase = .running → ∀ row ∈ s.marked, (w, row.1) ∉ keys ∧
    db.articleReadEvents.lookup ((w, row.1), row.2.revision + 1) =
      s.db.articleReadEvents.lookup ((w, row.1), row.2.revision + 1)

instance (s : MarkWorld) (w : WorkspaceId) (db : Db) (keys : List ArticleKey) : Decidable (s.Locked w db keys) :=
  inferInstanceAs (Decidable (_ → _))

/-- The row or its event is there in a version that the snapshot does not have. -/
def MarkWorld.Conflicts (s : MarkWorld) (w : WorkspaceId) (row : ArticleId × Article) : Prop :=
  (w, row.1) ∈ s.touched ∨ s.db.articleReadEvents.lookup ((w, row.1), row.2.revision + 1) ≠ none

instance (s : MarkWorld) (w : WorkspaceId) (row : ArticleId × Article) : Decidable (s.Conflicts w row) :=
  inferInstanceAs (Decidable (_ ∨ _))

/-- The next batch of the operation, or its commit. -/
def MarkWorld.advance (s : MarkWorld) : MarkWorld :=
  let rows := (s.view.unreadInScope (shownArticle v) w scope s.after).take batch
  match rows.getLast? with
  | none => { s with db := s.db.withRead w s.marked, phase := .committed }
  | some last =>
    if rows.any (fun row => s.Conflicts w row) then { s with phase := .failed }
    else match markRows w rows s.view with
      | .ok (_, view) => { s with view, after := some last.1, marked := s.marked ++ rows }
      | .error _ => { s with phase := .failed }

def MarkWorld.step (s : MarkWorld) : MarkOp → Option MarkWorld
  | .other db keys =>
    if s.db.articles.AgreeOn (fun k => decide (k ∉ keys)) db.articles ∧ s.Locked w db keys then
      some { s with db, touched := keys ++ s.touched }
    else none
  | .advance => if s.phase = .running then some (s.advance v w scope batch) else none

end

/-- The operation has taken its snapshot. -/
def MarkWorld.start (db : Db) : MarkWorld := { db, view := db }

/-- What holds while the operation runs on the snapshot `snap`. -/
structure MarkInv (v : VisibilityTables) (w : WorkspaceId) (scope : ArticleScope) (snap : Db) (s : MarkWorld) : Prop where
  view : s.view = snap.withRead w s.marked
  rows : snap.unreadInScope (shownArticle v) w scope none =
    s.marked ++ s.view.unreadInScope (shownArticle v) w scope s.after
  untouched : ∀ row ∈ s.marked, (w, row.1) ∉ s.touched
  no_event : ∀ row ∈ s.marked, s.db.articleReadEvents.lookup ((w, row.1), row.2.revision + 1) = none
  same : ∀ k, k ∉ s.touched → s.db.articles.lookup k = snap.articles.lookup k

section
variable {v : VisibilityTables} {w : WorkspaceId} {scope : ArticleScope} {batch : Nat} {snap : Db} {s s' : MarkWorld}

theorem markInv_start (db : Db) : MarkInv v w scope db (.start db) where
  view := rfl
  rows := rfl
  untouched _ hrow := absurd hrow List.not_mem_nil
  no_event _ hrow := absurd hrow List.not_mem_nil
  same _ _ := rfl

theorem MarkInv.other (h : MarkInv v w scope snap s) {db : Db} {keys : List ArticleKey}
    (hagree : s.db.articles.AgreeOn (fun k => decide (k ∉ keys)) db.articles) (hlocked : s.Locked w db keys)
    (hrunning : s.phase = .running) : MarkInv v w scope snap { s with db, touched := keys ++ s.touched } where
  view := h.view
  rows := h.rows
  untouched row hrow := by
    intro hmem
    rcases List.mem_append.1 hmem with hkeys | htouched
    · exact (hlocked hrunning row hrow).1 hkeys
    · exact h.untouched row hrow htouched
  no_event row hrow := by
    show db.articleReadEvents.lookup _ = none
    rw [(hlocked hrunning row hrow).2]
    exact h.no_event row hrow
  same k hk := by
    have hkeys : k ∉ keys := fun hmem => hk (List.mem_append_left _ hmem)
    have htouched : k ∉ s.touched := fun hmem => hk (List.mem_append_right _ hmem)
    show db.articles.lookup k = _
    rw [hagree.lookup (decide_eq_true hkeys), h.same k htouched]

/-- The snapshot's rows of the scope, cut at the batches so far. -/
theorem MarkInv.ownIds (h : MarkInv v w scope snap s) (hids : snap.OwnIds w) : s.view.OwnIds w := by
  have hunread : snap.UnreadRows w (snap.unreadInScope (shownArticle v) w scope none) := unreadInScope_unreadRows
  rw [h.rows] at hunread
  rw [h.view]
  exact ownIds_withRead hids (hunread.sublist (List.sublist_append_left _ _))

/-- What one turn of the operation does: it commits the rows of the snapshot, or nobody sees anything of it. -/
theorem MarkInv.advance (h : MarkInv v w scope snap s) (hids : snap.OwnIds w) (hbatch : 0 < batch)
    (hrunning : s.phase = .running) :
    ((s.advance v w scope batch).phase = .committed ∧
      s.marked = snap.unreadInScope (shownArticle v) w scope none ∧
      (s.advance v w scope batch).db = s.db.withRead w s.marked) ∨
    ((s.advance v w scope batch).db = s.db ∧ ((s.advance v w scope batch).phase = .failed ∨
      ((s.advance v w scope batch).phase = .running ∧ MarkInv v w scope snap (s.advance v w scope batch)))) := by
  have hviewRows : s.view.UnreadRows w (s.view.unreadInScope (shownArticle v) w scope s.after) := unreadInScope_unreadRows
  unfold MarkWorld.advance
  cases hlast : ((s.view.unreadInScope (shownArticle v) w scope s.after).take batch).getLast? with
  | none =>
    have hnil : s.view.unreadInScope (shownArticle v) w scope s.after = [] := by
      rcases List.take_eq_nil_iff.1 (List.getLast?_eq_none_iff.1 hlast) with hzero | hnil
      · omega
      · exact hnil
    refine .inl ⟨?_, ?_, ?_⟩
    · simp only [hlast]
    · rw [h.rows, hnil, List.append_nil]
    · simp only [hlast]
  | some last =>
    obtain ⟨hrows, -⟩ := batch_rows _ hlast
    have hbatchRows := hviewRows.sublist (List.take_sublist batch _)
    simp only [hlast]
    refine .inr ?_
    split
    · exact ⟨rfl, .inl rfl⟩
    · rename_i hfree
      cases hmark : markRows w ((s.view.unreadInScope (shownArticle v) w scope s.after).take batch) s.view with
      | error e => exact ⟨rfl, .inl rfl⟩
      | ok result =>
        obtain ⟨u, view⟩ := result
        obtain ⟨-, rfl⟩ := (markRows_ok hbatchRows).1 hmark
        refine ⟨rfl, .inr ⟨hrunning, ?_, ?_, ?_, ?_, h.same⟩⟩
        · rw [h.view, ← Db.withRead_append]
        · rw [unreadInScope_after (h.ownIds hids) hrows hlast, List.append_assoc, ← hrows]
          exact h.rows
        · intro row hrow
          rcases List.mem_append.1 hrow with hrow | hrow
          · exact h.untouched row hrow
          · exact fun htouched => hfree (List.any_eq_true.2 ⟨row, hrow, decide_eq_true (.inl htouched)⟩)
        · intro row hrow
          rcases List.mem_append.1 hrow with hrow | hrow
          · exact h.no_event row hrow
          · by_contra hevent
            exact hfree (List.any_eq_true.2 ⟨row, hrow, decide_eq_true (.inr hevent)⟩)

/-- While the operation runs its invariant holds. -/
theorem markInv_run (hids : snap.OwnIds w) (hbatch : 0 < batch) {ops : List MarkOp}
    (hrun : run (MarkWorld.step v w scope batch) (.start snap) ops = some s) (hrunning : s.phase = .running) :
    MarkInv v w scope snap s := by
  have hinv : s.phase = .running → MarkInv v w scope snap s := by
    refine run_inv' (fun s => s.phase = .running → MarkInv v w scope snap s) (fun s op s' h hstep hphase => ?_)
      (fun _ => markInv_start snap) hrun
    cases op with
    | other db keys =>
      simp only [MarkWorld.step] at hstep
      split at hstep
      · rename_i hother
        cases hstep
        exact (h hphase).other hother.1 hother.2 hphase
      · cases hstep
    | advance =>
      simp only [MarkWorld.step] at hstep
      split at hstep
      · rename_i hrunning
        cases hstep
        rcases (h hrunning).advance hids hbatch hrunning with ⟨hcommitted, -⟩ | ⟨-, hfailed | ⟨-, hinv⟩⟩
        · rw [hcommitted] at hphase
          cases hphase
        · rw [hfailed] at hphase
          cases hphase
        · exact hinv
      · cases hstep
  exact hinv hrunning

end

/-! ## The whole operation -/

/-- The rows are read now, with their event and the next revision; everything else is as it was. -/
structure Db.MarkedBy (db db' : Db) (w : WorkspaceId) (rows : List (ArticleId × Article)) : Prop where
  changed {row} : row ∈ rows → db.articles.lookup (w, row.1) = some row.2 ∧
    db'.articles.lookup (w, row.1) =
      some { row.2 with state := { row.2.state with read := true }, revision := row.2.revision + 1 }
  others {k} : (∀ row ∈ rows, (w, row.1) ≠ k) → db'.articles.lookup k = db.articles.lookup k
  recorded {row} : row ∈ rows → db.articleReadEvents.lookup ((w, row.1), row.2.revision + 1) = none ∧
    db'.articleReadEvents.lookup ((w, row.1), row.2.revision + 1) = some .bulk
  events {e} : (∀ row ∈ rows, ((w, row.1), row.2.revision + 1) ≠ e) →
    db'.articleReadEvents.lookup e = db.articleReadEvents.lookup e
  rest : { db' with articles := db.articles, articleReadEvents := db.articleReadEvents } = db

section
variable {v : PageTables} {w : WorkspaceId} {scope : ArticleScope} {batch : Nat} {db snap : Db} {s s' : MarkWorld}
  {rows : List (ArticleId × Article)}

theorem markedBy_withRead (hnodup : (rows.map (·.1)).Nodup)
    (hstored : ∀ row ∈ rows, db.articles.lookup (w, row.1) = some row.2)
    (hfree : ∀ row ∈ rows, db.articleReadEvents.lookup ((w, row.1), row.2.revision + 1) = none) :
    db.MarkedBy (db.withRead w rows) w rows where
  changed {row} hrow := ⟨hstored row hrow, lookup_withRead hnodup hrow⟩
  others hk := lookup_withRead_of_ne hk
  recorded {row} hrow := ⟨hfree row hrow, event_withRead hnodup hrow⟩
  events he := event_withRead_of_ne he
  rest := rfl

/-- The rows of a scope that are marked are those that its pages show as unread. -/
theorem unread_selection (hids : db.OwnIds w) {r : ArticlePageRequest} (hscope : r.scope = scope)
    (hperiod : r.readPeriod = none) (hproject : r.commitProject = none) :
    (db.selection v w r).filter (fun x => !x.article.state.read) =
      (db.unreadInScope (shownArticle v.toVisibilityTables) w scope none).map fun row => { article := row.2 } := by
  unfold Db.selection Db.scopeRows Db.unreadInScope
  rw [hperiod, hproject, hscope]
  dsimp only
  rw [List.filter_map, List.filter_filter]
  congr 1
  refine List.filter_congr fun row hrow => ?_
  have hshown : shownArticle v.toVisibilityTables db w row.2 = readerArticleVisible v.toVisibilityTables db w row := by
    unfold shownArticle
    rw [hids.row hrow]
  have horigins : ∀ sub : SubscriptionId, (db.articleOrigins w row.1).any (fun o => decide (o.subscriptionId = sub)) =
      db.libraryOrigins.any fun o => decide (o.workspaceId = w ∧ o.articleId = row.1 ∧ o.subscriptionId = sub) := by
    intro sub
    unfold Db.articleOrigins
    rw [List.any_filter]
    congr 1
    funext o
    rw [← Bool.decide_and]
    exact decide_eq_decide.2 and_assoc
  dsimp only [Function.comp, Db.scopePredicate]
  rw [hshown]
  cases scope with
  | feed => cases row.2.state.read <;> simp [ArticleScope.subscriptionId]
  | later => cases row.2.state.read <;> simp [ArticleScope.subscriptionId, Bool.and_comm]
  | subscription sub => cases row.2.state.read <;> simp [ArticleScope.subscriptionId, horigins sub]
  | subscriptionUnread sub =>
    simp only [ArticleScope.subscriptionId, Option.all_some, horigins sub]
    cases row.2.state.read <;> simp [Bool.and_comm]

/-- A committed operation has marked the rows of its snapshot, whatever the size of its batches and whatever committed
beside it; a row of them that was written meanwhile leaves it without effect. -/
theorem marks_scope (v : PageTables) (scope : ArticleScope) (batch : Nat) (hids : db.OwnIds w) (hbatch : 0 < batch) :
    (∀ r : ArticlePageRequest, r.scope = scope → r.readPeriod = none → r.commitProject = none →
      (db.selection v w r).filter (fun x => !x.article.state.read) =
        (db.unreadInScope (shownArticle v.toVisibilityTables) w scope none).map fun row => { article := row.2 }) ∧
    (∀ db', markScopeReadAtomic (shownArticle v.toVisibilityTables) w scope batch db = .ok ((), db') →
      db.MarkedBy db' w (db.unreadInScope (shownArticle v.toVisibilityTables) w scope none)) ∧
    (∀ batch', 0 < batch' → ∀ db',
      markScopeReadAtomic (shownArticle v.toVisibilityTables) w scope batch' db = .ok ((), db') ↔
        markScopeReadAtomic (shownArticle v.toVisibilityTables) w scope batch db = .ok ((), db')) ∧
    ∀ ops s s', run (MarkWorld.step v.toVisibilityTables w scope batch) (.start db) ops = some s →
      s.step v.toVisibilityTables w scope batch .advance = some s' →
      (s'.phase = .committed →
        (∀ row ∈ db.unreadInScope (shownArticle v.toVisibilityTables) w scope none, (w, row.1) ∉ s.touched) ∧
        s.db.MarkedBy s'.db w (db.unreadInScope (shownArticle v.toVisibilityTables) w scope none)) ∧
      (s'.phase ≠ .committed → s'.db = s.db) ∧
      ((∃ row ∈ db.unreadInScope (shownArticle v.toVisibilityTables) w scope none, (w, row.1) ∈ s.touched) →
        s'.db = s.db) := by
  have hunread : db.UnreadRows w (db.unreadInScope (shownArticle v.toVisibilityTables) w scope none) :=
    unreadInScope_unreadRows
  refine ⟨fun r hscope hperiod hproject => unread_selection hids hscope hperiod hproject, ?_, ?_, ?_⟩
  · intro db' hrun
    obtain ⟨hmarkable, rfl⟩ := (markScopeReadAtomic_ok hids hbatch).1 hrun
    exact markedBy_withRead hunread.nodup (fun row hrow => hunread.stored hrow) fun row hrow => (hmarkable row hrow).no_event
  · intro batch' hbatch' db'
    rw [markScopeReadAtomic_ok hids hbatch', markScopeReadAtomic_ok hids hbatch]
  · intro ops s s' hrun hstep
    simp only [MarkWorld.step] at hstep
    split at hstep
    · rename_i hrunning
      cases hstep
      have hinv := markInv_run hids hbatch hrun hrunning
      rcases hinv.advance hids hbatch hrunning with ⟨hcommitted, hmarked, hdb⟩ | ⟨hdb, hphase⟩
      · have huntouched : ∀ row ∈ db.unreadInScope (shownArticle v.toVisibilityTables) w scope none,
            (w, row.1) ∉ s.touched := by
          rw [← hmarked]
          exact hinv.untouched
        refine ⟨fun _ => ⟨huntouched, ?_⟩, fun hne => absurd hcommitted hne, ?_⟩
        · rw [hdb, hmarked]
          refine markedBy_withRead hunread.nodup (fun row hrow => ?_) fun row hrow => ?_
          · rw [hinv.same _ (huntouched row hrow)]
            exact hunread.stored hrow
          · rw [← hmarked] at hrow
            exact hinv.no_event row hrow
        · rintro ⟨row, hrow, htouched⟩
          exact absurd htouched (huntouched row hrow)
      · refine ⟨fun hcommitted => ?_, fun _ => hdb, fun _ => hdb⟩
        rcases hphase with hfailed | ⟨hrunning', -⟩
        · rw [hfailed] at hcommitted
          cases hcommitted
        · rw [hrunning'] at hcommitted
          cases hcommitted
    · cases hstep

theorem marks_scope_paged : ∃ db',
    markScopeReadAtomic (shownArticle pagedTables.toVisibilityTables) ⟨1⟩ .feed 1 (pagedDb 2000) = .ok ((), db') ∧
    (pagedDb 2000).MarkedBy db' ⟨1⟩ [(⟨1⟩, pagedArticle 1 1000), (⟨2⟩, pagedArticle 2 2000)] := by
  have hids : (pagedDb 2000).OwnIds ⟨1⟩ := .of_rows (by decide +kernel)
  have hok := ok_commit (m := markScopeReadAtomic (shownArticle pagedTables.toVisibilityTables) ⟨1⟩ .feed 1)
    (s := pagedDb 2000) (by decide +kernel)
  have hrows : (pagedDb 2000).unreadInScope (shownArticle pagedTables.toVisibilityTables) ⟨1⟩ .feed none =
      [(⟨1⟩, pagedArticle 1 1000), (⟨2⟩, pagedArticle 2 2000)] := by decide +kernel
  rw [← hrows]
  exact ⟨_, hok, (marks_scope pagedTables .feed 1 hids Nat.one_pos).2.1 _ hok⟩

end
end Inoreader
