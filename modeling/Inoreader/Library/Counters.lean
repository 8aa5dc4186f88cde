import Inoreader.Library.PageWalks

/-!
# The counters of a page

A page counts the rows of its selection and the unread articles of the workspace. A repository's own cursor is the time and
the id of an article.
-/

namespace Inoreader
open Lib Lib.Keyset

/-- The place of a row for a repository. -/
def PageRow.cursor (x : PageRow) : ArticlePageCursor := { arrivedAt := x.time, articleId := x.article.id }

/-- A page counts the unread articles that the workspace shows, and every row of a walk with its request. -/
structure Counts (page : ArticlePageRequest → ArticlePage) (unreadVisible : Nat) (r : ArticlePageRequest) : Prop where
  unreadTotal : (page r).unreadTotal = unreadVisible
  total : ∃ pages, Walk (olderPage some PageRow.cursor page r) none pages ∧ (page r).total = pages.flatten.length

section
variable {v : PageTables} {db : Db} {w : WorkspaceId} {r : ArticlePageRequest} {all : List ArticleListing}

/-- A filter that keeps as many rows keeps the same ones. -/
theorem countP_eq_iff {α : Type} {p q : α → Bool} {l : List α} (hqp : ∀ x ∈ l, q x = true → p x = true) :
    l.countP p = l.countP q ↔ ∀ x ∈ l, p x = true → q x = true := by
  induction l with
  | nil => simp
  | cons x l ih =>
    have hle : l.countP q ≤ l.countP p := List.countP_mono_left fun y hy => hqp y (List.mem_cons_of_mem _ hy)
    have hx := hqp x List.mem_cons_self
    rw [List.countP_cons, List.countP_cons, List.forall_mem_cons, ← ih fun y hy => hqp y (List.mem_cons_of_mem _ hy)]
    cases hp : p x with
    | false =>
      have hq : q x = false := by
        rw [Bool.eq_false_iff]
        intro hq
        rw [hx hq] at hp
        cases hp
      simp [hq]
    | true =>
      cases hq : q x with
      | true => simp
      | false =>
        simp only [if_pos, Bool.false_eq_true, if_false, true_implies, false_and, iff_false]
        omega

/-- The number of rows of a page is that of a walk. -/
theorem Lists.total_walk {exact : ArticlePageCursor → Prop} {page : ArticlePageRequest → ArticlePage} {rows : List PageRow}
    (h : Lists exact page r rows) (hexact : ∀ x ∈ rows, exact x.cursor) :
    ∃ pages, Walk (olderPage some PageRow.cursor page r) none pages ∧ rows.length = pages.flatten.length := by
  obtain ⟨pages, hwalk, hflatten, -⟩ := h.older_walk some PageRow.cursor
    fun x hx => ⟨x.cursor, rfl, rfl, hexact x hx⟩
  exact ⟨pages, hwalk, by rw [hflatten, (newestFirst_perm rows).length_eq]⟩

theorem selection_exact (v : PageTables) (db : Db) (w : WorkspaceId) (r : ArticlePageRequest) :
    ∀ x ∈ db.selection v w r, r.Exact x.cursor := by
  intro x hx hperiod
  obtain ⟨period, hperiod⟩ := Option.isSome_iff_exists.1 hperiod
  unfold Db.selection at hx
  rw [hperiod] at hx
  exact time_of_period hx

/-- What the unread counter of the queries relies on: without a period, that a commit project has every unread article
that is shown; with one, that every unread article is shown. -/
def Db.CountsUnread (db : Db) (v : PageTables) (w : WorkspaceId) (r : ArticlePageRequest) : Prop :=
  match r.readPeriod with
  | some _ => ∀ row ∈ db.workspaceArticles w, row.2.state.read = false → row ∈ db.unreadVisible v w
  | none => ∀ project, r.commitProject = some project → ∀ row ∈ db.unreadVisible v w, project.contains row.2 = true

theorem mem_unreadVisible {row : ArticleId × Article} : row ∈ db.unreadVisible v w ↔
    row ∈ db.workspaceArticles w ∧ row.2.state.read = false ∧
      readerArticleVisible v.toVisibilityTables db w row = true := by
  simp [Db.unreadVisible]

/-- The unread articles are as many as the shown ones exactly when all are shown. -/
theorem countP_unread_iff : (db.workspaceArticles w).countP (fun row => !row.2.state.read) = (db.unreadVisible v w).length ↔
    ∀ row ∈ db.workspaceArticles w, row.2.state.read = false → row ∈ db.unreadVisible v w := by
  unfold Db.unreadVisible
  rw [← List.countP_eq_length_filter, countP_eq_iff fun row _ hrow => (Bool.and_eq_true_iff.1 hrow).1]
  simp only [Bool.not_eq_true', Bool.and_eq_true, List.mem_filter]
  constructor
  · exact fun h row hrow hunread => ⟨hrow, h row hrow hunread⟩
  · exact fun h row hrow hunread => (h row hrow hunread).2

/-- The rows of the feed are the shown unread articles of the project. -/
theorem length_scopeRows_feed (project : Option CommitProject) :
    (db.scopeRows v w .feed project).length = (db.unreadVisible v w).countP fun row => project.all (·.contains row.2) := by
  unfold Db.scopeRows Db.unreadVisible
  rw [List.countP_filter, ← List.countP_eq_length_filter]
  refine List.countP_congr fun row _ => ?_
  simp [Db.scopePredicate, ArticleScope.subscriptionId, and_comm]

theorem unreadTotal_iff : db.unreadTotal v w r = (db.unreadVisible v w).length ↔ db.CountsUnread v w r := by
  unfold Db.unreadTotal Db.CountsUnread
  cases hperiod : r.readPeriod with
  | some period => exact countP_unread_iff
  | none =>
    dsimp only
    by_cases hfeed : r.scope = .feed
    · rw [if_pos ⟨hfeed, by rw [hfeed]; rfl⟩, hfeed, length_scopeRows_feed, List.countP_eq_length]
      cases hproject : r.commitProject with
      | none => simp
      | some project => simp
    · rw [if_neg fun h => hfeed h.1]
      refine ⟨fun _ project hproject => ?_, fun _ => rfl⟩
      exact absurd (r.project_feed (by rw [hproject]; rfl)).1 hfeed

theorem articleSummaryPage_counts_iff (h : db.OwnIds w) :
    Counts (articleSummaryPage v db w) (db.unreadVisible v w).length r ↔ db.CountsUnread v w r := by
  constructor
  · exact fun hcounts => unreadTotal_iff.1 hcounts.unreadTotal
  · intro hunread
    refine ⟨unreadTotal_iff.2 hunread, ?_⟩
    have hlists := articleSummaryPage_lists (distinctKeys_selection (v := v) (r := r) h)
    exact hlists.total_walk (selection_exact v db w r)

/-- The summaries of the workspace list every article once. -/
def Db.Summarized (db : Db) (w : WorkspaceId) (all : List ArticleListing) : Prop :=
  (all.map (·.row.article)).Perm ((db.workspaceArticles w).map (·.2))

theorem distinctKeys_summaries (h : db.OwnIds w) (hall : db.Summarized w all) : DistinctKeys (defaultSelection all r) := by
  refine distinctKeys_of_ids ?_
  have hids := (hall.map Article.id).nodup_iff.2 (by rw [List.map_map]; exact nodup_articleIds h)
  have hsub : ((defaultSelection all r).map (·.article.id)).Sublist ((all.map (·.row.article)).map Article.id) := by
    unfold defaultSelection
    rw [List.map_map, List.map_map]
    exact List.filter_sublist.map _
  exact hids.sublist hsub

theorem countP_summaries (hall : db.Summarized w all) :
    all.countP (fun x => !x.row.article.state.read) = (db.workspaceArticles w).countP fun row => !row.2.state.read := by
  have hcount := hall.countP_eq fun a => !a.state.read
  rwa [List.countP_map, List.countP_map] at hcount

theorem defaultArticleSummaryPage_counts_iff (h : db.OwnIds w) (hall : db.Summarized w all) :
    Counts (defaultArticleSummaryPage all) (db.unreadVisible v w).length r ↔
      ∀ row ∈ db.workspaceArticles w, row.2.state.read = false → row ∈ db.unreadVisible v w := by
  rw [← countP_unread_iff, ← countP_summaries hall]
  constructor
  · exact fun hcounts => hcounts.unreadTotal
  · intro hunread
    have hlists : Lists (fun _ => True) (defaultArticleSummaryPage all) r (defaultSelection all r) :=
      defaultArticleSummaryPage_lists (distinctKeys_summaries h hall) (.refl _)
    refine ⟨hunread, ?_⟩
    show ∃ pages, _ ∧ (newestFirst (defaultSelection all r)).length = _
    rw [(newestFirst_perm _).length_eq]
    exact hlists.total_walk fun _ _ => trivial

/-- The counters of the queries and of the default of the trait. -/
theorem counters_iff (h : db.OwnIds w) :
    (∀ r, Counts (articleSummaryPage v db w) (db.unreadVisible v w).length r ↔ db.CountsUnread v w r) ∧
    ∀ all, db.Summarized w all → ∀ r, Counts (defaultArticleSummaryPage all) (db.unreadVisible v w).length r ↔
      ∀ row ∈ db.workspaceArticles w, row.2.state.read = false → row ∈ db.unreadVisible v w :=
  ⟨fun _ => articleSummaryPage_counts_iff h, fun _ hall _ => defaultArticleSummaryPage_counts_iff h hall⟩

end

/-! ## Articles outside a project, and hidden ones -/

def commitsRequest : ArticlePageRequest :=
  { pagedRequest with
    commitProject := some { owner := "owner", repository := "repository" }
    period_feed := fun h => absurd h ArticlePageRequest.not_isSome_none
    project_feed := fun _ => ⟨rfl, rfl⟩ }

theorem counters_paged : Counts (articleSummaryPage pagedTables (pagedDb 2000) ⟨1⟩) 2 pagedRequest ∧
    ¬ (pagedDb 2000).CountsUnread pagedTables ⟨1⟩ commitsRequest := by
  have hids : (pagedDb 2000).OwnIds ⟨1⟩ := .of_rows (by decide +kernel)
  constructor
  · have hlength : ((pagedDb 2000).unreadVisible pagedTables ⟨1⟩).length = 2 := by decide +kernel
    rw [← hlength]
    exact ((counters_iff hids).1 pagedRequest).2 fun project hproject => by cases hproject
  · intro hunread
    have hcontains := hunread { owner := "owner", repository := "repository" } rfl (⟨1⟩, pagedArticle 1 1000)
      (by decide +kernel)
    exact absurd hcontains (by decide)

/-- The page of a project has no article and says that none is unread. -/
theorem commits_not_counted :
    ¬ Counts (articleSummaryPage pagedTables (pagedDb 2000) ⟨1⟩) ((pagedDb 2000).unreadVisible pagedTables ⟨1⟩).length
      commitsRequest := by
  intro hcounts
  have hunread : (articleSummaryPage pagedTables (pagedDb 2000) ⟨1⟩ commitsRequest).unreadTotal = 0 := by decide +kernel
  have hlength : ((pagedDb 2000).unreadVisible pagedTables ⟨1⟩).length = 2 := by decide +kernel
  have htotal := hcounts.unreadTotal
  rw [hunread, hlength] at htotal
  cases htotal

end Inoreader
