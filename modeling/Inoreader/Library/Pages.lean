import Inoreader.Lib.Decimal
import Inoreader.Lib.Keyset
import Inoreader.Library.Visibility

/-!
# Pages of articles (`article_query.rs`, `repository/article.rs`, `repository/read_history.rs`)

A page lists articles by their arrival, or by their latest reading in a period. The server hands out the time and the id of
a page's first and last article as cursors; a time in a cursor is a number of microseconds. What a page shows of each of
its articles is in `Repository/Presentation`.
-/

namespace Inoreader
open Lib

/-- A half-open period of read events. -/
structure ReadPeriod where
  start : DateTime
  stop : DateTime
  start_micros : start % 1000 = 0
  stop_micros : stop % 1000 = 0
  start_lt : start < stop

/-- `ReadPeriod::new`. -/
def ReadPeriod.new (start stop : DateTime) : Except String ReadPeriod :=
  if h : start % 1000 = 0 ∧ stop % 1000 = 0 then
    if hlt : start < stop then .ok { start, stop, start_micros := h.1, stop_micros := h.2, start_lt := hlt }
    else .error "read period must end after its start"
  else .error "read period supports microsecond precision"

def ReadPeriod.contains (p : ReadPeriod) (t : DateTime) : Bool := p.start ≤ t ∧ t < p.stop

structure CommitProject where
  owner : String
  repository : String
deriving DecidableEq, Repr

/-- `prefixes`. -/
def CommitProject.urls (p : CommitProject) : List String :=
  ["https", "http"].flatMap fun scheme => ["commit", "commits"].map fun kind =>
    scheme ++ "://github.com/" ++ p.owner ++ "/" ++ p.repository ++ "/" ++ kind ++ "/"

def CommitProject.contains (p : CommitProject) (a : Article) : Bool :=
  a.exactUrl.any fun url => p.urls.any fun start => start.toList.isPrefixOf url.toList

inductive ArticlePageDirection
  | older | newer
deriving DecidableEq, Repr

structure ArticlePageCursor where
  arrivedAt : DateTime
  articleId : ArticleId
deriving DecidableEq, Repr

def ArticlePageCursor.key (c : ArticlePageCursor) : ℤ ×ₗ ℕ := toLex (c.arrivedAt, c.articleId.uuid)

structure SelectionLimit where
  get : Nat
  pos : 0 < get
  fits : get + 1 ≤ bigintMax

/-- `SelectionLimit::new`. -/
def SelectionLimit.new (value : Nat) : Except String SelectionLimit :=
  if h : 0 < value ∧ value + 1 ≤ bigintMax then .ok { get := value, pos := h.1, fits := h.2 }
  else .error "selection limit must be positive and fit PostgreSQL LIMIT with lookahead"

def SelectionLimit.lookahead (l : SelectionLimit) : Nat := l.get + 1

structure ArticlePageRequest where
  scope : ArticleScope
  cursor : Option ArticlePageCursor
  direction : ArticlePageDirection
  limit : SelectionLimit
  readPeriod : Option ReadPeriod := none
  commitProject : Option CommitProject := none
  newer_cursor : direction = .newer → cursor.isSome = true
  period_feed : readPeriod.isSome = true → scope = .feed ∧ commitProject = none
  project_feed : commitProject.isSome = true → scope = .feed ∧ readPeriod = none

namespace ArticlePageRequest

theorem older_ne_newer : ArticlePageDirection.older ≠ .newer := by decide

theorem not_isSome_none {α : Type} : ¬ (none : Option α).isSome = true := by simp

theorem isSome_of_newer {direction : ArticlePageDirection} {cursor : Option ArticlePageCursor}
    (h : ¬ (direction = .newer ∧ cursor.isNone = true)) (hd : direction = .newer) : cursor.isSome = true := by
  rw [← Option.not_isNone, Bool.not_eq_true']
  exact Bool.eq_false_iff.2 fun hc => h ⟨hd, hc⟩

def new (scope : ArticleScope) (cursor : Option ArticlePageCursor) (direction : ArticlePageDirection)
    (limit : SelectionLimit) : Except String ArticlePageRequest :=
  if h : direction = .newer ∧ cursor.isNone = true then .error "newer direction requires a cursor"
  else .ok
    { scope, cursor, direction, limit
      newer_cursor := isSome_of_newer h
      period_feed := fun h => absurd h not_isSome_none
      project_feed := fun h => absurd h not_isSome_none }

theorem feed_of_period {r : ArticlePageRequest} {period : Option ReadPeriod}
    (h : ¬ (period.isSome = true ∧ (r.scope ≠ .feed ∨ r.commitProject.isSome = true))) (hp : period.isSome = true) :
    r.scope = .feed ∧ r.commitProject = none := by
  rw [not_and_or, not_or, not_not] at h
  rcases h with h | ⟨hscope, hproject⟩
  · exact absurd hp h
  · exact ⟨hscope, Option.not_isSome_iff_eq_none.1 hproject⟩

theorem no_period_of_project {r : ArticlePageRequest} {period : Option ReadPeriod}
    (h : ¬ (period.isSome = true ∧ (r.scope ≠ .feed ∨ r.commitProject.isSome = true)))
    (hproject : r.commitProject.isSome = true) : r.scope = .feed ∧ period = none := by
  refine ⟨(r.project_feed hproject).1, Option.not_isSome_iff_eq_none.1 fun hp => ?_⟩
  exact h ⟨hp, .inr hproject⟩

def withReadPeriod (r : ArticlePageRequest) (period : Option ReadPeriod) : Except String ArticlePageRequest :=
  if h : period.isSome = true ∧ (r.scope ≠ .feed ∨ r.commitProject.isSome = true) then
    .error "read period requires Feed without a subscription"
  else .ok
    { r with
      readPeriod := period
      period_feed := feed_of_period h
      project_feed := no_period_of_project h }

theorem feed_of_project {r : ArticlePageRequest} (h : ¬ (r.scope ≠ .feed ∨ r.readPeriod.isSome = true)) :
    r.scope = .feed ∧ r.readPeriod = none := by
  rw [not_or, not_not] at h
  exact ⟨h.1, Option.not_isSome_iff_eq_none.1 h.2⟩

def withCommitProject (r : ArticlePageRequest) (project : CommitProject) : Except String ArticlePageRequest :=
  if h : r.scope ≠ .feed ∨ r.readPeriod.isSome = true then
    .error "commit project requires unread Feed without a read period"
  else .ok
    { r with
      commitProject := some project
      period_feed := fun hp => absurd (.inr hp) h
      project_feed := fun _ => feed_of_project h }

/-- The request for the older articles after a cursor, or from the beginning. -/
def older (r : ArticlePageRequest) (c : Option ArticlePageCursor) : ArticlePageRequest :=
  { r with cursor := c, direction := .older, newer_cursor := fun h => absurd h older_ne_newer }

/-- The request for the newer articles before a cursor. -/
def newer (r : ArticlePageRequest) (c : ArticlePageCursor) : ArticlePageRequest :=
  { r with cursor := some c, direction := .newer, newer_cursor := fun _ => Option.isSome_some }

end ArticlePageRequest

/-- An article of a page; `markedReadAt` is its latest reading in the period of the request. -/
structure PageRow where
  article : Article
  markedReadAt : Option DateTime := none
deriving DecidableEq, Repr

/-- `marked_read_at.unwrap_or(first_arrived_at)`. -/
def PageRow.time (x : PageRow) : DateTime := x.markedReadAt.getD x.article.firstArrivedAt

def PageRow.key (x : PageRow) : ℤ ×ₗ ℕ := toLex (x.time, x.article.id.uuid)

structure ArticlePage where
  articles : List PageRow
  total : Nat
  unreadTotal : Nat
  hasNewer : Bool
  hasOlder : Bool
deriving DecidableEq, Repr

/-- The flags of a page; `extra` tells that there was a row more than its limit. -/
def ArticlePageRequest.page (r : ArticlePageRequest) (articles : List PageRow) (extra : Bool) (total unreadTotal : Nat) :
    ArticlePage :=
  { articles, total, unreadTotal
    hasNewer := r.cursor.isSome && (decide (r.direction = .older) || extra)
    hasOlder := (r.cursor.isSome && decide (r.direction = .newer)) || extra }

/-- The row comes after the cursor of a page in its direction. -/
def ArticlePageDirection.follows (d : ArticlePageDirection) (cursor : Option ArticlePageCursor) (x : PageRow) : Bool :=
  cursor.all fun c => match d with
    | .older => x.key < c.key
    | .newer => c.key < x.key

/-- The newest row first; its key is its time and its id. -/
def newestFirst (rows : List PageRow) : List PageRow := List.insertionSort (fun x y => y.key ≤ x.key) rows

def oldestFirst (rows : List PageRow) : List PageRow := List.insertionSort (fun x y => x.key ≤ y.key) rows

/-- `ORDER BY` the key, descending for the older direction. -/
def ArticlePageDirection.sorted (d : ArticlePageDirection) (rows : List PageRow) : List PageRow :=
  match d with
  | .older => newestFirst rows
  | .newer => oldestFirst rows

/-! ## The queries -/

/-- What the pages depend on beside the tables of `Db`: the column `occurred_at` of `article_read_events`, in
microseconds. -/
structure PageTables extends VisibilityTables where
  occurredAt : ArticleKey × Nat → Int

section
variable (v : PageTables) (db : Db) (w : WorkspaceId)

/-- `NOT a.is_read AND reader_article_visible(a)`. -/
def Db.unreadVisible : List (ArticleId × Article) :=
  (db.workspaceArticles w).filter fun row => !row.2.state.read && readerArticleVisible v.toVisibilityTables db w row

def Db.scopePredicate (scope : ArticleScope) (row : ArticleId × Article) : Bool :=
  match scope with
  | .feed | .subscriptionUnread _ => !row.2.state.read && readerArticleVisible v.toVisibilityTables db w row
  | .later => row.2.state.later && readerArticleVisible v.toVisibilityTables db w row
  | .subscription _ => true

/-- The rows of a scope. -/
def Db.scopeRows (scope : ArticleScope) (project : Option CommitProject) : List (ArticleId × Article) :=
  (db.workspaceArticles w).filter fun row =>
    (scope.subscriptionId.all fun s => (db.articleOrigins w row.1).any (·.subscriptionId = s)) &&
      db.scopePredicate v w scope row && project.all (·.contains row.2)

/-- The latest read event of an article in a period. -/
def Db.latestEvent (period : ReadPeriod) (i : ArticleId) : Option (ArticleKey × Nat) :=
  (List.insertionSort (fun x y => v.occurredAt y < v.occurredAt x ∨ (v.occurredAt y = v.occurredAt x ∧ y.2 ≤ x.2))
    ((db.articleReadEvents.rows.map (·.1)).filter fun e =>
      e.1 = (w, i) ∧ period.contains (v.occurredAt e * 1000))).head?

/-- The articles with an event in the period that are read now. -/
def Db.readRows (period : ReadPeriod) : List PageRow :=
  (db.workspaceArticles w).filterMap fun row =>
    if row.2.state.read then
      (db.latestEvent v w period row.1).map fun e => { article := row.2, markedReadAt := some (v.occurredAt e * 1000) }
    else none

/-- The rows that the pages of a request list. -/
def Db.selection (r : ArticlePageRequest) : List PageRow :=
  match r.readPeriod with
  | some period => db.readRows v w period
  | none => (db.scopeRows v w r.scope r.commitProject).map fun row => { article := row.2 }

/-- The microseconds that a bound `timestamptz` keeps; they count from the year 2000. -/
def boundMicros (t : DateTime) : DateTime := (t - 946684800000000000).tdiv 1000 * 1000 + 946684800000000000

/-- The cursor as the query compares it: the decimal key of an arrival is exact. -/
def ArticlePageRequest.boundCursor (r : ArticlePageRequest) : Option ArticlePageCursor :=
  r.cursor.map fun c => if r.readPeriod.isSome then { c with arrivedAt := boundMicros c.arrivedAt } else c

/-- `WHERE … ORDER BY … LIMIT`, cut to the limit and with the newest row first; was there one more row? -/
def ArticlePageRequest.fetch (r : ArticlePageRequest) (rows : List PageRow) : List PageRow × Bool :=
  let selected := rows.filter (r.direction.follows r.boundCursor)
  let fetched := (r.direction.sorted selected).take r.limit.lookahead
  let articles := fetched.take r.limit.get
  (if r.direction = .newer then articles.reverse else articles, decide (r.limit.get < fetched.length))

def Db.unreadTotal (r : ArticlePageRequest) : Nat :=
  match r.readPeriod with
  | some _ => (db.workspaceArticles w).countP fun row => !row.2.state.read
  | none =>
    if r.scope = .feed ∧ r.scope.subscriptionId = none then (db.scopeRows v w r.scope r.commitProject).length
    else (db.unreadVisible v w).length

/-- `article_summary_page`, and `read_history_page` for a request with a period. -/
def articleSummaryPage (r : ArticlePageRequest) : ArticlePage :=
  let rows := db.selection v w r
  let fetched := r.fetch rows
  r.page fetched.1 fetched.2 rows.length (db.unreadTotal v w r)

end

/-! ## The default of the trait -/

/-- An article of `article_summaries_by_workspace`. -/
structure ArticleListing where
  row : PageRow
  subscriptionIds : List SubscriptionId
deriving DecidableEq, Repr

def ArticlePageRequest.retains (r : ArticlePageRequest) (x : ArticleListing) : Bool :=
  (r.scope.subscriptionId.all fun s => x.subscriptionIds.contains s) &&
    match r.scope with
    | .feed =>
      match r.readPeriod with
      | some period => x.row.article.state.read && x.row.markedReadAt.any period.contains
      | none => !x.row.article.state.read
    | .subscriptionUnread _ => !x.row.article.state.read
    | .later => x.row.article.state.later
    | .subscription _ => true

def defaultSelection (all : List ArticleListing) (r : ArticlePageRequest) : List PageRow :=
  (all.filter r.retains).map (·.row)

/-- `article_summary_page` of a repository without its own. -/
def defaultArticleSummaryPage (all : List ArticleListing) (r : ArticlePageRequest) : ArticlePage :=
  let rows := newestFirst (defaultSelection all r)
  let matching := rows.filter (r.direction.follows r.cursor)
  let selected := if r.direction = .newer then matching.reverse else matching
  let articles := selected.take r.limit.get
  r.page (if r.direction = .newer then articles.reverse else articles) (decide (r.limit.get < selected.length))
    rows.length (all.countP fun x => !x.row.article.state.read)

/-! ## Cursors (`presentation.rs`) -/

/-- The times of a chrono `DateTime<Utc>`, in microseconds. -/
def inChronoRange (micros : Int) : Bool := -8334601228800000000 ≤ micros ∧ micros ≤ 8210266876799999999

section
variable (uuidText : ArticleId → List Char) (parseUuid : List Char → Option ArticleId)

def cursorText (time : DateTime) (id : ArticleId) : String :=
  String.ofList (intChars (time / 1000) ++ '.' :: uuidText id)

/-- `article_cursor`. -/
def articleCursor (x : PageRow) : String := cursorText uuidText x.time x.article.id

/-- `decode_article_cursor`; every failure is an "invalid article cursor". -/
def decodeArticleCursor (value : String) : Option ArticlePageCursor :=
  match value.toList.dropWhile (· ≠ '.') with
  | [] => none
  | _ :: id => do
    let micros ← readI64 (value.toList.takeWhile (· ≠ '.'))
    guard (inChronoRange micros)
    let articleId ← parseUuid id
    pure { arrivedAt := micros * 1000, articleId }

end

/-! ## Following the cursors -/

section
variable {κ : Type} (decode : κ → Option ArticlePageCursor) (cursor : PageRow → κ)

/-- The cursors of `article_page_view`. -/
def ArticlePage.newerCursor (p : ArticlePage) : Option κ := if p.hasNewer then p.articles.head?.map cursor else none

def ArticlePage.olderCursor (p : ArticlePage) : Option κ := if p.hasOlder then p.articles.getLast?.map cursor else none

/-- The articles of a page and the cursor of the next older one; a cursor that cannot be read is refused. -/
def olderPage (page : ArticlePageRequest → ArticlePage) (r : ArticlePageRequest) : Option κ → List PageRow × Option κ
  | none => ((page (r.older none)).articles, (page (r.older none)).olderCursor cursor)
  | some text =>
    match decode text with
    | some c => ((page (r.older (some c))).articles, (page (r.older (some c))).olderCursor cursor)
    | none => ([], none)

/-- The articles of a page and the cursor of the next newer one; the first request has a cursor, too. -/
def newerPage (page : ArticlePageRequest → ArticlePage) (r : ArticlePageRequest) : Option κ → List PageRow × Option κ
  | none => ([], none)
  | some text =>
    match decode text with
    | some c => ((page (r.newer c)).articles, (page (r.newer c)).newerCursor cursor)
    | none => ([], none)

end
end Inoreader
