import Inoreader.Lib.Calendar
import Inoreader.Lib.Like
import Inoreader.Lib.OrderBy
import Inoreader.Repository.Articles
import Inoreader.Wiki.Store

/-!
# Search (`reader-storage-postgres/src/search/mod.rs`, `query.sql`, `reader-application/src/search.rs`)

The tables as the query reads them: a document is what it decodes to, and the text of a record is what the projection
holds of its published content. UUIDs are compared by their texts, which is the order of their numbers. The locks on
namespaces, and errors of the connection, are left out.
-/

namespace Inoreader
open Lib

inductive SearchKind
  | all | news | wiki
deriving DecidableEq, Repr

/-- `SearchLimits::new`. -/
structure SearchLimits where
  queryBytes : Nat
  pageSize : Nat
  excerptCharacters : Nat
  valid : ¬ (queryBytes = 0 ∨ pageSize = 0 ∨ 2 ^ 31 - 1 ≤ pageSize ∨ excerptCharacters = 0 ∨
    2 ^ 31 - 1 < excerptCharacters)

/-- `SearchRequest::new`; the offset is a `u32`. -/
structure SearchRequest (limits : SearchLimits) where
  query : String
  kind : SearchKind
  «namespace» : Option Nat
  subscription : Option SubscriptionId
  offset : UInt32
  fits : ¬ (limits.queryBytes < query.utf8ByteSize ∨ '\x00' ∈ query.toList)
  scope : ¬ («namespace».isSome ∧ (kind ≠ .wiki ∨ subscription.isSome) ∨ subscription.isSome ∧ kind ≠ .news)

inductive SearchTarget
  | news (workspace : WorkspaceId) (article : ArticleId)
  | wiki («namespace» page : Nat)
deriving DecidableEq, Repr

structure SearchHit where
  target : SearchTarget
  title : String
  context : String
  excerpt : String
  updatedAt : String
deriving DecidableEq, Repr

structure SearchPage where
  items : List SearchHit
  hasMore : Bool
deriving DecidableEq, Repr

/-- A workspace document. -/
structure SearchWorkspace where
  owner : AccountId
  name : String
deriving DecidableEq, Repr

structure SearchDb where
  workspaces : Table WorkspaceId SearchWorkspace := ∅
  articles : Table (WorkspaceId × ArticleId) Article := ∅
  /-- `library_origins`, all columns of which are its key. -/
  origins : Table OriginRow Unit := ∅
  /-- `search_content` by record. -/
  searchContent : Table SourceRecordId String := ∅
  /-- The workspace of a subscription. -/
  subscriptions : Table SubscriptionId WorkspaceId := ∅
  namespaces : Table Nat WikiNamespace := ∅
  members : Table (Nat × AccountId) String := ∅
  pages : Table (Nat × Nat) WikiPage := ∅

/-- Lower case, character by character, and the collation of the database. -/
structure SearchPlatform where
  lower : Char → Char
  textLe : String → String → Bool
  lower_special : Like.KeepsSpecial lower
  collation : OrderBy.Column textLe

/-- A row of the common table `hits`. -/
structure FoundRow where
  target : SearchTarget
  title : String
  context : String
  text : String
  updatedAt : String
deriving DecidableEq, Repr

namespace SearchDb
variable (P : SearchPlatform) {limits : SearchLimits} (db : SearchDb) (owner : AccountId) (q : SearchRequest limits)

/-- The condition on `wiki_namespaces`: the account owns it or is a member. -/
def canRead (ns : Nat) : Bool :=
  (db.namespaces.lookup ns).any fun row => row.owner = owner || (db.members.lookup (ns, owner)).isSome

/-- The join of a subscription with its workspace. -/
def ownsSubscription (id : SubscriptionId) : Bool :=
  ((db.subscriptions.lookup id).bind db.workspaces.lookup).any fun w => w.owner = owner

def originRows : List OriginRow := db.origins.rows.map (·.1)

/-- `$2` -/
def pattern : List Char := '%' :: (Like.escape q.query.toList ++ ['%'])

/-- `text ILIKE $2 ESCAPE '\'` -/
def ilike (text : String) : Bool := Like.isILike P.lower (pattern q) text.toList

/-- `candidates`: the keys of the articles that match, of all accounts. -/
def candidates : List (WorkspaceId × ArticleId) :=
  if q.kind = .wiki then []
  else
    (((db.articles.rows.filter fun r => ilike P q r.2.key.title).map (·.1)) ++
      ((db.articles.rows.filter fun r => r.2.key.description.any (ilike P q)).map (·.1)) ++
      ((db.originRows.filter fun o => (db.searchContent.lookup o.sourceRecordId).any (ilike P q)).map fun o =>
        (o.workspaceId, o.articleId))).dedup

def inSubscription (key : WorkspaceId × ArticleId) : Bool :=
  q.subscription.all fun s =>
    db.originRows.any fun o => o.workspaceId = key.1 && o.articleId = key.2 && o.subscriptionId = s

def newsRow (key : WorkspaceId × ArticleId) : Option FoundRow :=
  (db.articles.lookup key).bind fun article => (db.workspaces.lookup key.1).bind fun workspace =>
    if workspace.owner = owner ∧ db.inSubscription q key then
      some { target := .news key.1 key.2, title := article.key.title, context := workspace.name,
             text := article.key.description.getD "", updatedAt := Calendar.rfc3339 article.firstArrivedAt }
    else none

def wikiRow (key : Nat × Nat) (page : WikiPage) : Option FoundRow :=
  (db.namespaces.lookup key.1).bind fun ns =>
    if page.deleted = false ∧ q.namespace.all (· = key.1) ∧ db.canRead owner key.1 ∧
        (ilike P q page.name ∨ ilike P q page.markdown) then
      some { target := .wiki key.1 key.2, title := page.name, context := ns.name, text := page.markdown,
             updatedAt := Calendar.timestamptz page.updatedAt }
    else none

/-- `hits` -/
def hits : List FoundRow :=
  (db.candidates P q).filterMap (db.newsRow owner q) ++
    if q.kind = .news then [] else db.pages.rows.filterMap fun r => db.wikiRow P owner q r.1 r.2

end SearchDb

section
variable (P : SearchPlatform) {limits : SearchLimits} (q : SearchRequest limits)

def lowerText (s : String) : List Char := s.toList.map P.lower

def searchRank (title : String) : Nat :=
  if lowerText P title = lowerText P q.query then 0 else if SearchDb.ilike P q title then 1 else 2

def SearchTarget.kindOrder : SearchTarget → Nat
  | .news .. => 0
  | .wiki .. => 1

def SearchTarget.container : SearchTarget → Nat
  | .news workspace _ => workspace.uuid
  | .wiki ns _ => ns

def SearchTarget.id : SearchTarget → Nat
  | .news _ article => article.uuid
  | .wiki _ page => page

/-- `ORDER BY rank, updated_at DESC, kind, container, id` -/
def searchColumns : List (FoundRow → FoundRow → Bool) :=
  [fun a b => decide (searchRank P q a.title ≤ searchRank P q b.title),
   fun a b => P.textLe b.updatedAt a.updatedAt,
   fun a b => decide (a.target.kindOrder ≤ b.target.kindOrder),
   fun a b => decide (a.target.container ≤ b.target.container),
   fun a b => decide (a.target.id ≤ b.target.id)]

/-- `strpos`: where a text occurs first, counted from one, or zero. -/
def strpos (text needle : List Char) : Nat :=
  ((text.tails.findIdx? fun t => needle.isPrefixOf t).map (· + 1)).getD 0

/-- `excerpt_start` -/
def excerptStart (text : String) : Int :=
  max 1 ((strpos (lowerText P text) (lowerText P q.query) : Int) - limits.excerptCharacters / 3)

/-- The excerpt; the sum of the start and the length is an `integer`, whose overflow is an error. -/
def excerpt (text : String) : Option String :=
  let start := excerptStart P q text
  if 2 ^ 31 ≤ start + limits.excerptCharacters then none
  else
    let from_ := (start - 1).toNat
    some (String.ofList ((if 1 < start then ['…'] else []) ++
      (text.toList.drop from_).take limits.excerptCharacters ++
      (if start + limits.excerptCharacters ≤ text.toList.length then ['…'] else [])))

/-- The text of the first record of an article that matches. -/
def SearchDb.body (db : SearchDb) (target : SearchTarget) : Option String :=
  match target with
  | .wiki .. => none
  | .news workspace article =>
    let origins := db.originRows.filter fun o => o.workspaceId = workspace && o.articleId = article
    let texts := origins.filterMap fun o =>
      ((db.searchContent.lookup o.sourceRecordId).filter (SearchDb.ilike P q)).map fun t => (o.sourceRecordId, t)
    (OrderBy.sort [fun a b => decide (a.1.uuid ≤ b.1.uuid)] texts).head?.map (·.2)

def FoundRow.finish (db : SearchDb) (row : FoundRow) : Option SearchHit :=
  (excerpt P q ((db.body P q row.target).getD row.text)).map fun excerpt =>
    { target := row.target, title := row.title, context := row.context, excerpt, updatedAt := row.updatedAt }

/-- The rows in the order of the result. -/
def SearchDb.sorted (db : SearchDb) (owner : AccountId) : List FoundRow :=
  OrderBy.sort (searchColumns P q) (db.hits P owner q)

/-- A scope that is named is one of the account. -/
def SearchDb.inScope (db : SearchDb) (owner : AccountId) : Prop :=
  (∀ ns, q.namespace = some ns → db.canRead owner ns = true) ∧
    ∀ id, q.subscription = some id → db.ownsSubscription owner id = true

/-- `PostgresSearchStore::search` -/
def search (db : SearchDb) (owner : AccountId) : Except RepositoryError SearchPage :=
  let namespaces := (db.namespaces.rows.map (·.1)).filter fun ns => db.canRead owner ns && q.namespace.all (· = ns)
  if q.namespace.any (· ∉ namespaces) then .error .notFound
  else if q.subscription.any fun id => !db.ownsSubscription owner id then .error .notFound
  else if q.query = "" then .ok { items := [], hasMore := false }
  else
    match (((db.sorted P q owner).drop q.offset.toNat).take (limits.pageSize + 1)).mapM (FoundRow.finish P q db) with
    | none => .error (.storage "search storage failure")
    | some rows => .ok { items := rows.take limits.pageSize, hasMore := decide (limits.pageSize < rows.length) }

end
end Inoreader
