import Inoreader.Lib.Like
import Inoreader.Lib.OrderBy
import Inoreader.Wiki.AccessRuns

/-!
# Reads of the wiki (`reader-storage-postgres/src/wiki/access.rs`, `organization.rs`, `read.rs`, `binding.rs`)

A read authorizes its actor and answers from the tables. Who may not edit sees no page in trash.
-/

namespace Inoreader
open Lib

/-- What the limits and the database add to the reads: sizes, lower case, collation and the names of the accounts. -/
structure WikiReads where
  pageSize : Nat
  searchBytes : Nat
  searchExcerptCharacters : Nat
  lower : Char → Char
  textLe : String → String → Bool
  usernameOf : AccountId → String

structure PageSummary where
  id : Nat
  name : String
  updatedAt : DateTime
  excerpt : String
  excerptTruncated : Bool
deriving DecidableEq, Repr

def WikiPage.summary (page : WikiPage) : PageSummary :=
  { id := page.id, name := page.name, updatedAt := page.updatedAt, excerpt := "", excerptTruncated := false }

inductive WikiCollection
  | favorites
  | standalone
deriving DecidableEq, Repr

inductive WikiQuery
  | namespace
  | page (id : Nat)
  | resolve (name : String)
  | revision (id revision : Nat)
  | links (id : Nat)
  | history (id offset : Nat)
  | pages (search : String) (trash : Bool) (offset : Nat)
  | collection (kind : WikiCollection) (offset : Nat)
  | organization (id offset : Nat)
  | draft (id : Nat)
  | members (offset : Nat)
  | binding (subscription : Nat)
deriving DecidableEq, Repr

inductive WikiAnswer
  | namespace (name : String) (role : WikiRole)
  | page (page : WikiPage)
  | revision (row : WikiRevision) (authorName : String)
  | links (links : List (String × Option Nat))
  | history (rows : List (Nat × WikiRevision × String)) (hasMore : Bool)
  | pages (items : List PageSummary) (hasMore : Bool)
  | organization (parent : Option PageSummary) (children : List PageSummary) (hasMore favorite : Bool)
  | draft (draft : Option WikiDraft)
  | members (items : List (AccountId × String × WikiRole)) (hasMore : Bool)
  | binding (linked : Bool) (page : Option (Nat × PageSummary))
deriving DecidableEq, Repr

section
variable (limits : WikiLimits) (R : WikiReads) (s : WikiSpace) (actor : AccountId) (ns : Nat)

/-- `load_page` -/
def WikiSpace.loaded (id : Nat) (role : WikiRole) : Except WikiError WikiPage := (loadPage ns id role s.db).map Prod.fst

def WikiReads.search (value : String) : Except WikiError Unit :=
  if R.searchBytes < value.utf8ByteSize || value.toList.any (· == '\x00') then
    .error (.invalid "search exceeds configured byte limit or contains NUL")
  else .ok ()

/-- `LIMIT $n OFFSET $m` with a limit of one row more than a page. -/
def WikiReads.window {α : Type} (offset : Nat) (rows : List α) : List α × Bool :=
  let rows := (rows.drop offset).take (R.pageSize + 1)
  (rows.take R.pageSize, decide (R.pageSize < rows.length))

/-- `ORDER BY name, id` -/
def WikiReads.byName (pages : List WikiPage) : List WikiPage :=
  OrderBy.sort [fun a b => R.textLe a.name b.name, fun a b => decide (a.id ≤ b.id)] pages

/-- The pages of the namespace. -/
def WikiSpace.pagesIn : List WikiPage := (s.db.pages.rows.filter fun e => decide (e.1.1 = ns)).map (·.2)

/-- The page a link leads to. -/
def WikiSpace.linkTarget (name : String) : Option Nat :=
  (s.db.names.lookup (ns, name)).filter fun id => (s.db.pages.lookup (ns, id)).any fun page => !page.deleted

def readLinks (id : Nat) : List (String × Option Nat) :=
  (OrderBy.sort [R.textLe] (s.db.linksOf ns id)).map fun name => (name, s.linkTarget ns name)

def readHistory (id offset : Nat) : List (Nat × WikiRevision × String) × Bool :=
  let rows := s.db.revisions.rows.filter fun e => decide (e.1.1 = ns) && decide (e.1.2.1 = id)
  let sorted := OrderBy.sort [fun a b => decide (b.2.createdAt ≤ a.2.createdAt), fun a b => decide (a.1 ≤ b.1)]
    (rows.map fun e => (e.1.2.2, e.2))
  R.window offset (sorted.map fun e => (e.1, e.2, R.usernameOf e.2.author))

/-- `pages.sql` -/
def readPages (search : String) (trash : Bool) (offset : Nat) : List PageSummary × Bool :=
  let pattern := '%' :: Like.escape search.toList ++ ['%']
  let found := (s.pagesIn ns).filter fun page => page.deleted == trash &&
    (search == "" || Like.isILike R.lower pattern page.name.toList || Like.isILike R.lower pattern page.markdown.toList)
  R.window offset ((R.byName found).map fun page => { page.summary with
    excerpt := if search = "" then "" else String.ofList (page.markdown.toList.take R.searchExcerptCharacters)
    excerptTruncated := search ≠ "" && decide (R.searchExcerptCharacters < page.markdown.length) })

/-- Whether the collection of the actor lists a page. -/
def WikiSpace.collects (kind : WikiCollection) (page : WikiPage) : Bool :=
  match kind with
  | .favorites => s.favorite ns actor page.id
  | .standalone => page.parent.isNone && !(s.pagesIn ns).any fun child => child.parent = some page.id

def collectionRows (kind : WikiCollection) : List WikiPage :=
  R.byName ((s.pagesIn ns).filter fun page => !page.deleted && s.collects actor ns kind page)

def readCollection (kind : WikiCollection) (offset : Nat) : List PageSummary × Bool :=
  R.window offset ((collectionRows R s actor ns kind).map WikiPage.summary)

def readOrganization (page : WikiPage) (id offset : Nat) : WikiAnswer :=
  let parent := (page.parent.bind fun parent => s.db.pages.lookup (ns, parent)).filter fun page => !page.deleted
  let children := (s.pagesIn ns).filter fun child => decide (child.parent = some id) && !child.deleted
  let (items, hasMore) := R.window offset ((R.byName children).map WikiPage.summary)
  .organization (parent.map WikiPage.summary) items hasMore (s.favorite ns actor id)

/-- `members` -/
def readMembers (offset : Nat) : Except WikiError (List (AccountId × String × WikiRole) × Bool) :=
  let rows := s.db.members.rows.filter fun e => decide (e.1.1 = ns)
  let sorted := OrderBy.sort [fun a b => decide (a.1.uuid ≤ b.1.uuid)] (rows.map fun e => (e.1.2, e.2))
  let (rows, hasMore) := R.window offset sorted
  (rows.mapM fun e => (memberRole (some e.2)).map fun role => (e.1, R.usernameOf e.1, role)).map fun rows => (rows, hasMore)

/-- `read_binding` -/
def readBinding (subscription : Nat) : Except WikiError WikiAnswer :=
  if s.subscriptions.lookup subscription ≠ some actor then .error .notFound
  else
    match (s.bindings.lookup subscription).filter fun binding => binding.owner = actor with
    | none => .ok (.binding false none)
    | some binding =>
      match s.roleOf binding.namespace actor with
      | .error .notFound => .ok (.binding true none)
      | .error e => .error e
      | .ok role =>
        match s.loaded binding.namespace binding.page role with
        | .error .notFound => .ok (.binding true none)
        | .error e => .error e
        | .ok page => .ok (.binding true (if page.deleted then none else some (binding.namespace, page.summary)))

/-- The answer to a question about the namespace. -/
def answer : WikiQuery → Except WikiError WikiAnswer
  | .namespace => do
    let role ← s.roleOf ns actor
    let row ← ((s.row ns).map Except.ok).getD (.error .notFound)
    pure (.namespace row.name role)
  | .page id => do
    let role ← s.roleOf ns actor
    let page ← s.loaded ns id role
    pure (.page page)
  | .resolve name => do
    limits.name name
    let role ← s.roleOf ns actor
    let id ← ((s.db.names.lookup (ns, name)).map Except.ok).getD (.error .notFound)
    let page ← s.loaded ns id role
    pure (.page page)
  | .revision id revision => do
    let role ← s.roleOf ns actor
    let _ ← s.loaded ns id role
    let row ← ((s.db.revisions.lookup (ns, id, revision)).map Except.ok).getD (.error .notFound)
    pure (.revision row (R.usernameOf row.author))
  | .links id => do
    let role ← s.roleOf ns actor
    let _ ← s.loaded ns id role
    pure (.links (readLinks R s ns id))
  | .history id offset => do
    let role ← s.roleOf ns actor
    let _ ← s.loaded ns id role
    pure (.history (readHistory R s ns id offset).1 (readHistory R s ns id offset).2)
  | .pages search trash offset => do
    R.search search
    let role ← s.roleOf ns actor
    if trash = true ∧ role.canEdit = false then throw .forbidden
    pure (.pages (readPages R s ns search trash offset).1 (readPages R s ns search trash offset).2)
  | .collection kind offset => do
    let _ ← s.roleOf ns actor
    pure (.pages (readCollection R s actor ns kind offset).1 (readCollection R s actor ns kind offset).2)
  | .organization id offset => do
    let role ← s.roleOf ns actor
    let page ← s.loaded ns id role
    pure (readOrganization R s actor ns page id offset)
  | .draft id => do
    let role ← s.roleOf ns actor
    if role.canEdit = false then throw .forbidden
    pure (.draft (s.draft ns actor id))
  | .members offset => do
    let role ← s.roleOf ns actor
    if role ≠ .owner then throw .forbidden
    let members ← readMembers R s ns offset
    pure (.members members.1 members.2)
  | .binding subscription => readBinding s actor subscription

end

end Inoreader
