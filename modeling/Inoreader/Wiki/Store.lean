import Inoreader.Wiki.Command
import Inoreader.Lib.Lists
import Inoreader.Lib.Pointers
import Inoreader.Lib.Run
import Inoreader.Lib.Table
import Inoreader.Lib.Tx

/-!
# The wiki tables (`reader-storage-postgres/src/wiki/*.rs`)

A change locks the row of its namespace, so the transactions of a namespace run one after the other. An error rolls the
transaction back. The UUIDs that a transaction draws and its time are arguments.
-/

namespace Inoreader
open Lib

/-- A row of `wiki_pages`. -/
structure WikiPage where
  parent : Option Nat
  «namespace» : Nat
  id : Nat
  revision : Nat
  name : String
  markdown : String
  deleted : Bool
  author : AccountId
  updatedAt : DateTime
deriving DecidableEq, Repr

/-- A row of `wiki_revisions`. -/
structure WikiRevision where
  name : String
  markdown : String
  deleted : Bool
  author : AccountId
  createdAt : DateTime
  action : String
  parent : Option Nat
deriving DecidableEq, Repr

/-- A row of `wiki_namespaces`. -/
structure WikiNamespace where
  owner : AccountId
  name : String
deriving DecidableEq, Repr

/-- A row of `wiki_operations`. -/
structure WikiOperation where
  request : WriteInput
  response : WikiPage
deriving DecidableEq, Repr

structure WikiDb where
  namespaces : Table Nat WikiNamespace := ∅
  /-- `wiki_members` with the text of the role. -/
  members : Table (Nat × AccountId) String := ∅
  pages : Table (Nat × Nat) WikiPage := ∅
  names : Table (Nat × String) Nat := ∅
  revisions : Table (Nat × Nat × Nat) WikiRevision := ∅
  links : List ((Nat × Nat) × String) := []
  operations : Table (Nat × AccountId × Nat) WikiOperation := ∅
  subscriptionRoots : Table Nat Nat := ∅
deriving DecidableEq

abbrev WikiTx : Type → Type := Tx WikiDb WikiError

/-- The row of `wiki_revisions` that is copied from a page. -/
def WikiPage.asRevision (p : WikiPage) (action : String) : WikiRevision where
  name := p.name
  markdown := p.markdown
  deleted := p.deleted
  author := p.author
  createdAt := p.updatedAt
  action := action
  parent := p.parent

namespace WikiDb

/-- The parent of a page. -/
def parentOf (db : WikiDb) (ns : Nat) (id : Nat) : Option Nat := (db.pages.lookup (ns, id)).bind (·.parent)

/-- The recursive query: the page and its ancestors. -/
def ancestors (db : WikiDb) (ns : Nat) (id : Nat) : List Nat := Pointers.chain (db.parentOf ns) db.pages.rows.length id

/-- The rows of `wiki_links` of a page. -/
def linksOf (db : WikiDb) (ns : Nat) (id : Nat) : List String := (db.links.filter fun l => l.1 = (ns, id)).map (·.2)

def setPage (db : WikiDb) (p : WikiPage) : WikiDb := { db with pages := db.pages.insert (p.namespace, p.id) p }

/-- The links of a page are deleted and written again. -/
def setLinks (db : WikiDb) (ns id : Nat) (targets : List String) : WikiDb :=
  { db with links := (db.links.filter fun l => l.1 ≠ (ns, id)) ++ targets.map fun target => ((ns, id), target) }

end WikiDb

/-- A result that is computed without the tables. -/
def wikiResult {α : Type} (r : Except WikiError α) : WikiTx α :=
  match r with
  | .ok a => pure a
  | .error e => Tx.throw e

/-- The role of a member by its text. -/
def memberRole : Option String → Except WikiError WikiRole
  | some "reader" => .ok .reader
  | some "editor" => .ok .editor
  | none => .error .notFound
  | some _ => .error .storage

/-- `authorize`: the role of the actor. -/
def authorizeWiki (actor : AccountId) (ns : Nat) : WikiTx WikiRole := do
  let db ← Tx.get
  let row ← Tx.orThrow (db.namespaces.lookup ns) .notFound
  if row.owner = actor then pure .owner
  else wikiResult (memberRole (db.members.lookup (ns, actor)))

/-- `editor`. -/
def requireEditor (role : WikiRole) : WikiTx Unit := Tx.require (role.canEdit = true) .forbidden

/-- `load_page`. -/
def loadPage (ns id : Nat) (role : WikiRole) : WikiTx WikiPage := do
  let page ← Tx.orThrow ((← Tx.get).pages.lookup (ns, id)) .notFound
  Tx.require (page.deleted = false ∨ role.canEdit = true) .notFound
  pure page

/-! ## Changes -/

/-- What a change makes of the current page. -/
structure PageContent where
  name : String
  markdown : String
  deleted : Bool
  parent : Option Nat
  action : String
deriving DecidableEq, Repr

/-- The current page, which is not in trash. -/
def livePage (current : Option WikiPage) : WikiTx WikiPage := do
  let page ← Tx.orThrow current .notFound
  Tx.require (page.deleted = false) .conflict
  pure page

/-- `Trash` and `Restore`. -/
def moveTrash (current : Option WikiPage) (deleted : Bool) : WikiTx PageContent := do
  let page ← Tx.orThrow current .notFound
  Tx.require (page.deleted ≠ deleted) .conflict
  pure { name := page.name, markdown := page.markdown, deleted, parent := page.parent
         action := if deleted then "trash" else "restore" }

/-- The `match` over the change. -/
def changedContent (ns : Nat) (input : WriteInput) (current : Option WikiPage) : WikiTx PageContent :=
  match input.change with
  | .save name markdown => do
    Tx.require (current.all (·.deleted = false)) .conflict
    pure { name, markdown, deleted := false, parent := current.bind (·.parent), action := "save" }
  | .setParent selected => do
    let page ← livePage current
    pure { name := page.name, markdown := page.markdown, deleted := false, parent := selected, action := "set_parent" }
  | .rename name => do
    let page ← livePage current
    pure { name, markdown := page.markdown, deleted := false, parent := page.parent, action := "rename" }
  | .trash => moveTrash current true
  | .restore => moveTrash current false
  | .restoreRevision revision => do
    let _ ← livePage current
    let row ← Tx.orThrow ((← Tx.get).revisions.lookup (ns, input.page, revision)) .notFound
    pure { name := row.name, markdown := row.markdown, deleted := false, parent := row.parent, action := "restore_revision" }

/-- The change may not take its parent from the trash. -/
def choosesParent : ChangeInput → Bool
  | .setParent _ | .restoreRevision _ => true
  | _ => false

/-- The parent is a page of the namespace and not below the page. -/
def checkParent (ns : Nat) (role : WikiRole) (input : WriteInput) (parent : Option Nat) : WikiTx Unit :=
  match parent with
  | none => pure ()
  | some parentId => do
    let target ← loadPage ns parentId role
    Tx.require (¬ (target.deleted = true ∧ choosesParent input.change = true)) (.invalid "parent page is in trash")
    Tx.require (input.page ∉ (← Tx.get).ancestors ns parentId) (.invalid "parent would create a cycle")

/-- The page with its name, its revision and its links is written. -/
def storePage (page : WikiPage) (action : String) (occupied : Option Nat) : WikiTx Unit := do
  Tx.modify (·.setPage page)
  Tx.onlyIf (occupied = none) (Tx.modify fun db => { db with names := db.names.insert (page.namespace, page.name) page.id })
  Tx.require ((← Tx.get).revisions.lookup (page.namespace, page.id, page.revision) = none) .storage
  Tx.modify fun db => { db with
    revisions := db.revisions.insert (page.namespace, page.id, page.revision) (page.asRevision action) }
  Tx.modify (·.setLinks page.namespace page.id (linkNames page.markdown))

/-- A change that was not made before. -/
def applyChange (limits : WikiLimits) (actor : AccountId) (ns : Nat) (role : WikiRole) (input : WriteInput) (revision : Nat)
    (now : DateTime) : WikiTx WikiPage := do
  let current := (← Tx.get).pages.lookup (ns, input.page)
  Tx.require (current.map (·.revision) = input.expectedRevision) .conflict
  let content ← changedContent ns input current
  checkParent ns role input content.parent
  wikiResult (limits.name content.name)
  wikiResult (limits.markdown content.markdown)
  let occupied := (← Tx.get).names.lookup (ns, content.name)
  Tx.require (occupied.all (· = input.page)) .nameTaken
  let page : WikiPage :=
    { parent := content.parent, «namespace» := ns, id := input.page, revision, name := content.name
      markdown := content.markdown, deleted := content.deleted, author := actor, updatedAt := now }
  storePage page content.action occupied
  Tx.modify fun db => { db with operations := db.operations.insert (ns, actor, input.operation) ⟨input, page⟩ }
  pure page

/-- `change_page`; the request is compared as JSON. -/
def changePage (limits : WikiLimits) (actor : AccountId) (ns : Nat) (command : WikiWrite limits) (revision : Nat)
    (now : DateTime) : WikiTx WikiPage := do
  let role ← authorizeWiki actor ns
  requireEditor role
  match (← Tx.get).operations.lookup (ns, actor, command.input.operation) with
  | some prior => do
    Tx.require (prior.request = command.input) .conflict
    pure prior.response
  | none => applyChange limits actor ns role command.input revision now

/-! ## The root of the subscriptions -/

def subscriptionsName : String := "Subscriptions"

/-- `ensure_subscription_root`; `id` and `revision` are drawn. -/
def ensureSubscriptionRoot (limits : WikiLimits) (actor : AccountId) (ns id revision : Nat) (now : DateTime) :
    WikiTx WikiPage := do
  wikiResult (limits.name subscriptionsName)
  let role ← authorizeWiki actor ns
  requireEditor role
  let db ← Tx.get
  match db.subscriptionRoots.lookup ns with
  | some root => do
    let page ← loadPage ns root role
    Tx.require (page.deleted = false) (.invalid "restore the Subscriptions parent page from trash first")
    pure page
  | none => do
    Tx.require (db.names.lookup (ns, subscriptionsName) = none) .nameTaken
    Tx.require (db.pages.lookup (ns, id) = none) .storage
    let page : WikiPage :=
      { parent := none, «namespace» := ns, id, revision, name := subscriptionsName, markdown := "", deleted := false
        author := actor, updatedAt := now }
    Tx.modify (·.setPage page)
    Tx.require ((← Tx.get).revisions.lookup (ns, id, revision) = none) .storage
    Tx.modify fun db => { db with revisions := db.revisions.insert (ns, id, revision) (page.asRevision "create_subscription_root") }
    Tx.modify fun db => { db with names := db.names.insert (ns, subscriptionsName) id }
    Tx.modify fun db => { db with subscriptionRoots := db.subscriptionRoots.insert ns id }
    pure page

/-! ## Runs -/

/-- A request of an actor. -/
inductive WikiLabel (limits : WikiLimits)
  | change (actor : AccountId) (ns : Nat) (command : WikiWrite limits) (revision : Nat) (now : DateTime)
  | ensureRoot (actor : AccountId) (ns id revision : Nat) (now : DateTime)

/-- The tables after a request. -/
def wikiStep (limits : WikiLimits) (db : WikiDb) : WikiLabel limits → Option WikiDb
  | .change actor ns command revision now => some ((changePage limits actor ns command revision now).commit db)
  | .ensureRoot actor ns id revision now => some ((ensureSubscriptionRoot limits actor ns id revision now).commit db)

end Inoreader
