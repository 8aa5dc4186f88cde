import Inoreader.Wiki.Consistency

/-!
# Members, drafts and favorites of the wiki (`reader-storage-postgres/src/wiki/*.rs`)

Every request authorizes its actor against the namespace under the lock of its row. `accountOf` finds the account of a
user name; the revision of a draft is drawn. The subscriptions and their owners stay as they are.
-/

namespace Inoreader
open Lib

/-- What an author writes in a draft. -/
structure DraftContent where
  page : Option Nat
  baseRevision : Option Nat
  name : String
  markdown : String
deriving DecidableEq, Repr

/-- A row of `wiki_drafts`. -/
structure WikiDraft where
  revision : Nat
  content : DraftContent
deriving DecidableEq, Repr

/-- A row of `subscription_wiki_links`. -/
structure WikiBinding where
  owner : AccountId
  «namespace» : Nat
  page : Nat
deriving DecidableEq, Repr

structure WikiSpace where
  db : WikiDb := {}
  drafts : Table (Nat × AccountId × Nat) WikiDraft := ∅
  favorites : Table (Nat × Nat × AccountId) Unit := ∅
  /-- The owners of the workspaces of the subscriptions. -/
  subscriptions : Table Nat AccountId := ∅
  bindings : Table Nat WikiBinding := ∅

abbrev SpaceTx : Type → Type := Tx WikiSpace WikiError

/-- A transaction on the tables of the pages. -/
def onPages {α : Type} (m : WikiTx α) : SpaceTx α := fun s =>
  match m s.db with
  | .ok (a, db) => .ok (a, { s with db })
  | .error e => .error e

section
variable (limits : WikiLimits) (accountOf : String → Option AccountId)

/-- `create_namespace` -/
def createNamespace (actor : AccountId) (id : Nat) (name : String) : SpaceTx Unit := do
  onPages (wikiResult (limits.name name))
  Tx.modify fun s =>
    if (s.db.namespaces.lookup id).isSome then s
    else { s with db := { s.db with namespaces := s.db.namespaces.insert id ⟨actor, name⟩ } }
  let role ← onPages (authorizeWiki actor id)
  let row ← Tx.orThrow ((← Tx.get).db.namespaces.lookup id) .notFound
  Tx.require (role = .owner ∧ row.name = name) .conflict

/-- The page and the base revision that a draft refers to. -/
def DraftContent.refers (content : DraftContent) : Option (Nat × Nat) :=
  content.page.bind fun page => content.baseRevision.map fun base => (page, base)

/-- The page of a draft can be read. -/
def draftPage (ns : Nat) (role : WikiRole) (content : DraftContent) : SpaceTx Unit :=
  match content.page with
  | some page => do
    let _ ← onPages (loadPage ns page role)
    pure ()
  | none => pure ()

/-- The row of a draft is written; its base revision is a foreign key. -/
def storeDraft (actor : AccountId) (ns id : Nat) (content : DraftContent) (drawn : Nat) : SpaceTx WikiDraft := do
  let known := (← Tx.get).db.revisions
  Tx.require (content.refers.all fun r => (known.lookup (ns, r.1, r.2)).isSome) .storage
  Tx.modify fun s => { s with drafts := s.drafts.insert (ns, actor, id) { revision := drawn, content } }
  pure { revision := drawn, content }

/-- A draft that has another revision than the expected one is not written, but it may have been written already. -/
def sameDraft (previous : Option WikiDraft) (content : DraftContent) : SpaceTx WikiDraft := do
  let row ← Tx.orThrow previous .conflict
  Tx.require (row.content = content) .conflict
  pure row

/-- `save_draft` -/
def saveDraft (actor : AccountId) (ns id : Nat) (expected : Option Nat) (content : DraftContent) (drawn : Nat) :
    SpaceTx WikiDraft := do
  Tx.onlyIf (content.name ≠ "") (onPages (wikiResult (limits.name content.name)))
  onPages (wikiResult (limits.markdown content.markdown))
  Tx.require (content.page.isSome = content.baseRevision.isSome)
    (.invalid "draft page and base revision must be supplied together")
  let role ← onPages (authorizeWiki actor ns)
  onPages (requireEditor role)
  draftPage ns role content
  let previous := (← Tx.get).drafts.lookup (ns, actor, id)
  if previous.map (·.revision) ≠ expected then sameDraft previous content
  else storeDraft actor ns id content drawn

/-- `discard_draft` -/
def discardDraft (actor : AccountId) (ns id : Nat) (expected : Option Nat) : SpaceTx Unit := do
  let role ← onPages (authorizeWiki actor ns)
  onPages (requireEditor role)
  let current := ((← Tx.get).drafts.lookup (ns, actor, id)).map (·.revision)
  Tx.require (¬ (current.isSome ∧ current ≠ expected)) .conflict
  Tx.modify fun s => { s with drafts := s.drafts.erase (ns, actor, id) }

def roleText : WikiRole → String
  | .reader => "reader"
  | _ => "editor"

/-- `set_member` -/
def setMember (actor : AccountId) (ns : Nat) (username : String) (role : Option WikiRole) : SpaceTx Unit := do
  Tx.require (role ≠ some .owner) (.invalid "ownership transfer is not supported")
  let own ← onPages (authorizeWiki actor ns)
  Tx.require (own = .owner) .forbidden
  let account ← Tx.orThrow (accountOf username) .notFound
  Tx.require (account ≠ actor) (.invalid "owner membership cannot be changed")
  Tx.modify fun s => { s with db := { s.db with
    members := match role with
      | some role => s.db.members.insert (ns, account) (roleText role)
      | none => s.db.members.erase (ns, account) } }

/-- `set_favorite` -/
def setFavorite (actor : AccountId) (ns id : Nat) (favorite : Bool) : SpaceTx Unit := do
  let role ← onPages (authorizeWiki actor ns)
  let page ← onPages (loadPage ns id role)
  Tx.require (page.deleted = false) .conflict
  Tx.modify fun s => { s with
    favorites := if favorite then s.favorites.insert (ns, id, actor) () else s.favorites.erase (ns, id, actor) }

/-- `subscription_owner` -/
def subscriptionOwner (actor : AccountId) (subscription : Nat) : SpaceTx Unit := do
  Tx.require ((← Tx.get).subscriptions.lookup subscription = some actor) .notFound

/-- `set_binding` to a page; a link that is there keeps its owner. -/
def bindPage (actor : AccountId) (subscription ns id : Nat) : SpaceTx Unit := do
  subscriptionOwner actor subscription
  let role ← onPages (authorizeWiki actor ns)
  let page ← onPages (loadPage ns id role)
  Tx.require (page.deleted = false) .notFound
  Tx.modify fun s => { s with
    bindings := s.bindings.insert subscription ⟨((s.bindings.lookup subscription).map (·.owner)).getD actor, ns, id⟩ }

/-- `set_binding` without a page. -/
def unbindPage (actor : AccountId) (subscription : Nat) : SpaceTx Unit := do
  subscriptionOwner actor subscription
  Tx.modify fun s =>
    if (s.bindings.lookup subscription).any (·.owner = actor) then { s with bindings := s.bindings.erase subscription }
    else s

/-- What an actor asks of a namespace. -/
inductive SpaceRequest (limits : WikiLimits)
  | create (name : String)
  | change (command : WikiWrite limits) (revision : Nat) (now : DateTime)
  | ensureRoot (id revision : Nat) (now : DateTime)
  | saveDraft (id : Nat) (expected : Option Nat) (content : DraftContent) (drawn : Nat)
  | discardDraft (id : Nat) (expected : Option Nat)
  | setMember (username : String) (role : Option WikiRole)
  | setFavorite (page : Nat) (favorite : Bool)
  | bindPage (subscription page : Nat)
  | unbindPage (subscription : Nat)

structure SpaceLabel (limits : WikiLimits) where
  actor : AccountId
  ns : Nat
  request : SpaceRequest limits

def SpaceLabel.perform (l : SpaceLabel limits) : SpaceTx Unit :=
  match l.request with
  | .create name => createNamespace limits l.actor l.ns name
  | .change command revision now => do let _ ← onPages (changePage limits l.actor l.ns command revision now)
  | .ensureRoot id revision now => do let _ ← onPages (ensureSubscriptionRoot limits l.actor l.ns id revision now)
  | .saveDraft id expected content drawn => do let _ ← saveDraft limits l.actor l.ns id expected content drawn
  | .discardDraft id expected => discardDraft l.actor l.ns id expected
  | .setMember username role => setMember accountOf l.actor l.ns username role
  | .setFavorite page favorite => setFavorite l.actor l.ns page favorite
  | .bindPage subscription page => bindPage l.actor subscription l.ns page
  | .unbindPage subscription => unbindPage l.actor subscription

/-- The account that a request would make a member. -/
def SpaceLabel.subject (l : SpaceLabel limits) : Option AccountId :=
  match l.request with
  | .setMember username (some _) => accountOf username
  | _ => none

/-- The tables after a request. -/
def spaceStep (s : WikiSpace) (l : SpaceLabel limits) : Option WikiSpace := some ((l.perform limits accountOf).commit s)

end

/-! ## What a namespace holds -/

/-- The pages of a namespace with all that belongs to them. -/
structure PagesView where
  pages : Nat → Option WikiPage
  names : String → Option Nat
  revisions : Nat → Nat → Option WikiRevision
  links : Nat → List String
  operations : AccountId → Nat → Option WikiOperation
  root : Option Nat

def WikiDb.pagesOf (db : WikiDb) (ns : Nat) : PagesView where
  pages id := db.pages.lookup (ns, id)
  names name := db.names.lookup (ns, name)
  revisions id revision := db.revisions.lookup (ns, id, revision)
  links id := db.linksOf ns id
  operations actor id := db.operations.lookup (ns, actor, id)
  root := db.subscriptionRoots.lookup ns

namespace WikiSpace

def row (s : WikiSpace) (ns : Nat) : Option WikiNamespace := s.db.namespaces.lookup ns

def member (s : WikiSpace) (ns : Nat) (account : AccountId) : Option String := s.db.members.lookup (ns, account)

/-- The role that a request of the account gets. -/
def roleOf (s : WikiSpace) (ns : Nat) (account : AccountId) : Except WikiError WikiRole :=
  (authorizeWiki account ns s.db).map Prod.fst

def draft (s : WikiSpace) (ns : Nat) (author : AccountId) (id : Nat) : Option WikiDraft := s.drafts.lookup (ns, author, id)

def favorite (s : WikiSpace) (ns : Nat) (account : AccountId) (page : Nat) : Bool :=
  (s.favorites.lookup (ns, page, account)).isSome

end WikiSpace

/-- What a request may change: the pages as an editor, the members as the owner, drafts and favorites of its own, the link of
an own subscription to a page it may read, nothing in another namespace; a namespace keeps its owner and its name, a page
its revisions. -/
structure AllowedChange (s s' : WikiSpace) (actor : AccountId) (ns : Nat) : Prop where
  rows : ∀ ns' row, s.row ns' = some row → s'.row ns' = some row
  revisions : ∀ k row, s.db.revisions.lookup k = some row → s'.db.revisions.lookup k = some row
  others : ∀ ns', ns' ≠ ns → s'.row ns' = s.row ns' ∧ s'.db.pagesOf ns' = s.db.pagesOf ns' ∧
    (∀ account, s'.member ns' account = s.member ns' account) ∧
    (∀ account id, s'.draft ns' account id = s.draft ns' account id) ∧
    ∀ account page, s'.favorite ns' account page = s.favorite ns' account page
  pages : s'.db.pagesOf ns ≠ s.db.pagesOf ns → s.roleOf ns actor = .ok .owner ∨ s.roleOf ns actor = .ok .editor
  members : (∃ account, s'.member ns account ≠ s.member ns account) → s.roleOf ns actor = .ok .owner
  drafts : ∀ account id, s'.draft ns account id ≠ s.draft ns account id →
    account = actor ∧ (s.roleOf ns actor = .ok .owner ∨ s.roleOf ns actor = .ok .editor)
  favorites : ∀ account page, s'.favorite ns account page ≠ s.favorite ns account page →
    account = actor ∧ ∃ role, s.roleOf ns actor = .ok role
  bindings : ∀ subscription, s'.bindings.lookup subscription ≠ s.bindings.lookup subscription →
    s.subscriptions.lookup subscription = some actor ∧ ∀ binding, s'.bindings.lookup subscription = some binding →
      binding.namespace = ns ∧ (∃ role, s.roleOf ns actor = .ok role) ∧
      ∃ page, s.db.pages.lookup (ns, binding.page) = some page ∧ page.deleted = false

/-- What holds in every state: the tables of the pages agree, members have a role in a namespace of someone else, and what
drafts, favorites and links refer to is there. -/
structure WikiSpace.Sound (s : WikiSpace) : Prop where
  consistent : s.db.Consistent
  members : ∀ ns account role, s.member ns account = some role →
    (role = "reader" ∨ role = "editor") ∧ ∃ row, s.row ns = some row ∧ row.owner ≠ account
  pages : ∀ ns id, (s.db.pages.lookup (ns, id)).isSome = true → (s.row ns).isSome = true
  drafts : ∀ ns author id row, s.draft ns author id = some row →
    (s.row ns).isSome = true ∧ row.content.page.isSome = row.content.baseRevision.isSome ∧
    ∀ page base, row.content.refers = some (page, base) →
      (s.db.pages.lookup (ns, page)).isSome = true ∧ (s.db.revisions.lookup (ns, page, base)).isSome = true
  favorites : ∀ ns account page, s.favorite ns account page = true → (s.db.pages.lookup (ns, page)).isSome = true
  bindings : ∀ subscription binding, s.bindings.lookup subscription = some binding →
    (s.db.pages.lookup (binding.namespace, binding.page)).isSome = true

end Inoreader
