import Inoreader.Lib.Chunks
import Inoreader.Store.Rules

/-!
# Article commands (`repository/article.rs`, `repository/focused_reading.rs`, `article_commands.rs`)

A patch reads the article and saves it with a compare-and-set on its revision in a later
transaction. Completing and undoing a reading and marking a scope read are one transaction each.
-/

namespace Inoreader
open Lib

inductive RepositoryError
  | notFound
  | conflict
  | storage (message : String)
deriving DecidableEq, Repr

abbrev RepoTx : Type → Type := Tx Db RepositoryError

def repoI64 (value : Nat) : RepoTx Unit :=
  Tx.require (value ≤ bigintMax) (.storage "out of range integral type conversion attempted")

/-- `article`. -/
def readArticle (w : WorkspaceId) (id : ArticleId) : RepoTx Article := do
  let db ← Tx.get
  Tx.orThrow (db.articles.lookup (w, id)) .notFound

/-- `record_read`. -/
def recordRead (key : ArticleKey) (revision : Nat) (method : ReadMethod) : RepoTx Unit := do
  repoI64 revision
  let db ← Tx.get
  Tx.require (db.articleReadEvents.lookup (key, revision) = none) (.storage "duplicate key value")
  Tx.modify fun db => { db with articleReadEvents := db.articleReadEvents.insert (key, revision) method }

/-- The guard of `cas_tx`: a row with the expected revision, or no row. -/
def requireRevision (stored expected : Option Nat) : RepoTx Unit :=
  match expected with
  | some e => do
    repoI64 e
    Tx.require (stored = some e) .conflict
  | none => Tx.require (stored = none) .conflict

/-- `cas_tx` on `articles`. -/
def casArticle (key : ArticleKey) (expected : Option Nat) (v : Article) : RepoTx Unit := do
  repoI64 v.revision
  let db ← Tx.get
  requireRevision ((db.articles.lookup key).map (·.revision)) expected
  Tx.modify fun db => db.setArticle key v

def saveArticle (w : WorkspaceId) (expected : Option Nat) (v : Article) : RepoTx Unit := do
  let db ← Tx.get
  let previous := (db.articles.lookup (w, v.id)).map (·.state.read)
  casArticle (w, v.id) expected v
  Tx.onlyIf (previous = some false ∧ v.state.read) (recordRead (w, v.id) v.revision .single)

structure ArticlePatch where
  read : Option Bool := none
  later : Option Bool := none
deriving DecidableEq, Repr

/-- A missing field is unchanged; marking unread protects the article from automatic rules. -/
def ArticlePatch.apply (p : ArticlePatch) (s : ArticleState) : ArticleState :=
  let s := match p.read with
    | some read => { s with read, protectUnread := s.protectUnread || !read }
    | none => s
  match p.later with
  | some later => { s with later }
  | none => s

/-- `update_article` after its read returned `snapshot`. -/
def updateArticle (w : WorkspaceId) (snapshot : Article) (p : ArticlePatch) : RepoTx Unit := do
  Tx.require (snapshot.revision + 1 < 2 ^ 64) (.storage "article revision exhausted")
  saveArticle w (some snapshot.revision)
    { snapshot with revision := snapshot.revision + 1, state := p.apply snapshot.state }

inductive ArticleScope
  | feed | later
  | subscription (id : SubscriptionId)
  | subscriptionUnread (id : SubscriptionId)
deriving DecidableEq, Repr

def ArticleScope.subscriptionId : ArticleScope → Option SubscriptionId
  | .subscription id | .subscriptionUnread id => some id
  | .feed | .later => none

section
variable (visible : Db → WorkspaceId → Article → Bool)

/-- The rows of one batch of `mark_scope_read_atomic`; `visible` is the SQL function
`reader_article_visible`. -/
def Db.unreadInScope (db : Db) (w : WorkspaceId) (scope : ArticleScope) (after : Option ArticleId) :
    List (ArticleId × Article) :=
  (db.workspaceArticles w).filter fun row =>
    !row.2.state.read &&
    ((match scope with | .subscription _ => true | _ => false) || visible db w row.2) &&
    (decide (scope ≠ .later) || row.2.state.later) &&
    (scope.subscriptionId.all fun s => db.libraryOrigins.any fun o =>
      o.workspaceId = w ∧ o.articleId = row.1 ∧ o.subscriptionId = s) &&
    after.all fun a => a.uuid < row.1.uuid

/-- The checks of a selected row; its id and its next revision go into the `UPDATE`. -/
def selectedValue (row : ArticleId × Article) : RepoTx (ArticleId × Nat) := do
  Tx.require (row.1 = row.2.id) (.storage "article identity/state/revision disagrees with retained document")
  Tx.require (row.2.revision + 1 < 2 ^ 64) (.storage "article revision exhausted")
  repoI64 (row.2.revision + 1)
  pure (row.1, row.2.revision + 1)

/-- What the `UPDATE` does with one value: an unread row with the revision before changes, and its event is written. -/
def markValue (w : WorkspaceId) (affected : Nat) (value : ArticleId × Nat) : RepoTx Nat := do
  let db ← Tx.get
  match db.articles.lookup (w, value.1) with
  | none => pure affected
  | some a =>
    if a.revision + 1 = value.2 ∧ a.state.read = false then do
      Tx.modify fun db => db.setArticle (w, value.1)
        { a with state := { a.state with read := true }, revision := value.2 }
      recordRead (w, value.1) value.2 .bulk
      pure (affected + 1)
    else pure affected

/-- One statement; it has to change as many rows as it has values. -/
def markChunk (w : WorkspaceId) (chunk : List (ArticleId × Nat)) : RepoTx Unit := do
  let affected ← Tx.loop (markValue w) 0 chunk
  Tx.require (affected = chunk.length) .conflict

/-- Mark the rows of one batch; a statement has at most 65535 parameters. -/
def markRows (w : WorkspaceId) (rows : List (ArticleId × Article)) : RepoTx Unit := do
  let values ← Tx.loop (fun values row => do
    let value ← selectedValue row
    pure (values ++ [value])) [] rows
  Tx.loop (fun _ chunk => markChunk w chunk) () (chunksOf (65535 / 2) values)

/-- The batches of `mark_scope_read_atomic`; every batch but the last moves the cursor forward, so a
bound of one more than the number of articles is never reached. -/
def markBatches (w : WorkspaceId) (scope : ArticleScope) (batch : Nat) : Nat → Option ArticleId → RepoTx Unit
  | 0, _ => pure ()
  | bound + 1, after => do
    let db ← Tx.get
    let rows := (db.unreadInScope visible w scope after).take batch
    match rows.getLast? with
    | none => pure ()
    | some last =>
      markRows w rows
      markBatches w scope batch bound (some last.1)

def markScopeReadAtomic (w : WorkspaceId) (scope : ArticleScope) (batch : Nat) : RepoTx Unit := do
  let db ← Tx.get
  markBatches visible w scope batch ((db.workspaceArticles w).length + 1) none

end

/-- `next_revision`. -/
def nextRevision (current : Nat) : RepoTx Nat := do
  Tx.require (current + 1 < 2 ^ 64) (.storage "article revision exhausted")
  Tx.require (current + 1 ≤ bigintMax) (.storage "article revision is outside storage range")
  pure (current + 1)

def lockedArticle (owner : AccountId) (w : WorkspaceId) (id : ArticleId) : RepoTx Article := do
  let db ← Tx.get
  let workspace ← Tx.orThrow (db.workspaces.lookup w) .notFound
  Tx.require (workspace.owner = owner) .notFound
  let a ← Tx.orThrow (db.articles.lookup (w, id)) .notFound
  Tx.require (a.id = id) (.storage "article revision/identity mismatch")
  pure a

/-- `snapshot`. -/
def readingSnapshot (key : ArticleKey) (a : Article) : RepoTx ReadingState := do
  let db ← Tx.get
  Tx.require (a.revision ≤ bigintMax) (.storage "article revision is outside storage range")
  let row := db.articleRatings.lookup key
  pure { revision := a.revision, read := a.state.read, rating := row.bind (·.rating)
         ratedAt := row.map (·.ratedAt), reason := row.bind (·.reason) }

/-- `receipt`. -/
def findReceipt (owner : AccountId) (operation : Nat) (key : ArticleKey) : RepoTx (Option Receipt) := do
  let db ← Tx.get
  match db.readingCompletions.lookup (owner, operation) with
  | none => pure none
  | some (stored, receipt) =>
    Tx.require (stored = key) .conflict
    pure (some receipt)

def writeArticle (key : ArticleKey) (a : Article) : RepoTx Unit := do
  repoI64 a.revision
  Tx.modify fun db => db.setArticle key a

def writeRating (key : ArticleKey) (state : ReadingState) : RepoTx Unit :=
  match state.ratedAt with
  | some ratedAt => Tx.modify fun db =>
    { db with articleRatings := db.articleRatings.insert key { rating := state.rating, ratedAt, reason := state.reason } }
  | none => do
    Tx.require (state.rating = none ∧ state.reason = none) (.storage "inconsistent stored rating")
    Tx.modify fun db => { db with articleRatings := db.articleRatings.erase key }

def completeReading (now : DateTime) (owner : AccountId) (w : WorkspaceId) (id : ArticleId)
    (command : CompleteReading) : RepoTx ReadingCompletion := do
  let current ← lockedArticle owner w id
  match ← findReceipt owner command.operationId (w, id) with
  | some receipt =>
    Tx.require (receipt.command = command) .conflict
    pure (receipt.undone.getD receipt.completed)
  | none =>
    Tx.require (current.revision = command.expectedRevision ∧ current.state.read = false) .conflict
    let previous ← readingSnapshot (w, id) current
    let revision ← nextRevision current.revision
    let state : ReadingState :=
      { revision, read := true, rating := command.rating, ratedAt := some now, reason := command.reason }
    let completed : ReadingCompletion :=
      { operationId := command.operationId, articleId := id, state, undone := false }
    let receipt : Receipt :=
      { command, previous, previousProtectUnread := current.state.protectUnread, completed, undone := none }
    Tx.modify fun db =>
      { db with readingCompletions := db.readingCompletions.insert (owner, command.operationId) ((w, id), receipt) }
    writeArticle (w, id) { current with revision, state := { current.state with read := true } }
    writeRating (w, id) state
    recordRead (w, id) revision .reader
    pure completed

def undoReading (owner : AccountId) (w : WorkspaceId) (id : ArticleId) (operation : Nat) :
    RepoTx ReadingCompletion := do
  let current ← lockedArticle owner w id
  let receipt ← Tx.orThrow (← findReceipt owner operation (w, id)) .notFound
  match receipt.undone with
  | some result => pure result
  | none =>
    Tx.require (current.revision = receipt.completed.state.revision) .conflict
    let revision ← nextRevision current.revision
    let result : ReadingCompletion :=
      { operationId := operation, articleId := id, state := { receipt.previous with revision }, undone := true }
    writeArticle (w, id)
      { current with
        revision
        state := { current.state with
          read := receipt.previous.read, protectUnread := receipt.previousProtectUnread } }
    writeRating (w, id) result.state
    Tx.modify fun db =>
      { db with
        readingCompletions := db.readingCompletions.insert (owner, operation)
          ((w, id), { receipt with undone := some result }) }
    pure result

end Inoreader
