import Inoreader.Store.Rules

/-!
# Delivery (`ingest_store/delivery.rs`)

`deliver` is one transaction: it detaches the record from the articles that hold it under another key,
finds or creates the article of the record's key and attaches the record to it.
-/

namespace Inoreader
open Lib

/-- `delivery_targets`: the page is cut before inactive subscriptions are dropped. -/
def Db.linkedSubscriptions (db : Db) (source : SourceId) : List SubscriptionId :=
  List.insertionSort (fun x y => x.uuid ≤ y.uuid)
    ((db.subscribers source).filter fun s => (db.subscriptions.lookup s).isSome)

def Db.targetPage (db : Db) (source : SourceId) (after : Option SubscriptionId) (limit : Nat) : List SubscriptionId :=
  ((db.linkedSubscriptions source).filter fun s => after.all (·.uuid < s.uuid)).take limit

def deliveryTargets (source : SourceId) (after : Option SubscriptionId) (limit : Nat) :
    StoreTx (List DeliveryTarget) := do
  Tx.require (limit ≤ bigintMax) (.unavailable "out of range integral type conversion attempted")
  let db ← Tx.get
  Tx.loop (fun targets id => do
    let s ← Tx.orThrow (db.subscriptions.lookup id) .notFound
    if s.status.isActive then
      let workspace ← Tx.orThrow (db.workspaces.lookup s.workspaceId) .notFound
      if workspace.acceptsDelivery then
        pure (targets ++ [{ workspaceId := s.workspaceId, subscriptionId := s.id }])
      else pure targets
    else pure targets) [] (db.targetPage source after limit)

/-- What the loop over the articles that hold the record collects. -/
structure Moved where
  inherited : List (ArticleState × DateTime) := []
  articles : List ArticleId := []
  subscriptions : List SubscriptionId := []
  retainedIdentity : Option Article := none
deriving DecidableEq, Repr

/-- `prior_by_article`: the subscriptions of the record's origin rows by article, in the order of the ids. -/
def Db.priorByArticle (db : Db) (w : WorkspaceId) (r : SourceRecordId) : List (ArticleId × List SubscriptionId) :=
  let rows := db.libraryOrigins.filter fun row => row.workspaceId = w ∧ row.sourceRecordId = r
  (List.insertionSort (fun x y => x.uuid ≤ y.uuid) (rows.map (·.articleId)).dedup).map fun a =>
    (a, (rows.filter (·.articleId = a)).map (·.subscriptionId))

section
variable (P : Platform)

def collision (w : WorkspaceId) : StoreError :=
  .unavailable s!"dedup fingerprint collision in workspace {w.uuid}"

def upsertArticle (w : WorkspaceId) (a : Article) (dedupKey : DedupKey) : StoreTx Unit := do
  toI64 a.revision "article revision"
  Tx.modify fun db => db.setArticle (w, a.id) a
  let db ← Tx.get
  let hash := P.fingerprint dedupKey
  Tx.require ((db.libraryDedup.lookup (w, hash)).all (·.dedupKey = dedupKey)) (collision w)
  Tx.modify fun db =>
    { db with libraryDedup := db.libraryDedup.insert (w, hash) { dedupKey, articleId := a.id } }

/-- `DELETE FROM articles` and `DELETE FROM library_dedup … AND dedup_key = $3`. -/
def deleteArticle (w : WorkspaceId) (id : ArticleId) (dedupKey : DedupKey) : StoreTx Unit :=
  Tx.modify fun db =>
    let hash := P.fingerprint dedupKey
    { db with
      articles := db.articles.erase (w, id)
      libraryDedup :=
        if (db.libraryDedup.lookup (w, hash)).any (·.dedupKey = dedupKey) then db.libraryDedup.erase (w, hash)
        else db.libraryDedup }

/-- An article without origins disappears. -/
def storeDetached (w : WorkspaceId) (id : ArticleId) (detached : Article) : StoreTx Unit :=
  if detached.origins = [] then deleteArticle P w id detached.key
  else upsertArticle P w detached detached.key

/-- One turn of the loop over `prior_by_article`. -/
def detachPrior (w : WorkspaceId) (record : SourceRecord) (moved : Moved)
    (prior : ArticleId × List SubscriptionId) : StoreTx Moved := do
  let db ← Tx.get
  let old ← Tx.orThrow (db.articles.lookup (w, prior.1))
    (.unavailable "library origin references a missing article")
  if old.key = record.key then pure moved
  else
    let detached := old.detachOrigin record.id
    Tx.modify fun db =>
      { db with
        libraryOrigins := db.libraryOrigins.filter fun row =>
          ¬ (row.workspaceId = w ∧ row.articleId = prior.1 ∧ row.sourceRecordId = record.id) }
    storeDetached P w prior.1 detached
    pure
      { inherited := moved.inherited ++ [(old.state, old.firstArrivedAt)]
        articles := moved.articles ++ [old.id]
        subscriptions := prior.2.foldl (fun acc s => if s ∈ acc then acc else acc ++ [s]) moved.subscriptions
        retainedIdentity :=
          if detached.origins = [] ∧ moved.retainedIdentity = none then some { detached with key := record.key }
          else moved.retainedIdentity }

/-- The article that the dedup index names for the record's key. -/
def findByKey (w : WorkspaceId) (key : DedupKey) : StoreTx (Option Article) := do
  let db ← Tx.get
  match db.libraryDedup.lookup (w, P.fingerprint key) with
  | none => pure none
  | some row =>
    Tx.require (row.dedupKey = key) (collision w)
    let a ← Tx.orThrow (db.articles.lookup (w, row.articleId))
      (.unavailable "dedup index references a missing article")
    Tx.require (a.id = row.articleId ∧ a.key = key) (.unavailable "dedup index disagrees with article identity")
    pure (some a)

end

def minTime : List DateTime → Option DateTime
  | [] => none
  | t :: ts => some (ts.foldl min t)

/-- The found article with the inherited state, or the one that takes the inherited state over. -/
def resolveArticle (commit : DeliveryCommit) (found : Option Article) (moved : Moved) : Option Article :=
  let time := minTime (moved.inherited.map (·.2))
  match found, ArticleState.merge (moved.inherited.map (·.1)) with
  | some a, some state => some
    { a with
      state := (ArticleState.merge [a.state, state]).getD a.state
      firstArrivedAt := match time with
        | some t => min a.firstArrivedAt t
        | none => a.firstArrivedAt }
  | some a, none => some a
  | none, some state =>
    let a := moved.retainedIdentity.getD
      { id := commit.proposedArticleId, key := commit.record.key, state
        firstArrivedAt := time.getD commit.deliveredAt, origins := [], revision := 0 }
    some { a with state, firstArrivedAt := time.getD a.firstArrivedAt }
  | none, none => none

/-- The article of a first insertion. -/
def freshArticle (commit : DeliveryCommit) : Article :=
  { id := commit.proposedArticleId, key := commit.record.key, state := {}, firstArrivedAt := commit.deliveredAt
    origins := [], revision := 0 }

/-- Whether the workspace marks the record of a first insertion read because of its age. -/
def automaticallyRead (commit : DeliveryCommit) : StoreTx Bool := do
  let db ← Tx.get
  match (db.readingPreferences.lookup commit.target.workspaceId).join with
  | none => pure false
  | some days =>
    Tx.require (0 < days) (.unavailable "invalid automatic reading age")
    pure (commit.record.publishedAt.any fun p => decide (days < dateNaive commit.deliveredAt - p.day))

def recordAutomaticRead (key : ArticleKey) (revision : Nat) : StoreTx Unit := do
  toI64 revision "out of range integral type conversion attempted"
  let db ← Tx.get
  Tx.require (db.articleReadEvents.lookup (key, revision) = none) (.unavailable "duplicate key value")
  Tx.modify fun db => { db with articleReadEvents := db.articleReadEvents.insert (key, revision) .automaticAge }

def migrateRuleProvenance (w : WorkspaceId) (a : ArticleId) (movedArticles : List ArticleId) : StoreTx Unit :=
  Tx.loop (fun _ old =>
    if old = a then pure ()
    else do
      let db ← Tx.get
      let rows := db.ruleEvaluations.rows.filter fun row => row.1.workspaceId = w ∧ row.1.articleId = old
      Tx.loop (fun _ row =>
        Tx.modify fun db =>
          let key : RuleEvaluationKey := { row.1 with articleId := a }
          let document := match db.ruleEvaluations.lookup key with
            | some current => .mergedProvenance current row.2
            | none => row.2
          { db with ruleEvaluations := (db.ruleEvaluations.insert key document).erase row.1 }) () rows) ()
    movedArticles

/-- The new edges and the closure over the edges of the article that was left. -/
def linkHistory (w : WorkspaceId) (a : ArticleId) (movedArticles : List ArticleId) : StoreTx Unit :=
  Tx.loop (fun _ old =>
    if old = a then pure ()
    else Tx.modify fun db =>
      let inherited := (db.articleHistoryLinks.filter fun l => l.workspaceId = w ∧ l.articleId = old).map
        fun l => ({ l with articleId := a } : HistoryLink)
      { db with
        articleHistoryLinks := (⟨w, a, old⟩ :: inherited).foldl (fun ls l => insertRow l ls) db.articleHistoryLinks })
    () movedArticles

/-- The deferred foreign keys of `article_ratings` and `reading_completions`, checked at commit. -/
def checkReferences : StoreTx Unit := do
  let db ← Tx.get
  Tx.require ((∀ row ∈ db.articleRatings.rows, (db.articles.lookup row.1).isSome) ∧
      ∀ row ∈ db.readingCompletions.rows, (db.articles.lookup row.2.1).isSome)
    (.unavailable "violates foreign key constraint")

def linkOrigins (w : WorkspaceId) (a : ArticleId) (r : SourceRecordId) (subscriptions : List SubscriptionId) :
    StoreTx Unit :=
  Tx.modify fun db =>
    { db with
      libraryOrigins := subscriptions.foldl (fun rows s => insertRow ⟨w, a, s, r⟩ rows) db.libraryOrigins }

section
variable (P : Platform)

/-- The article that the record joins, and the result of the delivery. -/
def chooseArticle (commit : DeliveryCommit) (moved : Moved) (found : Option Article) :
    StoreTx (Article × DeliveryResult) :=
  match resolveArticle commit found moved with
  | some a => pure (a, .alreadyDelivered a.id)
  | none => do
    let read ← automaticallyRead commit
    let fresh := freshArticle commit
    pure ({ fresh with state := { fresh.state with read } }, .delivered commit.proposedArticleId)

/-- The subscriptions whose links move with the record, and the one that is delivered to. -/
def Moved.linked (moved : Moved) (s : SubscriptionId) : List SubscriptionId :=
  if s ∈ moved.subscriptions then moved.subscriptions else moved.subscriptions ++ [s]

/-- `deliver` from the choice of the article on. -/
def attachRecord (now : DateTime) (subscription : Subscription) (commit : DeliveryCommit) (moved : Moved)
    (chosen : Article × DeliveryResult) : StoreTx DeliveryResult := do
  let w := commit.target.workspaceId
  let record := commit.record
  let article := chosen.1.attachOrigin record.id
  upsertArticle P w article record.key
  Tx.onlyIf (chosen.2 = .delivered commit.proposedArticleId ∧ article.state.read)
    (recordAutomaticRead (w, article.id) article.revision)
  linkOrigins w article.id record.id (moved.linked commit.target.subscriptionId)
  migrateRuleProvenance w article.id moved.articles
  linkHistory w article.id moved.articles
  enqueueArticleRuleJobs now w subscription article record (moved.linked commit.target.subscriptionId)
  checkReferences
  pure chosen.2

/-- `deliver` for a subscription that is active in a workspace that accepts deliveries. -/
def deliverActive (now : DateTime) (subscription : Subscription) (commit : DeliveryCommit) :
    StoreTx DeliveryResult := do
  let w := commit.target.workspaceId
  let db ← Tx.get
  let moved ← Tx.loop (detachPrior P w commit.record) {} (db.priorByArticle w commit.record.id)
  let found ← findByKey P w commit.record.key
  let chosen ← chooseArticle commit moved found
  attachRecord P now subscription commit moved chosen

def deliver (lease : LeasedWork) (now : DateTime) (commit : DeliveryCommit) : StoreTx DeliveryResult := do
  assertLease lease now
  let w := commit.target.workspaceId
  let db ← Tx.get
  match db.subscriptions.lookup commit.target.subscriptionId with
  | none =>
    let removed ← Tx.orThrow (db.removedSubscriptions.lookup commit.target.subscriptionId) .notFound
    Tx.require (removed.workspaceId = w) .notFound
    pure .skippedInactive
  | some subscription =>
    let workspace ← Tx.orThrow (db.workspaces.lookup w) .notFound
    Tx.require (subscription.workspaceId = w ∧ workspace.id = w) .notFound
    if subscription.status.isActive ∧ workspace.acceptsDelivery then deliverActive P now subscription commit
    else pure .skippedInactive

end

def advanceFanout (lease : LeasedWork) (now : DateTime) (after : SubscriptionId) : StoreTx Unit :=
  match lease.item with
  | .fanOut source record _ => do
    assertLease lease now
    enqueueWork (.fanoutContinuation lease.jobId after) (.fanOut source record (some after)) (millis now)
  | _ => pure ()

end Inoreader
