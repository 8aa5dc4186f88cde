import Inoreader.Repository.Articles

/-!
# Jobs and subscriptions of the repository (`repository.rs`, `repository/subscription.rs`, `repository/workspace.rs`)
-/

namespace Inoreader
open Lib

/-- The origin that `enqueue_work_tx` writes. Unlike `work_origin` it takes a URL of any scheme. -/
def repositoryOrigin : WorkItem → RepoTx OriginKey
  | .pollSource s | .refreshSource s | .collectWebFeed s | .fanOut s _ _ => sourceUrlOrigin s
  | .extractFullText _ _ url _ => pure url.origin
  | .cleanupContent record _ => do
    let db ← Tx.get
    let record ← Tx.orThrow (db.sourceRecords.lookup record) .notFound
    sourceUrlOrigin record.sourceId
  | .evaluateArticleRules w _ _ | .applyRule w _ _ _ _ => pure (.internalWorkspace w)
where
  sourceUrlOrigin (source : SourceId) : RepoTx OriginKey := do
    let db ← Tx.get
    let definition ← Tx.orThrow (db.sources.lookup source) .notFound
    pure definition.url.origin

def enqueueWorkTx (id : JobId) (item : WorkItem) (now : DateTime) : RepoTx Unit := do
  let db ← Tx.get
  match db.ingestJobs.lookup id with
  | some existing => Tx.require (existing.item = item) (.storage "durable job identity collision")
  | none =>
    let origin ← repositoryOrigin item
    Tx.modify fun db => db.setJob id (.new item (millis now) origin)

end Inoreader
