import Inoreader.Store.Queue

/-! # Published full texts (`ingest_store/content.rs`) -/

namespace Inoreader
open Lib

def manifestIsCurrentOrNewer (current : ContentManifestPointer) (candidate : ContentRevision) : Bool :=
  decide (candidate.sourceRevision < current.sourceRevision ∨
    (current.sourceRevision = candidate.sourceRevision ∧ candidate.fetchedAt ≤ current.fetchedAt))

def stageChunks (v : ContentRevision) (representation : Representation) (chunks : List ContentChunk) : StoreTx Unit :=
  Tx.modify fun db =>
    { db with
      stagedContentChunks := chunks.foldl
        (fun t chunk => t.insert ⟨v.recordId, v.refreshId, representation, chunk.ordinal⟩ chunk.bytes)
        db.stagedContentChunks }

/-- What `search::projection::publish` requires of the safe chunks. -/
def checkProjection (v : ContentRevision) : StoreTx Unit := do
  Tx.require (v.safeHtmlChunks.map (·.ordinal) = List.range v.safeHtmlChunks.length)
    (.unavailable "search projection: noncontiguous content")
  Tx.require (String.fromUTF8? (ByteArray.mk (v.safeHtmlChunks.flatMap (·.bytes)).toArray)).isSome
    (.unavailable "search projection: invalid source UTF-8")

def publishContent (lease : LeasedWork) (now : DateTime) (v : ContentRevision) : StoreTx Unit := do
  assertLease lease now
  let db ← Tx.get
  if (db.contentManifests.lookup v.recordId).any (manifestIsCurrentOrNewer · v) then pure ()
  else
    stageChunks v .raw v.rawChunks
    stageChunks v .safe v.safeHtmlChunks
    toI64 v.sourceRevision "content source revision"
    Tx.modify fun db =>
      { db with contentManifests := db.contentManifests.insert v.recordId (.ofRevision v) }
    checkProjection v
    Tx.modify fun db => { db with refreshFailures := db.refreshFailures.erase v.recordId }
    enqueueWork (.cleanup v.recordId v.refreshId) (.cleanupContent v.recordId v.refreshId) (millis now)

/-- The generation that was requested to be kept is ignored; the current one is. -/
def cleanupContent (lease : LeasedWork) (now : DateTime) (record : SourceRecordId) (_requestedKeep : Nat) :
    StoreTx Unit := do
  assertLease lease now
  let db ← Tx.get
  let current ← Tx.orThrow (db.contentManifests.lookup record)
    (.unavailable "content cleanup has no current manifest")
  Tx.modify fun db =>
    { db with
      stagedContentChunks := (db.stagedContentChunks.rows.filter fun row =>
        row.1.recordId = record ∧ row.1.refreshId ≠ current.refreshId).foldl
          (fun t row => t.erase row.1) db.stagedContentChunks }

def recordRefreshFailure (lease : LeasedWork) (now : DateTime) (record : SourceRecordId) (diagnostic : String) :
    StoreTx Unit := do
  assertLease lease now
  Tx.modify fun db =>
    { db with refreshFailures := db.refreshFailures.insert record { diagnostic, job := lease.jobId } }

end Inoreader
