import Inoreader.Store.Queue

/-!
# Polls and the poll backlog (`ingest_store/poll.rs`, `ingest_store/backlog.rs`)

A poll is committed in one transaction with its jobs. What an initial poll defers is kept in
`poll_backlog` and drained batch by batch.
-/

namespace Inoreader
open Lib

def sourceById (id : SourceId) : StoreTx SourceDefinition := do
  let db ← Tx.get
  Tx.orThrow (db.sources.lookup id) .notFound

def Db.hasCommittedPoll (db : Db) (source : SourceId) : Bool := (db.pollState.lookup source).isSome

def Db.sourceValidators (db : Db) (source : SourceId) : CacheValidators :=
  ((db.pollState.lookup source).map (·.validators)).getD {}

def recordById (id : SourceRecordId) : StoreTx SourceRecord := do
  let db ← Tx.get
  Tx.orThrow (db.sourceRecords.lookup id) .notFound

def Db.recordByUpstream (db : Db) (source : SourceId) (upstream : String) : Option SourceRecord :=
  (db.sourceRecordIdentity.lookup (source, upstream)).map (·.document)

def activeDeliveryCount (source : SourceId) : StoreTx Nat := do
  let db ← Tx.get
  Tx.loop (fun count id =>
    match db.subscriptions.lookup id with
    | none => pure count
    | some s => do
      let workspace ← Tx.orThrow (db.workspaces.lookup s.workspaceId) .notFound
      pure (if s.status.isActive ∧ workspace.acceptsDelivery then count + 1 else count)) 0 (db.subscribers source)

/-- The backlog of a source in the order of its ordinals. -/
def Db.backlog (db : Db) (source : SourceId) : List BacklogRow :=
  List.insertionSort (fun x y => x.ordinal ≤ y.ordinal)
    ((db.pollBacklog.rows.filter (·.1.1 = source)).map (·.2))

def BacklogRow.polled (row : BacklogRow) : PolledRecord := { record := row.record, action := row.action }

/-- `pending_poll_batch`: one row more than the batch is read to learn whether more is left. -/
def pendingPoll (source : SourceId) (limit : Nat) : StoreTx (Option PollCommit) := do
  Tx.require (limit ≠ 0) (.unavailable "backfill batch must be positive")
  Tx.require (limit + 1 ≤ bigintMax) (.unavailable "backfill batch exceeds storage range")
  let db ← Tx.get
  let rows := (db.backlog source).take (limit + 1)
  match rows with
  | [] => pure none
  | first :: _ =>
    let incomplete := decide (limit < rows.length)
    let rows := rows.take limit
    Tx.require (∀ row ∈ rows, row.context = first.context) (.unavailable "mixed backfill generations")
    Tx.require (∀ row ∈ rows, row.record.sourceId = source) (.unavailable "backfill source identity mismatch")
    pure (some
      { sourceId := source, sourceRevision := first.context.sourceRevision, records := rows.map (·.polled)
        remainder := [], fetchedAt := first.context.fetchedAt, finalUrl := first.context.finalUrl
        validators := first.context.validators, incomplete, durationMs := 0 })

def PollCommit.context (c : PollCommit) : BacklogContext :=
  { sourceRevision := c.sourceRevision, fetchedAt := c.fetchedAt, finalUrl := c.finalUrl
    validators := c.validators }

/-- The records of a commit belong to its source and have different upstream ids. -/
def PollCommit.identitiesOk (c : PollCommit) : Prop :=
  (∀ p ∈ c.records ++ c.remainder, p.record.sourceId = c.sourceId) ∧
    ((c.records ++ c.remainder).map (·.record.upstreamId)).Nodup

instance (c : PollCommit) : Decidable c.identitiesOk := inferInstanceAs (Decidable (_ ∧ _))

/-- Insert into `poll_backlog`, whose keys are (source, record) and (source, ordinal). -/
def insertBacklog (c : PollCommit) (entry : PolledRecord × Nat) : StoreTx Unit := do
  let db ← Tx.get
  Tx.require (db.pollBacklog.lookup (c.sourceId, entry.1.record.id) = none ∧
      ∀ row ∈ db.backlog c.sourceId, row.ordinal ≠ entry.2) (.unavailable "duplicate key value")
  Tx.modify fun db =>
    { db with
      pollBacklog := db.pollBacklog.insert (c.sourceId, entry.1.record.id)
        { ordinal := entry.2, record := entry.1.record, action := entry.1.action, context := c.context } }

/-- Delete a committed record from the backlog; it must be the one that was deferred. -/
def removeBacklog (c : PollCommit) (p : PolledRecord) : StoreTx Unit := do
  let db ← Tx.get
  let prior := db.pollBacklog.lookup (c.sourceId, p.record.id)
  Tx.modify fun db => { db with pollBacklog := db.pollBacklog.erase (c.sourceId, p.record.id) }
  Tx.require (prior.all fun row => row.record = p.record ∧ row.action = p.action) .conflict

def persistBacklog (c : PollCommit) : StoreTx Unit := do
  Tx.require (c.remainder = [] ∨ c.incomplete)
    (.unavailable "backfill cannot be complete with remaining records")
  Tx.require c.identitiesOk (.unavailable "invalid backfill source or duplicate upstream identity")
  Tx.loop (fun _ entry => insertBacklog c entry) () c.remainder.zipIdx
  Tx.loop (fun _ p => removeBacklog c p) () c.records

/-- `ai_bootstrap::begin_poll`: the whole response is registered before any fan-out. -/
def discover (source : SourceId) (record : SourceRecord) (ordinal : Nat) (rows : List DiscoveryRow) :
    List DiscoveryRow :=
  if rows.any (·.record = record.id) then rows
  else rows ++ [{ record := record.id, source, publicationOrder := record.publishedAt.map (·.clock)
                  sourceOrder := ordinal }]

def beginPoll (c : PollCommit) : StoreTx Unit := do
  Tx.require ((c.records ++ c.remainder).length ≤ bigintMax) (.unavailable "source order exceeds storage range")
  Tx.modify fun db =>
    { db with
      recordDiscovery := (c.records ++ c.remainder).zipIdx.foldl
        (fun rows e => discover c.sourceId e.1.record e.2 rows) db.recordDiscovery }

def PollAction.fansOut : PollAction → Bool
  | .deliver | .regroup => true
  | .refreshContent => false

/-- One turn of the loop over the records of `commit_poll`. -/
def commitRecord (observedAtMs nowMs : Int) (p : PolledRecord) : StoreTx Unit := do
  let record := p.record
  toI64 record.revision "source record revision"
  Tx.modify fun db =>
    { db with
      sourceRecords := db.sourceRecords.insert record.id record
      sourceRecordIdentity := db.sourceRecordIdentity.insert (record.sourceId, record.upstreamId)
        { recordId := record.id, observedAtMs, document := record } }
  Tx.onlyIf p.action.fansOut
    (enqueueWork (.record .fanout record.id record.revision) (.fanOut record.sourceId record.id none) nowMs)
  match record.key.location.fetchUrl with
  | some url =>
    enqueueWork (.record .fulltext record.id record.revision)
      (.extractFullText record.id record.revision url false) nowMs
  | none => pure ()

def SourceHealth.withSuccess (h : Option SourceHealth) (atMs : Int) (incomplete : Bool) : SourceHealth :=
  { lastSuccessMs := some atMs, incomplete, error := none, lastErrorMs := h.bind (·.lastErrorMs)
    consecutiveFailures := 0, failureSinceMs := none }

def recordSourceSuccessState (source : SourceId) (atTime : DateTime) (incomplete : Bool) : StoreTx Unit :=
  Tx.modify fun db =>
    { db with
      sourceHealth := db.sourceHealth.insert source
        (.withSuccess (db.sourceHealth.lookup source) (millis atTime) incomplete) }

/-- The continuation of an incomplete poll. -/
def enqueueContinuation (c : PollCommit) (nowMs : Int) : StoreTx Unit :=
  if c.incomplete then do
    let last ← Tx.orThrow c.records.getLast? (.unavailable "incomplete poll has no progress")
    enqueueWork (.record .backfill last.record.id c.sourceRevision) (.refreshSource c.sourceId) nowMs
  else pure ()

def commitPoll (lease : LeasedWork) (now : DateTime) (c : PollCommit) : StoreTx Unit := do
  assertLease lease now
  beginPoll c
  persistBacklog c
  Tx.loop (fun _ p => commitRecord (millis c.fetchedAt) (millis now) p) () c.records
  Tx.modify fun db =>
    { db with
      pollState := db.pollState.insert c.sourceId
        { validators := c.validators, incomplete := c.incomplete, lastSuccessMs := some (millis c.fetchedAt) } }
  recordSourceSuccessState c.sourceId c.fetchedAt c.incomplete
  recordSubscriptionActivity c.sourceId true (some c.durationMs) (some c.records.length) none c.fetchedAt
  enqueueContinuation c (millis now)

def recordSourceSuccess (lease : LeasedWork) (now : DateTime) (source : SourceId) (atTime : DateTime)
    (incomplete : Bool) (durationMs : Nat) : StoreTx Unit := do
  assertLease lease now
  recordSourceSuccessState source atTime incomplete
  recordSubscriptionActivity source true (some durationMs) none none atTime

end Inoreader
