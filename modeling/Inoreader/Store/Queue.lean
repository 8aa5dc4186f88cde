import Mathlib.Data.List.Sort
import Inoreader.Store.Db

/-!
# The work queue (`ingest_store.rs`, `ingest_store/queue.rs`)

Leases, enqueueing and the statements of `claim`. Every operation takes the time it reads from the
clock as an argument.
-/

namespace Inoreader
open Lib

/-- The fields of `PostgresIngestStore`, as `validate_scheduler_limits` admits them. -/
structure StoreConfig where
  pollInterval : Int
  perOriginConcurrency : Nat
  maxRetryAge : Int
  pollInterval_pos : 0 < pollInterval
  perOriginConcurrency_pos : 0 < perOriginConcurrency
  maxRetryAge_pos : 0 < maxRetryAge

/-- `(extract(epoch FROM clock_timestamp()) * 1000)::bigint` rounds to the nearest millisecond. -/
def sqlMillis (t : DateTime) : Int := (t + 500000) / 1000000

def retryAgeExceeded (firstAttemptMs oldestAllowedMs : Int) : Bool := decide (firstAttemptMs < oldestAllowedMs)

def originHasCapacity (active limit : Nat) : Bool := decide (active < limit)

def WorkItem.isRecurring : WorkItem → Bool
  | .pollSource _ | .collectWebFeed _ => true
  | _ => false

/-- `work_source`. -/
def WorkItem.workSource : WorkItem → Option SourceId
  | .pollSource s | .refreshSource s | .collectWebFeed s | .fanOut s _ _ => some s
  | _ => none

/-- The `COALESCE` over the three kinds of collection jobs in the statements of `claim`. -/
def WorkItem.collectSource : WorkItem → Option SourceId
  | .pollSource s | .refreshSource s | .collectWebFeed s => some s
  | _ => none

def initialJobRunAt : WorkItem → Int
  | .extractFullText _ _ _ true => -400
  | .extractFullText _ _ _ false => -300
  | .fanOut _ _ _ => -200
  | .evaluateArticleRules _ _ _ | .applyRule _ _ _ _ _ => -100
  | .cleanupContent _ _ => -50
  | .pollSource _ | .refreshSource _ | .collectWebFeed _ => 0

def Url.isHttp (u : Url) : Bool := (u.scheme == "http" || u.scheme == "https") && u.host.isSome

/-- `Url::origin().ascii_serialization()`. -/
def Url.origin (u : Url) : OriginKey :=
  match u.isHttp, u.host with
  | true, some host => .http u.scheme host u.port
  | _, _ => .null

def httpOrigin (u : Url) : StoreTx OriginKey := do
  Tx.require u.isHttp (.unavailable "job URL has no HTTP origin")
  pure u.origin

def sourceOrigin (source : SourceId) : StoreTx OriginKey := do
  let db ← Tx.get
  let definition ← Tx.orThrow (db.sources.lookup source) .notFound
  httpOrigin definition.url

def workOrigin : WorkItem → StoreTx OriginKey
  | .pollSource s | .refreshSource s | .collectWebFeed s | .fanOut s _ _ => sourceOrigin s
  | .extractFullText _ _ url _ => httpOrigin url
  | .cleanupContent record _ => do
    let db ← Tx.get
    let record ← Tx.orThrow (db.sourceRecords.lookup record) .notFound
    sourceOrigin record.sourceId
  | .evaluateArticleRules w _ _ | .applyRule w _ _ _ _ => pure (.internalWorkspace w)

/-- The row `enqueue_work` inserts. -/
def Job.new (item : WorkItem) (firstAttemptMs : Int) (origin : OriginKey) : Job :=
  { status := .ready, runAtMs := initialJobRunAt item, firstAttemptMs, originKey := origin, attempt := 0
    leaseToken := none, leaseDeadlineMs := none, item, revision := 0, diagnostic := none }

def Db.setJob (db : Db) (id : JobId) (job : Job) : Db := { db with ingestJobs := db.ingestJobs.insert id job }

/-- An id that exists with the same item is done already, with another item it is a conflict. -/
def enqueueWork (id : JobId) (item : WorkItem) (firstAttemptMs : Int) : StoreTx Unit := do
  let db ← Tx.get
  match db.ingestJobs.lookup id with
  | some existing => Tx.require (existing.item = item) .conflict
  | none =>
    let origin ← workOrigin item
    Tx.modify fun db => db.setJob id (.new item firstAttemptMs origin)

/-- The row still belongs to this lease and its deadline has not passed. -/
def Job.holds (j : Job) (token : LeaseToken) (nowMs : Int) : Bool :=
  j.status == .leased && j.leaseToken == some token && j.leaseDeadlineMs.any (nowMs ≤ ·)

def assertLease (lease : LeasedWork) (now : DateTime) : StoreTx Unit := do
  let db ← Tx.get
  let row ← Tx.orThrow ((db.ingestJobs.lookup lease.jobId).filter fun j =>
    j.status == .leased && j.leaseToken == some lease.token) .staleLease
  Tx.require (row.leaseDeadlineMs.any (millis now ≤ ·)) .staleLease

/-- The subscriptions linked to a source. -/
def Db.subscribers (db : Db) (source : SourceId) : List SubscriptionId :=
  (db.subscriptionSources.rows.filter (·.2 = source)).map (·.1)

def recordSubscriptionActivity (source : SourceId) (successful : Bool) (durationMs discoveredItems : Option Nat)
    (diagnostic : Option String) (occurredAt : DateTime) : StoreTx Unit := do
  let cutoff := millis (occurredAt - 30 * 86400000000000)
  Tx.modify fun db =>
    { db with subscriptionActivity := db.subscriptionActivity.filter fun e => cutoff ≤ millis e.occurredAt }
  let db ← Tx.get
  Tx.loop (fun _ id => do
    let subscription ← Tx.orThrow (db.subscriptions.lookup id) .notFound
    let workspace ← Tx.orThrow (db.workspaces.lookup subscription.workspaceId) .notFound
    if workspace.acceptsDelivery then
      Tx.modify fun db =>
        { db with
          subscriptionActivity := db.subscriptionActivity ++
            [{ subscriptionId := id, occurredAt, successful, durationMs, discoveredItems, diagnostic }] }
    else pure ()) () (db.subscribers source)

def SourceHealth.initial : SourceHealth := {}

/-- The health document after a failure; `failure_since_ms` keeps its first value. -/
def SourceHealth.withFailure (h : SourceHealth) (diagnostic : String) (nowMs : Int) : SourceHealth :=
  { h with
    error := some diagnostic
    lastErrorMs := some nowMs
    consecutiveFailures := min (h.consecutiveFailures + 1) (2 ^ 32 - 1)
    failureSinceMs := h.failureSinceMs.or (some nowMs) }

def recordSourceFailure (now : DateTime) (source : SourceId) (diagnostic : String) : StoreTx Unit := do
  Tx.modify fun db =>
    { db with
      sourceHealth := db.sourceHealth.insert source
        (((db.sourceHealth.lookup source).getD .initial).withFailure diagnostic (millis now)) }
  recordSubscriptionActivity source false none none (some diagnostic) now

/-- The first statement of `lease_update`. -/
def Job.leaseUpdated (j : Job) (status : JobStatus) (deadline runAt : Option Int) (diagnostic : Option String) : Job :=
  { j with
    status
    leaseDeadlineMs := deadline
    runAtMs := runAt.getD j.runAtMs
    diagnostic
    attempt := if status = .ready then j.attempt + 1 else j.attempt
    revision := j.revision + 1 }

/-- Retry exhaustion of a recurring job: it is ready again at its next run. -/
def Job.rescheduled (j : Job) (nextRun : Int) : Job :=
  { j with status := .ready, runAtMs := nextRun, firstAttemptMs := nextRun, attempt := 0, leaseToken := none
           leaseDeadlineMs := none }

section
variable (cfg : StoreConfig)

/-- The row after both statements of `lease_update`. -/
def Job.afterUpdate (j : Job) (now : DateTime) (status : JobStatus) (deadline runAt : Option Int)
    (diagnostic : Option String) : Job :=
  let updated := j.leaseUpdated status deadline runAt diagnostic
  if status = .failed ∧ j.item.isRecurring then
    let next := millis (now + cfg.pollInterval)
    updated.rescheduled (match runAt with | some r => max next r | none => next)
  else updated

def leaseUpdate (now : DateTime) (job : JobId) (token : LeaseToken) (status : JobStatus)
    (deadline runAt : Option Int) (diagnostic : Option String) : StoreTx Unit := do
  let db ← Tx.get
  let row ← Tx.orThrow ((db.ingestJobs.lookup job).filter (·.holds token (sqlMillis now))) .staleLease
  Tx.modify fun db => db.setJob job (row.afterUpdate cfg now status deadline runAt diagnostic)
  match diagnostic, row.item.workSource with
  | some diagnostic, some source => recordSourceFailure now source diagnostic
  | _, _ => pure ()

def renew (now : DateTime) (job : JobId) (token : LeaseToken) (leaseUntil : DateTime) : StoreTx Unit :=
  leaseUpdate cfg now job token .leased (some (millis leaseUntil)) none none

def retry (now : DateTime) (job : JobId) (token : LeaseToken) (runAt : DateTime) (diagnostic : String) :
    StoreTx Unit :=
  leaseUpdate cfg now job token .ready none (some (millis runAt)) (some diagnostic)

def fail (now : DateTime) (job : JobId) (token : LeaseToken) (diagnostic : String)
    (notBefore : Option DateTime) : StoreTx Unit :=
  leaseUpdate cfg now job token .failed none (notBefore.map millis) (some diagnostic)

/-- The row after `finish`. -/
def Job.finished (j : Job) (nextRun : Int) : Job :=
  if j.item.isRecurring then
    { j with status := .ready, runAtMs := nextRun, firstAttemptMs := nextRun, attempt := 0, leaseToken := none
             leaseDeadlineMs := none, revision := j.revision + 1 }
  else
    { j with status := .completed, runAtMs := 0, leaseToken := none, leaseDeadlineMs := none
             revision := j.revision + 1 }

/-- `finish` looks at the token and not at the deadline. -/
def complete (now : DateTime) (job : JobId) (token : LeaseToken) : StoreTx Unit := do
  let db ← Tx.get
  let row ← Tx.orThrow ((db.ingestJobs.lookup job).filter fun j =>
    j.status == .leased && j.leaseToken == some token) .staleLease
  Tx.modify fun db => db.setJob job (row.finished (millis (now + cfg.pollInterval)))

/-! ## The statements of `claim` -/

/-- Due, or leased with a deadline that has passed. -/
def Job.claimable (nowMs : Int) (j : Job) : Bool :=
  (j.status == .ready && decide (j.runAtMs ≤ nowMs)) ||
    (j.status == .leased && j.leaseDeadlineMs.any (· < nowMs))

def Job.activeLease (nowMs : Int) (j : Job) : Bool := j.status == .leased && j.leaseDeadlineMs.any (nowMs ≤ ·)

/-- `SELECT count(*) … status='leased' AND origin_key=$1 AND lease_deadline_ms >= $2`. -/
def Db.activeLeases (db : Db) (origin : OriginKey) (nowMs : Int) : Nat :=
  Table.count (fun _ j => j.activeLease nowMs && j.originKey == origin) db.ingestJobs

/-- Another unexpired lease collects the item's source. -/
def Db.sourceBusy (db : Db) (item : WorkItem) (nowMs : Int) : Bool :=
  db.ingestJobs.rows.any fun row =>
    row.2.activeLease nowMs && row.2.item.collectSource.isSome && row.2.item.collectSource == item.collectSource

/-- `ORDER BY CASE WHEN status='ready' THEN 0 ELSE 1 END, run_at_ms, id`. -/
def claimBefore (P : Platform) (x y : JobId × Job) : Bool :=
  let rank (j : Job) : Nat := if j.status = .ready then 0 else 1
  decide (rank x.2 < rank y.2 ∨ (rank x.2 = rank y.2 ∧
    (x.2.runAtMs < y.2.runAtMs ∨ (x.2.runAtMs = y.2.runAtMs ∧ P.jobUuid x.1 ≤ P.jobUuid y.1))))

/-- The `SELECT … LIMIT 1 FOR UPDATE SKIP LOCKED` of `claim`. -/
def Db.selectClaim (P : Platform) (db : Db) (nowMs : Int) (excluded : List OriginKey) (limit : Nat)
    (locked : List JobId) : Option (JobId × Job) :=
  (List.insertionSort (fun x y => claimBefore P x y = true) (db.ingestJobs.rows.filter fun row =>
    row.2.claimable nowMs && !excluded.contains row.2.originKey &&
      decide (db.activeLeases row.2.originKey nowMs < limit) && !db.sourceBusy row.2.item nowMs &&
      !locked.contains row.1)).head?

/-- The row after the age check of `claim` gave it up, or rescheduled it if it is recurring. -/
def Job.agedOut (j : Job) (nextRun : Int) : Job :=
  if j.item.isRecurring then
    { j with status := .ready, leaseToken := none, leaseDeadlineMs := none
             diagnostic := some "maximum retry age exceeded", revision := j.revision + 1, runAtMs := nextRun
             firstAttemptMs := nextRun, attempt := 0 }
  else
    { j with status := .failed, leaseToken := none, leaseDeadlineMs := none
             diagnostic := some "maximum retry age exceeded", revision := j.revision + 1 }

/-- `failedAt` is the time `record_source_failure` reads, `now` the one `claim` was called with. -/
def ageOut (now failedAt : DateTime) (id : JobId) (row : Job) : StoreTx Unit := do
  Tx.modify fun db => db.setJob id (row.agedOut (millis (now + cfg.pollInterval)))
  match row.item.workSource with
  | some source => recordSourceFailure failedAt source "maximum retry age exceeded"
  | none => pure ()

/-- The row after `claim` leased it. -/
def Job.leasedBy (j : Job) (token : LeaseToken) (leaseUntil : DateTime) : Job :=
  { j with status := .leased, leaseToken := some token, leaseDeadlineMs := some (millis leaseUntil)
           revision := j.revision + 1 }

end
end Inoreader
