import Inoreader.Lib.Tx
import Inoreader.Lib.Table
import Inoreader.Ingest.Model

/-!
# The database (`reader-storage-postgres/src/schema.rs`)

One field per table that a modelled operation reads or writes. A row that stores a JSON document next
to columns derived from it (`revision`, `is_read`) is the document. The tables of the AI bootstrap
other than `ai_record_discovery` are written only and left out, and so is the search projection.
-/

namespace Inoreader
open Lib

/-- `Url::origin().ascii_serialization()` and the origin of jobs that stay inside one workspace. -/
inductive OriginKey
  | http (scheme : String) (host : String) (port : Option Nat)
  | internalWorkspace (workspace : WorkspaceId)
  | null
deriving DecidableEq, Repr

/-- What the store takes from the platform: the fingerprint of an encoded dedup key, PostgreSQL's
`hashtext`, the text order of job ids, `str::to_lowercase` and `Url::parse`. -/
structure Platform where
  fingerprint : DedupKey → String
  hashtext : OriginKey → Nat
  jobUuid : JobId → Nat
  lowercase : String → String
  parseUrl : String → Option Url

inductive JobStatus
  | ready | leased | completed | failed
deriving DecidableEq, Repr

/-- A row of `ingest_jobs`. -/
structure Job where
  status : JobStatus
  runAtMs : Int
  firstAttemptMs : Int
  originKey : OriginKey
  attempt : Nat
  leaseToken : Option LeaseToken
  leaseDeadlineMs : Option Int
  item : WorkItem
  revision : Nat
  diagnostic : Option String
deriving DecidableEq, Repr

structure SourcePollState where
  validators : CacheValidators
  incomplete : Bool
  lastSuccessMs : Option Int
deriving DecidableEq, Repr

structure SourceHealth where
  lastSuccessMs : Option Int := none
  incomplete : Bool := false
  error : Option String := none
  lastErrorMs : Option Int := none
  consecutiveFailures : Nat := 0
  /-- The column `failure_since_ms`. -/
  failureSinceMs : Option Int := none
deriving DecidableEq, Repr

structure SubscriptionActivity where
  subscriptionId : SubscriptionId
  occurredAt : DateTime
  successful : Bool
  durationMs : Option Nat
  discoveredItems : Option Nat
  diagnostic : Option String
deriving DecidableEq, Repr

/-- The context column of `poll_backlog`. -/
structure BacklogContext where
  sourceRevision : Nat
  fetchedAt : DateTime
  finalUrl : Url
  validators : CacheValidators
deriving DecidableEq, Repr

structure BacklogRow where
  ordinal : Nat
  record : SourceRecord
  action : PollAction
  context : BacklogContext
deriving DecidableEq, Repr

/-- A row of `ai_record_discovery`; its `sequence` is its position in the table. -/
structure DiscoveryRow where
  record : SourceRecordId
  source : SourceId
  publicationOrder : Option Int
  sourceOrder : Nat
deriving DecidableEq, Repr

structure IdentityRow where
  recordId : SourceRecordId
  observedAtMs : Int
  document : SourceRecord
deriving DecidableEq, Repr

structure DedupRow where
  dedupKey : DedupKey
  articleId : ArticleId
deriving DecidableEq, Repr

structure OriginRow where
  workspaceId : WorkspaceId
  articleId : ArticleId
  subscriptionId : SubscriptionId
  sourceRecordId : SourceRecordId
deriving DecidableEq, Repr

structure HistoryLink where
  workspaceId : WorkspaceId
  articleId : ArticleId
  historyArticleId : ArticleId
deriving DecidableEq, Repr

/-- The document of a row of `rule_evaluations`. -/
inductive RuleProvenance
  | evaluated (isMatched : Bool) (action : RuleAction) (stateChanged manualOverridePreserved : Bool)
      (contentGenerations : Option (List Nat))
  | mergedProvenance (current old : RuleProvenance)
deriving DecidableEq, Repr

structure RuleEvaluationKey where
  workspaceId : WorkspaceId
  articleId : ArticleId
  ruleId : RuleId
  ruleVersion : Nat
deriving DecidableEq, Repr

inductive Representation
  | raw | safe
deriving DecidableEq, Repr

structure ChunkKey where
  recordId : SourceRecordId
  refreshId : Nat
  representation : Representation
  ordinal : Nat
deriving DecidableEq, Repr

structure RefreshFailure where
  diagnostic : String
  job : JobId
deriving DecidableEq, Repr

inductive ReadMethod
  | reader | single | bulk | automaticAge
deriving DecidableEq, Repr

structure ReadingState where
  revision : Nat
  read : Bool
  rating : Option Nat
  ratedAt : Option DateTime
  reason : Option String
deriving DecidableEq, Repr

structure CompleteReading where
  operationId : Nat
  expectedRevision : Nat
  rating : Option Nat
  reason : Option String
deriving DecidableEq, Repr

structure ReadingCompletion where
  operationId : Nat
  articleId : ArticleId
  state : ReadingState
  undone : Bool
deriving DecidableEq, Repr

structure Receipt where
  command : CompleteReading
  previous : ReadingState
  previousProtectUnread : Bool
  completed : ReadingCompletion
  undone : Option ReadingCompletion
deriving DecidableEq, Repr

structure ArticleRatingRow where
  rating : Option Nat
  ratedAt : DateTime
  reason : Option String
deriving DecidableEq, Repr

abbrev ArticleKey : Type := WorkspaceId × ArticleId

structure Db where
  workspaces : Table WorkspaceId Workspace := ∅
  subscriptions : Table SubscriptionId Subscription := ∅
  removedSubscriptions : Table SubscriptionId Subscription := ∅
  subscriptionSources : Table SubscriptionId SourceId := ∅
  sources : Table SourceId SourceDefinition := ∅
  sourceRecords : Table SourceRecordId SourceRecord := ∅
  sourceRecordIdentity : Table (SourceId × String) IdentityRow := ∅
  recordDiscovery : List DiscoveryRow := []
  pollBacklog : Table (SourceId × SourceRecordId) BacklogRow := ∅
  /-- `content_refresh_state` under `source/{id}`. -/
  pollState : Table SourceId SourcePollState := ∅
  /-- `content_refresh_state` under `failure/{record}`. -/
  refreshFailures : Table SourceRecordId RefreshFailure := ∅
  sourceHealth : Table SourceId SourceHealth := ∅
  subscriptionActivity : List SubscriptionActivity := []
  contentManifests : Table SourceRecordId ContentManifestPointer := ∅
  stagedContentChunks : Table ChunkKey (List UInt8) := ∅
  articles : Table ArticleKey Article := ∅
  libraryDedup : Table (WorkspaceId × String) DedupRow := ∅
  libraryOrigins : List OriginRow := []
  articleHistoryLinks : List HistoryLink := []
  articleReadEvents : Table (ArticleKey × Nat) ReadMethod := ∅
  readingPreferences : Table WorkspaceId (Option Int) := ∅
  articleRatings : Table ArticleKey ArticleRatingRow := ∅
  readingCompletions : Table (AccountId × Nat) (ArticleKey × Receipt) := ∅
  rules : Table (WorkspaceId × RuleId) Rule := ∅
  ruleEvaluations : Table RuleEvaluationKey RuleProvenance := ∅
  ingestJobs : Table JobId Job := ∅
deriving DecidableEq

inductive StoreError
  | notFound
  | staleLease
  | conflict
  | unavailable (message : String)
deriving DecidableEq, Repr

abbrev StoreTx : Type → Type := Tx Db StoreError

/-- `to_i64`. -/
def toI64 (value : Nat) (field : String) : StoreTx Unit :=
  Tx.require (value ≤ bigintMax) (.unavailable (field ++ " exceeds PostgreSQL BIGINT"))

/-- `INSERT … ON CONFLICT DO NOTHING` into a table whose key is the whole row. -/
def insertRow {α : Type} [DecidableEq α] (row : α) (rows : List α) : List α :=
  if row ∈ rows then rows else rows ++ [row]

theorem mem_insertRow {α : Type} [DecidableEq α] {x row : α} {rows : List α} :
    x ∈ insertRow row rows ↔ x ∈ rows ∨ x = row := by
  unfold insertRow
  split
  · rename_i h
    constructor
    · exact .inl
    · rintro (hx | rfl)
      · exact hx
      · exact h
  · simp

theorem insertRow_of_mem {α : Type} [DecidableEq α] {row : α} {rows : List α} (h : row ∈ rows) :
    insertRow row rows = rows := by simp [insertRow, h]

/-- A subscription that a delivery may reach: active, in a workspace that accepts deliveries. -/
def Db.deliverable (db : Db) (s : Subscription) : Bool :=
  s.status.isActive && match db.workspaces.lookup s.workspaceId with
    | some w => w.acceptsDelivery
    | none => false

/-- The subscription is linked to the record in the workspace's library. -/
def Db.Linked (db : Db) (w : WorkspaceId) (s : SubscriptionId) (r : SourceRecordId) : Prop :=
  ∃ a, { workspaceId := w, articleId := a, subscriptionId := s, sourceRecordId := r } ∈ db.libraryOrigins

end Inoreader
