import Inoreader.Core.Rules
import Inoreader.Core.Subscription

/-!
# Ingest data (`reader-ingest/src/model/mod.rs`)

Sources, source records and their revisions, work items and the values that a worker hands to the
store. Durable job ids are hashes of the texts listed at `JobId`; the model keeps the hashed text
itself, so two jobs have one id exactly when the source would hash the same text.
-/

namespace Inoreader

structure LeaseToken where
  uuid : Nat
deriving DecidableEq, Repr

/-- The kinds of `record_job`. -/
inductive RecordJobKind
  | fanout | fulltext | backfill
deriving DecidableEq, Repr

/-- The identity that a job id is derived from. -/
inductive JobId
  /-- `JobId::new`, `Uuid::new_v4`. -/
  | random (uuid : Nat)
  /-- `record_job`: `{kind}/{record}/{revision}`. -/
  | record (kind : RecordJobKind) (record : SourceRecordId) (revision : Nat)
  /-- `cleanup_job`: `cleanup/{record}/{refresh}`. -/
  | cleanup (record : SourceRecordId) (refresh : Nat)
  /-- `rule_job`: `rule/{rule}/{version}/{cursor}`. -/
  | rule (rule : RuleId) (version : Nat) (cursor : ArticleId)
  /-- `article_rule_job`: `article-rule/{article}/{subscription}/{record}/{revision}`. -/
  | articleRule (article : ArticleId) (subscription : SubscriptionId) (record : SourceRecordId) (revision : Nat)
  /-- `advance_fanout`: `fanout-continuation/{parent}/{after}`. -/
  | fanoutContinuation (parent : JobId) (after : SubscriptionId)
  /-- `enqueue_backfill_tx`: `subscription-backfill/{subscription}/{record}`. -/
  | subscriptionBackfill (subscription : SubscriptionId) (record : SourceRecordId)
  /-- `activate_subscription_with_refresh`: `subscription-activation/{subscription}/{revision}`. -/
  | subscriptionActivation (subscription : SubscriptionId) (revision : Nat)
  /-- `restore_workspace_with_refreshes`: `workspace-restore/{workspace}/{revision}/{subscription}`. -/
  | workspaceRestore (workspace : WorkspaceId) (revision : Nat) (subscription : SubscriptionId)
  /-- `enqueue_rule_application`: `apply-rule/{workspace}/{rule}/{version}`. -/
  | applyRule (workspace : WorkspaceId) (rule : RuleId) (version : Nat)
deriving DecidableEq, Repr

inductive BuiltInAdapter
  | dropbox | other
deriving DecidableEq, Repr

/-- How a source is collected; recipes and the other adapters' options do not matter here. -/
inductive SourceKind
  | auto | xmlFeed | rssCoalesceIdentical | jsonFeed | webPage | builtIn (adapter : BuiltInAdapter)
deriving DecidableEq, Repr

structure SourceDefinition where
  id : SourceId
  url : Url
  kind : SourceKind
  revision : Nat
deriving DecidableEq, Repr

/-- A publication date: its text, its day and the clock value it is ordered by. -/
structure PublicationDate where
  text : String
  day : Day
  clock : Int
deriving DecidableEq, Repr

structure ParsedRecord where
  categories : Option (List String)
  upstreamId : String
  originalUrl : String
  absoluteUrl : Option Url
  title : String
  description : Option String
  descriptionMediaType : Option String
  contentHtml : Option String
  publishedAt : Option PublicationDate
deriving DecidableEq, Repr

structure SourceRecord where
  id : SourceRecordId
  sourceId : SourceId
  upstreamId : String
  key : DedupKey
  categories : Option (List String)
  descriptionMediaType : Option String
  feedContentHtml : Option String
  publishedAt : Option PublicationDate
  revision : Nat
deriving DecidableEq, Repr

inductive ModelError
  | dropboxPublicationDayConflict
  | emptyUpstreamIdentity
  | upstreamIdentityChanged
deriving DecidableEq, Repr

def ModelError.toText : ModelError → String
  | .dropboxPublicationDayConflict => "Dropbox archive day conflicts with the retained publication date"
  | .emptyUpstreamIdentity => "upstream identity must not be empty"
  | .upstreamIdentityChanged => "a source record revision cannot change upstream identity"

inductive RecordRevisionEffect
  | unchanged | refreshContent | regroupAndRefresh
deriving DecidableEq, Repr

structure RecordRevision where
  record : SourceRecord
  effect : RecordRevisionEffect
deriving DecidableEq, Repr

/-- `article_location`; `parseUrl` is `Url::parse`. -/
def articleLocation (parseUrl : String → Option Url) (v : ParsedRecord) (source : SourceId) : ArticleLocation :=
  match v.absoluteUrl with
  | some fetch =>
    match (parseUrl v.originalUrl).filter (·.host.isSome) with
    | some _ => .url v.originalUrl fetch
    | none => .url fetch.text fetch
  | none => .sourceRecord source v.upstreamId

namespace SourceRecord

def fromParsed (parseUrl : String → Option Url) (id : SourceRecordId) (source : SourceId) (v : ParsedRecord) :
    Except ModelError SourceRecord :=
  if v.upstreamId = "" then .error .emptyUpstreamIdentity
  else .ok
    { id, sourceId := source, upstreamId := v.upstreamId
      key := { location := articleLocation parseUrl v source, title := v.title, description := v.description }
      categories := v.categories, descriptionMediaType := v.descriptionMediaType
      feedContentHtml := v.contentHtml, publishedAt := v.publishedAt, revision := 0 }

/-- The effect of replacing `old` by `next`. -/
def revisionEffect (old next : SourceRecord) : RecordRevisionEffect :=
  if next.key ≠ old.key ∨ next.descriptionMediaType ≠ old.descriptionMediaType then .regroupAndRefresh
  else if next.feedContentHtml ≠ old.feedContentHtml ∨ next.publishedAt ≠ old.publishedAt ∨
      next.categories ≠ old.categories then .refreshContent
  else .unchanged

/-- `SourceRecord::revise`. -/
def revise (parseUrl : String → Option Url) (r : SourceRecord) (v : ParsedRecord) :
    Except ModelError RecordRevision :=
  if v.upstreamId ≠ r.upstreamId then .error .upstreamIdentityChanged
  else
    let next : SourceRecord :=
      { id := r.id, sourceId := r.sourceId, upstreamId := r.upstreamId
        key := { location := articleLocation parseUrl v r.sourceId, title := v.title,
                 description := v.description }
        categories := v.categories, descriptionMediaType := v.descriptionMediaType
        feedContentHtml := v.contentHtml, publishedAt := v.publishedAt, revision := r.revision + 1 }
    .ok { record := next, effect := revisionEffect r next }

/-- `SourceRecord::revise_from_record`: the persisted identity and revision win. -/
def reviseFromRecord (r v : SourceRecord) : Except ModelError RecordRevision :=
  if v.upstreamId ≠ r.upstreamId ∨ v.sourceId ≠ r.sourceId then .error .upstreamIdentityChanged
  else
    let next : SourceRecord :=
      { v with id := r.id, sourceId := r.sourceId, upstreamId := r.upstreamId, revision := r.revision + 1 }
    .ok { record := next, effect := revisionEffect r next }

/-- `SourceRecord::revise_from_dropbox_listing`: the listing gives a title and a day only. -/
def reviseFromDropboxListing (r v : SourceRecord) : Except ModelError RecordRevision :=
  match r.publishedAt, v.publishedAt with
  | some old, some new =>
    if old.day ≠ new.day then .error .dropboxPublicationDayConflict else r.reviseFromRecord (retain r v)
  | _, _ => r.reviseFromRecord (retain r v)
where
  retain (r v : SourceRecord) : SourceRecord :=
    { v with
      key := { v.key with description := r.key.description }
      descriptionMediaType := r.descriptionMediaType
      feedContentHtml := r.feedContentHtml
      publishedAt := if r.publishedAt.isSome then r.publishedAt else v.publishedAt }

end SourceRecord

structure DeliveryTarget where
  workspaceId : WorkspaceId
  subscriptionId : SubscriptionId
deriving DecidableEq, Repr

inductive WorkItem
  | pollSource (source : SourceId)
  | refreshSource (source : SourceId)
  | fanOut (source : SourceId) (record : SourceRecordId) (afterSubscription : Option SubscriptionId)
  | extractFullText (record : SourceRecordId) (sourceRevision : Nat) (url : Url) (manual : Bool)
  | collectWebFeed (source : SourceId)
  | cleanupContent (record : SourceRecordId) (keepRefreshId : Nat)
  | evaluateArticleRules (workspace : WorkspaceId) (article : ArticleId)
      (evaluations : List PendingRuleEvaluation)
  | applyRule (workspace : WorkspaceId) (rule : RuleId) (ruleVersion : Nat) (afterArticle : Option ArticleId)
      (throughArticle : Option ArticleId)
deriving DecidableEq, Repr

structure LeasedWork where
  jobId : JobId
  item : WorkItem
  token : LeaseToken
  deadline : DateTime
  attempt : Nat
deriving DecidableEq, Repr

inductive PollAction
  | deliver | refreshContent | regroup
deriving DecidableEq, Repr

structure PolledRecord where
  record : SourceRecord
  action : PollAction
deriving DecidableEq, Repr

structure CacheValidators where
  etag : Option String := none
  lastModified : Option String := none
deriving DecidableEq, Repr

structure PollCommit where
  sourceId : SourceId
  sourceRevision : Nat
  records : List PolledRecord
  /-- Records already received and deferred for the initial visible depth. -/
  remainder : List PolledRecord
  fetchedAt : DateTime
  finalUrl : Url
  validators : CacheValidators
  incomplete : Bool
  durationMs : Nat
deriving DecidableEq, Repr

structure DeliveryCommit where
  target : DeliveryTarget
  record : SourceRecord
  proposedArticleId : ArticleId
  deliveredAt : DateTime
deriving DecidableEq, Repr

inductive DeliveryResult
  | delivered (article : ArticleId)
  | alreadyDelivered (article : ArticleId)
  | skippedInactive
deriving DecidableEq, Repr

structure ContentChunk where
  ordinal : Nat
  bytes : List UInt8
deriving DecidableEq, Repr

/-- One extracted full text; its video, flair and publication metadata are left out. -/
structure ContentRevision where
  recordId : SourceRecordId
  sourceRevision : Nat
  refreshId : Nat
  rawChunks : List ContentChunk
  safeHtmlChunks : List ContentChunk
  fetchedAt : DateTime
deriving DecidableEq, Repr

structure ContentManifestPointer where
  recordId : SourceRecordId
  sourceRevision : Nat
  refreshId : Nat
  rawChunks : Nat
  safeHtmlChunks : Nat
  fetchedAt : DateTime
deriving DecidableEq, Repr

/-- The numbers of chunks are cast to `u32`. -/
def ContentManifestPointer.ofRevision (v : ContentRevision) : ContentManifestPointer :=
  { recordId := v.recordId, sourceRevision := v.sourceRevision, refreshId := v.refreshId
    rawChunks := v.rawChunks.length % 2 ^ 32, safeHtmlChunks := v.safeHtmlChunks.length % 2 ^ 32
    fetchedAt := v.fetchedAt }

/-- Validated execution limits. -/
structure IngestLimits where
  initialFeedItems : Nat
  fanoutBatch : Nat
  maxInputBytes : Nat
  initialFeedItems_pos : 0 < initialFeedItems
  fanoutBatch_pos : 0 < fanoutBatch
  maxInputBytes_pos : 0 < maxInputBytes

end Inoreader
