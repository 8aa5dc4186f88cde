import Inoreader.Lib.Proc
import Inoreader.Lib.Run
import Inoreader.Store.Backlog

/-!
# Collection (`IngestWorker::poll`, `IngestWorker::collect_web_feed`)

A run of a collection job first drains the backlog; only without one does it ask the remote side. What
the remote side answers and the parsers of the collectors are inputs.
-/

namespace Inoreader
open Lib

inductive FetchError
  | rejected (reason : String)
  | http (status : Nat)
  | retryAfter (status : Nat) (notBefore : DateTime)
deriving DecidableEq, Repr

inductive IngestError
  | store (error : StoreError)
  | fetch (error : FetchError)
  | parse (reason : String)
  | browserDegraded
deriving DecidableEq, Repr

structure FetchedPage where
  finalUrl : Url
  contentType : Option String
  body : List UInt8
  validators : CacheValidators
  notModified : Bool

/-- The parsers of `reader_collectors`. -/
structure Collectors where
  parseXml : List UInt8 → Url → Except String (List ParsedRecord)
  parseJson : List UInt8 → Url → Except String (List ParsedRecord)
  parseRssCoalescingIdentical : List UInt8 → Url → Except String (List ParsedRecord)

/-- What one run takes from outside: the times, the answers of the remote side and the new ids. -/
structure Remote where
  now : DateTime
  clock : DateTime
  elapsedMs : Nat
  fetch : Url → CacheValidators → Except FetchError FetchedPage
  degraded : Bool
  collect : SourceDefinition → Except FetchError (List SourceRecord)
  newRecord : Nat → SourceRecordId

/-- The records of an answer, before they are compared with what is known. -/
inductive Response
  | parsed (values : List ParsedRecord)
  | collected (values : List SourceRecord)

/-- The database with the requests and the commits that the runs on one source made. -/
structure Collector where
  db : Db
  fetches : Nat
  /-- The commits, the first one first, each with the answer it was built from if it was not drained. -/
  commits : List (Option Response × PollCommit)

abbrev EngineProc : Type → Type := Proc Collector IngestError

namespace Collector

def store {α : Type} (m : StoreTx α) : EngineProc α := fun w =>
  match m w.db with
  | .ok (a, db) => (.ok a, { w with db })
  | .error e => (.error (.store e), w)

def read {α : Type} (f : Db → α) : EngineProc α := fun w => (.ok (f w.db), w)

/-- A request to the remote side. -/
def request {α : Type} (answer : Except IngestError α) : EngineProc α := fun w =>
  (answer, { w with fetches := w.fetches + 1 })

def commit (response : Option Response) (lease : LeasedWork) (clock : DateTime) (c : PollCommit) : EngineProc Unit :=
  fun w => match commitPoll lease clock c w.db with
    | .ok (_, db) => (.ok (), { w with db, commits := w.commits ++ [(response, c)] })
    | .error e => (.error (.store e), w)

end Collector

/-- The record of a new or revised item; an item without changes has none. -/
def RecordRevision.polled (r : RecordRevision) : Option PolledRecord :=
  match r.effect with
  | .unchanged => none
  | .refreshContent => some { record := r.record, action := .refreshContent }
  | .regroupAndRefresh => some { record := r.record, action := .regroup }

def Except.parse {α : Type} (r : Except ModelError α) : Except IngestError α :=
  r.mapError fun e => .parse e.toText

/-- The loop of `poll` and of `collect_web_feed` over the items of an answer. -/
def polledRecords {α : Type} (upstream : α → String) (duplicate : String) (known : String → Option SourceRecord)
    (revised : SourceRecord → α → Except ModelError RecordRevision) (created : Nat → α → Except ModelError SourceRecord) :
    List String → Nat → List α → Except IngestError (List PolledRecord)
  | _, _, [] => .ok []
  | seen, n, v :: values => do
    if upstream v ∈ seen then throw (.parse duplicate)
    let value ← match known (upstream v) with
      | some existing => (Except.parse (revised existing v)).map (·.polled)
      | none => (Except.parse (created n v)).map fun record => some { record, action := .deliver }
    let rest ← polledRecords upstream duplicate known revised created (upstream v :: seen) (n + 1) values
    pure (value.toList ++ rest)

def u64Max : Nat := 2 ^ 64 - 1

def isAsciiWhitespace (b : UInt8) : Bool := b == 32 || b == 9 || b == 10 || b == 12 || b == 13

def FetchedPage.looksJson (page : FetchedPage) : Bool :=
  page.contentType.any (fun v => decide (1 < (v.toLower.splitOn "json").length)) ||
    page.body.find? (fun b => !isAsciiWhitespace b) == some 123

section
variable (P : Platform) (parsers : Collectors) (limits : IngestLimits)

def parsePage (kind : SourceKind) (page : FetchedPage) : Except IngestError (List ParsedRecord) :=
  match kind with
  | .rssCoalesceIdentical => lift (parsers.parseRssCoalescingIdentical page.body page.finalUrl)
  | .xmlFeed => lift (parsers.parseXml page.body page.finalUrl)
  | .jsonFeed => lift (parsers.parseJson page.body page.finalUrl)
  | .auto =>
    if page.looksJson then lift (parsers.parseJson page.body page.finalUrl)
    else lift (parsers.parseXml page.body page.finalUrl)
  | .webPage | .builtIn _ => .error (.parse "Web feed source must use CollectWebFeed")
where
  lift (r : Except String (List ParsedRecord)) : Except IngestError (List ParsedRecord) := r.mapError .parse

/-- The commit of an answer: an initial one is cut at the initial depth. -/
def collectedCommit (sourceId : SourceId) (sourceRevision : Nat) (remote : Remote) (isInitial : Bool) (size : Nat)
    (records : List PolledRecord) (finalUrl : Url) (validators : CacheValidators) : PollCommit :=
  let cut := isInitial && decide (limits.initialFeedItems < records.length)
  { sourceId, sourceRevision
    records := if cut then records.take limits.initialFeedItems else records
    remainder := if cut then records.drop limits.initialFeedItems else []
    fetchedAt := remote.now, finalUrl, validators
    incomplete := isInitial && decide (limits.initialFeedItems < size)
    durationMs := remote.elapsedMs }

/-- Drain the backlog; `true` if this is all the run does. -/
def drainBacklog (lease : LeasedWork) (source : SourceId) (remote : Remote) : EngineProc Bool := do
  let active ← Collector.store (activeDeliveryCount source)
  if active = 0 then pure true
  else
    match ← Collector.store (pendingPoll source limits.fanoutBatch) with
    | some pending =>
      Collector.commit none lease remote.clock pending
      pure true
    | none => pure false

def fetchFeed (lease : LeasedWork) (sourceId : SourceId) (remote : Remote) : EngineProc Unit := do
  let source ← Collector.store (sourceById sourceId)
  let validators ← Collector.read (·.sourceValidators sourceId)
  let page ← Collector.request ((remote.fetch source.url validators).mapError .fetch)
  Proc.require (page.body.length ≤ limits.maxInputBytes) (.parse "feed exceeds configured max_input_bytes")
  if page.notModified then
    Proc.require (remote.elapsedMs ≤ u64Max) (.parse "poll duration exceeds u64 milliseconds")
    Collector.store (recordSourceSuccess lease remote.clock sourceId remote.now false remote.elapsedMs)
  else
    let parsed ← Proc.ofExcept (parsePage parsers source.kind page)
    let isInitial ← Collector.read fun db => !db.hasCommittedPoll sourceId
    let known ← Collector.read fun db => db.recordByUpstream sourceId
    let records ← Proc.ofExcept (polledRecords ParsedRecord.upstreamId "duplicate upstream identity in feed response"
      known (fun existing v => existing.revise P.parseUrl v)
      (fun n v => SourceRecord.fromParsed P.parseUrl (remote.newRecord n) sourceId v) [] 0 parsed)
    Proc.require (remote.elapsedMs ≤ u64Max) (.parse "poll duration exceeds u64 milliseconds")
    Collector.commit (some (.parsed parsed)) lease remote.clock
      (collectedCommit limits sourceId source.revision remote isInitial parsed.length records page.finalUrl
        page.validators)

def poll (lease : LeasedWork) (sourceId : SourceId) (remote : Remote) : EngineProc Unit := do
  if ← drainBacklog limits lease sourceId remote then pure ()
  else fetchFeed P parsers limits lease sourceId remote

def FetchError.collectError : FetchError → IngestError
  | .rejected reason => if reason = "browser_degraded" then .browserDegraded else .fetch (.rejected reason)
  | e => .fetch e

def collectPages (lease : LeasedWork) (sourceId : SourceId) (remote : Remote) : EngineProc Unit := do
  Proc.require (remote.degraded = false) .browserDegraded
  let source ← Collector.store (sourceById sourceId)
  let isInitial ← Collector.read fun db => !db.hasCommittedPoll sourceId
  let collected ← Collector.request ((remote.collect source).mapError (·.collectError))
  Proc.require (isInitial = true ∨ collected ≠ []) (.parse "web_feed_empty_after_success")
  let known ← Collector.read fun db => db.recordByUpstream sourceId
  let records ← Proc.ofExcept (polledRecords SourceRecord.upstreamId "duplicate upstream identity in collection"
    known (fun existing v =>
      if source.kind = .builtIn .dropbox then existing.reviseFromDropboxListing v else existing.reviseFromRecord v)
    (fun _ v => .ok v) [] 0 collected)
  Proc.require (remote.elapsedMs ≤ u64Max) (.parse "collection duration exceeds u64 milliseconds")
  Collector.commit (some (.collected collected)) lease remote.clock
    (collectedCommit limits sourceId source.revision remote isInitial collected.length records source.url {})

def collectWebFeed (lease : LeasedWork) (sourceId : SourceId) (remote : Remote) : EngineProc Unit := do
  if ← drainBacklog limits lease sourceId remote then pure ()
  else collectPages limits lease sourceId remote

def SourceKind.isCollected : SourceKind → Bool
  | .webPage | .builtIn _ => true
  | _ => false

/-- `handle` for the three kinds of collection jobs. -/
def handleCollection (lease : LeasedWork) (remote : Remote) : EngineProc Unit :=
  match lease.item with
  | .pollSource sourceId | .refreshSource sourceId => do
    let source ← Collector.store (sourceById sourceId)
    if source.kind.isCollected then collectWebFeed limits lease sourceId remote
    else poll P parsers limits lease sourceId remote
  | .collectWebFeed sourceId => collectWebFeed limits lease sourceId remote
  | _ => pure ()

end
end Inoreader
