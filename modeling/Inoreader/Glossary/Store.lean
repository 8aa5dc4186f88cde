import Inoreader.Glossary.Post
import Inoreader.Lib.Table
import Inoreader.Lib.Tx
import Mathlib.Data.List.Sort

/-!
# The glossary tables (`reader-storage-postgres/src/glossary.rs`, `glossary/*.rs`)

One transaction applies any number of observations. `apply_post` decides by the stored row whether an observation is
kept out, refreshes the edit time, marks the post as conflicted or replaces it. JSON of a projection is kept as the
projection. `observed` is a history variable: the observations that were applied, the newest first, each with the row
that it met.
-/

namespace Inoreader
open Lib

/-- `"archive"`, `"public"` (a public page) and `"bot"`. -/
inductive PostKind
  | archive | page | bot
deriving DecidableEq, Repr

structure PostKey where
  owner : AccountId
  workspace : WorkspaceId
  message : Int
deriving DecidableEq, Repr

/-- A row of `glossary_posts`. -/
structure PostRow where
  publishedAt : Option DateTime
  editedAt : Option Int
  kind : PostKind
  receipt : Nat
  document : PostProjection
  source : String
  parserVersion : String
  projectionError : Option String
  conflicted : Bool
deriving DecidableEq, Repr

/-- An applied observation. -/
structure Observation where
  key : PostKey
  kind : PostKind
  post : ObservedPost
  /-- The version of the parser. -/
  version : String
  /-- The row before. -/
  stored : Option PostRow
deriving DecidableEq, Repr

/-- A row of `glossary_receipts`. -/
structure GlossaryReceipt where
  id : Nat
  owner : AccountId
  workspace : WorkspaceId
  kind : String
  sourceKey : String
  raw : String
deriving DecidableEq, Repr

/-- A row of `glossary_events`. -/
structure EventRow where
  receipt : Nat
  document : String
  applied : Bool
  error : Option String
  conflict : Bool
deriving DecidableEq, Repr

/-- A row of `glossary_channels`, as far as the functions below use it; `binding` is the id of the channel. -/
structure ChannelRow where
  binding : Option Int
  pollCursor : Option Int
  pollLease : Option Nat
  pollUntil : Option DateTime
  historyBefore : Option Int
  historyLease : Option Nat
  historyUntil : Option DateTime
  nextHistory : DateTime
  lastHistory : Option DateTime
  historyError : Option String
  importComplete : Bool
  revision : Nat
  encryptedToken : Option String := none
  nextPoll : DateTime := 0
  lastPoll : Option DateTime := none
  pollError : Option String := none
  coverageNote : Option String := none
deriving DecidableEq, Repr

structure GlossaryDb where
  /-- The owners of the workspaces. -/
  owners : Table WorkspaceId AccountId := ∅
  channels : Table (AccountId × WorkspaceId) ChannelRow := ∅
  receipts : List GlossaryReceipt := []
  events : Table (AccountId × WorkspaceId × Int) EventRow := ∅
  posts : Table PostKey PostRow := ∅
  definitions : List (PostKey × Definition) := []
  observed : List Observation := []
deriving DecidableEq

abbrev GlossaryTx : Type → Type := Tx GlossaryDb GlossaryError

/-- `a < b` for edit times; an absent time is the least. -/
def editBefore : Option Int → Option Int → Bool
  | none, some _ => true
  | some a, some b => a < b
  | _, none => false

/-! ## Applying an observation -/

inductive PostDecision
  | unchanged
  /-- The same document with a later edit. -/
  | refreshed
  | marked
  | stored
deriving DecidableEq, Repr

/-- `(old_source == post.raw() && old_kind == kind)`. -/
def PostRow.sameSource (row : PostRow) (kind : PostKind) (post : ObservedPost) : Bool :=
  row.source == post.raw && row.kind == kind

/-- `newer`. -/
def PostRow.yields (row : PostRow) (kind : PostKind) (post : ObservedPost) : Bool :=
  row.sameSource kind post || (kind == .bot && post.editedAt.isSome && (row.editedAt.isNone || editBefore row.editedAt post.editedAt))

/-- What `apply_post` does with an observation of a stored post. -/
def PostRow.decide (row : PostRow) (version : String) (kind : PostKind) (post : ObservedPost) : PostDecision :=
  if row.document = post.projection ∧ row.parserVersion = version then
    if kind = .bot ∧ editBefore row.editedAt post.editedAt then .refreshed else .unchanged
  else if row.editedAt.isSome ∧ post.editedAt.isSome ∧ editBefore post.editedAt row.editedAt then .unchanged
  else if row.yields kind post then .stored
  else if kind = .archive ∧ row.kind = .bot then .unchanged
  else .marked

/-- The row that replaces `old`. -/
def ObservedPost.row (post : ObservedPost) (version : String) (receipt : Nat) (kind : PostKind) (old : Option PostRow) :
    PostRow where
  publishedAt := post.publishedAt
  editedAt := post.editedAt
  kind := kind
  receipt := receipt
  document := post.projection
  source := post.raw
  parserVersion := version
  projectionError := post.projection.error
  conflicted := old.any fun row => row.sameSource kind post && row.conflicted

namespace GlossaryDb

def setPost (db : GlossaryDb) (key : PostKey) (row : PostRow) : GlossaryDb := { db with posts := db.posts.insert key row }

def setChannel (db : GlossaryDb) (key : AccountId × WorkspaceId) (row : ChannelRow) : GlossaryDb :=
  { db with channels := db.channels.insert key row }

/-- The observation is noted. -/
def observe (db : GlossaryDb) (o : Observation) : GlossaryDb := { db with observed := o :: db.observed }

/-- The rows of `glossary_definitions` of a post. -/
def definitionsOf (db : GlossaryDb) (key : PostKey) : List Definition :=
  (db.definitions.filter fun d => d.1 = key).map (·.2)

end GlossaryDb

/-- `INSERT INTO glossary_definitions`; the primary key is the post and the position. -/
def insertDefinition (key : PostKey) (definition : Definition) : GlossaryTx Unit := do
  let db ← Tx.get
  Tx.require (definition.position ≤ bigintMax ∧ ∀ d ∈ db.definitionsOf key, d.position ≠ definition.position) .storage
  Tx.modify fun db => { db with definitions := db.definitions ++ [(key, definition)] }

/-- The row, its definitions and the revision of the channel are written. -/
def storePost (key : PostKey) (row : PostRow) : GlossaryTx Unit := do
  Tx.modify (·.setPost key row)
  Tx.modify fun db => { db with definitions := db.definitions.filter fun d => d.1 ≠ key }
  Tx.loop (fun _ definition => insertDefinition key definition) () row.document.definitions
  Tx.modify fun db => { db with
    channels := db.channels.update (key.owner, key.workspace) fun c => { c with revision := c.revision + 1 } }

/-- `apply_post` with the parser of the version `version`. -/
def applyPost (version : String) (owner : AccountId) (workspace : WorkspaceId) (post : ObservedPost) (receipt : Nat)
    (kind : PostKind) : GlossaryTx Unit := do
  let key : PostKey := { owner, workspace, message := post.id }
  let old := (← Tx.get).posts.lookup key
  Tx.modify (·.observe { key, kind, post, version, stored := old })
  match old with
  | none => storePost key (post.row version receipt kind none)
  | some row =>
    match row.decide version kind post with
    | .unchanged => pure ()
    | .refreshed =>
      Tx.modify (·.setPost key { row with editedAt := post.editedAt, kind := kind, receipt := receipt, source := post.raw })
    | .marked => Tx.modify (·.setPost key { row with conflicted := true })
    | .stored => storePost key (post.row version receipt kind (some row))

/-! ## The archive -/

/-- `owned`. -/
def ownedGlossary (owner : AccountId) (workspace : WorkspaceId) : GlossaryTx Unit := do
  Tx.require ((← Tx.get).owners.lookup workspace = some owner) .notFound

/-- `receipt`; `id` is the fresh UUID. -/
def addReceipt (id : Nat) (owner : AccountId) (workspace : WorkspaceId) (kind key raw : String) : GlossaryTx Unit :=
  Tx.modify fun db => { db with receipts := db.receipts ++ [{ id, owner, workspace, kind, sourceKey := key, raw }] }

/-- The first receipt of an archived post. -/
def GlossaryDb.archiveReceipt (db : GlossaryDb) (owner : AccountId) (workspace : WorkspaceId) (id : Int) : Option GlossaryReceipt :=
  db.receipts.find? fun r =>
    r.owner == owner && r.workspace == workspace && r.kind == "archive_post" && r.sourceKey == toString id

/-- `import_post`; a record that contradicts an earlier one is retained and not applied (`false`). -/
def importPost (version : String) (owner : AccountId) (workspace : WorkspaceId) (post : ObservedPost) (receipt : Nat) :
    GlossaryTx Bool := do
  ownedGlossary owner workspace
  let db ← Tx.get
  Tx.require ((db.channels.lookup (owner, workspace)).isSome) .notFound
  match db.archiveReceipt owner workspace post.id with
  | some previous =>
    if previous.raw = post.raw then do
      applyPost version owner workspace post previous.id .archive
      pure true
    else do
      addReceipt receipt owner workspace "archive_post" (toString post.id) post.raw
      Tx.modify fun db => { db with channels := db.channels.update (owner, workspace) fun c =>
        { c with historyError := some "Conflicting archive record; both observations retained" } }
      pure false
  | none => do
    addReceipt receipt owner workspace "archive_post" (toString post.id) post.raw
    applyPost version owner workspace post receipt .archive
    pure true

/-! ## Events of the bot -/

structure PollClaim where
  owner : AccountId
  workspace : WorkspaceId
  lease : Nat
  encryptedToken : String := ""
  /-- The cursor of the channel when it was claimed. -/
  offset : Option Int := none
deriving DecidableEq, Repr

/-- `UpdateBatch`: the events of one response with their ids and texts. -/
structure UpdateBatch where
  raw : String
  updates : List (Int × String)
  nextOffset : Option Int
deriving DecidableEq, Repr

/-- The ids of a response are present, not negative and increasing. -/
def readUpdates : Option Int → List (Option Int × String) → Except GlossaryError (List (Int × String))
  | _, [] => .ok []
  | previous, update :: rest =>
    match update.1.filter (0 ≤ ·) with
    | none => .error .protocol
    | some id =>
      if previous.any (id ≤ ·) then .error .conflict
      else (readUpdates (some id) rest).map fun updates => (id, update.2) :: updates

/-- `UpdateBatch::new` for a response that decodes to these updates. -/
def UpdateBatch.new (raw : String) (response : List (Option Int × String)) : Except GlossaryError UpdateBatch :=
  match readUpdates none response with
  | .error e => .error e
  | .ok updates =>
    match updates.getLast? with
    | none => .ok { raw, updates, nextOffset := none }
    | some last => if last.1 < bigintMax then .ok { raw, updates, nextOffset := some (last.1 + 1) } else .error .protocol

def conflictingPayloadText : String := "Conflicting payload for update ID; both raw responses retained"

/-- One event of a batch is stored; another payload under its id is a conflict. -/
def saveEvent (owner : AccountId) (workspace : WorkspaceId) (receipt : Nat) (event : Int × String) : GlossaryTx Unit := do
  let key := (owner, workspace, event.1)
  match (← Tx.get).events.lookup key with
  | some previous =>
    Tx.onlyIf (previous.document ≠ event.2) (Tx.modify fun db => { db with
      events := db.events.insert key { previous with conflict := true, error := some conflictingPayloadText } })
  | none => Tx.modify fun db => { db with
      events := db.events.insert key { receipt, document := event.2, applied := false, error := none, conflict := false } }

/-- `persist_batch`. -/
def persistBatch (claim : PollClaim) (batch : UpdateBatch) (receipt : Nat) (now : DateTime) : GlossaryTx Unit := do
  let channel ← Tx.orThrow ((← Tx.get).channels.lookup (claim.owner, claim.workspace)) .conflict
  Tx.require (channel.pollLease = some claim.lease ∧ channel.pollUntil.any (now < ·)) .conflict
  match batch.updates with
  | [] => pure ()
  | events => do
    let offset ← Tx.orThrow batch.nextOffset .protocol
    addReceipt receipt claim.owner claim.workspace "bot_batch" (toString offset) batch.raw
    Tx.loop (fun _ event => saveEvent claim.owner claim.workspace receipt event) () events
    Tx.modify fun db => { db with channels := db.channels.update (claim.owner, claim.workspace) fun c =>
      { c with pollCursor := batch.nextOffset } }

/-- The channel under a new lease; a gap of more than 24 hours starts a reconciliation with the public history.
`timeText` is PostgreSQL's text of a time. -/
def ChannelRow.claimed (timeText : DateTime → String) (c : ChannelRow) (lease seconds : Nat) (now : DateTime) : ChannelRow :=
  let c := { c with pollLease := some lease, pollUntil := some (now + seconds * 1000000000) }
  match c.lastPoll.filter (· < now - 86400000000000) with
  | none => c
  | some last =>
    { c with
      nextHistory := now
      historyError := some "Bot delivery gap exceeds Telegram retention; public reconciliation required"
      coverageNote := some ("Непроверенный интервал после " ++ timeText last ++
        "; публичная история не доказывает полноту") }

/-- `lease_poll` takes the channel `key`; which of the due channels it is depends on the rows that are locked. -/
def leasePoll (timeText : DateTime → String) (key : AccountId × WorkspaceId) (lease seconds : Nat) (now : DateTime) :
    GlossaryTx (Option PollClaim) := do
  let db ← Tx.get
  match db.channels.lookup key with
  | none => pure none
  | some channel =>
    if channel.encryptedToken.isSome ∧ channel.nextPoll ≤ now ∧ channel.pollUntil.all (· ≤ now) ∧
        db.owners.lookup key.2 = some key.1 then do
      Tx.modify (·.setChannel key (channel.claimed timeText lease seconds now))
      Tx.require channel.binding.isSome .storage
      pure (some { owner := key.1, workspace := key.2, lease, encryptedToken := channel.encryptedToken.getD ""
                   offset := channel.pollCursor })
    else pure none

/-- `release_poll`. -/
def releasePoll (claim : PollClaim) (error : Option String) (retry : Nat) (now : DateTime) : GlossaryTx Unit := do
  let channel ← Tx.orThrow ((← Tx.get).channels.lookup (claim.owner, claim.workspace)) .conflict
  Tx.require (channel.pollLease = some claim.lease ∧ channel.pollUntil.any (now < ·)) .conflict
  Tx.modify (·.setChannel (claim.owner, claim.workspace)
    { channel with
      pollLease := none, pollUntil := none, pollError := error, nextPoll := now + retry * 1000000000
      lastPoll := if error.isNone then some now else channel.lastPoll })

/-- The pending events of a channel, in order. -/
def GlossaryDb.pendingEvents (db : GlossaryDb) (owner : AccountId) (workspace : WorkspaceId) : List (Int × EventRow) :=
  ((db.events.rows.filter fun e => e.1.1 == owner && e.1.2.1 == workspace && !e.2.applied && e.2.error.isNone).map
    fun e => (e.1.2.2, e.2)).insertionSort fun a b => a.1 ≤ b.1

/-- What an event contains. -/
inductive EventContent
  | post (post : ObservedPost)
  | ignored
  | failed (error : GlossaryError)
deriving DecidableEq, Repr

def eventContent (P : GlossaryPlatform) (parser : GlossaryParser) (channelId : Int) (value : Json) : EventContent :=
  match (P.get? value "edited_channel_post").or (P.get? value "channel_post") with
  | some message =>
    if P.asI64 (P.index (P.index message "chat") "id") ≠ some channelId then .ignored
    else match ObservedPost.telegram P parser message channelId with
      | .ok post => .post post
      | .error e => .failed e
  | none => if (P.get? value "my_chat_member").isSome then .ignored else .failed .unsupported

/-- The outcome of an event is noted in its row. -/
def finishEvent (key : AccountId × WorkspaceId × Int) (error : Option String) : GlossaryTx Unit :=
  Tx.modify fun db => { db with
    events := db.events.update key fun row => { row with applied := error.isNone, error := error } }

/-- One turn of the loop of `project_events`. -/
def projectEvent (P : GlossaryPlatform) (parser : GlossaryParser) (owner : AccountId) (workspace : WorkspaceId)
    (channelId : Int) (event : Int × EventRow) : GlossaryTx Unit := do
  let value ← Tx.orThrow (P.parseJson event.2.document) .storage
  match eventContent P parser channelId value with
  | .post post => do
    applyPost parser.version owner workspace post event.2.receipt .bot
    finishEvent (owner, workspace, event.1) none
  | .ignored => finishEvent (owner, workspace, event.1) none
  | .failed e => finishEvent (owner, workspace, event.1) (some e.text)

/-- `project_events` for a channel that has pending events. -/
def projectEvents (P : GlossaryPlatform) (parser : GlossaryParser) (owner : AccountId) (workspace : WorkspaceId)
    (batchSize : Nat) : GlossaryTx Unit := do
  let db ← Tx.get
  let channel ← Tx.orThrow (db.channels.lookup (owner, workspace)) .notFound
  let channelId ← Tx.orThrow channel.binding .notFound
  Tx.require (db.owners.lookup workspace = some owner) .notFound
  Tx.loop (fun _ event => projectEvent P parser owner workspace channelId event) ()
    ((db.pendingEvents owner workspace).take batchSize)

/-! ## Reindexing -/

/-- The posts of a channel after a cursor, in order. -/
def GlossaryDb.postsAfter (db : GlossaryDb) (owner : AccountId) (workspace : WorkspaceId) (cursor : Int) :
    List (PostKey × PostRow) :=
  (db.posts.rows.filter fun p => p.1.owner == owner && p.1.workspace == workspace && cursor < p.1.message).insertionSort
    fun a b => a.1.message ≤ b.1.message

/-- The stored source is parsed again. -/
def PostRow.reparsed (P : GlossaryPlatform) (parser : GlossaryParser) (binding : Option Int) (row : PostRow) :
    Except GlossaryError ObservedPost :=
  match row.kind with
  | .bot =>
    match P.parseJson row.source, binding with
    | none, _ => .error .storage
    | some _, none => .error .identity
    | some value, some channelId => ObservedPost.telegram P parser value channelId
  | _ => ObservedPost.archive P parser row.source

/-- One turn of `reindex`. -/
def reindexPost (P : GlossaryPlatform) (parser : GlossaryParser) (owner : AccountId) (workspace : WorkspaceId)
    (binding : Option Int) (entry : PostKey × PostRow) : GlossaryTx Unit :=
  match entry.2.reparsed P parser binding with
  | .error e => Tx.throw e
  | .ok post => do
    Tx.require (post.id = entry.1.message) .identity
    applyPost parser.version owner workspace post entry.2.receipt entry.2.kind

/-- `UPDATE glossary_events SET error=NULL … WHERE … NOT applied AND NOT conflict`. -/
def GlossaryDb.requeued (db : GlossaryDb) (owner : AccountId) (workspace : WorkspaceId) : GlossaryDb :=
  { db with events := db.events.rows.foldl (fun t e =>
      if e.1.1 = owner ∧ e.1.2.1 = workspace ∧ e.2.applied = false ∧ e.2.conflict = false then
        t.insert e.1 { e.2 with error := none }
      else t) db.events }

/-- One transaction of `reindex`: a batch of posts after the cursor, or the end, which queues failed events again. -/
def reindexBatch (P : GlossaryPlatform) (parser : GlossaryParser) (owner : AccountId) (workspace : WorkspaceId)
    (cursor : Int) (batchSize : Nat) : GlossaryTx Unit := do
  let db ← Tx.get
  let channel ← Tx.orThrow (db.channels.lookup (owner, workspace)) .notFound
  match (db.postsAfter owner workspace cursor).take batchSize with
  | [] => Tx.modify (·.requeued owner workspace)
  | entries => Tx.loop (fun _ entry => reindexPost P parser owner workspace channel.binding entry) () entries

/-! ## The public history -/

structure HistoryClaim where
  owner : AccountId
  workspace : WorkspaceId
  before : Option Int
  lease : Nat
deriving DecidableEq, Repr

/-- `now()+seconds*interval '1 second'`. -/
def secondsLater (now : DateTime) (seconds : Nat) : DateTime := now + seconds * 1000000000

/-- `lease_history` takes the channel `key`; `lease` is the fresh UUID. -/
def leaseHistory (key : AccountId × WorkspaceId) (lease seconds : Nat) (now : DateTime) :
    GlossaryTx (Option HistoryClaim) := do
  let db ← Tx.get
  match db.channels.lookup key with
  | none => pure none
  | some channel =>
    if channel.importComplete = true ∧ channel.nextHistory ≤ now ∧ channel.historyUntil.all (· ≤ now) ∧
        db.owners.lookup key.2 = some key.1 then do
      Tx.modify (·.setChannel key
        { channel with historyLease := some lease, historyUntil := some (secondsLater now seconds) })
      pure (some { owner := key.1, workspace := key.2, before := channel.historyBefore, lease })
    else pure none

/-- The channel after a page was committed. -/
def ChannelRow.advanced (c : ChannelRow) (before : Option Int) (delay : Nat) (now : DateTime) : ChannelRow :=
  { c with
    historyBefore := before
    historyLease := none
    historyUntil := none
    nextHistory := secondsLater now delay
    historyError := none
    lastHistory := if before.isNone then some now else c.lastHistory }

/-- `persist_page`. -/
def persistPage (version : String) (claim : HistoryClaim) (page : PublicPage) (delay receipt : Nat) (now : DateTime) :
    GlossaryTx Unit := do
  Tx.require (¬ page.before.any fun next => claim.before.any (· ≤ next)) .conflict
  let channel ← Tx.orThrow ((← Tx.get).channels.lookup (claim.owner, claim.workspace)) .conflict
  Tx.require (channel.historyLease = some claim.lease ∧ channel.historyUntil.any (now < ·)) .conflict
  addReceipt receipt claim.owner claim.workspace "public_page" ((claim.before.map toString).getD "latest") page.raw
  Tx.loop (fun _ post => applyPost version claim.owner claim.workspace post receipt .page) () page.posts
  Tx.modify fun db => { db with
    channels := db.channels.update (claim.owner, claim.workspace) fun c => c.advanced page.before delay now }

/-- `release_history`. -/
def releaseHistory (claim : HistoryClaim) (error : String) (retry : Nat) (now : DateTime) : GlossaryTx Unit := do
  let channel ← Tx.orThrow ((← Tx.get).channels.lookup (claim.owner, claim.workspace)) .conflict
  Tx.require (channel.historyLease = some claim.lease ∧ channel.historyUntil.any (now < ·)) .conflict
  Tx.modify (·.setChannel (claim.owner, claim.workspace)
    { channel with historyLease := none, historyUntil := none, historyError := some error
                   nextHistory := secondsLater now retry })

end Inoreader
