import Inoreader.Ai.Calls
import Mathlib.Data.List.Sort

/-!
# Commands and claims of chats (`reader-storage-postgres/src/ai.rs`, `ai/automatic.rs`, `ai/quarantine.rs`,
`reader-ai/src/service.rs`)

A command starts an attempt or stops it; a claim gives a worker the attempt of a queued chat under a lease.
`stop` and the recovery of a claim leave the lease in the row, `append`, the end of an attempt and a
deferral clear it.
-/

namespace Inoreader
open Lib

/-! ## Starting a chat -/

inductive ArticleInput
  | waiting (title sourceUrl : String)
  | ready (snapshot : ArticleSnapshot)
  | failed
deriving DecidableEq, Repr

/-- What the policy pins into a new chat; the system prompt includes the transport instruction. -/
structure ChatSettings where
  promptVersion : String
  systemPrompt : String
  generationMode : GenerationMode
  costRates : CostRates
  maxOutputTokens : Nat
  limits : InputLimits
  review : ReviewSnapshot
deriving DecidableEq, Repr

/-- What a start asks for; `chat` and `assistant` are fresh UUIDs. -/
structure ChatStart where
  owner : AccountId
  workspace : WorkspaceId
  article : ArticleId
  operation : Nat
  regenerate : Bool
  chat : Nat
  assistant : Nat
deriving DecidableEq, Repr

def newAttempt (id : Nat) (task : AttemptTask) (now : DateTime) : ChatMessage where
  id := id
  role := .assistant
  content := ""
  status := .pending
  createdAt := now
  phase := some task.phase
  purpose := some task.purpose

/-- The first record of a chat. -/
def ChatStart.record (s : ChatStart) (settings : ChatSettings) (snapshot : Option ArticleSnapshot)
    (title sourceUrl : String) (status : ChatStatus) (now : DateTime) : ChatRecord where
  owner := s.owner
  view :=
    { id := s.chat
      articleId := s.article
      workspaceId := s.workspace
      title := title
      sourceUrl := sourceUrl
      createdAt := now
      model := DeepSeekModel.flash.id
      promptVersion := settings.promptVersion
      status := status
      messages := [newAttempt s.assistant (.summary none) now]
      providerCalls := []
      error := none }
  snapshot := snapshot
  systemPrompt := settings.systemPrompt
  generationMode := settings.generationMode
  costRates := settings.costRates
  maxOutputTokens := settings.maxOutputTokens
  limits := settings.limits
  review := settings.review
  operations :=
    [{ id := s.operation, kind := .start s.regenerate, assistantId := s.assistant, task := .summary none }]

/-- `start_internal`: the record that is handed to `create_chat`. -/
def ChatStart.prepare (s : ChatStart) (settings : ChatSettings) (input : ArticleInput) (now : DateTime) :
    Except AiError ChatRecord :=
  match input with
  | .ready snapshot => .ok (s.record settings (some snapshot) snapshot.title snapshot.sourceUrl .queued now)
  | .waiting title sourceUrl => .ok (s.record settings none title sourceUrl .waitingContent now)
  | .failed => .error .fullText

/-- `save_operation`. -/
def saveOperation (owner : AccountId) (chat operation : Nat) (kind : OperationKind) : AiTx Unit := do
  Tx.require ((← Tx.get).operations.lookup (owner, operation) = none) .storage
  Tx.modify fun db => { db with operations := db.operations.insert (owner, operation) (chat, kind) }

def newChatRow (record : ChatRecord) (published : ArticleChat) (automatic : Bool) (now : DateTime) : ChatRow where
  owner := record.owner
  workspace := record.view.workspaceId
  article := record.view.articleId
  createdAt := record.view.createdAt
  scheduledAt := now
  status := some record.view.status
  document := some record.progress.toValue
  inputs := some record.inputs.toValue
  publicView := some published
  publicRevision := 0
  lease := none
  leaseUntil := none
  priorityAt := none
  automatic := automatic

/-- `ORDER BY created_at DESC,id DESC LIMIT 1` over the chats of an article. -/
def AiDb.latestChat (db : AiDb) (record : ChatRecord) : Option (Nat × ChatRow) :=
  ((db.chats.rows.filter fun row =>
      row.2.owner == record.owner && row.2.workspace == record.view.workspaceId &&
        row.2.article == record.view.articleId).insertionSort
    fun a b => precedes b.2.createdAt b.1 a.2.createdAt a.1 || a.1 == b.1).head?

/-- `create_chat`. -/
def createChat (P : AiPlatform) (record : ChatRecord) (operation : Nat) (regenerate automatic : Bool)
    (now : DateTime) : AiTx ChatRecord := do
  let db ← Tx.get
  Tx.require (db.policy.ownsWorkspace record.owner record.view.workspaceId ∧
    (db.policy.library.articles.lookup (record.view.workspaceId, record.view.articleId)).isSome) .notFound
  match db.operations.lookup (record.owner, operation) with
  | some (id, old) => do
    let prior ← lockedRecord record.owner id
    Tx.require (old = .start regenerate ∧ prior.view.articleId = record.view.articleId ∧
      prior.view.workspaceId = record.view.workspaceId) .conflict
    pure prior
  | none =>
    match if regenerate then none else db.latestChat record with
    | some (_, row) => do
      let prior ← liftExcept (ChatDocument.decode row.document row.inputs)
      saveOperation record.owner prior.view.id operation (.start regenerate)
      pure prior
    | none => do
      let published ← liftExcept (record.intoPublicView P)
      Tx.require (db.chats.lookup record.view.id = none) .storage
      Tx.modify (·.setChat record.view.id (newChatRow record published automatic now))
      saveOperation record.owner record.view.id operation (.start regenerate)
      pure record

/-! ## Commands -/

/-- The record of a chat with another progress. -/
def ChatRecord.withProgress (r : ChatRecord) (p : Progress) : ChatRecord := .of p r.inputs

/-- The task of a new attempt: a retry repeats the last one, a message asks for a reply. -/
def Progress.nextTask (p : Progress) : OperationKind → Except AiError AttemptTask
  | .retry =>
    match p.operations.getLast? with
    | some op => .ok op.task
    | none => .error .storage
  | .message _ =>
    if p.view.messages.any fun m => m.purpose == some .summary && m.status == .complete then .ok .reply
    else .error .conflict
  | .start _ => .error .conflict

/-- The message of the user that comes with a command, if the status of the chat admits the command. -/
def Progress.userMessages (p : Progress) (kind : OperationKind) (user : Nat) (now : DateTime) :
    Except AiError (List ChatMessage) :=
  match kind with
  | .message content =>
    .ok [{ id := user, role := .user, content, status := .complete, createdAt := now, phase := none, purpose := none }]
  | .retry =>
    if p.view.status = .failed ∨ p.view.status = .interrupted ∨ p.view.status = .cancelled then .ok []
    else .error .conflict
  | .start _ => .error .conflict

/-- The record with the new attempt; `user` and `assistant` are fresh UUIDs. -/
def ChatRecord.appended (r : ChatRecord) (operation : Nat) (kind : OperationKind) (user assistant : Nat)
    (now : DateTime) : Except AiError ChatRecord := do
  let task ← r.progress.nextTask kind
  let messages ← r.progress.userMessages kind user now
  pure { r with
    view := { r.view with
      messages := r.view.messages ++ messages ++ [newAttempt assistant task now]
      status := if r.snapshot.isSome then .queued else .waitingContent
      error := none }
    operations := r.operations ++ [{ id := operation, kind, assistantId := assistant, task }] }

/-- `append`. -/
def append (P : AiPlatform) (owner : AccountId) (id operation : Nat) (kind : OperationKind) (user assistant : Nat)
    (now : DateTime) : AiTx ChatRecord := do
  let record ← lockedRecord owner id
  match (← Tx.get).operations.lookup (owner, operation) with
  | some prior => do
    Tx.require (prior = (id, kind)) .conflict
    pure record
  | none => do
    Tx.require (record.view.status.pending = false) .conflict
    let record ← liftExcept (record.appended operation kind user assistant now)
    writeRecord P record
    Tx.modify fun db => { db with
      chats := db.chats.update id fun row => { row with lease := none, leaseUntil := none, automatic := false } }
    saveOperation owner id operation kind
    pure record

/-- The record whose attempt ends without a result. -/
def ChatRecord.ended (r : ChatRecord) (status : ChatStatus) (error : Option String) : Except AiError ChatRecord :=
  ((ArticleChat.interrupt { r.view with status, error }).setAttempt r.operations .interrupted).map fun view =>
    { r with view := view }

/-- `stop`. -/
def stop (P : AiPlatform) (owner : AccountId) (id : Nat) : AiTx ChatRecord := do
  let record ← lockedRecord owner id
  if record.view.status.pending then do
    let record ← liftExcept (record.ended .cancelled record.view.error)
    writeRecord P record
    pure record
  else pure record

/-- `prioritize`. -/
def prioritize (owner : AccountId) (id : Nat) (now : DateTime) : AiTx Unit := do
  match (← Tx.get).chats.lookup id with
  | some row =>
    Tx.onlyIf (row.owner = owner)
      (Tx.modify (·.setChat id { row with priorityAt := some now, automatic := false, scheduledAt := now }))
  | none => pure ()

/-! ## Claims -/

namespace ChatRow
variable (id : Nat) (row : ChatRow)

/-- `quarantine::checked_chat`. -/
def checked : Except AiError ChatRecord :=
  match ChatDocument.decode row.document row.inputs with
  | .ok r =>
    if r.view.id = id ∧ r.owner = row.owner ∧ r.view.workspaceId = row.workspace ∧ r.view.articleId = row.article then
      .ok r
    else .error .storage
  | .error e => .error e

/-- `quarantine::chat` changes only queue metadata. -/
def quarantine : ChatRow := { row with status := none, lease := none, leaseUntil := none }

/-- The recovery position. -/
def expiresBefore (a b : Nat × ChatRow) : Bool :=
  precedes (a.2.leaseUntil.getD 0) a.1 (b.2.leaseUntil.getD 0) b.1 || a.1 == b.1

/-- `CASE status WHEN 'queued' THEN 0 ELSE 1 END,scheduled_at,id`. -/
def beforeInClass (a b : Nat × ChatRow) : Bool :=
  match a.2.status == some .queued, b.2.status == some .queued with
  | true, false => true
  | false, true => false
  | _, _ => precedes a.2.scheduledAt a.1 b.2.scheduledAt b.1 || a.1 == b.1

/-- The queue position: `priority_at DESC NULLS LAST` comes first. -/
def before (a b : Nat × ChatRow) : Bool :=
  match a.2.priorityAt, b.2.priorityAt with
  | some p, some q => q < p || (p == q && beforeInClass a b)
  | some _, none => true
  | none, some _ => false
  | none, none => beforeInClass a b

end ChatRow

namespace AiDb

/-- The expired leases that a claim recovers. -/
def expiredChats (db : AiDb) (locked : List Nat) (batch : Nat) (now : DateTime) : List (Nat × ChatRow) :=
  ((db.chats.rows.filter fun row =>
      row.2.leaseUntil.any (· < now) && row.2.status.any ChatStatus.pending && !locked.contains row.1).insertionSort
    fun a b => ChatRow.expiresBefore a b).take batch

/-- The row can be claimed. -/
def claimableChat (db : AiDb) (now : DateTime) (row : ChatRow) : Bool :=
  (row.status == some .queued || row.status == some .waitingContent) && row.lease == none && row.scheduledAt ≤ now &&
    (!row.automatic || (db.policy.schedule.resumeAt now).isNone) && db.policy.ownsWorkspace row.owner row.workspace

def nextChat (db : AiDb) (locked : List Nat) (now : DateTime) : Option (Nat × ChatRow) :=
  ((db.chats.rows.filter fun row => db.claimableChat now row.2 && !locked.contains row.1).insertionSort
    fun a b => ChatRow.before a b).head?

end AiDb

def workerInterruptedText : String :=
  "The worker was interrupted; provider billing may be unknown. Retry explicitly."

/-- The record of an expired chat, if its projection can be published. -/
def ChatRow.recovered (P : AiPlatform) (id : Nat) (row : ChatRow) : Except AiError ChatRecord := do
  let record ← (← row.checked id).ended .interrupted (some workerInterruptedText)
  let _ ← record.intoPublicView P
  pure record

/-- One turn of the recovery loop of `claim`. -/
def recoverChat (P : AiPlatform) (entry : Nat × ChatRow) : AiTx Unit :=
  match entry.2.recovered P entry.1 with
  | .ok record => writeRecord P record
  | .error _ => Tx.modify fun db => { db with chats := db.chats.update entry.1 ChatRow.quarantine }

/-- `claim`; `lease` is the fresh UUID. -/
def claimChat (P : AiPlatform) (batch : Nat) (locked : List Nat) (lease seconds : Nat) (now : DateTime) :
    AiTx (Option ClaimedChat) := do
  Tx.loop (fun _ entry => recoverChat P entry) () ((← Tx.get).expiredChats locked batch now)
  match (← Tx.get).nextChat locked now with
  | none => pure none
  | some (id, row) =>
    match row.checked id with
    | .error _ => do
      Tx.modify (·.setChat id row.quarantine)
      pure none
    | .ok record => do
      Tx.require (seconds ≤ bigintMax) .storage
      Tx.modify (·.setChat id { row with lease := some lease, leaseUntil := some (leaseEnd now seconds) })
      pure (some { record, lease })

/-! ## What a worker publishes -/

/-- The first completed call of an attempt and a phase. -/
def ArticleChat.completedCall (view : ArticleChat) (assistant : Nat) (phase : GenerationPhase) : Option ProviderCall :=
  view.providerCalls.find? fun c => c.assistantId == assistant && c.phase == phase && c.status == .completed

/-- What `update_claim` checks before it completes the last attempt; `response` is the retained content of
a call. -/
def Progress.checkCompleted (P : AiPlatform) (p : Progress) (op : Operation) (claim : ClaimedChat)
    (response : Nat → Option String) (content : Option String) : Except AiError Unit :=
  match op.task with
  | .summary none => .error .conflict
  | .reply => if (p.view.completedCall op.assistantId .generating).isSome then .ok () else .error .conflict
  | .summary (some draft) =>
    match p.view.completedCall op.assistantId .verifying with
    | none => .error .conflict
    | some call =>
      match p.view.messages.find? (·.id == op.assistantId), response call.id, claim.record.snapshot, call.usage with
      | some message, some raw, some source, some _ =>
        match P.reviewed raw draft source.title source.text claim.record.limits.maxResponseBytes with
        | .error e => .error e
        | .ok checked => if checked = content.getD message.content then .ok () else .error .review
      | _, _, _, _ => .error .storage

/-- The check belongs to the status `Completed`. -/
def Progress.checkNext (P : AiPlatform) (p : Progress) (op : Operation) (claim : ClaimedChat)
    (response : Nat → Option String) (next : ChatStatus) (content : Option String) : Except AiError Unit :=
  if next = .completed then p.checkCompleted P op claim response content else .ok ()

def ChatStatus.messageStatus : ChatStatus → MessageStatus
  | .completed => .complete
  | .generating | .verifying => .streaming
  | .interrupted | .cancelled => .interrupted
  | .failed => .failed
  | _ => .pending

/-- The record after `update_claim`. -/
def Progress.updated (p : Progress) (assistant : Nat) (next : ChatStatus) (content : Option String)
    (snapshot : Option ArticleSnapshot) (error : Option String) : Except AiError Progress :=
  let view : ArticleChat := { p.view with
    title := (snapshot.map ArticleSnapshot.title).getD p.view.title
    sourceUrl := (snapshot.map ArticleSnapshot.sourceUrl).getD p.view.sourceUrl
    status := next
    error := error }
  let view := if next.pending then view else view.interrupt
  match modifyFirst (·.id == assistant)
      (fun m => { m with content := content.getD m.content, status := next.messageStatus }) view.messages with
  | some messages => .ok { p with view := { view with messages := messages } }
  | none => .error .storage

/-- `UPDATE ai_chats SET inputs=jsonb_set(inputs::jsonb,'{snapshot}',…) WHERE … inputs::jsonb->'snapshot'='null'`. -/
def pinSnapshot (id : Nat) (snapshot : ArticleSnapshot) : AiTx Unit := do
  let row ← Tx.orThrow ((← Tx.get).chats.lookup id) .conflict
  match row.inputs with
  | none => Tx.throw .storage
  | some inputs => do
    Tx.require (inputs.get? "snapshot" = some (.snapshot none)) .conflict
    Tx.modify (·.setChat id { row with inputs := some (inputs.insert "snapshot" (.snapshot (some snapshot))) })

/-- The snapshot that a worker found for a chat that had none. -/
def pinClaim (claim : ClaimedChat) : Option ArticleSnapshot → AiTx Unit
  | some source => do
    Tx.require (claim.record.snapshot = none) .conflict
    pinSnapshot claim.record.view.id source
  | none => pure ()

/-- The content of a retained response of the owner. -/
def AiDb.responseOf (db : AiDb) (owner : AccountId) (id : Nat) : Option String :=
  match db.callResponses.lookup id with
  | some r => if r.owner = owner then some r.content else none
  | none => none

/-- `update_claim`. -/
def updateClaim (P : AiPlatform) (claim : ClaimedChat) (next : ChatStatus) (content : Option String)
    (snapshot : Option ArticleSnapshot) (error : Option String) (now : DateTime) : AiTx Unit := do
  let chat := claim.record.view.id
  let state ← lockedProgress claim.record.owner chat
  let db ← Tx.get
  let row ← Tx.orThrow (db.chats.lookup chat) .storage
  Tx.require (row.fenced claim.lease now) .cancelled
  let operation ← Tx.orThrow state.record.operations.getLast? .storage
  Tx.require (content.isSome → operation.task ≠ .summary none) .conflict
  let _ ← liftExcept
    (state.record.checkNext P operation claim (db.responseOf state.record.owner) next content)
  pinClaim claim snapshot
  let record ← liftExcept (state.record.updated operation.assistantId next content snapshot error)
  writeProgress { state with record }
  Tx.onlyIf (next ≠ .generating ∧ next ≠ .verifying) (Tx.modify (·.releaseChat chat now))

def AiDeferral.text : AiDeferral → String
  | .dailyBudget => AiError.budget.text
  | .peakHours => AiError.automaticPaused.text

/-- The record of a deferred attempt. -/
def Progress.deferred (p : Progress) (reason : AiDeferral) : Except AiError Progress :=
  (ArticleChat.setAttempt { p.view with status := .queued, error := some reason.text } p.operations .pending).map
    fun view => { p with view := view }

/-- `defer_chat` asks for the lease only, not for a pending chat. -/
def deferChat (claim : ClaimedChat) (reason : AiDeferral) (now : DateTime) : AiTx Unit := do
  let chat := claim.record.view.id
  let state ← lockedProgress claim.record.owner chat
  let db ← Tx.get
  let row ← Tx.orThrow (db.chats.lookup chat) .storage
  Tx.require (row.lease = some claim.lease ∧ row.leaseUntil.any (now < ·)) .cancelled
  let record ← liftExcept (state.record.deferred reason)
  writeProgress { state with record }
  Tx.modify (·.releaseChat chat (db.policy.schedule.deferredUntil reason now))

/-! ## Polling -/

structure ChatPoll where
  revision : Nat
  /-- `none` if the poller has this revision. -/
  chat : Option ArticleChat
deriving DecidableEq, Repr

/-- `public_chat`. -/
def publicChat (owner : AccountId) (id : Nat) (after : Option Nat) : AiTx ChatPoll := do
  let row ← ownedChat owner id
  Tx.require (row.status.isSome) .storage
  if after = some row.publicRevision then pure { revision := row.publicRevision, chat := none }
  else do
    let view ← Tx.orThrow row.publicView .storage
    Tx.require (view.id = id ∧ view.workspaceId = row.workspace ∧ view.articleId = row.article) .storage
    pure { revision := row.publicRevision, chat := some view }

end Inoreader
