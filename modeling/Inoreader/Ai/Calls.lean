import Inoreader.Ai.ChatDocument
import Inoreader.Lib.Lists

/-!
# Provider calls of a chat (`reader-storage-postgres/src/ai/calls.rs`, `unchecked.rs`)

`begin` admits a call under the lease of the worker. `update` records what became of a call: it asks for
no lease, so that a late worker can still report usage, its response and its draft.
-/

namespace Inoreader
open Lib

/-- `calls::interrupt`. -/
def ArticleChat.interrupt (view : ArticleChat) : ArticleChat :=
  { view with
    providerCalls := view.providerCalls.map fun c =>
      if c.status = .started then
        { c with status := if view.status = .cancelled then .cancelled else .interrupted }
      else c }

/-- `set_attempt`. -/
def ArticleChat.setAttempt (view : ArticleChat) (operations : List Operation) (state : MessageStatus) :
    Except AiError ArticleChat :=
  match operations.getLast? with
  | none => .error .storage
  | some op =>
    match modifyFirst (·.id == op.assistantId) (fun m => { m with status := state }) view.messages with
    | some messages => .ok { view with messages := messages }
    | none => .error .storage

/-- `calls::fenced`: the lease is the worker's own, it has not expired and the chat is pending. -/
def ChatRow.fenced (row : ChatRow) (lease : Nat) (now : DateTime) : Bool :=
  row.lease == some lease && row.leaseUntil.any (now < ·) && row.status.any ChatStatus.pending

def phaseStatus : GenerationPhase → ChatStatus
  | .generating => .generating
  | .verifying => .verifying

/-- The attempt has a call of the phase. -/
def ArticleChat.hasCall (view : ArticleChat) (assistant : Nat) (phase : GenerationPhase) : Bool :=
  view.providerCalls.any fun c => c.assistantId == assistant && c.phase == phase

/-- The record with the admitted call. -/
def Progress.begin (p : Progress) (assistant : Nat) (phase : GenerationPhase) (model : CallModel) (id : Nat) :
    Except AiError Progress :=
  let call : ProviderCall := { id, assistantId := assistant, phase, status := .started, usage := none }
  match modifyFirst (·.id == assistant) (fun m => { m with phase := some phase, status := .streaming })
      p.view.messages with
  | none => .error .storage
  | some messages =>
    .ok { p with
      view := { p.view with
        model := if phase = .generating then model.model.id else p.view.model
        providerCalls := p.view.providerCalls ++ [call]
        messages := messages
        error := none
        status := phaseStatus phase } }

/-- `calls::begin`; `id` is the fresh UUID of the call. -/
def beginCall (P : AiPlatform) (claim : ClaimedChat) (phase : GenerationPhase) (reservation : SpendReservation)
    (model : CallModel) (id : Nat) (now : DateTime) : AiTx Nat := do
  let owner := claim.record.owner
  let chat := claim.record.view.id
  let state ← lockedProgress owner chat
  let row ← Tx.orThrow ((← Tx.get).chats.lookup chat) .storage
  Tx.require (row.fenced claim.lease now) .cancelled
  let attempt ← Tx.orThrow state.record.operations.getLast? .storage
  let claimed ← Tx.orThrow claim.record.operations.getLast? .storage
  Tx.require (attempt.id = claimed.id ∧ attempt.task.phase = phase ∧
    state.record.view.hasCall attempt.assistantId phase = false) .conflict
  reserve P owner id reservation row.automatic now
  let db ← Tx.get
  Tx.require (row.automatic = true → db.policy.automaticAllowed P row.owner row.workspace row.article)
    .automaticExcluded
  Tx.require (db.callModels.lookup id = none) .storage
  Tx.modify fun db => { db with callModels := db.callModels.insert id (owner, model) }
  let record ← liftExcept (state.record.begin attempt.assistantId phase model id)
  writeProgress { state with record }
  pure id

/-- `call.usage` is a usage that the tariff of the call explains. -/
def checkUsage (owner : AccountId) (id : Nat) (usage : Usage) : AiTx Unit := do
  let stored ← Tx.orThrow ((← Tx.get).callModels.lookup id) .storage
  Tx.require (stored.1 = owner) .storage
  let cost ← liftExcept (stored.2.rates.cost usage)
  Tx.require (usage.promptCacheHitTokens + usage.promptCacheMissTokens = usage.promptTokens ∧
    usage.estimatedCostUsd = some cost) .protocol

/-- `INSERT INTO ai_call_responses … ON CONFLICT`: the same response again is accepted. -/
def retainResponse (owner : AccountId) (id : Nat) (content system : String) : AiTx Unit := do
  let db ← Tx.get
  Tx.require ((db.spending.lookup id).isSome) .storage
  let row : CallResponse := { owner, content, systemPrompt := system }
  Tx.require ((db.callResponses.lookup id).all (· = row)) .conflict
  Tx.modify fun db => { db with callResponses := db.callResponses.insert id row }

/-- The draft of a completed generation, attached to the operation of its attempt and published. -/
def LockedProgress.attachDraft (P : AiPlatform) (state : LockedProgress) (claim : ClaimedChat) (assistant : Nat)
    (call : ProviderCall) (status : CallStatus) (draft : String) : Except AiError LockedProgress :=
  if status ≠ .completed ∨ call.phase ≠ .generating then .error .conflict
  else match claim.record.snapshot, call.usage with
    | some source, some _ =>
      match P.segments source.text claim.record.limits.maxResponseBytes draft with
      | .error e => .error e
      | .ok content =>
        match state.record.operations.find? (·.assistantId == assistant) with
        | some op =>
          match op.task with
          | .reply => .error .conflict
          | .summary saved =>
            if saved.any (· ≠ draft) then .error .conflict
            else match modifyFirst (·.assistantId == assistant)
                (fun op => { op with task := .summary (some draft) }) state.record.operations,
                modifyFirst (·.id == assistant) (fun m => { m with content := content }) state.published.messages with
              | some operations, some messages =>
                .ok { record := { state.record with operations := operations }
                      published := { state.published with messages := messages } }
              | _, _ => .error .storage
        | none => .error .storage
    | _, _ => .error .storage

/-- The call after the update, with the state that carries a draft. -/
def LockedProgress.updateCall (P : AiPlatform) (state : LockedProgress) (claim : ClaimedChat) (assistant : Nat)
    (call : ProviderCall) : CallUpdate → Except AiError (LockedProgress × ProviderCall)
  | .response _ _ => .ok (state, call)
  | .usage usage =>
    if call.usage.any (· ≠ usage) then .error .conflict else .ok (state, { call with usage := some usage })
  | .finished status draft =>
    if status = .started then .error .conflict
    else if (call.status = .completed ∨ call.status = .failed) ∧ call.status ≠ status then .error .conflict
    else match draft with
      | none => .ok (state, { call with status := status })
      | some draft =>
        (state.attachDraft P claim assistant call status draft).map fun s => (s, { call with status := status })

/-- `c.id == id && c.assistant_id == assistant_id`. -/
def ProviderCall.isCall (id assistant : Nat) (c : ProviderCall) : Bool := c.id == id && c.assistantId == assistant

/-- The state with the updated call. -/
def LockedProgress.setCall (state : LockedProgress) (id assistant : Nat) (call : ProviderCall) :
    Except AiError LockedProgress :=
  match modifyFirst (ProviderCall.isCall id assistant) (fun _ => call) state.record.view.providerCalls with
  | some calls => .ok { state with record := { state.record with view := { state.record.view with providerCalls := calls } } }
  | none => .error .conflict

/-- A worker that still holds the chat of its draft goes on to the review. -/
def Progress.toVerifying (p : Progress) (assistant : Nat) : Except AiError Progress :=
  match modifyFirst (·.id == assistant) (fun m => { m with phase := some .verifying }) p.view.messages with
  | some messages => .ok { p with view := { p.view with status := .verifying, messages := messages } }
  | none => .error .storage

/-- The last attempt is the worker's own and has a draft. -/
def Progress.reviews (p : Progress) (assistant : Nat) : Bool :=
  p.operations.getLast?.any fun op => op.assistantId == assistant && op.task.phase == .verifying

/-- The record that an update writes: the report of a worker that still holds the chat leads to the review. -/
def Progress.goesOn (p : Progress) (assistant : Nat) (fenced : Bool) : Except AiError Progress :=
  if p.reviews assistant && fenced then p.toVerifying assistant else .ok p

/-- Usage is checked against the tariff of the call. -/
def checkUpdate (owner : AccountId) (id : Nat) : CallUpdate → AiTx Unit
  | .usage usage => checkUsage owner id usage
  | _ => pure ()

/-- A response is retained under the call. -/
def retainUpdate (claim : ClaimedChat) (id : Nat) : CallUpdate → AiTx Unit
  | .response content system => do
    Tx.require (content.utf8ByteSize ≤ claim.record.limits.maxResponseBytes ∧ system ≠ "") .conflict
    retainResponse claim.record.owner id content system
  | _ => pure ()

/-- `calls::update`. -/
def updateCall (P : AiPlatform) (claim : ClaimedChat) (id : Nat) (update : CallUpdate) (now : DateTime) : AiTx Unit := do
  let state ← lockedProgress claim.record.owner claim.record.view.id
  let claimed ← Tx.orThrow claim.record.operations.getLast? .storage
  checkUpdate claim.record.owner id update
  let call ← Tx.orThrow (state.record.view.providerCalls.find? (ProviderCall.isCall id claimed.assistantId)) .conflict
  retainUpdate claim id update
  let updated ← liftExcept (state.updateCall P claim claimed.assistantId call update)
  let state ← liftExcept (updated.1.setCall id claimed.assistantId updated.2)
  let row ← Tx.orThrow ((← Tx.get).chats.lookup claim.record.view.id) .storage
  let record ← liftExcept (state.record.goesOn claimed.assistantId (row.fenced claim.lease now))
  writeProgress { state with record }

/-- The draft of the attempt has a completed generation, possibly of an earlier attempt. -/
def Progress.generatedCall (p : Progress) (draft : String) : Option ProviderCall :=
  p.view.providerCalls.find? fun c => c.phase == .generating && c.status == .completed &&
    p.operations.any fun op => op.assistantId == c.assistantId && op.task == .summary (some draft)

/-- The record with the draft published unchecked. -/
def Progress.publishUnchecked (p : Progress) (assistant : Nat) (content : String) : Except AiError Progress :=
  match modifyFirst (·.id == assistant)
      (fun m => { m with content := content, phase := some .generating, status := .complete }) p.view.messages with
  | some messages => .ok { p with view := { p.view with messages := messages, status := .completed, error := none } }
  | none => .error .storage

def AiDb.releaseChat (db : AiDb) (id : Nat) (scheduledAt : DateTime) : AiDb :=
  { db with chats := db.chats.update id fun row => { row with lease := none, leaseUntil := none, scheduledAt } }

/-- `unchecked::finish`. -/
def finishUnchecked (P : AiPlatform) (claim : ClaimedChat) (now : DateTime) : AiTx Bool := do
  let owner := claim.record.owner
  let chat := claim.record.view.id
  let state ← lockedProgress owner chat
  let db ← Tx.get
  let row ← Tx.orThrow (db.chats.lookup chat) .storage
  Tx.require (row.fenced claim.lease now) .cancelled
  if ((db.modelPreferences.lookup owner).getD {}).verification.isSome then pure false
  else do
    let attempt ← Tx.orThrow state.record.operations.getLast? .storage
    let claimed ← Tx.orThrow claim.record.operations.getLast? .storage
    Tx.require (attempt.id = claimed.id) .conflict
    match attempt.task with
    | .summary (some draft) => do
      let generated ← Tx.orThrow (state.record.generatedCall draft) .conflict
      Tx.require (state.record.view.hasCall attempt.assistantId .verifying = false) .conflict
      let source ← Tx.orThrow claim.record.snapshot .storage
      Tx.require (generated.usage.isSome) .storage
      let content ← liftExcept (P.segments source.text claim.record.limits.maxResponseBytes draft)
      let record ← liftExcept (state.record.publishUnchecked attempt.assistantId content)
      writeProgress { state with record }
      Tx.modify (·.releaseChat chat now)
      pure true
    | _ => Tx.throw .conflict

end Inoreader
