import Inoreader.Ai.Budget
import Mathlib.Data.List.Sort

/-!
# Translation jobs and paid replies (`reader-storage-postgres/src/ai/translations.rs`, `ai.rs`)
-/

namespace Inoreader
open Lib

namespace TranslationRow
variable (id : Nat) (row : TranslationRow)

/-- `checked_record`; the source of a stored result is part of the result and not modelled. -/
def checked : Except AiError TranslationRecord :=
  match row.document with
  | .record r =>
    if r.id = id ∧ r.owner = row.owner ∧ r.workspaceId = row.workspace ∧ r.articleId = row.article then .ok r
    else .error .storage
  | _ => .error .storage

/-- `quarantine::translation`. -/
def quarantine : TranslationRow := { row with status := .quarantined, lease := none, leaseUntil := none }

def interruptedText : String :=
  "Translation was interrupted; retry explicitly. The request may have been charged."

def ended (status : AiJobStatus) (r : TranslationRecord) : TranslationRow :=
  { row with status, document := .record r, lease := none, leaseUntil := none }

/-- A generating row whose lease has expired. -/
def expire : TranslationRow :=
  match row.checked id with
  | .ok r => row.ended .failed { r with state := .failed interruptedText }
  | .error _ => row.quarantine

end TranslationRow

namespace AiDb

def setTranslation (db : AiDb) (id : Nat) (row : TranslationRow) : AiDb :=
  { db with translations := db.translations.insert id row }

def expiredTranslations (db : AiDb) (locked : List Nat) (batch : Nat) (now : DateTime) : List (Nat × TranslationRow) :=
  ((db.translations.rows.filter fun row =>
      row.2.status == .generating && row.2.leaseUntil.any (· < now) && !locked.contains row.1).insertionSort
    fun a b => precedes (a.2.leaseUntil.getD 0) a.1 (b.2.leaseUntil.getD 0) b.1 || a.1 == b.1).take batch

def recoverTranslations (batch : Nat) (locked : List Nat) (now : DateTime) (db : AiDb) : AiDb :=
  let expired := db.expiredTranslations locked batch now
  { db with translations := expired.foldl (fun t row => t.insert row.1 (row.2.expire row.1)) db.translations }

def nextTranslation (db : AiDb) (locked : List Nat) : Option (Nat × TranslationRow) :=
  ((db.translations.rows.filter fun row =>
      row.2.status == .queued && db.policy.ownsWorkspace row.2.owner row.2.workspace &&
        !locked.contains row.1).insertionSort
    fun a b => precedes a.2.createdAt a.1 b.2.createdAt b.1 || a.1 == b.1).head?

end AiDb

def newTranslationRow (record : TranslationRecord) (now : DateTime) : TranslationRow where
  owner := record.owner
  workspace := record.workspaceId
  article := record.articleId
  createdAt := now
  status := .queued
  document := .record record
  lease := none
  leaseUntil := none
  reply := none

/-- The stored record is a translation of the same paragraph, revision and request. -/
def TranslationRow.translates (row : TranslationRow) (record : TranslationRecord) : Bool :=
  match row.document with
  | .record r => r.sourceRevision == record.sourceRevision && r.source == record.source && r.input == record.input
  | _ => false

/-- The latest pending or completed translation of the same request. -/
def AiDb.cachedTranslation (db : AiDb) (record : TranslationRecord) : Option (Nat × TranslationRow) :=
  ((db.translations.rows.filter fun row =>
      row.2.owner == record.owner && row.2.workspace == record.workspaceId && row.2.article == record.articleId &&
        (row.2.status == .queued || row.2.status == .generating || row.2.status == .completed) &&
        row.2.translates record).insertionSort
    fun a b => b.2.createdAt ≤ a.2.createdAt).head?

/-- `insert_translation`. -/
def insertTranslation (record : TranslationRecord) (now : DateTime) : AiTx TranslationRecord := do
  ownedWorkspace record.owner record.workspaceId
  let db ← Tx.get
  match (db.translations.lookup record.id).filter (·.owner == record.owner) with
  | some row =>
    match row.checked record.id with
    | .error e => Tx.throw e
    | .ok r => do
      Tx.require (r.workspaceId = record.workspaceId ∧ r.articleId = record.articleId ∧ r.source = record.source ∧
        r.sourceRevision = record.sourceRevision ∧ r.input = record.input) .conflict
      pure r
  | none => do
    Tx.require (record.input.isSome) .configuration
    match db.cachedTranslation record with
    | some (id, row) =>
      match row.checked id with
      | .ok r => pure r
      | .error e => Tx.throw e
    | none => do
      Tx.require (db.translations.lookup record.id = none) .storage
      Tx.modify (·.setTranslation record.id (newTranslationRow record now))
      pure record

/-- `lease_translation`. -/
def leaseTranslation (batch : Nat) (locked : List Nat) (lease seconds : Nat) (now : DateTime) :
    AiTx (Option ClaimedTranslation) := do
  Tx.require (0 < seconds ∧ seconds ≤ bigintMax) .configuration
  Tx.modify (AiDb.recoverTranslations batch locked now)
  match (← Tx.get).nextTranslation locked with
  | none => pure none
  | some (id, row) =>
    match row.checked id with
    | .error _ => do
      Tx.modify (·.setTranslation id row.quarantine)
      pure none
    | .ok r => do
      let record := { r with state := .generating }
      Tx.modify (·.setTranslation id { row with
        status := .generating
        document := .record record
        lease := some lease
        leaseUntil := some (leaseEnd now seconds) })
      pure (some { record, lease })

def TranslationState.status : TranslationState → Option AiJobStatus
  | .completed _ => some .completed
  | .failed _ => some .failed
  | _ => none

/-- `complete_translation`. -/
def completeTranslation (claim : ClaimedTranslation) (state : TranslationState) (usage : Option Usage) (now : DateTime) :
    AiTx Unit := do
  let status ← Tx.orThrow state.status .protocol
  let db ← Tx.get
  let row ← Tx.orThrow (db.translations.lookup claim.record.id) .cancelled
  Tx.require (row.owner = claim.record.owner ∧ row.lease = some claim.lease ∧ row.leaseUntil.any (now < ·) ∧
    row.status = .generating ∧ db.policy.ownsWorkspace row.owner row.workspace) .cancelled
  Tx.modify (·.setTranslation claim.record.id (row.ended status { claim.record with state, usage }))

inductive ReplyKind
  | translation | definitions
deriving DecidableEq, Repr

/-- `retain_reply`: immutable and idempotent, without a lease. -/
def retainReply (kind : ReplyKind) (owner : AccountId) (job : Nat) (reply : ProviderReply) : AiTx Unit := do
  let db ← Tx.get
  match kind with
  | .translation =>
    let row ← Tx.orThrow (db.translations.lookup job) .storage
    Tx.require (row.owner = owner ∧ db.policy.ownsWorkspace owner row.workspace ∧ row.reply.all (· = reply)) .storage
    Tx.modify (·.setTranslation job { row with reply := some reply })
  | .definitions =>
    let row ← Tx.orThrow (db.definitions.lookup job) .storage
    Tx.require (row.owner = owner ∧ db.policy.ownsWorkspace owner row.workspace ∧ row.reply.all (· = reply)) .storage
    Tx.modify fun db => { db with definitions := db.definitions.insert job { row with reply := some reply } }

end Inoreader
