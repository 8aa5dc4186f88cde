import Inoreader.Ai.Budget
import Mathlib.Data.List.Sort

/-!
# Definition jobs (`reader-storage-postgres/src/ai/definitions.rs`, `quarantine.rs`, `interests.rs`)

A row that decodes to a record of another job is quarantined when it is claimed or recovered. Rows that
another transaction has locked are skipped; `locked` lists them.
-/

namespace Inoreader
open Lib

namespace DefinitionsRow
variable (P : AiPlatform) (id : Nat) (row : DefinitionsRow)

/-- `checked`: the record of the row, if it is the row's own. -/
def checked : Except AiError DefinitionsRecord :=
  match row.document with
  | .record r =>
    if r.job.id = id ∧ r.owner = row.owner ∧ r.job.workspaceId = row.workspace ∧ r.job.articleId = row.article then .ok r
    else .error .storage
  | _ => .error .storage

/-- `quarantine::definitions` changes only queue metadata. -/
def quarantine : DefinitionsRow := { row with status := .quarantined, lease := none, leaseUntil := none }

/-- The row without a lease in another status. -/
def ended (status : AiJobStatus) (r : DefinitionsRecord) : DefinitionsRow :=
  { row with status, document := .record r, lease := none, leaseUntil := none }

def interruptedText : String := "Запрос прерван; повторите явно. Провайдер мог списать оплату."

/-- A superseded queued duplicate. -/
def cancelDuplicate : DefinitionsRow :=
  match (row.checked id).bind DefinitionsRecord.cancelDuplicate with
  | .ok r => row.ended .cancelled r
  | .error _ => row.quarantine

/-- A generating row whose lease has expired. -/
def expire : DefinitionsRow :=
  match (row.checked id).bind fun r => r.finish P.checkSource (.failed interruptedText) none with
  | .ok r => row.ended .failed r
  | .error _ => row.quarantine

/-- The queue position. -/
def before (a b : Nat × DefinitionsRow) : Bool := precedes a.2.createdAt a.1 b.2.createdAt b.1 || a.1 == b.1

/-- The recovery position. -/
def expiresBefore (a b : Nat × DefinitionsRow) : Bool :=
  precedes (a.2.leaseUntil.getD 0) a.1 (b.2.leaseUntil.getD 0) b.1 || a.1 == b.1

end DefinitionsRow

namespace AiDb

/-- `w.id = d.workspace AND w.document->>'owner' = d.owner`. -/
def owned (db : AiDb) (d : DefinitionsRow) : Bool := db.policy.ownsWorkspace d.owner d.workspace

/-- The queued duplicates that a claim cancels. -/
def duplicates (db : AiDb) (locked : List Nat) (batch : Nat) : List (Nat × DefinitionsRow) :=
  ((db.definitions.rows.filter fun row =>
      row.2.status == .queued && row.2.automatic && db.owned row.2 && db.termsSuperseded row.1 &&
        !locked.contains row.1).insertionSort fun a b => DefinitionsRow.before a b).take batch

/-- The expired leases that a claim recovers. -/
def expiredDefinitions (db : AiDb) (locked : List Nat) (batch : Nat) (now : DateTime) : List (Nat × DefinitionsRow) :=
  ((db.definitions.rows.filter fun row =>
      row.2.status == .generating && row.2.leaseUntil.any (· < now) && !locked.contains row.1).insertionSort
    fun a b => DefinitionsRow.expiresBefore a b).take batch

/-- The row can be claimed. -/
def claimable (db : AiDb) (now : DateTime) (id : Nat) (d : DefinitionsRow) : Bool :=
  d.status == .queued && !db.termsSuperseded id && d.scheduledAt ≤ now &&
    (!d.automatic || (db.policy.schedule.resumeAt now).isNone) && db.owned d

/-- The job that a claim takes. -/
def nextDefinitions (db : AiDb) (locked : List Nat) (now : DateTime) : Option (Nat × DefinitionsRow) :=
  ((db.definitions.rows.filter fun row => db.claimable now row.1 row.2 && !locked.contains row.1).insertionSort
    fun a b => DefinitionsRow.before a b).head?

def setDefinitions (db : AiDb) (id : Nat) (row : DefinitionsRow) : AiDb :=
  { db with definitions := db.definitions.insert id row }

def setDefinitionOperation (db : AiDb) (record : DefinitionsRecord) (operation job : Nat) (regenerate : Bool) : AiDb :=
  let row := { job, workspace := record.job.workspaceId, article := record.job.articleId, regenerate }
  { db with definitionOperations := db.definitionOperations.insert (record.owner, operation) row }

/-- Every row of `rows` is replaced by `f` of it. -/
def mapDefinitions (db : AiDb) (f : Nat → DefinitionsRow → DefinitionsRow) (rows : List (Nat × DefinitionsRow)) : AiDb :=
  { db with definitions := rows.foldl (fun t row => t.insert row.1 (f row.1 row.2)) db.definitions }

end AiDb

/-- `ORDER BY created_at DESC LIMIT 1`. -/
def newest : List (Nat × DefinitionsRow) → Option (Nat × DefinitionsRow)
  | [] => none
  | row :: rows =>
    match newest rows with
    | some other => if row.2.createdAt < other.2.createdAt then some other else some row
    | none => some row

/-- The rows of the article of a record. -/
def AiDb.ofArticle (db : AiDb) (record : DefinitionsRecord) : List (Nat × DefinitionsRow) :=
  db.definitions.rows.filter fun row =>
    row.2.owner == record.owner && row.2.workspace == record.job.workspaceId && row.2.article == record.job.articleId

/-- The cache query of `insert_definitions`: automatic requests share the article and the prompt version,
manual ones the exact request. -/
def AiDb.cachedDefinitions (db : AiDb) (record : DefinitionsRecord) (regenerate automatic : Bool) :
    Option (Nat × DefinitionsRow) :=
  newest ((db.ofArticle record).filter fun row =>
    row.2.status != .cancelled && row.2.status != .quarantined &&
      if automatic then row.2.document.promptVersion == some record.job.promptVersion
      else row.2.input.sameRequest record.input &&
        (row.2.status == .queued || row.2.status == .generating || (row.2.status == .completed && !regenerate)))

def newDefinitionsRow (record : DefinitionsRecord) (automatic : Bool) (now : DateTime) : DefinitionsRow where
  owner := record.owner
  workspace := record.job.workspaceId
  article := record.job.articleId
  createdAt := now
  scheduledAt := now
  status := .queued
  document := .record record
  input := record.input
  automatic := automatic
  lease := none
  leaseUntil := none
  reply := none

/-- `UPDATE ai_definitions SET automatic=false,scheduled_at=now()`. -/
def promote (now : DateTime) (row : DefinitionsRow) : DefinitionsRow := { row with automatic := false, scheduledAt := now }

def insertDefinitions (record : DefinitionsRecord) (operation : Nat) (regenerate automatic : Bool) (now : DateTime) :
    AiTx DefinitionsJob := do
  Tx.require (¬ (automatic = true ∧ regenerate = true)) .conflict
  Tx.require (operation ≠ 0) .message
  ownedWorkspace record.owner record.job.workspaceId
  let db ← Tx.get
  match db.definitionOperations.lookup (record.owner, operation) with
  | some previous => do
    let row ← Tx.orThrow (db.definitions.lookup previous.job) .storage
    Tx.require (previous.regenerate = regenerate) .conflict
    let old ← match row.checked previous.job with
      | .ok old => (pure old : AiTx DefinitionsRecord)
      | .error e => Tx.throw e
    Tx.require (old.job.workspaceId = record.job.workspaceId ∧ old.job.articleId = record.job.articleId ∧
      if automatic then old.job.promptVersion = record.job.promptVersion else old.input.sameRequest record.input)
      .conflict
    pure old.job
  | none => do
    Tx.require (automatic = true → (db.ofArticle record).all (·.2.status != .quarantined)) .automaticExcluded
    -- the cast of a text that is no JSON fails the query
    Tx.require (automatic = true → (db.ofArticle record).all fun row =>
      row.2.status == .cancelled || row.2.status == .quarantined || row.2.document.isJson) .storage
    let job ← match db.cachedDefinitions record regenerate automatic with
      | some (id, row) => match row.checked id with
        | .ok old => (pure old.job : AiTx DefinitionsJob)
        | .error e => Tx.throw e
      | none => do
        Tx.require (db.definitions.lookup record.job.id = none) .storage
        Tx.modify (·.setDefinitions record.job.id (newDefinitionsRow record automatic now))
        pure record.job
    Tx.onlyIf (automatic = false) (Tx.modify fun db =>
      { db with definitions := db.definitions.update job.id (promote now) })
    Tx.modify (·.setDefinitionOperation record operation job.id regenerate)
    pure job

/-- The two recoveries in front of a claim. -/
def recoverDefinitions (P : AiPlatform) (batch : Nat) (locked : List Nat) (now : DateTime) (db : AiDb) : AiDb :=
  let db := db.mapDefinitions DefinitionsRow.cancelDuplicate (db.duplicates locked batch)
  db.mapDefinitions (DefinitionsRow.expire P) (db.expiredDefinitions locked batch now)

/-- `lease_definitions`; `lease` is the fresh UUID. -/
def leaseDefinitions (P : AiPlatform) (batch : Nat) (locked : List Nat) (lease seconds : Nat) (now : DateTime) :
    AiTx (Option ClaimedDefinitions) := do
  Tx.require (0 < seconds ∧ seconds ≤ bigintMax) .configuration
  Tx.modify (recoverDefinitions P batch locked now)
  match (← Tx.get).nextDefinitions locked now with
  | none => pure none
  | some (id, row) =>
    match (row.checked id).bind DefinitionsRecord.markRunning with
    | .error _ => do
      Tx.modify (·.setDefinitions id row.quarantine)
      pure none
    | .ok record => do
      Tx.modify (·.setDefinitions id { row with
        status := .generating
        document := .record record
        lease := some lease
        leaseUntil := some (leaseEnd now seconds) })
      pure (some { record, lease })

/-- The row that a worker may still write: `lease=$3 AND lease_until>now() AND status='generating'`. -/
def DefinitionsRow.heldBy (row : DefinitionsRow) (owner : AccountId) (lease : Nat) (now : DateTime) : Bool :=
  row.owner == owner && row.lease == some lease && row.leaseUntil.any (now < ·) && row.status == .generating

def DefinitionState.status : DefinitionState → Option AiJobStatus
  | .completed _ => some .completed
  | .failed _ => some .failed
  | .cancelled _ => some .cancelled
  | _ => none

def completeDefinitions (P : AiPlatform) (claim : ClaimedDefinitions) (state : DefinitionState) (usage : Option Usage)
    (now : DateTime) : AiTx Unit := do
  let status ← Tx.orThrow state.status .protocol
  match claim.record.finish P.checkSource state usage with
  | .error e => Tx.throw e
  | .ok record =>
    let db ← Tx.get
    let row ← Tx.orThrow (db.definitions.lookup record.job.id) .cancelled
    Tx.require (row.heldBy record.owner claim.lease now ∧ db.owned row) .cancelled
    Tx.modify (·.setDefinitions record.job.id (row.ended status record))

/-- `defer_terms`. -/
def deferTerms (claim : ClaimedDefinitions) (reason : AiDeferral) (now : DateTime) : AiTx Unit := do
  ownedWorkspace claim.record.owner claim.record.job.workspaceId
  match claim.record.defer with
  | .error e => Tx.throw e
  | .ok record =>
    let db ← Tx.get
    let row ← Tx.orThrow (db.definitions.lookup record.job.id) .cancelled
    Tx.require (row.heldBy record.owner claim.lease now) .cancelled
    Tx.modify (·.setDefinitions record.job.id { row.ended .queued record with
      scheduledAt := db.policy.schedule.deferredUntil reason now })

end Inoreader
