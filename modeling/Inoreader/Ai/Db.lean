import Inoreader.Ai.Jobs
import Inoreader.Store.Db

/-!
# The AI tables (`reader-storage-postgres/src/ai.rs`, `schema/*.sql`)

The library is read by the admission gate only. A stored JSON text is kept as what decoding makes of
it: a text that is no JSON, JSON that is not the record of its row, or the record.
-/

namespace Inoreader
open Lib

inductive Document (α : Type)
  | malformed
  /-- `promptVersion` is what the path `{job,promptVersion}` yields. -/
  | foreign (promptVersion : Option String)
  | record (value : α)
deriving DecidableEq, Repr

inductive AiJobStatus
  | queued | generating | completed | failed | cancelled | quarantined
deriving DecidableEq, Repr

/-- A row of `ai_spending`. -/
structure SpendRow where
  owner : AccountId
  mode : SpendMode
  reserved : Decimal
  actual : Option Decimal
  day : Day
deriving DecidableEq, Repr

/-- A row of `ai_definitions`; `reply` is the triple of the response columns. -/
structure DefinitionsRow where
  owner : AccountId
  workspace : WorkspaceId
  article : ArticleId
  createdAt : DateTime
  scheduledAt : DateTime
  status : AiJobStatus
  document : Document DefinitionsRecord
  input : DefinitionsInput
  automatic : Bool
  lease : Option Nat
  leaseUntil : Option DateTime
  reply : Option ProviderReply
deriving DecidableEq, Repr

structure DefinitionOperation where
  job : Nat
  workspace : WorkspaceId
  article : ArticleId
  regenerate : Bool
deriving DecidableEq, Repr

/-- A row of `ai_translations`. -/
structure TranslationRow where
  owner : AccountId
  workspace : WorkspaceId
  article : ArticleId
  createdAt : DateTime
  status : AiJobStatus
  document : Document TranslationRecord
  lease : Option Nat
  leaseUntil : Option DateTime
  reply : Option ProviderReply
deriving DecidableEq, Repr

inductive InterestStatus
  | working | scored | failed | budget
deriving DecidableEq, Repr

structure ScoreKey where
  owner : AccountId
  workspace : WorkspaceId
  article : ArticleId
  profileRevision : Nat
deriving DecidableEq, Repr

/-- A row of `interest_scores`. -/
structure ScoreRow where
  status : InterestStatus
  score : Option Nat
  prediction : Option InterestPrediction
  error : Option String
  dirty : Bool
  lease : Nat
  leaseUntil : DateTime
deriving DecidableEq, Repr

/-- The input of a ranking request: what `retain_interest_input` stores, or the profile that
`finish_interest` stores when nothing was retained. -/
inductive InterestInput
  | body (text : String)
  | profile (value : InterestProfile)
deriving DecidableEq, Repr

/-- A row of `interest_responses`. -/
structure InterestResponse where
  key : ScoreKey
  input : InterestInput
  reply : Option ProviderReply
  createdAt : DateTime
deriving DecidableEq, Repr

/-- A row of `ai_chats`; a status of `none` is `quarantined`, a text of `none` is no JSON. -/
structure ChatRow where
  owner : AccountId
  workspace : WorkspaceId
  article : ArticleId
  createdAt : DateTime
  scheduledAt : DateTime
  status : Option ChatStatus
  document : Option JsonObject
  inputs : Option JsonObject
  publicView : Option ArticleChat
  publicRevision : Nat
  lease : Option Nat
  leaseUntil : Option DateTime
  priorityAt : Option DateTime
  automatic : Bool
deriving DecidableEq, Repr

structure CallResponse where
  owner : AccountId
  content : String
  systemPrompt : String
deriving DecidableEq, Repr

/-- A row of `subscription_ai_bootstrap`. -/
structure BootstrapRow where
  owner : AccountId
  workspace : WorkspaceId
  initialArticles : Nat
  cutoff : Option Nat
  ready : Bool
deriving DecidableEq, Repr

structure SelectedRow where
  subscription : SubscriptionId
  source : SourceId
  record : SourceRecordId
deriving DecidableEq, Repr

/-- The one row of `ai_automatic_schedule`. -/
structure AutomaticSchedule where
  pausePeakHours : Bool
  calendarValidThrough : Day
  holidays : List Day
deriving DecidableEq, Repr

/-- What decides about automatic work: the library, the allowance of every subscription and the schedule. -/
structure AiPolicy where
  library : Db
  bootstrap : Table (SubscriptionId × SourceId) BootstrapRow
  selected : List SelectedRow
  schedule : AutomaticSchedule
deriving DecidableEq

structure AiDb where
  policy : AiPolicy
  spending : Table Nat SpendRow := ∅
  budgetOverrides : Table (AccountId × Day) Decimal := ∅
  definitions : Table Nat DefinitionsRow := ∅
  definitionOperations : Table (AccountId × Nat) DefinitionOperation := ∅
  translations : Table Nat TranslationRow := ∅
  interestProfiles : Table AccountId InterestProfile := ∅
  interestScores : Table ScoreKey ScoreRow := ∅
  interestResponses : Table Nat InterestResponse := ∅
  chats : Table Nat ChatRow := ∅
  operations : Table (AccountId × Nat) (Nat × OperationKind) := ∅
  callModels : Table Nat (AccountId × CallModel) := ∅
  callResponses : Table Nat CallResponse := ∅
  modelPreferences : Table AccountId ModelPreferences := ∅
deriving DecidableEq

abbrev AiTx : Type → Type := Tx AiDb AiError

/-- What the AI store takes from elsewhere: `reader_article_visible`, `DefinitionResult::check_source`,
`ProviderReply::interest_result`, the segments of a draft that `VerifiedSegments` renders against the article
text within a byte limit, and the content that `CompletedGeneration::reviewed` makes of a response, a draft,
the title and the text. -/
structure AiPlatform where
  articleVisible : Db → ArticleKey → Bool
  checkSource : String → ArticleSnapshot → Bool
  interestResult : ProviderReply → Except AiError InterestPrediction
  segments : (article : String) → (limit : Nat) → (draft : String) → Except AiError String
  reviewed : (response draft title article : String) → (limit : Nat) → Except AiError String

/-! ## Times -/

def hour : Int := 3600000000000

def dayLength : Int := 24 * hour

/-- `(t AT TIME ZONE 'Europe/Moscow')::date`; Moscow keeps three hours ahead of UTC. -/
def moscowDate (t : DateTime) : Day := (t + 3 * hour) / dayLength

/-- `(d::timestamp AT TIME ZONE 'Europe/Moscow')`. -/
def moscowMidnight (d : Day) : DateTime := d * dayLength - 3 * hour

def shanghaiDate (t : DateTime) : Day := (t + 8 * hour) / dayLength

def shanghaiTime (t : DateTime) : Int := (t + 8 * hour) % dayLength

/-- `((d + time) AT TIME ZONE 'Asia/Shanghai')`. -/
def shanghaiInstant (d : Day) (time : Int) : DateTime := d * dayLength + time - 8 * hour

/-- `extract(isodow …) IN (6,7)`; day 0 was a Thursday. -/
def isWeekend (d : Day) : Bool := 5 ≤ (d + 3) % 7

/-- `reader_ai_automatic_resume_at`: `none` means allowed now. -/
def AutomaticSchedule.resumeAt (policy : AutomaticSchedule) (instant : DateTime) : Option DateTime :=
  let day := shanghaiDate instant
  let time := shanghaiTime instant
  if !policy.pausePeakHours then none
  else if policy.calendarValidThrough < day then some (shanghaiInstant (day + 1) 0)
  else if isWeekend day || day ∈ policy.holidays then none
  else if 9 * hour ≤ time ∧ time < 12 * hour then some (shanghaiInstant day (12 * hour))
  else if 14 * hour ≤ time ∧ time < 18 * hour then some (shanghaiInstant day (18 * hour))
  else none

/-- `reader_ai_deferred_until`. -/
def AutomaticSchedule.deferredUntil (policy : AutomaticSchedule) (reason : AiDeferral) (instant : DateTime) :
    DateTime :=
  match reason with
  | .peakHours => (policy.resumeAt instant).getD instant
  | .dailyBudget => moscowMidnight (moscowDate instant + 1)

/-- The lease of `seconds` that starts now. -/
def leaseEnd (now : DateTime) (seconds : Nat) : DateTime := now + seconds * 1000000000

/-! ## Gates -/

/-- The `sequence` of `ai_record_discovery`, an identity column that starts at one. -/
def Db.discovered (db : Db) (record : SourceRecordId) (source : SourceId) : Option Nat :=
  (db.recordDiscovery.findIdx? fun d => d.record == record && d.source == source).map (· + 1)

/-- One joined row of `reader_ai_automatic_allowed`: an origin of the article whose subscription has a ready
allowance that covers its record. -/
def AiPolicy.admits (policy : AiPolicy) (account : AccountId) (ws : WorkspaceId) (o : OriginRow) : Bool :=
  match policy.library.subscriptions.lookup o.subscriptionId,
      policy.library.subscriptionSources.lookup o.subscriptionId with
  | some s, some source =>
    s.workspaceId == ws &&
      match policy.bootstrap.lookup (o.subscriptionId, source),
          policy.library.discovered o.sourceRecordId source with
      | some b, some sequence =>
        b.owner == account && b.workspace == ws && b.ready &&
          (b.cutoff.any (· < sequence) ||
            policy.selected.contains
              { subscription := o.subscriptionId, source, record := o.sourceRecordId })
      | _, _ => false
  | _, _ => false

/-- `reader_ai_automatic_allowed`. -/
def AiPolicy.automaticAllowed (P : AiPlatform) (policy : AiPolicy) (account : AccountId) (ws : WorkspaceId)
    (article : ArticleId) : Bool :=
  match policy.library.workspaces.lookup ws, policy.library.articles.lookup (ws, article) with
  | some w, some _ =>
    w.owner == account && P.articleVisible policy.library (ws, article) &&
      policy.library.libraryOrigins.any fun o =>
        o.workspaceId == ws && o.articleId == article && policy.admits account ws o
  | _, _ => false

/-- `owned_workspace`. -/
def AiPolicy.ownsWorkspace (policy : AiPolicy) (owner : AccountId) (ws : WorkspaceId) : Bool :=
  match policy.library.workspaces.lookup ws with
  | some w => w.owner == owner
  | none => false

def ownedWorkspace (owner : AccountId) (ws : WorkspaceId) : AiTx Unit := do
  Tx.require ((← Tx.get).policy.ownsWorkspace owner ws) .notFound

end Inoreader
