import Inoreader.Ai.Pricing
import Inoreader.Core.Article

/-!
# Chats (`reader-ai/src/model.rs`, `config.rs`, `models.rs`)

A chat is a list of messages and provider calls; every command that starts paid work is an operation
with its own assistant message. The pinned provider inputs are carried along and read by the provider
only, apart from the snapshot and the response limit.
-/

namespace Inoreader

structure Usage where
  promptTokens : Nat
  completionTokens : Nat
  promptCacheHitTokens : Nat
  promptCacheMissTokens : Nat
  estimatedCostUsd : Option String
deriving DecidableEq, Repr

structure CostRates where
  inputUsdPerMillionTokens : String
  cachedInputUsdPerMillionTokens : String
  outputUsdPerMillionTokens : String
deriving DecidableEq, Repr

def CostRates.cost (rates : CostRates) (usage : Usage) : Except AiError String :=
  if usage.promptCacheHitTokens + usage.promptCacheMissTokens ≠ usage.promptTokens then .error .protocol
  else DecimalRate.cost
    [(rates.inputUsdPerMillionTokens, usage.promptCacheMissTokens),
      (rates.cachedInputUsdPerMillionTokens, usage.promptCacheHitTokens),
      (rates.outputUsdPerMillionTokens, usage.completionTokens)]

inductive DeepSeekModel
  | flash | pro
deriving DecidableEq, Repr

def DeepSeekModel.id : DeepSeekModel → String
  | .flash => "deepseek-flash"
  | .pro => "deepseek-v4-pro"

structure ModelPreferences where
  summary : DeepSeekModel := .flash
  /-- `none` disables the second request. -/
  verification : Option DeepSeekModel := some .flash
deriving DecidableEq, Repr

/-- The selection of one request, stored with its budget hold. -/
structure CallModel where
  model : DeepSeekModel
  rates : CostRates
deriving DecidableEq, Repr

inductive ReasoningEffort
  | low | high | max
deriving DecidableEq, Repr

/-- The temperature is carried as the bits of its `f64`. -/
inductive GenerationMode
  | standard (temperature : UInt64)
  | thinking (effort : ReasoningEffort)
deriving DecidableEq, Repr

structure InputLimits where
  contextTokens : Nat
  framingTokensPerMessage : Nat
  framingTokensBase : Nat
  maxInputBytes : Nat
  maxResponseBytes : Nat
deriving DecidableEq, Repr

structure ReviewSnapshot where
  systemPrompt : String
  promptVersion : String
  model : String
  generationMode : GenerationMode
  maxOutputTokens : Nat
  costRates : CostRates
deriving DecidableEq, Repr

structure ArticleSnapshot where
  title : String
  sourceUrl : String
  safeHtml : String
  text : String
  sourceRevision : String
deriving DecidableEq, Repr

inductive MessageRole
  | user | assistant
deriving DecidableEq, Repr

inductive MessageStatus
  | pending | streaming | complete | interrupted | failed
deriving DecidableEq, Repr

inductive ChatStatus
  | waitingContent | queued | generating | verifying | completed | failed | interrupted | cancelled
deriving DecidableEq, Repr

def ChatStatus.pending : ChatStatus → Bool
  | .waitingContent | .queued | .generating | .verifying => true
  | _ => false

inductive GenerationPhase
  | generating | verifying
deriving DecidableEq, Repr

inductive MessagePurpose
  | summary | chat
deriving DecidableEq, Repr

inductive CallStatus
  | started | completed | failed | interrupted | cancelled
deriving DecidableEq, Repr

structure ChatMessage where
  id : Nat
  role : MessageRole
  content : String
  status : MessageStatus
  createdAt : DateTime
  phase : Option GenerationPhase
  purpose : Option MessagePurpose
deriving DecidableEq, Repr

/-- One potentially billable provider request; no usage means unknown. -/
structure ProviderCall where
  id : Nat
  assistantId : Nat
  phase : GenerationPhase
  status : CallStatus
  usage : Option Usage
deriving DecidableEq, Repr

structure ArticleChat where
  id : Nat
  articleId : ArticleId
  workspaceId : WorkspaceId
  title : String
  sourceUrl : String
  createdAt : DateTime
  model : String
  promptVersion : String
  status : ChatStatus
  messages : List ChatMessage
  providerCalls : List ProviderCall
  error : Option String
deriving DecidableEq, Repr

inductive OperationKind
  | start (regenerate : Bool)
  | message (content : String)
  | retry
deriving DecidableEq, Repr

inductive AttemptTask
  | summary (draft : Option String)
  | reply
deriving DecidableEq, Repr

def AttemptTask.phase : AttemptTask → GenerationPhase
  | .summary (some _) => .verifying
  | _ => .generating

def AttemptTask.purpose : AttemptTask → MessagePurpose
  | .summary _ => .summary
  | .reply => .chat

structure Operation where
  id : Nat
  kind : OperationKind
  assistantId : Nat
  task : AttemptTask
deriving DecidableEq, Repr

structure ChatRecord where
  owner : AccountId
  view : ArticleChat
  snapshot : Option ArticleSnapshot
  systemPrompt : String
  generationMode : GenerationMode
  costRates : CostRates
  maxOutputTokens : Nat
  limits : InputLimits
  review : ReviewSnapshot
  operations : List Operation
deriving DecidableEq, Repr

/-- The values of the JSON object of a record, one kind for every type of field. -/
inductive JsonField
  | owner (value : AccountId)
  | view (value : ArticleChat)
  | snapshot (value : Option ArticleSnapshot)
  | text (value : String)
  | generationMode (value : GenerationMode)
  | costRates (value : CostRates)
  | number (value : Nat)
  | limits (value : InputLimits)
  | review (value : ReviewSnapshot)
  | operations (value : List Operation)
deriving DecidableEq, Repr

/-- A `serde_json::Map`, in the order of its keys. -/
abbrev JsonObject : Type := List (String × JsonField)

structure ClaimedChat where
  record : ChatRecord
  lease : Nat
deriving DecidableEq, Repr

inductive CallUpdate
  | usage (usage : Usage)
  | response (content system : String)
  | finished (status : CallStatus) (draft : Option String)
deriving DecidableEq, Repr

/-- When a deferred job may run again. -/
inductive AiDeferral
  | dailyBudget | peakHours
deriving DecidableEq, Repr

end Inoreader
