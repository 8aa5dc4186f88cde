import Inoreader.Ai.Chat

/-!
# Non-streaming jobs (`reader-ai/src/definitions`, `translation.rs`, `interests.rs`)

Definitions, translations and interest rankings are single requests: a job is queued, leased by one
worker, reserved under its lease and finished. The parsed results of the provider are opaque texts.
-/

namespace Inoreader

/-- The raw provider response, kept even when its content is refused. -/
structure ProviderReply where
  status : Nat
  body : List UInt8
  interrupted : Bool
deriving DecidableEq, Repr

structure DefinitionsInput where
  snapshot : ArticleSnapshot
  model : String
  system : String
  version : String
  limits : InputLimits
  maxOutputTokens : Nat
deriving DecidableEq, Repr

/-- `same_request`: the request body is made of the model, the prompt, the title, the text and the output
limit; where the text was fetched from and the admission limits are not part of it. -/
def DefinitionsInput.sameRequest (a b : DefinitionsInput) : Bool :=
  a.version == b.version && a.model == b.model && a.system == b.system &&
    a.snapshot.title == b.snapshot.title && a.snapshot.text == b.snapshot.text &&
    a.maxOutputTokens == b.maxOutputTokens

inductive DefinitionState
  | queued
  | generating
  | completed (result : String)
  | failed (error : String)
  | cancelled (reason : String)
deriving DecidableEq, Repr

structure DefinitionsJob where
  id : Nat
  workspaceId : WorkspaceId
  articleId : ArticleId
  model : String
  promptVersion : String
  state : DefinitionState
  usage : Option Usage
deriving DecidableEq, Repr

structure DefinitionsRecord where
  owner : AccountId
  input : DefinitionsInput
  costRates : CostRates
  job : DefinitionsJob
deriving DecidableEq, Repr

namespace DefinitionsRecord
variable (checkSource : String → ArticleSnapshot → Bool)

def new (id : Nat) (owner : AccountId) (workspace : WorkspaceId) (article : ArticleId) (input : DefinitionsInput)
    (costRates : CostRates) : DefinitionsRecord :=
  { owner, input, costRates
    job :=
      { id, workspaceId := workspace, articleId := article, model := input.model
        promptVersion := input.version, state := .queued, usage := none } }

def markRunning (r : DefinitionsRecord) : Except AiError DefinitionsRecord :=
  match r.job.state with
  | .queued => .ok { r with job := { r.job with state := .generating } }
  | _ => .error .conflict

/-- `cancel_duplicate`: only an unadmitted queued duplicate can be cancelled. -/
def cancelDuplicate (r : DefinitionsRecord) : Except AiError DefinitionsRecord :=
  match r.job.state, r.job.usage with
  | .queued, none => .ok { r with job := { r.job with state := .cancelled AiError.automaticDuplicate.text } }
  | _, _ => .error .conflict

def defer (r : DefinitionsRecord) : Except AiError DefinitionsRecord :=
  match r.job.state with
  | .generating => .ok { r with job := { r.job with state := .queued } }
  | _ => .error .conflict

def finish (r : DefinitionsRecord) (state : DefinitionState) (usage : Option Usage) :
    Except AiError DefinitionsRecord :=
  match r.job.state with
  | .generating =>
    let admissible : Bool := match state with
      | .completed result => checkSource result r.input.snapshot
      | .failed error => error ≠ ""
      | .cancelled reason => reason ≠ "" && usage.isNone
      | _ => false
    if admissible then .ok { r with job := { r.job with state, usage } } else .error .protocol
  | _ => .error .conflict

end DefinitionsRecord

structure ClaimedDefinitions where
  record : DefinitionsRecord
  lease : Nat
deriving DecidableEq, Repr

inductive TranslationState
  | queued
  | generating
  | completed (result : String)
  | failed (error : String)
deriving DecidableEq, Repr

/-- A `ParagraphJob` with the account, the input and the tariff of its record; the input is the request that
`TranslationInput::identity` encodes. -/
structure TranslationRecord where
  owner : AccountId
  input : Option String
  sourceRevision : String
  costRates : CostRates
  id : Nat
  workspaceId : WorkspaceId
  articleId : ArticleId
  source : String
  model : String
  state : TranslationState
  usage : Option Usage
deriving DecidableEq, Repr

structure ClaimedTranslation where
  record : TranslationRecord
  lease : Nat
deriving DecidableEq, Repr

structure InterestProfile where
  prompt : String
  revision : Nat
  trainingCount : Nat
deriving DecidableEq, Repr

inductive Confidence
  | low | medium | high
deriving DecidableEq, Repr

structure InterestPrediction where
  score : Nat
  reason : String
  confidence : Confidence
deriving DecidableEq, Repr

structure InterestClaim where
  owner : AccountId
  workspace : WorkspaceId
  article : ArticleId
  profile : InterestProfile
  lease : Nat
  title : String
  description : String
deriving DecidableEq, Repr

end Inoreader
