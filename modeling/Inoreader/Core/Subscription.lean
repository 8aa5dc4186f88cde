import Inoreader.Core.Article
import Inoreader.Lib.Text

/-!
# Subscriptions and workspaces (`reader-core/src/subscription.rs`, `workspace.rs`, `reason.rs`)

A state event keeps its reason, actor and time. A subscription keeps the URL of its source as it was spelled next
to the parsed one. The time of creation and the names of workspaces decide nothing here and are left out.
-/

namespace Inoreader

inductive ReasonError
  | blank
  | tooLong (actual maximum : Nat)
deriving DecidableEq, Repr

/-- The limit is positive. -/
structure ReasonPolicy where
  maxBytes : Nat
deriving DecidableEq, Repr

/-- `ReasonPolicy::validate`. -/
def ReasonPolicy.validate (policy : ReasonPolicy) (raw : String) : Except ReasonError String :=
  if Lib.isBlank raw then .error .blank
  else if policy.maxBytes < raw.utf8ByteSize then .error (.tooLong raw.utf8ByteSize policy.maxBytes)
  else .ok raw

inductive StateValidationError
  | invalidReason (error : ReasonError)
  | statusHistoryMismatch
  | sourceUrlMismatch
deriving DecidableEq, Repr

structure StateEvent where
  reason : String
  actor : Nat
  atTime : DateTime
deriving DecidableEq, Repr

inductive SubscriptionStatus
  | active
  | paused (event : StateEvent)
  | archived
deriving DecidableEq, Repr

def SubscriptionStatus.isActive : SubscriptionStatus → Bool
  | .active => true
  | _ => false

structure Subscription where
  id : SubscriptionId
  workspaceId : WorkspaceId
  sourceUrl : Url
  /-- `source_url_exact`: the spelling of the source URL, if it is kept. -/
  exactUrl : Option String := none
  sourceTitle : String := ""
  customName : Option String := none
  status : SubscriptionStatus
  revision : Nat
  history : List StateEvent
deriving DecidableEq, Repr

namespace Subscription

/-- `source_url_exact()`. -/
def sourceUrlExact (s : Subscription) : String := s.exactUrl.getD s.sourceUrl.text

def rename (s : Subscription) (title : String) : Subscription :=
  let customName := if title = "" then none else some title
  if s.customName ≠ customName then { s with customName, revision := s.revision + 1 } else s

/-- `parseUrl` is `Url::parse`. -/
def replaceSource (parseUrl : String → Option Url) (s : Subscription) (sourceUrl : Url) (exact sourceTitle : String) :
    Except StateValidationError Subscription :=
  if parseUrl exact ≠ some sourceUrl then .error .sourceUrlMismatch
  else if s.sourceUrl ≠ sourceUrl ∨ s.sourceUrlExact ≠ exact ∨ s.sourceTitle ≠ sourceTitle then
    .ok { s with sourceUrl, exactUrl := some exact, sourceTitle, revision := s.revision + 1 }
  else .ok s

def pause (s : Subscription) (event : StateEvent) : Subscription :=
  match s.status with
  | .paused _ => s
  | _ => { s with status := .paused event, history := s.history ++ [event], revision := s.revision + 1 }

def resume (s : Subscription) : Subscription :=
  match s.status with
  | .paused _ => { s with status := .active, revision := s.revision + 1 }
  | _ => s

def archive (s : Subscription) : Subscription :=
  match s.status with
  | .archived => s
  | _ => { s with status := .archived, revision := s.revision + 1 }

def restore (s : Subscription) : Subscription :=
  match s.status with
  | .archived => { s with status := .active, revision := s.revision + 1 }
  | _ => s

/-- The reasons of the history. -/
def validateHistory (policy : ReasonPolicy) : List StateEvent → Except StateValidationError Unit
  | [] => .ok ()
  | event :: rest =>
    match policy.validate event.reason with
    | .error e => .error (.invalidReason e)
    | .ok _ => validateHistory policy rest

def validate (parseUrl : String → Option Url) (policy : ReasonPolicy) (s : Subscription) :
    Except StateValidationError Unit :=
  if s.exactUrl.any fun exact => parseUrl exact ≠ some s.sourceUrl then .error .sourceUrlMismatch
  else
    match validateHistory policy s.history with
    | .error e => .error e
    | .ok _ =>
      match s.status with
      | .paused current =>
        match policy.validate current.reason with
        | .error e => .error (.invalidReason e)
        | .ok _ => if s.history.getLast? = some current then .ok () else .error .statusHistoryMismatch
      | _ => .ok ()

@[simp] theorem pause_id (s : Subscription) (e : StateEvent) : (s.pause e).id = s.id := by
  unfold pause; split <;> rfl
@[simp] theorem pause_workspaceId (s : Subscription) (e : StateEvent) :
    (s.pause e).workspaceId = s.workspaceId := by unfold pause; split <;> rfl
@[simp] theorem resume_id (s : Subscription) : s.resume.id = s.id := by unfold resume; split <;> rfl
@[simp] theorem resume_workspaceId (s : Subscription) : s.resume.workspaceId = s.workspaceId := by
  unfold resume; split <;> rfl
@[simp] theorem archive_id (s : Subscription) : s.archive.id = s.id := by unfold archive; split <;> rfl
@[simp] theorem archive_workspaceId (s : Subscription) : s.archive.workspaceId = s.workspaceId := by
  unfold archive; split <;> rfl
@[simp] theorem restore_id (s : Subscription) : s.restore.id = s.id := by unfold restore; split <;> rfl
@[simp] theorem restore_workspaceId (s : Subscription) : s.restore.workspaceId = s.workspaceId := by
  unfold restore; split <;> rfl

end Subscription

inductive WorkspaceStatus
  | active
  | archived (event : StateEvent)
deriving DecidableEq, Repr

structure Workspace where
  id : WorkspaceId
  owner : AccountId
  status : WorkspaceStatus
  revision : Nat
  history : List StateEvent
deriving DecidableEq, Repr

namespace Workspace

def acceptsDelivery (w : Workspace) : Bool :=
  match w.status with
  | .active => true
  | .archived _ => false

def archive (w : Workspace) (event : StateEvent) : Workspace :=
  if w.acceptsDelivery then
    { w with status := .archived event, history := w.history ++ [event], revision := w.revision + 1 }
  else w

def restore (w : Workspace) : Workspace :=
  if w.acceptsDelivery then w else { w with status := .active, revision := w.revision + 1 }

@[simp] theorem archive_id (w : Workspace) (e : StateEvent) : (w.archive e).id = w.id := by
  unfold archive; split <;> rfl
@[simp] theorem restore_id (w : Workspace) : w.restore.id = w.id := by unfold restore; split <;> rfl

end Workspace
end Inoreader
