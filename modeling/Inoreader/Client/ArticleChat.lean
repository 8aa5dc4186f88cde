import Inoreader.Ai.Chat
import Inoreader.Client.ChatMarkdown
import Inoreader.Lib.Run
import Inoreader.Lib.Table

/-!
# The chat of the selected article (`web/src/ai/useArticleChat.ts`)

The hook within one account session. Every `await` splits its function: a label is a click, a timer or the answer
to a request, and the code up to the next `await` is one step. Renders follow their state at once. A UUID that
`crypto.randomUUID` returns is new, and so is the key of a request; `fresh` is the next of both.

`articleOf` says which article the conversation with an id is about. It belongs to the server, which answers a
request about an article with conversations about it, and a request about a conversation with that conversation.
-/

namespace Inoreader
open Lib

structure AiProfile where
  enabled : Bool
  availabilityReason : Option String
deriving DecidableEq, Repr

structure ChatTarget where
  articleId : ArticleId
  workspaceId : WorkspaceId
  title : String
deriving DecidableEq, Repr

abbrev ChatScope : Type := WorkspaceId × ArticleId

/-- `JSON.stringify` tells any two pairs apart. -/
def targetScope (target : ChatTarget) : ChatScope := (target.workspaceId, target.articleId)

def ArticleChat.scope (chat : ArticleChat) : ChatScope := (chat.workspaceId, chat.articleId)

def isChatActive (chat : Option ArticleChat) : Bool := chat.any fun chat => chat.status.pending

def hasCompletedSummary (chat : ArticleChat) : Bool :=
  chat.messages.any fun m => m.role = .assistant ∧ m.purpose = some .summary ∧ m.status = .complete

def lastAssistant (chat : ArticleChat) : Option ChatMessage := chat.messages.reverse.find? fun m => m.role = .assistant

def orderedVersions (values : List ArticleChat) : List ArticleChat :=
  values.insertionSort fun a b => millis b.createdAt ≤ millis a.createdAt

/-- What the closure of an action sends when it runs. Closures with the same operation are the same closure. -/
inductive ChatRequest
  | open (scope : ChatScope) (operation : Nat)
  | send (id operation : Nat) (content : String)
  | retry (id operation : Nat)
  | stop (id : Nat)
  | get (id : Nat)
deriving DecidableEq, Repr

def ChatRequest.operation : ChatRequest → Option Nat
  | .open _ operation | .send _ operation _ | .retry _ operation => some operation
  | .stop _ | .get _ => none

structure UnresolvedRequest where
  action : ChatRequest
  error : String
  uncertain : Bool
deriving DecidableEq, Repr

/-- A run of the polling effect. -/
structure ChatPoller where
  token : Nat
  id : Nat
  after : Option String := none
  /-- The next poll is scheduled. -/
  armed : Bool := true
deriving DecidableEq, Repr

/-- The states and references of the hook; the scope `""` is `none`. -/
structure ChatHook where
  profile : Option AiProfile := none
  target : Option ChatTarget := none
  chat : Option ArticleChat := none
  visible : Bool := false
  busy : String := ""
  error : String := ""
  retryable : Bool := false
  pollFailed : Bool := false
  drafts : Table Nat String := ∅
  completedGeneration : Nat := 0
  lock : Bool := false
  epoch : Nat := 0
  revision : Nat := 0
  pendingRequests : Table (Option ChatScope) UnresolvedRequest := ∅
  openingScope : Option ChatScope := none
  /-- How often the polling effect has run, and what its last run set up. -/
  effects : Nat := 0
  poller : Option ChatPoller := none

/-- A function that waits for the answer to a request. -/
inductive ChatFlow
  | versions (token : Nat) (target : ChatTarget) (requestGeneration : Bool) (pendingRequest : Bool)
      (profile : Option AiProfile)
  | command (token : Nat) (action : ChatRequest) (scope : Option ChatScope) (billable : Bool)
  | poll (token revision effect id : Nat)
deriving DecidableEq, Repr

/-- What passes between the hook and the server: a billable request, and an answer to one that was a success or a
definite rejection. -/
inductive ChatTraffic
  | sent (scope : ChatScope) (operation : Nat)
  | answered (operation : Nat)
deriving DecidableEq, Repr

structure ChatSession where
  hook : ChatHook := {}
  flows : Table Nat ChatFlow := ∅
  fresh : Nat := 0
  /-- The latest first. -/
  traffic : List ChatTraffic := []

inductive ChatClick
  | profile (profile : Option AiProfile)
  | open (target : ChatTarget) (requestGeneration : Bool)
  | send
  | retry
  | stop
  | reconnect
  /-- `close` and `hide`. -/
  | close
  | setDraft (value : String)
  /-- The timer of the polling effect, while the document is not hidden. -/
  | poll
  | saved (flow : Nat) (values : List ArticleChat)
  | accepted (flow : Nat) (chat : ArticleChat)
  | polled (flow : Nat) (next : Option ArticleChat) (revision : String)
  /-- A status is that of an `ApiError`; without one the answer was lost, or no response was made of it. -/
  | failed (flow : Nat) (status : Option Nat) (message : Option String)

/-- A 4xx status other than 408. -/
def definiteRejection (status : Option Nat) : Bool := status.any fun n => 400 ≤ n && n < 500 && n != 408

namespace ChatHook

def scope (h : ChatHook) : Option ChatScope := h.target.map targetScope

def draft (h : ChatHook) : String := (h.chat.bind fun chat => h.drafts.lookup chat.id).getD ""

def accept (h : ChatHook) (next : ArticleChat) : ChatHook :=
  { h with
    chat := some next
    completedGeneration :=
      if h.chat.any (·.id = next.id) ∧ isChatActive h.chat ∧ next.status = .completed then h.completedGeneration + 1
      else h.completedGeneration }

/-- `action.after`. -/
def after (h : ChatHook) : ChatRequest → ChatHook
  | .send id _ content => if h.drafts.lookup id = some content then { h with drafts := h.drafts.insert id "" } else h
  | _ => h

/-- The `finally` of `command` and of `open`. -/
def release (h : ChatHook) : ChatHook := { h with lock := false, busy := "" }

/-- The guard of `command`. -/
def refuses (h : ChatHook) (action : ChatRequest) (scope : Option ChatScope) (billable : Bool) : Bool :=
  h.lock || (billable && (h.pendingRequests.lookup scope).any fun prior => prior.uncertain && prior.action != action)

/-- `command` up to the request. -/
def began (h : ChatHook) (label : String) : ChatHook :=
  { h with lock := true, revision := h.revision + 1, busy := label, error := "", retryable := false, pollFailed := false }

/-- The rest of `command` after a success. -/
def succeeded (h : ChatHook) (next : ArticleChat) (action : ChatRequest) (scope : Option ChatScope) (billable : Bool) :
    ChatHook :=
  let h := (h.accept next).after action
  let h := if billable then { h with pendingRequests := h.pendingRequests.erase scope } else h
  match h.pendingRequests.lookup scope with
  | some remaining => release { h with error := remaining.error, retryable := true }
  | none => h.release

/-- The rest of `command` after a failure. -/
def rejected (h : ChatHook) (status : Option Nat) (message : Option String) (action : ChatRequest)
    (scope : Option ChatScope) (billable : Bool) : ChatHook :=
  let message := message.getD "The request could not be completed. No automatic retry was sent."
  let detail :=
    if billable ∧ ¬ definiteRejection status then
      message ++ " The request outcome is unknown. Use Retry to recover the same operation before sending anything new."
    else message
  let pendingRequests :=
    if billable then
      h.pendingRequests.insert scope { action, error := detail, uncertain := !definiteRejection status }
    else h.pendingRequests
  release { h with pendingRequests, error := detail, retryable := (pendingRequests.lookup scope).isSome }

/-- `open` up to its request. -/
def opened (h : ChatHook) (target : ChatTarget) : ChatHook :=
  let pendingRequest := h.pendingRequests.lookup (some (targetScope target))
  { h with
    openingScope := some (targetScope target)
    epoch := h.epoch + 1
    lock := true
    target := some target
    chat := none
    busy := "Opening chat"
    error := (pendingRequest.map (·.error)).getD ""
    retryable := pendingRequest.isSome
    pollFailed := false }

/-- The dependencies of the polling effect, the client apart. -/
def dependencies (h : ChatHook) : Bool × Option Nat × Option ChatStatus × Bool × String :=
  (h.visible, h.chat.map (·.id), h.chat.map (·.status), h.pollFailed, h.busy)

/-- What a run of the polling effect sets up. -/
def polling (h : ChatHook) : Option ChatPoller :=
  match h.chat with
  | some chat => if h.visible ∧ chat.status.pending ∧ ¬ h.pollFailed then some { token := h.epoch, id := chat.id } else none
  | none => none

/-- The render after a step, with the polling effect where its dependencies have changed. -/
def rendered (old h : ChatHook) : ChatHook :=
  { h with
    effects := if old.dependencies = h.dependencies then h.effects else h.effects + 1
    poller := if old.dependencies = h.dependencies then h.poller else h.polling }

end ChatHook

/-! ## The session -/

section
variable (articleOf : Nat → ChatScope)

namespace ChatRequest

/-- The article that a request is about. -/
def article : ChatRequest → ChatScope
  | .open scope _ => scope
  | .send id _ _ | .retry id _ | .stop id | .get id => articleOf id

/-- The server may answer with `chat`. -/
def answeredBy (chat : ArticleChat) : ChatRequest → Bool
  | .open scope _ => articleOf chat.id = chat.scope ∧ chat.scope = scope
  | .send id _ _ | .retry id _ | .stop id | .get id => articleOf chat.id = chat.scope ∧ chat.id = id

end ChatRequest

namespace ChatSession

/-- The request of an action, from `h`. -/
def request (s : ChatSession) (h : ChatHook) (action : ChatRequest) (scope : Option ChatScope) (billable : Bool) :
    ChatSession where
  hook := h
  flows := s.flows.insert s.fresh (.command h.epoch action scope billable)
  fresh := s.fresh + 1
  traffic := (action.operation.map (ChatTraffic.sent (action.article articleOf))).toList ++ s.traffic

/-- `command` up to the request, from the click that calls it. -/
def command (s : ChatSession) (label : String) (action : ChatRequest) (scope : Option ChatScope) (billable : Bool) :
    ChatSession :=
  if s.hook.refuses action scope billable then s else s.request articleOf (s.hook.began label) action scope billable

/-- `open` up to its request. -/
def openChat (s : ChatSession) (target : ChatTarget) (requestGeneration : Bool) : ChatSession :=
  let h := { s.hook with visible := true }
  if h.lock ∧ h.openingScope = some (targetScope target) then { s with hook := h }
  else
    let pendingRequest := (h.pendingRequests.lookup (some (targetScope target))).isSome
    { s with
      hook := h.opened target
      flows := s.flows.insert s.fresh (.versions (h.epoch + 1) target requestGeneration pendingRequest h.profile)
      fresh := s.fresh + 1 }

/-- `open` from its answer on, up to the request of its `command`. The `finally` of `open` runs right after that of
`command` and does nothing more. -/
def loaded (s : ChatSession) (target : ChatTarget) (requestGeneration pendingRequest : Bool) (profile : Option AiProfile)
    (values : List ArticleChat) : ChatSession :=
  let saved := (orderedVersions values).head?
  let h := (saved.map s.hook.accept).getD s.hook
  let scope := some (targetScope target)
  if saved.any fun chat => !requestGeneration || !(chat.status = .queued ∨ chat.status = .waitingContent) then
    { s with hook := h.release }
  else if pendingRequest then { s with hook := h.release }
  else if !requestGeneration then
    { s with hook := { h.release with error := "No saved conversation yet. Click Summarize to start one." } }
  else if !profile.any (·.enabled) then
    let reason := (profile.bind (·.availabilityReason)).getD ""
    let default := "Add and validate your DeepSeek API key in Profile to summarize this article."
    { s with hook := { h.release with error := if reason = "" then default else reason } }
  else
    let action := ChatRequest.open (targetScope target) s.fresh
    if { h with lock := false }.refuses action scope true then { s with hook := h.release }
    else s.request articleOf (h.began "Starting summary") action scope true

def send (s : ChatSession) : ChatSession :=
  match s.hook.chat with
  | some chat =>
    if hasCompletedSummary chat ∧ ¬ isBlankLine s.hook.draft.toList ∧ s.hook.profile.any (·.enabled) ∧
        ¬ isChatActive s.hook.chat ∧ ¬ s.hook.lock ∧ ¬ (s.hook.pendingRequests.lookup s.hook.scope).any (·.uncertain) then
      s.command articleOf "Sending message" (.send chat.id s.fresh s.hook.draft) s.hook.scope true
    else s
  | none => s

def retry (s : ChatSession) : ChatSession :=
  match s.hook.pendingRequests.lookup s.hook.scope with
  | some pendingRequest => s.command articleOf "Retrying request" pendingRequest.action s.hook.scope true
  | none =>
    match s.hook.chat with
    | some chat =>
      if s.hook.profile.any (·.enabled) ∧ ¬ isChatActive s.hook.chat then
        let label :=
          if (lastAssistant chat).any (·.phase = some .verifying) then "Retrying verification" else "Retrying response"
        s.command articleOf label (.retry chat.id s.fresh) s.hook.scope true
      else s
    | none => s

def stop (s : ChatSession) : ChatSession :=
  match s.hook.chat with
  | some chat => if isChatActive s.hook.chat then s.command articleOf "Stopping" (.stop chat.id) s.hook.scope false else s
  | none => s

def reconnect (s : ChatSession) : ChatSession :=
  match s.hook.chat, s.hook.target with
  | some chat, _ => s.command articleOf "Reconnecting" (.get chat.id) s.hook.scope false
  | none, some target => s.openChat target false
  | none, none => s

def setDraft (s : ChatSession) (value : String) : ChatSession :=
  match s.hook.chat with
  | some chat => { s with hook := { s.hook with drafts := s.hook.drafts.insert chat.id value } }
  | none => s

/-- The request ends, and its answer reaches the hook. -/
def ended (s : ChatSession) (flow : Nat) (operation : Option Nat) : ChatSession :=
  { s with
    flows := s.flows.erase flow
    traffic := (operation.map ChatTraffic.answered).toList ++ s.traffic }

/-- One step before the render. -/
def act (s : ChatSession) : ChatClick → Option ChatSession
  | .profile profile => some { s with hook := { s.hook with profile } }
  | .open target requestGeneration => some (s.openChat target requestGeneration)
  | .send => some (s.send articleOf)
  | .retry => some (s.retry articleOf)
  | .stop => some (s.stop articleOf)
  | .reconnect => some (s.reconnect articleOf)
  | .close => some { s with hook := { s.hook with visible := false } }
  | .setDraft value => some (s.setDraft value)
  | .poll =>
    match s.hook.poller with
    | some poller =>
      if poller.armed ∧ ¬ s.hook.lock then
        some { s with
          hook := { s.hook with poller := some { poller with armed := false } }
          flows := s.flows.insert s.fresh (.poll poller.token s.hook.revision s.hook.effects poller.id)
          fresh := s.fresh + 1 }
      else some s
    | none => none
  | .saved flow values =>
    match s.flows.lookup flow with
    | some (.versions token target requestGeneration pendingRequest profile) =>
      if values.all fun chat => articleOf chat.id = chat.scope ∧ chat.scope = targetScope target then
        if token = s.hook.epoch then
          some ((s.ended flow none).loaded articleOf target requestGeneration pendingRequest profile values)
        else some (s.ended flow none)
      else none
    | _ => none
  | .accepted flow chat =>
    match s.flows.lookup flow with
    | some (.command token action scope billable) =>
      if action.answeredBy articleOf chat then
        let t := s.ended flow action.operation
        if token = s.hook.epoch then some { t with hook := s.hook.succeeded chat action scope billable } else some t
      else none
    | _ => none
  | .polled flow next revision =>
    match s.flows.lookup flow with
    | some (.poll token requestRevision effect id) =>
      if next.all fun chat => articleOf chat.id = chat.scope ∧ chat.id = id then
        let t := s.ended flow none
        if effect = s.hook.effects ∧ token = s.hook.epoch ∧ requestRevision = s.hook.revision then
          let armed := next.all fun chat => chat.status.pending
          let poller := s.hook.poller.map fun p => { p with after := some revision, armed }
          some { t with hook := (next.map { s.hook with poller }.accept).getD { s.hook with poller } }
        else some t
      else none
    | _ => none
  | .failed flow status message =>
    match s.flows.lookup flow with
    | some (.versions token _ _ _ _) =>
      let t := s.ended flow none
      if token = s.hook.epoch then
        let error := message.getD "Could not load saved conversations. Try opening this chat again."
        some { t with hook := { s.hook.release with error } }
      else some t
    | some (.command token action scope billable) =>
      let t := s.ended flow (if definiteRejection status then action.operation else none)
      if token = s.hook.epoch then some { t with hook := s.hook.rejected status message action scope billable } else some t
    | some (.poll token _ effect _) =>
      let t := s.ended flow none
      if effect = s.hook.effects ∧ token = s.hook.epoch then
        let error := message.getD "Connection lost. Your conversation is saved."
        some { t with hook := { s.hook with error, pollFailed := true } }
      else some t
    | none => none

def step (s : ChatSession) (click : ChatClick) : Option ChatSession :=
  (s.act articleOf click).map fun t => { t with hook := s.hook.rendered t.hook }

end ChatSession

end

end Inoreader
