import Inoreader.Lib.Run
import Inoreader.Lib.Table
import Mathlib.Data.List.MinMax
import Mathlib.Data.Prod.Lex

/-!
# Health of the proxy endpoints (`reader-web-runtime/src/public_proxy/health.rs`, `public_proxy.rs`)

A request of a host claims the endpoints of its route one after the other until one answers. A failed endpoint is in
quarantine; after it a single request probes it. The reservation of a probe belongs to an `EndpointAttempt`, which the
request loop owns first and the body of the response after it, and it ends when the attempt is finished or dropped.
`claimed` and `recorded` are history variables.
-/

namespace Inoreader
open Lib

/-- `Instant`, in nanoseconds. -/
abbrev Instant : Type := Nat

structure EndpointHealth where
  failedAt : Option Instant := none
  lastAttempt : Option Instant := none
  probing : Bool := false
  healthy : Bool := false
deriving DecidableEq, Repr

structure RouteHealth where
  hosts : Table String (List EndpointHealth)
  quarantine : Nat
deriving DecidableEq

structure EndpointAttempt where
  host : String
  index : Nat
  probe : Bool
  finished : Bool := false
deriving DecidableEq, Repr

/-! ## Claims -/

namespace EndpointHealth

/-- Not reserved by a probe and not in quarantine; `duration_since` of a later instant is zero. -/
def eligible (s : EndpointHealth) (quarantine : Nat) (now : Instant) : Bool :=
  !s.probing && s.failedAt.all fun t => quarantine ≤ now - t

/-- The first claim of a request prefers a recovery probe, the later ones a healthy endpoint. -/
def priority (s : EndpointHealth) (first : Bool) : Nat :=
  match s.failedAt.isSome, s.healthy, first with
  | true, _, true => 0
  | false, true, _ => 1
  | false, false, _ => 2
  | true, _, false => 3

/-- The key of `min_by_key`. -/
def claimKey (first : Bool) (candidate : EndpointHealth × Nat) : Nat ×ₗ WithBot Nat ×ₗ Nat :=
  toLex (candidate.1.priority first, toLex (candidate.1.failedAt.bind fun _ => candidate.1.lastAttempt, candidate.2))

/-- The endpoints that a request may claim. -/
def candidates (states : List EndpointHealth) (attempted : List Bool) (quarantine : Nat) (now : Instant) :
    List (EndpointHealth × Nat) :=
  states.zipIdx.filter fun candidate => attempted[candidate.2]? == some false && candidate.1.eligible quarantine now

end EndpointHealth

namespace RouteHealth

/-- `RouteHealth::new`. -/
def new (hosts : List String) (endpoints quarantine : Nat) : RouteHealth where
  hosts := hosts.foldl (fun t host => t.insert host (List.replicate endpoints {})) ∅
  quarantine := quarantine

/-- The state of an endpoint for a host. -/
def state? (h : RouteHealth) (host : String) (index : Nat) : Option EndpointHealth := (h.hosts.lookup host).bind (·[index]?)

/-- An endpoint is changed in place. -/
def modify (h : RouteHealth) (host : String) (index : Nat) (f : EndpointHealth → EndpointHealth) : RouteHealth :=
  { h with hosts := h.hosts.update host fun states => List.modify states index f }

/-- `RouteHealth::claim`. -/
def claim (h : RouteHealth) (host : String) (attempted : List Bool) (now : Instant) :
    Except String (Option EndpointAttempt × RouteHealth) :=
  match h.hosts.lookup host with
  | none => .error "proxy_health_host"
  | some states =>
    if attempted.length ≠ states.length then .error "proxy_health_endpoints"
    else
      let first := !attempted.any fun value => value
      match (EndpointHealth.candidates states attempted h.quarantine now).argmin (EndpointHealth.claimKey first) with
      | none => .ok (none, h)
      | some (state, index) =>
        let probe := state.failedAt.isSome
        .ok (some { host, index, probe }, h.modify host index fun s =>
          { s with lastAttempt := some now, probing := if probe then true else s.probing })

end RouteHealth

namespace EndpointAttempt

/-- `EndpointAttempt::finish`; the index of an attempt is in range. -/
def finish (a : EndpointAttempt) (success : Bool) (now : Instant) (h : RouteHealth) :
    Except String (EndpointAttempt × RouteHealth) :=
  match h.state? a.host a.index with
  | none => .error "proxy_health_host"
  | some _ => .ok ({ a with finished := true }, h.modify a.host a.index fun s =>
      { s with
        probing := if a.probe then false else s.probing
        healthy := success
        failedAt := if success then none else some now })

/-- `drop` of an attempt. -/
def drop (a : EndpointAttempt) (h : RouteHealth) : RouteHealth :=
  if a.probe && !a.finished then h.modify a.host a.index fun s => { s with probing := false } else h

/-- `finish` in the owner of the attempt, which drops the attempt after it. -/
def settle (a : EndpointAttempt) (success : Bool) (now : Instant) (h : RouteHealth) : Except String Unit × RouteHealth :=
  match a.finish success now h with
  | .ok (a', h') => (.ok (), a'.drop h')
  | .error e => (.error e, a.drop h)

end EndpointAttempt

/-! ## Requests -/

/-- The body of a response that came through an endpoint. -/
structure HealthBody where
  attempt : Option EndpointAttempt
  originAuthoritative : Bool
  finished : Bool := false
deriving DecidableEq, Repr

/-- Where a request is: between two attempts, in one, with its response, or gone. -/
inductive ProxyPhase
  | looping
  | attempting (attempt : EndpointAttempt)
  | streaming (body : HealthBody)
  | ended
deriving DecidableEq, Repr

structure ProxyRequest where
  host : String
  attempted : List Bool
  phase : ProxyPhase := .looping
  /-- The endpoints that were claimed, the newest first. -/
  claimed : List Nat := []
deriving DecidableEq, Repr

/-- The attempt that the request or its response owns. -/
def ProxyRequest.attempt? (q : ProxyRequest) : Option EndpointAttempt :=
  match q.phase with
  | .attempting attempt => some attempt
  | .streaming body => body.attempt
  | _ => none

/-- An outcome that `finish` has recorded. -/
structure ProxyOutcome where
  host : String
  index : Nat
  success : Bool
  time : Instant
deriving DecidableEq, Repr

structure ProxyWorld where
  endpoints : Nat
  health : RouteHealth
  requests : Table Nat ProxyRequest := ∅
  /-- The newest first. -/
  recorded : List ProxyOutcome := []
deriving DecidableEq

/-- What happens to the request `r`: it reaches the loop (`start`), it claims, the endpoint answers (`respond`), fails
(`fail`) or the deadline of the request is over; the body gives a chunk or ends; the request or the body is dropped. -/
inductive ProxyLabel
  | start (r : Nat) (host : String)
  | claim (r : Nat) (now : Instant)
  | respond (r : Nat) (success : Bool)
  | fail (r : Nat) (now : Instant)
  | deadline (r : Nat)
  | chunk (r : Nat)
  | bodyEnd (r : Nat) (success : Bool) (now : Instant)
  | drop (r : Nat) (now : Instant)
deriving DecidableEq, Repr

namespace ProxyWorld

def setPhase (w : ProxyWorld) (r : Nat) (q : ProxyRequest) (phase : ProxyPhase) : ProxyWorld :=
  { w with requests := w.requests.insert r { q with phase := phase } }

/-- The owner of the attempt finishes it and goes on to `phase`, or to `failed` if that is an error. -/
def settle (w : ProxyWorld) (r : Nat) (q : ProxyRequest) (a : EndpointAttempt) (success : Bool) (now : Instant)
    (phase failed : ProxyPhase) : ProxyWorld :=
  match a.settle success now w.health with
  | (.ok _, health) => { w.setPhase r q phase with
      health := health
      recorded := ⟨a.host, a.index, success, now⟩ :: w.recorded }
  | (.error _, health) => { w.setPhase r q failed with health := health }

/-- `drop` of what the request owns. -/
def dropped (w : ProxyWorld) (r : Nat) (q : ProxyRequest) (now : Instant) : ProxyWorld :=
  match q.phase with
  | .attempting a => { w.setPhase r q .ended with health := a.drop w.health }
  | .streaming body =>
    match body.attempt with
    | none => w.setPhase r q .ended
    | some a =>
      if body.finished = false ∧ body.originAuthoritative = true then w.settle r q a true now .ended .ended
      else { w.setPhase r q .ended with health := a.drop w.health }
  | _ => w.setPhase r q .ended

def step (w : ProxyWorld) : ProxyLabel → Option ProxyWorld
  | .start r host =>
    if w.requests.lookup r = none then
      some { w with requests := w.requests.insert r { host, attempted := List.replicate w.endpoints false } }
    else none
  | .claim r now => do
    let q ← w.requests.lookup r
    if q.phase = .looping then
      match w.health.claim q.host q.attempted now with
      | .ok (some attempt, health) => some { w with
          health := health
          requests := w.requests.insert r { q with
            attempted := q.attempted.set attempt.index true
            phase := .attempting attempt
            claimed := attempt.index :: q.claimed } }
      | .ok (none, _) => some (w.setPhase r q .ended)
      | .error _ => some (w.setPhase r q .ended)
    else none
  | .respond r success => do
    let q ← w.requests.lookup r
    match q.phase with
    | .attempting attempt => some (w.setPhase r q (.streaming { attempt := some attempt, originAuthoritative := !success }))
    | _ => none
  | .fail r now => do
    let q ← w.requests.lookup r
    match q.phase with
    | .attempting attempt => some (w.settle r q attempt false now .looping .ended)
    | _ => none
  | .deadline r => do
    let q ← w.requests.lookup r
    match q.phase with
    | .attempting attempt => some { w.setPhase r q .ended with health := attempt.drop w.health }
    | _ => none
  | .chunk r => do
    let q ← w.requests.lookup r
    match q.phase with
    | .streaming _ => some w
    | _ => none
  | .bodyEnd r success now => do
    let q ← w.requests.lookup r
    match q.phase with
    | .streaming body =>
      if body.finished then some w
      else match body.attempt with
        | none => some (w.setPhase r q (.streaming { body with finished := true }))
        | some attempt =>
          let after := ProxyPhase.streaming { body with attempt := none, finished := true }
          some (w.settle r q attempt (success || body.originAuthoritative) now after after)
    | _ => none
  | .drop r now => do
    let q ← w.requests.lookup r
    if q.phase = .ended then none else some (w.dropped r q now)

end ProxyWorld
end Inoreader
