import Inoreader.Client.ReadingSession

/-!
# The reading clock of an account (`web/src/app/reading/useSessionClock.ts`)

The hook of one owner in one tab whose storage works. A label is an effect of the hook or one of its actions, at a time.
-/

namespace Inoreader
open Lib

abbrev SessionId : Type := List Char × List Char

def ActiveSession.id (s : ActiveSession) : SessionId := (s.workspace, s.session)

/-- The account and the browser around the hook. -/
structure ClockScope where
  api : UrlApi
  owner : List Char
  workspaces : List (List Char)

/-- `sessionStorage` and the references of the hook; the failure `""` is none. -/
structure SessionClock where
  storage : List Char → Option JsValue := fun _ => none
  current : Option ActiveSession := none
  failure : String := ""

inductive ClockEvent
  /-- The effect on the route: `location.pathname + location.search`. -/
  | activate (url : List Char)
  | toggle
  | advance
  | stop
  | reload
deriving DecidableEq, Repr

namespace SessionClock

def key (c : ClockScope) : List Char := "reading-active:".toList ++ c.owner

def savedKey (c : ClockScope) (id : SessionId) : List Char :=
  "reading-session:".toList ++ c.owner ++ ":".toList ++ id.1 ++ ":".toList ++ id.2

def setItem (storage : List Char → Option JsValue) (key : List Char) (value : Option JsValue) :
    List Char → Option JsValue :=
  fun other => if other = key then value else storage other

def persist (c : ClockScope) (h : SessionClock) : Option ActiveSession → SessionClock
  | some next =>
    { storage := setItem (setItem h.storage (savedKey c next.id) (some next.json)) (key c)
        (some (.string (savedKey c next.id))),
      current := some next, failure := "" }
  | none => { storage := setItem h.storage (key c) none, current := none, failure := "" }

/-- The effect of the first render after a reload. -/
def reload (c : ClockScope) (h : SessionClock) : SessionClock :=
  let damaged := "Сохранённый таймер повреждён; данные не перезаписаны."
  match h.storage (key c) with
  | none => { h with current := none, failure := "" }
  | some .null => { h with current := none, failure := "" }
  | some pointer =>
    match pointer.asText with
    | none => { h with current := none, failure := damaged }
    | some pointer =>
      if ("reading-session:".toList ++ c.owner ++ ":".toList).isPrefixOf pointer = false then
        { h with current := none, failure := damaged }
      else match restoreClock c.api c.workspaces (h.storage pointer) with
        | .error e => { h with current := none, failure := e }
        | .ok none => { h with current := none, failure := damaged }
        | .ok (some restored) =>
          if savedKey c restored.id ≠ pointer then { h with current := none, failure := damaged }
          else { h with current := some restored, failure := "" }

/-- The scroll position is kept within an article. -/
def follow (c : ClockScope) (existing : ActiveSession) (url : List Char) : ActiveSession :=
  let article := fun text => (c.api.parse text).map fun url => c.api.param url.search "article"
  { existing with url, scroll := if article existing.url = article url then existing.scroll else 0 }

def activate (c : ClockScope) (h : SessionClock) (url : List Char) (now : Nat) : SessionClock :=
  match sessionFromUrl c.api c.workspaces url with
  | .error e => { h with failure := e }
  | .ok none => h
  | .ok (some incoming) =>
    if h.failure ≠ "" then h
    else match h.current.filter fun existing => existing.id = incoming.id with
      | some existing => if existing.url ≠ incoming.url then persist c h (some (follow c existing incoming.url)) else h
      | none =>
        match readSession (h.storage (savedKey c incoming.id)) incoming.plan with
        | .error e => { h with failure := e }
        | .ok progress =>
          if progress.finished then h
          else match startClock (sessionAt progress now) now with
            | .error e => { h with failure := e }
            | .ok progress => persist c h (some { incoming with progress })

/-- What `change` throws leaves the hook as it was. -/
def mutate (c : ClockScope) (h : SessionClock) (now : Nat)
    (change : ActiveSession → Except String ActiveSession) : SessionClock :=
  match h.current with
  | none => h
  | some value =>
    if h.failure ≠ "" then h
    else match change { value with progress := sessionAt value.progress now } with
      | .error _ => h
      | .ok next => persist c h (some next)

def advance (c : ClockScope) (h : SessionClock) (now : Nat) : SessionClock :=
  mutate c h now fun v => do
    let progress ← startClock (advanceSession v.progress v.plan) now
    return { v with progress }

def toggle (c : ClockScope) (h : SessionClock) (now : Nat) : SessionClock :=
  mutate c h now fun v => do
    let progress ← startClock { v.progress with paused := !v.progress.paused, deadline := none } now
    return { v with progress }

def stop (c : ClockScope) (h : SessionClock) (now : Nat) : SessionClock :=
  match h.current with
  | none => h
  | some v =>
    if h.failure ≠ "" then h
    else
      let stopped := { v with progress := { sessionAt v.progress now with
        remainingMs := 0, finished := true, stopped := some true, deadline := none } }
      persist c (persist c h (some stopped)) none

def step (c : ClockScope) (h : SessionClock) (e : Nat × ClockEvent) : SessionClock :=
  match e.2 with
  | .activate url => activate c h url e.1
  | .toggle => toggle c h e.1
  | .advance => advance c h e.1
  | .stop => stop c h e.1
  | .reload => reload c h

/-- A tab from its first page on. -/
def after (c : ClockScope) (events : List (Nat × ClockEvent)) : SessionClock := events.foldl (step c) {}

end SessionClock

end Inoreader
