import Inoreader.Lib.JsValue
import Mathlib.Data.Nat.Digits.Defs

/-!
# Reading sessions (`web/src/app/reading/readingSession.ts`, `sessionClock.ts`)

The browser storage keeps what `JSON.stringify` writes as the value that `JSON.parse` returns for it. Times are Unix
milliseconds, and the readings of `Date.now()` in one operation are one time. A truncated difference of times is the
source's `Math.max(0, …)`.
-/

namespace Inoreader
open Lib

inductive ReadingMode
  | smart
  | random
deriving DecidableEq, Repr

structure ReadingPlan where
  smart : Nat
  random : Nat
deriving DecidableEq, Repr

namespace ReadingPlan

/-- `plan[mode]` -/
def get (plan : ReadingPlan) : ReadingMode → Nat
  | .smart => plan.smart
  | .random => plan.random

def limit (plan : ReadingPlan) (mode : ReadingMode) : Nat := plan.get mode * 60000

end ReadingPlan

/-- The function that `readingPlan` maps over its arguments. -/
def readMinutes (value : List Char) : Except String Nat :=
  if value = [] ∨ value.all Char.isDigit = false then .error "Введите целое число минут, не меньше нуля."
  else
    let minutes := Nat.ofDigitChars 10 value 0
    if maxSafeInteger < minutes * 60000 then .error "Длительность слишком велика." else .ok minutes

def readingPlan (smart random : List Char) : Except String ReadingPlan := do
  let smart ← readMinutes smart
  let random ← readMinutes random
  if smart = 0 ∧ random = 0 then throw "Выделите время хотя бы одному режиму."
  return { smart, random }

structure SessionProgress where
  mode : ReadingMode
  remainingMs : Nat
  paused : Bool
  finished : Bool
  deadline : Option Nat := none
  stopped : Option Bool := none
deriving DecidableEq, Repr

def initialSession (plan : ReadingPlan) : SessionProgress :=
  let mode := if 0 < plan.smart then .smart else .random
  { mode, remainingMs := plan.limit mode, paused := false, finished := false }

def ReadingMode.text : ReadingMode → List Char
  | .smart => "smart".toList
  | .random => "random".toList

def ReadingMode.ofText (text : List Char) : Option ReadingMode :=
  if text = "smart".toList then some .smart else if text = "random".toList then some .random else none

def SessionProgress.json (p : SessionProgress) : JsValue :=
  .obj [("mode", some (.string p.mode.text)), ("remainingMs", some (.ofNat p.remainingMs)),
    ("paused", some (.bool p.paused)), ("finished", some (.bool p.finished)), ("deadline", p.deadline.map .ofNat),
    ("stopped", p.stopped.map .bool)]

def ReadingPlan.json (plan : ReadingPlan) : JsValue :=
  .obj [("smart", some (.ofNat plan.smart)), ("random", some (.ofNat plan.random))]

/-- An absent member, or one that `decode` reads. -/
def readOptional {α : Type} (decode : JsValue → Option α) : Option JsValue → Option (Option α)
  | none => some none
  | some v => (decode v).map some

/-- A progress that belongs to the plan. -/
def acceptable (plan : ReadingPlan) (p : SessionProgress) : Bool :=
  decide (p.remainingMs ≤ plan.limit p.mode) && !(p.finished && p.remainingMs != 0) && plan.get p.mode != 0 &&
    !(p.finished && p.mode = .smart && decide (0 < plan.random) && p.stopped != some true) && p.deadline != some 0

def readProgress (saved : JsValue) (plan : ReadingPlan) : Option SessionProgress := do
  let savedPlan ← saved.get "plan"
  let smart ← (savedPlan.get "smart").bind JsValue.asNumber
  let random ← (savedPlan.get "random").bind JsValue.asNumber
  let value ← saved.get "progress"
  let mode ← ((value.get "mode").bind JsValue.asText).bind ReadingMode.ofText
  let remainingMs ← (value.get "remainingMs").bind JsValue.asSize
  let paused ← (value.get "paused").bind JsValue.asBool
  let finished ← (value.get "finished").bind JsValue.asBool
  let deadline ← readOptional JsValue.asSize (value.get "deadline")
  let stopped ← readOptional JsValue.asBool (value.get "stopped")
  let p : SessionProgress := { mode, remainingMs, paused, finished, deadline, stopped }
  if smart = plan.smart ∧ random = plan.random ∧ acceptable plan p = true then return p else none

def readSession (raw : Option JsValue) (plan : ReadingPlan) : Except String SessionProgress :=
  match raw with
  | none => .ok (initialSession plan)
  | some saved =>
    match readProgress saved plan with
    | some value => .ok value
    | none => .error "Сохранённая сессия повреждена; она не перезаписана."

/-- Expiry is applied only at the explicit next-article boundary. -/
def advanceSession (value : SessionProgress) (plan : ReadingPlan) : SessionProgress :=
  if value.finished ∨ 0 < value.remainingMs then value
  else if value.mode = .smart ∧ 0 < plan.random then
    { value with mode := .random, remainingMs := plan.limit .random, deadline := none }
  else { value with finished := true }

structure ActiveSession where
  workspace : List Char
  session : List Char
  seed : List Char
  plan : ReadingPlan
  progress : SessionProgress
  url : List Char
  scroll : ℚ
deriving DecidableEq, Repr

def sessionAt (value : SessionProgress) (now : Nat) : SessionProgress :=
  if value.paused ∨ value.finished then value
  else match value.deadline with
    | none => value
    | some deadline => { value with remainingMs := deadline - now }

def startClock (value : SessionProgress) (now : Nat) : Except String SessionProgress :=
  if value.paused ∨ value.finished ∨ value.remainingMs = 0 then .ok { value with deadline := none }
  else
    let deadline := now + value.remainingMs
    if maxSafeInteger < deadline then .error "Длительность слишком велика для таймера."
    else .ok { value with deadline := some deadline }

/-- A group of hexadecimal digits. -/
def hexGroup (length : Nat) (text : List Char) : Bool :=
  text.length == length && text.all fun c => c.isDigit || ('a' ≤ c && c ≤ 'f') || ('A' ≤ c && c ≤ 'F')

def isUuid (v : List Char) : Bool :=
  match v.splitOn '-' with
  | [a, b, c, d, e] => hexGroup 8 a && hexGroup 4 b && hexGroup 4 c && hexGroup 4 d && hexGroup 12 e
  | _ => false

structure BrowserUrl where
  origin : List Char
  pathname : List Char
  search : List Char
deriving DecidableEq, Repr

/-- The part of a browser that the sessions use: `location.origin`, `new URL(text, location.origin)` and
`searchParams.get`. The path of the reader and the search of a URL make up a text with the same search. -/
structure UrlApi where
  origin : List Char
  parse : List Char → Option BrowserUrl
  param : List Char → String → Option (List Char)
  reparse : ∀ text url, parse text = some url → url.origin = origin → url.pathname = "/reading".toList →
    parse (url.pathname ++ url.search) = some url

def sessionFromUrl (api : UrlApi) (workspaces : List (List Char)) (url : List Char) :
    Except String (Option ActiveSession) :=
  match api.parse url with
  | none => .error "Invalid URL"
  | some parsed =>
    let q := api.param parsed.search
    if parsed.origin ≠ api.origin ∨ parsed.pathname ≠ "/reading".toList ∨ q "from" ≠ some "session".toList then .ok none
    else
      let workspace := (q "workspace").getD []
      let session := (q "session").getD []
      let seed := (q "seed").getD []
      if workspace = [] ∨ workspace ∉ workspaces ∨ isUuid session = false ∨ isUuid seed = false then
        .error "Некорректная сессия чтения."
      else do
        let plan ← readingPlan ((q "smart").getD []) ((q "random").getD [])
        return some { workspace, session, seed, plan, progress := initialSession plan,
                      url := parsed.pathname ++ parsed.search, scroll := 0 }

def ActiveSession.json (s : ActiveSession) : JsValue :=
  .obj [("workspace", some (.string s.workspace)), ("session", some (.string s.session)), ("seed", some (.string s.seed)),
    ("plan", some s.plan.json), ("progress", some s.progress.json), ("url", some (.string s.url)),
    ("scroll", some (.number (some s.scroll)))]

/-- The members that `restoreClock` compares with the session of the URL. -/
def describes (saved : JsValue) (descriptor : ActiveSession) : Bool :=
  (saved.get "workspace").bind JsValue.asText == some descriptor.workspace &&
    (saved.get "session").bind JsValue.asText == some descriptor.session &&
    (saved.get "seed").bind JsValue.asText == some descriptor.seed &&
    ((saved.get "plan").bind (JsValue.get "smart")).bind JsValue.asNumber == some (descriptor.plan.smart : ℚ) &&
    ((saved.get "plan").bind (JsValue.get "random")).bind JsValue.asNumber == some (descriptor.plan.random : ℚ)

def restoreClock (api : UrlApi) (workspaces : List (List Char)) (raw : Option JsValue) :
    Except String (Option ActiveSession) :=
  let damaged := .error "Сохранённый таймер повреждён; данные не перезаписаны."
  match raw with
  | none => .ok none
  | some saved =>
    match (saved.get "url").bind JsValue.asText, (saved.get "scroll").bind JsValue.asNumber with
    | some url, some scroll =>
      if scroll < 0 then damaged
      else match sessionFromUrl api workspaces url with
        | .error e => .error e
        | .ok none => damaged
        | .ok (some descriptor) =>
          if describes saved descriptor = false then damaged
          else do
            let progress ← readSession (some saved) descriptor.plan
            return some { descriptor with scroll, progress }
    | _, _ => damaged

/-! ## What is written is read back -/

section
variable {plan : ReadingPlan} {p : SessionProgress} {now : Nat}

@[simp] theorem ReadingMode.ofText_text (mode : ReadingMode) : ofText mode.text = some mode := by
  cases mode <;> rfl

/-- A progress that the storage may hold. -/
structure SessionProgress.Sound (p : SessionProgress) (plan : ReadingPlan) : Prop where
  positive : plan.get p.mode ≠ 0
  remaining : p.remainingMs ≤ plan.limit p.mode
  deadline : ∀ deadline, p.deadline = some deadline → 0 < deadline ∧ deadline ≤ maxSafeInteger
  finished : p.finished = true → p.remainingMs = 0 ∧ p.deadline = none ∧
    (p.mode = .smart → 0 < plan.random → p.stopped = some true)

/-- The phases of a plan have a number of milliseconds that is exact. -/
def ReadingPlan.Exact (plan : ReadingPlan) : Prop := ∀ mode, plan.limit mode ≤ maxSafeInteger

theorem acceptable_of_sound (h : p.Sound plan) : acceptable plan p = true := by
  have hremaining := h.remaining
  have hpositive := h.positive
  have hdeadline : p.deadline ≠ some 0 := fun hzero => Nat.lt_irrefl 0 (h.deadline 0 hzero).1
  have hrest : p.finished = true → p.remainingMs = 0 := fun hfinished => (h.finished hfinished).1
  have hstopped := fun hfinished => (h.finished hfinished).2.2
  cases hfinished : p.finished with
  | false => simp [acceptable, hfinished, hremaining, hpositive, hdeadline]
  | true =>
    by_cases hmode : p.mode = .smart ∧ 0 < plan.random
    · simp [acceptable, hfinished, hrest hfinished, hpositive, hdeadline, hstopped hfinished hmode.1 hmode.2]
    · have hother : p.mode = .smart → ¬ 0 < plan.random := fun hsmart hrandom => hmode ⟨hsmart, hrandom⟩
      by_cases hsmart : p.mode = .smart
      · simp [acceptable, hfinished, hrest hfinished, hpositive, hdeadline, hother hsmart]
      · simp [acceptable, hfinished, hrest hfinished, hpositive, hdeadline, hsmart]

theorem readOptional_map {α : Type} {encode : α → JsValue} {decode : JsValue → Option α} {v : Option α}
    (h : ∀ a, v = some a → decode (encode a) = some a) : readOptional decode (v.map encode) = some v := by
  cases v with
  | none => rfl
  | some a => simp [readOptional, h a rfl]

/-- The members of a stored progress. -/
theorem readProgress_of_members {saved : JsValue} (hplan : saved.get "plan" = some plan.json)
    (hprogress : saved.get "progress" = some p.json) (hexact : plan.Exact) (hsound : p.Sound plan) :
    readProgress saved plan = some p := by
  have hnames : (["mode", "remainingMs", "paused", "finished", "deadline", "stopped"] : List String).Nodup := by decide
  have hmode : p.json.get "mode" = some (.string p.mode.text) := JsValue.get_obj hnames (by simp)
  have hremaining : p.json.get "remainingMs" = some (.ofNat p.remainingMs) := JsValue.get_obj hnames (by simp)
  have hpaused : p.json.get "paused" = some (.bool p.paused) := JsValue.get_obj hnames (by simp)
  have hfinished : p.json.get "finished" = some (.bool p.finished) := JsValue.get_obj hnames (by simp)
  have hdeadline : p.json.get "deadline" = p.deadline.map .ofNat := JsValue.get_obj hnames (by simp)
  have hstopped : p.json.get "stopped" = p.stopped.map .bool := JsValue.get_obj hnames (by simp)
  have hplanNames : (["smart", "random"] : List String).Nodup := by decide
  have hsmart : plan.json.get "smart" = some (.ofNat plan.smart) := JsValue.get_obj hplanNames (by simp)
  have hrandom : plan.json.get "random" = some (.ofNat plan.random) := JsValue.get_obj hplanNames (by simp)
  have hsize : (JsValue.ofNat p.remainingMs).asSize = some p.remainingMs :=
    JsValue.asSize_ofNat (hsound.remaining.trans (hexact _))
  have hreadDeadline : readOptional JsValue.asSize (p.deadline.map .ofNat) = some p.deadline :=
    readOptional_map fun d hd => JsValue.asSize_ofNat (hsound.deadline d hd).2
  have hreadStopped : readOptional JsValue.asBool (p.stopped.map .bool) = some p.stopped :=
    readOptional_map fun _ _ => rfl
  simp only [readProgress, hplan, hprogress, hmode, hremaining, hpaused, hfinished, hdeadline, hstopped, hsmart, hrandom,
    Option.bind_eq_bind, Option.bind_some, JsValue.asNumber_ofNat, JsValue.asText, JsValue.asBool, hsize, hreadDeadline,
    hreadStopped, ReadingMode.ofText_text, Option.pure_def, true_and]
  rw [if_pos (acceptable_of_sound hsound)]

end

section
variable {api : UrlApi} {workspaces : List (List Char)} {s : ActiveSession}

theorem readMinutes_ok {value : List Char} {minutes : Nat} (h : readMinutes value = .ok minutes) :
    minutes * 60000 ≤ maxSafeInteger := by
  simp only [readMinutes] at h
  split_ifs at h with hdigits hlarge
  cases h
  exact not_lt.1 hlarge

theorem readingPlan_ok {smart random : List Char} {plan : ReadingPlan} (h : readingPlan smart random = .ok plan) :
    plan.Exact ∧ ¬ (plan.smart = 0 ∧ plan.random = 0) := by
  unfold readingPlan at h
  cases hsmart : readMinutes smart with
  | error e => simp [hsmart, bind, Except.bind] at h
  | ok smart =>
    cases hrandom : readMinutes random with
    | error e => simp [hsmart, hrandom, bind, Except.bind] at h
    | ok random =>
      simp only [hsmart, hrandom, bind, Except.bind] at h
      split_ifs at h with hzero
      · cases h
        refine ⟨fun mode => ?_, hzero⟩
        cases mode with
        | smart => exact readMinutes_ok hsmart
        | random => exact readMinutes_ok hrandom

/-- A session whose URL says what it is. -/
structure ActiveSession.Described (api : UrlApi) (workspaces : List (List Char)) (s : ActiveSession) : Prop where
  url : sessionFromUrl api workspaces s.url =
    .ok (some { s with progress := initialSession s.plan, scroll := 0 })
  scroll : 0 ≤ s.scroll

/-- What `sessionFromUrl` returns is a new session of its URL. -/
theorem sessionFromUrl_ok {url : List Char} {d : ActiveSession} (h : sessionFromUrl api workspaces url = .ok (some d)) :
    d.progress = initialSession d.plan ∧ d.scroll = 0 ∧ d.Described api workspaces ∧ isUuid d.session = true ∧
      d.plan.Exact ∧ ¬ (d.plan.smart = 0 ∧ d.plan.random = 0) := by
  have hurl := h
  unfold sessionFromUrl at h
  cases hparse : api.parse url with
  | none => simp [hparse] at h
  | some parsed =>
    simp only [hparse] at h
    split_ifs at h with hother hbad
    · cases h
    · cases hplan : readingPlan ((api.param parsed.search "smart").getD []) ((api.param parsed.search "random").getD [])
        with
      | error e => simp [hplan, bind, Except.bind] at h
      | ok plan =>
        simp only [hplan, bind, Except.bind, pure, Except.pure, Except.ok.injEq, Option.some.injEq] at h
        subst h
        rw [not_or, not_or, not_not, not_not] at hother
        have hagain := api.reparse url parsed hparse hother.1 hother.2.1
        refine ⟨rfl, rfl, ⟨?_, le_refl _⟩, ?_, readingPlan_ok hplan⟩
        swap
        · simp only [not_or, Bool.not_eq_false] at hbad
          exact hbad.2.2.1
        rw [← hurl]
        simp only [sessionFromUrl, hparse, hagain]

theorem describes_json (s : ActiveSession) : describes s.json { s with progress := initialSession s.plan, scroll := 0 } := by
  have hnames : (["workspace", "session", "seed", "plan", "progress", "url", "scroll"] : List String).Nodup := by decide
  have hworkspace : s.json.get "workspace" = some (.string s.workspace) := JsValue.get_obj hnames (by simp)
  have hsession : s.json.get "session" = some (.string s.session) := JsValue.get_obj hnames (by simp)
  have hseed : s.json.get "seed" = some (.string s.seed) := JsValue.get_obj hnames (by simp)
  have hplan : s.json.get "plan" = some s.plan.json := JsValue.get_obj hnames (by simp)
  have hplanNames : (["smart", "random"] : List String).Nodup := by decide
  have hsmart : s.plan.json.get "smart" = some (.ofNat s.plan.smart) := JsValue.get_obj hplanNames (by simp)
  have hrandom : s.plan.json.get "random" = some (.ofNat s.plan.random) := JsValue.get_obj hplanNames (by simp)
  simp [describes, hworkspace, hsession, hseed, hplan, hsmart, hrandom, JsValue.asText]

/-- A stored session is accepted, by both readers, as it was stored. -/
theorem restoreClock_json (hdescribed : s.Described api workspaces) (hexact : s.plan.Exact)
    (hsound : s.progress.Sound s.plan) :
    restoreClock api workspaces (some s.json) = .ok (some s) ∧ readSession (some s.json) s.plan = .ok s.progress := by
  have hnames : (["workspace", "session", "seed", "plan", "progress", "url", "scroll"] : List String).Nodup := by decide
  have hplan : s.json.get "plan" = some s.plan.json := JsValue.get_obj hnames (by simp)
  have hprogress : s.json.get "progress" = some s.progress.json := JsValue.get_obj hnames (by simp)
  have hurl : s.json.get "url" = some (.string s.url) := JsValue.get_obj hnames (by simp)
  have hscroll : s.json.get "scroll" = some (.number (some s.scroll)) := JsValue.get_obj hnames (by simp)
  have hread : readSession (some s.json) s.plan = .ok s.progress := by
    simp only [readSession, readProgress_of_members hplan hprogress hexact hsound]
  refine ⟨?_, hread⟩
  simp only [restoreClock, hurl, hscroll, Option.bind_some, JsValue.asText, JsValue.asNumber,
    if_neg (not_lt.2 hdescribed.scroll), hdescribed.url, describes_json, hread]
  rfl

end

end Inoreader
