import Inoreader.Client.SessionClock
import Mathlib.Logic.Function.Basic
import Mathlib.Data.List.Induction

/-!
# The phases of a reading session

`PhaseClock` counts what the clock should charge: the milliseconds of the current phase that were not paused. A stored
session shows what is left of its phase (`ShowsPhase`), and the storage and the hook hold the same sessions (`Agrees`).
-/

namespace Inoreader
open Lib

/-- The current phase of a session; `spent` of its milliseconds were over, unpaused, at the time `since`. -/
structure Phase where
  mode : ReadingMode
  spent : Nat := 0
  since : Nat
  paused : Bool := false
  finished : Bool := false
deriving DecidableEq, Repr

namespace Phase

/-- The milliseconds of the phase up to now that were not paused. -/
def spentAt (ph : Phase) (now : Nat) : Nat :=
  if ph.paused ∨ ph.finished then ph.spent else ph.spent + (now - ph.since)

def first (plan : ReadingPlan) (now : Nat) : Phase :=
  { mode := if 0 < plan.smart then .smart else .random, since := now }

def toggle (ph : Phase) (now : Nat) : Phase :=
  { ph with spent := ph.spentAt now, since := now, paused := !ph.paused }

def advance (plan : ReadingPlan) (ph : Phase) (now : Nat) : Phase :=
  if ph.finished ∨ ph.spentAt now < plan.limit ph.mode then ph
  else if ph.mode = .smart ∧ 0 < plan.random then { mode := .random, since := now, paused := ph.paused }
  else { ph with finished := true }

def stop (ph : Phase) : Phase := { ph with finished := true }

/-- What a label makes of the phase that the clock shows. -/
def act (plan : ReadingPlan) (ph : Phase) (e : Nat × ClockEvent) : Phase :=
  match e.2 with
  | .toggle => ph.toggle e.1
  | .advance => ph.advance plan e.1
  | .stop => ph.stop
  | .activate _ | .reload => ph

end Phase

/-- The phases of the sessions that were ever started, and the one that the clock shows. -/
structure PhaseClock where
  phase : SessionId → Option Phase := fun _ => none
  active : Option SessionId := none

/-- The plan and the seed of every session. -/
abbrev SessionPlans : Type := SessionId → ReadingPlan × List Char

namespace PhaseClock

def put (s : PhaseClock) (id : SessionId) (ph : Phase) : PhaseClock :=
  { phase := Function.update s.phase id (some ph), active := some id }

def current (s : PhaseClock) : Option (SessionId × Phase) := s.active.bind fun id => (s.phase id).map fun ph => (id, ph)

def activate (of : SessionPlans) (s : PhaseClock) (id : SessionId) (now : Nat) : PhaseClock :=
  match s.phase id with
  | none => s.put id (.first (of id).1 now)
  | some ph => if ph.finished then s else s.put id ph

def step (c : ClockScope) (of : SessionPlans) (s : PhaseClock) (e : Nat × ClockEvent) : PhaseClock :=
  match e.2 with
  | .activate url =>
    match sessionFromUrl c.api c.workspaces url with
    | .ok (some incoming) => s.activate of incoming.id e.1
    | _ => s
  | .toggle => s.current.elim s fun x => s.put x.1 (x.2.toggle e.1)
  | .advance => s.current.elim s fun x => s.put x.1 (x.2.advance (of x.1).1 e.1)
  | .stop => s.current.elim s fun x => { s.put x.1 x.2.stop with active := none }
  | .reload => s

def after (c : ClockScope) (of : SessionPlans) (events : List (Nat × ClockEvent)) : PhaseClock :=
  events.foldl (step c of) {}

end PhaseClock

/-! ## One phase -/

/-- A stored progress shows what is left of a phase, from the time `t` on. -/
structure ShowsPhase (plan : ReadingPlan) (p : SessionProgress) (ph : Phase) (t : Nat) : Prop where
  sound : p.Sound plan
  mode : p.mode = ph.mode
  paused : p.paused = ph.paused
  finished : p.finished = ph.finished
  since : ph.since ≤ t
  remaining : p.finished = false → ∀ now, t ≤ now → (sessionAt p now).remainingMs = plan.limit p.mode - ph.spentAt now

section
variable {plan : ReadingPlan} {p q : SessionProgress} {ph : Phase} {t now : Nat}

theorem Phase.spentAt_of_paused (h : ph.paused = true) : ph.spentAt now = ph.spent := by simp [spentAt, h]

theorem Phase.spentAt_of_running (hpaused : ph.paused = false) (hfinished : ph.finished = false) :
    ph.spentAt now = ph.spent + (now - ph.since) := by
  simp [spentAt, hpaused, hfinished]

@[simp] theorem sessionAt_mode : (sessionAt p now).mode = p.mode := by
  unfold sessionAt
  split
  · rfl
  · split <;> rfl

@[simp] theorem sessionAt_paused : (sessionAt p now).paused = p.paused := by
  unfold sessionAt
  split
  · rfl
  · split <;> rfl

@[simp] theorem sessionAt_finished : (sessionAt p now).finished = p.finished := by
  unfold sessionAt
  split
  · rfl
  · split <;> rfl

theorem sessionAt_of_finished (h : p.finished = true) : sessionAt p now = p := by simp [sessionAt, h]

theorem ShowsPhase.mono (h : ShowsPhase plan p ph t) (ht : t ≤ now) : ShowsPhase plan p ph now :=
  ⟨h.sound, h.mode, h.paused, h.finished, h.since.trans ht, fun hfinished now' hnow =>
    h.remaining hfinished now' (ht.trans hnow)⟩

/-- A clock that starts with what is left of a phase shows what is left of it from then on. -/
theorem startClock_keeps (hpositive : plan.get p.mode ≠ 0) (hmode : p.mode = ph.mode) (hpaused : p.paused = ph.paused)
    (hfinished : p.finished = false) (hphase : ph.finished = false) (hsince : ph.since ≤ now)
    (hremaining : p.remainingMs = plan.limit p.mode - ph.spentAt now) (hsafe : now + plan.limit p.mode ≤ maxSafeInteger) :
    ∃ q, startClock p now = .ok q ∧ ShowsPhase plan q ph now := by
  have hbound : p.remainingMs ≤ plan.limit p.mode := hremaining ▸ Nat.sub_le _ _
  unfold startClock
  by_cases hpause : p.paused = true
  · rw [if_pos (.inl hpause)]
    refine ⟨_, rfl, ⟨⟨hpositive, hbound, ?_, ?_⟩, hmode, hpaused, hfinished.trans hphase.symm, hsince, ?_⟩⟩
    · intro deadline hdeadline
      cases hdeadline
    · intro hdone
      exact absurd hdone (by simp [hfinished])
    · intro _ now' _
      have hshown : sessionAt { p with deadline := none } now' = { p with deadline := none } := by simp [sessionAt, hpause]
      rw [hshown, Phase.spentAt_of_paused (hpaused ▸ hpause)]
      rwa [Phase.spentAt_of_paused (hpaused ▸ hpause)] at hremaining
  · rw [Bool.not_eq_true] at hpause
    have hspent : ∀ now', ph.spentAt now' = ph.spent + (now' - ph.since) :=
      fun _ => Phase.spentAt_of_running (hpaused.symm.trans hpause) hphase
    rw [hspent] at hremaining
    by_cases hzero : p.remainingMs = 0
    · rw [if_pos (.inr (.inr hzero))]
      refine ⟨_, rfl, ⟨⟨hpositive, hbound, ?_, ?_⟩, hmode, hpaused, hfinished.trans hphase.symm, hsince, ?_⟩⟩
      · intro deadline hdeadline
        cases hdeadline
      · intro hdone
        exact absurd hdone (by simp [hfinished])
      · intro _ now' hnow
        have hshown : sessionAt { p with deadline := none } now' = { p with deadline := none } := by
          simp [sessionAt, hpause, hfinished]
        rw [hshown, hspent]
        show p.remainingMs = plan.limit p.mode - (ph.spent + (now' - ph.since))
        omega
    · rw [if_neg (by simp [hpause, hfinished, hzero]), if_neg (by omega)]
      refine ⟨_, rfl, ⟨⟨hpositive, hbound, ?_, ?_⟩, hmode, hpaused, hfinished.trans hphase.symm, hsince, ?_⟩⟩
      · intro deadline hdeadline
        cases hdeadline
        omega
      · intro hdone
        exact absurd hdone (by simp [hfinished])
      · intro _ now' hnow
        have hshown : (sessionAt { p with deadline := some (now + p.remainingMs) } now').remainingMs =
            now + p.remainingMs - now' := by simp [sessionAt, hpause, hfinished]
        rw [hshown, hspent]
        show now + p.remainingMs - now' = plan.limit p.mode - (ph.spent + (now' - ph.since))
        omega

theorem startClock_finished (h : p.finished = true) : startClock p now = .ok { p with deadline := none } := by
  simp [startClock, h]

theorem initialSession_keeps (hsome : ¬ (plan.smart = 0 ∧ plan.random = 0))
    (hsafe : ∀ mode, now + plan.limit mode ≤ maxSafeInteger) :
    ∃ q, startClock (sessionAt (initialSession plan) now) now = .ok q ∧ ShowsPhase plan q (.first plan now) now := by
  have hpositive : plan.get (initialSession plan).mode ≠ 0 := by
    unfold initialSession ReadingPlan.get
    dsimp only
    split_ifs with hsmart
    · exact hsmart.ne'
    · exact fun hrandom => hsome ⟨by omega, hrandom⟩
  have hshown : sessionAt (initialSession plan) now = initialSession plan := by simp [sessionAt, initialSession]
  rw [hshown]
  refine startClock_keeps hpositive rfl rfl rfl rfl (le_refl _) ?_ (hsafe _)
  simp [Phase.first, Phase.spentAt, initialSession]

/-- Looking at the clock changes nothing but what is left. -/
theorem sessionAt_keeps (h : ShowsPhase plan p ph now) (hfinished : p.finished = false)
    (hsafe : ∀ mode, now + plan.limit mode ≤ maxSafeInteger) :
    ∃ q, startClock (sessionAt p now) now = .ok q ∧ ShowsPhase plan q ph now := by
  have hpositive := h.sound.positive
  have hremaining := h.remaining hfinished now (le_refl _)
  rw [← @sessionAt_mode p now] at hpositive hremaining
  exact startClock_keeps hpositive (by rw [sessionAt_mode, h.mode]) (by rw [sessionAt_paused, h.paused])
    (by rw [sessionAt_finished, hfinished]) (h.finished ▸ hfinished) h.since hremaining (hsafe _)

theorem toggle_keeps (h : ShowsPhase plan p ph now) (hsafe : ∀ mode, now + plan.limit mode ≤ maxSafeInteger) :
    ∃ q, startClock { sessionAt p now with paused := !(sessionAt p now).paused, deadline := none } now = .ok q ∧
      ShowsPhase plan q (ph.toggle now) now := by
  by_cases hfinished : p.finished = true
  · rw [startClock_finished (by simpa using hfinished)]
    rw [sessionAt_of_finished hfinished]
    have hrest := h.sound.finished hfinished
    refine ⟨_, rfl, ⟨⟨h.sound.positive, h.sound.remaining, ?_, fun _ => ⟨hrest.1, rfl, hrest.2.2⟩⟩, h.mode, ?_,
      h.finished, le_refl _, ?_⟩⟩
    · intro deadline hdeadline
      cases hdeadline
    · exact congrArg (!·) h.paused
    · intro hrunning
      exact absurd hfinished (by simpa using hrunning)
  · rw [Bool.not_eq_true] at hfinished
    have hpositive := h.sound.positive
    have hremaining := h.remaining hfinished now (le_refl _)
    have hphase : ph.finished = false := h.finished ▸ hfinished
    rw [← @sessionAt_mode p now] at hpositive hremaining
    refine startClock_keeps hpositive ?_ ?_ ?_ hphase (le_refl _) ?_ (hsafe _)
    · exact sessionAt_mode.trans h.mode
    · exact congrArg (!·) (sessionAt_paused.trans h.paused)
    · exact sessionAt_finished.trans hfinished
    · have hspent : (ph.toggle now).spentAt now = ph.spentAt now := by
        simp [Phase.toggle, Phase.spentAt]
      rw [hspent]
      exact hremaining

theorem advance_keeps (h : ShowsPhase plan p ph now) (hsafe : ∀ mode, now + plan.limit mode ≤ maxSafeInteger) :
    ∃ q, startClock (advanceSession (sessionAt p now) plan) now = .ok q ∧ ShowsPhase plan q (ph.advance plan now) now := by
  by_cases hfinished : p.finished = true
  · have hphase : ph.finished = true := h.finished ▸ hfinished
    have hstays : ph.advance plan now = ph := by simp [Phase.advance, hphase]
    have hsame : advanceSession p plan = p := by simp [advanceSession, hfinished]
    rw [sessionAt_of_finished hfinished, hsame, startClock_finished hfinished, hstays]
    have hdeadline : { p with deadline := none } = p := by
      rw [← (h.sound.finished hfinished).2.1]
    exact ⟨_, rfl, hdeadline ▸ h⟩
  · rw [Bool.not_eq_true] at hfinished
    have hphase : ph.finished = false := h.finished ▸ hfinished
    have hremaining := h.remaining hfinished now (le_refl _)
    by_cases hleft : 0 < (sessionAt p now).remainingMs
    · have hstays : ph.advance plan now = ph := by
        rw [hremaining, h.mode] at hleft
        exact if_pos (.inr (by omega))
      have hsame : advanceSession (sessionAt p now) plan = sessionAt p now := if_pos (.inr hleft)
      rw [hstays, hsame]
      exact sessionAt_keeps h hfinished hsafe
    · have hover : ¬ (ph.finished = true ∨ ph.spentAt now < plan.limit ph.mode) := by
        rw [hremaining, h.mode] at hleft
        rw [hphase]
        simp only [Bool.false_eq_true, false_or]
        omega
      have hdone : ¬ ((sessionAt p now).finished = true ∨ 0 < (sessionAt p now).remainingMs) := by
        rw [sessionAt_finished, hfinished]
        simpa using hleft
      unfold Phase.advance advanceSession
      rw [if_neg hover, if_neg hdone, sessionAt_mode, h.mode]
      split_ifs with hnext
      · refine startClock_keeps ?_ rfl ?_ ?_ rfl (le_refl _) ?_ (hsafe _)
        · exact hnext.2.ne'
        · exact sessionAt_paused.trans h.paused
        · exact sessionAt_finished.trans hfinished
        · simp [Phase.spentAt]
      · rw [startClock_finished rfl]
        refine ⟨_, rfl, ⟨⟨?_, ?_, ?_, ?_⟩, ?_, ?_, rfl, h.since, ?_⟩⟩
        · exact h.mode ▸ h.sound.positive
        · show (sessionAt p now).remainingMs ≤ _
          omega
        · intro deadline hdeadline
          cases hdeadline
        · refine fun _ => ⟨by show (sessionAt p now).remainingMs = 0; omega, rfl, fun hsmart hrandom => ?_⟩
          exact absurd ⟨hsmart, hrandom⟩ hnext
        · rfl
        · exact sessionAt_paused.trans h.paused
        · intro hrunning
          cases hrunning

theorem stop_keeps (h : ShowsPhase plan p ph now) : ShowsPhase plan { sessionAt p now with
    remainingMs := 0, finished := true, stopped := some true, deadline := none } ph.stop now := by
  refine ⟨⟨?_, Nat.zero_le _, ?_, fun _ => ⟨rfl, rfl, fun _ _ => rfl⟩⟩, sessionAt_mode.trans h.mode,
    sessionAt_paused.trans h.paused, rfl, h.since, ?_⟩
  · show plan.get (sessionAt p now).mode ≠ 0
    rw [sessionAt_mode]
    exact h.sound.positive
  · intro deadline hdeadline
    cases hdeadline
  · intro hrunning
    cases hrunning

theorem Phase.act_mode {e : Nat × ClockEvent} (hsmart : ph.mode = .smart)
    (hrandom : (ph.act plan e).mode = .random) : e.2 = .advance ∧ ph.finished = false ∧ plan.limit ph.mode ≤ ph.spentAt e.1 := by
  obtain ⟨now, event⟩ := e
  cases event with
  | advance =>
    simp only [Phase.act, Phase.advance] at hrandom
    split_ifs at hrandom with hstays
    · rw [hsmart] at hrandom
      cases hrandom
    · simp only [not_or, not_lt, Bool.not_eq_true] at hstays
      exact ⟨rfl, hstays⟩
    · rw [hsmart] at hrandom
      cases hrandom
  | activate _ | toggle | stop | reload =>
    simp only [Phase.act, Phase.toggle, Phase.stop] at hrandom
    rw [hsmart] at hrandom
    cases hrandom

theorem Phase.act_finished {e : Nat × ClockEvent} (hrunning : ph.finished = false) :
    (ph.act plan e).finished = true ↔ e.2 = .stop ∨ e.2 = .advance ∧ plan.limit ph.mode ≤ ph.spentAt e.1 ∧
      ¬ (ph.mode = .smart ∧ 0 < plan.random) := by
  obtain ⟨now, event⟩ := e
  cases event with
  | advance =>
    simp only [Phase.act, Phase.advance, hrunning, Bool.false_eq_true, false_or, reduceCtorEq, true_and]
    by_cases hleft : ph.spentAt now < plan.limit ph.mode
    · simp [hleft, hrunning, not_le.2 hleft]
    · by_cases hnext : ph.mode = .smart ∧ 0 < plan.random
      · rw [if_neg hleft, if_pos hnext]
        simp [hnext]
      · simp [hleft, hnext, not_lt.1 hleft]
  | stop => simp [Phase.act, Phase.stop]
  | activate _ | toggle | reload => simp [Phase.act, Phase.toggle, hrunning]

theorem Phase.act_of_finished {e : Nat × ClockEvent} (hfinished : ph.finished = true) :
    (ph.act plan e).finished = true ∧ (ph.act plan e).mode = ph.mode := by
  obtain ⟨now, event⟩ := e
  cases event with
  | advance => simp [Phase.act, Phase.advance, hfinished]
  | activate _ | toggle | stop | reload => simp [Phase.act, Phase.toggle, Phase.stop, hfinished]

/-- Nothing remains of a phase that is over. -/
theorem ShowsPhase.over_iff (hkeeps : ShowsPhase plan p ph now) (hrunning : p.finished = false) :
    (sessionAt p now).remainingMs = 0 ↔ plan.limit ph.mode ≤ ph.spentAt now := by
  rw [hkeeps.remaining hrunning now (le_refl _), hkeeps.mode]
  omega

/-- Two sound progresses of a finished phase differ in their flags only. -/
theorem ShowsPhase.finished_eq {ph' : Phase} (hp : ShowsPhase plan p ph t) (hq : ShowsPhase plan q ph' now)
    (hmode : ph'.mode = ph.mode) (hfinished : p.finished = true) (hfinished' : q.finished = true) :
    q = { p with paused := q.paused, stopped := q.stopped } := by
  have hrest := hp.sound.finished hfinished
  have hrest' := hq.sound.finished hfinished'
  have hmodes : q.mode = p.mode := by rw [hq.mode, hp.mode, hmode]
  cases p
  cases q
  simp_all

end

/-! ## The storage -/

namespace SessionClock
variable {c : ClockScope} {id id' : SessionId}

theorem hexGroup_length {n : Nat} {text : List Char} (h : hexGroup n text = true) : text.length = n := by
  rw [hexGroup, Bool.and_eq_true, beq_iff_eq] at h
  exact h.1

theorem isUuid_length {v : List Char} (h : isUuid v = true) : v.length = 36 := by
  unfold isUuid at h
  split at h
  · rename_i x₁ x₂ x₃ x₄ x₅ hparts
    simp only [Bool.and_eq_true] at h
    obtain ⟨⟨⟨⟨h₁, h₂⟩, h₃⟩, h₄⟩, h₅⟩ := h
    have hjoin : ['-'].intercalate (v.splitOn '-') = v := List.intercalate_splitOn '-'
    rw [hparts] at hjoin
    rw [← hjoin]
    simp [List.intercalate, hexGroup_length h₁, hexGroup_length h₂, hexGroup_length h₃, hexGroup_length h₄,
      hexGroup_length h₅]
  · cases h

theorem savedKey_injective (h : isUuid id.2 = true) (h' : isUuid id'.2 = true) (hkey : savedKey c id = savedKey c id') :
    id = id' := by
  have hlength : id.2.length = id'.2.length := (isUuid_length h).trans (isUuid_length h').symm
  unfold savedKey at hkey
  generalize "reading-session:".toList ++ c.owner ++ ":".toList = start at hkey
  generalize ":".toList = colon at hkey
  obtain ⟨hrest, hsession⟩ := List.append_inj' hkey hlength
  exact Prod.ext (List.append_cancel_left (List.append_cancel_right hrest)) hsession

theorem key_ne_savedKey : key c ≠ savedKey c id := by
  intro h
  have hactive : "reading-active:".toList = "reading-".toList ++ 'a' :: "ctive:".toList := rfl
  have hsession : "reading-session:".toList = "reading-".toList ++ 's' :: "ession:".toList := rfl
  unfold key savedKey at h
  rw [hactive, hsession] at h
  simp only [List.append_assoc, List.append_cancel_left_eq, List.cons_append, List.cons.injEq] at h
  exact absurd h.1 (by decide)

/-- A stored session and its phase. -/
structure Holds (c : ClockScope) (of : SessionPlans) (t : Nat) (id : SessionId) (a : ActiveSession) (ph : Phase) :
    Prop where
  session : a.id = id
  uuid : isUuid id.2 = true
  plan : of id = (a.plan, a.seed)
  described : a.Described c.api c.workspaces
  exact : a.plan.Exact
  keeps : ShowsPhase a.plan a.progress ph t

/-- The storage and the hook hold the sessions `saved`, whose phases are those of `s`. -/
structure Agrees (c : ClockScope) (of : SessionPlans) (saved : SessionId → Option ActiveSession) (s : PhaseClock)
    (h : SessionClock) (t : Nat) : Prop where
  failure : h.failure = ""
  storage : ∀ id, isUuid id.2 = true → h.storage (savedKey c id) = (saved id).map ActiveSession.json
  pointer : h.storage (key c) = s.active.map fun id => .string (savedKey c id)
  current : h.current = s.active.bind saved
  active : ∀ id, s.active = some id → saved id ≠ none
  stored : ∀ id, Option.Rel (Holds c of t id) (saved id) (s.phase id)

section
variable {of : SessionPlans} {saved : SessionId → Option ActiveSession} {s : PhaseClock} {h : SessionClock}
  {a : ActiveSession} {ph : Phase} {t now : Nat}

theorem Holds.mono (hh : Holds c of t id a ph) (ht : t ≤ now) : Holds c of now id a ph :=
  ⟨hh.session, hh.uuid, hh.plan, hh.described, hh.exact, hh.keeps.mono ht⟩

theorem Holds.rel_mono {x : Option ActiveSession} {y : Option Phase} (h : Option.Rel (Holds c of t id) x y) (ht : t ≤ now) :
    Option.Rel (Holds c of now id) x y := by
  cases h with
  | some hh => exact .some (hh.mono ht)
  | none => exact .none

theorem Agrees.mono (hs : Agrees c of saved s h t) (ht : t ≤ now) : Agrees c of saved s h now :=
  ⟨hs.failure, hs.storage, hs.pointer, hs.current, hs.active, fun id =>
    Holds.rel_mono (hs.stored id) ht⟩

theorem Agrees.phase_of_saved (hs : Agrees c of saved s h t) (ha : saved id = some a) :
    ∃ ph, s.phase id = some ph ∧ Holds c of t id a ph := by
  have hrel := hs.stored id
  rw [ha] at hrel
  cases hphase : s.phase id with
  | none =>
    rw [hphase] at hrel
    cases hrel
  | some ph =>
    rw [hphase] at hrel
    cases hrel with
    | some hh => exact ⟨ph, rfl, hh⟩

theorem Agrees.phase_none (hs : Agrees c of saved s h t) (ha : saved id = none) : s.phase id = none := by
  have hrel := hs.stored id
  rw [ha] at hrel
  cases hphase : s.phase id with
  | none => rfl
  | some ph =>
    rw [hphase] at hrel
    cases hrel

/-- The session that the clock shows. -/
theorem Agrees.current_some (hs : Agrees c of saved s h t) (ha : h.current = some a) :
    s.active = some a.id ∧ saved a.id = some a := by
  rw [hs.current, Option.bind_eq_some_iff] at ha
  obtain ⟨id, hactive, hsaved⟩ := ha
  obtain ⟨ph, -, hh⟩ := hs.phase_of_saved hsaved
  rw [hh.session]
  exact ⟨hactive, hsaved⟩

theorem Agrees.current_none (hs : Agrees c of saved s h t) (ha : h.current = none) : s.active = none := by
  rw [hs.current] at ha
  cases hactive : s.active with
  | none => rfl
  | some id =>
    rw [hactive] at ha
    exact absurd ha (hs.active id hactive)

/-- A session is stored with a new phase and becomes the one that is shown. -/
theorem Agrees.persist (hs : Agrees c of saved s h t) (ht : t ≤ now) (hh : Holds c of now id a ph) :
    Agrees c of (Function.update saved id (some a)) (s.put id ph) (SessionClock.persist c h (some a)) now := by
  have hkey : savedKey c a.id = savedKey c id := by rw [hh.session]
  refine ⟨rfl, fun id' hid => ?_, ?_, ?_, fun id' hactive => ?_, fun id' => ?_⟩
  · simp only [SessionClock.persist, setItem]
    rw [if_neg (Ne.symm key_ne_savedKey), hkey]
    by_cases hsame : id' = id
    · rw [hsame, if_pos rfl, Function.update_self]
      rfl
    · rw [if_neg fun he => hsame (savedKey_injective hid hh.uuid he), Function.update_of_ne hsame, hs.storage id' hid]
  · simp only [SessionClock.persist, setItem, if_true, PhaseClock.put, Option.map_some, hkey]
  · simp only [SessionClock.persist, PhaseClock.put, Option.bind_some, Function.update_self]
  · cases hactive
    simp
  · by_cases hsame : id' = id
    · subst hsame
      show Option.Rel _ (Function.update saved id' (some a) id') (Function.update s.phase id' (some ph) id')
      rw [Function.update_self, Function.update_self]
      exact .some hh
    · show Option.Rel _ (Function.update saved id (some a) id') (Function.update s.phase id (some ph) id')
      rw [Function.update_of_ne hsame, Function.update_of_ne hsame]
      exact Holds.rel_mono (hs.stored id') ht

/-- The pointer is removed. -/
theorem Agrees.leave (hs : Agrees c of saved s h t) :
    Agrees c of saved { s with active := none } (SessionClock.persist c h none) t := by
  refine ⟨rfl, fun id hid => ?_, ?_, rfl, fun id hactive => ?_, hs.stored⟩
  · simp only [SessionClock.persist, setItem]
    rw [if_neg (Ne.symm key_ne_savedKey), hs.storage id hid]
  · simp [SessionClock.persist, setItem]
  · cases hactive

/-! ## The steps -/

/-- Every phase that begins now ends in the range of exact times. -/
def Timely (of : SessionPlans) (now : Nat) : Prop := ∀ id mode, now + (of id).1.limit mode ≤ maxSafeInteger

theorem Holds.limit_eq (hh : Holds c of t id a ph) : (of id).1 = a.plan := by rw [hh.plan]

theorem Holds.timely (hh : Holds c of t id a ph) (hsafe : Timely of now) (mode : ReadingMode) :
    now + a.plan.limit mode ≤ maxSafeInteger := hh.limit_eq ▸ hsafe id mode

/-- Only the progress of a session has changed. -/
theorem Holds.with_progress (hh : Holds c of t id a ph) {p : SessionProgress} {ph' : Phase}
    (hkeeps : ShowsPhase a.plan p ph' now) : Holds c of now id { a with progress := p } ph' :=
  ⟨hh.session, hh.uuid, hh.plan, ⟨hh.described.url, hh.described.scroll⟩, hh.exact, hkeeps⟩

/-- An action that turns every progress of a phase `ph` into one of `f id ph`. -/
theorem mutate_agrees {change : ActiveSession → Except String ActiveSession} {f : SessionId → Phase → Phase}
    (hs : Agrees c of saved s h now)
    (hchange : ∀ id a ph, Holds c of now id a ph → ∃ p, change { a with progress := sessionAt a.progress now } =
      .ok { a with progress := p } ∧ ShowsPhase a.plan p (f id ph) now) :
    ∃ saved', Agrees c of saved' (s.current.elim s fun x => s.put x.1 (f x.1 x.2)) (mutate c h now change) now := by
  cases hcurrent : h.current with
  | none =>
    have hnone : s.current = none := by rw [PhaseClock.current, hs.current_none hcurrent, Option.bind_none]
    simp only [mutate, hcurrent, hnone, Option.elim_none]
    exact ⟨saved, hs⟩
  | some a =>
    obtain ⟨hactive, hsaved⟩ := hs.current_some hcurrent
    obtain ⟨ph, hphase, hh⟩ := hs.phase_of_saved hsaved
    have hsome : s.current = some (a.id, ph) := by
      rw [PhaseClock.current, hactive, Option.bind_some, hphase, Option.map_some]
    obtain ⟨p, hok, hkeeps⟩ := hchange a.id a ph hh
    have hfailure : ¬ h.failure ≠ "" := not_not.2 hs.failure
    simp only [mutate, hcurrent, hsome, if_neg hfailure, hok, Option.elim_some]
    exact ⟨_, hs.persist (le_refl _) (hh.with_progress hkeeps)⟩

theorem toggle_agrees (hs : Agrees c of saved s h now) (hsafe : Timely of now) : ∃ saved',
    Agrees c of saved' (s.current.elim s fun x => s.put x.1 (x.2.toggle now)) (toggle c h now) now := by
  refine mutate_agrees (f := fun _ ph => ph.toggle now) hs fun id a ph hh => ?_
  obtain ⟨q, hq, hkeeps⟩ := toggle_keeps hh.keeps (hh.timely hsafe)
  refine ⟨q, ?_, hkeeps⟩
  rw [hq]
  rfl

theorem advance_agrees (hs : Agrees c of saved s h now) (hsafe : Timely of now) : ∃ saved',
    Agrees c of saved' (s.current.elim s fun x => s.put x.1 (x.2.advance (of x.1).1 now)) (advance c h now) now := by
  refine mutate_agrees (f := fun id ph => ph.advance (of id).1 now) hs fun id a ph hh => ?_
  rw [hh.limit_eq]
  obtain ⟨q, hq, hkeeps⟩ := advance_keeps hh.keeps (hh.timely hsafe)
  refine ⟨q, ?_, hkeeps⟩
  rw [hq]
  rfl

theorem stop_agrees (hs : Agrees c of saved s h now) : ∃ saved',
    Agrees c of saved' (s.current.elim s fun x => { s.put x.1 x.2.stop with active := none }) (stop c h now) now := by
  cases hcurrent : h.current with
  | none =>
    have hnone : s.current = none := by rw [PhaseClock.current, hs.current_none hcurrent, Option.bind_none]
    simp only [stop, hcurrent, hnone, Option.elim_none]
    exact ⟨saved, hs⟩
  | some a =>
    obtain ⟨hactive, hsaved⟩ := hs.current_some hcurrent
    obtain ⟨ph, hphase, hh⟩ := hs.phase_of_saved hsaved
    have hsome : s.current = some (a.id, ph) := by
      rw [PhaseClock.current, hactive, Option.bind_some, hphase, Option.map_some]
    have hfailure : ¬ h.failure ≠ "" := not_not.2 hs.failure
    simp only [stop, hcurrent, hsome, if_neg hfailure, Option.elim_some]
    exact ⟨_, (hs.persist (le_refl _) (hh.with_progress (stop_keeps hh.keeps))).leave⟩

/-- A reload restores what the hook had. -/
theorem reload_eq (hs : Agrees c of saved s h t) : reload c h = h := by
  have hcurrent := hs.current
  unfold reload
  cases hactive : s.active with
  | none =>
    have hpointer := hs.pointer
    rw [hactive, Option.bind_none] at hcurrent
    rw [hactive, Option.map_none] at hpointer
    simp only [hpointer]
    rw [← hcurrent, ← hs.failure]
  | some id =>
    obtain ⟨a, ha⟩ := Option.ne_none_iff_exists'.1 (hs.active id hactive)
    obtain ⟨ph, -, hh⟩ := hs.phase_of_saved ha
    have hpointer := hs.pointer
    rw [hactive, Option.map_some] at hpointer
    rw [hactive, Option.bind_some, ha] at hcurrent
    have hstorage : h.storage (savedKey c id) = some a.json := by rw [hs.storage id hh.uuid, ha, Option.map_some]
    have hrestored := (restoreClock_json hh.described hh.exact hh.keeps.sound).1
    have hprefix : ("reading-session:".toList ++ c.owner ++ ":".toList).isPrefixOf (savedKey c id) = true := by
      unfold savedKey
      rw [List.isPrefixOf_iff_prefix]
      simp only [List.append_assoc]
      exact ⟨_, by simp only [List.append_assoc]; rfl⟩
    simp only [hpointer, JsValue.asText, hprefix, Bool.true_eq_false, if_false, hstorage, hrestored, hh.session,
      ne_eq, not_true_eq_false]
    rw [← hcurrent, ← hs.failure]

theorem put_self {s : PhaseClock} (hactive : s.active = some id) (hphase : s.phase id = some ph) : s.put id ph = s := by
  unfold PhaseClock.put
  rw [← hactive, ← hphase, Function.update_eq_self]

/-- The URL of a session names its plan and its seed. -/
def SessionUrl (c : ClockScope) (of : SessionPlans) (url : List Char) : Prop :=
  ∃ d, sessionFromUrl c.api c.workspaces url = .ok (some d) ∧ of d.id = (d.plan, d.seed)

/-- Another URL of the session that is shown. -/
theorem follow_agrees (hs : Agrees c of saved s h now) {url : List Char} {d : ActiveSession}
    (hurl : sessionFromUrl c.api c.workspaces url = .ok (some d)) (hof : of d.id = (d.plan, d.seed))
    (hcurrent : h.current = some a) (hsame : a.id = d.id) :
    s.activate of d.id now = s ∧
      ∃ saved', Agrees c of saved' s (SessionClock.persist c h (some (follow c a d.url))) now := by
  obtain ⟨hactive, hsaved⟩ := hs.current_some hcurrent
  obtain ⟨ph, hphase, hh⟩ := hs.phase_of_saved hsaved
  obtain ⟨hinitial, hscroll, hdescribed, -, -, -⟩ := sessionFromUrl_ok hurl
  rw [hsame] at hactive hphase hh
  have hput : s.put d.id ph = s := put_self hactive hphase
  have hactivated : s.activate of d.id now = s := by
    unfold PhaseClock.activate
    simp only [hphase, hput, ite_self]
  refine ⟨hactivated, ?_⟩
  have hplan : a.plan = d.plan ∧ a.seed = d.seed := by
    have hboth := hh.plan.symm.trans hof
    exact ⟨congrArg (·.1) hboth, congrArg (·.2) hboth⟩
  have hid : a.workspace = d.workspace ∧ a.session = d.session :=
    ⟨congrArg (·.1) hsame, congrArg (·.2) hsame⟩
  have hfollowed : (follow c a d.url).Described c.api c.workspaces := by
    refine ⟨?_, ?_⟩
    · have hurl' := hdescribed.url
      unfold follow
      dsimp only
      rw [hurl', hplan.1, hplan.2, hid.1, hid.2]
    · unfold follow
      dsimp only
      split_ifs
      · exact hh.described.scroll
      · exact le_refl _
  have hholds : Holds c of now d.id (follow c a d.url) ph :=
    ⟨hh.session, hh.uuid, hh.plan, hfollowed, hh.exact, hh.keeps⟩
  have hpersisted := hs.persist (le_refl _) hholds
  rw [hput] at hpersisted
  exact ⟨_, hpersisted⟩

/-- A session that is not shown is started, or taken up where it is. -/
theorem enter_agrees (hs : Agrees c of saved s h now) (hsafe : Timely of now) {url : List Char} {d : ActiveSession}
    (hurl : sessionFromUrl c.api c.workspaces url = .ok (some d)) (hof : of d.id = (d.plan, d.seed))
    (hother : h.current.filter (fun existing => existing.id = d.id) = none) :
    ∃ saved', Agrees c of saved' (s.activate of d.id now) (activate c h url now) now := by
  obtain ⟨hinitial, hscroll, hdescribed, huuid, hexact, hsome⟩ := sessionFromUrl_ok hurl
  have hsafePlan : ∀ mode, now + d.plan.limit mode ≤ maxSafeInteger := fun mode => by
    have hlimit := hsafe d.id mode
    rwa [hof] at hlimit
  have hfailure : ¬ h.failure ≠ "" := not_not.2 hs.failure
  have hstorage := hs.storage d.id huuid
  cases hsaved : saved d.id with
  | none =>
    rw [hsaved, Option.map_none] at hstorage
    have hphase := hs.phase_none hsaved
    obtain ⟨q, hq, hkeeps⟩ := initialSession_keeps hsome hsafePlan
    have hread : readSession none d.plan = .ok (initialSession d.plan) := rfl
    have hstart : (initialSession d.plan).finished = false := rfl
    simp only [activate, hurl, if_neg hfailure, hother, hstorage, hread, hstart, Bool.false_eq_true, if_false, hq,
      PhaseClock.activate, hphase, hof]
    refine ⟨_, hs.persist (le_refl _) ⟨rfl, huuid, hof, ⟨?_, ?_⟩, hexact, hkeeps⟩⟩
    · exact hdescribed.url
    · exact hdescribed.scroll
  | some a =>
    rw [hsaved, Option.map_some] at hstorage
    obtain ⟨ph, hphase, hh⟩ := hs.phase_of_saved hsaved
    have hplan : a.plan = d.plan := congrArg (·.1) (hh.plan.symm.trans hof)
    have hread := (restoreClock_json hh.described hh.exact hh.keeps.sound).2
    rw [hplan] at hread
    simp only [activate, hurl, if_neg hfailure, hother, hstorage, hread, PhaseClock.activate, hphase]
    rw [← hh.keeps.finished]
    by_cases hfinished : a.progress.finished = true
    · rw [if_pos hfinished, if_pos hfinished]
      exact ⟨saved, hs⟩
    · rw [if_neg hfinished, if_neg hfinished]
      rw [Bool.not_eq_true] at hfinished
      obtain ⟨q, hq, hkeeps⟩ := sessionAt_keeps hh.keeps hfinished (hh.timely hsafe)
      rw [hq]
      refine ⟨_, hs.persist (le_refl _) ⟨rfl, huuid, hof, ⟨?_, ?_⟩, hexact, hplan ▸ hkeeps⟩⟩
      · exact hdescribed.url
      · exact hdescribed.scroll

theorem activate_agrees (hs : Agrees c of saved s h now) (hsafe : Timely of now) {url : List Char} {d : ActiveSession}
    (hurl : sessionFromUrl c.api c.workspaces url = .ok (some d)) (hof : of d.id = (d.plan, d.seed)) :
    ∃ saved', Agrees c of saved' (s.activate of d.id now) (activate c h url now) now := by
  cases hother : h.current.filter fun existing => existing.id = d.id with
  | none => exact enter_agrees hs hsafe hurl hof hother
  | some a =>
    obtain ⟨hcurrent, hsame⟩ := Option.filter_eq_some_iff.1 hother
    obtain ⟨hactivated, hfollowed⟩ := follow_agrees hs hurl hof hcurrent (of_decide_eq_true hsame)
    have hfailure : ¬ h.failure ≠ "" := not_not.2 hs.failure
    simp only [activate, hurl, if_neg hfailure, hother]
    rw [hactivated]
    split_ifs
    · exact hfollowed
    · exact ⟨saved, hs⟩

/-- A label that the theorem is about: what is activated is the URL of a session. -/
def Proper (c : ClockScope) (of : SessionPlans) (e : Nat × ClockEvent) : Prop :=
  Timely of e.1 ∧ ∀ url, e.2 = .activate url → SessionUrl c of url

theorem step_agrees {e : Nat × ClockEvent} (hs : Agrees c of saved s h e.1) (he : Proper c of e) :
    ∃ saved', Agrees c of saved' (s.step c of e) (step c h e) e.1 := by
  obtain ⟨now, event⟩ := e
  cases event with
  | activate url =>
    obtain ⟨d, hurl, hof⟩ := he.2 url rfl
    simp only [PhaseClock.step, step, hurl]
    exact activate_agrees hs he.1 hurl hof
  | toggle => exact toggle_agrees hs he.1
  | advance => exact advance_agrees hs he.1
  | stop => exact stop_agrees hs
  | reload =>
    simp only [PhaseClock.step, step, reload_eq hs]
    exact ⟨saved, hs⟩

end

/-- In every run the storage and the hook hold the phases. -/
theorem after_agrees {c : ClockScope} {of : SessionPlans} {events : List (Nat × ClockEvent)} {now : Nat}
    (hsorted : (events.map (·.1)).Pairwise (· ≤ ·)) (hproper : ∀ e ∈ events, Proper c of e)
    (hnow : ∀ e ∈ events, e.1 ≤ now) : ∃ saved, Agrees c of saved (.after c of events) (after c events) now := by
  induction events using List.reverseRecOn generalizing now with
  | nil => exact ⟨fun _ => none, rfl, fun _ _ => rfl, rfl, rfl, fun _ h => absurd h (by simp [PhaseClock.after]),
      fun _ => .none⟩
  | append_singleton events e ih =>
    rw [List.map_append, List.pairwise_append] at hsorted
    have hbefore : ∀ e' ∈ events, e'.1 ≤ e.1 := fun e' he' =>
      hsorted.2.2 e'.1 (List.mem_map_of_mem he') e.1 (by simp)
    obtain ⟨saved, hs⟩ := ih hsorted.1 (fun e' he' => hproper e' (List.mem_append_left _ he')) hbefore
    obtain ⟨saved', hs'⟩ := step_agrees hs (hproper e (by simp))
    refine ⟨saved', ?_⟩
    unfold PhaseClock.after after
    rw [List.foldl_append, List.foldl_append]
    exact hs'.mono (hnow e (by simp))

/-! ## What a run charges -/

section
variable {c : ClockScope} {of : SessionPlans} {saved saved' : SessionId → Option ActiveSession} {s s' : PhaseClock}
  {h h' : SessionClock} {id : SessionId} {a a' : ActiveSession} {ph ph' : Phase} {now t : Nat}

theorem put_phase (s : PhaseClock) (id id' : SessionId) (ph : Phase) :
    (s.put id ph).phase id' = if id' = id then some ph else s.phase id' := Function.update_apply _ _ _ _

/-- An action on the session that is shown. -/
theorem shown_phase {f : SessionId → Phase → PhaseClock} {g : SessionId → Phase → Phase}
    (hf : ∀ id ph, (f id ph).phase = (s.put id (g id ph)).phase) (hphase : s.phase id = some ph)
    (hdom : ∀ id, s.active = some id → s.phase id ≠ none) :
    (s.current.elim s fun x => f x.1 x.2).phase id = some (if s.active = some id then g id ph else ph) := by
  cases hactive : s.active with
  | none => simp [PhaseClock.current, hactive, hphase]
  | some shown =>
    obtain ⟨q, hq⟩ := Option.ne_none_iff_exists'.1 (hdom shown hactive)
    simp only [PhaseClock.current, hactive, Option.bind_some, hq, Option.map_some, Option.elim_some, hf, put_phase]
    by_cases hsame : id = shown
    · subst hsame
      have hph : q = ph := Option.some_inj.1 (hq.symm.trans hphase)
      simp [hph]
    · have hother : ¬ some shown = some id := fun he => hsame (Option.some_inj.1 he).symm
      rw [if_neg hsame, if_neg hother, hphase]

/-- What a phase becomes in a step: only the session that is shown is acted on. -/
theorem step_phase {e : Nat × ClockEvent} (hphase : s.phase id = some ph)
    (hdom : ∀ id, s.active = some id → s.phase id ≠ none) :
    (s.step c of e).phase id = some (if s.active = some id then ph.act (of id).1 e else ph) := by
  obtain ⟨now, event⟩ := e
  cases event with
  | activate url =>
    simp only [PhaseClock.step, Phase.act, ite_self]
    split
    · rename_i d _
      unfold PhaseClock.activate
      cases hd : s.phase d.id with
      | none =>
        have hne : id ≠ d.id := by
          rintro rfl
          rw [hphase] at hd
          cases hd
        simp only [put_phase, if_neg hne, hphase]
      | some q =>
        dsimp only
        split_ifs
        · exact hphase
        · rw [put_phase]
          split_ifs with hsame
          · rw [← hd, ← hsame, hphase]
          · exact hphase
    · exact hphase
  | toggle => exact shown_phase (f := fun id ph => s.put id (ph.toggle now)) (fun _ _ => rfl) hphase hdom
  | advance => exact shown_phase (f := fun id ph => s.put id (ph.advance (of id).1 now)) (fun _ _ => rfl) hphase hdom
  | stop => exact shown_phase (f := fun id ph => { s.put id ph.stop with active := none }) (fun _ _ => rfl) hphase hdom
  | reload =>
    simp only [PhaseClock.step, Phase.act, ite_self]
    exact hphase

/-- The session that the storage has for an id. -/
def savedSession (c : ClockScope) (h : SessionClock) (id : SessionId) : Option ActiveSession :=
  match restoreClock c.api c.workspaces (h.storage (savedKey c id)) with
  | .ok s => s
  | .error _ => none

theorem Agrees.domain (hs : Agrees c of saved s h t) (hactive : s.active = some id) : s.phase id ≠ none := by
  obtain ⟨a, ha⟩ := Option.ne_none_iff_exists'.1 (hs.active id hactive)
  obtain ⟨ph, hphase, -⟩ := hs.phase_of_saved ha
  rw [hphase]
  exact Option.some_ne_none ph

theorem Agrees.savedSession (hs : Agrees c of saved s h t) (hid : isUuid id.2 = true) :
    savedSession c h id = saved id := by
  unfold SessionClock.savedSession
  rw [hs.storage id hid]
  cases ha : saved id with
  | none => rfl
  | some a =>
    obtain ⟨ph, -, hh⟩ := hs.phase_of_saved ha
    rw [Option.map_some, (restoreClock_json hh.described hh.exact hh.keeps.sound).1]

/-- A session is shown exactly when it is the current one of the hook. -/
theorem Agrees.shown_iff (hs : Agrees c of saved s h t) (ha : saved id = some a) :
    h.current = some a ↔ s.active = some id := by
  obtain ⟨ph, -, hh⟩ := hs.phase_of_saved ha
  constructor
  · intro hcurrent
    rw [← hh.session]
    exact (hs.current_some hcurrent).1
  · intro hactive
    rw [hs.current, hactive, Option.bind_some, ha]

/-- The progress of a stored session before and after a label. -/
theorem Agrees.step_progress {event : ClockEvent} (hs : Agrees c of saved s h now)
    (hs' : Agrees c of saved' (s.step c of (now, event)) h' now) (ha : saved id = some a) : ∃ a', saved' id = some a' ∧
      (a.progress.mode = .smart → a'.progress.mode = .random →
        event = .advance ∧ h.current = some a ∧ (sessionAt a.progress now).remainingMs = 0) ∧
      (a.progress.finished = false → (a'.progress.finished = true ↔ h.current = some a ∧
        (event = .stop ∨ event = .advance ∧ (sessionAt a.progress now).remainingMs = 0 ∧
          (a.progress.mode = .random ∨ a.plan.random = 0)))) ∧
      (a.progress.finished = true →
        a'.progress = { a.progress with paused := a'.progress.paused, stopped := a'.progress.stopped }) := by
  obtain ⟨ph, hphase, hh⟩ := hs.phase_of_saved ha
  have hphase' : (s.step c of (now, event)).phase id =
      some (if s.active = some id then ph.act (of id).1 (now, event) else ph) :=
    step_phase hphase fun id hactive => hs.domain hactive
  have hsaved' : saved' id ≠ none := fun hnone => by
    rw [hs'.phase_none hnone] at hphase'
    cases hphase'
  obtain ⟨a', ha'⟩ := Option.ne_none_iff_exists'.1 hsaved'
  obtain ⟨ph', hph', hh'⟩ := hs'.phase_of_saved ha'
  rw [hphase', Option.some_inj] at hph'
  rw [hh.limit_eq] at hph'
  have hplan : a'.plan = a.plan := congrArg (·.1) (hh'.plan.symm.trans hh.plan)
  have hkeeps := hh.keeps
  have hkeeps' := hplan ▸ hh'.keeps
  have hshown := hs.shown_iff ha
  refine ⟨a', ha', fun hsmart hrandom => ?_, fun hrunning => ?_, fun hfinished => ?_⟩
  · rw [hkeeps.mode] at hsmart
    rw [hkeeps'.mode, ← hph'] at hrandom
    split_ifs at hrandom with hactive
    · obtain ⟨hadvance, hrunning, hover⟩ := Phase.act_mode hsmart hrandom
      exact ⟨hadvance, hshown.2 hactive, (hkeeps.over_iff (hkeeps.finished.trans hrunning)).2 hover⟩
    · rw [hsmart] at hrandom
      cases hrandom
  · have hphaseRunning : ph.finished = false := hkeeps.finished ▸ hrunning
    rw [hkeeps'.finished, ← hph', hkeeps.over_iff hrunning, hshown, hkeeps.mode]
    have hlast : ¬ (ph.mode = .smart ∧ 0 < a.plan.random) ↔ ph.mode = .random ∨ a.plan.random = 0 := by
      cases ph.mode <;> simp
    split_ifs with hactive
    · rw [Phase.act_finished hphaseRunning, hlast]
      simp [hactive]
    · simp [hphaseRunning, hactive]
  · have hphaseFinished : ph.finished = true := hkeeps.finished ▸ hfinished
    have hboth : ph'.finished = true ∧ ph'.mode = ph.mode := by
      rw [← hph']
      split_ifs
      · exact Phase.act_of_finished hphaseFinished
      · exact ⟨hphaseFinished, rfl⟩
    exact hkeeps.finished_eq hkeeps' hboth.2 hfinished (hkeeps'.finished.trans hboth.1)

end

namespace Sample

/-- A browser that knows the relative texts of the reader. -/
def api : UrlApi where
  origin := "https://reader.test".toList
  parse text :=
    if "/reading".toList.isPrefixOf text then
      some { origin := "https://reader.test".toList, pathname := "/reading".toList, search := text.drop 8 }
    else none
  param search name := (search.tail.splitOn '&').findSome? fun pair =>
    if (name.toList ++ ['=']).isPrefixOf pair then some (pair.drop (name.length + 1)) else none
  reparse := by
    intro text url h _ _
    split_ifs at h
    cases h
    rfl

def scope : ClockScope := { api, owner := "one".toList, workspaces := ["w".toList] }

def seed : List Char := "f7a8d5c0-3b6e-4e1f-9a55-0c1d2e3f4a5b".toList

def session : List Char := "0d9c8b7a-6f5e-4d3c-8b2a-190817263544".toList

def url (smart random : String) : List Char :=
  "/reading?workspace=w&from=session&session=".toList ++ session ++ "&seed=".toList ++ seed ++ "&smart=".toList ++
    smart.toList ++ "&random=".toList ++ random.toList

def plans (smart random : Nat) : SessionPlans := fun _ => ({ smart, random }, seed)

theorem smart_url : SessionUrl scope (plans 1 1) (url "1" "1") := ⟨_, rfl, rfl⟩

end Sample

open SessionClock.Sample

end SessionClock

end Inoreader
