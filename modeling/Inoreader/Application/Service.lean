import Inoreader.Core.Subscription
import Inoreader.Lib.Run

/-!
# Commands on a subscription (`reader-application/src/service.rs`, `reader-server/src/subscriptions.rs`)

Every command reads the document, changes it and saves it under the revision that it has read; a save validates the
document first, an activation also asks for an active one. The transitions test one status each before they overwrite
it: `pause` takes an archived subscription and `archive` a paused one. `unsubscribed` and `held` remember that the
subscription was archived and not restored, and paused and not resumed.
-/

namespace Inoreader
open Lib

inductive CommandError
  | invalidReason (error : ReasonError)
  | invalidName
  | workspaceArchived
  | invalid (error : StateValidationError)
  | notActive
deriving DecidableEq, Repr

inductive SubscriptionCommand
  | pause (reason : String) (actor : Nat) (atTime : DateTime)
  | resume
  | archive
  | restore
  | rename (name : String)
  | replaceSource (sourceUrl : Url) (exact sourceTitle : String)
deriving DecidableEq, Repr

/-- `valid_name`. -/
def validName (name : String) : Bool := name != "" && isTrimmed name && name.utf8ByteSize ≤ 256

namespace Subscription
variable (parseUrl : String → Option Url) (policy : ReasonPolicy)

/-- `save_subscription` and `replace_subscription_source` validate what they store. -/
def saved (s : Subscription) : Except CommandError Subscription :=
  match s.validate parseUrl policy with
  | .ok _ => .ok s
  | .error e => .error (.invalid e)

/-- `activate_subscription_with_refresh`. -/
def activated (s : Subscription) : Except CommandError Subscription :=
  match s.saved parseUrl policy with
  | .ok s => if s.status = .active then .ok s else .error .notActive
  | .error e => .error e

/-- The document that a command stores; `accepts` says whether the workspace accepts deliveries. -/
def command (accepts : Bool) (s : Subscription) : SubscriptionCommand → Except CommandError Subscription
  | .pause reason actor atTime =>
    match policy.validate reason with
    | .error e => .error (.invalidReason e)
    | .ok reason => (s.pause { reason, actor, atTime }).saved parseUrl policy
  | .resume => if accepts then s.resume.activated parseUrl policy else .error .workspaceArchived
  | .archive => s.archive.saved parseUrl policy
  | .restore => if accepts then s.restore.activated parseUrl policy else .error .workspaceArchived
  | .rename name =>
    if name = "" ∨ validName name = true then (s.rename name).saved parseUrl policy else .error .invalidName
  | .replaceSource url exact title =>
    match s.replaceSource parseUrl url exact title with
    | .error e => .error (.invalid e)
    | .ok s => s.saved parseUrl policy

end Subscription

structure SubscriptionWorld where
  document : Subscription
  /-- Archived and not restored since. -/
  unsubscribed : Bool
  /-- Paused and not resumed since. -/
  held : Bool
deriving DecidableEq, Repr

/-- A command with the state of the workspace; a transaction that does not commit changes nothing. -/
structure SubscriptionLabel where
  command : SubscriptionCommand
  accepts : Bool
  commits : Bool
deriving DecidableEq, Repr

namespace SubscriptionWorld

def start (s : Subscription) : SubscriptionWorld where
  document := s
  unsubscribed := s.status == .archived
  held := s.status != .active && s.status != .archived

/-- `restore` ends what was archived, `resume` what was paused. -/
def stored (w : SubscriptionWorld) (c : SubscriptionCommand) (s : Subscription) : SubscriptionWorld where
  document := s
  unsubscribed := s.status == .archived || (w.unsubscribed && c != .restore)
  held := (s.status != .active && s.status != .archived) || (w.held && c != .resume)

def step (parseUrl : String → Option Url) (policy : ReasonPolicy) (w : SubscriptionWorld) (a : SubscriptionLabel) :
    Option SubscriptionWorld :=
  match a.commits, w.document.command parseUrl policy a.accepts a.command with
  | true, .ok s => some (w.stored a.command s)
  | _, _ => some w

/-- A pause does not find the subscription archived. -/
def PausesSubscribed (w : SubscriptionWorld) (a : SubscriptionLabel) : Prop :=
  ∀ reason actor atTime, a.command = .pause reason actor atTime → w.document.status ≠ .archived

/-- `archive` does not find the subscription paused. -/
def ArchivesUnpaused (w : SubscriptionWorld) (a : SubscriptionLabel) : Prop :=
  a.command = .archive → ∀ event, w.document.status ≠ .paused event

end SubscriptionWorld

/-! ## What a command does -/

namespace Subscription
variable {parseUrl : String → Option Url} {policy : ReasonPolicy} {s s' : Subscription} {accepts : Bool}
  {c : SubscriptionCommand}

/-- The transition of a command that is stored. -/
def Transition (parseUrl : String → Option Url) (s s' : Subscription) : SubscriptionCommand → Prop
  | .pause _ _ _ => ∃ event, s' = s.pause event
  | .resume => s' = s.resume ∧ s'.status = .active
  | .archive => s' = s.archive
  | .restore => s' = s.restore ∧ s'.status = .active
  | .rename name => s' = s.rename name
  | .replaceSource url exact title => s.replaceSource parseUrl url exact title = .ok s'

theorem saved_ok (h : s.saved parseUrl policy = .ok s') : s' = s ∧ s'.validate parseUrl policy = .ok () := by
  unfold saved at h
  split at h
  · rename_i hvalid
    cases h
    exact ⟨rfl, hvalid⟩
  · cases h

theorem activated_ok (h : s.activated parseUrl policy = .ok s') :
    s' = s ∧ s'.validate parseUrl policy = .ok () ∧ s'.status = .active := by
  unfold activated at h
  split at h
  · rename_i hsaved
    split at h
    · rename_i hactive
      cases h
      obtain ⟨rfl, hvalid⟩ := saved_ok hsaved
      exact ⟨rfl, hvalid, hactive⟩
    · cases h
  · cases h

theorem command_ok (h : s.command parseUrl policy accepts c = .ok s') :
    s'.validate parseUrl policy = .ok () ∧ s.Transition parseUrl s' c := by
  cases c with
  | pause reason actor atTime =>
    unfold command at h
    simp only at h
    split at h
    · cases h
    · obtain ⟨rfl, hvalid⟩ := saved_ok h
      exact ⟨hvalid, _, rfl⟩
  | resume =>
    unfold command at h
    simp only at h
    split at h
    · obtain ⟨rfl, hvalid, hactive⟩ := activated_ok h
      exact ⟨hvalid, rfl, hactive⟩
    · cases h
  | archive =>
    obtain ⟨rfl, hvalid⟩ := saved_ok h
    exact ⟨hvalid, rfl⟩
  | restore =>
    unfold command at h
    simp only at h
    split at h
    · obtain ⟨rfl, hvalid, hactive⟩ := activated_ok h
      exact ⟨hvalid, rfl, hactive⟩
    · cases h
  | rename name =>
    unfold command at h
    simp only at h
    split at h
    · obtain ⟨rfl, hvalid⟩ := saved_ok h
      exact ⟨hvalid, rfl⟩
    · cases h
  | replaceSource url exact title =>
    unfold command at h
    simp only at h
    split at h
    · cases h
    · rename_i s₁ hreplaced
      obtain ⟨rfl, hvalid⟩ := saved_ok h
      exact ⟨hvalid, hreplaced⟩

theorem rename_cases (s : Subscription) (name : String) : s.rename name = s ∨
    (s.rename name).revision = s.revision + 1 ∧ (s.rename name).history = s.history ∧ (s.rename name).status = s.status := by
  unfold rename
  generalize (if name = "" then none else some name) = customName
  simp only
  split
  · exact .inr ⟨rfl, rfl, rfl⟩
  · exact .inl rfl

theorem replaceSource_cases {url : Url} {exact title : String} (h : s.replaceSource parseUrl url exact title = .ok s') :
    s' = s ∨ s'.revision = s.revision + 1 ∧ s'.history = s.history ∧ s'.status = s.status := by
  unfold replaceSource at h
  split at h
  · cases h
  · split at h
    · cases h
      exact .inr ⟨rfl, rfl, rfl⟩
    · cases h
      exact .inl rfl

/-- A transition counts in the revision and keeps the history. -/
theorem Transition.counted (h : s.Transition parseUrl s' c) :
    s' = s ∨ s'.revision = s.revision + 1 ∧ s.history <+: s'.history := by
  have hkept : s' = s ∨ s'.revision = s.revision + 1 ∧ s'.history = s.history ∧ s'.status = s.status →
      s' = s ∨ s'.revision = s.revision + 1 ∧ s.history <+: s'.history := by
    rintro (rfl | ⟨hrevision, hhistory, -⟩)
    · exact .inl rfl
    · exact .inr ⟨hrevision, hhistory ▸ List.prefix_rfl⟩
  cases c with
  | pause reason actor atTime =>
    obtain ⟨event, rfl⟩ := h
    unfold pause
    split
    · exact .inl rfl
    · exact .inr ⟨rfl, List.prefix_append _ _⟩
  | resume =>
    obtain ⟨rfl, -⟩ := h
    unfold resume
    split
    · exact .inr ⟨rfl, List.prefix_rfl⟩
    · exact .inl rfl
  | archive =>
    cases h
    unfold archive
    split
    · exact .inl rfl
    · exact .inr ⟨rfl, List.prefix_rfl⟩
  | restore =>
    obtain ⟨rfl, -⟩ := h
    unfold restore
    split
    · exact .inr ⟨rfl, List.prefix_rfl⟩
    · exact .inl rfl
  | rename name =>
    cases h
    exact hkept (s.rename_cases name)
  | replaceSource url exact title => exact hkept (replaceSource_cases h)

/-- What a transition does to the status. -/
theorem Transition.status (h : s.Transition parseUrl s' c) : s'.status = s.status ∨
    ((∃ reason actor atTime, c = .pause reason actor atTime) ∧ ∃ event, s'.status = .paused event) ∨
    (c = .resume ∧ (∃ event, s.status = .paused event) ∧ s'.status = .active) ∨
    (c = .archive ∧ s'.status = .archived) ∨
    (c = .restore ∧ s.status = .archived ∧ s'.status = .active) := by
  have hkept : s' = s ∨ s'.revision = s.revision + 1 ∧ s'.history = s.history ∧ s'.status = s.status →
      s'.status = s.status := by
    rintro (rfl | ⟨-, -, hstatus⟩)
    · rfl
    · exact hstatus
  cases c with
  | pause reason actor atTime =>
    obtain ⟨event, rfl⟩ := h
    unfold pause
    split
    · exact .inl rfl
    · exact .inr (.inl ⟨⟨_, _, _, rfl⟩, event, rfl⟩)
  | resume =>
    obtain ⟨rfl, -⟩ := h
    unfold resume
    split
    · rename_i event hpaused
      exact .inr (.inr (.inl ⟨rfl, ⟨event, hpaused⟩, rfl⟩))
    · exact .inl rfl
  | archive =>
    cases h
    unfold archive
    split
    · exact .inl rfl
    · exact .inr (.inr (.inr (.inl ⟨rfl, rfl⟩)))
  | restore =>
    obtain ⟨rfl, -⟩ := h
    unfold restore
    split
    · rename_i harchived
      exact .inr (.inr (.inr (.inr ⟨rfl, harchived, rfl⟩)))
    · exact .inl rfl
  | rename name =>
    cases h
    exact .inl (hkept (s.rename_cases name))
  | replaceSource url exact title => exact .inl (hkept (replaceSource_cases h))

/-- The pause of a valid document is the end of its history. -/
theorem paused_last (h : s.validate parseUrl policy = .ok ()) {event : StateEvent} (hpaused : s.status = .paused event) :
    s.history.getLast? = some event := by
  unfold validate at h
  split at h
  · cases h
  · split at h
    · cases h
    · rw [hpaused] at h
      simp only at h
      split at h
      · cases h
      · split at h
        · assumption
        · cases h

end Subscription

/-! ## Runs of commands -/

namespace SubscriptionWorld
variable {parseUrl : String → Option Url} {policy : ReasonPolicy} {w w' : SubscriptionWorld} {a : SubscriptionLabel}

theorem step_cases (h : step parseUrl policy w a = some w') : w' = w ∨ ∃ s, w' = w.stored a.command s ∧
    s.validate parseUrl policy = .ok () ∧ w.document.Transition parseUrl s a.command := by
  unfold step at h
  split at h
  · rename_i s _ hcommand
    cases h
    exact .inr ⟨s, rfl, Subscription.command_ok hcommand⟩
  · cases h
    exact .inl rfl

/-- Every command counts in the revision if and only if it changes the document, and keeps the history. -/
theorem step_counted (h : step parseUrl policy w a = some w') : w.document.history <+: w'.document.history ∧
    (w'.document ≠ w.document → w'.document.revision = w.document.revision + 1) := by
  rcases step_cases h with rfl | ⟨s, rfl, -, htransition⟩
  · exact ⟨List.prefix_rfl, fun hne => absurd rfl hne⟩
  · rcases htransition.counted with rfl | ⟨hrevision, hhistory⟩
    · exact ⟨List.prefix_rfl, fun hne => absurd rfl hne⟩
    · exact ⟨hhistory, fun _ => hrevision⟩

theorem step_valid (h : step parseUrl policy w a = some w') (hvalid : w.document.validate parseUrl policy = .ok ()) :
    w'.document.validate parseUrl policy = .ok () := by
  rcases step_cases h with rfl | ⟨s, rfl, hs, -⟩
  · exact hvalid
  · exact hs

/-- Only `resume` takes a paused subscription to an active one. -/
theorem step_resumes (h : step parseUrl policy w a = some w') {event : StateEvent}
    (hpaused : w.document.status = .paused event) (hactive : w'.document.status = .active) : a.command = .resume := by
  rcases step_cases h with rfl | ⟨s, rfl, -, htransition⟩
  · rw [hpaused] at hactive
    cases hactive
  · have hactive : s.status = .active := hactive
    rcases htransition.status with hs | ⟨-, _, hs⟩ | ⟨hc, -⟩ | ⟨-, hs⟩ | ⟨-, harchived, -⟩
    · rw [hs, hpaused] at hactive
      cases hactive
    · rw [hs] at hactive
      cases hactive
    · exact hc
    · rw [hs] at hactive
      cases hactive
    · rw [hpaused] at harchived
      cases harchived

/-- While pauses find the subscription not archived, what was archived and not restored is archived. -/
theorem step_unsubscribed (h : step parseUrl policy w a = some w') (hpauses : w.PausesSubscribed a)
    (hinv : w.unsubscribed = true → w.document.status = .archived) :
    w'.unsubscribed = true → w'.document.status = .archived := by
  rcases step_cases h with rfl | ⟨s, rfl, -, htransition⟩
  · exact hinv
  · intro hunsubscribed
    show s.status = .archived
    simp only [stored, Bool.or_eq_true, beq_iff_eq, Bool.and_eq_true, bne_iff_ne] at hunsubscribed
    rcases hunsubscribed with hs | ⟨hold, hc⟩
    · exact hs
    · have harchived := hinv hold
      rcases htransition.status with hs | ⟨⟨reason, actor, atTime, hpause⟩, -⟩ | ⟨-, ⟨event, hpaused⟩, -⟩ | ⟨-, hs⟩ | ⟨hrestore, -⟩
      · exact hs.trans harchived
      · exact absurd harchived (hpauses reason actor atTime hpause)
      · rw [harchived] at hpaused
        cases hpaused
      · exact hs
      · exact absurd hrestore hc

/-- While `archive` finds the subscription not paused, what was paused and not resumed is paused. -/
theorem step_held (h : step parseUrl policy w a = some w') (harchives : w.ArchivesUnpaused a)
    (hinv : w.held = true → ∃ event, w.document.status = .paused event) :
    w'.held = true → ∃ event, w'.document.status = .paused event := by
  rcases step_cases h with rfl | ⟨s, rfl, -, htransition⟩
  · exact hinv
  · intro hheld
    show ∃ event, s.status = .paused event
    simp only [stored, Bool.or_eq_true, Bool.and_eq_true, bne_iff_ne] at hheld
    rcases hheld with ⟨hactive, harchived⟩ | ⟨hold, hc⟩
    · cases hs : s.status with
      | active => exact absurd hs hactive
      | paused event => exact ⟨event, rfl⟩
      | archived => exact absurd hs harchived
    · obtain ⟨event, hpaused⟩ := hinv hold
      rcases htransition.status with hs | ⟨-, event', hs⟩ | ⟨hresume, -⟩ | ⟨harchive, -⟩ | ⟨-, harchived, -⟩
      · exact ⟨event, hs.trans hpaused⟩
      · exact ⟨event', hs⟩
      · exact absurd hresume hc
      · exact absurd hpaused (harchives harchive event)
      · rw [hpaused] at harchived
        cases harchived

theorem start_held {s : Subscription} (h : (start s).held = true) : ∃ event, s.status = .paused event := by
  simp only [start, Bool.and_eq_true, bne_iff_ne] at h
  cases hs : s.status with
  | active => exact absurd hs h.1
  | paused event => exact ⟨event, rfl⟩
  | archived => exact absurd hs h.2

theorem history_run {as : List SubscriptionLabel} (hrun : run (step parseUrl policy) w as = some w') :
    w.document.history <+: w'.document.history := by
  induction as generalizing w with
  | nil =>
    cases hrun
    exact List.prefix_rfl
  | cons a as ih =>
    obtain ⟨w₁, hstep, hrun⟩ := run_cons.1 hrun
    exact (step_counted hstep).1.trans (ih hrun)

/-- The status machine of a subscription. What was archived stays archived until it is restored in every run whose
pauses find the subscription not archived; what was paused stays paused until it is resumed in every run in which
`archive` finds it not paused. -/
theorem subscription_status_machine (parseUrl : String → Option Url) (policy : ReasonPolicy) {s : Subscription}
    {as : List SubscriptionLabel} {w : SubscriptionWorld} (hvalid : s.validate parseUrl policy = .ok ())
    (hrun : run (step parseUrl policy) (start s) as = some w) :
    (Along (step parseUrl policy) PausesSubscribed (start s) as → w.unsubscribed = true → w.document.status ≠ .active) ∧
    (Along (step parseUrl policy) ArchivesUnpaused (start s) as → w.held = true → w.document.status ≠ .active) ∧
    (∀ a w' event, step parseUrl policy w a = some w' → w.document.status = .paused event →
      w'.document.status = .active → a.command = .resume) ∧
    w.document.validate parseUrl policy = .ok () ∧
    s.history <+: w.document.history ∧
    (∀ event, w.document.status = .paused event → w.document.history.getLast? = some event) ∧
    ∀ a w', step parseUrl policy w a = some w' →
      (w'.document ≠ w.document → w'.document.revision = w.document.revision + 1) ∧
      (w'.document = w.document → w'.document.revision = w.document.revision) := by
  have hend : w.document.validate parseUrl policy = .ok () :=
    run_inv' (fun w => w.document.validate parseUrl policy = .ok ()) (fun _ _ _ h hstep => step_valid hstep h) hvalid hrun
  refine ⟨fun hpauses hunsubscribed => ?_, fun harchives hheld => ?_, fun a w' event hstep => step_resumes hstep, hend,
    history_run hrun, fun event => Subscription.paused_last hend, fun a w' hstep => ⟨(step_counted hstep).2, fun h => by rw [h]⟩⟩
  · have harchived := run_inv (fun w : SubscriptionWorld => w.unsubscribed = true → w.document.status = .archived)
      (fun _ _ _ h hp hstep => step_unsubscribed hstep hp h) (fun h => by simpa [start] using h) hpauses hrun
    rw [harchived hunsubscribed]
    exact nofun
  · have hpaused := run_inv (fun w : SubscriptionWorld => w.held = true → ∃ event, w.document.status = .paused event)
      (fun _ _ _ h hp hstep => step_held hstep hp h) (fun h => start_held h) harchives hrun
    obtain ⟨event, hevent⟩ := hpaused hheld
    rw [hevent]
    exact nofun

end SubscriptionWorld

namespace Sample
open SubscriptionWorld

def newSubscription : Subscription where
  id := ⟨1⟩
  workspaceId := ⟨1⟩
  sourceUrl := { text := "https://example.com/feed", scheme := "https", host := some "example.com", port := none }
  status := .active
  revision := 0
  history := []

def reasonPolicy : ReasonPolicy := ⟨100⟩

/-- A command that is accepted and commits. -/
def commanded (c : SubscriptionCommand) : SubscriptionLabel := ⟨c, true, true⟩

/-- The state after some commands. -/
def afterCommands (cs : List SubscriptionCommand) : SubscriptionWorld :=
  (run (step (fun _ => none) reasonPolicy) (start newSubscription) (cs.map commanded)).getD (start newSubscription)

end Sample

namespace SubscriptionWorld
open Sample

/-- An archived subscription is not active. -/
theorem subscription_status_machine_archived : (afterCommands [.archive]).unsubscribed = true ∧
    (afterCommands [.archive]).document.status ≠ .active ∧ (afterCommands [.archive]).document.revision = 1 := by
  have hvalid : newSubscription.validate (fun _ => none) reasonPolicy = .ok () := by decide +kernel
  have hrun : run (step (fun _ => none) reasonPolicy) (start newSubscription) [commanded .archive] =
      some (afterCommands [.archive]) := run_getD (by decide +kernel) _
  have hpauses : Along (step (fun _ => none) reasonPolicy) PausesSubscribed (start newSubscription) [commanded .archive] :=
    ⟨nofun, fun _ _ => trivial⟩
  exact ⟨by decide +kernel, (subscription_status_machine _ reasonPolicy hvalid hrun).1 hpauses (by decide +kernel),
    by decide +kernel⟩

/-- Archived, paused and resumed, a subscription is active without a restore; paused, archived and restored, it is
active without a resume. -/
theorem archived_subscription_resumed :
    newSubscription.validate (fun _ => none) reasonPolicy = .ok () ∧
    ((afterCommands [.archive, .pause "reason" 1 0, .resume]).document.status = .active ∧
      (afterCommands [.archive, .pause "reason" 1 0, .resume]).unsubscribed = true) ∧
    (afterCommands [.pause "reason" 1 0, .archive, .restore]).document.status = .active ∧
      (afterCommands [.pause "reason" 1 0, .archive, .restore]).held = true := by
  decide +kernel

end SubscriptionWorld
end Inoreader
