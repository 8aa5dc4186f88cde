import Inoreader.Wiki.AccessSteps

/-!
# Outsiders and drafts over runs of the wiki

What an account without a role in a namespace asks of it leaves no trace and is answered without a look at what the
namespace holds. A draft is a register that only a request with the stored revision can change, so of two requests with
the same revision at most one takes effect.
-/

namespace Inoreader
open Lib

variable {limits : WikiLimits} {accountOf : String → Option AccountId} {s s' s₀ : WikiSpace} {actor : AccountId} {ns id : Nat}
  {o : AccountId}

/-! ## Outsiders -/

/-- The namespace is there, and the account has no role in it. -/
structure WikiSpace.Outsider (s : WikiSpace) (ns : Nat) (o : AccountId) : Prop where
  row : ∃ row, s.row ns = some row ∧ row.owner ≠ o
  member : s.member ns o = none

/-- Whether the account asks the namespace for something. -/
def SpaceLabel.asks (l : SpaceLabel limits) (ns : Nat) (o : AccountId) : Bool :=
  l.actor = o && l.ns = ns &&
    match l.request with
    | .unbindPage _ => false
    | _ => true

theorem WikiSpace.Outsider.authorize (h : s.Outsider ns o) : authorizeWiki o ns s.db = .error .notFound := by
  obtain ⟨row, hrow, howner⟩ := h.row
  have hrow : s.db.namespaces.lookup ns = some row := hrow
  have hmember : s.db.members.lookup (ns, o) = none := h.member
  simp only [authorizeWiki, Tx.bind_run, Tx.get_run, hrow, Tx.orThrow_some, if_neg howner, hmember, memberRole, wikiResult,
    Tx.throw_run]

/-- What asks for the role is refused. -/
theorem WikiSpace.Outsider.refused {β : Type} (h : s.Outsider ns o) (k : WikiRole → SpaceTx β) :
    (onPages (authorizeWiki o ns) >>= k) s = .error .notFound := by
  refine Tx.bind_of_error ?_
  simp only [onPages, h.authorize]

theorem onPages_error {α : Type} {m : WikiTx α} {e : WikiError} (h : m s.db = .error e) : onPages m s = .error e := by
  simp only [onPages, h]

/-- The state does not count for the outcome of `m`, and where `m` succeeds the rest is refused. -/
theorem refused_after {α β : Type} {m : SpaceTx α} {k : α → SpaceTx β} (r : Except WikiError α)
    (hm : ∀ s : WikiSpace, s.Outsider ns o → m s = r.map fun a => (a, s))
    (hk : ∀ a, ∃ e, ∀ s : WikiSpace, s.Outsider ns o → k a s = .error e) :
    ∃ e, ∀ s : WikiSpace, s.Outsider ns o → (m >>= k) s = .error e := by
  cases r with
  | error e => exact ⟨e, fun s hs => Tx.bind_of_error (hm s hs)⟩
  | ok a =>
    obtain ⟨e, he⟩ := hk a
    exact ⟨e, fun s hs => (Tx.bind_of_ok (hm s hs)).trans (he s hs)⟩

theorem refused_after_result {α β : Type} (r : Except WikiError α) {k : α → SpaceTx β}
    (hk : ∀ a, ∃ e, ∀ s : WikiSpace, s.Outsider ns o → k a s = .error e) :
    ∃ e, ∀ s : WikiSpace, s.Outsider ns o → (onPages (wikiResult r) >>= k) s = .error e := by
  refine refused_after r (fun s _ => ?_) hk
  cases r <;> rfl

theorem refused_after_require {β : Type} (p : Prop) [Decidable p] (reason : WikiError) {k : Unit → SpaceTx β}
    (hk : ∀ a, ∃ e, ∀ s : WikiSpace, s.Outsider ns o → k a s = .error e) :
    ∃ e, ∀ s : WikiSpace, s.Outsider ns o → (Tx.require p reason >>= k) s = .error e := by
  by_cases h : p
  · exact refused_after (.ok ()) (fun s _ => Tx.require_pos h) hk
  · exact refused_after (.error reason) (fun s _ => Tx.require_neg h) hk

/-- An outsider is refused with an answer that does not depend on what the namespace holds. -/
theorem outsider_refused (l : SpaceLabel limits) (hasks : l.asks ns o = true) :
    ∃ e, ∀ s : WikiSpace, s.Outsider ns o → l.perform limits accountOf s = .error e := by
  obtain ⟨actor, ns', request⟩ := l
  simp only [SpaceLabel.asks, Bool.and_eq_true, decide_eq_true_eq] at hasks
  obtain ⟨⟨rfl, rfl⟩, hasks⟩ := hasks
  cases request with
  | create name =>
    refine refused_after_result _ fun _ => refused_after (.ok ()) (fun s hs => ?_) fun _ => ⟨_, fun s hs => hs.refused _⟩
    obtain ⟨row, hrow, -⟩ := hs.row
    have hrow : s.db.namespaces.lookup ns' = some row := hrow
    rw [Tx.modify_run, hrow]
    rfl
  | change command revision now =>
    exact ⟨.notFound, fun s hs => Tx.bind_of_error (onPages_error (Tx.bind_of_error hs.authorize))⟩
  | ensureRoot id revision now =>
    cases hname : limits.name subscriptionsName with
    | error e =>
      refine ⟨e, fun s hs => Tx.bind_of_error (onPages_error (Tx.bind_of_error ?_))⟩
      rw [hname]
      rfl
    | ok u =>
      have hrun : ∀ db, wikiResult (limits.name subscriptionsName) db = .ok (u, db) := fun db => by
        rw [hname]
        rfl
      refine ⟨.notFound, fun s hs => Tx.bind_of_error (onPages_error ?_)⟩
      exact (Tx.bind_of_ok (hrun s.db)).trans (Tx.bind_of_error hs.authorize)
  | saveDraft id expected content drawn =>
    have hdraft : ∃ e, ∀ s : WikiSpace, s.Outsider ns' actor → saveDraft limits actor ns' id expected content drawn s = .error e := by
      unfold saveDraft
      by_cases hname : content.name ≠ ""
      · rw [Tx.onlyIf, if_pos hname]
        refine refused_after_result _ fun _ => refused_after_result _ fun _ => refused_after_require _ _ fun _ => ?_
        exact ⟨.notFound, fun s hs => hs.refused _⟩
      · rw [Tx.onlyIf, if_neg hname]
        refine refused_after (.ok ()) (fun s _ => rfl) fun _ => refused_after_result _ fun _ => refused_after_require _ _ fun _ => ?_
        exact ⟨.notFound, fun s hs => hs.refused _⟩
    obtain ⟨e, he⟩ := hdraft
    exact ⟨e, fun s hs => Tx.bind_of_error (he s hs)⟩
  | discardDraft id expected => exact ⟨_, fun s hs => hs.refused _⟩
  | setMember username role =>
    show ∃ e, ∀ s : WikiSpace, s.Outsider ns' actor → setMember accountOf actor ns' username role s = .error e
    unfold setMember
    refine refused_after_require _ _ fun _ => ?_
    exact ⟨.notFound, fun s hs => hs.refused _⟩
  | setFavorite page favorite => exact ⟨_, fun s hs => hs.refused _⟩
  | bindPage subscription page =>
    refine ⟨.notFound, fun s hs => ?_⟩
    by_cases howner : s.subscriptions.lookup subscription = some actor
    · have hrun : subscriptionOwner actor subscription s = .ok ((), s) := Tx.require_pos howner
      exact (Tx.bind_of_ok hrun).trans (hs.refused _)
    · have hrun : subscriptionOwner actor subscription s = .error .notFound := Tx.require_neg howner
      exact Tx.bind_of_error hrun
  | unbindPage subscription => cases hasks

theorem asks_refused {l : SpaceLabel limits} (hs : s.Outsider ns o) (hasks : l.asks ns o = true) :
    spaceStep limits accountOf s l = some s := by
  obtain ⟨e, he⟩ := @outsider_refused _ accountOf _ _ l hasks
  rw [spaceStep, Tx.commit_of_error (he s hs)]

/-- Only the owner makes an outsider a member. -/
theorem SpaceOutcome.outsider {subject : Option AccountId} {ns' : Nat} (h : SpaceOutcome s actor ns' subject s')
    (hs : s.Outsider ns o) (hsubject : ns' = ns → subject ≠ some o) : s'.Outsider ns o := by
  obtain ⟨⟨row, hrow, howner⟩, hmember⟩ := hs
  refine ⟨⟨row, h.allowed.rows ns row hrow, howner⟩, ?_⟩
  cases h with
  | @pages db' hedits hstored hothers =>
    obtain ⟨page, action, -, hstored⟩ := hstored
    exact (congrArg (fun t => Table.lookup t (ns, o)) hstored.roles.2).trans hmember
  | @joined account role howner' hother hsome =>
    refine (Table.lookup_insert_if _ _ _ _).trans ?_
    rw [if_neg]
    · exact hmember
    · intro hkey
      cases hkey
      exact hsubject rfl hsome
  | @left account howner' =>
    refine (Table.lookup_erase_if _ _ _).trans ?_
    split
    · rfl
    · exact hmember
  | _ => exact hmember

theorem outsider_step {l : SpaceLabel limits} (hs : s.Sound) (ho : s.Outsider ns o)
    (hnever : l.ns = ns → l.subject limits accountOf ≠ some o) (hstep : spaceStep limits accountOf s l = some s') :
    s'.Outsider ns o := by
  cases hrun : l.perform limits accountOf s with
  | error e =>
    rw [spaceStep, Tx.commit_of_error hrun] at hstep
    cases hstep
    exact ho
  | ok r =>
    obtain ⟨u, t⟩ := r
    rw [spaceStep, Tx.commit_of_ok hrun] at hstep
    cases hstep
    exact (perform_ok hs.consistent hrun).outsider ho hnever

/-- A run ends as it does without the requests of an outsider. -/
theorem outsider_run {as : List (SpaceLabel limits)} (hs : s.Sound) (ho : s.Outsider ns o)
    (hnever : ∀ l ∈ as, l.ns = ns → l.subject limits accountOf ≠ some o) :
    run (spaceStep limits accountOf) s as = run (spaceStep limits accountOf) s (as.filter fun l => !l.asks ns o) := by
  induction as generalizing s with
  | nil => rfl
  | cons l as ih =>
    rw [List.forall_mem_cons] at hnever
    cases hasks : l.asks ns o with
    | true =>
      rw [List.filter_cons_of_neg (by simp [hasks]), ← ih hs ho hnever.2, run, asks_refused ho hasks, Option.bind_some]
    | false =>
      rw [List.filter_cons_of_pos (by simp [hasks]), run, run]
      cases hstep : spaceStep limits accountOf s l with
      | none => rfl
      | some s' => exact ih (spaceStep_ok hs hstep).1 (outsider_step hs ho hnever.1 hstep) hnever.2

/-! ## Drafts -/

def WikiSpace.stored (s : WikiSpace) (ns : Nat) (author : AccountId) (id : Nat) : Option Nat :=
  (s.draft ns author id).map (·.revision)

/-- The revision that a request draws. -/
def SpaceLabel.drawn (l : SpaceLabel limits) : Option Nat :=
  match l.request with
  | .saveDraft _ _ _ drawn => some drawn
  | _ => none

/-- The request writes or discards the draft and expects the revision. -/
def SpaceLabel.Replaces (l : SpaceLabel limits) (ns : Nat) (author : AccountId) (id : Nat) (expected : Option Nat) : Prop :=
  l.actor = author ∧ l.ns = ns ∧
    ((∃ content drawn, l.request = .saveDraft id expected content drawn) ∨ l.request = .discardDraft id expected)

theorem onPages_drafts {α : Type} (m : WikiTx α) : Tx.Keeps (·.drafts) (onPages m) := by
  intro s a s' h
  obtain ⟨db', -, rfl⟩ := onPages_ok.1 h
  rfl

/-- The requests that are not about drafts. -/
theorem perform_drafts (l : SpaceLabel limits) (hsave : ∀ id expected content drawn, l.request ≠ .saveDraft id expected content drawn)
    (hdiscard : ∀ id expected, l.request ≠ .discardDraft id expected) : Tx.Keeps (·.drafts) (l.perform limits accountOf) := by
  obtain ⟨actor, ns, request⟩ := l
  cases request with
  | create name =>
    refine Tx.keeps_bind (onPages_drafts _) fun _ => Tx.keeps_bind (Tx.keeps_modify fun s => ?_) fun _ => ?_
    · dsimp only
      split <;> rfl
    · refine Tx.keeps_bind (onPages_drafts _) fun _ => Tx.keeps_bind Tx.keeps_get fun _ => ?_
      exact Tx.keeps_bind (Tx.keeps_orThrow _ _) fun _ => Tx.keeps_require _ _
  | change command revision now => exact Tx.keeps_bind (onPages_drafts _) fun _ => Tx.keeps_pure _
  | ensureRoot id revision now => exact Tx.keeps_bind (onPages_drafts _) fun _ => Tx.keeps_pure _
  | saveDraft id expected content drawn => exact absurd rfl (hsave _ _ _ _)
  | discardDraft id expected => exact absurd rfl (hdiscard _ _)
  | setMember username role =>
    refine Tx.keeps_bind (Tx.keeps_require _ _) fun _ => Tx.keeps_bind (onPages_drafts _) fun _ => ?_
    refine Tx.keeps_bind (Tx.keeps_require _ _) fun _ => Tx.keeps_bind (Tx.keeps_orThrow _ _) fun _ => ?_
    exact Tx.keeps_bind (Tx.keeps_require _ _) fun _ => Tx.keeps_modify fun s => rfl
  | setFavorite page favorite =>
    refine Tx.keeps_bind (onPages_drafts _) fun _ => Tx.keeps_bind (onPages_drafts _) fun _ => ?_
    exact Tx.keeps_bind (Tx.keeps_require _ _) fun _ => Tx.keeps_modify fun s => rfl
  | bindPage subscription page =>
    refine Tx.keeps_bind (Tx.keeps_bind Tx.keeps_get fun _ => Tx.keeps_require _ _) fun _ => ?_
    refine Tx.keeps_bind (onPages_drafts _) fun _ => Tx.keeps_bind (onPages_drafts _) fun _ => ?_
    exact Tx.keeps_bind (Tx.keeps_require _ _) fun _ => Tx.keeps_modify fun s => rfl
  | unbindPage subscription =>
    refine Tx.keeps_bind (Tx.keeps_bind Tx.keeps_get fun _ => Tx.keeps_require _ _) fun _ => Tx.keeps_modify fun s => ?_
    dsimp only
    split <;> rfl

/-- A draft changes only through a request of its author that expects its revision. -/
theorem draft_step {l : SpaceLabel limits} {author : AccountId} (h : spaceStep limits accountOf s l = some s')
    (hchanged : s'.draft ns author id ≠ s.draft ns author id) :
    l.Replaces ns author id (s.stored ns author id) ∧ s'.stored ns author id = l.drawn := by
  cases h
  cases hrun : l.perform limits accountOf s with
  | error e =>
    rw [Tx.commit_of_error hrun] at hchanged
    exact absurd rfl hchanged
  | ok r =>
    obtain ⟨u, s'⟩ := r
    rw [Tx.commit_of_ok hrun] at hchanged ⊢
    obtain ⟨actor, ns', request⟩ := l
    have hkept : s'.drafts ≠ s.drafts := fun hsame => hchanged (congrArg (fun t => Table.lookup t (ns, author, id)) hsame)
    cases request with
    | saveDraft id' expected content drawn =>
      obtain ⟨row, s₁, hdraft, hpure⟩ := Tx.bind_ok.1 hrun
      cases hpure
      obtain ⟨-, ⟨rfl, -⟩ | ⟨hexpected, rfl, -, -, rfl⟩⟩ := saveDraft_ok hdraft
      · exact absurd rfl hkept
      · have hlookup : (s.drafts.insert (ns', actor, id') ⟨drawn, content⟩).lookup (ns, author, id) =
            if (ns, author, id) = (ns', actor, id') then some ⟨drawn, content⟩ else s.drafts.lookup (ns, author, id) :=
          Table.lookup_insert_if _ _ _ _
        by_cases hkey : (ns, author, id) = (ns', actor, id')
        · rw [if_pos hkey] at hlookup
          cases hkey
          refine ⟨⟨rfl, rfl, .inl ⟨content, drawn, ?_⟩⟩, congrArg (Option.map _) hlookup⟩
          rw [← hexpected]
          rfl
        · rw [if_neg hkey] at hlookup
          exact absurd hlookup hchanged
    | discardDraft id' expected =>
      obtain ⟨-, hexpected, rfl⟩ := discardDraft_ok hrun
      have hlookup : (s.drafts.erase (ns', actor, id')).lookup (ns, author, id) =
          if (ns, author, id) = (ns', actor, id') then none else s.drafts.lookup (ns, author, id) :=
        Table.lookup_erase_if _ _ _
      by_cases hkey : (ns, author, id) = (ns', actor, id')
      · rw [if_pos hkey] at hlookup
        cases hkey
        refine ⟨⟨rfl, rfl, .inr ?_⟩, congrArg (Option.map _) hlookup⟩
        cases hrow : s.draft ns author id with
        | none => exact absurd (hlookup.trans hrow.symm) hchanged
        | some row =>
          rw [WikiSpace.stored, hrow, Option.map_some, hexpected row hrow]
      · rw [if_neg hkey] at hlookup
        exact absurd hlookup hchanged
    | _ => exact absurd (perform_drafts _ (by simp) (by simp) s u s' hrun) hkept

theorem stored_step {l : SpaceLabel limits} {author : AccountId} {r : Nat} (h : spaceStep limits accountOf s l = some s')
    (hr : s'.stored ns author id = some r) : s.stored ns author id = some r ∨ l.drawn = some r := by
  by_cases hsame : s'.draft ns author id = s.draft ns author id
  · exact .inl ((congrArg (Option.map _) hsame).symm.trans hr)
  · exact .inr ((draft_step h hsame).2.symm.trans hr)

/-- A stored revision was there at the start or was drawn since. -/
theorem stored_run {as : List (SpaceLabel limits)} {author : AccountId} {r : Nat}
    (hrun : run (spaceStep limits accountOf) s as = some s') (hr : s'.stored ns author id = some r) :
    s.stored ns author id = some r ∨ r ∈ as.filterMap (·.drawn) := by
  induction as generalizing s with
  | nil =>
    cases hrun
    exact .inl hr
  | cons l as ih =>
    obtain ⟨s₁, hstep, hrun⟩ := run_cons.1 hrun
    rcases ih hrun with h | h
    · rcases stored_step hstep h with h | h
      · exact .inl h
      · exact .inr (List.mem_filterMap.2 ⟨l, List.mem_cons_self, h⟩)
    · obtain ⟨l', hmem, hdrawn⟩ := List.mem_filterMap.1 h
      exact .inr (List.mem_filterMap.2 ⟨l', List.mem_cons_of_mem l hmem, hdrawn⟩)

/-- Two requests that change a draft expect the revision that each of them replaces, and never the same one: what one of two
devices has written the other does not overwrite without having seen it. -/
theorem draft_once {as bs : List (SpaceLabel limits)} {l₁ l₂ : SpaceLabel limits} {s₁ s₂ s₃ s₄ : WikiSpace} {author : AccountId}
    (hnew : ((s₀.stored ns author id).toList ++ (as ++ l₁ :: bs).filterMap (·.drawn)).Nodup)
    (hrun₁ : run (spaceStep limits accountOf) s₀ as = some s₁) (hstep₁ : spaceStep limits accountOf s₁ l₁ = some s₂)
    (hrun₂ : run (spaceStep limits accountOf) s₂ bs = some s₃) (hstep₂ : spaceStep limits accountOf s₃ l₂ = some s₄)
    (hchanged₁ : s₂.draft ns author id ≠ s₁.draft ns author id)
    (hchanged₂ : s₄.draft ns author id ≠ s₃.draft ns author id) :
    l₁.Replaces ns author id (s₁.stored ns author id) ∧ l₂.Replaces ns author id (s₃.stored ns author id) ∧
      ∀ r, s₁.stored ns author id = some r → s₃.stored ns author id ≠ some r := by
  obtain ⟨hreplaces₁, hdrawn⟩ := draft_step hstep₁ hchanged₁
  refine ⟨hreplaces₁, (draft_step hstep₂ hchanged₂).1, fun r hr₁ hr₃ => ?_⟩
  have hbefore : r ∈ (s₀.stored ns author id).toList ++ as.filterMap (·.drawn) := by
    rw [List.mem_append, Option.mem_toList]
    exact stored_run hrun₁ hr₁
  have hafter : r ∈ (l₁ :: bs).filterMap (·.drawn) := by
    rcases stored_run hrun₂ hr₃ with h | h
    · exact List.mem_filterMap.2 ⟨l₁, List.mem_cons_self, hdrawn.symm.trans h⟩
    · obtain ⟨l, hmem, hl⟩ := List.mem_filterMap.1 h
      exact List.mem_filterMap.2 ⟨l, List.mem_cons_of_mem l₁ hmem, hl⟩
  rw [List.filterMap_append, ← List.append_assoc] at hnew
  exact (List.nodup_append.1 hnew).2.2 r hbefore r hafter rfl

namespace Sample

/-- The account 1 saves a draft. -/
def draftLabel (expected : Option Nat) (markdown : String) (drawn : Nat) : SpaceLabel wikiLimits :=
  ⟨⟨1⟩, 5, .saveDraft 7 expected ⟨none, none, "A", markdown⟩ drawn⟩

def draftSaved : WikiSpace := ((draftLabel none "a" 200).perform wikiLimits wikiAccounts).commit spaceEnd

def draftSavedAgain : WikiSpace := ((draftLabel (some 200) "b" 201).perform wikiLimits wikiAccounts).commit draftSaved

/-- The second text is saved over the first one. -/
theorem draft_once_saved :
    (draftLabel none "a" 200).Replaces 5 ⟨1⟩ 7 (spaceEnd.stored 5 ⟨1⟩ 7) ∧
      (draftLabel (some 200) "b" 201).Replaces 5 ⟨1⟩ 7 (draftSaved.stored 5 ⟨1⟩ 7) := by
  have h := @draft_once wikiLimits wikiAccounts {} 5 7 spaceRun [] (draftLabel none "a" 200) (draftLabel (some 200) "b" 201)
    spaceEnd draftSaved draftSaved draftSavedAgain ⟨1⟩ (by decide +kernel) spaceRun_ok rfl rfl rfl (by decide +kernel)
    (by decide +kernel)
  exact ⟨h.1, h.2.1⟩

end Sample

end Inoreader
