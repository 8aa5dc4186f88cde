import Inoreader.Ai.ChatWorld

/-!
# Checked summaries

Content, draft, call status and retained response are written by separate transactions. The invariant ties them
together: a complete summary is what a completed review of its own attempt made of the draft of the attempt, or it
was published by `finish_unchecked`. Reports of late workers only add drafts and responses where there were none.
-/

namespace Inoreader
open Lib

/-- Where the complete summaries come from; `published` are the chats and attempts of `finish_unchecked`. -/
def AiDb.Reviewed (P : AiPlatform) (db : AiDb) (published : List (Nat × Nat)) : Prop :=
  ∀ id row r, db.chats.lookup id = some row → row.Holds P id r → ∀ m ∈ r.view.messages, m.purpose = some .summary →
    m.status = .complete → r.Checked P (db.responseOf r.owner) m ∨ (id, m.id) ∈ published ∧ r.Unchecked P m

section
variable {P : AiPlatform} {now : DateTime} {ids : List Nat} {allowed : Nat → ChatCause → Prop} {db db' : AiDb}
  {published published' : List (Nat × Nat)}

theorem AiDb.responseOf_mono (h : ∀ k v, db.callResponses.lookup k = some v → db'.callResponses.lookup k = some v)
    (owner : AccountId) (id : Nat) (raw : String) (hraw : db.responseOf owner id = some raw) :
    db'.responseOf owner id = some raw := by
  unfold AiDb.responseOf at hraw ⊢
  cases hlookup : db.callResponses.lookup id with
  | none =>
    rw [hlookup] at hraw
    cases hraw
  | some v =>
    rw [hlookup] at hraw
    rw [h id v hlookup]
    exact hraw

/-- A chat that a step does not change keeps its reviews. -/
theorem AiDb.Reviewed.kept (h : db.Reviewed P published) (hsub : published ⊆ published')
    (hresponses : ∀ k v, db.callResponses.lookup k = some v → db'.callResponses.lookup k = some v) {id : Nat}
    {row : ChatRow} {r : ChatRecord} (hlookup : db.chats.lookup id = some row) (hrow : row.Holds P id r)
    (m : ChatMessage) (hm : m ∈ r.view.messages) (hpurpose : m.purpose = some .summary) (hcomplete : m.status = .complete) :
    r.Checked P (db'.responseOf r.owner) m ∨ (id, m.id) ∈ published' ∧ r.Unchecked P m := by
  rcases h id row r hlookup hrow m hm hpurpose hcomplete with hchecked | ⟨hmem, hunchecked⟩
  · exact .inl ((ChatRecord.Extends.refl r).checked (db.responseOf_mono hresponses r.owner) hchecked)
  · exact .inr ⟨hsub hmem, hunchecked⟩

theorem AiDb.Move.reviewed (hmove : db.Move P now ids allowed db') (hsub : published ⊆ published')
    (hallowed : ∀ id lease attempt, allowed id (.unchecked lease attempt) → (id, attempt) ∈ published')
    (h : db.Reviewed P published) : db'.Reviewed P published' := by
  intro id row r hlookup hrow m hm hpurpose hcomplete
  cases hmove with
  | still chats _ responses =>
    rw [chats] at hlookup
    exact h.kept hsub responses hlookup hrow m hm hpurpose hcomplete
  | @new id' row' r' _ sound messages chats _ responses =>
    rw [chats, Table.lookup_insert_if] at hlookup
    split at hlookup
    · rename_i hk
      cases hlookup
      obtain rfl := (hk ▸ sound.holds : row.Holds P id r').unique hrow
      exact absurd hcomplete (messages m hm).2
    · exact h.kept hsub responses hlookup hrow m hm hpurpose hcomplete
  | @change id' cause row' row'' r' r'' hcause hchanges =>
    rw [hchanges.chats, Table.lookup_insert_if] at hlookup
    split at hlookup
    · rename_i hk
      subst hk
      cases hlookup
      obtain rfl := (hchanges.change.holds hchanges.sound).unique hrow
      have hext := hchanges.change.extended hchanges.sound
      have hmono := db.responseOf_mono hchanges.responses r'.owner
      rw [hext.owner]
      rcases hchanges.change.provenance hchanges.sound hm hpurpose hcomplete with hold | hchecked | ⟨lease, rfl, hunchecked⟩
      · -- the summary was complete before: nothing that it rests on is taken back
        rcases h id row' r' hchanges.lookup hchanges.sound.holds m hold hpurpose hcomplete with hchecked | ⟨hmem, hunchecked⟩
        · exact .inl (hext.checked hmono hchecked)
        · exact .inr ⟨hsub hmem, hext.unchecked hunchecked⟩
      · exact .inl ((ChatRecord.Extends.refl r).checked hmono hchecked)
      · exact .inr ⟨hallowed id lease m.id hcause, hunchecked⟩
    · exact h.kept hsub hchanges.responses hlookup hrow m hm hpurpose hcomplete

theorem AiDb.Moves.reviewed (hmoves : AiDb.Moves P now ids allowed db db') (hsub : published ⊆ published')
    (hallowed : ∀ id lease attempt, allowed id (.unchecked lease attempt) → (id, attempt) ∈ published')
    (h : db.Reviewed P published) : db'.Reviewed P published' := by
  induction hmoves with
  | refl =>
    exact fun id row r hlookup hrow => h.kept hsub (fun _ _ hv => hv) hlookup hrow
  | tail _ hmove ih => exact hmove.reviewed (List.Subset.refl _) hallowed ih

end

namespace ChatWorld
variable {P : AiPlatform} {w w' : ChatWorld} {a : ChatLabel}

/-- The attempts that a worker publishes without a review are recorded. -/
theorem work_unchecked {lease : Nat} {claim : ClaimedChat} (hinv : w.Inv P) (hclaim : w.claims.lookup lease = some claim)
    (hworker : a.worker = some lease) (h : (w.draw a.ids).work P claim a = some w') : w.unchecked ⊆ w'.unchecked ∧
      (w'.db = w.db ∨ ∀ id lease attempt, w.Allows P a id (.unchecked lease attempt) → (id, attempt) ∈ w'.unchecked) := by
  cases a with
  | begin l phase reservation model call =>
    unfold work at h
    simp only at h
    split at h <;> cases h <;> exact ⟨List.Subset.refl _, .inr fun _ _ _ hallows => by cases hallows⟩
  | update l call update =>
    unfold work at h
    simp only at h
    split at h <;> cases h
    exact ⟨List.Subset.refl _, .inr fun _ _ _ hallows => by cases hallows⟩
  | updateClaim l next content snapshot error =>
    unfold work at h
    simp only at h
    split at h <;> cases h <;> exact ⟨List.Subset.refl _, .inr fun _ _ _ hallows => by cases hallows⟩
  | finishUnchecked l =>
    cases hworker
    unfold work at h
    simp only at h
    cases hfinish : Inoreader.finishUnchecked P claim w.clock w.db with
    | error e =>
      simp only [draw, hfinish] at h
      cases h
      exact ⟨List.Subset.refl _, .inl rfl⟩
    | ok x =>
      obtain ⟨b, db⟩ := x
      rcases finishUnchecked_ok hinv.sound (hinv.fits hclaim) hfinish with ⟨rfl, rfl⟩ | ⟨-, -, -, -, -, -, rfl, -⟩
      · simp only [draw, hfinish] at h
        cases h
        exact ⟨List.Subset.refl _, .inl rfl⟩
      · simp only [draw, hfinish] at h
        cases h
        refine ⟨List.subset_cons_self _ _, .inr fun id l attempt hallows => ?_⟩
        obtain ⟨claim', hclaim', hid, hcause⟩ := hallows
        rw [hclaim] at hclaim'
        cases hclaim'
        cases hcause
        rw [← hid]
        exact List.mem_cons_self
  | defer l reason =>
    cases h
    refine ⟨List.Subset.refl _, .inr fun id l attempt hallows => ?_⟩
    obtain ⟨-, -, -, hcause⟩ := hallows
    cases hcause
  | _ => cases hworker

theorem step_unchecked (hinv : w.Inv P) (h : step P w a = some w') : w.unchecked ⊆ w'.unchecked ∧
    (w'.db = w.db ∨ ∀ id lease attempt, w.Allows P a id (.unchecked lease attempt) → (id, attempt) ∈ w'.unchecked) := by
  rcases step_cases h with ⟨hworker, -, h⟩ | ⟨lease, claim, hworker, hclaim, h⟩
  · refine ⟨(act_ghosts h).2.symm ▸ List.Subset.refl _, .inr fun id lease attempt hallows => ?_⟩
    cases a <;> simp_all [Allows, ChatLabel.worker]
  · exact work_unchecked hinv hclaim hworker h

theorem reviewed_step (hinv : w.Inv P) (h : step P w a = some w') (hreviewed : w.db.Reviewed P w.unchecked) :
    w'.db.Reviewed P w'.unchecked := by
  obtain ⟨hsub, heq | hallowed⟩ := step_unchecked hinv h
  · intro id row r hlookup hrow
    rw [heq] at hlookup ⊢
    exact hreviewed.kept hsub (fun _ _ hv => hv) hlookup hrow
  · exact AiDb.Moves.reviewed (step_stepped hinv h).moves hsub hallowed hreviewed

theorem reviewed_run {as : List ChatLabel} (hinv : w.Inv P) (hrun : run (step P) w as = some w')
    (hreviewed : w.db.Reviewed P w.unchecked) : w'.db.Reviewed P w'.unchecked := by
  induction as generalizing w with
  | nil =>
    cases hrun
    exact hreviewed
  | cons a as ih =>
    obtain ⟨w₁, hstep, hrun⟩ := run_cons.1 hrun
    exact ih (hinv.step hstep) hrun (reviewed_step hinv hstep hreviewed)

/-- Every complete summary was checked or published by `finish_unchecked`, and no complete message changes. -/
theorem complete_summary_checked (P : AiPlatform) {db : AiDb} {clock : DateTime} {as : List ChatLabel} {w : ChatWorld}
    (hdb : db.chats = ∅) (hrun : run (step P) (start db clock) as = some w) :
    ∀ id row r, w.db.chats.lookup id = some row → ChatDocument.decode row.document row.inputs = .ok r →
      (∀ m ∈ r.view.messages, m.purpose = some .summary → m.status = .complete →
        r.Checked P (w.db.responseOf r.owner) m ∨ (id, m.id) ∈ w.unchecked ∧ r.Unchecked P m) ∧
      ∀ bs w', run (step P) w bs = some w' → ∃ row' r', w'.db.chats.lookup id = some row' ∧
        ChatDocument.decode row'.document row'.inputs = .ok r' ∧
        ∀ m ∈ r.view.messages, m.status = .complete →
          m ∈ r'.view.messages ∧ ∀ m' ∈ r'.view.messages, m'.id = m.id → m' = m := by
  intro id row r hlookup hdecode
  have hinv := inv_run (inv_start hdb clock) hrun
  have hempty : (start db clock).db.Reviewed P [] := by
    intro id row r hlookup
    simp [start, hdb] at hlookup
  have hreviewed := reviewed_run (inv_start hdb clock) hrun hempty
  obtain ⟨r₁, hs⟩ := hinv.sound id row hlookup
  obtain rfl : r₁ = r := Except.ok.inj (hs.holds.decode.symm.trans hdecode)
  refine ⟨hreviewed id row r₁ hlookup hs.holds, fun bs w' hbs => ?_⟩
  obtain ⟨row', r', hlookup', hrow', hext, -⟩ := (evolves_run hinv hbs).chats id row r₁ hlookup hs.holds
  obtain ⟨r₂, hs'⟩ := (inv_run hinv hbs).sound id row' hlookup'
  obtain rfl := hs'.holds.unique hrow'
  refine ⟨row', r', hlookup', hrow'.decode, fun m hm hcomplete => ?_⟩
  have hm' := hext.complete m hm hcomplete
  exact ⟨hm', fun m'' hm'' hid => List.inj_on_of_nodup_map hs'.good.messageIds hm'' hm' hid⟩

open Sample in
/-- The reviewed summary of the small run stays. -/
theorem complete_summary_checked_reviewed : ∃ row r m, (chatEnd reviewedRun).db.chats.lookup 100 = some row ∧
    ChatDocument.decode row.document row.inputs = .ok r ∧ r.view.messages = [m] ∧ m.content = "draft" ∧
    r.Checked aiPlatform ((chatEnd reviewedRun).db.responseOf r.owner) m ∧
    ∀ bs w', run (step aiPlatform) (chatEnd reviewedRun) bs = some w' → ∃ row' r', w'.db.chats.lookup 100 = some row' ∧
      ChatDocument.decode row'.document row'.inputs = .ok r' ∧ m ∈ r'.view.messages := by
  have hrun : run (step aiPlatform) (start chatDb 0) reviewedRun = some (chatEnd reviewedRun) :=
    run_getD (by decide +kernel) _
  have hlast : ((chatEnd reviewedRun).db.chats.lookup 100).map (fun row =>
      (ChatDocument.decode row.document row.inputs).map fun r => r.view.messages.map fun m =>
        (m.content, m.status, m.purpose)) = some (.ok [("draft", .complete, some .summary)]) := by
    decide +kernel
  obtain ⟨row, hlookup, hmap⟩ := Option.map_eq_some_iff.1 hlast
  obtain ⟨r, hdecode, hmessages⟩ := except_map_ok.1 hmap
  obtain ⟨m, hm, hfields⟩ := List.map_eq_singleton_iff.1 hmessages
  obtain ⟨hchecked, hfinal⟩ := complete_summary_checked aiPlatform rfl hrun 100 row r hlookup hdecode
  have hmem : m ∈ r.view.messages := by simp [hm]
  simp only [Prod.mk.injEq] at hfields
  have hnone : (chatEnd reviewedRun).unchecked = [] := by decide +kernel
  refine ⟨row, r, m, hlookup, hdecode, hm, hfields.1, ?_, fun bs w' hbs => ?_⟩
  · rcases hchecked m hmem hfields.2.2 hfields.2.1 with hchecked | ⟨hpublished, -⟩
    · exact hchecked
    · rw [hnone] at hpublished
      cases hpublished
  · obtain ⟨row', r', hlookup', hdecode', hkept⟩ := hfinal bs w' hbs
    exact ⟨row', r', hlookup', hdecode', (hkept m hmem hfields.2.1).1⟩

end ChatWorld
end Inoreader
