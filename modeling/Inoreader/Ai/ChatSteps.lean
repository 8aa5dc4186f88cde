import Inoreader.Ai.ChatRecords

/-!
# One change of a chat

`ChatChange` lists what a transaction can do to one chat: to its row and to the record in it. The operations
of the store are shown to do nothing else.
-/

namespace Inoreader
open Lib

/-! ## The changes of a record -/

theorem ArticleChat.mem_interrupt (view : ArticleChat) {c : ProviderCall} (hc : c ∈ view.providerCalls) :
    ∃ c' ∈ view.interrupt.providerCalls, ChatRecord.KeepsCall c c' := by
  refine ⟨_, List.mem_map_of_mem hc, ?_⟩
  split
  · rename_i hstarted
    exact ⟨rfl, rfl, rfl, fun hcompleted => by rw [hstarted] at hcompleted; cases hcompleted⟩
  · exact .refl c

theorem ArticleChat.keys_interrupt (view : ArticleChat) :
    view.interrupt.providerCalls.map (·.key) = view.providerCalls.map (·.key) := by
  simp only [ArticleChat.interrupt, List.map_map]
  refine List.map_congr_left fun c _ => ?_
  simp only [Function.comp_apply]
  split <;> rfl

/-- An attempt that goes on keeps its calls, one that ends interrupts them. -/
theorem ArticleChat.calls_of_next (next : ChatStatus) (view : ArticleChat) :
    ∃ calls, (if next.pending then view else view.interrupt) = { view with providerCalls := calls } ∧
      (∀ c ∈ view.providerCalls, ∃ c' ∈ calls, ChatRecord.KeepsCall c c') ∧
      calls.map (·.key) = view.providerCalls.map (·.key) := by
  split
  · exact ⟨view.providerCalls, rfl, fun c hc => ⟨c, hc, .refl c⟩, rfl⟩
  · exact ⟨view.interrupt.providerCalls, rfl, fun c hc => view.mem_interrupt hc, view.keys_interrupt⟩

theorem ArticleChat.setAttempt_ok {view view' : ArticleChat} {operations : List Operation} {state : MessageStatus}
    (h : view.setAttempt operations state = .ok view') :
    ∃ op messages, operations.getLast? = some op ∧
      modifyFirst (·.id == op.assistantId) (fun m => { m with status := state }) view.messages = some messages ∧
      view' = { view with messages := messages } := by
  unfold ArticleChat.setAttempt at h
  cases hlast : operations.getLast? with
  | none =>
    rw [hlast] at h
    cases h
  | some op =>
    rw [hlast] at h
    simp only at h
    split at h
    · rename_i messages hmessages
      cases h
      exact ⟨op, messages, rfl, hmessages, rfl⟩
    · cases h

namespace ChatRecord
variable {P : AiPlatform} {r r' : ChatRecord} {op : Operation}

theorem Good.ended (hg : r.Good) {status : ChatStatus} {error : Option String} (h : r.ended status error = .ok r') :
    ∃ op f, r.Touched r' op f ∧ (∀ m, (f m).status ≠ .complete) ∧ r'.view.status = status ∧ r'.inputs = r.inputs := by
  obtain ⟨view, hview, rfl⟩ := except_map_ok.1 h
  obtain ⟨op, messages, hlast, hmessages, rfl⟩ := ArticleChat.setAttempt_ok hview
  refine ⟨op, fun m => { m with status := .interrupted }, ?_, nofun, rfl, rfl⟩
  exact
    { last := hlast
      messages := hmessages
      inputs := .inl rfl
      calls := fun c hc => ArticleChat.mem_interrupt { r.view with status, error } hc
      callKeys := by
        have hkeys := ArticleChat.keys_interrupt { r.view with status, error }
        exact (congrArg List.Nodup hkeys).mpr hg.callKeys
      completed := nofun }

theorem Good.deferred (hg : r.Good) {reason : AiDeferral} {p : Progress} (h : r.progress.deferred reason = .ok p) :
    ∃ op f, r.Touched (r.withProgress p) op f ∧ (∀ m, (f m).status ≠ .complete) ∧ p.view.status = .queued := by
  obtain ⟨view, hview, rfl⟩ := except_map_ok.1 h
  obtain ⟨op, messages, hlast, hmessages, rfl⟩ := ArticleChat.setAttempt_ok hview
  refine ⟨op, fun m => { m with status := .pending }, ?_, nofun, rfl⟩
  exact
    { last := hlast
      messages := hmessages
      inputs := .inl rfl
      calls := fun c hc => ⟨c, hc, .refl c⟩
      callKeys := hg.callKeys
      completed := nofun }

theorem hasCall_false {view : ArticleChat} {assistant : Nat} {phase : GenerationPhase} :
    view.hasCall assistant phase = false ↔ (assistant, phase) ∉ view.providerCalls.map (·.key) := by
  simp only [ArticleChat.hasCall, List.any_eq_false, Bool.and_eq_true, beq_iff_eq, List.mem_map, ProviderCall.key,
    Prod.mk.injEq, not_exists, not_and]

theorem Good.began (hg : r.Good) (hlast : r.operations.getLast? = some op) {phase : GenerationPhase} {model : CallModel}
    {id : Nat} {p : Progress} (hnew : r.view.hasCall op.assistantId phase = false)
    (h : r.progress.begin op.assistantId phase model id = .ok p) :
    (∃ f, r.Touched (r.withProgress p) op f ∧ ∀ m, (f m).status = .streaming) ∧ p.view.status = phaseStatus phase ∧
      p.view.providerCalls = r.view.providerCalls ++
        [{ id, assistantId := op.assistantId, phase, status := .started, usage := none }] := by
  unfold Progress.begin at h
  simp only at h
  split at h
  · cases h
  · rename_i messages hmessages
    cases h
    refine ⟨⟨fun m => { m with phase := some phase, status := .streaming }, ?_, fun _ => rfl⟩, rfl, rfl⟩
    exact
      { last := hlast
        messages := hmessages
        inputs := .inl rfl
        calls := fun c hc => ⟨c, List.mem_append_left _ hc, .refl c⟩
        callKeys := by
          simp only [withProgress, ChatRecord.of, progress, List.map_append, List.map_cons, List.map_nil]
          refine List.Nodup.append hg.callKeys (by simp) ?_
          rw [List.disjoint_singleton]
          exact hasCall_false.1 hnew
        completed := nofun }

theorem Good.toVerifying (hg : r.Good) (hlast : r.operations.getLast? = some op) {p : Progress}
    (hopen : r.view.status ≠ .completed) (h : r.progress.toVerifying op.assistantId = .ok p) :
    (∃ f, r.Touched (r.withProgress p) op f ∧ ∀ m, (f m).status = m.status) ∧ p.view.status = .verifying := by
  unfold Progress.toVerifying at h
  split at h
  · rename_i messages hmessages
    cases h
    refine ⟨⟨fun m => { m with phase := some .verifying }, ?_, fun _ => rfl⟩, rfl⟩
    exact
      { last := hlast
        messages := hmessages
        inputs := .inl rfl
        calls := fun c hc => ⟨c, hc, .refl c⟩
        callKeys := hg.callKeys
        completed := fun m hm hid (hstatus : m.status = .complete) =>
          absurd hstatus (hg.open_of_last hopen hlast hm hid) }
  · cases h

/-- The record of `update_claim`; a snapshot comes only to a chat that has none. -/
theorem Good.updated (hg : r.Good) (hlast : r.operations.getLast? = some op) {next : ChatStatus}
    {content error : Option String} {snapshot : Option ArticleSnapshot} {p : Progress} {i : ChatInputs}
    (hinputs : i = r.inputs ∨ r.snapshot = none ∧ ∃ source, i = { r.inputs with snapshot := some source })
    (h : r.progress.updated op.assistantId next content snapshot error = .ok p) :
    r.Touched (.of p i) op (fun m => { m with content := content.getD m.content, status := next.messageStatus }) ∧
      p.view.status = next := by
  unfold Progress.updated at h
  simp only at h
  obtain ⟨calls, hcalls, hkeep, hkeys⟩ := ArticleChat.calls_of_next next { r.view with
    title := (snapshot.map ArticleSnapshot.title).getD r.view.title
    sourceUrl := (snapshot.map ArticleSnapshot.sourceUrl).getD r.view.sourceUrl
    status := next
    error := error }
  rw [show r.progress.view = r.view from rfl, hcalls] at h
  split at h
  · rename_i messages hmessages
    cases h
    refine ⟨?_, rfl⟩
    exact
      { last := hlast
        messages := hmessages
        inputs := hinputs
        calls := hkeep
        callKeys := (congrArg List.Nodup hkeys).mpr hg.callKeys
        completed := fun m _ _ hstatus => by cases next <;> first | rfl | cases hstatus }
  · cases h

theorem Good.published (hg : r.Good) (hlast : r.operations.getLast? = some op) {content : String} {p : Progress}
    (h : r.progress.publishUnchecked op.assistantId content = .ok p) :
    r.Touched (r.withProgress p) op
      (fun m => { m with content := content, phase := some .generating, status := .complete }) ∧
      p.view.status = .completed := by
  unfold Progress.publishUnchecked at h
  split at h
  · rename_i messages hmessages
    cases h
    refine ⟨?_, rfl⟩
    exact
      { last := hlast
        messages := hmessages
        inputs := .inl rfl
        calls := fun c hc => ⟨c, hc, .refl c⟩
        callKeys := hg.callKeys
        completed := fun _ _ _ _ => rfl }
  · cases h

theorem nextTask_ok {p : Progress} {kind : OperationKind} {task : AttemptTask} (h : p.nextTask kind = .ok task) :
    task = .reply ∨ ∃ old ∈ p.operations, old.task = task := by
  cases kind with
  | start regenerate => cases h
  | message content =>
    simp only [Progress.nextTask] at h
    split at h
    · cases h
      exact .inl rfl
    · cases h
  | retry =>
    simp only [Progress.nextTask] at h
    split at h
    · rename_i op hop
      cases h
      exact .inr ⟨op, List.mem_of_getLast? hop, rfl⟩
    · cases h

theorem userMessages_ok {p : Progress} {kind : OperationKind} {user : Nat} {now : DateTime} {users : List ChatMessage}
    (h : p.userMessages kind user now = .ok users) :
    users = [] ∨ ∃ content, users =
      [{ id := user, role := .user, content, status := .complete, createdAt := now, phase := none, purpose := none }] := by
  cases kind with
  | start regenerate => cases h
  | message content =>
    cases h
    exact .inr ⟨content, rfl⟩
  | retry =>
    simp only [Progress.userMessages] at h
    split at h
    · cases h
      exact .inl rfl
    · cases h

/-- A command grows the record, if its ids are fresh. -/
theorem Good.appended (hg : r.Good) {operation user assistant : Nat} {kind : OperationKind} {now : DateTime}
    (huser : user ∉ r.view.messages.map (·.id)) (hassistant : assistant ∉ r.view.messages.map (·.id))
    (hne : user ≠ assistant) (hoperation : operation ∉ r.operations.map (·.id))
    (h : r.appended operation kind user assistant now = .ok r') :
    ∃ task users, r.Grown r' { id := operation, kind, assistantId := assistant, task } users now ∧
      (∀ m ∈ users, m.id = user) ∧ r'.view.status.pending = true := by
  unfold ChatRecord.appended at h
  cases htask : r.progress.nextTask kind with
  | error e =>
    rw [htask] at h
    cases h
  | ok task =>
    cases husers : r.progress.userMessages kind user now with
    | error e =>
      rw [htask, husers] at h
      cases h
    | ok users =>
      rw [htask, husers] at h
      cases h
      have hcases := userMessages_ok husers
      refine ⟨task, users, ?_, ?_, ?_⟩
      · exact
          { messages := rfl
            operations := rfl
            users := by
              intro m hm
              rcases hcases with rfl | ⟨content, rfl⟩
              · cases hm
              · rw [List.mem_singleton.1 hm]
            task := nextTask_ok htask
            messageIds := by
              rcases hcases with rfl | ⟨content, rfl⟩
              · simp only [List.append_nil, List.map_append, List.map_cons, List.map_nil]
                refine List.Nodup.append hg.messageIds (by simp) ?_
                rw [List.disjoint_singleton]
                exact hassistant
              · simp only [List.append_assoc, List.map_append, List.map_cons, List.map_nil, List.cons_append,
                  List.nil_append]
                refine List.Nodup.append hg.messageIds (by simpa [newAttempt] using hne) ?_
                rw [List.disjoint_cons_right, List.disjoint_singleton]
                exact ⟨huser, hassistant⟩
            operationId := hoperation
            calls := rfl
            owner := rfl
            key := rfl
            workspace := rfl
            article := rfl
            inputs := rfl }
      · intro m hm
        rcases hcases with rfl | ⟨content, rfl⟩
        · cases hm
        · rw [List.mem_singleton.1 hm]
      · simp only
        split <;> rfl

/-! ## Reports -/

theorem attachDraft_ok {state state' : LockedProgress} {claim : ClaimedChat} {assistant : Nat} {call : ProviderCall}
    {status : CallStatus} {draft : String} (h : state.attachDraft P claim assistant call status draft = .ok state') :
    status = .completed ∧ ∃ source content op saved operations messages, claim.record.snapshot = some source ∧
      P.segments source.text claim.record.limits.maxResponseBytes draft = .ok content ∧
      state.record.operations.find? (·.assistantId == assistant) = some op ∧ op.task = .summary saved ∧
      (∀ old, saved = some old → old = draft) ∧
      modifyFirst (·.assistantId == assistant) (fun op => { op with task := .summary (some draft) })
        state.record.operations = some operations ∧
      modifyFirst (·.id == assistant) (fun m => { m with content := content }) state.published.messages = some messages ∧
      state' = { record := { state.record with operations := operations }
                 published := { state.published with messages := messages } } := by
  unfold LockedProgress.attachDraft at h
  split at h
  · cases h
  · rename_i hstatus
    simp only [not_or, not_not] at hstatus
    split at h
    · rename_i source usage hsource husage
      split at h
      · cases h
      · rename_i content hcontent
        split at h
        · rename_i op hop
          split at h
          · cases h
          · rename_i saved htask
            split at h
            · cases h
            · rename_i hsaved
              split at h
              · rename_i operations messages hops hmessages
                cases h
                refine ⟨hstatus.1, source, content, op, saved, operations, messages, hsource, hcontent, hop, htask, ?_, hops,
                  hmessages, rfl⟩
                intro old hold
                rw [hold] at hsaved
                simpa using hsaved
              · cases h
        · cases h
    · cases h

end ChatRecord

/-- The claim of a worker was made of an earlier state of the chat; its snapshot, once there, is the chat's. -/
structure ClaimedChat.Of (claim : ClaimedChat) (r : ChatRecord) : Prop where
  owner : claim.record.owner = r.owner
  key : claim.record.view.id = r.view.id
  snapshot : ∀ source, claim.record.snapshot = some source → r.snapshot = some source
  limits : claim.record.limits = r.limits
  attempt : ∃ claimed op, claim.record.operations.getLast? = some claimed ∧ op ∈ r.operations ∧ op.id = claimed.id ∧
    op.assistantId = claimed.assistantId

namespace ChatRecord

variable {P : AiPlatform} {r : ChatRecord}

/-- `update` changes the call that it names and may give its attempt a draft. -/
theorem reported_of_updateCall {published : ArticleChat} {claim : ClaimedChat} {id assistant : Nat}
    {call call' : ProviderCall} {update : CallUpdate} {state state' : LockedProgress} (hclaim : claim.Of r)
    (hpreviews : r.Previews P published)
    (hfind : r.view.providerCalls.find? (ProviderCall.isCall id assistant) = some call)
    (hupdate : LockedProgress.updateCall P { record := r.progress, published } claim assistant call update =
      .ok (state, call'))
    (hset : state.setCall id assistant call' = .ok state') :
    ∃ r₁, state'.record = r₁.progress ∧ r.Reported r₁ id assistant call call' ∧ r₁.Previews P state'.published := by
  -- the call after the update, and the state that carries a draft
  have hcall : call' = { call with usage := call'.usage, status := call'.status } ∧
      (call.status = .completed → call'.status = .completed) ∧
      (state = { record := r.progress, published } ∨
        ∃ draft status, LockedProgress.attachDraft P { record := r.progress, published } claim assistant call status draft =
          .ok state) := by
    cases update with
    | response content system =>
      cases hupdate
      exact ⟨rfl, fun h => h, .inl rfl⟩
    | usage usage =>
      simp only [LockedProgress.updateCall] at hupdate
      split at hupdate
      · cases hupdate
      · cases hupdate
        exact ⟨rfl, fun h => h, .inl rfl⟩
    | finished status draft =>
      simp only [LockedProgress.updateCall] at hupdate
      split at hupdate
      · cases hupdate
      · split at hupdate
        · cases hupdate
        · rename_i hkeep
          have hcompleted : call.status = .completed → status = .completed := by
            intro h
            by_contra hne
            exact hkeep ⟨.inl h, fun e => hne (e ▸ h)⟩
          cases draft with
          | none =>
            cases hupdate
            exact ⟨rfl, hcompleted, .inl rfl⟩
          | some draft =>
            obtain ⟨s, hattach, heq⟩ := except_map_ok.1 hupdate
            cases heq
            exact ⟨rfl, hcompleted, .inr ⟨draft, status, hattach⟩⟩
  obtain ⟨hsame, hcompleted, hstate⟩ := hcall
  unfold LockedProgress.setCall at hset
  split at hset
  · rename_i calls hcalls
    cases hset
    rcases hstate with rfl | ⟨draft, status, hattach⟩
    · refine ⟨{ r with view := { r.view with providerCalls := calls } }, rfl, ?_, ?_⟩
      · exact ⟨hfind, hsame, hcompleted, hcalls, .inl rfl, rfl⟩
      · exact hpreviews.mono (fun m hm hp hs => ⟨m, hm, rfl, hp, hs⟩) fun _ _ h => h
    · obtain ⟨-, source, content, op, saved, operations, messages, hsource, hcontent, hop, htask, hsaved, hops, hmessages,
        rfl⟩ := attachDraft_ok hattach
      have hsnapshot := hclaim.snapshot source hsource
      rw [hclaim.limits] at hcontent
      refine ⟨{ r with view := { r.view with providerCalls := calls }, operations := operations }, rfl, ?_, ?_⟩
      · refine ⟨hfind, hsame, hcompleted, hcalls, .inr ⟨draft, op, saved, ?_, hop, htask, hsaved, hops⟩, rfl⟩
        rw [hsnapshot]
        rfl
      · exact Previews.draft hpreviews rfl rfl hops hsnapshot hcontent hmessages
  · cases hset

end ChatRecord
end Inoreader
