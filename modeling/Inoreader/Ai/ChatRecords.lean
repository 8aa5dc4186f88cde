import Inoreader.Ai.ChatState

/-!
# How the record of a chat evolves

Every write of a chat does one of three things to its record. `Touched`: the message of the last attempt
changes, with the status of the chat. `Reported`: one call changes and its attempt may get a draft. `Grown`: a
command appends an attempt. `Good` is what the record keeps through all of them, `Extends` what no write takes
back: complete messages, drafts, completed calls and the snapshot.
-/

namespace Inoreader
open Lib

/-- The key under which a call is admitted. -/
def ProviderCall.key (c : ProviderCall) : Nat × GenerationPhase := (c.assistantId, c.phase)

namespace ChatRecord

structure Good (r : ChatRecord) : Prop where
  messageIds : (r.view.messages.map (·.id)).Nodup
  attemptIds : (r.operations.map (·.assistantId)).Nodup
  operationIds : (r.operations.map (·.id)).Nodup
  callKeys : (r.view.providerCalls.map (·.key)).Nodup
  operations : r.operations ≠ []
  /-- Every attempt has its message. -/
  attempt : ∀ op ∈ r.operations, ∃ m ∈ r.view.messages, m.id = op.assistantId ∧ m.purpose = some op.task.purpose
  /-- Every summary has its attempt. -/
  summary : ∀ m ∈ r.view.messages, m.purpose = some .summary → ∃ op ∈ r.operations, op.assistantId = m.id
  drafts : ∀ op ∈ r.operations, ∀ draft, op.task = .summary (some draft) → r.snapshot.isSome = true
  /-- The last attempt is complete only in a completed chat. -/
  last : ∀ op, r.operations.getLast? = some op → ∀ m ∈ r.view.messages, m.id = op.assistantId →
    m.status = .complete → r.view.status = .completed

/-- What no write takes back of a call. -/
structure KeepsCall (c c' : ProviderCall) : Prop where
  id : c'.id = c.id
  assistantId : c'.assistantId = c.assistantId
  phase : c'.phase = c.phase
  completed : c.status = .completed → c'.status = .completed

/-- The inputs stay, or a missing snapshot is set. -/
def PinsInputs (r r' : ChatRecord) : Prop :=
  r'.inputs = r.inputs ∨ r.snapshot = none ∧ ∃ source, r'.inputs = { r.inputs with snapshot := some source }

structure Extends (r r' : ChatRecord) : Prop where
  owner : r'.owner = r.owner
  key : r'.view.id = r.view.id
  workspace : r'.view.workspaceId = r.view.workspaceId
  article : r'.view.articleId = r.view.articleId
  inputs : r.PinsInputs r'
  complete : ∀ m ∈ r.view.messages, m.status = .complete → m ∈ r'.view.messages
  operations : ∀ op ∈ r.operations, ∃ op' ∈ r'.operations, op'.id = op.id ∧ op'.assistantId = op.assistantId ∧
    ∀ draft, op.task = .summary (some draft) → op'.task = op.task
  calls : ∀ c ∈ r.view.providerCalls, ∃ c' ∈ r'.view.providerCalls, KeepsCall c c'

variable {P : AiPlatform} {r r' r'' : ChatRecord}

theorem PinsInputs.snapshot (h : r.PinsInputs r') {source : ArticleSnapshot} (hs : r.snapshot = some source) :
    r'.snapshot = some source := by
  rcases h with h | ⟨hnone, -⟩
  · exact (congrArg ChatInputs.snapshot h).trans hs
  · rw [hnone] at hs
    cases hs

theorem PinsInputs.limits (h : r.PinsInputs r') : r'.limits = r.limits := by
  rcases h with h | ⟨-, source, h⟩
  · exact congrArg ChatInputs.limits h
  · exact congrArg ChatInputs.limits h

theorem PinsInputs.isSome (h : r.PinsInputs r') (hs : r.snapshot.isSome = true) : r'.snapshot.isSome = true := by
  obtain ⟨source, hsource⟩ := Option.isSome_iff_exists.1 hs
  rw [h.snapshot hsource]
  rfl

theorem PinsInputs.trans (h : r.PinsInputs r') (h' : r'.PinsInputs r'') : r.PinsInputs r'' := by
  rcases h with h | ⟨hnone, source, h⟩
  · rcases h' with h' | ⟨hnone', source', h'⟩
    · exact .inl (h'.trans h)
    · exact .inr ⟨(congrArg ChatInputs.snapshot h).symm.trans hnone', source', by rw [h', h]⟩
  · rcases h' with h' | ⟨hnone', -⟩
    · exact .inr ⟨hnone, source, h'.trans h⟩
    · have hsome : r'.snapshot = some source := congrArg ChatInputs.snapshot h
      rw [hsome] at hnone'
      cases hnone'

theorem KeepsCall.refl (c : ProviderCall) : KeepsCall c c := ⟨rfl, rfl, rfl, fun h => h⟩

theorem KeepsCall.trans {c c' c'' : ProviderCall} (h : KeepsCall c c') (h' : KeepsCall c' c'') : KeepsCall c c'' :=
  ⟨h'.id.trans h.id, h'.assistantId.trans h.assistantId, h'.phase.trans h.phase, fun e => h'.completed (h.completed e)⟩

theorem KeepsCall.key {c c' : ProviderCall} (h : KeepsCall c c') : c'.key = c.key := by
  unfold ProviderCall.key
  rw [h.assistantId, h.phase]

theorem Extends.refl (r : ChatRecord) : r.Extends r where
  owner := rfl
  key := rfl
  workspace := rfl
  article := rfl
  inputs := .inl rfl
  complete := fun _ hm _ => hm
  operations := fun op hop => ⟨op, hop, rfl, rfl, fun _ _ => rfl⟩
  calls := fun c hc => ⟨c, hc, .refl c⟩

theorem Extends.trans (h : r.Extends r') (h' : r'.Extends r'') : r.Extends r'' where
  owner := h'.owner.trans h.owner
  key := h'.key.trans h.key
  workspace := h'.workspace.trans h.workspace
  article := h'.article.trans h.article
  inputs := h.inputs.trans h'.inputs
  complete := fun m hm hstatus => h'.complete m (h.complete m hm hstatus) hstatus
  operations := fun op hop => by
    obtain ⟨op', hop', hid, hassistant, htask⟩ := h.operations op hop
    obtain ⟨op'', hop'', hid', hassistant', htask'⟩ := h'.operations op' hop'
    refine ⟨op'', hop'', hid'.trans hid, hassistant'.trans hassistant, fun draft hdraft => ?_⟩
    have heq := htask draft hdraft
    rw [htask' draft (heq.trans hdraft), heq]
  calls := fun c hc => by
    obtain ⟨c', hc', hkeep⟩ := h.calls c hc
    obtain ⟨c'', hc'', hkeep'⟩ := h'.calls c' hc'
    exact ⟨c'', hc'', hkeep.trans hkeep'⟩

/-! ## The last attempt -/

/-- The message of the last attempt `op` is changed by `f`; the attempts stay. -/
structure Touched (r r' : ChatRecord) (op : Operation) (f : ChatMessage → ChatMessage) : Prop where
  last : r.operations.getLast? = some op
  messages : modifyFirst (·.id == op.assistantId) f r.view.messages = some r'.view.messages
  id : ∀ m, (f m).id = m.id := by intro _; rfl
  purpose : ∀ m, (f m).purpose = m.purpose := by intro _; rfl
  operations : r'.operations = r.operations := by rfl
  owner : r'.owner = r.owner := by rfl
  key : r'.view.id = r.view.id := by rfl
  workspace : r'.view.workspaceId = r.view.workspaceId := by rfl
  article : r'.view.articleId = r.view.articleId := by rfl
  inputs : r.PinsInputs r'
  calls : ∀ c ∈ r.view.providerCalls, ∃ c' ∈ r'.view.providerCalls, KeepsCall c c'
  callKeys : (r'.view.providerCalls.map (·.key)).Nodup
  /-- A complete attempt completes the chat. -/
  completed : ∀ m ∈ r.view.messages, m.id = op.assistantId → (f m).status = .complete → r'.view.status = .completed

section Touched
variable {op : Operation} {f : ChatMessage → ChatMessage}

theorem Good.open_of_last (h : r.Good) (hopen : r.view.status ≠ .completed) (hlast : r.operations.getLast? = some op)
    {m : ChatMessage} (hm : m ∈ r.view.messages) (hid : m.id = op.assistantId) : m.status ≠ .complete :=
  fun hstatus => hopen (h.last op hlast m hm hid hstatus)

theorem Touched.mem (ht : r.Touched r' op f) {m' : ChatMessage} (hm' : m' ∈ r'.view.messages) :
    m' ∈ r.view.messages ∨ ∃ m ∈ r.view.messages, m.id = op.assistantId ∧ m' = f m := by
  rcases mem_modifyFirst ht.messages hm' with hm | ⟨m, hm, hid, rfl⟩
  · exact .inl hm
  · exact .inr ⟨m, hm, by simpa using hid, rfl⟩

theorem Good.touched (h : r.Good) (ht : r.Touched r' op f) (hopen : r.view.status ≠ .completed) : r'.Good where
  messageIds := by
    rw [map_modifyFirst (fun m _ => ht.id m) ht.messages]
    exact h.messageIds
  attemptIds := ht.operations ▸ h.attemptIds
  operationIds := ht.operations ▸ h.operationIds
  callKeys := ht.callKeys
  operations := ht.operations ▸ h.operations
  attempt := by
    intro o ho
    rw [ht.operations] at ho
    obtain ⟨m, hm, hid, hpurpose⟩ := h.attempt o ho
    have hmap : r'.view.messages.map (fun m => (m.id, m.purpose)) = r.view.messages.map fun m => (m.id, m.purpose) :=
      map_modifyFirst (fun m _ => by rw [ht.id, ht.purpose]) ht.messages
    have hmem : (m.id, m.purpose) ∈ r'.view.messages.map fun m => (m.id, m.purpose) := by
      rw [hmap]
      exact List.mem_map_of_mem hm
    obtain ⟨m', hm', heq⟩ := List.mem_map.1 hmem
    rw [Prod.mk.injEq] at heq
    exact ⟨m', hm', heq.1.trans hid, heq.2.trans hpurpose⟩
  summary := by
    intro m' hm' hpurpose
    rw [ht.operations]
    rcases ht.mem hm' with hm | ⟨m, hm, -, rfl⟩
    · exact h.summary m' hm hpurpose
    · rw [ht.id]
      exact h.summary m hm ((ht.purpose m).symm.trans hpurpose)
  drafts := fun o ho draft htask => ht.inputs.isSome (h.drafts o (ht.operations ▸ ho) draft htask)
  last := by
    intro o ho m' hm' hid hstatus
    rw [ht.operations, ht.last] at ho
    cases ho
    rcases ht.mem hm' with hm | ⟨m, hm, hmid, rfl⟩
    · exact absurd hstatus (h.open_of_last hopen ht.last hm hid)
    · exact ht.completed m hm hmid hstatus

theorem Good.extends_touched (h : r.Good) (ht : r.Touched r' op f) (hopen : r.view.status ≠ .completed) :
    r.Extends r' where
  owner := ht.owner
  key := ht.key
  workspace := ht.workspace
  article := ht.article
  inputs := ht.inputs
  complete := by
    intro m hm hstatus
    refine mem_of_modifyFirst ht.messages hm ?_
    refine beq_false_of_ne fun hid => ?_
    exact h.open_of_last hopen ht.last hm hid hstatus
  operations := fun o ho => ⟨o, ht.operations ▸ ho, rfl, rfl, fun _ _ => rfl⟩
  calls := ht.calls

/-- Setting the snapshot of a chat without drafts changes no preview. -/
theorem Good.previewOf_pinned (h : r.Good) (hops : r'.operations = r.operations) (hinputs : r.PinsInputs r') (a : Nat)
    (content : String) (hp : previewOf P r.operations r.snapshot r.limits.maxResponseBytes a = .ok content) :
    previewOf P r'.operations r'.snapshot r'.limits.maxResponseBytes a = .ok content := by
  rw [hops, hinputs.limits]
  unfold previewOf at hp ⊢
  cases hfind : r.operations.find? (·.assistantId == a) with
  | none =>
    rw [hfind] at hp
    cases hp
  | some o =>
    rw [hfind] at hp
    cases htask : o.task with
    | reply =>
      simp only [htask] at hp ⊢
      exact hp
    | summary saved =>
      cases saved with
      | none =>
        simp only [htask] at hp ⊢
        exact hp
      | some draft =>
        obtain ⟨source, hsource⟩ :=
          Option.isSome_iff_exists.1 (h.drafts o (List.mem_of_find?_eq_some hfind) draft htask)
        simp only [htask, hsource] at hp
        simp only [htask, hinputs.snapshot hsource]
        exact hp

theorem Good.previews_touched (h : r.Good) (ht : r.Touched r' op f) (hopen : r.view.status ≠ .completed)
    {published : ArticleChat} (hp : r.Previews P published) : r'.Previews P published := by
  refine hp.mono (fun m' hm' hpurpose hstatus => ?_) (h.previewOf_pinned ht.operations ht.inputs)
  rcases ht.mem hm' with hm | ⟨m, hm, hid, rfl⟩
  · exact ⟨m', hm, rfl, hpurpose, hstatus⟩
  · exact ⟨m, hm, (ht.id m).symm, (ht.purpose m).symm.trans hpurpose, h.open_of_last hopen ht.last hm hid⟩

end Touched

/-! ## The report of a call -/

/-- The call `id` of the attempt `assistant` becomes `call'`; the attempt keeps its draft or gets one. -/
structure Reported (r r' : ChatRecord) (id assistant : Nat) (call call' : ProviderCall) : Prop where
  found : r.view.providerCalls.find? (ProviderCall.isCall id assistant) = some call
  same : call' = { call with usage := call'.usage, status := call'.status }
  completed : call.status = .completed → call'.status = .completed
  calls : modifyFirst (ProviderCall.isCall id assistant) (fun _ => call') r.view.providerCalls =
    some r'.view.providerCalls
  operations : r'.operations = r.operations ∨ ∃ draft op saved, r.snapshot.isSome = true ∧
    r.operations.find? (·.assistantId == assistant) = some op ∧ op.task = .summary saved ∧
    (∀ old, saved = some old → old = draft) ∧
    modifyFirst (·.assistantId == assistant) (fun op => { op with task := .summary (some draft) }) r.operations =
      some r'.operations
  rest : r' = { r with
    view := { r.view with providerCalls := r'.view.providerCalls }
    operations := r'.operations }

section Reported
variable {id assistant : Nat} {call call' : ProviderCall}

theorem Reported.messages (h : r.Reported r' id assistant call call') : r'.view.messages = r.view.messages := by
  rw [h.rest]

theorem Reported.inputs (h : r.Reported r' id assistant call call') : r'.inputs = r.inputs := by
  rw [h.rest]
  rfl

/-- The attempts stay what they are. -/
theorem Reported.map_operations (h : r.Reported r' id assistant call call') :
    r'.operations.map (fun op => (op.id, op.assistantId, op.task.purpose)) =
      r.operations.map fun op => (op.id, op.assistantId, op.task.purpose) := by
  rcases h.operations with hops | ⟨draft, op, saved, -, hfind, htask, -, hmod⟩
  · rw [hops]
  · refine map_modifyFirst (fun o ho => ?_) hmod
    rw [hfind] at ho
    cases ho
    simp only [htask]
    rfl

theorem Reported.operationIds (h : r.Reported r' id assistant call call') :
    r'.operations.map (·.id) = r.operations.map (·.id) := by
  have hmap := congrArg (List.map fun t => t.1) h.map_operations
  simp only [List.map_map] at hmap
  exact hmap

theorem Reported.attemptIds (h : r.Reported r' id assistant call call') :
    r'.operations.map (·.assistantId) = r.operations.map (·.assistantId) := by
  have hmap := congrArg (List.map fun t => t.2.1) h.map_operations
  simp only [List.map_map] at hmap
  exact hmap

theorem Reported.keepsCall (h : r.Reported r' id assistant call call') : KeepsCall call call' := by
  have hsame := h.same
  exact ⟨by rw [hsame], by rw [hsame], by rw [hsame], h.completed⟩

theorem Reported.callKeys (h : r.Reported r' id assistant call call') :
    r'.view.providerCalls.map (·.key) = r.view.providerCalls.map (·.key) := by
  refine map_modifyFirst (fun c hc => ?_) h.calls
  rw [h.found] at hc
  cases hc
  exact h.keepsCall.key

theorem Reported.getLast (h : r.Reported r' id assistant call call') {op' : Operation}
    (hlast : r'.operations.getLast? = some op') :
    ∃ op, r.operations.getLast? = some op ∧ op.id = op'.id ∧ op.assistantId = op'.assistantId := by
  have hmap := congrArg List.getLast? h.map_operations
  rw [List.getLast?_map, List.getLast?_map, hlast, Option.map_some, eq_comm, Option.map_eq_some_iff] at hmap
  obtain ⟨op, hop, heq⟩ := hmap
  simp only [Prod.mk.injEq] at heq
  exact ⟨op, hop, heq.1, heq.2.1⟩

theorem Good.reported (h : r.Good) (ht : r.Reported r' id assistant call call') : r'.Good where
  messageIds := ht.messages ▸ h.messageIds
  attemptIds := ht.attemptIds ▸ h.attemptIds
  operationIds := ht.operationIds ▸ h.operationIds
  callKeys := ht.callKeys ▸ h.callKeys
  operations := by
    intro hnil
    have hmap := ht.map_operations
    rw [hnil, List.map_nil, eq_comm, List.map_eq_nil_iff] at hmap
    exact h.operations hmap
  attempt := by
    intro op' hop'
    have hmem := List.mem_map_of_mem (f := fun op : Operation => (op.id, op.assistantId, op.task.purpose)) hop'
    rw [ht.map_operations] at hmem
    obtain ⟨op, hop, heq⟩ := List.mem_map.1 hmem
    simp only [Prod.mk.injEq] at heq
    obtain ⟨m, hm, hid, hpurpose⟩ := h.attempt op hop
    exact ⟨m, ht.messages ▸ hm, hid.trans heq.2.1, by rw [hpurpose, heq.2.2]⟩
  summary := by
    intro m hm hpurpose
    rw [ht.messages] at hm
    obtain ⟨op, hop, hid⟩ := h.summary m hm hpurpose
    have hmem := List.mem_map_of_mem (f := fun op : Operation => (op.id, op.assistantId, op.task.purpose)) hop
    rw [← ht.map_operations] at hmem
    obtain ⟨op', hop', heq⟩ := List.mem_map.1 hmem
    simp only [Prod.mk.injEq] at heq
    exact ⟨op', hop', heq.2.1.trans hid⟩
  drafts := by
    intro op' hop' draft htask
    have hsnapshot : r'.snapshot = r.snapshot := congrArg ChatInputs.snapshot ht.inputs
    rw [hsnapshot]
    rcases ht.operations with hops | ⟨_, op, saved, hsome, -, -, -, hmod⟩
    · exact h.drafts op' (hops ▸ hop') draft htask
    · exact hsome
  last := by
    intro op' hlast m hm hid hstatus
    obtain ⟨op, hop, -, hassistant⟩ := ht.getLast hlast
    rw [ht.messages] at hm
    have hcompleted := h.last op hop m hm (hid.trans hassistant.symm) hstatus
    rw [ht.rest]
    exact hcompleted

theorem Good.extends_reported (ht : r.Reported r' id assistant call call') : r.Extends r' where
  owner := by rw [ht.rest]
  key := by rw [ht.rest]
  workspace := by rw [ht.rest]
  article := by rw [ht.rest]
  inputs := .inl ht.inputs
  complete := fun m hm _ => ht.messages ▸ hm
  operations := by
    intro op hop
    rcases ht.operations with hops | ⟨draft, found, saved, -, hfind, htask, hsaved, hmod⟩
    · exact ⟨op, hops ▸ hop, rfl, rfl, fun _ _ => rfl⟩
    · rcases mem_or_of_modifyFirst hmod hop with hmem | ⟨hfound, hmem⟩
      · exact ⟨op, hmem, rfl, rfl, fun _ _ => rfl⟩
      · refine ⟨_, hmem, rfl, rfl, fun old hold => ?_⟩
        rw [hfind] at hfound
        cases hfound
        rw [htask, AttemptTask.summary.injEq] at hold
        rw [htask, hold, hsaved old hold]
  calls := by
    intro c hc
    rcases mem_or_of_modifyFirst ht.calls hc with hmem | ⟨hfound, hmem⟩
    · exact ⟨c, hmem, .refl c⟩
    · rw [ht.found] at hfound
      cases hfound
      exact ⟨call', hmem, ht.keepsCall⟩

/-- A published draft is the preview of its attempt. -/
theorem Previews.draft {published published' : ArticleChat} {source : ArticleSnapshot} {draft content : String}
    (hp : r.Previews P published) (hmessages : r'.view.messages = r.view.messages) (hinputs : r'.inputs = r.inputs)
    (hops : modifyFirst (·.assistantId == assistant) (fun op => { op with task := .summary (some draft) })
      r.operations = some r'.operations)
    (hsource : r.snapshot = some source) (hcontent : P.segments source.text r.limits.maxResponseBytes draft = .ok content)
    (hpublished : modifyFirst (·.id == assistant) (fun m => { m with content := content }) published.messages =
      some published'.messages) : r'.Previews P published' := by
  intro m hm hpurpose hstatus
  rw [hmessages] at hm
  obtain ⟨old, hfind, hpreview⟩ := hp m hm hpurpose hstatus
  have hsnapshot : r'.snapshot = r.snapshot := congrArg ChatInputs.snapshot hinputs
  have hlimits : r'.limits = r.limits := congrArg ChatInputs.limits hinputs
  rw [hsnapshot, hlimits]
  by_cases hid : m.id = assistant
  · subst hid
    obtain ⟨shown, -, hshown⟩ := find?_modifyFirst_self hpublished fun _ h => h
    obtain ⟨op, -, hop⟩ := find?_modifyFirst_self hops fun _ h => h
    refine ⟨_, hshown, ?_⟩
    unfold previewOf
    rw [hop, hsource]
    exact hcontent
  · have hop := find?_modifyFirst_of_ne (q := fun op => op.assistantId == m.id) hops fun op h => by
      rw [beq_iff_eq] at h
      exact ⟨beq_false_of_ne fun e => hid (e.symm.trans h), beq_false_of_ne fun e => hid (e.symm.trans h)⟩
    have hshown := find?_modifyFirst_of_ne (q := fun m' => m'.id == m.id) hpublished fun m' h => by
      rw [beq_iff_eq] at h
      exact ⟨beq_false_of_ne fun e => hid (e.symm.trans h), beq_false_of_ne fun e => hid (e.symm.trans h)⟩
    refine ⟨old, hshown.trans hfind, ?_⟩
    unfold previewOf at hpreview ⊢
    rw [hop]
    exact hpreview

end Reported

/-! ## A new attempt -/

/-- A command appends its messages and its attempt. -/
structure Grown (r r' : ChatRecord) (op : Operation) (users : List ChatMessage) (now : DateTime) : Prop where
  messages : r'.view.messages = r.view.messages ++ users ++ [newAttempt op.assistantId op.task now]
  operations : r'.operations = r.operations ++ [op]
  users : ∀ m ∈ users, m.purpose = none
  /-- A retry repeats the task of an earlier attempt. -/
  task : op.task = .reply ∨ ∃ old ∈ r.operations, old.task = op.task
  messageIds : (r'.view.messages.map (·.id)).Nodup
  operationId : op.id ∉ r.operations.map (·.id)
  calls : r'.view.providerCalls = r.view.providerCalls
  owner : r'.owner = r.owner
  key : r'.view.id = r.view.id
  workspace : r'.view.workspaceId = r.view.workspaceId
  article : r'.view.articleId = r.view.articleId
  inputs : r'.inputs = r.inputs

section Grown
variable {op : Operation} {users : List ChatMessage} {now : DateTime}

theorem Grown.fresh (h : r.Good) (ht : r.Grown r' op users now) : op.assistantId ∉ r.operations.map (·.assistantId) := by
  intro hmem
  obtain ⟨old, hold, hid⟩ := List.mem_map.1 hmem
  obtain ⟨m, hm, hmid, -⟩ := h.attempt old hold
  have hnd := ht.messageIds
  rw [ht.messages, List.map_append, List.nodup_append] at hnd
  exact hnd.2.2 m.id (List.mem_map_of_mem (by simp [hm])) op.assistantId (by simp [newAttempt]) (hmid.trans hid)

theorem Good.grown (h : r.Good) (ht : r.Grown r' op users now) : r'.Good where
  messageIds := ht.messageIds
  attemptIds := by
    rw [ht.operations, List.map_append]
    exact List.Nodup.append h.attemptIds (by simp) (by simpa using ht.fresh h)
  operationIds := by
    rw [ht.operations, List.map_append]
    exact List.Nodup.append h.operationIds (by simp) (by simpa using ht.operationId)
  callKeys := ht.calls ▸ h.callKeys
  operations := by simp [ht.operations]
  attempt := by
    intro o ho
    rw [ht.messages]
    rcases List.mem_append.1 (ht.operations ▸ ho) with ho | ho
    · obtain ⟨m, hm, hid, hpurpose⟩ := h.attempt o ho
      exact ⟨m, by simp [hm], hid, hpurpose⟩
    · rw [List.mem_singleton.1 ho]
      exact ⟨newAttempt op.assistantId op.task now, by simp, rfl, rfl⟩
  summary := by
    intro m hm hpurpose
    rw [ht.operations]
    rcases List.mem_append.1 (ht.messages ▸ hm) with hm | hm
    · rcases List.mem_append.1 hm with hm | hm
      · obtain ⟨o, ho, hid⟩ := h.summary m hm hpurpose
        exact ⟨o, by simp [ho], hid⟩
      · rw [ht.users m hm] at hpurpose
        cases hpurpose
    · rw [List.mem_singleton.1 hm]
      exact ⟨op, by simp, rfl⟩
  drafts := by
    intro o ho draft htask
    have hsnapshot : r'.snapshot = r.snapshot := congrArg ChatInputs.snapshot ht.inputs
    rw [hsnapshot]
    rcases List.mem_append.1 (ht.operations ▸ ho) with ho | ho
    · exact h.drafts o ho draft htask
    · rw [List.mem_singleton.1 ho] at htask
      rcases ht.task with hreply | ⟨old, hold, heq⟩
      · rw [hreply] at htask
        cases htask
      · exact h.drafts old hold draft (heq.trans htask)
  last := by
    intro o ho m hm hid hstatus
    rw [ht.operations, List.getLast?_append] at ho
    cases ho
    -- the message of the new attempt is the new message
    have hmem : newAttempt op.assistantId op.task now ∈ r'.view.messages := by simp [ht.messages]
    have heq : m = newAttempt op.assistantId op.task now := List.inj_on_of_nodup_map ht.messageIds hm hmem hid
    rw [heq] at hstatus
    cases hstatus

theorem Grown.extends (ht : r.Grown r' op users now) : r.Extends r' where
  owner := ht.owner
  key := ht.key
  workspace := ht.workspace
  article := ht.article
  inputs := .inl ht.inputs
  complete := fun m hm _ => by simp [ht.messages, hm]
  operations := fun o ho => ⟨o, by simp [ht.operations, ho], rfl, rfl, fun _ _ => rfl⟩
  calls := fun c hc => ⟨c, ht.calls ▸ hc, .refl c⟩

end Grown
end ChatRecord
end Inoreader
