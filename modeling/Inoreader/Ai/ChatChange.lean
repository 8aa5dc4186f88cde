import Inoreader.Ai.ChatSteps

/-!
# What a transaction can do to a chat

`ChatChange P response operations now cause row r row' r'`: a transaction at `now` replaces the row `row` with the
record `r` by `row'` with `r'`; `response` are the responses that are retained, `operations` the commands that are
recorded when it ends. Every operation of the store changes one chat this way or none, apart from a claim, which
recovers expired chats before it leases one.
-/

namespace Inoreader
open Lib

namespace ChatRecord

/-- The summary `m` is what a completed review of its attempt made of the draft of the attempt. -/
def Checked (P : AiPlatform) (response : Nat → Option String) (r : ChatRecord) (m : ChatMessage) : Prop :=
  ∃ op ∈ r.operations, ∃ call ∈ r.view.providerCalls, ∃ draft raw source,
    op.assistantId = m.id ∧ op.task = .summary (some draft) ∧
    call.assistantId = m.id ∧ call.phase = .verifying ∧ call.status = .completed ∧ response call.id = some raw ∧
    r.snapshot = some source ∧
    P.reviewed raw draft source.title source.text r.limits.maxResponseBytes = .ok m.content

/-- The summary `m` is the rendered draft of its attempt, and a completed generation has retained that draft. -/
def Unchecked (P : AiPlatform) (r : ChatRecord) (m : ChatMessage) : Prop :=
  ∃ op ∈ r.operations, ∃ generated ∈ r.operations, ∃ call ∈ r.view.providerCalls, ∃ draft source,
    op.assistantId = m.id ∧ op.task = .summary (some draft) ∧
    generated.assistantId = call.assistantId ∧ generated.task = .summary (some draft) ∧
    call.phase = .generating ∧ call.status = .completed ∧ r.snapshot = some source ∧
    P.segments source.text r.limits.maxResponseBytes draft = .ok m.content

variable {P : AiPlatform} {response response' : Nat → Option String} {r r' : ChatRecord} {m : ChatMessage}

theorem Extends.checked (h : r.Extends r') (hresponse : ∀ id raw, response id = some raw → response' id = some raw)
    (hm : r.Checked P response m) : r'.Checked P response' m := by
  obtain ⟨op, hop, call, hcall, draft, raw, source, hopid, htask, hcallid, hphase, hstatus, hraw, hsource, hcontent⟩ := hm
  obtain ⟨op', hop', -, hassistant, hkeep⟩ := h.operations op hop
  obtain ⟨call', hcall', hkeeps⟩ := h.calls call hcall
  refine ⟨op', hop', call', hcall', draft, raw, source, hassistant.trans hopid, (hkeep draft htask).trans htask,
    hkeeps.assistantId.trans hcallid, hkeeps.phase.trans hphase, hkeeps.completed hstatus, ?_, h.inputs.snapshot hsource, ?_⟩
  · rw [hkeeps.id]
    exact hresponse _ _ hraw
  · rw [h.inputs.limits]
    exact hcontent

theorem Extends.unchecked (h : r.Extends r') (hm : r.Unchecked P m) : r'.Unchecked P m := by
  obtain ⟨op, hop, generated, hgenerated, call, hcall, draft, source, hopid, htask, hgid, hgtask, hphase, hstatus, hsource,
    hcontent⟩ := hm
  obtain ⟨op', hop', -, hassistant, hkeep⟩ := h.operations op hop
  obtain ⟨generated', hgenerated', -, hgassistant, hgkeep⟩ := h.operations generated hgenerated
  obtain ⟨call', hcall', hkeeps⟩ := h.calls call hcall
  refine ⟨op', hop', generated', hgenerated', call', hcall', draft, source, hassistant.trans hopid,
    (hkeep draft htask).trans htask, ?_, (hgkeep draft hgtask).trans hgtask, hkeeps.phase.trans hphase,
    hkeeps.completed hstatus, h.inputs.snapshot hsource, ?_⟩
  · rw [hgassistant, hkeeps.assistantId, hgid]
  · rw [h.inputs.limits]
    exact hcontent

end ChatRecord

/-- `lease=NULL,lease_until=NULL,scheduled_at=…`. -/
def ChatRow.released (row : ChatRow) (scheduledAt : DateTime) : ChatRow :=
  { row with lease := none, leaseUntil := none, scheduledAt }

inductive ChatCause
  /-- `append`, with the ids of its messages. -/
  | command (user assistant : Nat)
  /-- `stop`, and the recovery of an expired lease. -/
  | finish
  /-- A worker that holds the chat. -/
  | work (lease : Nat)
  /-- The draft of an attempt is published without a review. -/
  | unchecked (lease attempt : Nat)
  | defer (lease : Nat)
  /-- A report of a worker that need not hold the chat. -/
  | report
  /-- Queue metadata only. -/
  | queue
deriving DecidableEq

inductive ChatChange (P : AiPlatform) (response : Nat → Option String)
    (operations : Table (AccountId × Nat) (Nat × OperationKind)) (now : DateTime) :
    ChatCause → ChatRow → ChatRecord → ChatRow → ChatRecord → Prop
  | append {row : ChatRow} {r r' : ChatRecord} {op : Operation} {users : List ChatMessage} {view : ArticleChat}
      {user : Nat} (hdone : r.view.status.pending = false) (hgrown : r.Grown r' op users now)
      (husers : ∀ m ∈ users, m.id = user) (hstatus : r'.view.status.pending = true)
      (hsaved : (operations.lookup (r.owner, op.id)).isSome = true) (hview : r'.intoPublicView P = .ok view) :
      ChatChange P response operations now (.command user op.assistantId) row r
        { row.written r' view with lease := none, leaseUntil := none, automatic := false } r'
  | finish {row : ChatRow} {r r' : ChatRecord} {op : Operation} {f : ChatMessage → ChatMessage} {view : ArticleChat}
      (hpending : r.view.status.pending = true) (ht : r.Touched r' op f) (hopen : ∀ m, (f m).status ≠ .complete)
      (hstatus : r'.view.status = .cancelled ∨ r'.view.status = .interrupted) (hview : r'.intoPublicView P = .ok view) :
      ChatChange P response operations now .finish row r (row.written r' view) r'
  | work {row : ChatRow} {r r' : ChatRecord} {lease : Nat} {op : Operation} {f : ChatMessage → ChatMessage}
      {view : ArticleChat} {row' : ChatRow} (hfenced : row.fenced lease now = true) (ht : r.Touched r' op f)
      (hchecked : ∀ m ∈ r.view.messages, m.id = op.assistantId → m.purpose = some .summary →
        (f m).status = .complete → r'.Checked P response (f m))
      (hview : r'.intoPublicView P = .ok view)
      (hrow : r'.view.status.pending = true ∧ row' = row.written r' view ∨
        ∃ t, row' = (row.written r' view).released t) :
      ChatChange P response operations now (.work lease) row r row' r'
  | unchecked {row : ChatRow} {r r' : ChatRecord} {lease : Nat} {op : Operation} {f : ChatMessage → ChatMessage}
      {view : ArticleChat} {t : DateTime} (hfenced : row.fenced lease now = true) (ht : r.Touched r' op f)
      (hunchecked : ∀ m ∈ r.view.messages, m.id = op.assistantId → r'.Unchecked P (f m))
      (hview : r'.intoPublicView P = .ok view) :
      ChatChange P response operations now (.unchecked lease op.assistantId) row r ((row.written r' view).released t) r'
  /-- The lease is enough for a deferral. -/
  | defer {row : ChatRow} {r r' : ChatRecord} {lease : Nat} {op : Operation} {f : ChatMessage → ChatMessage}
      {view : ArticleChat} {t : DateTime} (hlease : row.lease = some lease)
      (hlive : row.leaseUntil.any (now < ·) = true) (ht : r.Touched r' op f) (hopen : ∀ m, (f m).status ≠ .complete)
      (hstatus : r'.view.status = .queued) (hview : r'.intoPublicView P = .ok view) :
      ChatChange P response operations now (.defer lease) row r ((row.written r' view).released t) r'
  | report {row : ChatRow} {r r' : ChatRecord} {id assistant : Nat} {call call' : ProviderCall} {view : ArticleChat}
      (hstatus : row.status = some r.view.status) (hreported : r.Reported r' id assistant call call')
      (hview : r'.intoPublicView P = .ok view) :
      ChatChange P response operations now .report row r (row.written r' view) r'
  /-- The report of a worker that holds the chat leads to the review of its draft. -/
  | review {row : ChatRow} {r r₁ r' : ChatRecord} {lease id assistant : Nat} {call call' : ProviderCall} {op : Operation}
      {f : ChatMessage → ChatMessage} {view : ArticleChat} (hfenced : row.fenced lease now = true)
      (hreported : r.Reported r₁ id assistant call call') (ht : r₁.Touched r' op f)
      (hopen : ∀ m, m.status ≠ .complete → (f m).status ≠ .complete) (hstatus : r'.view.status = .verifying)
      (hview : r'.intoPublicView P = .ok view) :
      ChatChange P response operations now .report row r (row.written r' view) r'
  | lease {row : ChatRow} {r : ChatRecord} {lease : Nat} {leaseUntil : DateTime}
      (hpending : r.view.status.pending = true) (hfree : row.lease = none) :
      ChatChange P response operations now .queue row r
        { row with lease := some lease, leaseUntil := some leaseUntil } r
  | quarantine {row : ChatRow} {r : ChatRecord} (hstatus : row.status.any ChatStatus.pending = true) :
      ChatChange P response operations now .queue row r row.quarantine r
  | schedule {row : ChatRow} {r : ChatRecord} {priorityAt : Option DateTime} {automatic : Bool} {t : DateTime} :
      ChatChange P response operations now .queue row r { row with priorityAt, automatic, scheduledAt := t } r

/-- A row, its record, and what the store knows of them. -/
structure ChatRow.Sound (P : AiPlatform) (operations : Table (AccountId × Nat) (Nat × OperationKind)) (id : Nat)
    (row : ChatRow) (r : ChatRecord) : Prop where
  holds : row.Holds P id r
  good : r.Good
  /-- A completed chat has no lease. -/
  idle : r.view.status = .completed → row.lease = none
  saved : ∀ op ∈ r.operations, (operations.lookup (r.owner, op.id)).isSome = true

theorem ChatRow.fenced_pending {row : ChatRow} {lease : Nat} {now : DateTime} (h : row.fenced lease now = true) :
    ∃ st, row.status = some st ∧ st.pending = true := by
  simp only [ChatRow.fenced, Bool.and_eq_true, Option.any_eq_true] at h
  exact h.2

theorem ChatStatus.not_completed {st : ChatStatus} (h : st.pending = true) : st ≠ .completed := by
  rintro rfl
  cases h

section
variable {P : AiPlatform} {response : Nat → Option String} {now : DateTime} {row row' : ChatRow} {r r' : ChatRecord}
  {id : Nat}

theorem ChatRow.Holds.open_of_fenced {lease : Nat} (h : row.Holds P id r) (hfenced : row.fenced lease now = true) :
    r.view.status ≠ .completed := by
  obtain ⟨st, hst, hpending⟩ := ChatRow.fenced_pending hfenced
  exact h.status st hst ▸ ChatStatus.not_completed hpending

theorem ChatRow.Sound.open_of_lease {operations : Table (AccountId × Nat) (Nat × OperationKind)} {lease : Nat}
    (h : row.Sound P operations id r) (hlease : row.lease = some lease) : r.view.status ≠ .completed := by
  intro hcompleted
  rw [h.idle hcompleted] at hlease
  cases hlease

namespace ChatChange
variable {operations operations' : Table (AccountId × Nat) (Nat × OperationKind)} {cause : ChatCause}

/-- Nothing is taken back. -/
theorem extended (h : ChatChange P response operations' now cause row r row' r') (hs : row.Sound P operations id r) :
    r.Extends r' := by
  cases h with
  | append _ hgrown => exact hgrown.extends
  | finish hpending ht => exact hs.good.extends_touched ht (ChatStatus.not_completed hpending)
  | work hfenced ht => exact hs.good.extends_touched ht (hs.holds.open_of_fenced hfenced)
  | unchecked hfenced ht => exact hs.good.extends_touched ht (hs.holds.open_of_fenced hfenced)
  | defer hlease _ ht => exact hs.good.extends_touched ht (hs.open_of_lease hlease)
  | report _ hreported => exact ChatRecord.Good.extends_reported hreported
  | review hfenced hreported ht =>
    refine (ChatRecord.Good.extends_reported hreported).trans ?_
    refine (hs.good.reported hreported).extends_touched ht ?_
    rw [hreported.rest]
    exact hs.holds.open_of_fenced hfenced
  | lease => exact .refl r
  | quarantine => exact .refl r
  | schedule => exact .refl r

theorem good (h : ChatChange P response operations' now cause row r row' r') (hs : row.Sound P operations id r) : r'.Good := by
  cases h with
  | append _ hgrown => exact hs.good.grown hgrown
  | finish hpending ht => exact hs.good.touched ht (ChatStatus.not_completed hpending)
  | work hfenced ht => exact hs.good.touched ht (hs.holds.open_of_fenced hfenced)
  | unchecked hfenced ht => exact hs.good.touched ht (hs.holds.open_of_fenced hfenced)
  | defer hlease _ ht => exact hs.good.touched ht (hs.open_of_lease hlease)
  | report _ hreported => exact hs.good.reported hreported
  | review hfenced hreported ht =>
    refine (hs.good.reported hreported).touched ht ?_
    rw [hreported.rest]
    exact hs.holds.open_of_fenced hfenced
  | lease => exact hs.good
  | quarantine => exact hs.good
  | schedule => exact hs.good

/-- The new row stores the new record, and its projection. -/
theorem holds (h : ChatChange P response operations' now cause row r row' r') (hs : row.Sound P operations id r) :
    row'.Holds P id r' := by
  have hext := h.extended hs
  have hwritten : ∀ view, r'.intoPublicView P = .ok view → (row.written r' view).Holds P id r' := fun view hview =>
    hs.holds.written hext.owner hext.key hext.workspace hext.article hview
  cases h with
  | append _ _ _ _ _ hview => exact (hwritten _ hview).congr rfl rfl rfl rfl rfl (.inl rfl) rfl
  | finish _ _ _ _ hview => exact hwritten _ hview
  | work _ _ _ hview hrow =>
    rcases hrow with ⟨-, rfl⟩ | ⟨t, rfl⟩
    · exact hwritten _ hview
    · exact (hwritten _ hview).congr rfl rfl rfl rfl rfl (.inl rfl) rfl
  | unchecked _ _ _ hview => exact (hwritten _ hview).congr rfl rfl rfl rfl rfl (.inl rfl) rfl
  | defer _ _ _ _ _ hview => exact (hwritten _ hview).congr rfl rfl rfl rfl rfl (.inl rfl) rfl
  | report _ _ hview => exact hwritten _ hview
  | review _ _ _ _ _ hview => exact hwritten _ hview
  | lease => exact hs.holds.congr rfl rfl rfl rfl rfl (.inl rfl) rfl
  | quarantine => exact hs.holds.congr rfl rfl rfl rfl rfl (.inr rfl) rfl
  | schedule => exact hs.holds.congr rfl rfl rfl rfl rfl (.inl rfl) rfl

/-- A completed chat has no lease. -/
theorem idle (h : ChatChange P response operations' now cause row r row' r') (hs : row.Sound P operations id r)
    (hcompleted : r'.view.status = .completed) : row'.lease = none := by
  cases h with
  | append => rfl
  | finish _ _ _ hstatus => rcases hstatus with e | e <;> (rw [e] at hcompleted; cases hcompleted)
  | work _ _ _ _ hrow =>
    rcases hrow with ⟨hpending, -⟩ | ⟨t, rfl⟩
    · exact absurd hcompleted (ChatStatus.not_completed hpending)
    · rfl
  | unchecked => rfl
  | defer => rfl
  | report _ hreported =>
    refine hs.idle ?_
    rw [hreported.rest] at hcompleted
    exact hcompleted
  | review _ _ _ _ hstatus =>
    rw [hstatus] at hcompleted
    cases hcompleted
  | lease hpending => exact absurd hcompleted (ChatStatus.not_completed hpending)
  | quarantine => rfl
  | schedule => exact hs.idle hcompleted

/-- The commands of the chat are recorded. -/
theorem saved (h : ChatChange P response operations' now cause row r row' r') (hs : row.Sound P operations id r)
    (hmono : ∀ k, (operations.lookup k).isSome = true → (operations'.lookup k).isSome = true) (op' : Operation)
    (hop' : op' ∈ r'.operations) : (operations'.lookup (r'.owner, op'.id)).isSome = true := by
  have howner := (h.extended hs).owner
  rw [howner]
  have hold : ∀ op ∈ r.operations, op.id = op'.id → (operations'.lookup (r.owner, op'.id)).isSome = true := by
    intro op hop hid
    rw [← hid]
    exact hmono _ (hs.saved op hop)
  have hids : r'.operations.map (·.id) = r.operations.map (·.id) →
      (operations'.lookup (r.owner, op'.id)).isSome = true := by
    intro heq
    have hmem := List.mem_map_of_mem (f := (·.id)) hop'
    rw [heq] at hmem
    obtain ⟨op, hop, hid⟩ := List.mem_map.1 hmem
    exact hold op hop hid
  cases h with
  | append _ hgrown _ _ hsaved =>
    rcases List.mem_append.1 (hgrown.operations ▸ hop') with hop | hop
    · exact hold op' hop rfl
    · rw [List.mem_singleton.1 hop]
      exact hsaved
  | finish _ ht => exact hids (by rw [ht.operations])
  | work _ ht => exact hids (by rw [ht.operations])
  | unchecked _ ht => exact hids (by rw [ht.operations])
  | defer _ _ ht => exact hids (by rw [ht.operations])
  | report _ hreported => exact hids hreported.operationIds
  | review _ hreported ht => exact hids (by rw [ht.operations]; exact hreported.operationIds)
  | lease => exact hids rfl
  | quarantine => exact hids rfl
  | schedule => exact hids rfl

theorem sound (h : ChatChange P response operations' now cause row r row' r') (hs : row.Sound P operations id r)
    (hmono : ∀ k, (operations.lookup k).isSome = true → (operations'.lookup k).isSome = true) :
    row'.Sound P operations' id r' :=
  ⟨h.holds hs, h.good hs, h.idle hs, h.saved hs hmono⟩

/-- New messages come with commands. -/
theorem messageIds (h : ChatChange P response operations' now cause row r row' r') {m' : ChatMessage}
    (hm' : m' ∈ r'.view.messages) : (∃ m ∈ r.view.messages, m.id = m'.id) ∨
      ∃ user assistant, cause = .command user assistant ∧ (m'.id = user ∨ m'.id = assistant) := by
  have htouched : ∀ {r₁ : ChatRecord} {op : Operation} {f : ChatMessage → ChatMessage}, r₁.Touched r' op f →
      r₁.view.messages = r.view.messages → ∃ m ∈ r.view.messages, m.id = m'.id := by
    intro r₁ op f ht heq
    rcases ht.mem hm' with hm | ⟨m, hm, -, rfl⟩
    · exact ⟨m', heq ▸ hm, rfl⟩
    · exact ⟨m, heq ▸ hm, (ht.id m).symm⟩
  cases h with
  | @append _ _ _ op users _ user _ hgrown husers =>
    rcases List.mem_append.1 (hgrown.messages ▸ hm') with hm | hm
    · rcases List.mem_append.1 hm with hm | hm
      · exact .inl ⟨m', hm, rfl⟩
      · exact .inr ⟨user, op.assistantId, rfl, .inl (husers m' hm)⟩
    · rw [List.mem_singleton.1 hm]
      exact .inr ⟨user, op.assistantId, rfl, .inr rfl⟩
  | finish _ ht => exact .inl (htouched ht rfl)
  | work _ ht => exact .inl (htouched ht rfl)
  | unchecked _ ht => exact .inl (htouched ht rfl)
  | defer _ _ ht => exact .inl (htouched ht rfl)
  | report _ hreported => exact .inl ⟨m', hreported.messages ▸ hm', rfl⟩
  | review _ hreported ht => exact .inl (htouched ht hreported.messages)
  | lease => exact .inl ⟨m', hm', rfl⟩
  | quarantine => exact .inl ⟨m', hm', rfl⟩
  | schedule => exact .inl ⟨m', hm', rfl⟩

/-- A summary becomes complete by a review or as an unchecked draft. -/
theorem provenance (h : ChatChange P response operations' now cause row r row' r') (hs : row.Sound P operations id r)
    {m' : ChatMessage} (hm' : m' ∈ r'.view.messages) (hpurpose : m'.purpose = some .summary) (hcomplete : m'.status = .complete) :
    m' ∈ r.view.messages ∨ r'.Checked P response m' ∨
      ∃ lease, cause = .unchecked lease m'.id ∧ r'.Unchecked P m' := by
  cases h with
  | append _ hgrown =>
    rcases List.mem_append.1 (hgrown.messages ▸ hm') with hm | hm
    · rcases List.mem_append.1 hm with hm | hm
      · exact .inl hm
      · rw [hgrown.users m' hm] at hpurpose
        cases hpurpose
    · rw [List.mem_singleton.1 hm] at hcomplete
      cases hcomplete
  | finish _ ht hopen =>
    rcases ht.mem hm' with hm | ⟨m, -, -, rfl⟩
    · exact .inl hm
    · exact absurd hcomplete (hopen m)
  | work _ ht hchecked =>
    rcases ht.mem hm' with hm | ⟨m, hm, hid, rfl⟩
    · exact .inl hm
    · exact .inr (.inl (hchecked m hm hid ((ht.purpose m).symm.trans hpurpose) hcomplete))
  | @unchecked _ _ _ lease _ _ _ _ _ ht hunchecked =>
    rcases ht.mem hm' with hm | ⟨m, hm, hid, rfl⟩
    · exact .inl hm
    · exact .inr (.inr ⟨lease, by rw [ht.id, hid], hunchecked m hm hid⟩)
  | defer _ _ ht hopen =>
    rcases ht.mem hm' with hm | ⟨m, -, -, rfl⟩
    · exact .inl hm
    · exact absurd hcomplete (hopen m)
  | report _ hreported => exact .inl (hreported.messages ▸ hm')
  | review hfenced hreported ht hopen =>
    rcases ht.mem hm' with hm | ⟨m, hm, hid, rfl⟩
    · exact .inl (hreported.messages ▸ hm)
    · have hpending := hs.holds.open_of_fenced hfenced
      refine absurd hcomplete (hopen m ((hs.good.reported hreported).open_of_last ?_ ht.last hm hid))
      rw [hreported.rest]
      exact hpending
  | lease => exact .inl hm'
  | quarantine => exact .inl hm'
  | schedule => exact .inl hm'

/-- The revision grows with every change of the published view. -/
theorem revision (h : ChatChange P response operations' now cause row r row' r') :
    row.publicRevision < row'.publicRevision ∨
      (row'.publicRevision = row.publicRevision ∧ row'.publicView = row.publicView) := by
  cases h with
  | append => exact .inl (Nat.lt_succ_self _)
  | finish => exact .inl (Nat.lt_succ_self _)
  | work _ _ _ _ hrow => rcases hrow with ⟨-, rfl⟩ | ⟨t, rfl⟩ <;> exact .inl (Nat.lt_succ_self _)
  | unchecked => exact .inl (Nat.lt_succ_self _)
  | defer => exact .inl (Nat.lt_succ_self _)
  | report => exact .inl (Nat.lt_succ_self _)
  | review => exact .inl (Nat.lt_succ_self _)
  | lease => exact .inr ⟨rfl, rfl⟩
  | quarantine => exact .inr ⟨rfl, rfl⟩
  | schedule => exact .inr ⟨rfl, rfl⟩

/-- The status of a chat that is not pending changes by a command or a deferral only. -/
theorem status_kept (h : ChatChange P response operations' now cause row r row' r') (hholds : row.Holds P id r)
    {st : ChatStatus} (hst : row.status = some st) (hdone : st.pending = false)
    (hcommand : ∀ user assistant, cause ≠ .command user assistant) (hdefer : ∀ lease, cause ≠ .defer lease) :
    row'.status = some st := by
  have hnot : ∀ {lease : Nat}, row.fenced lease now = true → False := by
    intro lease hfenced
    obtain ⟨st', hst', hpending⟩ := ChatRow.fenced_pending hfenced
    rw [hst] at hst'
    cases hst'
    rw [hdone] at hpending
    cases hpending
  cases h with
  | append => exact absurd rfl (hcommand _ _)
  | finish hpending =>
    rw [← hholds.status st hst, hdone] at hpending
    cases hpending
  | work hfenced => exact (hnot hfenced).elim
  | unchecked hfenced => exact (hnot hfenced).elim
  | defer => exact absurd rfl (hdefer _)
  | report hstatus hreported =>
    rw [hst] at hstatus
    show some r'.view.status = some st
    rw [hreported.rest, hstatus]
  | review hfenced => exact (hnot hfenced).elim
  | lease => exact hst
  | quarantine hstatus =>
    rw [hst, Option.any_some, hdone] at hstatus
    cases hstatus
  | schedule => exact hst

end ChatChange
end
end Inoreader
