import Inoreader.Client.ArticleChat

/-!
# A lost request is repeated, not replaced

`Inv`: the lock is held by one function that waits under the current epoch, and an operation without an answer is
either the one that this function waits for, or it is remembered as uncertain under its article. The second part
survives `open`, which moves to a new epoch, only where no operation is waited for, or where it is remembered already
(`Settled`).
-/

namespace Inoreader
open Lib

/-- The operations of an article that have no answer to their last request. -/
def unanswered (scope : ChatScope) : List ChatTraffic → List Nat
  | [] => []
  | .sent a operation :: traffic => if a = scope then operation :: unanswered scope traffic else unanswered scope traffic
  | .answered operation :: traffic => (unanswered scope traffic).filter (· ≠ operation)

/-- A new operation is sent only when all earlier ones of its article are answered. -/
def PaysOnce : List ChatTraffic → Prop
  | [] => True
  | .sent scope operation :: traffic =>
    (.sent scope operation ∈ traffic ∨ unanswered scope traffic = []) ∧ PaysOnce traffic
  | .answered _ :: traffic => PaysOnce traffic

theorem mem_unanswered_sent {scope a : ChatScope} {operation o : Nat} {traffic : List ChatTraffic} :
    o ∈ unanswered scope (.sent a operation :: traffic) ↔ (a = scope ∧ o = operation) ∨ o ∈ unanswered scope traffic := by
  by_cases h : a = scope
  · simp [unanswered, h]
  · simp [unanswered, h]

theorem mem_unanswered_answered {scope : ChatScope} {operation o : Nat} {traffic : List ChatTraffic} :
    o ∈ unanswered scope (.answered operation :: traffic) ↔ o ∈ unanswered scope traffic ∧ o ≠ operation := by
  simp [unanswered]

theorem sent_of_unanswered {scope : ChatScope} {o : Nat} {traffic : List ChatTraffic} (h : o ∈ unanswered scope traffic) :
    .sent scope o ∈ traffic := by
  induction traffic with
  | nil => cases h
  | cons t traffic ih =>
    cases t with
    | sent a operation =>
      rcases mem_unanswered_sent.1 h with ⟨rfl, rfl⟩ | h
      · exact List.mem_cons_self
      · exact List.mem_cons_of_mem _ (ih h)
    | answered operation => exact List.mem_cons_of_mem _ (ih (mem_unanswered_answered.1 h).1)

section
variable {answer : Option Nat} {traffic : List ChatTraffic}

theorem sent_ended {scope : ChatScope} {o : Nat} :
    .sent scope o ∈ (answer.map ChatTraffic.answered).toList ++ traffic ↔ .sent scope o ∈ traffic := by
  cases answer <;> simp

theorem unanswered_ended {scope : ChatScope} {o : Nat}
    (h : o ∈ unanswered scope ((answer.map ChatTraffic.answered).toList ++ traffic)) :
    o ∈ unanswered scope traffic ∧ answer ≠ some o := by
  cases answer with
  | none => exact ⟨h, Option.some_ne_none o ∘ Eq.symm⟩
  | some operation =>
    obtain ⟨ho, hne⟩ := mem_unanswered_answered.1 h
    exact ⟨ho, fun e => hne (Option.some.inj e).symm⟩

theorem paysOnce_ended (h : PaysOnce traffic) : PaysOnce ((answer.map ChatTraffic.answered).toList ++ traffic) := by
  cases answer <;> exact h

end

/-- The function waits under the epoch and has the lock. -/
def ChatFlow.Holds (epoch : Nat) : ChatFlow → Prop
  | .versions token _ _ _ _ | .command token _ _ _ => token = epoch
  | .poll _ _ _ _ => False

def ChatFlow.token : ChatFlow → Nat
  | .versions token _ _ _ _ | .command token _ _ _ | .poll token _ _ _ => token

theorem ChatFlow.Holds.token_eq {flow : ChatFlow} {epoch : Nat} (h : flow.Holds epoch) : flow.token = epoch := by
  cases flow with
  | versions token => exact h
  | command token => exact h
  | poll token => exact h.elim

/-- The part of a session that decides what is sent. -/
structure ChatCore where
  scope : Option ChatScope
  chat : Option ArticleChat
  lock : Bool
  epoch : Nat
  pendingRequests : Table (Option ChatScope) UnresolvedRequest
  openingScope : Option ChatScope
  poller : Option ChatPoller
  flows : Table Nat ChatFlow
  fresh : Nat
  traffic : List ChatTraffic

def ChatSession.core (s : ChatSession) : ChatCore where
  scope := s.hook.scope
  chat := s.hook.chat
  lock := s.hook.lock
  epoch := s.hook.epoch
  pendingRequests := s.hook.pendingRequests
  openingScope := s.hook.openingScope
  poller := s.hook.poller
  flows := s.flows
  fresh := s.fresh
  traffic := s.traffic

namespace ChatCore

/-- The operation is remembered as uncertain under its article. -/
def Remembered (c : ChatCore) (scope : ChatScope) (operation : Nat) : Prop :=
  ∃ p, c.pendingRequests.lookup (some scope) = some p ∧ p.uncertain = true ∧ p.action.operation = some operation

section
variable (articleOf : Nat → ChatScope)

/-- The function that has the lock waits for the operation's answer. -/
def Awaited (c : ChatCore) (scope : ChatScope) (operation : Nat) : Prop :=
  ∃ k action billable, c.flows.lookup k = some (.command c.epoch action (some scope) billable) ∧
    action.operation = some operation

/-- What the flow knows about the article that is open. -/
def Follows (c : ChatCore) : ChatFlow → Prop
  | .versions _ target _ _ _ => c.scope = some (targetScope target)
  | .command _ action scope billable =>
    c.scope = some (action.article articleOf) ∧ scope = c.scope ∧ billable = action.operation.isSome ∧
      (∀ operation, action.operation = some operation → .sent (action.article articleOf) operation ∈ c.traffic) ∧
      (billable = true → ∀ p, c.pendingRequests.lookup scope = some p → p.uncertain = true → p.action = action)
  | .poll _ _ _ id => c.scope = some (articleOf id)

structure Inv (c : ChatCore) : Prop where
  keys : ∀ k flow, c.flows.lookup k = some flow → k < c.fresh ∧ flow.token ≤ c.epoch
  one : ∀ k k' flow flow', c.flows.lookup k = some flow → c.flows.lookup k' = some flow' → flow.Holds c.epoch →
    flow'.Holds c.epoch → k = k'
  locked : c.lock = true ↔ ∃ k flow, c.flows.lookup k = some flow ∧ flow.Holds c.epoch
  opening : c.openingScope = c.scope
  about : ∀ chat, c.chat = some chat → c.scope = some chat.scope ∧ articleOf chat.id = chat.scope
  polling : ∀ p, c.poller = some p → p.token ≤ c.epoch ∧ (p.token = c.epoch → c.scope = some (articleOf p.id))
  follows : ∀ k flow, c.flows.lookup k = some flow → flow.token = c.epoch → c.Follows articleOf flow
  minted : ∀ scope operation, .sent scope operation ∈ c.traffic → operation < c.fresh
  pending : ∀ scope p, c.pendingRequests.lookup scope = some p →
    ∃ operation, p.action.operation = some operation ∧ scope = some (p.action.article articleOf) ∧
      .sent (p.action.article articleOf) operation ∈ c.traffic
  kept : ∀ scope operation, operation ∈ unanswered scope c.traffic →
    c.Awaited scope operation ∨ c.Remembered scope operation
  once : PaysOnce c.traffic

end

section
variable {articleOf : Nat → ChatScope} {c : ChatCore}

theorem Inv.free (h : c.Inv articleOf) (hlock : c.lock = false) {k : Nat} {flow : ChatFlow}
    (hk : c.flows.lookup k = some flow) : ¬ flow.Holds c.epoch := by
  intro hholds
  rw [h.locked.2 ⟨k, flow, hk, hholds⟩] at hlock
  cases hlock

/-- With the lock free, an operation without an answer is remembered. -/
theorem Inv.remembered (h : c.Inv articleOf) (hlock : c.lock = false) {scope : ChatScope} {operation : Nat}
    (ho : operation ∈ unanswered scope c.traffic) : c.Remembered scope operation := by
  rcases h.kept scope operation ho with ⟨k, action, billable, hk, -⟩ | hp
  · exact absurd rfl (h.free hlock hk)
  · exact hp

theorem Inv.accept (h : c.Inv articleOf) {chat : ArticleChat} (hscope : c.scope = some chat.scope)
    (hid : articleOf chat.id = chat.scope) : Inv articleOf { c with chat := some chat } := by
  refine ⟨h.keys, h.one, h.locked, h.opening, ?_, h.polling, h.follows, h.minted, h.pending, h.kept, h.once⟩
  intro _ hchat
  cases hchat
  exact ⟨hscope, hid⟩

theorem Inv.setPoller (h : c.Inv articleOf) (poller : Option ChatPoller)
    (hp : ∀ p, poller = some p → p.token ≤ c.epoch ∧ (p.token = c.epoch → c.scope = some (articleOf p.id))) :
    Inv articleOf { c with poller } :=
  ⟨h.keys, h.one, h.locked, h.opening, h.about, hp, h.follows, h.minted, h.pending, h.kept, h.once⟩

/-- A poll is sent. -/
theorem Inv.poll (h : c.Inv articleOf) {p : ChatPoller} (hp : c.poller = some p) (revision effect : Nat) :
    Inv articleOf
      { c with flows := c.flows.insert c.fresh (.poll p.token revision effect p.id), fresh := c.fresh + 1 } := by
  obtain ⟨hle, hscope⟩ := h.polling p hp
  -- the new flow is a poll, so those that hold the lock are the old ones
  have hold : ∀ k flow, (c.flows.insert c.fresh (.poll p.token revision effect p.id)).lookup k = some flow →
      flow.Holds c.epoch → c.flows.lookup k = some flow := by
    intro k flow hk hholds
    rw [Table.lookup_insert_if] at hk
    split at hk
    · cases hk
      exact hholds.elim
    · exact hk
  have hkeep : ∀ k flow, c.flows.lookup k = some flow →
      (c.flows.insert c.fresh (.poll p.token revision effect p.id)).lookup k = some flow := by
    intro k flow hk
    rw [Table.lookup_insert_if, if_neg (Nat.ne_of_lt (h.keys k flow hk).1), hk]
  refine ⟨?_, ?_, ?_, h.opening, h.about, h.polling, ?_, ?_, h.pending, ?_, h.once⟩
  · intro k flow hk
    dsimp only at hk ⊢
    rw [Table.lookup_insert_if] at hk
    split at hk
    · cases hk
      exact ⟨by omega, hle⟩
    · have := h.keys k flow hk
      exact ⟨by omega, this.2⟩
  · intro k k' flow flow' hk hk' hf hf'
    exact h.one k k' flow flow' (hold k flow hk hf) (hold k' flow' hk' hf') hf hf'
  · rw [h.locked]
    constructor
    · rintro ⟨k, flow, hk, hf⟩
      exact ⟨k, flow, hkeep k flow hk, hf⟩
    · rintro ⟨k, flow, hk, hf⟩
      exact ⟨k, flow, hold k flow hk hf, hf⟩
  · intro k flow hk htoken
    dsimp only at hk htoken
    rw [Table.lookup_insert_if] at hk
    split at hk
    · cases hk
      exact hscope htoken
    · exact h.follows k flow hk htoken
  · intro scope operation ho
    have := h.minted scope operation ho
    dsimp only
    omega
  · intro scope operation ho
    rcases h.kept scope operation ho with ⟨k, action, billable, hk, hop⟩ | hp
    · exact .inl ⟨k, action, billable, hkeep k _ hk, hop⟩
    · exact .inr hp

/-- The function that has the lock ends, and what is left without an answer is remembered. -/
theorem Inv.ends (h : c.Inv articleOf) {k : Nat} {flow : ChatFlow} (hk : c.flows.lookup k = some flow)
    (hholds : flow.Holds c.epoch) (pendingRequests : Table (Option ChatScope) UnresolvedRequest) (answer : Option Nat)
    (hpending : ∀ scope p, pendingRequests.lookup scope = some p →
      ∃ operation, p.action.operation = some operation ∧ scope = some (p.action.article articleOf) ∧
        .sent (p.action.article articleOf) operation ∈ c.traffic)
    (hkept : ∀ scope operation, operation ∈ unanswered scope c.traffic → answer ≠ some operation →
      ∃ p, pendingRequests.lookup (some scope) = some p ∧ p.uncertain = true ∧ p.action.operation = some operation) :
    Inv articleOf
      { c with
        flows := c.flows.erase k
        lock := false
        pendingRequests
        traffic := (answer.map ChatTraffic.answered).toList ++ c.traffic } := by
  have hold : ∀ k' flow', (c.flows.erase k).lookup k' = some flow' → c.flows.lookup k' = some flow' ∧ k' ≠ k := by
    intro k' flow' hk'
    rw [Table.lookup_erase_if] at hk'
    split at hk'
    · cases hk'
    · exact ⟨hk', ‹_›⟩
  have hnone : ∀ k' flow', (c.flows.erase k).lookup k' = some flow' → ¬ flow'.Holds c.epoch := by
    intro k' flow' hk' hf'
    obtain ⟨hk', hne⟩ := hold k' flow' hk'
    exact hne (h.one k' k flow' flow hk' hk hf' hholds)
  refine ⟨?_, ?_, ?_, h.opening, h.about, h.polling, ?_, ?_, ?_, ?_, paysOnce_ended h.once⟩
  · intro k' flow' hk'
    exact h.keys k' flow' (hold k' flow' hk').1
  · intro k' k'' flow' flow'' hk' _ hf' _
    exact absurd hf' (hnone k' flow' hk')
  · constructor
    · intro hlock
      cases hlock
    · rintro ⟨k', flow', hk', hf'⟩
      exact absurd hf' (hnone k' flow' hk')
  · intro k' flow' hk' htoken
    have hnot := hnone k' flow' hk'
    cases flow' with
    | versions token => exact absurd htoken hnot
    | command token => exact absurd htoken hnot
    | poll token revision effect id => exact h.follows k' _ (hold k' _ hk').1 htoken
  · intro scope operation ho
    exact h.minted scope operation (sent_ended.1 ho)
  · intro scope p hp
    obtain ⟨operation, hop, hscope, hsent⟩ := hpending scope p hp
    exact ⟨operation, hop, hscope, sent_ended.2 hsent⟩
  · intro scope operation ho
    obtain ⟨ho, hne⟩ := unanswered_ended ho
    exact .inr (hkept scope operation ho hne)

/-- A function of an old epoch ends, or a poll. -/
theorem Inv.stale (h : c.Inv articleOf) {k : Nat} {flow : ChatFlow} (hk : c.flows.lookup k = some flow)
    (hholds : ¬ flow.Holds c.epoch) (answer : Option Nat) :
    Inv articleOf
      { c with
        flows := c.flows.erase k
        traffic := (answer.map ChatTraffic.answered).toList ++ c.traffic } := by
  have hold : ∀ k' flow', (c.flows.erase k).lookup k' = some flow' → c.flows.lookup k' = some flow' := by
    intro k' flow' hk'
    rw [Table.lookup_erase_if] at hk'
    split at hk'
    · cases hk'
    · exact hk'
  have hkeep : ∀ k' flow', c.flows.lookup k' = some flow' → flow'.Holds c.epoch →
      (c.flows.erase k).lookup k' = some flow' := by
    intro k' flow' hk' hf'
    rw [Table.lookup_erase_if, if_neg, hk']
    rintro rfl
    rw [hk] at hk'
    cases hk'
    exact hholds hf'
  refine ⟨?_, ?_, ?_, h.opening, h.about, h.polling, ?_, ?_, ?_, ?_, paysOnce_ended h.once⟩
  · intro k' flow' hk'
    exact h.keys k' flow' (hold k' flow' hk')
  · intro k' k'' flow' flow'' hk' hk''
    exact h.one k' k'' flow' flow'' (hold k' flow' hk') (hold k'' flow'' hk'')
  · rw [h.locked]
    constructor
    · rintro ⟨k', flow', hk', hf'⟩
      exact ⟨k', flow', hkeep k' flow' hk' hf', hf'⟩
    · rintro ⟨k', flow', hk', hf'⟩
      exact ⟨k', flow', hold k' flow' hk', hf'⟩
  · intro k' flow' hk' htoken
    have hfollows := h.follows k' flow' (hold k' flow' hk') htoken
    cases flow' with
    | versions token target => exact hfollows
    | command token action scope billable =>
      obtain ⟨h₁, h₂, h₃, hsent, h₅⟩ := hfollows
      exact ⟨h₁, h₂, h₃, fun operation hop => sent_ended.2 (hsent operation hop), h₅⟩
    | poll token revision effect id => exact hfollows
  · intro scope operation ho
    exact h.minted scope operation (sent_ended.1 ho)
  · intro scope p hp
    obtain ⟨operation, hop, hscope, hsent⟩ := h.pending scope p hp
    exact ⟨operation, hop, hscope, sent_ended.2 hsent⟩
  · intro scope operation ho
    rcases h.kept scope operation (unanswered_ended ho).1 with ⟨k', action, billable, hk', hop⟩ | hp
    · exact .inl ⟨k', action, billable, hkeep k' _ hk' rfl, hop⟩
    · exact .inr hp

/-- The flows after a new one that has the lock, where none had it before. -/
theorem insert_holds {epoch fresh : Nat} {flows : Table Nat ChatFlow} {new : ChatFlow}
    (hfree : ∀ k flow, flows.lookup k = some flow → ¬ flow.Holds epoch) {k : Nat} {flow : ChatFlow}
    (hk : (flows.insert fresh new).lookup k = some flow) (hholds : flow.Holds epoch) : k = fresh ∧ flow = new := by
  rw [Table.lookup_insert_if] at hk
  split at hk
  · exact ⟨‹_›, (Option.some.inj hk).symm⟩
  · exact absurd hholds (hfree k flow hk)

/-- A request is sent with the lock free. Where its operation is not new, it was sent before. -/
theorem Inv.request (h : c.Inv articleOf) (hlock : c.lock = false) {action : ChatRequest} {billable : Bool}
    (hscope : c.scope = some (action.article articleOf)) (hbillable : billable = action.operation.isSome)
    (hprior : billable = true → ∀ p, c.pendingRequests.lookup c.scope = some p → p.uncertain = true → p.action = action)
    (hnew : ∀ operation, action.operation = some operation →
      operation = c.fresh ∨ .sent (action.article articleOf) operation ∈ c.traffic) :
    Inv articleOf
      { c with
        lock := true
        flows := c.flows.insert c.fresh (.command c.epoch action c.scope billable)
        fresh := c.fresh + 1
        traffic := (action.operation.map (ChatTraffic.sent (action.article articleOf))).toList ++ c.traffic } := by
  have hfree : ∀ k flow, c.flows.lookup k = some flow → ¬ flow.Holds c.epoch := fun _ _ hk => h.free hlock hk
  have hself : (c.flows.insert c.fresh (.command c.epoch action c.scope billable)).lookup c.fresh =
      some (.command c.epoch action c.scope billable) := by
    rw [Table.lookup_insert_if, if_pos rfl]
  have hsub : ∀ t ∈ c.traffic,
      t ∈ (action.operation.map (ChatTraffic.sent (action.article articleOf))).toList ++ c.traffic :=
    fun t ht => List.mem_append_right _ ht
  refine ⟨?_, ?_, ?_, h.opening, h.about, h.polling, ?_, ?_, ?_, ?_, ?_⟩
  · intro k flow hk
    dsimp only at hk ⊢
    rw [Table.lookup_insert_if] at hk
    split at hk
    · cases hk
      exact ⟨by omega, le_rfl⟩
    · have := h.keys k flow hk
      exact ⟨by omega, this.2⟩
  · intro k k' flow flow' hk hk' hf hf'
    rw [(insert_holds hfree hk hf).1, (insert_holds hfree hk' hf').1]
  · exact ⟨fun _ => ⟨c.fresh, _, hself, rfl⟩, fun _ => rfl⟩
  · intro k flow hk htoken
    dsimp only at hk htoken
    rw [Table.lookup_insert_if] at hk
    split at hk
    · cases hk
      refine ⟨hscope, rfl, hbillable, fun operation hop => ?_, hprior⟩
      rw [hop]
      exact List.mem_cons_self
    · -- what is left of the epoch are polls
      have hnot := hfree k flow hk
      cases flow with
      | versions token => exact absurd htoken hnot
      | command token => exact absurd htoken hnot
      | poll token revision effect id => exact h.follows k _ hk htoken
  · intro scope operation ho
    dsimp only at ho ⊢
    rcases List.mem_append.1 ho with ho | ho
    · obtain ⟨o, hop, he⟩ := Option.map_eq_some_iff.1 (Option.mem_toList.1 ho)
      cases he
      rcases hnew operation hop with rfl | hsent
      · exact Nat.lt_succ_self _
      · exact Nat.lt_succ_of_lt (h.minted _ _ hsent)
    · exact Nat.lt_succ_of_lt (h.minted _ _ ho)
  · intro scope p hp
    obtain ⟨operation, hop, hscope, hsent⟩ := h.pending scope p hp
    exact ⟨operation, hop, hscope, hsub _ hsent⟩
  · intro scope operation ho
    dsimp only at ho
    cases hop : action.operation with
    | none =>
      rw [hop] at ho
      exact .inr (h.remembered hlock ho)
    | some o =>
      rw [hop] at ho
      rcases mem_unanswered_sent.1 ho with ⟨hs, rfl⟩ | ho
      · rw [hs] at hscope
        exact .inl ⟨c.fresh, action, billable, by rw [← hscope]; exact hself, hop⟩
      · exact .inr (h.remembered hlock ho)
  · dsimp only
    cases hop : action.operation with
    | none => exact h.once
    | some o =>
      refine ⟨?_, h.once⟩
      by_cases hsent : .sent (action.article articleOf) o ∈ c.traffic
      · exact .inl hsent
      · -- an operation without an answer would be remembered, and the request would have been refused
        refine .inr (List.eq_nil_iff_forall_not_mem.2 fun o' ho' => ?_)
        obtain ⟨p, hp, huncertain, hpop⟩ := h.remembered hlock ho'
        rw [← hscope] at hp
        rw [hprior (by rw [hbillable, hop]; rfl) p hp huncertain, hop] at hpop
        cases hpop
        exact hsent (sent_of_unanswered ho')

/-- The hook turns to an article, where every operation that is waited for is remembered. -/
theorem Inv.open (h : c.Inv articleOf) (target : ChatTarget) (requestGeneration pendingRequest : Bool)
    (profile : Option AiProfile)
    (hsettled : ∀ scope operation, c.Awaited scope operation → c.Remembered scope operation) :
    Inv articleOf
      { c with
        scope := some (targetScope target)
        chat := none
        lock := true
        epoch := c.epoch + 1
        openingScope := some (targetScope target)
        flows := c.flows.insert c.fresh (.versions (c.epoch + 1) target requestGeneration pendingRequest profile)
        fresh := c.fresh + 1 } := by
  have hfree : ∀ k flow, c.flows.lookup k = some flow → ¬ flow.Holds (c.epoch + 1) := by
    intro k flow hk hholds
    have hle := (h.keys k flow hk).2
    rw [hholds.token_eq] at hle
    omega
  refine ⟨?_, ?_, ?_, rfl, ?_, ?_, ?_, ?_, h.pending, ?_, h.once⟩
  · intro k flow hk
    dsimp only at hk ⊢
    rw [Table.lookup_insert_if] at hk
    split at hk
    · cases hk
      exact ⟨by omega, le_rfl⟩
    · have := h.keys k flow hk
      exact ⟨by omega, by omega⟩
  · intro k k' flow flow' hk hk' hf hf'
    rw [(insert_holds hfree hk hf).1, (insert_holds hfree hk' hf').1]
  · refine ⟨fun _ => ⟨c.fresh, .versions (c.epoch + 1) target requestGeneration pendingRequest profile, ?_, rfl⟩,
      fun _ => rfl⟩
    rw [Table.lookup_insert_if, if_pos rfl]
  · intro chat hchat
    cases hchat
  · intro p hp
    have hle := (h.polling p hp).1
    exact ⟨Nat.le_succ_of_le hle, fun e => absurd hle (by dsimp only at e; omega)⟩
  · intro k flow hk htoken
    dsimp only at hk htoken
    rw [Table.lookup_insert_if] at hk
    split at hk
    · cases hk
      rfl
    · have hle := (h.keys k flow hk).2
      omega
  · intro scope operation ho
    exact Nat.lt_succ_of_lt (h.minted scope operation ho)
  · intro scope operation ho
    rcases h.kept scope operation ho with ha | hp
    · exact .inr (hsettled scope operation ha)
    · exact .inr hp

end

end ChatCore

/-! ## The steps of a session -/

theorem ChatHook.not_refuses {h : ChatHook} {action : ChatRequest} {scope : Option ChatScope} {billable : Bool}
    (hr : h.refuses action scope billable = false) :
    h.lock = false ∧ (billable = true → ∀ p, h.pendingRequests.lookup scope = some p → p.uncertain = true →
      p.action = action) := by
  unfold ChatHook.refuses at hr
  obtain ⟨hlock, hprior⟩ := Bool.or_eq_false_iff.1 hr
  refine ⟨hlock, fun hbillable p hp huncertain => ?_⟩
  rw [hbillable, hp] at hprior
  simpa [huncertain] using hprior

namespace ChatSession

/-- The operation of a flow that waits under the epoch is remembered as uncertain. -/
def remembers (s : ChatSession) : ChatFlow → Bool
  | .command token action scope billable =>
    token != s.hook.epoch || !billable ||
      (s.hook.pendingRequests.lookup scope).any fun p => p.uncertain && p.action == action
  | _ => true

/-- Another article is opened only when no billable request waits for its answer, unless it repeats one whose
outcome is unknown. -/
def Settled (s : ChatSession) : ChatClick → Prop
  | .open target _ =>
    (s.hook.lock = true ∧ s.hook.openingScope = some (targetScope target)) ∨
      s.flows.rows.all (fun row => s.remembers row.2) = true
  | _ => True

instance (s : ChatSession) (click : ChatClick) : Decidable (s.Settled click) :=
  match click with
  | .open _ _ => inferInstanceAs (Decidable (_ ∨ _))
  | .profile _ | .send | .retry | .stop | .reconnect | .close | .setDraft _ | .poll | .saved _ _ | .accepted _ _
  | .polled _ _ _ | .failed _ _ _ => inferInstanceAs (Decidable True)

section
variable {articleOf : Nat → ChatScope} {s : ChatSession}

theorem Settled.remembered (h : s.core.Inv articleOf) (hs : s.flows.rows.all (fun row => s.remembers row.2) = true)
    {scope : ChatScope} {operation : Nat} (ha : s.core.Awaited scope operation) : s.core.Remembered scope operation := by
  obtain ⟨k, action, billable, hk, hop⟩ := ha
  have hall := List.all_eq_true.1 hs (k, _) (Table.mem_rows.2 hk)
  obtain ⟨-, -, hbillable, -⟩ := h.follows k _ hk rfl
  rw [hop] at hbillable
  subst hbillable
  simp only [remembers, core, bne_self_eq_false, Option.isSome_some, Bool.not_true, Bool.false_or] at hall
  obtain ⟨p, hp, hpa⟩ := Option.any_eq_true _ _ |>.1 hall
  obtain ⟨huncertain, haction⟩ := Bool.and_eq_true_iff.1 hpa
  rw [beq_iff_eq] at haction
  exact ⟨p, hp, huncertain, by rw [haction, hop]⟩

theorem command_inv (h : s.core.Inv articleOf) (label : String) {action : ChatRequest} {billable : Bool}
    (hscope : s.hook.scope = some (action.article articleOf)) (hbillable : billable = action.operation.isSome)
    (hnew : ∀ operation, action.operation = some operation →
      operation = s.fresh ∨ .sent (action.article articleOf) operation ∈ s.traffic) :
    (s.command articleOf label action s.hook.scope billable).core.Inv articleOf := by
  unfold command
  split
  · exact h
  · rename_i hrefuses
    obtain ⟨hlock, hprior⟩ := ChatHook.not_refuses (Bool.not_eq_true _ ▸ hrefuses)
    exact h.request hlock hscope hbillable hprior hnew

theorem openChat_inv (h : s.core.Inv articleOf) (target : ChatTarget) (requestGeneration : Bool)
    (hs : (s.hook.lock = true ∧ s.hook.openingScope = some (targetScope target)) ∨
      s.flows.rows.all (fun row => s.remembers row.2) = true) :
    (s.openChat target requestGeneration).core.Inv articleOf := by
  unfold openChat
  dsimp only
  split
  · exact h
  · rename_i hguard
    exact h.open target requestGeneration _ _ fun scope operation ha =>
      Settled.remembered h (hs.resolve_left hguard) ha

theorem orderedVersions_mem {values : List ArticleChat} {chat : ArticleChat}
    (h : (orderedVersions values).head? = some chat) : chat ∈ values :=
  (List.mem_insertionSort _).1 (List.mem_of_head? h)

/-- While the lock is held for the versions, no operation is waited for. -/
theorem kept_of_versions (h : s.core.Inv articleOf) {k token : Nat} {target : ChatTarget}
    {requestGeneration pendingRequest : Bool} {profile : Option AiProfile}
    (hk : s.flows.lookup k = some (.versions token target requestGeneration pendingRequest profile))
    (htoken : token = s.hook.epoch) {scope : ChatScope} {operation : Nat} (ho : operation ∈ unanswered scope s.traffic) :
    s.core.Remembered scope operation := by
  rcases h.kept scope operation ho with ⟨k', action, billable, hk', -⟩ | hp
  · rw [h.one k' k _ _ hk' hk rfl htoken] at hk'
    cases hk.symm.trans hk'
  · exact hp

/-- The answer to the request of `open` ends its wait, and its command may begin. -/
theorem loaded_inv (h : s.core.Inv articleOf) {k token : Nat} {target : ChatTarget}
    {requestGeneration pendingRequest : Bool} {profile : Option AiProfile} {values : List ArticleChat}
    (hk : s.flows.lookup k = some (.versions token target requestGeneration pendingRequest profile))
    (htoken : token = s.hook.epoch)
    (hvalues : ∀ chat ∈ values, articleOf chat.id = chat.scope ∧ chat.scope = targetScope target) :
    ((s.ended k none).loaded articleOf target requestGeneration pendingRequest profile values).core.Inv articleOf := by
  have hscope : s.hook.scope = some (targetScope target) := h.follows k _ hk htoken
  have hended := h.ends hk htoken s.hook.pendingRequests none h.pending fun scope operation ho _ =>
    kept_of_versions h hk htoken ho
  generalize hh : ((((orderedVersions values).head?).map s.hook.accept).getD s.hook) = hook
  have hinv : ({ s.ended k none with hook := hook.release } : ChatSession).core.Inv articleOf := by
    cases hv : (orderedVersions values).head? with
    | none =>
      rw [hv] at hh
      subst hh
      exact hended
    | some chat =>
      rw [hv] at hh
      subst hh
      obtain ⟨hid, hchat⟩ := hvalues chat (orderedVersions_mem hv)
      exact hended.accept (hscope.trans (congrArg some hchat.symm)) hid
  have hhook : hook.scope = some (targetScope target) := by
    rw [← hh]
    cases (orderedVersions values).head? <;> exact hscope
  unfold loaded
  simp only [show (s.ended k none).hook = s.hook from rfl, hh]
  split
  · exact hinv
  split
  · exact hinv
  split
  · exact hinv
  split
  · exact hinv
  split
  · exact hinv
  · rename_i hrefuses
    obtain ⟨-, hprior⟩ := ChatHook.not_refuses (Bool.not_eq_true _ ▸ hrefuses)
    rw [← hhook] at hprior ⊢
    exact hinv.request rfl hhook rfl hprior fun operation hop => .inl (Option.some.inj hop).symm

theorem answeredBy_scope {action : ChatRequest} {chat : ArticleChat} (h : action.answeredBy articleOf chat = true) :
    articleOf chat.id = chat.scope ∧ chat.scope = action.article articleOf := by
  cases action with
  | «open» scope operation => simpa [ChatRequest.answeredBy, ChatRequest.article] using h
  | send id | retry id | stop id | get id =>
    simp only [ChatRequest.answeredBy, decide_eq_true_eq] at h
    obtain ⟨hchat, rfl⟩ := h
    exact ⟨hchat, hchat.symm⟩

/-- What is left without an answer when the request with the lock ends: other operations are not waited for. -/
theorem kept_of_command (h : s.core.Inv articleOf) {k token : Nat} {action : ChatRequest} {scope : Option ChatScope}
    {billable : Bool} (hk : s.flows.lookup k = some (.command token action scope billable)) (htoken : token = s.hook.epoch)
    {a : ChatScope} {operation : Nat} (ho : operation ∈ unanswered a s.traffic) (hne : action.operation ≠ some operation) :
    s.core.Remembered a operation := by
  rcases h.kept a operation ho with ⟨k', action', billable', hk', hop⟩ | hp
  · rw [h.one k' k _ _ hk' hk rfl htoken] at hk'
    cases hk.symm.trans hk'
    exact absurd hop hne
  · exact hp

/-- A remembered operation of the article of a request is the operation of that request. -/
theorem remembered_of_command (h : s.core.Inv articleOf) {k token : Nat} {action : ChatRequest}
    {scope : Option ChatScope} (hk : s.flows.lookup k = some (.command token action scope true))
    (htoken : token = s.hook.epoch) {a : ChatScope} {operation : Nat} (hp : s.core.Remembered a operation)
    (hne : action.operation ≠ some operation) : some a ≠ scope := by
  rintro rfl
  obtain ⟨p, hp, huncertain, hop⟩ := hp
  obtain ⟨-, -, -, -, hprior⟩ := h.follows k _ hk htoken
  rw [hprior rfl p hp huncertain] at hop
  exact hne hop

theorem core_succeeded (chat : ArticleChat) (action : ChatRequest) (scope : Option ChatScope) (billable : Bool) :
    ({ s with hook := s.hook.succeeded chat action scope billable } : ChatSession).core =
      { s.core with
        chat := some chat
        lock := false
        pendingRequests := if billable then s.hook.pendingRequests.erase scope else s.hook.pendingRequests } := by
  have hafter : ∃ drafts, (s.hook.accept chat).after action = { s.hook.accept chat with drafts } := by
    cases action with
    | send id operation content =>
      unfold ChatHook.after
      dsimp only
      split
      · exact ⟨_, rfl⟩
      · exact ⟨s.hook.drafts, rfl⟩
    | «open» | retry | stop | get => exact ⟨s.hook.drafts, rfl⟩
  obtain ⟨drafts, hafter⟩ := hafter
  unfold ChatHook.succeeded
  rw [hafter]
  cases billable <;> dsimp only <;> split <;> rfl

theorem succeeded_inv (h : s.core.Inv articleOf) {k token : Nat} {action : ChatRequest} {scope : Option ChatScope}
    {billable : Bool} (hk : s.flows.lookup k = some (.command token action scope billable)) (htoken : token = s.hook.epoch)
    {chat : ArticleChat} (hanswer : action.answeredBy articleOf chat = true) :
    ({ s.ended k action.operation with hook := s.hook.succeeded chat action scope billable } : ChatSession).core.Inv
      articleOf := by
  obtain ⟨hid, hchat⟩ := answeredBy_scope hanswer
  obtain ⟨hscope, -, -, -, -⟩ := h.follows k _ hk htoken
  have hended := h.ends hk htoken
    (if billable then s.hook.pendingRequests.erase scope else s.hook.pendingRequests) action.operation
    (fun a p hp => by
      split at hp
      · rw [Table.lookup_erase_if] at hp
        split at hp
        · cases hp
        · exact h.pending a p hp
      · exact h.pending a p hp)
    (fun a operation ho hne => by
      have hp := kept_of_command h hk htoken ho hne
      cases billable with
      | false => exact hp
      | true =>
        have hother := remembered_of_command h hk htoken hp hne
        rw [if_pos rfl, Table.lookup_erase_if, if_neg hother]
        exact hp)
  have hcore := core_succeeded (s := s.ended k action.operation) chat action scope billable
  rw [show (s.ended k action.operation).hook = s.hook from rfl] at hcore
  rw [hcore]
  exact hended.accept (hscope.trans (congrArg some hchat.symm)) hid

theorem rejected_inv (h : s.core.Inv articleOf) {k token : Nat} {action : ChatRequest} {scope : Option ChatScope}
    {billable : Bool} (hk : s.flows.lookup k = some (.command token action scope billable)) (htoken : token = s.hook.epoch)
    (status : Option Nat) (message : Option String) :
    ({ s.ended k (if definiteRejection status then action.operation else none) with
      hook := s.hook.rejected status message action scope billable } : ChatSession).core.Inv articleOf := by
  obtain ⟨hscope, hopen, hbillable, hsent, -⟩ := h.follows k _ hk htoken
  have hscope' : scope = some (action.article articleOf) := hopen.trans hscope
  have hended := h.ends hk htoken
    (if billable then
      s.hook.pendingRequests.insert scope
        ⟨action, (s.hook.rejected status message action scope billable).error, !definiteRejection status⟩
    else s.hook.pendingRequests)
    (if definiteRejection status then action.operation else none) ?_ ?_
  · exact hended
  · intro a p hp
    split at hp
    · rename_i hb
      rw [Table.lookup_insert_if] at hp
      split at hp
      · -- the request that failed
        cases hp
        rw [hb] at hbillable
        obtain ⟨operation, hop⟩ := Option.isSome_iff_exists.1 hbillable.symm
        exact ⟨operation, hop, by rw [← hscope']; assumption, hsent operation hop⟩
      · exact h.pending a p hp
    · exact h.pending a p hp
  · intro a operation ho hne
    by_cases hop : action.operation = some operation
    · have hlost : definiteRejection status = false := by
        rw [← Bool.not_eq_true]
        intro hdefinite
        rw [if_pos hdefinite] at hne
        exact hne hop
      have hb : billable = true := by rw [hbillable, hop]; rfl
      rw [if_pos hb, Table.lookup_insert_if]
      split
      · exact ⟨_, rfl, by rw [hlost]; rfl, hop⟩
      · rename_i hother
        rcases h.kept a operation ho with ⟨k', action', billable', hk', -⟩ | hp
        · rw [h.one k' k _ _ hk' hk rfl htoken] at hk'
          cases hk.symm.trans hk'
          exact absurd rfl hother
        · exact hp
    · have hp := kept_of_command h hk htoken ho hop
      split
      · rename_i hb
        subst hb
        rw [Table.lookup_insert_if, if_neg (remembered_of_command h hk htoken hp hop)]
        exact hp
      · exact hp

/-! ## Every step -/

theorem send_inv (h : s.core.Inv articleOf) : (s.send articleOf).core.Inv articleOf := by
  unfold send
  split
  · rename_i chat hchat
    split
    · obtain ⟨hscope, hid⟩ := h.about chat hchat
      exact command_inv h _ (hscope.trans (congrArg some hid.symm)) rfl
        fun operation hop => .inl (Option.some.inj hop).symm
    · exact h
  · exact h

theorem retry_inv (h : s.core.Inv articleOf) : (s.retry articleOf).core.Inv articleOf := by
  unfold retry
  split
  · rename_i p hp
    obtain ⟨operation, hop, hscope, hsent⟩ := h.pending _ p hp
    exact command_inv h _ hscope (by rw [hop]; rfl) fun o ho => .inr (by
      rw [hop] at ho
      cases ho
      exact hsent)
  · split
    · rename_i chat hchat
      split
      · obtain ⟨hscope, hid⟩ := h.about chat hchat
        exact command_inv h _ (hscope.trans (congrArg some hid.symm)) rfl
          fun operation hop => .inl (Option.some.inj hop).symm
      · exact h
    · exact h

theorem stop_inv (h : s.core.Inv articleOf) : (s.stop articleOf).core.Inv articleOf := by
  unfold stop
  split
  · rename_i chat hchat
    split
    · obtain ⟨hscope, hid⟩ := h.about chat hchat
      exact command_inv h _ (hscope.trans (congrArg some hid.symm)) rfl fun operation hop => by cases hop
    · exact h
  · exact h

theorem reconnect_inv (h : s.core.Inv articleOf) : (s.reconnect articleOf).core.Inv articleOf := by
  unfold reconnect
  split
  · rename_i chat hchat
    obtain ⟨hscope, hid⟩ := h.about chat hchat
    exact command_inv h _ (hscope.trans (congrArg some hid.symm)) rfl fun operation hop => by cases hop
  · rename_i target _ htarget
    -- the article is the one that is open, so the lock is free here or nothing happens
    have hscope : s.hook.scope = some (targetScope target) := by rw [ChatHook.scope, htarget]; rfl
    unfold openChat
    dsimp only
    split
    · exact h
    · rename_i hguard
      have hlock : s.hook.lock = false := by
        rw [← Bool.not_eq_true]
        exact fun hlock => hguard ⟨hlock, h.opening.trans hscope⟩
      refine h.open target false _ _ fun scope operation hawaited => ?_
      obtain ⟨k, action, billable, hk, -⟩ := hawaited
      exact absurd rfl (h.free hlock hk)
  · exact h

theorem polled_inv (h : s.core.Inv articleOf) {k token revision effect id : Nat}
    (hk : s.flows.lookup k = some (.poll token revision effect id)) (htoken : token = s.hook.epoch)
    {next : Option ArticleChat} (hnext : ∀ chat, next = some chat → articleOf chat.id = chat.scope ∧ chat.id = id)
    (f : ChatPoller → ChatPoller) (hf : ∀ p, (f p).token = p.token ∧ (f p).id = p.id) :
    ({ s.ended k none with
      hook := (next.map { s.hook with poller := s.hook.poller.map f }.accept).getD
        { s.hook with poller := s.hook.poller.map f } } : ChatSession).core.Inv articleOf := by
  have hscope := h.follows k _ hk htoken
  have hstale := (h.stale hk (fun hf => hf) none).setPoller (s.hook.poller.map f) fun p hp => by
    obtain ⟨p', hp', rfl⟩ := Option.map_eq_some_iff.1 hp
    rw [(hf p').1, (hf p').2]
    exact h.polling p' hp'
  cases next with
  | none => exact hstale
  | some chat =>
    obtain ⟨hid, rfl⟩ := hnext chat rfl
    exact hstale.accept (hscope.trans (congrArg some hid)) hid

theorem act_inv (h : s.core.Inv articleOf) {click : ChatClick} (hs : s.Settled click) {t : ChatSession}
    (hact : s.act articleOf click = some t) : t.core.Inv articleOf := by
  cases click with
  | profile profile =>
    cases hact
    exact h
  | «open» target requestGeneration =>
    cases hact
    exact openChat_inv h target requestGeneration hs
  | send =>
    cases hact
    exact send_inv h
  | retry =>
    cases hact
    exact retry_inv h
  | stop =>
    cases hact
    exact stop_inv h
  | reconnect =>
    cases hact
    exact reconnect_inv h
  | close =>
    cases hact
    exact h
  | setDraft value =>
    cases hact
    unfold setDraft
    split
    · exact h
    · exact h
  | poll =>
    simp only [act] at hact
    split at hact
    · rename_i poller hp
      split at hact
      · cases hact
        exact (h.poll hp s.hook.revision s.hook.effects).setPoller (some { poller with armed := false }) fun p hp' => by
          cases hp'
          exact h.polling poller hp
      · cases hact
        exact h
    · cases hact
  | saved flow values =>
    simp only [act] at hact
    split at hact
    · rename_i token target requestGeneration pendingRequest profile hk
      split at hact
      · rename_i hvalues
        have hvalues' : ∀ chat ∈ values, articleOf chat.id = chat.scope ∧ chat.scope = targetScope target := by
          simpa using hvalues
        split at hact
        · rename_i htoken
          cases hact
          exact loaded_inv h hk htoken hvalues'
        · rename_i htoken
          cases hact
          exact h.stale hk htoken none
      · cases hact
    · cases hact
  | accepted flow chat =>
    simp only [act] at hact
    split at hact
    · rename_i token action scope billable hk
      split at hact
      · rename_i hanswer
        split at hact
        · rename_i htoken
          cases hact
          exact succeeded_inv h hk htoken hanswer
        · rename_i htoken
          cases hact
          exact h.stale hk htoken action.operation
      · cases hact
    · cases hact
  | polled flow next revision =>
    simp only [act] at hact
    split at hact
    · rename_i token requestRevision effect id hk
      split at hact
      · rename_i hnext
        split at hact
        · rename_i hguard
          cases hact
          refine polled_inv h hk hguard.2.1 (fun chat hchat => ?_) _ fun p => ⟨rfl, rfl⟩
          subst hchat
          simpa using hnext
        · cases hact
          exact h.stale hk (fun hf => hf) none
      · cases hact
    · cases hact
  | failed flow status message =>
    simp only [act] at hact
    split at hact
    · rename_i token target requestGeneration pendingRequest profile hk
      split at hact
      · rename_i htoken
        cases hact
        exact h.ends hk htoken s.hook.pendingRequests none h.pending fun scope operation ho _ =>
          kept_of_versions h hk htoken ho
      · rename_i htoken
        cases hact
        exact h.stale hk htoken none
    · rename_i token action scope billable hk
      by_cases htoken : token = s.hook.epoch
      · rw [if_pos htoken] at hact
        cases hact
        exact rejected_inv h hk htoken status message
      · rw [if_neg htoken] at hact
        cases hact
        exact h.stale hk htoken _
    · rename_i token requestRevision effect id hk
      split at hact
      · cases hact
        exact h.stale hk (fun hf => hf) none
      · cases hact
        exact h.stale hk (fun hf => hf) none
    · cases hact

theorem step_inv (h : s.core.Inv articleOf) {click : ChatClick} (hs : s.Settled click) {t : ChatSession}
    (hstep : s.step articleOf click = some t) : t.core.Inv articleOf := by
  obtain ⟨u, hact, rfl⟩ := Option.map_eq_some_iff.1 hstep
  have hu := act_inv h hs hact
  refine hu.setPoller (s.hook.rendered u.hook).poller fun p hp => ?_
  dsimp only [ChatHook.rendered] at hp
  split at hp
  · exact hu.polling p hp
  · unfold ChatHook.polling at hp
    split at hp
    · rename_i chat hchat
      split at hp
      · cases hp
        obtain ⟨hscope, hid⟩ := hu.about chat hchat
        exact ⟨le_rfl, fun _ => hscope.trans (congrArg some hid.symm)⟩
      · cases hp
    · cases hp

theorem initial_inv : ({} : ChatSession).core.Inv articleOf where
  keys k flow hk := by cases hk
  one k k' flow flow' hk := by cases hk
  locked := by
    constructor
    · intro hlock
      cases hlock
    · rintro ⟨k, flow, hk, -⟩
      cases hk
  opening := rfl
  about chat hchat := by cases hchat
  polling p hp := by cases hp
  follows k flow hk := by cases hk
  minted scope operation ho := by cases ho
  pending scope p hp := by cases hp
  kept scope operation ho := by cases ho
  once := trivial

end

/-! ## Repeating a request -/

section
variable (articleOf : Nat → ChatScope) (s : ChatSession)

/-- After these clicks the operation is sent once more, and nothing else is. -/
def Repeats (clicks : List ChatClick) (scope : ChatScope) (operation : Nat) : Prop :=
  ∃ t, run (step articleOf) s clicks = some t ∧ t.traffic = .sent scope operation :: s.traffic

/-- The answers to the request with which the article is opened. -/
def OpeningAnswer (scope : ChatScope) (flow : Nat) : ChatClick → Prop
  | .saved k values => k = flow ∧ ∀ chat ∈ values, articleOf chat.id = chat.scope ∧ chat.scope = scope
  | .failed k _ _ => k = flow
  | _ => False

/-- A request that concerns the article is in progress, and when it is lost Retry sends the operation; or Retry sends it
after the article is opened, whatever the answer is. -/
def CanRepeat (scope : ChatScope) (operation : Nat) : Prop :=
  (∃ flow, ∀ status message, definiteRejection status = false →
    s.Repeats articleOf [.failed flow status message, .retry] scope operation) ∨
  ∀ target requestGeneration answer, targetScope target = scope → OpeningAnswer articleOf scope s.fresh answer →
    s.Repeats articleOf [.open target requestGeneration, answer, .retry] scope operation

end

section
variable {articleOf : Nat → ChatScope} {s : ChatSession}

/-- The remembered request of an operation is about the article under which it is remembered. -/
theorem article_of_remembered (h : s.core.Inv articleOf) {scope : ChatScope} {operation : Nat}
    (hp : s.core.Remembered scope operation) :
    ∃ p, s.hook.pendingRequests.lookup (some scope) = some p ∧ p.action.operation = some operation ∧
      p.action.article articleOf = scope := by
  obtain ⟨p, hp, -, hop⟩ := hp
  obtain ⟨-, -, harticle, -⟩ := h.pending _ p hp
  exact ⟨p, hp, hop, (Option.some.inj harticle).symm⟩

theorem retry_sends (hlock : s.hook.lock = false) {scope : ChatScope} {operation : Nat} {p : UnresolvedRequest}
    (hscope : s.hook.scope = some scope) (hp : s.hook.pendingRequests.lookup (some scope) = some p)
    (hop : p.action.operation = some operation) (harticle : p.action.article articleOf = scope) :
    ∃ t, s.step articleOf .retry = some t ∧ t.traffic = .sent scope operation :: s.traffic := by
  have hfree : s.hook.refuses p.action (some scope) true = false := by
    simp [ChatHook.refuses, hlock, hp]
  have hretry : s.retry articleOf = s.request articleOf (s.hook.began "Retrying request") p.action (some scope) true := by
    unfold retry command
    rw [hscope, hp]
    dsimp only
    rw [hfree, if_neg Bool.false_ne_true]
  refine ⟨_, rfl, ?_⟩
  show (s.retry articleOf).traffic = _
  rw [hretry, ← harticle]
  simp [request, hop]

/-- When the request that has the lock is lost, what was remembered and what was waited for is remembered. -/
theorem failed_remembers (h : s.core.Inv articleOf) {k : Nat} {flow : ChatFlow} (hk : s.flows.lookup k = some flow)
    (hholds : flow.Holds s.hook.epoch) {scope : ChatScope} {operation : Nat}
    (ho : operation ∈ unanswered scope s.traffic) {status : Option Nat} (message : Option String)
    (hlost : definiteRejection status = false) :
    ∃ t, s.step articleOf (.failed k status message) = some t ∧ t.traffic = s.traffic ∧ t.core.Inv articleOf ∧
      t.hook.lock = false ∧ t.hook.scope = s.hook.scope ∧ t.core.Remembered scope operation := by
  have hstep : ∃ t, s.step articleOf (.failed k status message) = some t ∧ t.traffic = s.traffic ∧
      t.hook.lock = false ∧ t.hook.scope = s.hook.scope := by
    cases flow with
    | versions token target requestGeneration pendingRequest profile =>
      have htoken : token = s.hook.epoch := hholds
      simp only [step, act, hk, if_pos htoken, Option.map_some]
      exact ⟨_, rfl, rfl, rfl, rfl⟩
    | command token action scope billable =>
      have htoken : token = s.hook.epoch := hholds
      simp only [step, act, hk, if_pos htoken, Option.map_some, hlost]
      exact ⟨_, rfl, rfl, rfl, rfl⟩
    | poll token revision effect id => exact hholds.elim
  obtain ⟨t, hstep, htraffic, hlock, hscope⟩ := hstep
  have ht : t.core.Inv articleOf := step_inv h (show s.Settled (.failed k status message) from trivial) hstep
  refine ⟨t, hstep, htraffic, ht, hlock, hscope, ht.remembered hlock ?_⟩
  rw [show t.core.traffic = s.traffic from htraffic]
  exact ho

theorem loaded_pending (target : ChatTarget) (requestGeneration : Bool) (profile : Option AiProfile)
    (values : List ArticleChat) :
    ∃ hook : ChatHook, s.loaded articleOf target requestGeneration true profile values = { s with hook := hook.release } ∧
      hook.scope = s.hook.scope ∧ hook.pendingRequests = s.hook.pendingRequests := by
  refine ⟨(((orderedVersions values).head?).map s.hook.accept).getD s.hook, ?_, ?_⟩
  · unfold loaded
    dsimp only
    split
    · rfl
    · rw [if_pos rfl]
  · cases (orderedVersions values).head? with
    | none => exact ⟨rfl, rfl⟩
    | some chat => exact ⟨rfl, rfl⟩

/-- Opening an article with a remembered operation sends nothing, whatever the answer is. -/
theorem open_remembers {target : ChatTarget} {r : Bool}
    (hguard : ¬ (s.hook.lock = true ∧ s.hook.openingScope = some (targetScope target))) {operation : Nat}
    (hp : s.core.Remembered (targetScope target) operation) {answer : ChatClick}
    (hanswer : OpeningAnswer articleOf (targetScope target) s.fresh answer) :
    ∃ t, run (step articleOf) s [.open target r, answer] = some t ∧ t.traffic = s.traffic ∧
      t.hook.lock = false ∧ t.hook.scope = some (targetScope target) ∧
      t.hook.pendingRequests = s.hook.pendingRequests := by
  obtain ⟨p, hp, -⟩ := hp
  have hp : s.hook.pendingRequests.lookup (some (targetScope target)) = some p := hp
  obtain ⟨t, ht, hflow, htoken, hsame⟩ : ∃ t, s.step articleOf (.open target r) = some t ∧
      t.flows.lookup s.fresh = some (.versions (s.hook.epoch + 1) target r true s.hook.profile) ∧
      t.hook.epoch = s.hook.epoch + 1 ∧ t.traffic = s.traffic ∧ t.hook.scope = some (targetScope target) ∧
      t.hook.pendingRequests = s.hook.pendingRequests := by
    simp only [step, act, openChat, if_neg hguard, hp]
    refine ⟨_, rfl, ?_, rfl, rfl, rfl, rfl⟩
    show (s.flows.insert _ _).lookup _ = _
    rw [Table.lookup_insert_if, if_pos rfl]
    rfl
  obtain ⟨htraffic, hscope, hpending⟩ := hsame
  have hanswered : ∃ u, t.step articleOf answer = some u ∧ u.traffic = t.traffic ∧ u.hook.lock = false ∧
      u.hook.scope = t.hook.scope ∧ u.hook.pendingRequests = t.hook.pendingRequests := by
    cases answer with
    | saved k values =>
      obtain ⟨rfl, hvalues⟩ := hanswer
      have hall : (values.all fun chat => decide (articleOf chat.id = chat.scope ∧ chat.scope = targetScope target)) :=
        List.all_eq_true.2 fun chat hchat => decide_eq_true (hvalues chat hchat)
      have hanswered := @loaded_pending articleOf (t.ended s.fresh none) target r s.hook.profile values
      obtain ⟨hook, hloaded, hookScope, hookPending⟩ := hanswered
      simp only [step, act, hflow, hall, if_true, if_pos htoken.symm, hloaded]
      exact ⟨_, rfl, rfl, rfl, hookScope, hookPending⟩
    | failed k status message =>
      obtain rfl : k = s.fresh := hanswer
      simp only [step, act, hflow, if_pos htoken.symm]
      exact ⟨_, rfl, rfl, rfl, rfl, rfl⟩
    | _ => exact hanswer.elim
  obtain ⟨u, hu, hutraffic, hlock, huscope, hupending⟩ := hanswered
  refine ⟨u, run_cons.2 ⟨t, ht, run_cons.2 ⟨u, hu, rfl⟩⟩, hutraffic.trans htraffic, hlock, huscope.trans hscope,
    hupending.trans hpending⟩

theorem canRepeat_of_inv (h : s.core.Inv articleOf) {scope : ChatScope} {operation : Nat}
    (ho : operation ∈ unanswered scope s.traffic) : s.CanRepeat articleOf scope operation := by
  -- a flow that has the lock and is about the article
  have hlocked : ∀ k flow, s.flows.lookup k = some flow → flow.Holds s.hook.epoch → s.hook.scope = some scope →
      s.CanRepeat articleOf scope operation := by
    intro k flow hk hholds hscope
    refine .inl ⟨k, fun status message hlost => ?_⟩
    obtain ⟨t, hstep, htraffic, ht, hlock, htscope, hp⟩ := failed_remembers h hk hholds ho message hlost
    obtain ⟨p, hp, hop, harticle⟩ := article_of_remembered ht hp
    obtain ⟨u, hretry, hsent⟩ := retry_sends hlock (htscope.trans hscope) hp hop harticle
    exact ⟨u, run_cons.2 ⟨t, hstep, run_cons.2 ⟨u, hretry, rfl⟩⟩, by rw [hsent, htraffic]⟩
  rcases h.kept scope operation ho with ⟨k, action, billable, hk, hop⟩ | hp
  · obtain ⟨-, hscope, -⟩ := h.follows k _ hk rfl
    exact hlocked k _ hk rfl hscope.symm
  · by_cases hguard : s.hook.lock = true ∧ s.hook.openingScope = some scope
    · obtain ⟨k, flow, hk, hholds⟩ := h.locked.1 hguard.1
      exact hlocked k flow hk hholds (h.opening.symm.trans hguard.2)
    · refine .inr fun target requestGeneration answer htarget hanswer => ?_
      subst htarget
      obtain ⟨t, hrun, htraffic, hlock, hscope, hpending⟩ :=
        open_remembers hguard hp hanswer
      obtain ⟨p, hp, hop, harticle⟩ := article_of_remembered h hp
      rw [← hpending] at hp
      obtain ⟨u, hretry, hsent⟩ := retry_sends hlock hscope hp hop harticle
      obtain ⟨v, hopen, hrest⟩ := run_cons.1 hrun
      refine ⟨u, run_cons.2 ⟨v, hopen, ?_⟩, by rw [hsent, htraffic]⟩
      obtain ⟨w, hw, hend⟩ := run_cons.1 hrest
      cases hend
      exact run_cons.2 ⟨_, hw, run_cons.2 ⟨u, hretry, rfl⟩⟩

end

end ChatSession

open ChatSession

theorem chat_repeats_lost_requests (articleOf : Nat → ChatScope) {s : ChatSession} {clicks : List ChatClick}
    (hrun : run (step articleOf) {} clicks = some s) (hsettled : Along (step articleOf) Settled {} clicks) :
    PaysOnce s.traffic ∧
      ∀ scope operation, operation ∈ unanswered scope s.traffic → s.CanRepeat articleOf scope operation := by
  have h : s.core.Inv articleOf :=
    run_inv (fun t => t.core.Inv articleOf) (fun t click t' ht hs hstep => step_inv ht hs hstep) initial_inv hsettled hrun
  exact ⟨h.once, fun scope operation ho => canRepeat_of_inv h ho⟩

/-! The user opens the first article, and the request that starts its summary is lost. -/

private def firstTarget : ChatTarget := { articleId := ⟨1⟩, workspaceId := ⟨1⟩, title := "First" }
private def secondTarget : ChatTarget := { articleId := ⟨2⟩, workspaceId := ⟨1⟩, title := "Second" }

private def lostClicks : List ChatClick :=
  [.profile (some { enabled := true, availabilityReason := none }), .open firstTarget true, .saved 0 [],
    .failed 1 none none, .open secondTarget false, .saved 2 [], .open firstTarget true, .saved 3 []]

theorem chat_repeats_lost_requests_reopened :
    ∃ s, run (step fun _ => (⟨1⟩, ⟨3⟩)) {} lostClicks = some s ∧ PaysOnce s.traffic ∧
      1 ∈ unanswered (⟨1⟩, ⟨1⟩) s.traffic ∧ s.CanRepeat (fun _ => (⟨1⟩, ⟨3⟩)) (⟨1⟩, ⟨1⟩) 1 := by
  have hrun : run (step fun _ => (⟨1⟩, ⟨3⟩)) {} lostClicks =
      some ((run (step fun _ => (⟨1⟩, ⟨3⟩)) {} lostClicks).getD {}) := run_getD (by decide +kernel) {}
  have hsettled : Along (step fun _ => (⟨1⟩, ⟨3⟩)) Settled {} lostClicks := by decide +kernel
  obtain ⟨honce, hrepeat⟩ := chat_repeats_lost_requests _ hrun hsettled
  have hopen : 1 ∈ unanswered (⟨1⟩, ⟨1⟩) ((run (step fun _ => (⟨1⟩, ⟨3⟩)) {} lostClicks).getD {}).traffic := by
    decide +kernel
  exact ⟨_, hrun, honce, hopen, hrepeat _ _ hopen⟩

private def switchClicks : List ChatClick :=
  [.profile (some { enabled := true, availabilityReason := none }), .open firstTarget true, .saved 0 [],
    .open secondTarget true, .failed 1 none none, .open firstTarget true, .saved 3 []]

/-- The second article is opened while the request for the first one is still in flight: the first article is paid for
again when the user returns to it. -/
theorem chat_pays_twice :
    ∃ clicks s, run (step fun _ => (⟨1⟩, ⟨3⟩)) {} clicks = some s ∧ ¬ PaysOnce s.traffic := by
  refine ⟨switchClicks, _, run_getD (by decide +kernel) {}, ?_⟩
  rw [show ((run (step fun _ => (⟨1⟩, ⟨3⟩)) {} switchClicks).getD {}).traffic =
    [.sent (⟨1⟩, ⟨1⟩) 4, .sent (⟨1⟩, ⟨1⟩) 1] by decide +kernel]
  simp [PaysOnce, unanswered]

end Inoreader
