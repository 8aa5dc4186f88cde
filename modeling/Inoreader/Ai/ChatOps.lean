import Inoreader.Ai.ChatChange

/-!
# What the operations do

One lemma for each operation of the store: if it commits, it has changed one chat by a `ChatChange`, or nothing.
-/

namespace Inoreader
open Lib

/-- Every row stores a record that is sound. -/
def AiDb.ChatSound (P : AiPlatform) (db : AiDb) : Prop :=
  ∀ id row, db.chats.lookup id = some row → ∃ r, row.Sound P db.operations id r

/-- A transaction from `db` to `db'` changes the chat `id`. -/
structure AiDb.Changes (P : AiPlatform) (cause : ChatCause) (now : DateTime) (db db' : AiDb) (id : Nat) (row : ChatRow) (r : ChatRecord)
    (row' : ChatRow) (r' : ChatRecord) : Prop where
  lookup : db.chats.lookup id = some row
  sound : row.Sound P db.operations id r
  change : ChatChange P (db.responseOf r.owner) db'.operations now cause row r row' r'
  chats : db'.chats = db.chats.insert id row'
  operations : ∀ k, (db.operations.lookup k).isSome = true → (db'.operations.lookup k).isSome = true
  responses : ∀ k v, db.callResponses.lookup k = some v → db'.callResponses.lookup k = some v

/-- The claim fits the record of its chat. -/
def ClaimedChat.Fits (P : AiPlatform) (claim : ClaimedChat) (db : AiDb) : Prop :=
  ∀ row r, db.chats.lookup claim.record.view.id = some row → row.Holds P claim.record.view.id r → claim.Of r

section
variable {P : AiPlatform} {db db' : AiDb} {now : DateTime} {owner : AccountId} {id : Nat} {claim : ClaimedChat}

theorem bind_get_ok {α : Type} {f : AiDb → AiTx α} {a : α} :
    (Tx.get >>= f) db = .ok (a, db') ↔ f db db = .ok (a, db') := Iff.rfl

theorem bind_modify_ok {α : Type} {g : AiDb → AiDb} {f : Unit → AiTx α} {a : α} :
    (Tx.modify g >>= f) db = .ok (a, db') ↔ f () (g db) = .ok (a, db') := Iff.rfl

theorem saveOperation_ok {chat operation : Nat} {kind : OperationKind} {u : Unit}
    (h : saveOperation owner chat operation kind db = .ok (u, db')) :
    db' = { db with operations := db.operations.insert (owner, operation) (chat, kind) } := by
  obtain ⟨-, h⟩ := Tx.bind_require_ok.1 (bind_get_ok.1 h)
  cases h
  rfl

theorem lockedRecord_reads {r : ChatRecord} (h : lockedRecord owner id db = .ok (r, db')) : db' = db := by
  obtain ⟨row, -, -, -, h⟩ := bind_ownedChat_ok.1 h
  obtain ⟨_, -, h⟩ := bind_liftExcept_ok.1 h
  obtain ⟨-, h⟩ := Tx.bind_require_ok.1 h
  cases h
  rfl

/-! ## Commands -/

theorem append_ok (hsound : db.ChatSound P) {operation user assistant : Nat} {kind : OperationKind} {a : ChatRecord}
    (hfresh : ∀ row r, db.chats.lookup id = some row → row.Holds P id r →
      user ∉ r.view.messages.map (·.id) ∧ assistant ∉ r.view.messages.map (·.id))
    (hne : user ≠ assistant) (h : append P owner id operation kind user assistant now db = .ok (a, db')) :
    (db' = db ∧ (db.operations.lookup (owner, operation)).isSome = true) ∨
      (db.operations.lookup (owner, operation) = none ∧ ∃ row r row' r', db.Changes P (.command user assistant) now db' id row r row' r') := by
  unfold append at h
  obtain ⟨row, hlookup⟩ := bind_lockedRecord_lookup h
  obtain ⟨r, hs⟩ := hsound id row hlookup
  obtain ⟨howner, h⟩ := bind_lockedRecord_ok hlookup hs.holds h
  have h := bind_get_ok.1 h
  cases hprior : db.operations.lookup (owner, operation) with
  | some prior =>
    simp only [hprior] at h
    obtain ⟨-, h⟩ := Tx.bind_require_ok.1 h
    cases h
    exact .inl ⟨rfl, rfl⟩
  | none =>
    simp only [hprior] at h
    refine .inr ⟨rfl, ?_⟩
    obtain ⟨hdone, h⟩ := Tx.bind_require_ok.1 h
    obtain ⟨r', happended, h⟩ := bind_liftExcept_ok.1 h
    -- an operation that is not recorded is not in the chat
    have hoperation : operation ∉ r.operations.map (·.id) := by
      intro hmem
      obtain ⟨op, hop, hid⟩ := List.mem_map.1 hmem
      have hsaved := hs.saved op hop
      rw [hid, howner, hprior] at hsaved
      cases hsaved
    obtain ⟨huser, hassistant⟩ := hfresh row r hlookup hs.holds
    obtain ⟨task, users, hgrown, husers, hstatus⟩ := hs.good.appended huser hassistant hne hoperation happended
    have hkey : r'.view.id = id := hgrown.key.trans hs.holds.key
    obtain ⟨_, db₁, hwrite, h⟩ := Tx.bind_ok.1 h
    obtain ⟨view, hview, rfl⟩ := writeRecord_ok (hkey ▸ hlookup) (hkey ▸ hs.holds) hgrown.inputs hwrite
    obtain ⟨_, db₂, hsave, h⟩ := Tx.bind_ok.1 (bind_modify_ok.1 h)
    have hdb₂ := saveOperation_ok hsave
    cases h
    refine ⟨row, r, _, _, hlookup, hs, .append hdone hgrown husers hstatus ?_ hview, ?_, ?_, ?_⟩
    · rw [hdb₂, howner]
      simp [Table.lookup_insert_if]
    · rw [hdb₂, hkey]
      simp only [AiDb.setChat, Table.update, Table.lookup_insert_if, if_true]
      exact Table.insert_insert _ _ _ _
    · intro k hk
      rw [hdb₂]
      simp only [AiDb.setChat, Table.lookup_insert_if]
      split
      · rfl
      · exact hk
    · intro k v hv
      rw [hdb₂]
      exact hv

/-- An attempt that ends without a result, by `stop` or by the recovery of its lease. -/
theorem changes_of_ended {row : ChatRow} {r r' : ChatRecord} {status : ChatStatus} {error : Option String} {u : Unit}
    (hlookup : db.chats.lookup id = some row) (hs : row.Sound P db.operations id r)
    (hpending : r.view.status.pending = true) (hstatus : status = .cancelled ∨ status = .interrupted)
    (hended : r.ended status error = .ok r') (h : writeRecord P r' db = .ok (u, db')) :
    ∃ row', db.Changes P .finish now db' id row r row' r' ∧ r'.view.status = status := by
  obtain ⟨op, f, ht, hopen, hst, hinputs⟩ := hs.good.ended hended
  have hkey : r'.view.id = id := ht.key.trans hs.holds.key
  obtain ⟨view, hview, rfl⟩ := writeRecord_ok (hkey ▸ hlookup) (hkey ▸ hs.holds) hinputs h
  refine ⟨row.written r' view, ⟨hlookup, hs, .finish hpending ht hopen (hst ▸ hstatus) hview, ?_, fun _ hk => hk, fun _ _ hv => hv⟩,
    hst⟩
  rw [hkey]
  rfl

theorem stop_ok (hsound : db.ChatSound P) {a : ChatRecord} (h : stop P owner id db = .ok (a, db')) :
    db' = db ∨ ∃ row r row' r', db.Changes P .finish now db' id row r row' r' := by
  unfold stop at h
  obtain ⟨row, hlookup⟩ := bind_lockedRecord_lookup h
  obtain ⟨r, hs⟩ := hsound id row hlookup
  obtain ⟨-, h⟩ := bind_lockedRecord_ok hlookup hs.holds h
  split at h
  · rename_i hpending
    obtain ⟨r', hended, h⟩ := bind_liftExcept_ok.1 h
    obtain ⟨_, db₁, hwrite, h⟩ := Tx.bind_ok.1 h
    cases h
    obtain ⟨row', hchanges, -⟩ := changes_of_ended hlookup hs hpending (.inl rfl) hended hwrite
    exact .inr ⟨row, r, row', _, hchanges⟩
  · cases h
    exact .inl rfl

theorem prioritize_ok (hsound : db.ChatSound P) {u : Unit} (h : prioritize owner id now db = .ok (u, db')) :
    db' = db ∨ ∃ row r row' r', db.Changes P .queue now db' id row r row' r' := by
  have h := bind_get_ok.1 h
  cases hlookup : db.chats.lookup id with
  | none =>
    simp only [hlookup] at h
    cases h
    exact .inl rfl
  | some row =>
    simp only [hlookup, Tx.onlyIf] at h
    split at h
    · cases h
      obtain ⟨r, hs⟩ := hsound id row hlookup
      exact .inr ⟨row, r, _, r, hlookup, hs, .schedule, rfl, fun _ hk => hk, fun _ _ hv => hv⟩
    · cases h
      exact .inl rfl

/-! ## Claims -/

/-- A change of a chat that was pending. -/
def AiDb.PendingStep (P : AiPlatform) (now : DateTime) (db db' : AiDb) : Prop :=
  ∃ cause id row r row' r', (cause = .finish ∨ cause = .queue) ∧ db.Changes P cause now db' id row r row' r' ∧
    row.status.any ChatStatus.pending = true

theorem AiDb.Changes.chatSound {cause : ChatCause} {row row' : ChatRow} {r r' : ChatRecord}
    (h : db.Changes P cause now db' id row r row' r') (hsound : db.ChatSound P) : db'.ChatSound P := by
  intro k row₁ hlookup
  rw [h.chats, Table.lookup_insert_if] at hlookup
  split at hlookup
  · rename_i hk
    cases hlookup
    exact ⟨r', hk ▸ h.change.sound h.sound h.operations⟩
  · obtain ⟨r₁, hs⟩ := hsound k row₁ hlookup
    exact ⟨r₁, hs.holds, hs.good, hs.idle, fun op hop => h.operations _ (hs.saved op hop)⟩

theorem recoverChat_ok {e : Nat × ChatRow} {r : ChatRecord} {u : Unit} (hlookup : db.chats.lookup e.1 = some e.2)
    (hs : e.2.Sound P db.operations e.1 r) (hstatus : e.2.status.any ChatStatus.pending = true)
    (h : recoverChat P e db = .ok (u, db')) :
    ∃ cause row' r', (cause = .finish ∨ cause = .queue) ∧ db.Changes P cause now db' e.1 e.2 r row' r' := by
  obtain ⟨st, hst, hpending⟩ := (Option.any_eq_true _ _).1 hstatus
  rw [hs.holds.status st hst] at hpending
  unfold recoverChat at h
  cases hrecovered : e.2.recovered P e.1 with
  | ok r' =>
    simp only [hrecovered] at h
    unfold ChatRow.recovered at hrecovered
    rw [hs.holds.checked] at hrecovered
    cases hended : r.ended .interrupted (some workerInterruptedText) with
    | error err =>
      simp only [bind, Except.bind, hended] at hrecovered
      cases hrecovered
    | ok record =>
      have heq : record = r' := by
        simp only [bind, Except.bind, hended] at hrecovered
        split at hrecovered
        · cases hrecovered
        · cases hrecovered
          rfl
      subst heq
      obtain ⟨row', hchanges, -⟩ := changes_of_ended hlookup hs hpending (.inr rfl) hended h
      exact ⟨.finish, row', record, .inl rfl, hchanges⟩
  | error err =>
    simp only [hrecovered] at h
    cases h
    refine ⟨.queue, e.2.quarantine, r, .inr rfl, hlookup, hs, .quarantine hstatus, ?_, fun _ hk => hk, fun _ _ hv => hv⟩
    simp only [Table.update, hlookup]

/-- The recovery loop: every turn changes the chat of its row, which no earlier turn has touched. -/
theorem recoverAll_ok {entries : List (Nat × ChatRow)} {u : Unit} (hnd : (entries.map (·.1)).Nodup)
    (hsound : db.ChatSound P)
    (hentries : ∀ e ∈ entries, db.chats.lookup e.1 = some e.2 ∧ e.2.status.any ChatStatus.pending = true)
    (h : Tx.loop (fun _ e => recoverChat P e) () entries db = .ok (u, db')) :
    Relation.ReflTransGen (AiDb.PendingStep P now) db db' ∧ db'.ChatSound P := by
  induction entries generalizing db with
  | nil =>
    cases h
    exact ⟨.refl, hsound⟩
  | cons e entries ih =>
    rw [List.map_cons, List.nodup_cons] at hnd
    obtain ⟨_, db₁, hturn, h⟩ := Tx.bind_ok.1 h
    obtain ⟨hlookup, hstatus⟩ := hentries e (by simp)
    obtain ⟨r, hs⟩ := hsound e.1 e.2 hlookup
    obtain ⟨cause, row', r', hcause, hchanges⟩ : ∃ cause row' r', (cause = .finish ∨ cause = .queue) ∧
        db.Changes P cause now db₁ e.1 e.2 r row' r' := recoverChat_ok hlookup hs hstatus hturn
    have hrest : ∀ e' ∈ entries, db₁.chats.lookup e'.1 = some e'.2 ∧ e'.2.status.any ChatStatus.pending = true := by
      intro e' he'
      obtain ⟨hlookup', hstatus'⟩ := hentries e' (by simp [he'])
      refine ⟨?_, hstatus'⟩
      rw [hchanges.chats, Table.lookup_insert_if, if_neg]
      · exact hlookup'
      · exact fun heq => hnd.1 (heq ▸ List.mem_map_of_mem he')
    obtain ⟨hsteps, hsound'⟩ := ih hnd.2 (hchanges.chatSound hsound) hrest h
    exact ⟨.head ⟨cause, e.1, e.2, r, row', r', hcause, hchanges, hstatus⟩ hsteps, hsound'⟩

/-- A claim recovers expired chats, then it leases a queued chat or none. -/
theorem claimChat_ok (hsound : db.ChatSound P) {batch lease seconds : Nat} {locked : List Nat} {a : Option ClaimedChat}
    (h : claimChat P batch locked lease seconds now db = .ok (a, db')) :
    ∃ db₁, Relation.ReflTransGen (AiDb.PendingStep P now) db db₁ ∧ db₁.ChatSound P ∧
      ((a = none ∧ (db' = db₁ ∨ db₁.PendingStep P now db')) ∨
        ∃ id row r, a = some { record := r, lease } ∧ r.view.status.pending = true ∧
          db₁.Changes P .queue now db' id row r
            { row with lease := some lease, leaseUntil := some (leaseEnd now seconds) } r) := by
  unfold claimChat at h
  obtain ⟨_, db₁, hloop, h⟩ := Tx.bind_ok.1 (bind_get_ok.1 h)
  obtain ⟨hsteps, hsound₁⟩ : Relation.ReflTransGen (AiDb.PendingStep P now) db db₁ ∧ db₁.ChatSound P := by
    refine recoverAll_ok ?_ hsound (fun e he => ?_) hloop
    · exact (Table.nodup_sorted db.chats).sublist ((List.take_sublist _ _).map _)
    · obtain ⟨hlookup, hp⟩ := Table.mem_sorted.1 (List.mem_of_mem_take he)
      simp only [Bool.and_eq_true] at hp
      exact ⟨hlookup, hp.1.2⟩
  refine ⟨db₁, hsteps, hsound₁, ?_⟩
  have h := bind_get_ok.1 h
  cases hnext : db₁.nextChat locked now with
  | none =>
    simp only [hnext] at h
    cases h
    exact .inl ⟨rfl, .inl rfl⟩
  | some e =>
    obtain ⟨hlookup, hp⟩ := Table.mem_sorted.1 (List.mem_of_mem_head? hnext)
    simp only [Bool.and_eq_true, AiDb.claimableChat, Bool.or_eq_true, beq_iff_eq] at hp
    obtain ⟨r, hs⟩ := hsound₁ e.1 e.2 hlookup
    have hpending : r.view.status.pending = true := by
      rcases hp.1.1.1.1.1 with hst | hst <;> (rw [← hs.holds.status _ hst]; rfl)
    simp only [hnext, hs.holds.checked] at h
    obtain ⟨-, h⟩ := Tx.bind_require_ok.1 h
    cases h
    exact .inr ⟨e.1, e.2, r, rfl, hpending, hlookup, hs, .lease hpending hp.1.1.1.1.2, rfl, fun _ hk => hk, fun _ _ hv => hv⟩

/-! ## Workers -/

theorem reserve_frame {reservation : SpendReservation} {automatic : Bool} {u : Unit}
    (h : reserve P owner id reservation automatic now db = .ok (u, db')) :
    ∃ spending, db' = { db with spending := spending } := by
  rcases reserve_ok h with ⟨rfl, -⟩ | ⟨-, rfl, -⟩
  · exact ⟨db'.spending, rfl⟩
  · exact ⟨_, rfl⟩

/-- What every operation of a worker starts with. -/
theorem bind_lockedProgress_sound {α : Type} {f : LockedProgress → AiTx α} {a : α} (hsound : db.ChatSound P)
    (h : (lockedProgress owner id >>= f) db = .ok (a, db')) :
    ∃ row r published, db.chats.lookup id = some row ∧ row.Sound P db.operations id r ∧
      row.status = some r.view.status ∧ r.Previews P published ∧
      f { record := r.progress, published } db = .ok (a, db') := by
  obtain ⟨row, published, hlookup, -, hpublished, hrest⟩ := bind_lockedProgress_ok h
  obtain ⟨r, hs⟩ := hsound id row hlookup
  obtain ⟨hstatus, hf⟩ := hrest r hs.holds
  exact ⟨row, r, published, hlookup, hs, hstatus, hs.holds.previews hs.good.messageIds hpublished, hf⟩

theorem beginCall_ok (hsound : db.ChatSound P) {phase : GenerationPhase} {reservation : SpendReservation}
    {model : CallModel} {call a : Nat} (h : beginCall P claim phase reservation model call now db = .ok (a, db')) :
    ∃ row r row' r' op claimed, db.Changes P (.work claim.lease) now db' claim.record.view.id row r row' r' ∧
      row.fenced claim.lease now = true ∧ r.operations.getLast? = some op ∧
      claim.record.operations.getLast? = some claimed ∧ op.id = claimed.id ∧
      r.view.hasCall op.assistantId phase = false ∧ a = call ∧
      r'.view.providerCalls = r.view.providerCalls ++
        [{ id := call, assistantId := op.assistantId, phase, status := .started, usage := none }] := by
  unfold beginCall at h
  obtain ⟨row, r, published, hlookup, hs, -, hpreviews, h⟩ := bind_lockedProgress_sound hsound h
  obtain ⟨row', hlookup', h⟩ := Tx.bind_orThrow_ok.1 (bind_get_ok.1 h)
  rw [hlookup] at hlookup'
  cases hlookup'
  obtain ⟨hfenced, h⟩ := Tx.bind_require_ok.1 h
  obtain ⟨op, hop, h⟩ := Tx.bind_orThrow_ok.1 h
  obtain ⟨claimed, hclaimed, h⟩ := Tx.bind_orThrow_ok.1 h
  obtain ⟨⟨hid, -, hnew⟩, h⟩ := Tx.bind_require_ok.1 h
  obtain ⟨_, db₁, hreserve, h⟩ := Tx.bind_ok.1 h
  obtain ⟨spending, rfl⟩ := reserve_frame hreserve
  obtain ⟨-, h⟩ := Tx.bind_require_ok.1 (bind_get_ok.1 h)
  obtain ⟨-, h⟩ := Tx.bind_require_ok.1 h
  obtain ⟨p, hp, h⟩ := bind_liftExcept_ok.1 (bind_modify_ok.1 h)
  obtain ⟨_, db₂, hwrite, h⟩ := Tx.bind_ok.1 h
  cases h
  obtain ⟨⟨f, ht, hstreaming⟩, hstatus, hcalls⟩ := hs.good.began hop hnew hp
  have hkey : (r.withProgress p).view.id = claim.record.view.id := ht.key.trans hs.holds.key
  obtain ⟨view, hview, rfl⟩ := writeProgress_ok (r.withProgress p) (hkey ▸ hlookup) hs.holds.inputs
    (hs.good.previews_touched ht (hs.holds.open_of_fenced hfenced) hpreviews) hwrite
  refine ⟨row, r, row.written (r.withProgress p) view, r.withProgress p, op, claimed, ?_, hfenced, hop, hclaimed, hid, hnew,
    rfl, hcalls⟩
  refine ⟨hlookup, hs, ?_, by rw [hkey]; rfl, fun _ hk => hk, fun _ _ hv => hv⟩
  refine .work hfenced ht (fun m _ _ _ hcomplete => ?_) hview (.inl ⟨?_, rfl⟩)
  · rw [hstreaming m] at hcomplete
    cases hcomplete
  · show p.view.status.pending = true
    rw [hstatus]
    cases phase <;> rfl

theorem checkUsage_ok {usage : Usage} {u : Unit} (h : checkUsage owner id usage db = .ok (u, db')) : db' = db := by
  obtain ⟨stored, -, h⟩ := Tx.bind_orThrow_ok.1 (bind_get_ok.1 h)
  obtain ⟨-, h⟩ := Tx.bind_require_ok.1 h
  obtain ⟨cost, -, h⟩ := bind_liftExcept_ok.1 h
  exact (Tx.require_ok.1 h).2

/-- A retained response is never replaced. -/
theorem retainResponse_ok {content system : String} {u : Unit} (h : retainResponse owner id content system db = .ok (u, db')) :
    ∃ responses, db' = { db with callResponses := responses } ∧
      (∀ k, k ≠ id → responses.lookup k = db.callResponses.lookup k) ∧
      ∀ k v, db.callResponses.lookup k = some v → responses.lookup k = some v := by
  obtain ⟨-, h⟩ := Tx.bind_require_ok.1 (bind_get_ok.1 h)
  obtain ⟨hall, h⟩ := Tx.bind_require_ok.1 h
  cases h
  refine ⟨_, rfl, fun k hk => ?_, fun k v hv => ?_⟩
  · rw [Table.lookup_insert_if, if_neg hk]
  · rw [Table.lookup_insert_if]
    split
    · rename_i hk
      rw [← hk, hv] at hall
      simpa [eq_comm] using hall
    · exact hv

theorem checkUpdate_ok {update : CallUpdate} {u : Unit} (h : checkUpdate owner id update db = .ok (u, db')) : db' = db := by
  cases update with
  | usage usage => exact checkUsage_ok h
  | response content system => cases h; rfl
  | finished status draft => cases h; rfl

theorem retainUpdate_ok {update : CallUpdate} {u : Unit} (h : retainUpdate claim id update db = .ok (u, db')) :
    ∃ responses, db' = { db with callResponses := responses } ∧
      (∀ k, k ≠ id → responses.lookup k = db.callResponses.lookup k) ∧
      ∀ k v, db.callResponses.lookup k = some v → responses.lookup k = some v := by
  cases update with
  | usage usage => cases h; exact ⟨_, rfl, fun _ _ => rfl, fun _ _ hv => hv⟩
  | response content system => exact retainResponse_ok (Tx.bind_require_ok.1 h).2
  | finished status draft => cases h; exact ⟨_, rfl, fun _ _ => rfl, fun _ _ hv => hv⟩

/-- A report changes the chat by its call and its draft only, unless the worker still holds the chat; beside the
chat it may retain the response of its call. -/
theorem updateCall_ok (hsound : db.ChatSound P) (hfits : claim.Fits P db) {call : Nat} {update : CallUpdate} {u : Unit}
    (h : updateCall P claim call update now db = .ok (u, db')) :
    ∃ row r row' r' claimed, db.Changes P .report now db' claim.record.view.id row r row' r' ∧
      claim.record.operations.getLast? = some claimed ∧
      (∃ responses, db' = { db with chats := db.chats.insert claim.record.view.id row', callResponses := responses } ∧
        ∀ k, k ≠ call → responses.lookup k = db.callResponses.lookup k) ∧
      (row.fenced claim.lease now = false → row.status = some r.view.status ∧
        ∃ c c' view, r.Reported r' call claimed.assistantId c c' ∧ r'.intoPublicView P = .ok view ∧
          row' = row.written r' view) := by
  unfold updateCall at h
  obtain ⟨row, r, published, hlookup, hs, hstatus, hpreviews, h⟩ := bind_lockedProgress_sound hsound h
  obtain ⟨claimed, hclaimed, h⟩ := Tx.bind_orThrow_ok.1 h
  obtain ⟨_, db₁, hcheck, h⟩ := Tx.bind_ok.1 h
  rw [checkUpdate_ok hcheck] at h
  obtain ⟨c, hfind, h⟩ := Tx.bind_orThrow_ok.1 h
  obtain ⟨_, db₂, hretain, h⟩ := Tx.bind_ok.1 h
  obtain ⟨responses, rfl, hother, hmono⟩ := retainUpdate_ok hretain
  obtain ⟨⟨state, c'⟩, hupdate, h⟩ := bind_liftExcept_ok.1 h
  obtain ⟨state', hset, h⟩ := bind_liftExcept_ok.1 h
  obtain ⟨r₁, hrecord, hreported, hpreviews₁⟩ :=
    ChatRecord.reported_of_updateCall (hfits row r hlookup hs.holds) hpreviews hfind hupdate hset
  obtain ⟨row₁, hlookup₁, h⟩ := Tx.bind_orThrow_ok.1 (bind_get_ok.1 h)
  have hrow₁ : row₁ = row := Option.some.inj (hlookup₁.symm.trans hlookup)
  subst hrow₁
  obtain ⟨p, hp, h⟩ := bind_liftExcept_ok.1 h
  rw [hrecord] at hp
  have hkey₁ : r₁.view.id = claim.record.view.id := by
    rw [hreported.rest]
    exact hs.holds.key
  have hinputs₁ : row₁.inputs = some r₁.inputs.toValue := by
    rw [hreported.inputs]
    exact hs.holds.inputs
  unfold Progress.goesOn at hp
  split at hp
  · -- the worker goes on to the review
    rename_i hreviews
    rw [Bool.and_eq_true] at hreviews
    obtain ⟨hreviews, hfenced⟩ := hreviews
    obtain ⟨op, hlast, hreviews⟩ := (Option.any_eq_true _ _).1 hreviews
    rw [Bool.and_eq_true, beq_iff_eq] at hreviews
    rw [← hreviews.1] at hp
    have hopen : r₁.view.status ≠ .completed := by
      rw [hreported.rest]
      exact hs.holds.open_of_fenced hfenced
    have hgood₁ := hs.good.reported hreported
    obtain ⟨⟨f, ht, hkeep⟩, hverifying⟩ := hgood₁.toVerifying hlast hopen hp
    have hkey : (r₁.withProgress p).view.id = claim.record.view.id := ht.key.trans hkey₁
    obtain ⟨view, hview, rfl⟩ := writeProgress_ok (r₁.withProgress p) (hkey ▸ hlookup) hinputs₁
      (hgood₁.previews_touched ht hopen hpreviews₁) h
    refine ⟨row₁, r, row₁.written (r₁.withProgress p) view, r₁.withProgress p, claimed, ?_, hclaimed,
      ⟨responses, by rw [hkey]; rfl, hother⟩, fun hnot => ?_⟩
    · refine ⟨hlookup, hs, ?_, by rw [hkey]; rfl, fun _ hk => hk, hmono⟩
      exact .review hfenced hreported ht (fun m hm => by rw [hkeep]; exact hm) hverifying hview
    · rw [hfenced] at hnot
      cases hnot
  · -- a late report
    cases hp
    obtain ⟨view, hview, rfl⟩ := writeProgress_ok r₁ (hkey₁ ▸ hlookup) hinputs₁ hpreviews₁ h
    refine ⟨row₁, r, row₁.written r₁ view, r₁, claimed, ?_, hclaimed, ⟨responses, by rw [hkey₁]; rfl, hother⟩, fun _ =>
      ⟨hstatus, c, c', view, hreported, hview, rfl⟩⟩
    exact ⟨hlookup, hs, .report hstatus hreported hview, by rw [hkey₁]; rfl, fun _ hk => hk, hmono⟩

/-- A snapshot goes into the inputs of a chat that has none. -/
theorem pinClaim_ok {snapshot : Option ArticleSnapshot} {u : Unit} {row : ChatRow} {r : ChatRecord}
    (hlookup : db.chats.lookup claim.record.view.id = some row) (hrow : row.Holds P claim.record.view.id r)
    (h : pinClaim claim snapshot db = .ok (u, db')) :
    (snapshot = none ∧ db' = db) ∨ ∃ source, snapshot = some source ∧ claim.record.snapshot = none ∧ r.snapshot = none ∧
      db' = db.setChat claim.record.view.id
        { row with inputs := some ({ r.inputs with snapshot := some source } : ChatInputs).toValue } := by
  cases snapshot with
  | none =>
    cases h
    exact .inl ⟨rfl, rfl⟩
  | some source =>
    obtain ⟨hnone, h⟩ := Tx.bind_require_ok.1 h
    obtain ⟨row', hlookup', h⟩ := Tx.bind_orThrow_ok.1 (bind_get_ok.1 h)
    rw [hlookup] at hlookup'
    cases hlookup'
    simp only [hrow.inputs] at h
    obtain ⟨hnull, h⟩ := Tx.bind_require_ok.1 h
    cases h
    refine .inr ⟨source, rfl, hnone, ?_, rfl⟩
    have hget : r.inputs.toValue.get? "snapshot" = some (.snapshot r.snapshot) := rfl
    rw [hget] at hnull
    simpa using hnull

/-- What `update_claim` has checked of a summary that it completes. -/
theorem checkCompleted_ok {p : Progress} {op : Operation} {response : Nat → Option String} {content : Option String}
    {draft : String} (htask : op.task = .summary (some draft))
    (h : p.checkCompleted P op claim response content = .ok ()) :
    ∃ call ∈ p.view.providerCalls, ∃ message raw source, call.assistantId = op.assistantId ∧ call.phase = .verifying ∧
      call.status = .completed ∧ p.view.messages.find? (·.id == op.assistantId) = some message ∧
      response call.id = some raw ∧ claim.record.snapshot = some source ∧
      P.reviewed raw draft source.title source.text claim.record.limits.maxResponseBytes =
        .ok (content.getD message.content) := by
  unfold Progress.checkCompleted at h
  rw [htask] at h
  simp only at h
  split at h
  · cases h
  · rename_i call hcall
    split at h
    · rename_i message raw source usage hmessage hraw hsource husage
      split at h
      · cases h
      · rename_i checked hchecked
        split at h
        · rename_i heq
          have hp := List.find?_some hcall
          simp only [Bool.and_eq_true, beq_iff_eq] at hp
          exact ⟨call, List.mem_of_find?_eq_some hcall, message, raw, source, hp.1.1, hp.1.2, hp.2, hmessage, hraw, hsource,
            heq ▸ hchecked⟩
        · cases h
    · cases h

/-- A summary that `update_claim` completes is checked. -/
theorem checked_of_checkNext {r r' : ChatRecord} {op : Operation} {next : ChatStatus} {content : Option String}
    {response : Nat → Option String} (hgood : r.Good) (hclaim : claim.Of r) (hlast : r.operations.getLast? = some op)
    (ht : r.Touched r' op fun m => { m with content := content.getD m.content, status := next.messageStatus })
    (h : r.progress.checkNext P op claim response next content = .ok ()) {m : ChatMessage} (hm : m ∈ r.view.messages)
    (hid : m.id = op.assistantId) (hpurpose : m.purpose = some .summary) (hcomplete : next.messageStatus = .complete) :
    r'.Checked P response { m with content := content.getD m.content, status := next.messageStatus } := by
  have hnext : next = .completed := by cases next <;> first | rfl | cases hcomplete
  have hop : op ∈ r.operations := List.mem_of_getLast? hlast
  unfold Progress.checkNext at h
  rw [if_pos hnext] at h
  cases htask : op.task with
  | reply =>
    -- the message of a reply is no summary
    obtain ⟨m', hm', hid', hpurpose'⟩ := hgood.attempt op hop
    have heq : m' = m := List.inj_on_of_nodup_map hgood.messageIds hm' hm (hid'.trans hid.symm)
    rw [heq, hpurpose, htask] at hpurpose'
    cases hpurpose'
  | summary saved =>
    cases saved with
    | none =>
      unfold Progress.checkCompleted at h
      rw [htask] at h
      cases h
    | some draft =>
      obtain ⟨call, hcall, message, raw, source, hassistant, hphase, hstatus, hmessage, hraw, hsource, hreviewed⟩ :=
        checkCompleted_ok htask h
      obtain ⟨call', hcall', hkeeps⟩ := ht.calls call hcall
      have hmid : message.id = op.assistantId := by simpa using List.find?_some hmessage
      have heq : message = m := List.inj_on_of_nodup_map hgood.messageIds (List.mem_of_find?_eq_some hmessage) hm
        (hmid.trans hid.symm)
      rw [heq, hclaim.limits] at hreviewed
      refine ⟨op, ht.operations ▸ hop, call', hcall', draft, raw, source, hid.symm, htask,
        (hkeeps.assistantId.trans hassistant).trans hid.symm, hkeeps.phase.trans hphase, hkeeps.completed hstatus, ?_,
        ht.inputs.snapshot (hclaim.snapshot source hsource), ?_⟩
      · rw [hkeeps.id]
        exact hraw
      · rw [ht.inputs.limits]
        exact hreviewed

theorem updateClaim_ok (hsound : db.ChatSound P) (hfits : claim.Fits P db) {next : ChatStatus}
    {content error : Option String} {snapshot : Option ArticleSnapshot} {u : Unit}
    (h : updateClaim P claim next content snapshot error now db = .ok (u, db')) :
    ∃ row r row' r', db.Changes P (.work claim.lease) now db' claim.record.view.id row r row' r' ∧ row.fenced claim.lease now = true ∧
      r'.snapshot = snapshot.or r.snapshot := by
  unfold updateClaim at h
  obtain ⟨row, r, published, hlookup, hs, -, hpreviews, h⟩ := bind_lockedProgress_sound hsound h
  obtain ⟨row', hlookup', h⟩ := Tx.bind_orThrow_ok.1 (bind_get_ok.1 h)
  rw [hlookup] at hlookup'
  cases hlookup'
  obtain ⟨hfenced, h⟩ := Tx.bind_require_ok.1 h
  obtain ⟨op, hlast, h⟩ := Tx.bind_orThrow_ok.1 h
  obtain ⟨-, h⟩ := Tx.bind_require_ok.1 h
  obtain ⟨_, hcheck, h⟩ := bind_liftExcept_ok.1 h
  obtain ⟨_, db₁, hpin, h⟩ := Tx.bind_ok.1 h
  obtain ⟨p, hp, h⟩ := bind_liftExcept_ok.1 h
  obtain ⟨_, db₂, hwrite, h⟩ := Tx.bind_ok.1 h
  have hopen := hs.holds.open_of_fenced hfenced
  have hclaim := hfits row r hlookup hs.holds
  -- the inputs and the row that `write_progress` finds
  obtain ⟨i, row₁, hinputs, hsnapshot, hdb₁, hrow₁, hwritten⟩ : ∃ (i : ChatInputs) (row₁ : ChatRow),
      (i = r.inputs ∨ r.snapshot = none ∧ ∃ source, i = { r.inputs with snapshot := some source }) ∧
      i.snapshot = snapshot.or r.snapshot ∧
      (db₁.chats.lookup claim.record.view.id = some row₁ ∧
        ∀ v, (db₁.setChat claim.record.view.id v) = db.setChat claim.record.view.id v) ∧
      row₁.inputs = some i.toValue ∧ ∀ r' : ChatRecord, ∀ view, row₁.written r' view = row.written r' view := by
    rcases pinClaim_ok hlookup hs.holds hpin with ⟨rfl, rfl⟩ | ⟨source, rfl, -, hnone, rfl⟩
    · exact ⟨r.inputs, row, .inl rfl, rfl, ⟨hlookup, fun _ => rfl⟩, hs.holds.inputs, fun _ _ => rfl⟩
    · refine ⟨{ r.inputs with snapshot := some source },
        { row with inputs := some ({ r.inputs with snapshot := some source } : ChatInputs).toValue },
        .inr ⟨hnone, source, rfl⟩, rfl, ⟨?_, fun v => ?_⟩, rfl, fun _ _ => rfl⟩
      · simp [AiDb.setChat, Table.lookup_insert_if]
      · simp only [AiDb.setChat, Table.insert_insert]
  obtain ⟨ht, hstatus⟩ := hs.good.updated hlast hinputs hp
  have hkey : (ChatRecord.of p i).view.id = claim.record.view.id := ht.key.trans hs.holds.key
  obtain ⟨view, hview, rfl⟩ := writeProgress_ok (.of p i) (hkey ▸ hdb₁.1) hrow₁
    (hs.good.previews_touched ht hopen hpreviews) hwrite
  rw [hkey, hdb₁.2, hwritten] at h
  have hchecked : ∀ m ∈ r.view.messages, m.id = op.assistantId → m.purpose = some .summary →
      next.messageStatus = .complete → (ChatRecord.of p i).Checked P (db.responseOf r.owner)
        { m with content := content.getD m.content, status := next.messageStatus } :=
    fun m hm hid hpurpose hcomplete => checked_of_checkNext hs.good hclaim hlast ht hcheck hm hid hpurpose hcomplete
  unfold Tx.onlyIf at h
  split at h
  · cases h
    refine ⟨row, r, ((row.written (.of p i) view).released now), .of p i, ?_, hfenced, hsnapshot⟩
    refine ⟨hlookup, hs, .work hfenced ht hchecked hview (.inr ⟨now, rfl⟩), ?_, fun _ hk => hk, fun _ _ hv => hv⟩
    simp only [AiDb.releaseChat, AiDb.setChat, Table.update, Table.lookup_insert_if, if_true, Table.insert_insert]
    rfl
  · rename_i hkept
    cases h
    refine ⟨row, r, row.written (.of p i) view, .of p i, ?_, hfenced, hsnapshot⟩
    refine ⟨hlookup, hs, .work hfenced ht hchecked hview (.inl ⟨?_, rfl⟩), rfl, fun _ hk => hk, fun _ _ hv => hv⟩
    show p.view.status.pending = true
    rw [hstatus]
    simp only [not_and_or, not_not] at hkept
    rcases hkept with rfl | rfl <;> rfl

/-- The review is skipped only for a draft that a completed generation has retained. -/
theorem finishUnchecked_ok (hsound : db.ChatSound P) (hfits : claim.Fits P db) {a : Bool}
    (h : finishUnchecked P claim now db = .ok (a, db')) :
    (a = false ∧ db' = db) ∨ ∃ row r row' r' op claimed, a = true ∧
      db.Changes P (.unchecked claim.lease op.assistantId) now db' claim.record.view.id row r row' r' ∧ row.fenced claim.lease now = true ∧
      op ∈ r.operations ∧ claim.record.operations.getLast? = some claimed ∧ op.id = claimed.id := by
  unfold finishUnchecked at h
  obtain ⟨row, r, published, hlookup, hs, -, hpreviews, h⟩ := bind_lockedProgress_sound hsound h
  obtain ⟨row', hlookup', h⟩ := Tx.bind_orThrow_ok.1 (bind_get_ok.1 h)
  rw [hlookup] at hlookup'
  cases hlookup'
  obtain ⟨hfenced, h⟩ := Tx.bind_require_ok.1 h
  split at h
  · cases h
    exact .inl ⟨rfl, rfl⟩
  · obtain ⟨op, hlast, h⟩ := Tx.bind_orThrow_ok.1 h
    obtain ⟨claimed, hclaimed, h⟩ := Tx.bind_orThrow_ok.1 h
    obtain ⟨hid, h⟩ := Tx.bind_require_ok.1 h
    have hop : op ∈ r.operations := List.mem_of_getLast? hlast
    obtain ⟨draft, htask⟩ : ∃ draft, op.task = .summary (some draft) := by
      cases htask : op.task with
      | reply =>
        simp only [htask] at h
        cases h
      | summary saved =>
        cases saved with
        | none =>
          simp only [htask] at h
          cases h
        | some draft => exact ⟨draft, rfl⟩
    simp only [htask] at h
    obtain ⟨call, hcall, h⟩ := Tx.bind_orThrow_ok.1 h
    obtain ⟨-, h⟩ := Tx.bind_require_ok.1 h
    obtain ⟨source, hsource, h⟩ := Tx.bind_orThrow_ok.1 h
    obtain ⟨-, h⟩ := Tx.bind_require_ok.1 h
    obtain ⟨content, hcontent, h⟩ := bind_liftExcept_ok.1 h
    obtain ⟨p, hp, h⟩ := bind_liftExcept_ok.1 h
    obtain ⟨_, db₁, hwrite, h⟩ := Tx.bind_ok.1 h
    obtain ⟨ht, hstatus⟩ := hs.good.published hlast hp
    have hclaim := hfits row r hlookup hs.holds
    have hkey : (r.withProgress p).view.id = claim.record.view.id := ht.key.trans hs.holds.key
    obtain ⟨view, hview, rfl⟩ := writeProgress_ok (r.withProgress p) (hkey ▸ hlookup) hs.holds.inputs
      (hs.good.previews_touched ht (hs.holds.open_of_fenced hfenced) hpreviews) hwrite
    cases h
    -- the call that has retained the draft
    have hfound := List.find?_some hcall
    simp only [Bool.and_eq_true, beq_iff_eq, List.any_eq_true] at hfound
    obtain ⟨⟨hphase, hcompleted⟩, generated, hgenerated, hassistant, hsame⟩ := hfound
    obtain ⟨call', hcall', hkeeps⟩ := ht.calls call (List.mem_of_find?_eq_some hcall)
    rw [hclaim.limits] at hcontent
    refine .inr ⟨row, r, (row.written (r.withProgress p) view).released now, r.withProgress p, op, claimed, rfl, ?_, hfenced, hop, hclaimed, hid⟩
    refine ⟨hlookup, hs, .unchecked hfenced ht (fun m hm hmid => ?_) hview, ?_, fun _ hk => hk,
      fun _ _ hv => hv⟩
    · have hops : (r.withProgress p).operations = r.operations := ht.operations
      exact ⟨op, hops ▸ hop, generated, hops ▸ hgenerated, call', hcall', draft, source, hmid.symm, htask,
        hassistant.trans hkeeps.assistantId.symm, hsame, hkeeps.phase.trans hphase, hkeeps.completed hcompleted,
        hclaim.snapshot source hsource, hcontent⟩
    · rw [hkey]
      simp only [AiDb.releaseChat, AiDb.setChat, Table.update, Table.lookup_insert_if, if_true, Table.insert_insert]
      rfl

theorem deferChat_ok (hsound : db.ChatSound P) {reason : AiDeferral} {u : Unit}
    (h : deferChat claim reason now db = .ok (u, db')) :
    ∃ row r row' r', db.Changes P (.defer claim.lease) now db' claim.record.view.id row r row' r' ∧ row.lease = some claim.lease ∧
      row.leaseUntil.any (now < ·) = true ∧ row.status = some r.view.status := by
  unfold deferChat at h
  obtain ⟨row, r, published, hlookup, hs, hstatus, hpreviews, h⟩ := bind_lockedProgress_sound hsound h
  obtain ⟨row', hlookup', h⟩ := Tx.bind_orThrow_ok.1 (bind_get_ok.1 h)
  rw [hlookup] at hlookup'
  cases hlookup'
  obtain ⟨⟨hlease, hlive⟩, h⟩ := Tx.bind_require_ok.1 h
  obtain ⟨p, hp, h⟩ := bind_liftExcept_ok.1 h
  obtain ⟨_, db₁, hwrite, h⟩ := Tx.bind_ok.1 h
  obtain ⟨op, f, ht, hopen, hqueued⟩ := hs.good.deferred hp
  have hkey : (r.withProgress p).view.id = claim.record.view.id := ht.key.trans hs.holds.key
  obtain ⟨view, hview, rfl⟩ := writeProgress_ok (r.withProgress p) (hkey ▸ hlookup) hs.holds.inputs
    (hs.good.previews_touched ht (hs.open_of_lease hlease) hpreviews) hwrite
  cases h
  refine ⟨row, r, (row.written (r.withProgress p) view).released (db.policy.schedule.deferredUntil reason now),
    r.withProgress p, ?_, hlease, hlive, hstatus⟩
  refine ⟨hlookup, hs, .defer hlease hlive ht hopen hqueued hview, ?_,
    fun _ hk => hk, fun _ _ hv => hv⟩
  rw [hkey]
  simp only [AiDb.releaseChat, AiDb.setChat, Table.update, Table.lookup_insert_if, if_true, Table.insert_insert]
  rfl

/-! ## New chats -/

/-- The record of a start is good and shows an empty summary. -/
theorem ChatStart.good_record (s : ChatStart) (settings : ChatSettings) (snapshot : Option ArticleSnapshot)
    (title sourceUrl : String) (status : ChatStatus) (now : DateTime) :
    (s.record settings snapshot title sourceUrl status now).Good where
  messageIds := by simp [ChatStart.record]
  attemptIds := by simp [ChatStart.record]
  operationIds := by simp [ChatStart.record]
  callKeys := by simp [ChatStart.record]
  operations := by simp [ChatStart.record]
  attempt := by
    intro op hop
    rw [List.mem_singleton.1 hop]
    exact ⟨_, List.mem_singleton.2 rfl, rfl, rfl⟩
  summary := by
    intro m hm _
    rw [List.mem_singleton.1 hm]
    exact ⟨_, List.mem_singleton.2 rfl, rfl⟩
  drafts := by
    intro op hop draft htask
    rw [List.mem_singleton.1 hop] at htask
    cases htask
  last := by
    intro op _ m hm _ hstatus
    rw [List.mem_singleton.1 hm] at hstatus
    cases hstatus

theorem ChatStart.prepare_ok {s : ChatStart} {settings : ChatSettings} {input : ArticleInput} {record : ChatRecord}
    (h : s.prepare settings input now = .ok record) :
    record.Good ∧ record.view.id = s.chat ∧ record.owner = s.owner ∧ record.view.status.pending = true ∧
      record.view.messages = [newAttempt s.assistant (.summary none) now] ∧ record.view.providerCalls = [] ∧
      record.operations =
        [{ id := s.operation, kind := .start s.regenerate, assistantId := s.assistant, task := .summary none }] := by
  cases input with
  | waiting title sourceUrl =>
    cases h
    exact ⟨s.good_record _ _ _ _ _ _, rfl, rfl, rfl, rfl, rfl, rfl⟩
  | ready snapshot =>
    cases h
    exact ⟨s.good_record _ _ _ _ _ _, rfl, rfl, rfl, rfl, rfl, rfl⟩
  | failed => cases h

/-- A start repeats an earlier one, finds a chat of the article, or makes a new one. -/
theorem createChat_ok {s : ChatStart} {settings : ChatSettings} {input : ArticleInput} {record a : ChatRecord}
    {automatic : Bool} (hprepare : s.prepare settings input now = .ok record)
    (h : createChat P record s.operation s.regenerate automatic now db = .ok (a, db')) :
    ∃ operations, (∀ k, (db.operations.lookup k).isSome = true → (operations.lookup k).isSome = true) ∧
      (db' = { db with operations := operations } ∨
        ∃ row, db.chats.lookup s.chat = none ∧ row.Sound P operations s.chat record ∧ row.publicRevision = 0 ∧
          db' = { db with chats := db.chats.insert s.chat row, operations := operations }) := by
  obtain ⟨hgood, hkey, howner, hpending, -, -, hops⟩ := ChatStart.prepare_ok hprepare
  unfold createChat at h
  obtain ⟨-, h⟩ := Tx.bind_require_ok.1 (bind_get_ok.1 h)
  cases hprior : db.operations.lookup (record.owner, s.operation) with
  | some prior =>
    refine ⟨db.operations, fun _ hk => hk, .inl ?_⟩
    simp only [hprior] at h
    obtain ⟨r₁, db₁, hlocked, h⟩ := Tx.bind_ok.1 h
    obtain ⟨-, h⟩ := Tx.bind_require_ok.1 h
    cases h
    exact lockedRecord_reads hlocked
  | none =>
    simp only [hprior] at h
    -- the operation is recorded in both cases
    have hmono : ∀ v k, (db.operations.lookup k).isSome = true →
        ((db.operations.insert (record.owner, s.operation) v).lookup k).isSome = true := by
      intro v k hk
      rw [Table.lookup_insert_if]
      split
      · rfl
      · exact hk
    cases hlatest : if s.regenerate = true then none else db.latestChat record with
    | some latest =>
      simp only [hlatest] at h
      obtain ⟨r₁, -, h⟩ := bind_liftExcept_ok.1 h
      obtain ⟨_, db₁, hsave, h⟩ := Tx.bind_ok.1 h
      cases h
      exact ⟨_, hmono _, .inl (saveOperation_ok hsave)⟩
    | none =>
      simp only [hlatest] at h
      obtain ⟨published, hpublished, h⟩ := bind_liftExcept_ok.1 h
      obtain ⟨hnew, h⟩ := Tx.bind_require_ok.1 h
      obtain ⟨_, db₁, hsave, h⟩ := Tx.bind_ok.1 (bind_modify_ok.1 h)
      cases h
      rw [hkey] at hnew hsave
      refine ⟨_, hmono _, .inr ⟨newChatRow _ published automatic now, hnew, ?_, rfl, saveOperation_ok hsave⟩⟩
      refine ⟨⟨rfl, rfl, rfl, hkey, rfl, rfl, fun st hst => ?_, published, hpublished, rfl⟩, hgood, fun _ => rfl, ?_⟩
      · cases hst
        rfl
      · intro op hop
        rw [hops] at hop
        rw [List.mem_singleton.1 hop, Table.lookup_insert_if, if_pos rfl]
        rfl

end
end Inoreader
