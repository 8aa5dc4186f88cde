import Inoreader.Glossary.Moves

/-!
# Updates of the bot

The Bot API forgets every update below the offset of a request, so a request acknowledges what an earlier response
contained. Any number of pollers claim a channel, fetch from its bot, store the response and give the channel back;
claims expire at any time and answers are lost. What the server has forgotten is stored: the cursor of a channel and
the offset of every claim are covered by the table of events, whatever is in flight.
-/

namespace Inoreader
open Lib

/-- A later version of an event: the document stays, and so do the marks. -/
structure EventRow.Later (row row' : EventRow) : Prop where
  document : row'.document = row.document
  conflict : row.conflict = true → row'.conflict = true
  applied : row.applied = true → row'.applied = true

/-- The event holds a post of the channel, so that projecting it applies it to the posts. -/
def EventRow.posts (P : GlossaryPlatform) (parser : GlossaryParser) (channelId : Int) (row : EventRow) : Bool :=
  match (P.parseJson row.document).map (eventContent P parser channelId) with
  | some (.post _) => true
  | _ => false

/-- The cursor of a channel. -/
def GlossaryDb.pollCursor (db : GlossaryDb) (key : AccountId × WorkspaceId) : Option Int :=
  (db.channels.lookup key).bind (·.pollCursor)

/-- What polling keeps of the database. -/
def GlossaryDb.polled (db : GlossaryDb) :
    Table (AccountId × WorkspaceId × Int) EventRow × (AccountId × WorkspaceId → Option Int) := (db.events, db.pollCursor)

/-- Every stored event is still there, at a later version. -/
def GlossaryDb.KeepsEvents (db db' : GlossaryDb) : Prop :=
  ∀ k row, db.events.lookup k = some row → ∃ row', db'.events.lookup k = some row' ∧ row.Later row'

section
variable {P : GlossaryPlatform} {parser : GlossaryParser} {db db' : GlossaryDb} {key : AccountId × WorkspaceId}

theorem EventRow.Later.refl (row : EventRow) : row.Later row := ⟨rfl, fun h => h, fun h => h⟩

theorem EventRow.Later.trans {a b c : EventRow} (h : a.Later b) (h' : b.Later c) : a.Later c :=
  ⟨h'.document.trans h.document, fun hc => h'.conflict (h.conflict hc), fun ha => h'.applied (h.applied ha)⟩

theorem GlossaryDb.KeepsEvents.refl (db : GlossaryDb) : db.KeepsEvents db := fun _ row h => ⟨row, h, .refl row⟩

theorem GlossaryDb.KeepsEvents.trans {db₁ db₂ db₃ : GlossaryDb} (h : db₁.KeepsEvents db₂) (h' : db₂.KeepsEvents db₃) :
    db₁.KeepsEvents db₃ := by
  intro k row hrow
  obtain ⟨row', hrow', hlater⟩ := h k row hrow
  obtain ⟨row'', hrow'', hlater'⟩ := h' k row' hrow'
  exact ⟨row'', hrow'', hlater.trans hlater'⟩

theorem GlossaryDb.KeepsEvents.of_eq (h : db'.events = db.events) : db.KeepsEvents db' :=
  fun k row hrow => ⟨row, by rw [h]; exact hrow, .refl row⟩

theorem optionRel_refl (o : Option EventRow) : Option.Rel EventRow.Later o o := by
  cases o with
  | none => exact .none
  | some row => exact .some (.refl row)

theorem rel_some {row : EventRow} {o : Option EventRow} (h : Option.Rel EventRow.Later (some row) o) :
    ∃ row', o = some row' ∧ row.Later row' := by
  cases h with
  | some hl => exact ⟨_, rfl, hl⟩

/-! ## The effect of a transaction on the events -/

theorem polled_ext (hevents : db'.events = db.events)
    (hcursor : ∀ key, (db'.channels.lookup key).bind (·.pollCursor) = (db.channels.lookup key).bind (·.pollCursor)) :
    db'.polled = db.polled := by
  have hfun : db'.pollCursor = db.pollCursor := funext hcursor
  unfold GlossaryDb.polled
  rw [hevents, hfun]

/-- Writing another field of a channel leaves its cursor. -/
theorem cursor_setChannel {channel : ChannelRow} (hchannel : db.channels.lookup key = some channel) {row : ChannelRow}
    (hrow : row.pollCursor = channel.pollCursor) : (db.setChannel key row).polled = db.polled := by
  refine polled_ext rfl fun k => ?_
  show ((db.channels.insert key row).lookup k).bind _ = _
  rw [Table.lookup_insert_if]
  split
  · rename_i hk
    rw [hk, hchannel]
    exact hrow
  · rfl

theorem keeps_storePost {k : PostKey} {row : PostRow} : Tx.Keeps GlossaryDb.polled (storePost k row) := by
  refine Tx.keeps_bind (Tx.keeps_modify fun _ => rfl) fun _ => Tx.keeps_bind (Tx.keeps_modify fun _ => rfl) fun _ => ?_
  refine Tx.keeps_bind (Tx.keeps_loop (fun _ d => ?_) _ _) fun _ => Tx.keeps_modify fun db => ?_
  · exact Tx.keeps_bind Tx.keeps_get fun _ => Tx.keeps_bind (Tx.keeps_require _ _) fun _ => Tx.keeps_modify fun _ => rfl
  · refine polled_ext rfl fun key => ?_
    dsimp only
    rw [Table.lookup_update]
    split
    · rename_i hk
      rw [hk]
      cases db.channels.lookup (k.owner, k.workspace) with
      | none => rfl
      | some c => rfl
    · rfl

theorem keeps_applyPost {version : String} {owner : AccountId} {workspace : WorkspaceId} {post : ObservedPost} {receipt : Nat}
    {kind : PostKind} : Tx.Keeps GlossaryDb.polled (applyPost version owner workspace post receipt kind) := by
  unfold applyPost
  refine Tx.keeps_bind Tx.keeps_get fun _ => Tx.keeps_bind (Tx.keeps_modify fun _ => rfl) fun _ => ?_
  split
  · exact keeps_storePost
  · split
    · exact Tx.keeps_pure _
    · exact Tx.keeps_modify fun _ => rfl
    · exact Tx.keeps_modify fun _ => rfl
    · exact keeps_storePost

/-- An event is projected: only its own row is written, and it is applied if it holds a post. -/
theorem projectEvent_ok {channelId : Int} {event : Int × EventRow} {u : Unit}
    (h : projectEvent P parser key.1 key.2 channelId event db = .ok (u, db')) :
    ∃ error : Option String, db'.pollCursor = db.pollCursor ∧
      (∀ k, db'.events.lookup k = if k = (key.1, key.2, event.1) then
        (db.events.lookup k).map fun row => { row with applied := error.isNone, error := error }
        else db.events.lookup k) ∧
      (event.2.posts P parser channelId = true → error = none) := by
  unfold projectEvent at h
  obtain ⟨value, hvalue, h⟩ := Tx.bind_orThrow_ok.1 h
  have hfinish : ∀ (db₁ : GlossaryDb) (error : Option String), db₁.polled = db.polled →
      finishEvent (key.1, key.2, event.1) error db₁ = .ok (u, db') → db'.pollCursor = db.pollCursor ∧
      ∀ k, db'.events.lookup k = if k = (key.1, key.2, event.1) then
        (db.events.lookup k).map fun row => { row with applied := error.isNone, error := error }
        else db.events.lookup k := by
    intro db₁ error hpolled hfinish
    obtain ⟨hevents, hcursor⟩ := Prod.mk.inj hpolled
    cases hfinish
    refine ⟨hcursor, fun k => ?_⟩
    dsimp only
    rw [Table.lookup_update, hevents]
  cases hcontent : eventContent P parser channelId value with
  | post post =>
    simp only [hcontent] at h
    obtain ⟨_, db₁, happly, h⟩ := Tx.bind_ok.1 h
    obtain ⟨hcursor, hevents⟩ := hfinish db₁ none (keeps_applyPost _ _ _ happly) h
    exact ⟨none, hcursor, hevents, fun _ => rfl⟩
  | ignored =>
    simp only [hcontent] at h
    obtain ⟨hcursor, hevents⟩ := hfinish db none rfl h
    exact ⟨none, hcursor, hevents, fun _ => rfl⟩
  | failed e =>
    simp only [hcontent] at h
    obtain ⟨hcursor, hevents⟩ := hfinish db (some e.text) rfl h
    refine ⟨some e.text, hcursor, hevents, fun hposts => ?_⟩
    simp [EventRow.posts, hvalue, hcontent] at hposts

/-- A pass over pending events keeps every row at a later version, and those with a post end applied. -/
theorem projectLoop_ok {channelId : Int} {events : List (Int × EventRow)} {u : Unit}
    (hnodup : (events.map (·.1)).Nodup)
    (hpending : ∀ e ∈ events, db.events.lookup (key.1, key.2, e.1) = some e.2 ∧ e.2.applied = false)
    (h : Tx.loop (fun _ event => projectEvent P parser key.1 key.2 channelId event) () events db = .ok (u, db')) :
    db'.pollCursor = db.pollCursor ∧ (∀ k, Option.Rel EventRow.Later (db.events.lookup k) (db'.events.lookup k)) ∧
      (∀ k, (∀ e ∈ events, k ≠ (key.1, key.2, e.1)) → db'.events.lookup k = db.events.lookup k) ∧
      ∀ e ∈ events, e.2.posts P parser channelId = true →
        ∃ row, db'.events.lookup (key.1, key.2, e.1) = some row ∧ row.applied = true := by
  induction events generalizing db with
  | nil =>
    cases h
    refine ⟨rfl, fun k => ?_, fun _ _ => rfl, by simp⟩
    exact optionRel_refl _
  | cons e events ih =>
    obtain ⟨_, db₁, hevent, h⟩ := Tx.bind_ok.1 h
    obtain ⟨error, hcursor, hevents, hposts⟩ := projectEvent_ok hevent
    obtain ⟨hnot, hnodup⟩ := List.nodup_cons.1 hnodup
    obtain ⟨hrow, hunapplied⟩ := hpending e List.mem_cons_self
    -- the other events of the batch have other ids
    have hother : ∀ e' ∈ events, (key.1, key.2, e'.1) ≠ (key.1, key.2, e.1) := by
      intro e' he' heq
      have hid : e'.1 = e.1 := congrArg (fun k => k.2.2) heq
      exact hnot (List.mem_map.2 ⟨e', he', hid⟩)
    obtain ⟨hcursor', hlater, hkept, happlied⟩ := ih hnodup
      (fun e' he' => by
        rw [hevents, if_neg (hother e' he')]
        exact hpending e' (List.mem_cons_of_mem _ he')) h
    refine ⟨hcursor'.trans hcursor, fun k => ?_, fun k hk => ?_, fun e' he' hpost => ?_⟩
    · have hlaterk := hlater k
      rw [hevents] at hlaterk
      split at hlaterk
      · rename_i hk
        rw [hk, hrow] at hlaterk
        rw [hk, hrow]
        obtain ⟨row', hrow', hl⟩ := rel_some hlaterk
        rw [hrow']
        refine .some ⟨hl.document, fun hc => hl.conflict hc, fun ha => ?_⟩
        rw [hunapplied] at ha
        cases ha
      · exact hlaterk
    · rw [hkept k fun e' he' => hk e' (List.mem_cons_of_mem _ he'), hevents, if_neg (hk e List.mem_cons_self)]
    · rcases List.mem_cons.1 he' with rfl | he'
      · rw [hkept _ fun e' he' => (hother e' he').symm, hevents, if_pos rfl, hrow, hposts hpost]
        exact ⟨_, rfl, rfl⟩
      · exact happlied e' he' hpost

theorem mem_pendingEvents {e : Int × EventRow} (h : e ∈ db.pendingEvents key.1 key.2) :
    db.events.lookup (key.1, key.2, e.1) = some e.2 ∧ e.2.applied = false := by
  simp only [GlossaryDb.pendingEvents, List.mem_insertionSort, List.mem_map, List.mem_filter, Bool.and_eq_true, beq_iff_eq,
    Bool.not_eq_true'] at h
  obtain ⟨⟨⟨owner, workspace, id⟩, row⟩, ⟨hrow, ⟨⟨howner, hworkspace⟩, hunapplied⟩, -⟩, rfl⟩ := h
  simp only at howner hworkspace
  subst howner hworkspace
  exact ⟨Table.mem_rows.1 hrow, hunapplied⟩

theorem nodup_pendingEvents : ((db.pendingEvents key.1 key.2).map (·.1)).Nodup := by
  have hperm := (List.perm_insertionSort (fun a b : Int × EventRow => a.1 ≤ b.1) ((db.events.rows.filter fun e =>
    e.1.1 == key.1 && e.1.2.1 == key.2 && !e.2.applied && e.2.error.isNone).map fun e => (e.1.2.2, e.2))).map (·.1)
  refine hperm.nodup_iff.2 ?_
  rw [List.map_map]
  -- rows of one channel with one id are one row
  have hkeys := ((Table.nodup_rows db.events).of_map.filter fun e =>
    e.1.1 == key.1 && e.1.2.1 == key.2 && !e.2.applied && e.2.error.isNone)
  refine hkeys.map_on ?_
  rintro ⟨⟨o, w, i⟩, row⟩ hx ⟨⟨o', w', i'⟩, row'⟩ hy heq
  obtain ⟨hmem, hx⟩ := List.mem_filter.1 hx
  obtain ⟨hmem', hy⟩ := List.mem_filter.1 hy
  simp only [Bool.and_eq_true, beq_iff_eq] at hx hy
  obtain ⟨⟨⟨rfl, rfl⟩, -⟩, -⟩ := hx
  obtain ⟨⟨⟨rfl, rfl⟩, -⟩, -⟩ := hy
  have hi : i = i' := heq
  subst hi
  have hrow := (Table.mem_rows.1 hmem).symm.trans (Table.mem_rows.1 hmem')
  cases hrow
  rfl

/-- The events of the channel that a batch of `project_events` applies to the posts. -/
def GlossaryDb.appliedBy (P : GlossaryPlatform) (parser : GlossaryParser) (db : GlossaryDb) (key : AccountId × WorkspaceId)
    (batchSize : Nat) : List Int :=
  match (db.channels.lookup key).bind (·.binding) with
  | none => []
  | some channelId =>
    (((db.pendingEvents key.1 key.2).take batchSize).filter (·.2.posts P parser channelId)).map (·.1)

theorem projectEvents_ok {batchSize : Nat} {u : Unit}
    (h : projectEvents P parser key.1 key.2 batchSize db = .ok (u, db')) :
    db'.pollCursor = db.pollCursor ∧ (∀ k, Option.Rel EventRow.Later (db.events.lookup k) (db'.events.lookup k)) ∧
      (∀ id ∈ db.appliedBy P parser key batchSize, ∃ row row', db.events.lookup (key.1, key.2, id) = some row ∧
        row.applied = false ∧ db'.events.lookup (key.1, key.2, id) = some row' ∧ row'.applied = true) ∧
      (db.appliedBy P parser key batchSize).Nodup := by
  unfold projectEvents at h
  obtain ⟨channel, hchannel, h⟩ := Tx.bind_orThrow_ok.1 (Tx.bind_get_ok.1 h)
  obtain ⟨channelId, hbinding, h⟩ := Tx.bind_orThrow_ok.1 h
  obtain ⟨-, h⟩ := Tx.bind_require_ok.1 h
  have hpending : ∀ e ∈ (db.pendingEvents key.1 key.2).take batchSize,
      db.events.lookup (key.1, key.2, e.1) = some e.2 ∧ e.2.applied = false :=
    fun e he => mem_pendingEvents (List.mem_of_mem_take he)
  have hnodup : (((db.pendingEvents key.1 key.2).take batchSize).map (·.1)).Nodup :=
    nodup_pendingEvents.sublist ((List.take_sublist _ _).map _)
  obtain ⟨hcursor, hlater, -, happlied⟩ := projectLoop_ok hnodup hpending h
  have hbind : (db.channels.lookup key).bind (·.binding) = some channelId := by rw [hchannel]; exact hbinding
  refine ⟨hcursor, hlater, ?_, ?_⟩
  · intro id hid
    unfold GlossaryDb.appliedBy at hid
    rw [hbind] at hid
    obtain ⟨e, he, rfl⟩ := List.mem_map.1 hid
    obtain ⟨he, hposts⟩ := List.mem_filter.1 he
    obtain ⟨row', hrow', happlied'⟩ := happlied e he hposts
    exact ⟨e.2, row', (hpending e he).1, (hpending e he).2, hrow', happlied'⟩
  · unfold GlossaryDb.appliedBy
    rw [hbind]
    exact hnodup.sublist (List.filter_sublist.map _)

/-- One event of a batch is stored, or its payload is compared with the stored one. -/
theorem saveEvent_ok {receipt : Nat} {event : Int × String} {u : Unit}
    (h : saveEvent key.1 key.2 receipt event db = .ok (u, db')) :
    db'.channels = db.channels ∧
      (∀ k, k ≠ (key.1, key.2, event.1) → db'.events.lookup k = db.events.lookup k) ∧
      ∃ row', db'.events.lookup (key.1, key.2, event.1) = some row' ∧
        (row'.document = event.2 ∨ row'.conflict = true) ∧
        ((∃ row, db.events.lookup (key.1, key.2, event.1) = some row ∧ row.Later row') ∨
          (db.events.lookup (key.1, key.2, event.1) = none ∧ row'.document = event.2)) := by
  unfold saveEvent at h
  have h := Tx.bind_get_ok.1 h
  cases hold : db.events.lookup (key.1, key.2, event.1) with
  | none =>
    simp only [hold] at h
    cases h
    refine ⟨rfl, fun k hk => by dsimp only; rw [Table.lookup_insert_if, if_neg hk], _,
      by dsimp only; rw [Table.lookup_insert_if, if_pos rfl], .inl rfl, .inr ⟨rfl, rfl⟩⟩
  | some previous =>
    simp only [hold] at h
    unfold Tx.onlyIf at h
    split at h
    · cases h
      refine ⟨rfl, fun k hk => by dsimp only; rw [Table.lookup_insert_if, if_neg hk], _,
        by dsimp only; rw [Table.lookup_insert_if, if_pos rfl], .inr rfl, .inl ⟨previous, rfl, ?_⟩⟩
      exact ⟨rfl, fun _ => rfl, fun ha => ha⟩
    · rename_i hsame
      cases h
      exact ⟨rfl, fun _ _ => rfl, previous, hold, .inl (not_not.1 hsame), .inl ⟨previous, rfl, .refl previous⟩⟩

/-- What storing the events of a response does. -/
structure GlossaryDb.Saved (db db' : GlossaryDb) (key : AccountId × WorkspaceId) (events : List (Int × String)) : Prop where
  kept : db.KeepsEvents db'
  /-- Every payload is the stored document, or the event is marked. -/
  stored : ∀ e ∈ events, ∃ row, db'.events.lookup (key.1, key.2, e.1) = some row ∧
    (row.document = e.2 ∨ row.conflict = true)
  /-- A stored document was stored before or comes from the response. -/
  source : ∀ k row', db'.events.lookup k = some row' → (∃ row, db.events.lookup k = some row ∧ row'.document = row.document) ∨
    ∃ e ∈ events, k = (key.1, key.2, e.1) ∧ row'.document = e.2

theorem saveEvents_ok (key : AccountId × WorkspaceId) {receipt : Nat} {events : List (Int × String)} {u : Unit}
    (h : Tx.loop (fun _ event => saveEvent key.1 key.2 receipt event) () events db = .ok (u, db')) :
    db'.channels = db.channels ∧ db.Saved db' key events := by
  induction events generalizing db with
  | nil =>
    cases h
    exact ⟨rfl, .refl _, by simp, fun k row' h => .inl ⟨row', h, rfl⟩⟩
  | cons e events ih =>
    obtain ⟨_, db₁, hevent, h⟩ := Tx.bind_ok.1 h
    obtain ⟨hchannels, hother, row₁, hrow₁, hpayload, hold⟩ := saveEvent_ok hevent
    obtain ⟨hchannels', hkept, hstored, hsource⟩ := ih h
    have hkept₁ : db.KeepsEvents db₁ := by
      intro k row hrow
      by_cases hk : k = (key.1, key.2, e.1)
      · subst hk
        rcases hold with ⟨row₀, hrow₀, hlater⟩ | ⟨hnone, -⟩
        · rw [hrow] at hrow₀
          cases hrow₀
          exact ⟨row₁, hrow₁, hlater⟩
        · rw [hrow] at hnone
          cases hnone
      · exact ⟨row, by rw [hother k hk]; exact hrow, .refl row⟩
    refine ⟨hchannels'.trans hchannels, hkept₁.trans hkept, fun e' he' => ?_, fun k row' hrow' => ?_⟩
    · rcases List.mem_cons.1 he' with rfl | he'
      · obtain ⟨row', hrow', hlater⟩ := hkept _ _ hrow₁
        refine ⟨row', hrow', ?_⟩
        rcases hpayload with hdoc | hconflict
        · exact .inl (hlater.document.trans hdoc)
        · exact .inr (hlater.conflict hconflict)
      · exact hstored e' he'
    · rcases hsource k row' hrow' with ⟨row₂, hrow₂, hdoc⟩ | ⟨e', he', hk, hdoc⟩
      · by_cases hk : k = (key.1, key.2, e.1)
        · subst hk
          rw [hrow₁] at hrow₂
          cases hrow₂
          rcases hold with ⟨row₀, hrow₀, hlater⟩ | ⟨-, hnew⟩
          · exact .inl ⟨row₀, hrow₀, hdoc.trans hlater.document⟩
          · exact .inr ⟨e, List.mem_cons_self, rfl, hdoc.trans hnew⟩
        · rw [hother k hk] at hrow₂
          exact .inl ⟨row₂, hrow₂, hdoc⟩
      · exact .inr ⟨e', List.mem_cons_of_mem _ he', hk, hdoc⟩

/-- A response is stored with the next offset, or it was empty. -/
theorem persistBatch_ok {claim : PollClaim} {batch : UpdateBatch} {receipt : Nat} {now : DateTime} {u : Unit}
    (h : persistBatch claim batch receipt now db = .ok (u, db')) :
    (batch.updates = [] ∧ db' = db) ∨
    (batch.updates ≠ [] ∧ db.Saved db' (claim.owner, claim.workspace) batch.updates ∧
      ∀ key, db'.pollCursor key = if key = (claim.owner, claim.workspace) ∧ (db.channels.lookup key).isSome then batch.nextOffset
        else db.pollCursor key) := by
  unfold persistBatch at h
  obtain ⟨channel, hchannel, h⟩ := Tx.bind_orThrow_ok.1 (Tx.bind_get_ok.1 h)
  obtain ⟨-, h⟩ := Tx.bind_require_ok.1 h
  cases hupdates : batch.updates with
  | nil =>
    simp only [hupdates] at h
    cases h
    exact .inl ⟨rfl, rfl⟩
  | cons e events =>
    simp only [hupdates] at h
    obtain ⟨offset, -, h⟩ := Tx.bind_orThrow_ok.1 h
    obtain ⟨_, db₁, hreceipt, h⟩ := Tx.bind_ok.1 h
    cases hreceipt
    obtain ⟨_, db₂, hloop, h⟩ := Tx.bind_ok.1 h
    obtain ⟨hchannels, hsaved⟩ := saveEvents_ok (claim.owner, claim.workspace) hloop
    cases h
    refine .inr ⟨by simp, ⟨hsaved.kept, hsaved.stored, hsaved.source⟩, fun key => ?_⟩
    show ((db₂.channels.update _ _).lookup key).bind _ = _
    rw [Table.lookup_update, hchannels]
    dsimp only
    by_cases hkey : key = (claim.owner, claim.workspace)
    · subst hkey
      rw [if_pos rfl, hchannel, if_pos ⟨rfl, rfl⟩]
      rfl
    · rw [if_neg hkey, if_neg fun hk => hkey hk.1]
      rfl

theorem readUpdates_ok {previous : Option Int} {response : List (Option Int × String)} {updates : List (Int × String)}
    (h : readUpdates previous response = .ok updates) : response = updates.map fun u => (some u.1, u.2) := by
  induction response generalizing previous updates with
  | nil =>
    cases h
    rfl
  | cons update rest ih =>
    unfold readUpdates at h
    split at h
    · cases h
    · rename_i id hid
      split at h
      · cases h
      · cases hrest : readUpdates (some id) rest with
        | error e =>
          rw [hrest] at h
          cases h
        | ok updates' =>
          rw [hrest] at h
          cases h
          have hsome : update.1 = some id := (Option.filter_eq_some_iff.1 hid).1
          rw [List.map_cons, ← ih hrest, ← hsome]

theorem updateBatch_new_ok {raw : String} {response : List (Option Int × String)} {batch : UpdateBatch}
    (h : UpdateBatch.new raw response = .ok batch) :
    response = batch.updates.map (fun u => (some u.1, u.2)) ∧
      ∀ last, batch.updates.getLast? = some last → batch.nextOffset = some (last.1 + 1) := by
  unfold UpdateBatch.new at h
  split at h
  · cases h
  · rename_i updates hread
    have hresponse := readUpdates_ok hread
    split at h
    · rename_i hlast
      cases h
      refine ⟨hresponse, fun last hl => ?_⟩
      dsimp only at hl
      rw [hlast] at hl
      cases hl
    · rename_i last hlast
      split at h
      · cases h
        refine ⟨hresponse, fun last' hl => ?_⟩
        dsimp only at hl
        rw [hlast] at hl
        cases hl
        rfl
      · cases h

/-! ## Transactions that leave the events and the cursor -/

theorem leasePoll_polled {timeText : DateTime → String} {lease seconds : Nat} {now : DateTime} {claim : Option PollClaim}
    (h : leasePoll timeText key lease seconds now db = .ok (claim, db')) :
    db'.polled = db.polled ∧ ∀ c, claim = some c → (c.owner, c.workspace) = key ∧ c.offset = db.pollCursor key := by
  unfold leasePoll at h
  have h := Tx.bind_get_ok.1 h
  cases hchannel : db.channels.lookup key with
  | none =>
    simp only [hchannel] at h
    cases h
    exact ⟨rfl, fun c hc => by cases hc⟩
  | some channel =>
    simp only [hchannel] at h
    split at h
    · obtain ⟨_, db₁, hset, h⟩ := Tx.bind_ok.1 h
      cases hset
      obtain ⟨-, h⟩ := Tx.bind_require_ok.1 h
      cases h
      refine ⟨cursor_setChannel hchannel ?_, fun c hc => ?_⟩
      · unfold ChannelRow.claimed
        dsimp only
        split <;> rfl
      · cases hc
        exact ⟨rfl, by unfold GlossaryDb.pollCursor; rw [hchannel]; rfl⟩
    · cases h
      exact ⟨rfl, fun c hc => by cases hc⟩

theorem releasePoll_polled {claim : PollClaim} {error : Option String} {retry : Nat} {now : DateTime} {u : Unit}
    (h : releasePoll claim error retry now db = .ok (u, db')) : db'.polled = db.polled := by
  unfold releasePoll at h
  obtain ⟨channel, hchannel, h⟩ := Tx.bind_orThrow_ok.1 (Tx.bind_get_ok.1 h)
  obtain ⟨-, h⟩ := Tx.bind_require_ok.1 h
  cases h
  exact cursor_setChannel hchannel rfl

/-- Clearing errors touches neither documents nor marks. -/
theorem requeued_rel (key : AccountId × WorkspaceId) (k : AccountId × WorkspaceId × Int) :
    Option.Rel EventRow.Later (db.events.lookup k) ((db.requeued key.1 key.2).events.lookup k) := by
  have hfold : ∀ (xs : List ((AccountId × WorkspaceId × Int) × EventRow)) (t : Table (AccountId × WorkspaceId × Int) EventRow),
      (∀ e ∈ xs, db.events.lookup e.1 = some e.2) →
      (∀ k, Option.Rel EventRow.Later (db.events.lookup k) (t.lookup k)) → ∀ k,
      Option.Rel EventRow.Later (db.events.lookup k) ((xs.foldl (fun t e =>
        if e.1.1 = key.1 ∧ e.1.2.1 = key.2 ∧ e.2.applied = false ∧ e.2.conflict = false then
          t.insert e.1 { e.2 with error := none }
        else t) t).lookup k) := by
    intro xs
    induction xs with
    | nil => exact fun t _ ht k => ht k
    | cons e xs ih =>
      intro t hxs ht
      rw [List.foldl_cons]
      refine ih _ (fun e' he' => hxs e' (List.mem_cons_of_mem _ he')) fun k => ?_
      split
      · rw [Table.lookup_insert_if]
        split
        · rename_i hk
          rw [hk, hxs e List.mem_cons_self]
          exact .some ⟨rfl, fun h => h, fun h => h⟩
        · exact ht k
      · exact ht k
  exact hfold db.events.rows db.events (fun e he => Table.mem_rows.1 he) (fun k => optionRel_refl _) k

/-- A batch of a reindexing applies stored posts again, or clears the errors of events. -/
theorem reindexBatch_ok {cursor : Int} {batchSize : Nat} {u : Unit}
    (h : reindexBatch P parser key.1 key.2 cursor batchSize db = .ok (u, db')) :
    db'.pollCursor = db.pollCursor ∧ ∀ k, Option.Rel EventRow.Later (db.events.lookup k) (db'.events.lookup k) := by
  unfold reindexBatch at h
  obtain ⟨channel, hchannel, h⟩ := Tx.bind_orThrow_ok.1 (Tx.bind_get_ok.1 h)
  cases hentries : (db.postsAfter key.1 key.2 cursor).take batchSize with
  | nil =>
    simp only [hentries] at h
    cases h
    exact ⟨rfl, fun k => requeued_rel key k⟩
  | cons entry entries =>
    simp only [hentries] at h
    have hpolled : db'.polled = db.polled := by
      refine Tx.keeps_loop (fun _ entry => ?_) _ _ _ _ _ h
      unfold reindexPost
      split
      · exact Tx.keeps_throw _
      · exact Tx.keeps_bind (Tx.keeps_require _ _) fun _ => keeps_applyPost
    obtain ⟨hevents, hcursor⟩ := Prod.mk.inj hpolled
    exact ⟨hcursor, fun k => by rw [hevents]; exact optionRel_refl _⟩

end
end Inoreader
